import Mathlib.Data.Finset.Card
import Mathlib.Algebra.BigOperators.Group.List.Basic
import Mathlib.Algebra.Ring.Nat

/-! # `select` over `poll`

`select` makes one list of pollfds out of three sets of descriptors, lets `poll` wait, and makes
three sets out of the events that `poll` leaves in the list.
-/

namespace NuttxAvr32.Select

/-- The words of an `fd_set`, and what lies behind them. -/
abbrev FdSet := Nat → BitVec 32

def fdNdx (fd : Nat) : Nat := fd >>> 5

def fdBit (fd : Nat) : Nat := fd &&& 0x1f

def fdSet (fd : Nat) (set : FdSet) : FdSet :=
  Function.update set (fdNdx fd) (set (fdNdx fd) ||| 1#32 <<< fdBit fd)

def fdIsset (fd : Nat) (set : FdSet) : Bool := set (fdNdx fd) &&& 1#32 <<< fdBit fd ≠ 0

def fdZero (nuint32 : Nat) (set : FdSet) : FdSet := fun k => if k < nuint32 then 0 else set k

section

variable {fd fd' nuint32 : Nat} {set : FdSet}

theorem fdBit_eq (fd : Nat) : fdBit fd = fd % 32 := Nat.and_two_pow_sub_one_eq_mod fd 5

theorem fdNdx_eq (fd : Nat) : fdNdx fd = fd / 32 := Nat.shiftRight_eq_div_pow fd 5

theorem fdIsset_eq : fdIsset fd set = (set (fdNdx fd)).getLsbD (fdBit fd) := by
  have hbit : fdBit fd < 32 := by
    rw [fdBit_eq]
    exact Nat.mod_lt _ (by decide)
  have hand := BitVec.and_twoPow (set (fdNdx fd)) (fdBit fd)
  unfold fdIsset
  rw [show (1#32 <<< fdBit fd) = BitVec.twoPow 32 (fdBit fd) from rfl, hand]
  cases (set (fdNdx fd)).getLsbD (fdBit fd) with
  | false => simp
  | true =>
    have hne : BitVec.twoPow 32 (fdBit fd) ≠ 0#32 := by
      intro h0
      have hget := congrArg (fun x => x.getLsbD (fdBit fd)) h0
      simp [BitVec.getLsbD_twoPow, hbit] at hget
    simpa using hne

theorem fdIsset_fdSet : fdIsset fd' (fdSet fd set) = (decide (fd' = fd) || fdIsset fd' set) := by
  have hbit : fdBit fd < 32 := by
    rw [fdBit_eq]
    exact Nat.mod_lt _ (by decide)
  rw [fdIsset_eq, fdIsset_eq]
  unfold fdSet
  by_cases hndx : fdNdx fd' = fdNdx fd
  · rw [hndx, Function.update_self, BitVec.getLsbD_or,
      show (1#32 <<< fdBit fd) = BitVec.twoPow 32 (fdBit fd) from rfl, BitVec.getLsbD_twoPow]
    have heq : fdBit fd = fdBit fd' ↔ fd' = fd := by
      rw [fdNdx_eq, fdNdx_eq] at hndx
      rw [fdBit_eq, fdBit_eq]
      omega
    simp only [hbit, decide_true, Bool.true_and, heq, Bool.or_comm]
  · rw [Function.update_of_ne hndx]
    have hne : fd' ≠ fd := fun h => hndx (h ▸ rfl)
    simp [hne]

theorem fdIsset_fdZero (h : fd < 32 * nuint32) : fdIsset fd (fdZero nuint32 set) = false := by
  have hndx : fdNdx fd < nuint32 := by
    rw [fdNdx_eq]
    omega
  unfold fdIsset fdZero
  simp [hndx]

def fdCount (nuint32 : Nat) (set : FdSet) : Nat :=
  ((Finset.range (32 * nuint32)).filter fun fd => fdIsset fd set = true).card

theorem fdCount_fdZero : fdCount nuint32 (fdZero nuint32 set) = 0 := by
  unfold fdCount
  rw [Finset.card_eq_zero, Finset.filter_eq_empty_iff]
  intro fd hfd
  rw [fdIsset_fdZero (Finset.mem_range.mp hfd)]
  decide

theorem fdCount_fdSet (hfd : fd < 32 * nuint32) (hnew : fdIsset fd set = false) :
    fdCount nuint32 (fdSet fd set) = fdCount nuint32 set + 1 := by
  unfold fdCount
  rw [← Finset.card_insert_of_notMem (a := fd)]
  · congr 1
    ext x
    simp only [Finset.mem_filter, Finset.mem_range, Finset.mem_insert, fdIsset_fdSet,
      Bool.or_eq_true, decide_eq_true_eq]
    constructor
    · rintro ⟨hx, rfl | hin⟩
      · exact .inl rfl
      · exact .inr ⟨hx, hin⟩
    · rintro (rfl | ⟨hx, hin⟩)
      · exact ⟨hfd, .inl rfl⟩
      · exact ⟨hx, .inr hin⟩
  · simp [hnew]

end

abbrev pollin : UInt8 := 0x01
abbrev pollout : UInt8 := 0x02
abbrev pollerr : UInt8 := 0x04

structure Pollfd where
  fd : Nat
  events : UInt8
deriving DecidableEq, Repr

/-- `tv_sec` is unsigned. -/
structure Timeval where
  tvSec : Nat
  tvUsec : Int
deriving DecidableEq, Repr

/-- The arguments; `none` is `NULL`. -/
structure Args where
  nfds : Nat
  readfds : Option FdSet
  writefds : Option FdSet
  exceptfds : Option FdSet
  timeout : Option Timeval

/-- Which events `poll` reports: the requested ones, and errors. Its result is the number of
entries with events, or negative. -/
structure Oracle where
  poll : List Pollfd → Int → Int × List UInt8
  length : ∀ l msec, (poll l msec).2.length = l.length
  count : ∀ l msec, 0 ≤ (poll l msec).1 → (poll l msec).1 = (poll l msec).2.countP (· ≠ 0)
  requested : ∀ (l : List Pollfd) msec, ∀ x ∈ l.zip (poll l msec).2,
    (x.2 &&& pollin ≠ 0 → x.1.events &&& pollin ≠ 0) ∧
      (x.2 &&& pollout ≠ 0 → x.1.events &&& pollout ≠ 0)

/-- The number of words of an `fd_set`, what `zalloc` can give, what stands at address zero, and
`poll`. -/
structure Env extends Oracle where
  nuint32 : Nat
  nuint32_le : nuint32 ≤ 8
  zalloc : Nat → Bool
  zalloc_zero : zalloc 0 = false
  atNull : Timeval

structure Result where
  ret : Int
  readfds : Option FdSet
  writefds : Option FdSet
  exceptfds : Option FdSet
  polled : Option (List Pollfd × Int)

def isIn (set : Option FdSet) (fd : Nat) : Bool := set.any (fdIsset fd)

def Args.events (a : Args) (fd : Nat) : UInt8 :=
  (if isIn a.readfds fd then pollin else 0) ||| (if isIn a.writefds fd then pollout else 0)

def Args.pollset (a : Args) : Nat → List Pollfd
  | 0 => []
  | n + 1 =>
    a.pollset n ++
      if isIn a.readfds n || isIn a.writefds n || isIn a.exceptfds n then [⟨n, a.events n⟩]
      else []

/-- The time in milliseconds, in 32 bits. -/
def Timeval.msec (t : Timeval) : Int :=
  ((t.tvSec : Int) * 1000 + t.tvUsec.tdiv 1000).bmod (2 ^ 32)

/-- The events of one kind of an entry, for one of the sets. -/
def mark (event : UInt8) (set : Option FdSet) (x : Pollfd × UInt8) : Option FdSet :=
  set.map fun set => if x.2 &&& event ≠ 0 then fdSet x.1.fd set else set

def hit (event : UInt8) (set : Option FdSet) (x : Pollfd × UInt8) : Nat :=
  if set.isSome ∧ x.2 &&& event ≠ 0 then 1 else 0

def collect (r : Result) (x : Pollfd × UInt8) : Result :=
  { r with
    ret := r.ret + hit pollin r.readfds x + hit pollout r.writefds x + hit pollerr r.exceptfds x
    readfds := mark pollin r.readfds x
    writefds := mark pollout r.writefds x
    exceptfds := mark pollerr r.exceptfds x }

/-- The time given to `poll`; without a timeout it is read at address zero. -/
def Args.msec (a : Args) (env : Env) : Int := (a.timeout.getD env.atNull).msec

def Args.answer (a : Args) (env : Env) : Int × List UInt8 :=
  env.poll (a.pollset a.nfds) (a.msec env)

def Args.memory (a : Args) (env : Env) : Bool := env.zalloc (a.nfds * 16 % 2 ^ 32)

def select (env : Env) (a : Args) : Result :=
  if a.memory env then
    let pollset := a.pollset a.nfds
    let answer := a.answer env
    let cleared : Result :=
      ⟨answer.1, a.readfds.map (fdZero env.nuint32), a.writefds.map (fdZero env.nuint32),
        a.exceptfds.map (fdZero env.nuint32), some (pollset, a.msec env)⟩
    if 0 < answer.1 then (pollset.zip answer.2).foldl collect { cleared with ret := 0 }
    else cleared
  else ⟨-1, a.readfds, a.writefds, a.exceptfds, none⟩

/-- The list has the descriptors of the sets below `nfds`, each once, with the events of the sets
they are in. -/
structure Monitors (a : Args) (l : List Pollfd) : Prop where
  nodup : (l.map Pollfd.fd).Nodup
  fds : ∀ fd, fd ∈ l.map Pollfd.fd ↔ fd < a.nfds ∧
    (isIn a.readfds fd = true ∨ isIn a.writefds fd = true ∨ isIn a.exceptfds fd = true)
  events : ∀ p ∈ l, (p.events &&& pollin ≠ 0 ↔ isIn a.readfds p.fd = true) ∧
    (p.events &&& pollout ≠ 0 ↔ isIn a.writefds p.fd = true) ∧ p.events &&& ~~~3 = 0

/-- The descriptors of the set that is left are in the set that was given. -/
def Within (env : Env) (set set' : Option FdSet) : Prop :=
  ∀ fd < 32 * env.nuint32, isIn set' fd = true → isIn set fd = true

def size (env : Env) (set : Option FdSet) : Nat := (set.map (fdCount env.nuint32)).getD 0

structure Serves (env : Env) (a : Args) (r : Result) : Prop where
  polled : ∃ l msec, r.polled = some (l, msec) ∧ Monitors a l ∧ (a.timeout = none → msec < 0) ∧
    (0 < (env.poll l msec).1 → r.ret ≠ 0) ∧
    ((env.poll l msec).1 < 0 ∧ r.ret < 0 ∨
      r.ret = size env r.readfds + size env r.writefds + size env r.exceptfds)
  readfds : Within env a.readfds r.readfds
  writefds : Within env a.writefds r.writefds
  exceptfds : Within env a.exceptfds r.exceptfds

def Right (env : Env) (a : Args) (r : Result) : Prop :=
  if 0 < a.nfds ∧ a.memory env = false then
    r = ⟨-1, a.readfds, a.writefds, a.exceptfds, none⟩
  else Serves env a r

/-- What `poll` reports on an entry is an event that `select` has a set for, and an error is that
of a descriptor in `exceptfds`. -/
structure Fits (env : Env) (a : Args) : Prop where
  null : a.timeout = none → env.atNull.msec < 0
  event : 0 < (a.answer env).1 → ∃ x ∈ (a.pollset a.nfds).zip (a.answer env).2,
    x.2 &&& pollin ≠ 0 ∨ x.2 &&& pollout ≠ 0 ∨ a.exceptfds.isSome = true ∧ x.2 &&& pollerr ≠ 0
  error : 0 < (a.answer env).1 → a.exceptfds.isSome = true →
    ∀ x ∈ (a.pollset a.nfds).zip (a.answer env).2, x.2 &&& pollerr ≠ 0 →
      isIn a.exceptfds x.1.fd = true

def Holds (env : Env) (a : Args) : Prop := 0 < a.nfds ∧ (a.memory env = true → Fits env a)

section

variable {env : Env} {a : Args} {n fd : Nat}

theorem events_pollin : a.events fd &&& pollin ≠ 0 ↔ isIn a.readfds fd = true := by
  unfold Args.events
  cases isIn a.readfds fd <;> cases isIn a.writefds fd <;> simp <;> decide

theorem events_pollout : a.events fd &&& pollout ≠ 0 ↔ isIn a.writefds fd = true := by
  unfold Args.events
  cases isIn a.readfds fd <;> cases isIn a.writefds fd <;> simp <;> decide

theorem events_other : a.events fd &&& ~~~3 = 0 := by
  unfold Args.events
  cases isIn a.readfds fd <;> cases isIn a.writefds fd <;> simp <;> decide

theorem mem_pollset {p : Pollfd} : p ∈ a.pollset n ↔ p.fd < n ∧ p.events = a.events p.fd ∧
    (isIn a.readfds p.fd = true ∨ isIn a.writefds p.fd = true ∨ isIn a.exceptfds p.fd = true) := by
  induction n with
  | zero => simp [Args.pollset]
  | succ n ih =>
    rw [Args.pollset, List.mem_append, ih]
    constructor
    · rintro (⟨hlt, hrest⟩ | hnew)
      · exact ⟨Nat.lt_succ_of_lt hlt, hrest⟩
      · split at hnew
        · next hin =>
          rw [List.mem_singleton.mp hnew]
          exact ⟨Nat.lt_succ_self n, rfl, by simpa [or_assoc] using hin⟩
        · cases hnew
    · rintro ⟨hlt, hev, hin⟩
      rcases Nat.lt_succ_iff_lt_or_eq.mp hlt with hlt | heq
      · exact .inl ⟨hlt, hev, hin⟩
      · refine .inr ?_
        subst heq
        rw [if_pos (by simpa [or_assoc] using hin), ← hev]
        exact List.mem_singleton_self _

theorem nodup_pollset (a : Args) (n : Nat) : ((a.pollset n).map Pollfd.fd).Nodup := by
  induction n with
  | zero => exact List.nodup_nil
  | succ n ih =>
    rw [Args.pollset, List.map_append, List.nodup_append]
    refine ⟨ih, ?_, ?_⟩
    · split
      · exact List.nodup_singleton _
      · exact List.nodup_nil
    · intro fd hfd fd' hfd' heq
      obtain ⟨p, hp, rfl⟩ := List.mem_map.mp hfd
      have hlt := (mem_pollset.mp hp).1
      split at hfd'
      · rw [List.map_singleton, List.mem_singleton] at hfd'
        exact absurd (heq.trans hfd') (Nat.ne_of_lt hlt)
      · cases hfd'

theorem monitors_pollset (a : Args) : Monitors a (a.pollset a.nfds) where
  nodup := nodup_pollset a a.nfds
  fds fd := by
    constructor
    · intro h
      obtain ⟨p, hp, rfl⟩ := List.mem_map.mp h
      obtain ⟨hlt, -, hin⟩ := mem_pollset.mp hp
      exact ⟨hlt, hin⟩
    · rintro ⟨hlt, hin⟩
      exact List.mem_map.mpr ⟨⟨fd, a.events fd⟩, mem_pollset.mpr ⟨hlt, rfl, hin⟩, rfl⟩
  events p hp := by
    rw [(mem_pollset.mp hp).2.1]
    exact ⟨events_pollin, events_pollout, events_other⟩

end

section

variable {env : Env} {event : UInt8} {set : Option FdSet} {l : List (Pollfd × UInt8)} {fd : Nat}
  {r : Result}

theorem isIn_mark (x : Pollfd × UInt8) : isIn (mark event set x) fd = true ↔ isIn set fd = true ∨
    set.isSome = true ∧ x.1.fd = fd ∧ x.2 &&& event ≠ 0 := by
  cases set with
  | none => simp [isIn, mark]
  | some s =>
    unfold isIn mark
    rw [Option.map_some, Option.any_some, Option.any_some]
    by_cases hx : x.2 &&& event ≠ 0
    · rw [if_pos hx, fdIsset_fdSet, Bool.or_eq_true, decide_eq_true_eq]
      constructor
      · rintro (h | h)
        · exact .inr ⟨rfl, h.symm, hx⟩
        · exact .inl h
      · rintro (h | ⟨-, h, -⟩)
        · exact .inr h
        · exact .inl h.symm
    · rw [if_neg hx]
      exact ⟨.inl, fun h => h.elim id fun h => absurd h.2.2 hx⟩

theorem isSome_mark (x : Pollfd × UInt8) : (mark event set x).isSome = set.isSome :=
  Option.isSome_map ..

theorem isIn_foldl : isIn (l.foldl (mark event) set) fd = true ↔ isIn set fd = true ∨
    set.isSome = true ∧ ∃ x ∈ l, x.1.fd = fd ∧ x.2 &&& event ≠ 0 := by
  induction l generalizing set with
  | nil => simp
  | cons x l ih =>
    rw [List.foldl_cons, ih, isIn_mark, isSome_mark]
    simp only [List.mem_cons, exists_eq_or_imp]
    tauto

theorem size_mark (x : Pollfd × UInt8) (hfd : x.1.fd < 32 * env.nuint32)
    (hnew : isIn set x.1.fd = false) :
    size env (mark event set x) = size env set + hit event set x := by
  cases set with
  | none => simp [size, mark, hit]
  | some s =>
    unfold size mark hit
    by_cases hx : x.2 &&& event ≠ 0
    · simp [hx, fdCount_fdSet hfd (by simpa [isIn] using hnew)]
    · simp [hx]

/-- The events of a list, where the entries are of different descriptors. -/
def hits (event : UInt8) (set : Option FdSet) (l : List (Pollfd × UInt8)) : Nat :=
  (l.map (hit event set)).sum

theorem size_foldl (hnodup : (l.map fun x => x.1.fd).Nodup)
    (hfd : ∀ x ∈ l, x.1.fd < 32 * env.nuint32) (hnew : ∀ x ∈ l, isIn set x.1.fd = false) :
    size env (l.foldl (mark event) set) = size env set + hits event set l := by
  induction l generalizing set with
  | nil => simp [hits]
  | cons x l ih =>
    rw [List.map_cons, List.nodup_cons] at hnodup
    have hhit : hit event (mark event set x) = hit event set := by
      funext y
      unfold hit
      rw [isSome_mark]
    rw [List.foldl_cons, ih hnodup.2 (fun y hy => hfd y (List.mem_cons_of_mem x hy)) ?_,
      size_mark x (hfd x List.mem_cons_self) (hnew x List.mem_cons_self)]
    · unfold hits
      rw [List.map_cons, List.sum_cons, hhit]
      omega
    · intro y hy
      rw [Bool.eq_false_iff, ne_eq, isIn_mark, not_or]
      refine ⟨?_, ?_⟩
      · rw [hnew y (List.mem_cons_of_mem x hy)]
        decide
      · rintro ⟨-, heq, -⟩
        exact hnodup.1 (List.mem_map.mpr ⟨y, hy, heq.symm⟩)

theorem foldl_collect : l.foldl collect r =
    { r with
      ret := r.ret + hits pollin r.readfds l + hits pollout r.writefds l +
        hits pollerr r.exceptfds l
      readfds := l.foldl (mark pollin) r.readfds
      writefds := l.foldl (mark pollout) r.writefds
      exceptfds := l.foldl (mark pollerr) r.exceptfds } := by
  induction l generalizing r with
  | nil => simp [hits]
  | cons x l ih =>
    have hhit : ∀ event set, hit event (mark event set x) = hit event set := by
      intro event set
      funext y
      unfold hit
      rw [isSome_mark]
    rw [List.foldl_cons, ih]
    unfold collect hits
    simp only [List.map_cons, List.sum_cons, List.foldl_cons, hhit]
    congr 1
    push_cast
    omega

end

section

variable {env : Env} {a : Args} {event : UInt8} {set : Option FdSet} {fd : Nat}

def Args.reported (a : Args) (env : Env) : List (Pollfd × UInt8) :=
  (a.pollset a.nfds).zip (a.answer env).2

theorem map_reported (env : Env) (a : Args) :
    (a.reported env).map (fun x => x.1.fd) = (a.pollset a.nfds).map Pollfd.fd := by
  have hlen : (a.pollset a.nfds).length ≤ (a.answer env).2.length :=
    Nat.le_of_eq (env.length _ _).symm
  have hfst := List.map_fst_zip hlen
  calc (a.reported env).map (fun x => x.1.fd)
      = ((a.reported env).map Prod.fst).map Pollfd.fd := by rw [List.map_map]; rfl
    _ = (a.pollset a.nfds).map Pollfd.fd := by rw [Args.reported, hfst]

theorem mem_reported {x : Pollfd × UInt8} (h : x ∈ a.reported env) : x.1 ∈ a.pollset a.nfds :=
  (List.of_mem_zip h).1

theorem isIn_zero (hfd : fd < 32 * env.nuint32) :
    isIn (set.map (fdZero env.nuint32)) fd = false := by
  cases set with
  | none => rfl
  | some s => exact fdIsset_fdZero hfd

theorem size_zero : size env (set.map (fdZero env.nuint32)) = 0 := by
  cases set with
  | none => rfl
  | some s => exact fdCount_fdZero

def collected (env : Env) (a : Args) (event : UInt8) (set : Option FdSet) : Option FdSet :=
  (a.reported env).foldl (mark event) (set.map (fdZero env.nuint32))

theorem isIn_collected (hfd : fd < 32 * env.nuint32) : isIn (collected env a event set) fd = true ↔
    set.isSome = true ∧ ∃ x ∈ a.reported env, x.1.fd = fd ∧ x.2 &&& event ≠ 0 := by
  unfold collected
  rw [isIn_foldl, isIn_zero hfd, Option.isSome_map]
  simp

theorem size_collected (hcap : a.nfds ≤ 32 * env.nuint32) :
    size env (collected env a event set) = hits event set (a.reported env) := by
  have hfd : ∀ x ∈ a.reported env, x.1.fd < 32 * env.nuint32 := fun x hx =>
    (mem_pollset.mp (mem_reported hx)).1.trans_le hcap
  unfold collected
  rw [size_foldl (by rw [map_reported]; exact nodup_pollset a a.nfds) hfd fun x hx =>
    isIn_zero (hfd x hx), size_zero, Nat.zero_add]
  unfold hits hit
  simp only [Option.isSome_map]

theorem select_reports (hmem : a.memory env = true) (hpos : 0 < (a.answer env).1) :
    select env a = ⟨hits pollin a.readfds (a.reported env) +
        hits pollout a.writefds (a.reported env) + hits pollerr a.exceptfds (a.reported env),
      collected env a pollin a.readfds, collected env a pollout a.writefds,
      collected env a pollerr a.exceptfds, some (a.pollset a.nfds, a.msec env)⟩ := by
  have hhits : ∀ event (set : Option FdSet), hits event (set.map (fdZero env.nuint32)) =
      hits event set := by
    intro event set
    funext l
    unfold hits hit
    simp only [Option.isSome_map]
  unfold select
  rw [if_pos hmem]
  dsimp only
  rw [if_pos hpos, foldl_collect]
  dsimp only
  rw [hhits, hhits, hhits]
  simp only [Int.zero_add]
  rfl

theorem select_quiet (hmem : a.memory env = true) (hpos : ¬ 0 < (a.answer env).1) :
    select env a = ⟨(a.answer env).1, a.readfds.map (fdZero env.nuint32),
      a.writefds.map (fdZero env.nuint32), a.exceptfds.map (fdZero env.nuint32),
      some (a.pollset a.nfds, a.msec env)⟩ := by
  unfold select
  rw [if_pos hmem]
  dsimp only
  rw [if_neg hpos]

theorem hits_pos {l : List (Pollfd × UInt8)} :
    0 < hits event set l ↔ set.isSome = true ∧ ∃ x ∈ l, x.2 &&& event ≠ 0 := by
  induction l with
  | nil => simp [hits]
  | cons x l ih =>
    have hcons : hits event set (x :: l) = hit event set x + hits event set l := by
      unfold hits
      rw [List.map_cons, List.sum_cons]
    have hhit : 0 < hit event set x ↔ set.isSome = true ∧ x.2 &&& event ≠ 0 := by
      unfold hit
      split <;> simp_all
    rw [hcons, Nat.add_pos_iff_pos_or_pos, hhit, ih]
    simp only [List.mem_cons, exists_eq_or_imp]
    tauto

theorem ret_ne_zero : ((hits pollin a.readfds (a.reported env) +
    hits pollout a.writefds (a.reported env) + hits pollerr a.exceptfds (a.reported env) : Int) ≠
      0) ↔ ∃ x ∈ a.reported env,
        x.2 &&& pollin ≠ 0 ∨ x.2 &&& pollout ≠ 0 ∨
          a.exceptfds.isSome = true ∧ x.2 &&& pollerr ≠ 0 := by
  have hsum : ((hits pollin a.readfds (a.reported env) +
      hits pollout a.writefds (a.reported env) + hits pollerr a.exceptfds (a.reported env) : Int) ≠
        0) ↔ 0 < hits pollin a.readfds (a.reported env) ∨
          0 < hits pollout a.writefds (a.reported env) ∨ 0 < hits pollerr a.exceptfds (a.reported env) := by omega
  rw [hsum, hits_pos, hits_pos, hits_pos]
  -- an event that was requested has its set
  have hin : ∀ x ∈ a.reported env, x.2 &&& pollin ≠ 0 → a.readfds.isSome = true := by
    intro x hx h
    have hev := (env.requested _ _ x hx).1 h
    rw [(mem_pollset.mp (mem_reported hx)).2.1, events_pollin] at hev
    cases hs : a.readfds with
    | none => rw [hs] at hev; cases hev
    | some s => rfl
  have hout : ∀ x ∈ a.reported env, x.2 &&& pollout ≠ 0 → a.writefds.isSome = true := by
    intro x hx h
    have hev := (env.requested _ _ x hx).2 h
    rw [(mem_pollset.mp (mem_reported hx)).2.1, events_pollout] at hev
    cases hs : a.writefds with
    | none => rw [hs] at hev; cases hev
    | some s => rfl
  constructor
  · rintro (⟨-, x, hx, h⟩ | ⟨-, x, hx, h⟩ | ⟨hs, x, hx, h⟩)
    · exact ⟨x, hx, .inl h⟩
    · exact ⟨x, hx, .inr (.inl h)⟩
    · exact ⟨x, hx, .inr (.inr ⟨hs, h⟩)⟩
  · rintro ⟨x, hx, h | h | ⟨hs, h⟩⟩
    · exact .inl ⟨hin x hx h, x, hx, h⟩
    · exact .inr (.inl ⟨hout x hx h, x, hx, h⟩)
    · exact .inr (.inr ⟨hs, x, hx, h⟩)

theorem within_collected (hevent : ∀ x ∈ a.reported env, x.2 &&& event ≠ 0 →
    isIn set x.1.fd = true) : Within env set (collected env a event set) := by
  intro fd hfd hin
  obtain ⟨-, x, hx, rfl, h⟩ := (isIn_collected hfd).mp hin
  exact hevent x hx h

theorem msec_null (h : a.timeout = none) : a.msec env = env.atNull.msec := by
  unfold Args.msec
  rw [h]
  rfl

theorem serves_reports (hcap : a.nfds ≤ 32 * env.nuint32) (hmem : a.memory env = true)
    (hpos : 0 < (a.answer env).1) : Serves env a (select env a) ↔ Fits env a := by
  rw [select_reports hmem hpos]
  constructor
  · intro S
    obtain ⟨l, msec, hpolled, -, hnull, hret, -⟩ := S.polled
    cases hpolled
    refine ⟨fun h => ?_, fun _ => ret_ne_zero.mp (hret hpos), fun _ hs x hx h => ?_⟩
    · rw [← msec_null h]
      exact hnull h
    · have hfd : x.1.fd < 32 * env.nuint32 :=
        (mem_pollset.mp (mem_reported hx)).1.trans_le hcap
      exact S.exceptfds x.1.fd hfd ((isIn_collected hfd).mpr ⟨hs, x, hx, rfl, h⟩)
  · intro F
    refine ⟨⟨_, _, rfl, monitors_pollset a, fun h => ?_, fun _ => ret_ne_zero.mpr (F.event hpos),
      .inr ?_⟩, ?_, ?_, ?_⟩
    · rw [msec_null h]
      exact F.null h
    · dsimp only
      rw [size_collected hcap, size_collected hcap, size_collected hcap]
    · refine within_collected fun x hx h => ?_
      have hev := (env.requested _ _ x hx).1 h
      rwa [(mem_pollset.mp (mem_reported hx)).2.1, events_pollin] at hev
    · refine within_collected fun x hx h => ?_
      have hev := (env.requested _ _ x hx).2 h
      rwa [(mem_pollset.mp (mem_reported hx)).2.1, events_pollout] at hev
    · intro fd hfd hin
      obtain ⟨hs, x, hx, rfl, h⟩ := (isIn_collected hfd).mp hin
      exact F.error hpos hs x hx h

theorem serves_quiet (hmem : a.memory env = true) (hpos : ¬ 0 < (a.answer env).1) :
    Serves env a (select env a) ↔ Fits env a := by
  rw [select_quiet hmem hpos]
  constructor
  · intro S
    obtain ⟨l, msec, hpolled, -, hnull, -⟩ := S.polled
    cases hpolled
    refine ⟨fun h => ?_, fun h => absurd h hpos, fun h => absurd h hpos⟩
    rw [← msec_null h]
    exact hnull h
  · intro F
    have hwithin : ∀ set, Within env set (set.map (fdZero env.nuint32)) := by
      intro set fd hfd hin
      rw [isIn_zero hfd] at hin
      cases hin
    refine ⟨⟨_, _, rfl, monitors_pollset a, fun h => ?_, fun h => absurd h hpos, ?_⟩,
      hwithin _, hwithin _, hwithin _⟩
    · rw [msec_null h]
      exact F.null h
    · dsimp only
      rw [size_zero, size_zero, size_zero]
      by_cases hneg : (a.answer env).1 < 0
      · exact .inl ⟨hneg, hneg⟩
      · exact .inr (by omega)

end

/-- A call is right exactly when it is for at least one descriptor, and what `poll` reports, where
there is memory for its list, fits the sets. -/
theorem select_right_iff (env : Env) (a : Args) (hcap : a.nfds ≤ 32 * env.nuint32) :
    Right env a (select env a) ↔ Holds env a := by
  unfold Right Holds
  by_cases hmem : a.memory env = true
  · have hn : 0 < a.nfds := by
      by_contra hzero
      have h0 : a.nfds = 0 := by omega
      unfold Args.memory at hmem
      rw [h0, show 0 * 16 % 2 ^ 32 = 0 from rfl, env.zalloc_zero] at hmem
      cases hmem
    rw [if_neg (by simp [hmem])]
    simp only [hn, hmem, true_and, forall_const]
    by_cases hpos : 0 < (a.answer env).1
    · exact serves_reports hcap hmem hpos
    · exact serves_quiet hmem hpos
  · have hselect : select env a = ⟨-1, a.readfds, a.writefds, a.exceptfds, none⟩ := if_neg hmem
    rw [hselect]
    by_cases hn : 0 < a.nfds
    · rw [if_pos ⟨hn, by simpa using hmem⟩]
      exact ⟨fun _ => ⟨hn, fun h => absurd h hmem⟩, fun _ => rfl⟩
    · rw [if_neg fun h => hn h.1]
      refine ⟨fun S => ?_, fun h => absurd h.1 hn⟩
      obtain ⟨l, msec, hpolled, -⟩ := S.polled
      cases hpolled

/-- A `poll` that answers each entry by its events. -/
def reporting (f : UInt8 → UInt8) (hf : ∀ e, (f e &&& pollin ≠ 0 → e &&& pollin ≠ 0) ∧
    (f e &&& pollout ≠ 0 → e &&& pollout ≠ 0)) : Oracle where
  poll l _ := ((l.map fun p => f p.events).countP (· ≠ 0), l.map fun p => f p.events)
  length l _ := List.length_map ..
  count _ _ _ := rfl
  requested l _ x hx := by
    have hrev : x.2 = f x.1.events := by
      obtain ⟨i, hi, rfl⟩ := List.mem_iff_getElem.mp hx
      simp
    rw [hrev]
    exact hf x.1.events

def board (o : Oracle) : Env where
  toOracle := o
  nuint32 := 1
  nuint32_le := by decide
  zalloc n := n ≠ 0
  zalloc_zero := rfl
  atNull := ⟨0, 0⟩

def forReading : Args := ⟨3, some (fdSet 2 fun _ => 0), none, none, some ⟨0, 500⟩⟩

/-- There is data. -/
theorem select_right_data : Right (board (reporting id fun _ => ⟨id, id⟩)) forReading
    (select (board (reporting id fun _ => ⟨id, id⟩)) forReading) :=
  (select_right_iff _ _ (by decide)).mpr ⟨by decide, fun _ => ⟨fun h => (by cases h),
    fun _ => ⟨(⟨2, 1⟩, 1), by decide, by decide⟩, fun _ h => by cases h⟩⟩

/-- A hang-up that `poll` reports is lost. -/
theorem select_hangup : ¬ ∀ (env : Env) (a : Args), a.nfds ≤ 32 * env.nuint32 →
    Right env a (select env a) := by
  intro hall
  let env : Env := board (reporting (fun _ => 8) fun _ =>
    ⟨fun h => absurd rfl h, fun h => absurd rfl h⟩)
  have hright := hall env forReading (by decide)
  unfold Right at hright
  rw [if_neg (by decide)] at hright
  obtain ⟨l, msec, hpolled, -, -, hret, -⟩ := hright.polled
  have hselect : (select env forReading).polled = some ([⟨2, 1⟩], 0) := by decide
  rw [hselect] at hpolled
  cases hpolled
  exact hret (by decide) (by decide)

end NuttxAvr32.Select
