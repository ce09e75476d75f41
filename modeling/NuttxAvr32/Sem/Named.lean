import Mathlib.Data.List.Count
import Mathlib.Data.List.Nodup
import NuttxAvr32.Lib.Runs

/-! # Named semaphores

`sem_open`, `sem_close` and `sem_unlink` on `g_nsems`. Each call runs under `sched_lock`.
The log records what each call did, and the number `id` of a semaphore tells apart
semaphores that `kmalloc` places at one address after another.
-/

namespace NuttxAvr32.Sem.Named

open Runs

abbrev Name := List UInt8

abbrev Addr := Nat

def semValueMax : Nat := 32767

structure Handle where
  addr : Addr
  id : Nat
deriving DecidableEq

structure Nsem where
  addr : Addr
  nconnect : Nat
  name : Name
  unlinked : Bool
  semcount : Nat
  id : Nat
deriving DecidableEq

def Nsem.handle (p : Nsem) : Handle := ⟨p.addr, p.id⟩

structure OFlag where
  creat : Bool
  excl : Bool
deriving DecidableEq

/-- What the calls did. `closed h g`: the holder of `h` closed and the count of `g` was taken. -/
inductive Event
  | created (name : Name) (oflag : OFlag) (h : Handle)
  | opened (name : Name) (oflag : OFlag) (h : Handle)
  | refused (name : Name) (oflag : OFlag) (value : Nat) (mem : Option Addr)
  | closed (h g : Handle)
  | notClosed (h : Handle)
  | unlinked (name : Name) (h : Handle)
  | notUnlinked (name : Name)
  | freed (h : Handle)
deriving DecidableEq

structure State where
  gNsems : List Nsem
  allocated : List Addr
  nextId : Nat
  log : List Event
deriving DecidableEq

namespace State

def note (e : Event) (s : State) : State := { s with log := e :: s.log }

def update (psem : Addr) (f : Nsem → Nsem) (s : State) : State :=
  { s with gNsems := s.gNsems.map fun p => if p.addr = psem then f p else p }

def release (psem : Nsem) (s : State) : State :=
  { s with
    gNsems := s.gNsems.filter fun p => p.addr ≠ psem.addr
    allocated := s.allocated.filter fun a => a ≠ psem.addr
    log := .freed psem.handle :: s.log }

end State

def semFindnamed (name : Name) (gNsems : List Nsem) : Option Nsem :=
  gNsems.find? fun psem => psem.name = name

/-- The branch of `sem_open` after `kmalloc` returned `psem`. -/
def semCreate (name : Name) (oflag : OFlag) (value : Nat) (psem : Addr) (s : State) : State :=
  { gNsems := ⟨psem, 1, name, false, value, s.nextId⟩ :: s.gNsems
    allocated := psem :: s.allocated
    nextId := s.nextId + 1
    log := .created name oflag ⟨psem, s.nextId⟩ :: s.log }

/-- `mem` is what `kmalloc` returns. -/
def semOpen (name : Option Name) (oflag : OFlag) (value : Nat) (mem : Option Addr) (s : State) :
    State :=
  match name with
  | none => s
  | some name =>
    if 0 < name.length then
      match semFindnamed name s.gNsems with
      | some psem =>
        if !oflag.creat || !oflag.excl then
          (s.update psem.addr fun p => { p with nconnect := (p.nconnect + 1) % 65536 }).note
            (.opened name oflag psem.handle)
        else s.note (.refused name oflag value mem)
      | none =>
        if oflag.creat then
          if value ≤ semValueMax then
            match mem with
            | some psem => semCreate name oflag value psem s
            | none => s.note (.refused name oflag value mem)
          else s.note (.refused name oflag value mem)
        else s.note (.refused name oflag value mem)
    else s.note (.refused name oflag value mem)

def semUnlink (name : Option Name) (s : State) : State :=
  match name with
  | none => s
  | some name =>
    match semFindnamed name s.gNsems with
    | some psem =>
      if psem.nconnect = 0 then
        (s.note (.unlinked name psem.handle)).release psem
      else
        (s.update psem.addr fun p => { p with unlinked := true }).note
          (.unlinked name psem.handle)
    | none => s.note (.notUnlinked name)

def semClose (h : Handle) (s : State) : State :=
  match s.gNsems.find? fun psem => psem.addr = h.addr with
  | some psem =>
    if psem.nconnect - 1 = 0 ∧ psem.unlinked = true then
      (s.note (.closed h psem.handle)).release psem
    else
      (s.update psem.addr fun p => { p with nconnect := p.nconnect - 1 }).note
        (.closed h psem.handle)
  | none => s.note (.notClosed h)

namespace Event

def isOpen (h : Handle) : Event → Bool
  | created _ _ g => g = h
  | opened _ _ g => g = h
  | _ => false

def isClose (h : Handle) : Event → Bool
  | closed g _ => g = h
  | _ => false

def isUnlink (h : Handle) : Event → Bool
  | unlinked _ g => g = h
  | _ => false

def isFree (h : Handle) : Event → Bool
  | freed g => g = h
  | _ => false

end Event

def opens (log : List Event) (h : Handle) : Nat := log.countP (Event.isOpen h)

def closes (log : List Event) (h : Handle) : Nat := log.countP (Event.isClose h)

def unlinks (log : List Event) (h : Handle) : Nat := log.countP (Event.isUnlink h)

def frees (log : List Event) (h : Handle) : Nat := log.countP (Event.isFree h)

/-- The semaphore that a name stands for: the one last created under it, until an unlink. -/
def bound (name : Name) : List Event → Option Handle
  | [] => none
  | .created name' _ h :: log => if name' = name then some h else bound name log
  | .unlinked name' _ :: log => if name' = name then none else bound name log
  | _ :: log => bound name log

/-- The event is what the call should do after the calls in `log`. -/
def Event.Right (log : List Event) : Event → Prop
  | created name oflag h =>
    bound name log = none ∧ oflag.creat = true ∧ opens log h = 0 ∧
      ∀ g, 0 < opens log g → frees log g = 0 → g.addr ≠ h.addr
  | opened name oflag h => bound name log = some h ∧ (oflag.creat && oflag.excl) = false
  | refused name oflag value mem =>
    name = [] ∨ ((bound name log).isSome ∧ (oflag.creat && oflag.excl) = true) ∨
      (bound name log = none ∧ (oflag.creat = false ∨ semValueMax < value ∨ mem = none))
  | closed h g => g = h
  | notClosed _ => False
  | unlinked name h => bound name log = some h
  | notUnlinked name => bound name log = none
  | freed _ => True

def AllRight : List Event → Prop
  | [] => True
  | e :: log => e.Right log ∧ AllRight log

/-- `due`: a semaphore is freed once, in the step after which it is unlinked and unconnected. -/
structure Correct (s : State) : Prop where
  nconnect : ∀ p ∈ s.gNsems, p.nconnect + closes s.log p.handle = opens s.log p.handle
  present : ∀ h, 0 < opens s.log h → frees s.log h = 0 → ∃ p ∈ s.gNsems, p.handle = h
  once : ∀ h, frees s.log h ≤ 1
  due : ∀ h, 0 < opens s.log h →
    (frees s.log h = 1 ↔ 0 < unlinks s.log h ∧ closes s.log h = opens s.log h)
  right : AllRight s.log

inductive Op
  | semOpen (name : Option Name) (oflag : OFlag) (value : Nat) (mem : Option Addr)
  | semClose (h : Handle)
  | semUnlink (name : Option Name)

namespace Op

def exec : Op → State → State
  | semOpen name oflag value mem, s => Named.semOpen name oflag value mem s
  | semClose h, s => Named.semClose h s
  | semUnlink name, s => Named.semUnlink name s

/-- `kmalloc` returns no block in use, and only who has a semaphore open closes it. -/
def valid (s : State) : Op → Prop
  | semOpen _ _ _ mem => ∀ a ∈ mem, a ∉ s.allocated
  | semClose h => closes s.log h < opens s.log h
  | semUnlink _ => True

/-- The semaphore that the name is compared equal with first is not an unlinked one, and its
`uint16_t` count has room. -/
def keeps (s : State) : Op → Prop
  | semOpen name oflag _ _ => ∀ n ∈ name, ∀ p ∈ semFindnamed n s.gNsems,
      p.unlinked = false ∧ (p.nconnect + 1 < 65536 ∨ (oflag.creat && oflag.excl) = true)
  | semClose _ => True
  | semUnlink name => ∀ n ∈ name, ∀ p ∈ semFindnamed n s.gNsems, p.unlinked = false

instance decidableNamedValid (s : State) (i : Op) : Decidable (i.valid s) :=
  match i with
  | semOpen _ _ _ mem => inferInstanceAs (Decidable (∀ a ∈ mem, a ∉ s.allocated))
  | semClose h => inferInstanceAs (Decidable (closes s.log h < opens s.log h))
  | semUnlink _ => inferInstanceAs (Decidable True)

instance decidableNamedKeeps (s : State) (i : Op) : Decidable (i.keeps s) :=
  match i with
  | semOpen name oflag _ _ => inferInstanceAs (Decidable (∀ n ∈ name,
      ∀ p ∈ semFindnamed n s.gNsems,
        p.unlinked = false ∧ (p.nconnect + 1 < 65536 ∨ (oflag.creat && oflag.excl) = true)))
  | semClose _ => inferInstanceAs (Decidable True)
  | semUnlink name => inferInstanceAs (Decidable (∀ n ∈ name,
      ∀ p ∈ semFindnamed n s.gNsems, p.unlinked = false))

end Op

def namedMachine : Machine State Op where
  valid s i := i.valid s
  exec s i := some (i.exec s)

instance decidableNamedMachineValid (s : State) (i : Op) : Decidable (namedMachine.valid s i) :=
  inferInstanceAs (Decidable (i.valid s))

structure Start (s : State) : Prop where
  gNsems : s.gNsems = []
  log : s.log = []
  nextId : s.nextId = 0

@[ext] structure Tally where
  opens : Nat
  closes : Nat
  unlinks : Nat
  frees : Nat

def tally (log : List Event) (h : Handle) : Tally :=
  ⟨opens log h, closes log h, unlinks log h, frees log h⟩

def Tally.zero : Tally := ⟨0, 0, 0, 0⟩

def Event.move (e : Event) (h : Handle) (t : Tally) : Tally :=
  ⟨t.opens + (e.isOpen h).toNat, t.closes + (e.isClose h).toNat,
    t.unlinks + (e.isUnlink h).toNat, t.frees + (e.isFree h).toNat⟩

theorem countP_cons_toNat {α : Type} (p : α → Bool) (a : α) (l : List α) :
    (a :: l).countP p = l.countP p + (p a).toNat := by
  rw [List.countP_cons]
  cases p a <;> rfl

theorem tally_cons (e : Event) (log : List Event) (h : Handle) :
    tally (e :: log) h = e.move h (tally log h) := by
  simp only [tally, opens, closes, unlinks, frees, countP_cons_toNat, Event.move]

structure Entry (p : Nsem) (t : Tally) : Prop where
  opened : 0 < t.opens
  nconnect : p.nconnect + t.closes = t.opens
  room : p.nconnect < 65536
  unfreed : t.frees = 0
  unlinked : p.unlinked = true ↔ 0 < t.unlinks
  wanted : p.unlinked = true → 0 < p.nconnect

structure Gone (t : Tally) : Prop where
  freed : t.frees = 1
  unlinked : 0 < t.unlinks
  closed : t.closes = t.opens

structure Inv (s : State) : Prop where
  apart : (s.gNsems.map Nsem.addr).Nodup
  used : ∀ p ∈ s.gNsems, p.addr ∈ s.allocated
  entry : ∀ p ∈ s.gNsems, Entry p (tally s.log p.handle)
  rest : ∀ h, (∀ p ∈ s.gNsems, p.handle ≠ h) →
    Gone (tally s.log h) ∨ tally s.log h = Tally.zero
  below : ∀ h, s.nextId ≤ h.id → tally s.log h = Tally.zero
  bound : ∀ name h, bound name s.log = some h ↔
    ∃ p ∈ s.gNsems, p.name = name ∧ p.unlinked = false ∧ p.handle = h
  right : AllRight s.log

variable {s : State} {p q : Nsem} {h : Handle}

theorem Start.inv (S : Start s) : Inv s where
  apart := by
    rw [S.gNsems]
    exact List.nodup_nil
  used p hp := by
    rw [S.gNsems] at hp
    cases hp
  entry p hp := by
    rw [S.gNsems] at hp
    cases hp
  rest h _ := by
    rw [S.log]
    exact .inr rfl
  below h _ := by
    rw [S.log]
    rfl
  bound name h := by
    simp [S.gNsems, S.log, Named.bound]
  right := by
    rw [S.log]
    trivial

theorem Inv.eq_of_addr (I : Inv s) (hp : p ∈ s.gNsems) (hq : q ∈ s.gNsems)
    (h : q.addr = p.addr) : q = p :=
  List.inj_on_of_nodup_map I.apart hq hp h

theorem Inv.present (I : Inv s) (ho : 0 < opens s.log h) (hf : frees s.log h = 0) :
    ∃ p ∈ s.gNsems, p.handle = h := by
  by_contra hn
  rcases I.rest h fun p hp hh => hn ⟨p, hp, hh⟩ with g | z
  · have := g.freed
    simp only [tally] at this
    omega
  · have := congrArg Tally.opens z
    simp only [tally, Tally.zero] at this
    omega

theorem Inv.correct (I : Inv s) : Correct s where
  nconnect p hp := (I.entry p hp).nconnect
  present h ho hf := I.present ho hf
  once h := by
    by_cases hn : ∃ p ∈ s.gNsems, p.handle = h
    · obtain ⟨p, hp, rfl⟩ := hn
      have := (I.entry p hp).unfreed
      simp only [tally] at this
      omega
    · rcases I.rest h fun p hp hh => hn ⟨p, hp, hh⟩ with g | z
      · exact Nat.le_of_eq g.freed
      · have := congrArg Tally.frees z
        simp only [tally, Tally.zero] at this
        omega
  due h ho := by
    by_cases hn : ∃ p ∈ s.gNsems, p.handle = h
    · obtain ⟨p, hp, rfl⟩ := hn
      obtain ⟨_, hc, _, hf, hu, hw⟩ := I.entry p hp
      simp only [tally] at hc hf hu
      constructor
      · intro h1
        omega
      · intro ⟨h1, h2⟩
        have := hw (hu.mpr h1)
        omega
    · rcases I.rest h fun p hp hh => hn ⟨p, hp, hh⟩ with g | z
      · exact ⟨fun _ => ⟨g.unlinked, g.closed⟩, fun _ => g.freed⟩
      · have := congrArg Tally.opens z
        simp only [tally, Tally.zero] at this
        omega
  right := I.right

/-- Apart from `h`, no semaphore is touched by the event. -/
def Event.Spares (e : Event) (h : Handle) : Prop := ∀ t, e.move h t = t

theorem Event.Spares.tally {e : Event} (he : e.Spares h) (log : List Event) :
    tally (e :: log) h = Named.tally log h := by
  rw [tally_cons, he]

theorem Inv.quiet {e : Event} (I : Inv s) (he : ∀ h, e.Spares h)
    (hb : ∀ name, Named.bound name (e :: s.log) = Named.bound name s.log)
    (hr : e.Right s.log) : Inv (s.note e) where
  apart := I.apart
  used := I.used
  entry p hp := by
    simp only [State.note, (he _).tally]
    exact I.entry p hp
  rest h hn := by
    simp only [State.note, (he _).tally]
    exact I.rest h hn
  below h hl := by
    simp only [State.note, (he _).tally]
    exact I.below h hl
  bound name h := by
    simp only [State.note, hb]
    exact I.bound name h
  right := ⟨hr, I.right⟩

theorem mem_update (I : Inv s) (hp : p ∈ s.gNsems) {f : Nsem → Nsem} :
    q ∈ (s.update p.addr f).gNsems ↔ q = f p ∨ (q ∈ s.gNsems ∧ q.addr ≠ p.addr) := by
  simp only [State.update, List.mem_map]
  constructor
  · rintro ⟨r, hr, rfl⟩
    by_cases ha : r.addr = p.addr
    · rw [if_pos ha, I.eq_of_addr hp hr ha]
      exact .inl rfl
    · rw [if_neg ha]
      exact .inr ⟨hr, ha⟩
  · rintro (rfl | ⟨hq, ha⟩)
    · exact ⟨p, hp, if_pos rfl⟩
    · exact ⟨q, hq, if_neg ha⟩

theorem Inv.touch {e : Event} {f : Nsem → Nsem} (I : Inv s) (hp : p ∈ s.gNsems)
    (ha : ∀ q, (f q).addr = q.addr) (hid : (f p).handle = p.handle)
    (he : ∀ h, h ≠ p.handle → e.Spares h)
    (hf : Entry (f p) (tally (e :: s.log) p.handle))
    (hb : ∀ name h, Named.bound name (e :: s.log) = some h ↔
      ∃ q ∈ (s.update p.addr f).gNsems, q.name = name ∧ q.unlinked = false ∧ q.handle = h)
    (hr : e.Right s.log) : Inv ((s.update p.addr f).note e) where
  apart := by
    have hm : (s.update p.addr f).gNsems.map Nsem.addr = s.gNsems.map Nsem.addr := by
      simp only [State.update, List.map_map]
      apply List.map_congr_left
      intro q _
      by_cases hq : q.addr = p.addr
      · simp only [Function.comp, if_pos hq, ha]
      · simp only [Function.comp, if_neg hq]
    exact hm ▸ I.apart
  used q hq := by
    rcases (mem_update I hp).mp hq with rfl | ⟨hq, _⟩
    · rw [ha]
      exact I.used p hp
    · exact I.used q hq
  entry q hq := by
    rcases (mem_update I hp).mp hq with rfl | ⟨hq, hn⟩
    · rw [hid]
      exact hf
    · have hh : q.handle ≠ p.handle := fun h => hn (congrArg Handle.addr h)
      simp only [State.note, State.update, (he _ hh).tally]
      exact I.entry q hq
  rest h hn := by
    have hh : h ≠ p.handle := fun hh =>
      hn (f p) ((mem_update I hp).mpr (.inl rfl)) (hid.trans hh.symm)
    simp only [State.note, State.update, (he _ hh).tally]
    apply I.rest h
    intro q hq hqh
    by_cases hqa : q.addr = p.addr
    · rw [I.eq_of_addr hp hq hqa] at hqh
      exact hh hqh.symm
    · exact hn q ((mem_update I hp).mpr (.inr ⟨hq, hqa⟩)) hqh
  below h hl := by
    have hh : h ≠ p.handle := by
      intro hh
      have h0 := congrArg Tally.opens (I.below h hl)
      have h1 := (I.entry p hp).opened
      rw [← hh] at h1
      simp only [Tally.zero] at h0
      omega
    simp only [State.note, State.update, (he _ hh).tally]
    exact I.below h hl
  bound := hb
  right := ⟨hr, I.right⟩

theorem Inv.release {e : Event} (I : Inv s) (hp : p ∈ s.gNsems)
    (he : ∀ h, h ≠ p.handle → e.Spares h)
    (hg : Gone (tally (.freed p.handle :: e :: s.log) p.handle))
    (hb : ∀ name h, Named.bound name (e :: s.log) = some h ↔
      ∃ q ∈ s.gNsems, q.addr ≠ p.addr ∧ q.name = name ∧ q.unlinked = false ∧ q.handle = h)
    (hr : e.Right s.log) : Inv ((s.note e).release p) := by
  have hs : ∀ h, h ≠ p.handle →
      tally (.freed p.handle :: e :: s.log) h = tally s.log h := by
    intro h hh
    have hf : Event.Spares (.freed p.handle) h := by
      intro t
      simp [Event.move, Event.isOpen, Event.isClose, Event.isUnlink, Event.isFree, Ne.symm hh]
    rw [hf.tally, (he h hh).tally]
  have hmem : ∀ q, q ∈ ((s.note e).release p).gNsems ↔ q ∈ s.gNsems ∧ q.addr ≠ p.addr := by
    intro q
    simp [State.release, State.note]
  constructor
  · exact I.apart.sublist (List.filter_sublist.map _)
  · intro q hq
    obtain ⟨hq, hn⟩ := (hmem q).mp hq
    simp only [State.release, State.note, List.mem_filter]
    exact ⟨I.used q hq, by simpa using hn⟩
  · intro q hq
    obtain ⟨hq, hn⟩ := (hmem q).mp hq
    have hh : q.handle ≠ p.handle := fun h => hn (congrArg Handle.addr h)
    simp only [State.release, State.note, hs _ hh]
    exact I.entry q hq
  · intro h hn
    by_cases hh : h = p.handle
    · subst hh
      exact .inl hg
    · simp only [State.release, State.note, hs _ hh]
      apply I.rest h
      intro q hq hqh
      by_cases hqa : q.addr = p.addr
      · rw [I.eq_of_addr hp hq hqa] at hqh
        exact hh hqh.symm
      · exact hn q ((hmem q).mpr ⟨hq, hqa⟩) hqh
  · intro h hl
    have hh : h ≠ p.handle := by
      intro hh
      have h0 := congrArg Tally.opens (I.below h hl)
      have h1 := (I.entry p hp).opened
      rw [← hh] at h1
      simp only [Tally.zero] at h0
      omega
    simp only [State.release, State.note, hs _ hh]
    exact I.below h hl
  · intro name h
    have hb' : Named.bound name (.freed p.handle :: e :: s.log) =
        Named.bound name (e :: s.log) := rfl
    simp only [State.release, State.note, hb', hb, List.mem_filter]
    constructor
    · rintro ⟨q, hq, hn, hrest⟩
      exact ⟨q, ⟨hq, by simpa using hn⟩, hrest⟩
    · rintro ⟨q, ⟨hq, hn⟩, hrest⟩
      exact ⟨q, hq, by simpa using hn, hrest⟩
  · exact ⟨trivial, hr, I.right⟩

theorem semFindnamed_some {name : Name} {l : List Nsem} (h : semFindnamed name l = some p) :
    p ∈ l ∧ p.name = name :=
  ⟨List.mem_of_find?_eq_some h, by simpa using List.find?_some h⟩

theorem semFindnamed_none {name : Name} {l : List Nsem} (h : semFindnamed name l = none) :
    ∀ p ∈ l, p.name ≠ name := by
  intro p hp
  simpa using List.find?_eq_none.mp h p hp

theorem Inv.bound_none {name : Name} (I : Inv s) (h : semFindnamed name s.gNsems = none) :
    Named.bound name s.log = none := by
  rw [Option.eq_none_iff_forall_ne_some]
  intro g hg
  obtain ⟨p, hp, hn, -, -⟩ := (I.bound name g).mp hg
  exact semFindnamed_none h p hp hn

theorem Inv.bound_some {name : Name} (I : Inv s) (h : semFindnamed name s.gNsems = some p)
    (hu : p.unlinked = false) : Named.bound name s.log = some p.handle := by
  obtain ⟨hp, hn⟩ := semFindnamed_some h
  exact (I.bound name p.handle).mpr ⟨p, hp, hn, hu, rfl⟩

theorem Inv.bound_update (I : Inv s) (hp : p ∈ s.gNsems) {f : Nsem → Nsem}
    (hn : (f p).name = p.name) (hu : (f p).unlinked = p.unlinked)
    (hid : (f p).handle = p.handle) (name : Name) (h : Handle) :
    Named.bound name s.log = some h ↔
      ∃ q ∈ (s.update p.addr f).gNsems, q.name = name ∧ q.unlinked = false ∧ q.handle = h := by
  rw [I.bound]
  constructor
  · rintro ⟨q, hq, hqn, hqu, hqh⟩
    by_cases ha : q.addr = p.addr
    · rw [I.eq_of_addr hp hq ha] at hqn hqu hqh
      exact ⟨f p, (mem_update I hp).mpr (.inl rfl), hn.trans hqn, hu.trans hqu, hid.trans hqh⟩
    · exact ⟨q, (mem_update I hp).mpr (.inr ⟨hq, ha⟩), hqn, hqu, hqh⟩
  · rintro ⟨q, hq, hqn, hqu, hqh⟩
    rcases (mem_update I hp).mp hq with rfl | ⟨hq, _⟩
    · exact ⟨p, hp, hn.symm.trans hqn, hu.symm.trans hqu, hid.symm.trans hqh⟩
    · exact ⟨q, hq, hqn, hqu, hqh⟩

theorem Inv.refuse {name : Name} {oflag : OFlag} {value : Nat} {mem : Option Addr} (I : Inv s)
    (hr : Event.Right s.log (.refused name oflag value mem)) :
    Inv (s.note (.refused name oflag value mem)) :=
  I.quiet (fun _ _ => rfl) (fun _ => rfl) hr

theorem Inv.connect {name : Name} {oflag : OFlag} (I : Inv s)
    (hf : semFindnamed name s.gNsems = some p) (hu : p.unlinked = false)
    (hroom : p.nconnect + 1 < 65536) (hx : (oflag.creat && oflag.excl) = false) :
    Inv ((s.update p.addr fun p => { p with nconnect := (p.nconnect + 1) % 65536 }).note
      (.opened name oflag p.handle)) := by
  obtain ⟨hp, hn⟩ := semFindnamed_some hf
  apply I.touch hp
  · intro _
    rfl
  · rfl
  · intro h hh t
    simp [Event.move, Event.isOpen, Event.isClose, Event.isUnlink, Event.isFree, Ne.symm hh]
  · have E := I.entry p hp
    rw [tally_cons]
    constructor
    · exact Nat.add_pos_left E.opened _
    · have := E.nconnect
      simp only [Event.move, Event.isOpen, Event.isClose, decide_true, Bool.toNat_true,
        Bool.toNat_false, Nat.mod_eq_of_lt hroom]
      omega
    · exact Nat.mod_lt _ (by decide)
    · exact E.unfreed
    · exact E.unlinked
    · intro h
      exact absurd h (by simp [hu])
  · exact I.bound_update hp rfl rfl rfl
  · exact ⟨I.bound_some hf hu, hx⟩

theorem Inv.semCreate {name : Name} {oflag : OFlag} {value : Nat} {a : Addr} (I : Inv s)
    (hf : semFindnamed name s.gNsems = none) (hc : oflag.creat = true) (ha : a ∉ s.allocated) :
    Inv (semCreate name oflag value a s) := by
  have hz : tally s.log ⟨a, s.nextId⟩ = Tally.zero := I.below _ (Nat.le_refl _)
  have hs : ∀ h : Handle, h ≠ ⟨a, s.nextId⟩ →
      Event.Spares (.created name oflag ⟨a, s.nextId⟩) h := by
    intro h hh t
    simp [Event.move, Event.isOpen, Event.isClose, Event.isUnlink, Event.isFree, Ne.symm hh]
  have hne : ∀ q ∈ s.gNsems, q.handle ≠ ⟨a, s.nextId⟩ := by
    intro q hq hh
    have h0 := (I.entry q hq).opened
    rw [hh, hz] at h0
    exact absurd h0 (Nat.lt_irrefl 0)
  constructor
  · simp only [Named.semCreate, List.map_cons, List.nodup_cons, List.mem_map]
    refine ⟨?_, I.apart⟩
    rintro ⟨q, hq, rfl⟩
    exact ha (I.used q hq)
  · intro q hq
    simp only [Named.semCreate, List.mem_cons] at hq ⊢
    rcases hq with rfl | hq
    · exact .inl rfl
    · exact .inr (I.used q hq)
  · intro q hq
    simp only [Named.semCreate, List.mem_cons] at hq ⊢
    rcases hq with rfl | hq
    · rw [tally_cons, Nsem.handle, hz]
      constructor <;>
        simp [Tally.zero, Event.move, Event.isOpen, Event.isClose, Event.isUnlink, Event.isFree]
    · rw [(hs _ (hne q hq)).tally]
      exact I.entry q hq
  · intro h hn
    simp only [Named.semCreate, List.mem_cons, forall_eq_or_imp] at hn ⊢
    rw [(hs h (fun e => hn.1 e.symm)).tally]
    exact I.rest h hn.2
  · intro h hl
    simp only [Named.semCreate] at hl ⊢
    have hh : h ≠ ⟨a, s.nextId⟩ := by
      rintro rfl
      simp only at hl
      omega
    rw [(hs h hh).tally]
    exact I.below h (by omega)
  · intro n h
    simp only [Named.semCreate, Named.bound, List.mem_cons]
    by_cases hn : name = n
    · rw [if_pos hn]
      constructor
      · intro he
        cases he
        exact ⟨_, .inl rfl, hn, rfl, rfl⟩
      · rintro ⟨q, rfl | hq, hqn, -, rfl⟩
        · rfl
        · exact absurd (hqn.trans hn.symm) (semFindnamed_none hf q hq)
    · rw [if_neg hn, I.bound]
      constructor
      · rintro ⟨q, hq, hrest⟩
        exact ⟨q, .inr hq, hrest⟩
      · rintro ⟨q, rfl | hq, hqn, hrest⟩
        · exact absurd hqn hn
        · exact ⟨q, hq, hqn, hrest⟩
  · refine ⟨⟨I.bound_none hf, hc, congrArg Tally.opens hz, ?_⟩, I.right⟩
    intro g ho hfr hga
    obtain ⟨q, hq, rfl⟩ := I.present ho hfr
    have hqa : q.addr = a := hga
    rw [← hqa] at ha
    exact ha (I.used q hq)

theorem Inv.semOpen {name : Option Name} {oflag : OFlag} {value : Nat} {mem : Option Addr}
    (I : Inv s) (hv : (Op.semOpen name oflag value mem).valid s)
    (hk : (Op.semOpen name oflag value mem).keeps s) :
    Inv (semOpen name oflag value mem s) := by
  cases name with
  | none => exact I
  | some name =>
    simp only [Named.semOpen]
    by_cases hl : 0 < name.length
    · rw [if_pos hl]
      cases hf : semFindnamed name s.gNsems with
      | some psem =>
        obtain ⟨hu, hroom⟩ := hk name rfl psem hf
        have hb := I.bound_some hf hu
        by_cases hx : (oflag.creat && oflag.excl) = true
        · have hx' : (!oflag.creat || !oflag.excl) = false := by
            rw [← Bool.not_and, hx]
            rfl
          simp only [hx', Bool.false_eq_true, if_false]
          exact I.refuse (.inr (.inl ⟨by rw [hb]; rfl, hx⟩))
        · have hx' : (!oflag.creat || !oflag.excl) = true := by
            rw [← Bool.not_and, Bool.eq_false_iff.mpr hx]
            rfl
          simp only [hx', if_true]
          exact I.connect hf hu (hroom.resolve_right hx) (Bool.eq_false_iff.mpr hx)
      | none =>
        have hb := I.bound_none hf
        simp only
        split
        · rename_i hc
          split
          · cases mem with
            | some a => exact I.semCreate hf hc (hv a rfl)
            | none => exact I.refuse (.inr (.inr ⟨hb, .inr (.inr rfl)⟩))
          · rename_i hval
            exact I.refuse (.inr (.inr ⟨hb, .inr (.inl (by omega))⟩))
        · rename_i hc
          exact I.refuse (.inr (.inr ⟨hb, .inl (by simpa using hc)⟩))
    · rw [if_neg hl]
      exact I.refuse (.inl (List.length_eq_zero_iff.mp (by omega)))

theorem Inv.semUnlink {name : Option Name} (I : Inv s) (hk : (Op.semUnlink name).keeps s) :
    Inv (semUnlink name s) := by
  cases name with
  | none => exact I
  | some name =>
    simp only [Named.semUnlink]
    cases hf : semFindnamed name s.gNsems with
    | none => exact I.quiet (fun _ _ => rfl) (fun _ => rfl) (I.bound_none hf)
    | some psem =>
      have hu := hk name rfl psem hf
      obtain ⟨hp, hn⟩ := semFindnamed_some hf
      have E := I.entry psem hp
      have hb := I.bound_some hf hu
      have hs : ∀ h, h ≠ psem.handle → Event.Spares (.unlinked name psem.handle) h := by
        intro h hh t
        simp [Event.move, Event.isOpen, Event.isClose, Event.isUnlink, Event.isFree, Ne.symm hh]
      -- the name leads nowhere: the one linked semaphore it led to is `psem`
      have hother : ∀ q ∈ s.gNsems, q.addr ≠ psem.addr → q.name = name →
          q.unlinked = true := by
        intro q hq ha hqn
        by_contra hqu
        have h' := (I.bound name q.handle).mpr ⟨q, hq, hqn, by simpa using hqu, rfl⟩
        rw [hb] at h'
        exact ha (congrArg Handle.addr (Option.some.inj h')).symm
      simp only
      split
      · rename_i h0
        apply I.release hp hs
        · have := E.nconnect
          rw [tally_cons, tally_cons]
          constructor
          · simp [Event.move, Event.isFree, E.unfreed]
          · simp [Event.move, Event.isUnlink]
          · simp only [Event.move, Event.isOpen, Event.isClose, Bool.toNat_false]
            omega
        · intro n h
          simp only [Named.bound]
          by_cases hnn : name = n
          · rw [if_pos hnn]
            subst hnn
            constructor
            · intro h'
              cases h'
            · rintro ⟨q, hq, ha, hqn, hqu, -⟩
              rw [hother q hq ha hqn] at hqu
              cases hqu
          · rw [if_neg hnn, I.bound]
            constructor
            · rintro ⟨q, hq, hqn, hrest⟩
              refine ⟨q, hq, ?_, hqn, hrest⟩
              intro ha
              rw [I.eq_of_addr hp hq ha] at hqn
              exact hnn (hn.symm.trans hqn)
            · rintro ⟨q, hq, -, hrest⟩
              exact ⟨q, hq, hrest⟩
        · exact hb
      · rename_i h0
        apply I.touch hp
        · intro _
          rfl
        · rfl
        · exact hs
        · rw [tally_cons]
          constructor
          · exact Nat.add_pos_left E.opened _
          · simpa [Event.move, Event.isOpen, Event.isClose] using E.nconnect
          · exact E.room
          · simpa [Event.move, Event.isFree] using E.unfreed
          · simp [Event.move, Event.isUnlink]
          · intro _
            exact Nat.pos_of_ne_zero h0
        · intro n h
          simp only [Named.bound]
          by_cases hnn : name = n
          · rw [if_pos hnn]
            subst hnn
            constructor
            · intro h'
              cases h'
            · rintro ⟨q, hq, hqn, hqu, -⟩
              rcases (mem_update I hp).mp hq with rfl | ⟨hq, ha⟩
              · cases hqu
              · rw [hother q hq ha hqn] at hqu
                cases hqu
          · rw [if_neg hnn, I.bound]
            constructor
            · rintro ⟨q, hq, hqn, hrest⟩
              refine ⟨q, (mem_update I hp).mpr (.inr ⟨hq, ?_⟩), hqn, hrest⟩
              intro ha
              rw [I.eq_of_addr hp hq ha] at hqn
              exact hnn (hn.symm.trans hqn)
            · rintro ⟨q, hq, hqn, hrest⟩
              rcases (mem_update I hp).mp hq with rfl | ⟨hq, _⟩
              · exact absurd (hn.symm.trans hqn) hnn
              · exact ⟨q, hq, hqn, hrest⟩
        · exact hb

theorem Inv.semClose (I : Inv s) (hv : closes s.log h < opens s.log h) :
    Inv (semClose h s) := by
  -- the caller's semaphore was not freed, since a freed one has been closed by everyone
  obtain ⟨p, hp, rfl⟩ : ∃ p ∈ s.gNsems, p.handle = h := by
    by_contra hn
    rcases I.rest h fun p hp hh => hn ⟨p, hp, hh⟩ with g | z
    · have hc : closes s.log h = opens s.log h := g.closed
      omega
    · have hz : opens s.log h = 0 := congrArg Tally.opens z
      omega
  have hf : (s.gNsems.find? fun psem => psem.addr = p.handle.addr) = some p := by
    cases hq : s.gNsems.find? fun psem => psem.addr = p.handle.addr with
    | none =>
      have hn := List.find?_eq_none.mp hq p hp
      exact absurd (decide_eq_true rfl) hn
    | some q =>
      have hd := List.find?_some hq
      have ha : q.addr = p.addr := of_decide_eq_true hd
      rw [I.eq_of_addr hp (List.mem_of_find?_eq_some hq) ha]
  have E := I.entry p hp
  have hpos : 0 < p.nconnect := by
    have hc := E.nconnect
    simp only [tally] at hc
    omega
  have hs : ∀ h, h ≠ p.handle → Event.Spares (.closed p.handle p.handle) h := by
    intro h hh t
    simp [Event.move, Event.isOpen, Event.isClose, Event.isUnlink, Event.isFree, Ne.symm hh]
  simp only [Named.semClose, hf]
  split
  · rename_i hlast
    apply I.release hp hs
    · have hc := E.nconnect
      have hu := E.unlinked.mp hlast.2
      rw [tally_cons, tally_cons]
      constructor
      · simp [Event.move, Event.isFree, E.unfreed]
      · simpa [Event.move, Event.isUnlink] using hu
      · simp only [Event.move, Event.isOpen, Event.isClose, Bool.toNat_false, decide_true,
          Bool.toNat_true]
        omega
    · intro n h
      have hb : Named.bound n (.closed p.handle p.handle :: s.log) = Named.bound n s.log := rfl
      rw [hb, I.bound]
      constructor
      · rintro ⟨q, hq, hqn, hqu, hrest⟩
        refine ⟨q, hq, ?_, hqn, hqu, hrest⟩
        intro ha
        rw [I.eq_of_addr hp hq ha, hlast.2] at hqu
        cases hqu
      · rintro ⟨q, hq, -, hrest⟩
        exact ⟨q, hq, hrest⟩
    · rfl
  · rename_i hmore
    apply I.touch hp
    · intro _
      rfl
    · rfl
    · exact hs
    · have hc := E.nconnect
      have hr := E.room
      rw [tally_cons]
      constructor
      · exact Nat.add_pos_left E.opened _
      · simp only [Event.move, Event.isOpen, Event.isClose, Bool.toNat_false, decide_true,
          Bool.toNat_true]
        omega
      · show p.nconnect - 1 < 65536
        omega
      · exact E.unfreed
      · exact E.unlinked
      · intro hu
        have hne : p.nconnect - 1 ≠ 0 := fun h0 => hmore ⟨h0, hu⟩
        exact Nat.pos_of_ne_zero hne
    · exact I.bound_update hp rfl rfl rfl
    · rfl

theorem Inv.step {i : Op} (I : Inv s) (hv : i.valid s) (hk : i.keeps s) : Inv (i.exec s) := by
  cases i with
  | semOpen name oflag value mem => exact I.semOpen hv hk
  | semClose h => exact I.semClose hv
  | semUnlink name => exact I.semUnlink hk

theorem named_semaphores {s : State}
    (h : Reach namedMachine Start (fun s i => i.keeps s) s) : Correct s := by
  apply Inv.correct
  apply h.invariant (fun _ S => S.inv)
  rintro s i s' I hv hk he
  cases he
  exact I.step hv hk

def startState : State := ⟨[], [], 0, []⟩

theorem startState_start : Start startState := ⟨rfl, rfl, rfl⟩

def sampleName : Name := [115]

def reuseRun : List Op :=
  [.semOpen (some sampleName) ⟨true, false⟩ 1 (some 64),
    .semOpen (some sampleName) ⟨false, false⟩ 0 none, .semClose ⟨64, 0⟩, .semUnlink (some sampleName), .semClose ⟨64, 0⟩,
    .semOpen (some sampleName) ⟨true, true⟩ 3 (some 64)]

theorem named_semaphores_run : ∃ s, runAll namedMachine (fun s i => i.keeps s) startState
    reuseRun = some s ∧ s.gNsems.length = 1 ∧ Correct s :=
  have h : ∃ s, runAll namedMachine (fun s i => i.keeps s) startState reuseRun = some s ∧
      s.gNsems.length = 1 := by decide +kernel
  h.elim fun s hs => ⟨s, hs.1, hs.2,
    named_semaphores (.runAll (.init startState_start) hs.1)⟩

/-- `sem_findnamed` does not look at `unlinked`: `sem_open(name, 0)` after `sem_unlink(name)`
connects to the unlinked semaphore that another task still has open. -/
theorem unlinked_found : ¬ ∀ s, Reachable namedMachine Start s → Correct s := by
  intro hall
  have hr : ∃ s, runAll namedMachine (fun _ _ => True) startState
      [.semOpen (some sampleName) ⟨true, false⟩ 1 (some 64), .semUnlink (some sampleName),
        .semOpen (some sampleName) ⟨false, false⟩ 0 none] = some s ∧
      s.log = [.opened sampleName ⟨false, false⟩ ⟨64, 0⟩, .unlinked sampleName ⟨64, 0⟩,
        .created sampleName ⟨true, false⟩ ⟨64, 0⟩] := by
    decide +kernel
  obtain ⟨s, hs, hl⟩ := hr
  have hc := (hall s (.runAll (.init startState_start) hs)).right
  rw [hl] at hc
  have hb : bound sampleName [.unlinked sampleName ⟨64, 0⟩,
      .created sampleName ⟨true, false⟩ ⟨64, 0⟩] = some ⟨64, 0⟩ := hc.1.1
  exact absurd hb (by decide)

end NuttxAvr32.Sem.Named
