import Mathlib.Data.Nat.Count
import NuttxAvr32.Lib.Runs
import NuttxAvr32.Sig.Timedwait

/-! # Polling

`poll` sets up each entry of its list, waits for the semaphore on its stack, and tears each entry
down. Between any two of its steps drivers may report events on the entries they hold, and the
timer ticks.
-/

namespace NuttxAvr32.Poll

open Runs
open Function (update update_self update_of_ne)

/-- What a call of `poll` is given: the descriptors of its list and the timeout, the files of the
task with the drivers that have a `poll` method, the answer of the driver to each setup, whether a
watchdog is free, and the time in nanoseconds from the start of the watchdog to the next tick. -/
structure Env where
  fds : List Int
  timeout : Int
  nfileDescriptors : Nat
  files : Option (Nat → Option Nat)
  answer : Nat → Int
  wdog : Bool
  msecPerTick : Nat
  phase : Nat

inductive Pc
  | setup (i : Nat)
  | start
  | wait
  | teardown (i : Nat) (ret : Int) (count : Nat)
  | returned (r : Int)
deriving DecidableEq, Repr

/-- `revents` and `sems` are fields of the entries; `held` has the entries that a driver keeps a
pointer to; `timer` has the ticks until the watchdog posts. -/
structure Sys where
  pc : Pc
  revents : Nat → UInt8
  sems : Nat → Bool
  held : Nat → Nat → Bool
  sem : Nat
  timer : Option Nat
  ticks : Nat
  errno : Int

namespace Env

variable (env : Env)

def nfds : Nat := env.fds.length

def fd (i : Nat) : Int := env.fds.getD i (-1)

/-- `poll_fdsetup` up to the call of the driver: the driver, or `-EBADF`, `-EMFILE`, `-ENOSYS`. -/
def driver (fd : Int) : Except Int Nat :=
  if fd < 0 ∨ (env.nfileDescriptors : Int) ≤ fd then .error (-9)
  else
    match env.files with
    | none => .error (-24)
    | some files =>
      match files fd.toNat with
      | none => .error (-38)
      | some d => .ok d

/-- What `poll_fdsetup` returns for an entry, where the driver answers `answer`. -/
def result (i : Nat) (answer : Int) : Int :=
  match env.driver (env.fd i) with
  | .error e => e
  | .ok _ => answer

/-- `MSEC2TICK`, in an `int`. -/
def delay : Int := (env.timeout + env.msecPerTick / 2).bmod (2 ^ 32) |>.tdiv env.msecPerTick

/-- The ticks until the watchdog posts, where it is started. -/
def timer : Option Nat :=
  if 0 ≤ env.timeout ∧ env.wdog then Sig.Timedwait.wdStart env.delay else none

end Env

/-- A driver that gets the pollfd at setup keeps it, and forgets it at teardown. -/
def Sys.keep (env : Env) (i : Nat) (b : Bool) (s : Sys) : Sys :=
  match env.driver (env.fd i) with
  | .error _ => s
  | .ok d => { s with held := update s.held d (update (s.held d) i b) }

def pollSetup (env : Env) (i : Nat) (s : Sys) : Sys :=
  let s :=
    { s with
      sems := update s.sems i true
      revents := update s.revents i 0 }
  let ret := env.result i (env.answer i)
  if ret < 0 then { s with pc := .returned (-1), errno := -ret }
  else { s.keep env i true with pc := .setup (i + 1) }

def pollTeardown (env : Env) (answer : Int) (i : Nat) (ret : Int) (count : Nat) (s : Sys) : Sys :=
  let status := env.result i answer
  { s.keep env i false with
    sems := update s.sems i false
    pc := .teardown (i + 1) (if status < 0 then status else ret)
      (if s.revents i ≠ 0 then count + 1 else count) }

/-- The next step of `poll`; `answer` is what a driver returns at teardown. -/
def poll (env : Env) (answer : Int) (s : Sys) : Option Sys :=
  match s.pc with
  | .setup i => if i < env.nfds then some (pollSetup env i s) else some { s with pc := .start }
  | .start => some { s with pc := .wait, timer := env.timer, ticks := 0 }
  | .wait =>
    if 0 < s.sem then some { s with pc := .teardown 0 0 0, sem := s.sem - 1, timer := none }
    else none
  | .teardown i ret count =>
    if i < env.nfds then some (pollTeardown env answer i ret count s)
    else if ret < 0 then some { s with pc := .returned (-1), errno := -ret }
    else some { s with pc := .returned count }
  | .returned _ => none

def notify (i : Nat) (eventset : UInt8) (s : Sys) : Sys :=
  let revents := s.revents i ||| eventset
  { s with
    revents := update s.revents i revents
    sem := if revents ≠ 0 then s.sem + 1 else s.sem }

/-- A tick, with `poll_timeout` where the watchdog is due. -/
def tick (s : Sys) : Sys :=
  let s := { s with ticks := s.ticks + 1 }
  match s.timer with
  | none => s
  | some n =>
    if n ≤ 1 then { s with timer := none, sem := s.sem + 1 } else { s with timer := some (n - 1) }

inductive Op
  | step (answer : Int)
  | event (driver i : Nat) (eventset : UInt8)
  | tick
deriving DecidableEq

def Op.exec (env : Env) : Op → Sys → Option Sys
  | step answer, s => poll env answer s
  | event _ i eventset, s => some (notify i eventset s)
  | tick, s => some (Poll.tick s)

def Pc.running : Pc → Bool
  | .returned _ => false
  | _ => true

def Op.valid (s : Sys) : Op → Prop
  | step _ => True
  | event d i _ => s.pc.running = true ∧ s.held d i = true
  | tick => s.pc.running = true

def pollMachine (env : Env) : Machine Sys Op where
  valid s i := i.valid s
  exec s i := i.exec env s

structure Start (s : Sys) : Prop where
  pc : s.pc = .setup 0
  held : ∀ d i, s.held d i = false
  sem : s.sem = 0
  timer : s.timer = none

def Sys.ready (env : Env) (s : Sys) : Nat := Nat.count (fun i => s.revents i ≠ 0) env.nfds

/-- The timeout has elapsed at a tick, where the first tick came `phase` nanoseconds after the
start. -/
def Env.Elapsed (env : Env) (ticks : Nat) : Prop :=
  0 ≤ env.timeout ∧ env.timeout * 1000000 ≤
    env.phase + ((ticks : Int) - 1) * (env.msecPerTick * 1000000)

/-- No driver holds an entry and no watchdog the semaphore; a count is that of the entries with
events, and zero comes after the timeout. -/
structure Right (env : Env) (s : Sys) (r : Int) : Prop where
  held : ∀ d i, s.held d i = false
  timer : s.timer = none
  count : 0 ≤ r → r = s.ready env ∧ (r = 0 → env.Elapsed s.ticks)

def Env.refused (env : Env) (i : Nat) : Prop := env.result i (env.answer i) < 0

/-- The first entry is refused, or none is, and the watchdog, where there is one, is not early. -/
def Env.Holds (env : Env) : Prop :=
  (0 < env.nfds ∧ env.refused 0) ∨
    (∀ i < env.nfds, ¬ env.refused i) ∧ ∀ n, env.timer = some n → env.Elapsed n

section

variable {env : Env} {s s' : Sys} {i j : Nat} {op : Op} {P : Nat → Prop}

/-- The entries in `P` are held by their drivers, and no others are. -/
def Held (env : Env) (P : Nat → Prop) (s : Sys) : Prop :=
  ∀ d i, s.held d i = true ↔ P i ∧ env.driver (env.fd i) = .ok d

def Reports (s : Sys) (n : Nat) : Prop := ∃ i < n, s.revents i ≠ 0

def Posted (env : Env) (s : Sys) : Prop := ∃ n, env.timer = some n ∧ n ≤ s.ticks

/-- The watchdog runs, or there is none. -/
def Running (env : Env) (s : Sys) : Prop :=
  ∀ k, s.timer = some k → 0 < k ∧ env.timer = some (s.ticks + k)

def Accepted (env : Env) (n : Nat) : Prop := ∀ i < n, ¬ env.refused i

def Inv (env : Env) (s : Sys) : Prop :=
  match s.pc with
  | .setup i => i ≤ env.nfds ∧ Accepted env i ∧ Held env (· < i) s ∧ s.timer = none ∧
      (0 < s.sem → Reports s i)
  | .start => Accepted env env.nfds ∧ Held env (· < env.nfds) s ∧ s.timer = none ∧
      (0 < s.sem → Reports s env.nfds)
  | .wait => Accepted env env.nfds ∧ Held env (· < env.nfds) s ∧ Running env s ∧
      (0 < s.sem → Reports s env.nfds ∨ Posted env s)
  | .teardown i _ count => i ≤ env.nfds ∧ Accepted env env.nfds ∧
      Held env (fun j => i ≤ j ∧ j < env.nfds) s ∧ s.timer = none ∧
      count = Nat.count (fun j => s.revents j ≠ 0) i ∧ (Reports s env.nfds ∨ Posted env s)
  | .returned r => s.timer = none ∧
      ((∃ i < env.nfds, env.refused i ∧ Accepted env i ∧ Held env (· < i) s ∧ r = -1) ∨
        Accepted env env.nfds ∧ Held env (fun _ => False) s ∧
          (0 ≤ r → r = s.ready env ∧ (Reports s env.nfds ∨ Posted env s)))

theorem Inv.start (h : Start s) : Inv env s := by
  unfold Inv
  rw [h.pc]
  refine ⟨Nat.zero_le _, fun i hi => absurd hi (Nat.not_lt_zero i), fun d i => ?_, h.timer, ?_⟩
  · rw [h.held]
    simp
  · rw [h.sem]
    exact fun h => absurd h (Nat.lt_irrefl 0)

theorem held_keep (d k : Nat) (b : Bool) : (s.keep env i b).held d k =
    if k = i ∧ env.driver (env.fd i) = .ok d then b else s.held d k := by
  unfold Sys.keep
  cases hd : env.driver (env.fd i) with
  | error e => simp
  | ok d' =>
    by_cases h : d = d'
    · subst h
      by_cases hk : k = i
      · subst hk
        simp
      · simp [hk]
    · have hne : ¬ d' = d := fun h' => h h'.symm
      simp [h, hne]

@[simp] theorem keep_revents (b : Bool) : (s.keep env i b).revents = s.revents := by
  unfold Sys.keep
  split <;> rfl

@[simp] theorem keep_sem (b : Bool) : (s.keep env i b).sem = s.sem := by
  unfold Sys.keep
  split <;> rfl

@[simp] theorem keep_timer (b : Bool) : (s.keep env i b).timer = s.timer := by
  unfold Sys.keep
  split <;> rfl

@[simp] theorem keep_ticks (b : Bool) : (s.keep env i b).ticks = s.ticks := by
  unfold Sys.keep
  split <;> rfl

theorem or_ne_zero {a b : UInt8} (h : a ≠ 0) : a ||| b ≠ 0 := by
  intro h0
  exact h (UInt8.or_eq_zero_iff.mp h0).1

theorem driver_error {fd e : Int} (h : env.driver fd = .error e) : e < 0 := by
  unfold Env.driver at h
  split at h
  · cases h
    decide
  · split at h
    · cases h
      decide
    · split at h
      · cases h
        decide
      · cases h

theorem driver_of_not_refused (h : ¬ env.refused i) : ∃ d, env.driver (env.fd i) = .ok d := by
  cases hd : env.driver (env.fd i) with
  | ok d => exact ⟨d, rfl⟩
  | error e =>
    refine absurd ?_ h
    unfold Env.refused Env.result
    rw [hd]
    exact driver_error hd

theorem timer_pos {n : Nat} (h : env.timer = some n) : 0 < n := by
  unfold Env.timer at h
  split at h
  · unfold Sig.Timedwait.wdStart at h
    split at h
    · cases h
    · split at h
      · cases h
        exact Nat.one_pos
      · split at h
        · cases h
          exact Nat.succ_pos _
        · cases h
          omega
  · cases h

theorem Inv.setup (hi : i < env.nfds) (hpc : s.pc = .setup i) (h : Inv env s) :
    Inv env (pollSetup env i s) := by
  unfold Inv at h
  rw [hpc] at h
  obtain ⟨-, hacc, hheld, htimer, hsem⟩ := h
  unfold pollSetup
  dsimp only
  split
  · next hret =>
    exact ⟨htimer, .inl ⟨i, hi, hret, hacc, hheld, rfl⟩⟩
  · next hret =>
    refine ⟨hi, fun j hj => ?_, fun d j => ?_, ?_, fun hpos => ?_⟩
    · rcases Nat.lt_succ_iff_lt_or_eq.mp hj with hlt | rfl
      · exact hacc j hlt
      · exact hret
    · dsimp only
      rw [held_keep]
      split
      · next hnew =>
        obtain ⟨rfl, hd⟩ := hnew
        simp [hd]
      · next hold =>
        rw [hheld]
        constructor
        · exact fun hj => ⟨Nat.lt_succ_of_lt hj.1, hj.2⟩
        · intro ⟨hj, hd⟩
          rcases Nat.lt_succ_iff_lt_or_eq.mp hj with hlt | rfl
          · exact ⟨hlt, hd⟩
          · exact absurd ⟨rfl, hd⟩ hold
    · dsimp only
      rw [keep_timer]
      exact htimer
    · dsimp only at hpos
      rw [keep_sem] at hpos
      obtain ⟨j, hj, hr⟩ := hsem hpos
      refine ⟨j, Nat.lt_succ_of_lt hj, ?_⟩
      dsimp only
      rw [keep_revents]
      dsimp only
      rwa [update_of_ne (by omega)]

theorem Inv.teardown {ret : Int} {count : Nat} (answer : Int) (hi : i < env.nfds)
    (hpc : s.pc = .teardown i ret count) (h : Inv env s) :
    Inv env (pollTeardown env answer i ret count s) := by
  unfold Inv at h
  rw [hpc] at h
  obtain ⟨-, hacc, hheld, htimer, hcount, hwoken⟩ := h
  unfold pollTeardown
  refine ⟨hi, hacc, fun d j => ?_, ?_, ?_, ?_⟩
  · dsimp only
    rw [held_keep]
    split
    · next hold =>
      obtain ⟨rfl, hd⟩ := hold
      simp
    · next hold =>
      rw [hheld]
      constructor
      · intro ⟨hj, hd⟩
        refine ⟨⟨?_, hj.2⟩, hd⟩
        by_contra hlt
        have heq : j = i := by omega
        exact hold ⟨heq, heq ▸ hd⟩
      · exact fun hj => ⟨⟨Nat.le_of_succ_le hj.1.1, hj.1.2⟩, hj.2⟩
  · dsimp only
    rw [keep_timer]
    exact htimer
  · dsimp only
    rw [keep_revents, Nat.count_succ, hcount]
    split <;> rfl
  · unfold Reports Posted at hwoken ⊢
    dsimp only
    rwa [keep_revents, keep_ticks]

theorem Inv.poll {answer : Int} (h : Inv env s) (he : poll env answer s = some s') :
    Inv env s' := by
  unfold Poll.poll at he
  split at he
  · next i hpc =>
    split at he
    · next hi =>
      cases he
      exact h.setup hi hpc
    · next hi =>
      cases he
      unfold Inv at h
      rw [hpc] at h
      obtain ⟨hle, hacc, hheld, htimer, hsem⟩ := h
      have heq : i = env.nfds := by omega
      subst heq
      exact ⟨hacc, hheld, htimer, hsem⟩
  · next hpc =>
    cases he
    unfold Inv at h
    rw [hpc] at h
    obtain ⟨hacc, hheld, -, hsem⟩ := h
    refine ⟨hacc, hheld, fun k hk => ?_, fun hpos => .inl (hsem hpos)⟩
    exact ⟨timer_pos hk, by rw [Nat.zero_add]; exact hk⟩
  · next hpc =>
    split at he
    · next hpos =>
      cases he
      unfold Inv at h
      rw [hpc] at h
      obtain ⟨hacc, hheld, -, hsem⟩ := h
      refine ⟨Nat.zero_le _, hacc, fun d j => ?_, rfl, (Nat.count_zero _).symm, hsem hpos⟩
      rw [hheld]
      simp
    · cases he
  · next i ret count hpc =>
    split at he
    · next hi =>
      cases he
      exact h.teardown answer hi hpc
    · next hi =>
      unfold Inv at h
      rw [hpc] at h
      obtain ⟨hle, hacc, hheld, htimer, hcount, hwoken⟩ := h
      have heq : i = env.nfds := by omega
      subst heq
      have hnone : Held env (fun _ => False) s := by
        intro d j
        rw [hheld]
        constructor
        · exact fun ⟨hj, _⟩ => absurd hj.2 (Nat.not_lt.mpr hj.1)
        · exact fun ⟨hj, _⟩ => hj.elim
      split at he
      · cases he
        exact ⟨htimer, .inr ⟨hacc, hnone, fun hr => absurd hr (by decide)⟩⟩
      · cases he
        exact ⟨htimer, .inr ⟨hacc, hnone, fun _ => ⟨congrArg Nat.cast hcount, hwoken⟩⟩⟩
  · cases he

theorem reports_notify {n : Nat} (x : UInt8) (h : Reports s n) : Reports (notify i x s) n := by
  obtain ⟨j, hj, hr⟩ := h
  refine ⟨j, hj, ?_⟩
  unfold notify
  dsimp only
  by_cases hji : j = i
  · subst hji
    rw [update_self]
    exact or_ne_zero hr
  · rwa [update_of_ne hji]

theorem sem_notify {n : Nat} (x : UInt8) (hi : i < n) (hpos : 0 < (notify i x s).sem) :
    0 < s.sem ∨ Reports (notify i x s) n := by
  unfold notify at hpos ⊢
  dsimp only at hpos ⊢
  split at hpos
  · next hr =>
    refine .inr ⟨i, hi, ?_⟩
    dsimp only
    rwa [update_self]
  · exact .inl hpos

theorem Inv.event {d : Nat} {x : UInt8} (h : Inv env s) (hrun : s.pc.running = true)
    (hheld : s.held d i = true) : Inv env (notify i x s) := by
  unfold Inv at h ⊢
  have hpc : (notify i x s).pc = s.pc := rfl
  rw [hpc]
  split at h
  · next k hk =>
    obtain ⟨hle, hacc, hh, htimer, hsem⟩ := h
    refine ⟨hle, hacc, hh, htimer, fun hpos => ?_⟩
    rcases sem_notify x ((hh d i).mp hheld).1 hpos with hold | hnew
    · exact reports_notify x (hsem hold)
    · exact hnew
  · obtain ⟨hacc, hh, htimer, hsem⟩ := h
    refine ⟨hacc, hh, htimer, fun hpos => ?_⟩
    rcases sem_notify x ((hh d i).mp hheld).1 hpos with hold | hnew
    · exact reports_notify x (hsem hold)
    · exact hnew
  · obtain ⟨hacc, hh, htimer, hsem⟩ := h
    refine ⟨hacc, hh, htimer, fun hpos => ?_⟩
    rcases sem_notify x ((hh d i).mp hheld).1 hpos with hold | hnew
    · exact (hsem hold).imp_left (reports_notify x)
    · exact .inl hnew
  · next k ret count hk =>
    obtain ⟨hle, hacc, hh, htimer, hcount, hwoken⟩ := h
    refine ⟨hle, hacc, hh, htimer, ?_, hwoken.imp_left (reports_notify x)⟩
    -- the entries below `k` are not held any more
    have hik := ((hh d i).mp hheld).1.1
    have hsame : ∀ j < k, (notify i x s).revents j = s.revents j := by
      intro j hj
      exact update_of_ne (by omega) ..
    rw [hcount]
    refine Nat.le_antisymm (Nat.count_mono_left fun j hj hr => ?_)
      (Nat.count_mono_left fun j hj hr => ?_)
    · rwa [hsame j hj]
    · rwa [← hsame j hj]
  · next r hk =>
    rw [hk] at hrun
    cases hrun

theorem Inv.tick (h : Inv env s) (hrun : s.pc.running = true) : Inv env (tick s) := by
  have hposted : Posted env s → ∀ s', s'.ticks = s.ticks + 1 → Posted env s' := by
    intro ⟨n, hn, hle⟩ s' ht
    exact ⟨n, hn, by omega⟩
  cases htimer : s.timer with
  | none =>
    have htick : Poll.tick s = { s with ticks := s.ticks + 1 } := by
      unfold Poll.tick
      dsimp only
      rw [htimer]
    rw [htick]
    unfold Inv at h ⊢
    dsimp only
    split at h
    · exact h
    · exact h
    · obtain ⟨hacc, hh, -, hsem⟩ := h
      refine ⟨hacc, hh, fun k hk => ?_, fun hpos => (hsem hpos).imp_right (hposted · _ rfl)⟩
      rw [show s.timer = some k from hk] at htimer
      cases htimer
    · obtain ⟨hle, hacc, hh, ht, hcount, hwoken⟩ := h
      exact ⟨hle, hacc, hh, ht, hcount, hwoken.imp_right (hposted · _ rfl)⟩
    · next r hk =>
      rw [hk] at hrun
      cases hrun
  | some k =>
    unfold Inv at h
    split at h
    · exact absurd (htimer.symm.trans h.2.2.2.1) (by simp)
    · exact absurd (htimer.symm.trans h.2.2.1) (by simp)
    · next hpc =>
      obtain ⟨hacc, hh, hrunning, hsem⟩ := h
      obtain ⟨hk, henv⟩ := hrunning k htimer
      unfold Poll.tick
      dsimp only
      rw [htimer]
      dsimp only
      split
      · next hone =>
        have hk1 : k = 1 := by omega
        subst hk1
        unfold Inv
        dsimp only
        rw [hpc]
        refine ⟨hacc, hh, fun k hk => (by cases hk), fun _ => .inr ⟨_, henv, Nat.le_refl _⟩⟩
      · next hmore =>
        unfold Inv
        dsimp only
        rw [hpc]
        refine ⟨hacc, hh, fun m hm => ?_, fun hpos => (hsem hpos).imp_right (hposted · _ rfl)⟩
        cases hm
        refine ⟨by omega, ?_⟩
        dsimp only
        rw [henv]
        congr 1
        omega
    · exact absurd (htimer.symm.trans h.2.2.2.1) (by simp)
    · exact absurd (htimer.symm.trans h.1) (by simp)

theorem Inv.exec (h : Inv env s) (hv : op.valid s) (he : op.exec env s = some s') : Inv env s' := by
  cases op with
  | step answer => exact h.poll he
  | event d i x =>
    cases he
    exact h.event hv.1 hv.2
  | tick =>
    cases he
    exact h.tick hv

theorem inv_reachable (h : Reachable (pollMachine env) Start s) : Inv env s :=
  h.invariant (fun _ => Inv.start) fun _ _ _ hi hv _ he => hi.exec hv he

theorem Env.Elapsed.mono {m n : Nat} (h : env.Elapsed m) (hmn : m ≤ n) : env.Elapsed n := by
  obtain ⟨h0, hle⟩ := h
  refine ⟨h0, hle.trans ?_⟩
  have hp : (0 : Int) ≤ (env.msecPerTick : Int) * 1000000 :=
    Int.mul_nonneg (Int.natCast_nonneg _) (by decide)
  exact Int.add_le_add_left
    (Int.mul_le_mul_of_nonneg_right (show (m : Int) - 1 ≤ n - 1 by omega) hp) _

theorem right_of_holds (hcond : env.Holds) (h : Reachable (pollMachine env) Start s) {r : Int}
    (hpc : s.pc = .returned r) : Right env s r := by
  have hinv := inv_reachable h
  unfold Inv at hinv
  rw [hpc] at hinv
  obtain ⟨htimer, ⟨i, hi, href, hacc, hheld, rfl⟩ | ⟨hacc, hheld, hcount⟩⟩ := hinv
  · have hi0 : i = 0 := by
      rcases hcond with ⟨-, h0⟩ | ⟨hall, -⟩
      · by_contra hne
        exact hacc 0 (Nat.pos_of_ne_zero hne) h0
      · exact absurd href (hall i hi)
    subst hi0
    refine ⟨fun d j => ?_, htimer, fun h => absurd h (by decide)⟩
    rw [Bool.eq_false_iff]
    intro hj
    exact Nat.not_lt_zero j ((hheld d j).mp hj).1
  · refine ⟨fun d j => ?_, htimer, fun hr => ?_⟩
    · rw [Bool.eq_false_iff]
      intro hj
      exact ((hheld d j).mp hj).1
    · obtain ⟨heq, hwoken⟩ := hcount hr
      refine ⟨heq, fun h0 => ?_⟩
      have hready : s.ready env = 0 := by omega
      rcases hwoken with ⟨j, hj, hne⟩ | ⟨n, hn, hle⟩
      · exact absurd hne (Nat.count_iff_forall_not.mp hready j hj)
      · rcases hcond with ⟨hpos, h0⟩ | ⟨-, hnot⟩
        · exact absurd h0 (hacc 0 hpos)
        · exact (hnot n hn).mono hle

end

section

variable {env : Env} {s : Sys}

def fresh : Sys := ⟨.setup 0, fun _ => 0, fun _ => false, fun _ _ => false, 0, none, 0, 0⟩

theorem fresh_start : Start fresh := ⟨rfl, fun _ _ => rfl, rfl, rfl⟩

/-- No entry has events, and the semaphore was not posted. -/
structure Silent (env : Env) (n : Nat) (s : Sys) : Prop where
  run : Reachable (pollMachine env) Start s
  revents : ∀ i < n, s.revents i = 0

theorem reach_setup {i : Nat} (hi : i ≤ env.nfds) (hacc : Accepted env i) :
    ∃ s, Silent env i s ∧ s.pc = .setup i ∧ s.sem = 0 := by
  induction i with
  | zero => exact ⟨fresh, ⟨.init fresh_start, fun _ h => absurd h (Nat.not_lt_zero _)⟩, rfl, rfl⟩
  | succ i ih =>
    obtain ⟨s, hs, hpc, hsem⟩ :=
      ih (Nat.le_of_succ_le hi) fun j hj => hacc j (Nat.lt_succ_of_lt hj)
    have hret : ¬ env.result i (env.answer i) < 0 := hacc i (Nat.lt_succ_self i)
    have hstep : poll env 0 s = some (pollSetup env i s) := by
      unfold poll
      rw [hpc]
      exact if_pos hi
    refine ⟨pollSetup env i s, ⟨.step hs.run (i := .step 0) trivial trivial hstep, ?_⟩, ?_, ?_⟩
    · intro j hj
      unfold pollSetup
      dsimp only
      rw [if_neg hret]
      dsimp only
      rw [keep_revents]
      dsimp only
      by_cases hji : j = i
      · rw [hji, update_self]
      · rw [update_of_ne hji]
        exact hs.revents j (by omega)
    · unfold pollSetup
      dsimp only
      rw [if_neg hret]
    · unfold pollSetup
      dsimp only
      rw [if_neg hret]
      dsimp only
      rw [keep_sem]
      exact hsem

theorem reach_ticks {n k : Nat} (hs : Silent env n s) (hpc : s.pc = .wait) (hk : 0 < k)
    (htimer : s.timer = some k) :
    ∃ s', Silent env n s' ∧ s'.pc = .wait ∧ 0 < s'.sem ∧ s'.ticks = s.ticks + k := by
  induction k generalizing s with
  | zero => omega
  | succ k ih =>
    have hrun : s.pc.running = true := by rw [hpc]; rfl
    have hreach : Reachable (pollMachine env) Start (tick s) :=
      .step hs.run (i := .tick) hrun trivial rfl
    unfold tick at hreach
    dsimp only at hreach
    rw [htimer] at hreach
    dsimp only at hreach
    by_cases hk0 : k = 0
    · rw [if_pos (by omega)] at hreach
      exact ⟨_, ⟨hreach, hs.revents⟩, hpc, Nat.succ_pos _, by rw [hk0]⟩
    · rw [if_neg (by omega), Nat.add_sub_cancel] at hreach
      obtain ⟨s', hs', hpc', hsem', hticks'⟩ :=
        ih ⟨hreach, hs.revents⟩ hpc (Nat.pos_of_ne_zero hk0) rfl
      refine ⟨s', hs', hpc', hsem', ?_⟩
      rw [hticks']
      dsimp only
      omega

theorem reach_teardown {i : Nat} (hacc : Accepted env env.nfds) (hs : Silent env env.nfds s)
    (hpc : s.pc = .teardown 0 0 0) (hi : i ≤ env.nfds) :
    ∃ s', Silent env env.nfds s' ∧ s'.pc = .teardown i 0 0 ∧ s'.ticks = s.ticks := by
  induction i with
  | zero => exact ⟨s, hs, hpc, rfl⟩
  | succ i ih =>
    obtain ⟨s', hs', hpc', hticks'⟩ := ih (Nat.le_of_succ_le hi)
    have hstep : poll env 0 s' = some (pollTeardown env 0 i 0 0 s') := by
      unfold poll
      rw [hpc']
      exact if_pos hi
    have hstatus : ¬ env.result i 0 < 0 := by
      obtain ⟨d, hd⟩ := driver_of_not_refused (hacc i hi)
      unfold Env.result
      rw [hd]
      exact Int.lt_irrefl 0
    refine ⟨_, ⟨.step hs'.run (i := .step 0) trivial trivial hstep, ?_⟩, ?_, ?_⟩
    · intro j hj
      unfold pollTeardown
      dsimp only
      rw [keep_revents]
      exact hs'.revents j hj
    · unfold pollTeardown
      dsimp only
      rw [if_neg hstatus, if_neg (not_not_intro (hs'.revents i hi))]
    · unfold pollTeardown
      dsimp only
      rw [keep_ticks]
      exact hticks'

theorem reach_timeout {n : Nat} (hacc : Accepted env env.nfds) (hn : env.timer = some n) :
    ∃ s, Reachable (pollMachine env) Start s ∧ s.pc = .returned 0 ∧ s.ticks = n := by
  obtain ⟨s₁, hs₁, hpc₁, hsem₁⟩ := reach_setup (Nat.le_refl _) hacc
  have hstep₁ : poll env 0 s₁ = some { s₁ with pc := .start } := by
    unfold poll
    rw [hpc₁]
    exact if_neg (Nat.lt_irrefl _)
  have hreach₂ := Reach.step hs₁.run (M := pollMachine env) (i := .step 0) trivial trivial hstep₁
  have hreach₃ := Reach.step hreach₂ (M := pollMachine env) (i := .step 0) trivial trivial rfl
  obtain ⟨s₄, hs₄, hpc₄, hsem₄, hticks₄⟩ :=
    reach_ticks (n := env.nfds) ⟨hreach₃, hs₁.revents⟩ rfl (timer_pos hn) hn
  have hstep₄ : poll env 0 s₄ =
      some { s₄ with pc := .teardown 0 0 0, sem := s₄.sem - 1, timer := none } := by
    unfold poll
    rw [hpc₄]
    exact if_pos hsem₄
  have hreach₅ := Reach.step hs₄.run (M := pollMachine env) (i := .step 0) trivial trivial hstep₄
  obtain ⟨s₆, hs₆, hpc₆, hticks₆⟩ :=
    reach_teardown hacc ⟨hreach₅, hs₄.revents⟩ rfl (Nat.le_refl _)
  have hstep₆ : poll env 0 s₆ = some { s₆ with pc := .returned 0 } := by
    unfold poll
    rw [hpc₆]
    dsimp only
    rw [if_neg (Nat.lt_irrefl _), if_neg (by decide)]
    rfl
  refine ⟨_, .step hs₆.run (M := pollMachine env) (i := .step 0) trivial trivial hstep₆, rfl, ?_⟩
  dsimp only
  rw [hticks₆]
  dsimp only
  rw [hticks₄]
  exact Nat.zero_add n

theorem holds_of_right (hright : ∀ s r, Reachable (pollMachine env) Start s →
    s.pc = .returned r → Right env s r) : env.Holds := by
  by_cases hall : Accepted env env.nfds
  · refine .inr ⟨hall, fun n hn => ?_⟩
    obtain ⟨s, hs, hpc, hticks⟩ := reach_timeout hall hn
    have helapsed := ((hright s 0 hs hpc).count (Int.le_refl 0)).2 rfl
    rwa [hticks] at helapsed
  · -- the first entry that is refused
    have hex : ∃ i, i < env.nfds ∧ env.refused i := by
      by_contra hno
      exact hall fun i hi href => hno ⟨i, hi, href⟩
    classical
    obtain ⟨hi, href⟩ := Nat.find_spec hex
    have hacc : Accepted env (Nat.find hex) := by
      intro j hj hrefj
      exact Nat.find_min hex hj ⟨hj.trans hi, hrefj⟩
    obtain ⟨s, hs, hpc, -⟩ := reach_setup (Nat.le_of_lt hi) hacc
    have hinv := inv_reachable hs.run
    unfold Inv at hinv
    rw [hpc] at hinv
    obtain ⟨-, -, hheld, -⟩ := hinv
    have hstep : poll env 0 s = some (pollSetup env (Nat.find hex) s) := by
      unfold poll
      rw [hpc]
      exact if_pos hi
    have hfail : pollSetup env (Nat.find hex) s =
        { s with
          sems := update s.sems (Nat.find hex) true
          revents := update s.revents (Nat.find hex) 0
          pc := .returned (-1)
          errno := -env.result (Nat.find hex) (env.answer (Nat.find hex)) } := by
      unfold pollSetup
      exact if_pos href
    rw [hfail] at hstep
    have R := hright _ (-1) (.step hs.run (i := .step 0) trivial trivial hstep) rfl
    by_cases h0 : Nat.find hex = 0
    · rw [h0] at hi href
      exact .inl ⟨hi, href⟩
    · have hpos : 0 < Nat.find hex := Nat.pos_of_ne_zero h0
      obtain ⟨d, hd⟩ := driver_of_not_refused (hacc 0 hpos)
      have hkept := (hheld d 0).mpr ⟨hpos, hd⟩
      rw [show s.held d 0 = false from R.held d 0] at hkept
      cases hkept

end

/-- Every run of a call leaves nothing behind and counts right exactly when the first entry is
refused, or none is and the watchdog is not early. -/
theorem poll_right_iff (env : Env) : (∀ s r, Reachable (pollMachine env) Start s →
    s.pc = .returned r → Right env s r) ↔ env.Holds :=
  ⟨holds_of_right, fun hcond _ _ hs hpc => right_of_holds hcond hs hpc⟩

/-- A descriptor that can be polled, and one that is not open. -/
def leaky : Env := ⟨[0, 1], 0, 8, some fun fd => if fd = 0 then some 5 else none, fun _ => 0, true,
  10, 10000000⟩

/-- The driver of the first entry keeps it. -/
theorem poll_leaks : ¬ ∀ (env : Env) (s : Sys) (r : Int), Reachable (pollMachine env) Start s →
    s.pc = .returned r → Right env s r := by
  intro hall
  rcases holds_of_right (hall leaky) with ⟨-, h0⟩ | ⟨hnone, -⟩
  · exact absurd h0 (by unfold Env.refused; decide)
  · exact hnone 1 (by decide) (by unfold Env.refused; decide)

end NuttxAvr32.Poll
