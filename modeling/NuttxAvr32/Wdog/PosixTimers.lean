import Mathlib.Data.List.Count
import Mathlib.Data.List.Nodup
import Mathlib.Data.List.Perm.Basic
import NuttxAvr32.Lib.Runs
import NuttxAvr32.Wdog.Wdog

/-! # POSIX timers and their pools

Timers and watchdogs are named by their addresses. `id` counts the timers that were created,
and tells apart timers that lie at one address after another.
-/

namespace NuttxAvr32.Wdog.Posix

open Runs
open Function (update update_idem update_self update_of_ne update_eq_self)

structure PosixTimer where
  preallocated : Bool
  ptCrefs : Nat
  ptSigno : Nat
  ptOwner : Nat
  ptDelay : Int
  ptLast : Int
  ptWdog : Nat
  ptValue : Nat
  id : Nat

/-- A timer was deleted, or its callback queued a signal. -/
inductive Event
  | deleted (id : Nat)
  | ran (id owner signo value : Nat)

/-- `others` are the watchdogs that belong to somebody else, `armed` the timers for which
watchdogs were started, and `draining` whether `wd_timer` is in its loop. -/
structure Timers where
  wd : Wdogs
  gFreetimers : List Nat
  gAlloctimers : List Nat
  timer : Nat → PosixTimer
  others : List Nat
  draining : Bool
  armed : Nat → Nat
  nextId : Nat
  log : List Event

/-- `CONFIG_PREALLOC_TIMERS`, the configuration of the watchdogs and the address of
`timer_timeout`. -/
structure Config where
  preallocTimers : Nat
  wdogs : Wdog.Config
  timerTimeout : Nat
  parms : 0 < wdogs.maxWdogparms

def sigalrm : Nat := 2

namespace Timers

def setTimer (t : Nat) (p : PosixTimer) (s : Timers) : Timers :=
  { s with timer := update s.timer t p }

def note (e : Event) (s : Timers) : Timers := { s with log := e :: s.log }

end Timers

/-- `mem` is what `malloc` returns. -/
def timerAllocate (mem : Option Nat) (s : Timers) : Option (Nat × Bool × Timers) :=
  match s.gFreetimers with
  | t :: free =>
    some (t, true, { s with
      gFreetimers := free
      gAlloctimers := s.gAlloctimers ++ [t] })
  | [] => mem.map fun t => (t, false, { s with gAlloctimers := s.gAlloctimers ++ [t] })

/-- `ok` is `timerid && clockid == CLOCK_REALTIME`, `pid` the caller, and `evp` the signal and
the value. -/
def timerCreate (ok : Bool) (pid : Nat) (evp : Option (Nat × Nat)) (mem : Option Nat)
    (s : Timers) : Bool × Timers :=
  if ok = false then (false, s)
  else
    let c := wdCreate s.wd
    if c.2 = 0 then (false, { s with wd := c.1 })
    else
      match timerAllocate mem { s with wd := c.1 } with
      | none => (false, { s with wd := c.1 })
      | some (t, flag, s) =>
        let sv := evp.getD (sigalrm, t)
        (true, { s.setTimer t ⟨flag, 1, sv.1, pid, 0, 0, c.2, sv.2, s.nextId⟩ with
          nextId := s.nextId + 1 })

def timerFree (t : Nat) (s : Timers) : Timers :=
  { s with
    gAlloctimers := s.gAlloctimers.erase t
    gFreetimers :=
      if (s.timer t).preallocated then s.gFreetimers ++ [t] else s.gFreetimers
    log := .deleted (s.timer t).id :: s.log }

/-- The result is 1 as long as the timer is referenced. -/
def timerRelease (t : Nat) (s : Timers) : Option (Nat × Timers) :=
  if 1 < (s.timer t).ptCrefs then
    some (1, s.setTimer t { s.timer t with ptCrefs := (s.timer t).ptCrefs - 1 })
  else
    match wdDelete (s.timer t).ptWdog s.wd with
    | none => none
    | some (.error _) => some (0, timerFree t s)
    | some (.ok wd) => some (0, timerFree t { s with wd := wd })

def deleteLoop (pid : Nat) : List Nat → Timers → Option Timers
  | [], s => some s
  | t :: ts, s =>
    if (s.timer t).ptOwner = pid then
      match timerRelease t s with
      | none => none
      | some r => deleteLoop pid ts r.2
    else deleteLoop pid ts s

def timerDeleteall (pid : Nat) (s : Timers) : Option Timers := deleteLoop pid s.gAlloctimers s

def arm (cfg : Config) (t : Nat) (delay : Int) (s : Timers) : Option Timers :=
  match wdStart cfg.wdogs (s.timer t).ptWdog delay cfg.timerTimeout [t] s.wd with
  | none => none
  | some (.error _) => some s
  | some (.ok wd) => some { s with
      wd := wd
      armed := update s.armed (s.timer t).ptWdog (s.timer t).id }

/-- `zero` is whether `it_value` is, `interval` the ticks of an `it_interval` that is not, and
`value` the ticks of `it_value`. -/
def timerSettime (cfg : Config) (t : Nat) (zero : Bool) (interval : Option Int) (value : Int)
    (s : Timers) : Option Timers :=
  match wdCancel (s.timer t).ptWdog s.wd with
  | none => none
  | some (wd, _) =>
    let s := { s with wd := wd }
    if zero then some s
    else
      let s := s.setTimer t { s.timer t with ptDelay := interval.getD 0 }
      let delay := if value ≤ 0 then (s.timer t).ptDelay else value
      if 0 < delay then arm cfg t delay (s.setTimer t { s.timer t with ptLast := delay })
      else some s

def timerRestart (cfg : Config) (t : Nat) (s : Timers) : Option Timers :=
  if (s.timer t).ptDelay ≠ 0 then
    arm cfg t (s.timer t).ptDelay
      (s.setTimer t { s.timer t with ptLast := (s.timer t).ptDelay })
  else some s

/-- `timer_timeout`; the signal that `timer_sigqueue` queues is in the log. -/
def timerTimeout (cfg : Config) (t : Nat) (s : Timers) : Option Timers :=
  let s := s.setTimer t { s.timer t with ptCrefs := ((s.timer t).ptCrefs + 1) % 256 }
  let p := s.timer t
  match timerRelease t (s.note (.ran p.id p.ptOwner p.ptSigno p.ptValue)) with
  | none => none
  | some (ret, s) => if ret ≠ 0 then timerRestart cfg t s else some s

inductive Op
  | create (ok : Bool) (pid : Nat) (evp : Option (Nat × Nat)) (mem : Option Nat)
  | settime (t : Nat) (zero : Bool) (interval : Option Int) (value : Int)
  | delete (t : Nat)
  | exit (pid : Nat)
  | tick
  | expire
  | otherCreate
  | otherStart (w : Nat) (delay : Int) (wdentry : Nat) (parm : List Nat)
  | otherCancel (w : Nat)
  | otherDelete (w : Nat)

namespace Op

/-- The flag is false where `timer_create` fails. -/
def exec (cfg : Config) : Op → Timers → Option (Bool × Timers)
  | create ok pid evp mem, s => some (timerCreate ok pid evp mem s)
  | settime t zero interval value, s =>
    (timerSettime cfg t zero interval value s).map fun s => (true, s)
  | delete t, s => (timerRelease t s).map fun r => (true, r.2)
  | exit pid, s => (timerDeleteall pid s).map fun s => (true, s)
  | tick, s =>
    let r := wdTimer s.wd
    some (true, { s with
      wd := r.1
      draining := r.2 })
  | expire, s =>
    let r := wdExpire s.wd
    match r.2 with
    | none => some (true, { s with
        wd := r.1
        draining := false })
    | some w =>
      if s.wd.func w = cfg.timerTimeout then
        match s.wd.parm w with
        | t :: _ => (timerTimeout cfg t { s with wd := r.1 }).map fun s => (true, s)
        | [] => none
      else some (true, { s with wd := r.1 })
  | otherCreate, s =>
    let c := wdCreate s.wd
    some (true, { s with
      wd := c.1
      others := if c.2 = 0 then s.others else c.2 :: s.others })
  | otherStart w delay wdentry parm, s =>
    match wdStart cfg.wdogs w delay wdentry parm s.wd with
    | none => none
    | some (.error _) => some (true, s)
    | some (.ok wd) => some (true, { s with wd := wd })
  | otherCancel w, s => (wdCancel w s.wd).map fun r => (true, { s with wd := r.1 })
  | otherDelete w, s =>
    match wdDelete w s.wd with
    | none => none
    | some (.error _) => some (true, s)
    | some (.ok wd) => some (true, { s with
        wd := wd
        others := s.others.erase w })

/-- Timers that are used are live, watchdogs belong to who uses them, `malloc` returns no
block in use, and between the turns of the loop of `wd_timer` nobody else runs. -/
def valid (cfg : Config) (s : Timers) : Op → Prop
  | create _ _ _ mem => s.draining = false ∧
      ∀ t ∈ mem, t ∉ s.gAlloctimers ∧ t ∉ List.range' 1 cfg.preallocTimers
  | settime t _ _ _ => s.draining = false ∧ t ∈ s.gAlloctimers
  | delete t => s.draining = false ∧ t ∈ s.gAlloctimers
  | exit _ => s.draining = false
  | tick => s.draining = false
  | expire => s.draining = true
  | otherCreate => True
  | otherStart w _ wdentry _ => w ∈ s.others ∧ wdentry ≠ cfg.timerTimeout
  | otherCancel w => w ∈ s.others
  | otherDelete w => w ∈ s.others

/-- No `timer_create` that got a watchdog finds no memory for its timer. -/
def keeps (s : Timers) : Op → Prop
  | create ok _ _ mem =>
    ok = true → s.wd.gWdfreelist ≠ [] → s.gFreetimers = [] → mem ≠ none
  | _ => True

end Op

def timerMachine (cfg : Config) : Machine Timers Op where
  valid s i := i.valid cfg s
  exec s i := (i.exec cfg s).map Prod.snd

def started (cfg : Config) : Timers where
  wd := wdInitialize cfg.wdogs
  gFreetimers := List.range' 1 cfg.preallocTimers
  gAlloctimers := []
  timer _ := ⟨true, 0, 0, 0, 0, 0, 0, 0, 0⟩
  others := []
  draining := false
  armed _ := 0
  nextId := 0
  log := []

def NoneAfter : List Event → Prop
  | [] => True
  | .ran id _ _ _ :: log => .deleted id ∉ log ∧ NoneAfter log
  | .deleted _ :: log => NoneAfter log

structure Correct (cfg : Config) (s : Timers) : Prop where
  timers : ∀ t ∈ List.range' 1 cfg.preallocTimers,
    (s.gFreetimers ++ s.gAlloctimers).count t = 1
  wdogs : ∀ w ∈ List.range' 1 cfg.wdogs.preallocWdogs,
    (s.wd.gWdfreelist ++ (s.others ++ s.gAlloctimers.map fun t => (s.timer t).ptWdog)).count w = 1
  callbacks : NoneAfter s.log
  active : ∀ w ∈ s.wd.gWdactivelist, s.wd.func w = cfg.timerTimeout →
    ∃ t ∈ s.gAlloctimers, s.wd.parm w = [t] ∧ (s.timer t).ptWdog = w ∧ s.armed w = (s.timer t).id
  crefs : ∀ t ∈ s.gAlloctimers, (s.timer t).ptCrefs = 1

/-- What a call owes: it returns, and a `timer_create` that fails changes no pool. -/
def Honours (cfg : Config) (i : Op) (s : Timers) : Prop :=
  ∃ ok s', i.exec cfg s = some (ok, s') ∧ (ok = false →
    s'.gFreetimers = s.gFreetimers ∧ s'.gAlloctimers = s.gAlloctimers ∧
      s'.wd.gWdfreelist = s.wd.gWdfreelist)

structure Linked (s : Wdogs) : Prop where
  nodup : s.gWdactivelist.Nodup
  active : ∀ w, s.active w = true ↔ w ∈ s.gWdactivelist

variable {wd wd' : Wdogs} {w : Nat}

theorem wdCancel_spec (L : Linked wd) (hw : w ≠ 0) : ∃ b wd', wdCancel w wd = some (wd', b) ∧
    Linked wd' ∧ (∀ x, x ∈ wd'.gWdactivelist ↔ x ∈ wd.gWdactivelist ∧ x ≠ w) ∧
    wd'.gWdfreelist = wd.gWdfreelist ∧ wd'.func = wd.func ∧ wd'.parm = wd.parm := by
  unfold wdCancel
  by_cases ha : wd.active w = true
  · have hm := (L.active w).mp ha
    rw [if_pos ⟨hw, ha⟩, if_pos hm]
    have hmem : ∀ x, x ∈ (unlink w wd).gWdactivelist ↔ x ∈ wd.gWdactivelist ∧ x ≠ w := by
      intro x
      exact (L.nodup.mem_erase_iff).trans And.comm
    refine ⟨true, unlink w wd, rfl, ⟨L.nodup.erase w, ?_⟩, hmem, rfl, rfl, rfl⟩
    intro x
    rw [hmem, ← L.active]
    by_cases hx : x = w
    · subst hx
      simp [unlink]
    · simp [unlink, hx]
  · rw [if_neg fun h => ha h.2]
    refine ⟨false, wd, rfl, L, ?_, rfl, rfl, rfl⟩
    intro x
    constructor
    · intro hx
      refine ⟨hx, ?_⟩
      rintro rfl
      exact ha ((L.active x).mpr hx)
    · exact fun h => h.1

theorem wdDelete_spec (L : Linked wd) (hw : w ≠ 0) : ∃ wd', wdDelete w wd = some (.ok wd') ∧
    Linked wd' ∧ (∀ x, x ∈ wd'.gWdactivelist ↔ x ∈ wd.gWdactivelist ∧ x ≠ w) ∧
    wd'.gWdfreelist = wd.gWdfreelist ++ [w] ∧ wd'.func = wd.func ∧ wd'.parm = wd.parm := by
  unfold wdDelete
  rw [if_neg hw]
  by_cases ha : wd.active w = true
  · obtain ⟨b, wd1, h1, L1, hm, hf, hfn, hp⟩ := wdCancel_spec L hw
    rw [if_pos ha, h1]
    exact ⟨_, rfl, ⟨L1.nodup, L1.active⟩, hm, by rw [hf], hfn, hp⟩
  · rw [if_neg ha]
    refine ⟨_, rfl, ⟨L.nodup, L.active⟩, ?_, rfl, rfl, rfl⟩
    intro x
    constructor
    · intro hx
      refine ⟨hx, ?_⟩
      rintro rfl
      exact ha ((L.active x).mpr hx)
    · exact fun h => h.1

theorem toPositive_list (lag : Nat → Int) (before : List Nat) (curr : Nat) (now : Int)
    (rest : List Nat) : (toPositive lag before curr now rest).before ++
      (toPositive lag before curr now rest).curr ::
        (toPositive lag before curr now rest).after = before ++ curr :: rest := by
  induction rest generalizing before curr now with
  | nil => rfl
  | cons next rest ih =>
    unfold toPositive
    split
    · rw [ih]
      simp
    · rfl

theorem pastShorter_list (lag : Nat → Int) (delay : Int) (before : List Nat) (curr : Nat)
    (now : Int) (rest : List Nat) : (pastShorter lag delay before curr now rest).before ++
      (pastShorter lag delay before curr now rest).curr ::
        (pastShorter lag delay before curr now rest).after = before ++ curr :: rest := by
  induction rest generalizing before curr now with
  | nil => rfl
  | cons next rest ih =>
    unfold pastShorter
    split
    · rw [ih]
      simp
    · rfl

theorem place_perm (w : Nat) (delay : Int) (lag : Nat → Int) (c : Cursor) :
    (place w delay lag c).1.Perm (w :: (c.before ++ c.curr :: c.after)) := by
  unfold place
  split
  · exact List.perm_middle
  · dsimp only
    split
    · rename_i hnil
      rw [hnil]
      have h : c.before ++ [c.curr, w] = (c.before ++ [c.curr]) ++ [w] := by simp
      rw [h]
      exact List.perm_append_singleton _ _
    · rename_i next after hcons
      rw [hcons]
      have h1 : c.before ++ c.curr :: w :: next :: after =
          (c.before ++ [c.curr]) ++ w :: next :: after := by simp
      have h2 : c.before ++ c.curr :: next :: after =
          (c.before ++ [c.curr]) ++ next :: after := by simp
      rw [h1, h2]
      exact List.perm_middle

theorem search_perm (w : Nat) (delay : Int) (lag : Nat → Int) (l : List Nat) :
    (search w delay lag l).1.Perm (w :: l) := by
  cases l with
  | nil => exact List.Perm.refl _
  | cons head rest =>
    have h := place_perm w delay lag (pastShorter lag delay
      (toPositive lag [] head 0 rest).before (toPositive lag [] head 0 rest).curr
      (toPositive lag [] head 0 rest).now (toPositive lag [] head 0 rest).after)
    rw [pastShorter_list, toPositive_list] at h
    exact h

theorem link_spec (L : Linked wd) (hw : w ∉ wd.gWdactivelist) (delay : Int) (wdentry : Nat)
    (parm : List Nat) : Linked (link w delay wdentry parm wd) ∧
      ∀ x, x ∈ (link w delay wdentry parm wd).gWdactivelist ↔ x = w ∨ x ∈ wd.gWdactivelist := by
  have hp := search_perm w (startDelay delay) wd.lag wd.gWdactivelist
  have hmem : ∀ x, x ∈ (link w delay wdentry parm wd).gWdactivelist ↔
      x = w ∨ x ∈ wd.gWdactivelist := by
    intro x
    exact hp.mem_iff.trans List.mem_cons
  refine ⟨⟨hp.nodup_iff.mpr (List.nodup_cons.mpr ⟨hw, L.nodup⟩), ?_⟩, hmem⟩
  intro x
  rw [hmem, ← L.active]
  by_cases hx : x = w
  · subst hx
    simp [link]
  · simp [link, hx]

/-- `wd_start` of a watchdog that exists, with parameters that fit: it is started, or refused
for its delay. -/
theorem wdStart_spec (cfg : Wdog.Config) (L : Linked wd) (delay : Int) (wdentry : Nat)
    (parm : List Nat) :
    (∃ e, wdStart cfg w delay wdentry parm wd = some (.error e)) ∨
    ∃ wd', wdStart cfg w delay wdentry parm wd = some (.ok wd') ∧ Linked wd' ∧
      (∀ x, x ∈ wd'.gWdactivelist ↔ x = w ∨ x ∈ wd.gWdactivelist) ∧
      wd'.gWdfreelist = wd.gWdfreelist ∧ wd'.func = update wd.func w wdentry ∧
      wd'.parm = update wd.parm w parm := by
  unfold wdStart
  by_cases hbad : w = 0 ∨ cfg.maxWdogparms < parm.length ∨ delay < 0
  · rw [if_pos hbad]
    exact .inl ⟨_, rfl⟩
  · right
    have hw : w ≠ 0 := fun h => hbad (.inl h)
    rw [if_neg hbad]
    by_cases ha : wd.active w = true
    · obtain ⟨b, wd1, h1, L1, hm, hf, hfn, hp⟩ := wdCancel_spec L hw
      obtain ⟨L2, hm2⟩ := link_spec L1 (fun h => ((hm w).mp h).2 rfl) delay wdentry parm
      rw [if_pos ha, h1]
      refine ⟨_, rfl, L2, ?_, hf, by rw [← hfn]; rfl, by rw [← hp]; rfl⟩
      intro x
      rw [hm2, hm]
      by_cases hx : x = w
      · simp [hx]
      · simp [hx]
    · rw [if_neg ha]
      obtain ⟨L2, hm2⟩ := link_spec L (fun h => ha ((L.active w).mpr h)) delay wdentry parm
      exact ⟨_, rfl, L2, hm2, rfl, rfl, rfl⟩

theorem wdTimer_spec (L : Linked wd) : Linked (wdTimer wd).1 ∧
    (wdTimer wd).1.gWdactivelist = wd.gWdactivelist ∧
    (wdTimer wd).1.gWdfreelist = wd.gWdfreelist ∧ (wdTimer wd).1.func = wd.func ∧
    (wdTimer wd).1.parm = wd.parm := by
  unfold wdTimer
  split
  · exact ⟨L, rfl, rfl, rfl, rfl⟩
  · exact ⟨⟨L.nodup, L.active⟩, rfl, rfl, rfl, rfl⟩

theorem wdExpire_frame (wd : Wdogs) : (wdExpire wd).1.gWdfreelist = wd.gWdfreelist ∧
    (wdExpire wd).1.func = wd.func ∧ (wdExpire wd).1.parm = wd.parm := by
  unfold wdExpire
  split
  · exact ⟨rfl, rfl, rfl⟩
  · split <;> exact ⟨rfl, rfl, rfl⟩

theorem wdExpire_cases (L : Linked wd) : Linked (wdExpire wd).1 ∧
    (((wdExpire wd).2 = none ∧ (wdExpire wd).1.gWdactivelist = wd.gWdactivelist) ∨
    ∃ w, (wdExpire wd).2 = some w ∧ w ∈ wd.gWdactivelist ∧
      ∀ x, x ∈ (wdExpire wd).1.gWdactivelist ↔ x ∈ wd.gWdactivelist ∧ x ≠ w) := by
  unfold wdExpire
  split
  · exact ⟨L, .inl ⟨rfl, rfl⟩⟩
  · rename_i w rest hl
    split
    · have hn := L.nodup
      rw [hl, List.nodup_cons] at hn
      have hmem : ∀ x, x ∈ rest ↔ x ∈ wd.gWdactivelist ∧ x ≠ w := by
        intro x
        rw [hl, List.mem_cons]
        constructor
        · intro hx
          refine ⟨.inr hx, ?_⟩
          rintro rfl
          exact hn.1 hx
        · rintro ⟨h | h, hne⟩
          · exact absurd h hne
          · exact h
      refine ⟨⟨hn.2, ?_⟩, .inr ⟨w, rfl, ?_, hmem⟩⟩
      · intro x
        rw [hmem, ← L.active]
        by_cases hx : x = w
        · subst hx
          simp
        · simp [hx]
      · rw [hl]
        exact List.mem_cons_self
    · exact ⟨L, .inl ⟨rfl, rfl⟩⟩

/-- `dead`: a deleted timer is no longer live, and no new one gets its number. -/
structure Inv (cfg : Config) (s : Timers) : Prop where
  linked : Linked s.wd
  pool : (s.wd.gWdfreelist ++
    (s.others ++ s.gAlloctimers.map fun t => (s.timer t).ptWdog)).Perm
      (List.range' 1 cfg.wdogs.preallocWdogs)
  timers : (s.gFreetimers ++ s.gAlloctimers).Nodup
  whole : ∀ t ∈ List.range' 1 cfg.preallocTimers, t ∈ s.gFreetimers ++ s.gAlloctimers
  flags : ∀ t ∈ s.gAlloctimers,
    (s.timer t).preallocated = true ↔ t ∈ List.range' 1 cfg.preallocTimers
  free : ∀ t ∈ s.gFreetimers, t ∈ List.range' 1 cfg.preallocTimers
  crefs : ∀ t ∈ s.gAlloctimers, (s.timer t).ptCrefs = 1
  idle : ∀ w ∈ s.wd.gWdfreelist, w ∉ s.wd.gWdactivelist
  active : ∀ w ∈ s.wd.gWdactivelist, s.wd.func w = cfg.timerTimeout →
    ∃ t ∈ s.gAlloctimers, s.wd.parm w = [t] ∧ (s.timer t).ptWdog = w ∧ s.armed w = (s.timer t).id
  ids : ∀ t ∈ s.gAlloctimers, (s.timer t).id < s.nextId
  apart : ∀ t ∈ s.gAlloctimers, ∀ t' ∈ s.gAlloctimers, (s.timer t).id = (s.timer t').id → t = t'
  dead : ∀ id, Event.deleted id ∈ s.log → id < s.nextId ∧
    ∀ t ∈ s.gAlloctimers, (s.timer t).id ≠ id
  callbacks : NoneAfter s.log

variable {cfg : Config} {s s' : Timers} {t : Nat}

theorem started_inv (cfg : Config) : Inv cfg (started cfg) where
  linked := by
    constructor
    · exact List.nodup_nil
    · intro w
      simp [started, wdInitialize]
  pool := by
    simp only [started, wdInitialize, List.map_nil, List.append_nil]
    exact List.Perm.refl _
  timers := by
    simp only [started, List.append_nil]
    exact List.nodup_range'
  whole t ht := List.mem_append_left _ ht
  flags t ht := by cases ht
  free t ht := ht
  crefs t ht := by cases ht
  idle w _ hw := by cases hw
  active w hw := by cases hw
  ids t ht := by cases ht
  apart t ht := by cases ht
  dead id h := by cases h
  callbacks := trivial

theorem Inv.correct (I : Inv cfg s) : Correct cfg s where
  timers t ht := List.count_eq_one_of_mem I.timers (I.whole t ht)
  wdogs w hw := by
    rw [I.pool.count_eq]
    exact List.count_eq_one_of_mem List.nodup_range' hw
  callbacks := I.callbacks
  active := I.active
  crefs := I.crefs

theorem Inv.pool_nodup (I : Inv cfg s) : (s.wd.gWdfreelist ++
    (s.others ++ s.gAlloctimers.map fun t => (s.timer t).ptWdog)).Nodup :=
  I.pool.nodup_iff.mpr List.nodup_range'

theorem Inv.ne_zero (I : Inv cfg s) (h : w ∈ s.wd.gWdfreelist ++
    (s.others ++ s.gAlloctimers.map fun t => (s.timer t).ptWdog)) : w ≠ 0 := by
  have hr := I.pool.mem_iff.mp h
  have := (List.mem_range'_1.mp hr).1
  omega

theorem Inv.wdog_mem (s : Timers) (ht : t ∈ s.gAlloctimers) : (s.timer t).ptWdog ∈
    s.wd.gWdfreelist ++ (s.others ++ s.gAlloctimers.map fun t => (s.timer t).ptWdog) :=
  List.mem_append_right _ (List.mem_append_right _
    (List.mem_map_of_mem (f := fun t => (s.timer t).ptWdog) ht))

theorem Inv.not_other (I : Inv cfg s) (ht : t ∈ s.gAlloctimers) :
    (s.timer t).ptWdog ∉ s.wd.gWdfreelist ∧ (s.timer t).ptWdog ∉ s.others := by
  have hn := I.pool_nodup
  have hm := List.mem_map_of_mem (f := fun t => (s.timer t).ptWdog) ht
  rw [List.nodup_append, List.nodup_append] at hn
  obtain ⟨-, ⟨-, -, h2⟩, h1⟩ := hn
  constructor
  · intro hw
    exact h1 _ hw _ (List.mem_append_right _ hm) rfl
  · intro hw
    exact h2 _ hw _ hm rfl

theorem Inv.setWd (I : Inv cfg s) {armed : Nat → Nat} (L : Linked wd')
    (hf : wd'.gWdfreelist = s.wd.gWdfreelist)
    (hidle : ∀ w ∈ s.wd.gWdfreelist, w ∉ wd'.gWdactivelist)
    (hact : ∀ w ∈ wd'.gWdactivelist, wd'.func w = cfg.timerTimeout →
      ∃ t ∈ s.gAlloctimers, wd'.parm w = [t] ∧ (s.timer t).ptWdog = w ∧
        armed w = (s.timer t).id) : Inv cfg { s with wd := wd', armed := armed } where
  linked := L
  pool := by
    simp only [hf]
    exact I.pool
  timers := I.timers
  whole := I.whole
  flags := I.flags
  free := I.free
  crefs := I.crefs
  idle := by
    simp only [hf]
    exact hidle
  active := hact
  ids := I.ids
  apart := I.apart
  dead := I.dead
  callbacks := I.callbacks

theorem Inv.stopWd (I : Inv cfg s) (L : Linked wd') (hf : wd'.gWdfreelist = s.wd.gWdfreelist)
    (hm : ∀ w ∈ wd'.gWdactivelist, w ∈ s.wd.gWdactivelist) (hfn : wd'.func = s.wd.func)
    (hp : wd'.parm = s.wd.parm) : Inv cfg { s with wd := wd' } := by
  apply I.setWd L hf
  · intro w hw h
    exact I.idle w hw (hm w h)
  · intro w hw h
    rw [hfn] at h
    rw [hp]
    exact I.active w (hm w hw) h

theorem Inv.setTimer (I : Inv cfg s) {p : PosixTimer}
    (h1 : p.preallocated = (s.timer t).preallocated) (h2 : p.ptCrefs = (s.timer t).ptCrefs)
    (h3 : p.ptWdog = (s.timer t).ptWdog) (h4 : p.id = (s.timer t).id) :
    Inv cfg (s.setTimer t p) := by
  have hpre : ∀ x, ((s.setTimer t p).timer x).preallocated = (s.timer x).preallocated := by
    intro x
    by_cases hx : x = t
    · subst hx
      simp [Timers.setTimer, h1]
    · simp [Timers.setTimer, hx]
  have hcr : ∀ x, ((s.setTimer t p).timer x).ptCrefs = (s.timer x).ptCrefs := by
    intro x
    by_cases hx : x = t
    · subst hx
      simp [Timers.setTimer, h2]
    · simp [Timers.setTimer, hx]
  have hwd : ∀ x, ((s.setTimer t p).timer x).ptWdog = (s.timer x).ptWdog := by
    intro x
    by_cases hx : x = t
    · subst hx
      simp [Timers.setTimer, h3]
    · simp [Timers.setTimer, hx]
  have hid : ∀ x, ((s.setTimer t p).timer x).id = (s.timer x).id := by
    intro x
    by_cases hx : x = t
    · subst hx
      simp [Timers.setTimer, h4]
    · simp [Timers.setTimer, hx]
  constructor
  · exact I.linked
  · simp only [hwd]
    exact I.pool
  · exact I.timers
  · exact I.whole
  · simp only [hpre]
    exact I.flags
  · exact I.free
  · simp only [hcr]
    exact I.crefs
  · exact I.idle
  · simp only [hwd, hid]
    exact I.active
  · simp only [hid]
    exact I.ids
  · simp only [hid]
    exact I.apart
  · simp only [hid]
    exact I.dead
  · exact I.callbacks

theorem Inv.noteRan (I : Inv cfg s) (ht : t ∈ s.gAlloctimers) (owner signo value : Nat) :
    Inv cfg (s.note (.ran (s.timer t).id owner signo value)) where
  linked := I.linked
  pool := I.pool
  timers := I.timers
  whole := I.whole
  flags := I.flags
  free := I.free
  crefs := I.crefs
  idle := I.idle
  active := I.active
  ids := I.ids
  apart := I.apart
  dead id h := by
    rcases List.mem_cons.mp h with h | h
    · cases h
    · exact I.dead id h
  callbacks := ⟨fun h => (I.dead _ h).2 t ht rfl, I.callbacks⟩

theorem mem_freed (I : Inv cfg s) (ht : t ∈ s.gAlloctimers) (wd' : Wdogs) (x : Nat) :
    x ∈ (timerFree t { s with wd := wd' }).gFreetimers ↔
      x ∈ s.gFreetimers ∨ (x = t ∧ t ∈ List.range' 1 cfg.preallocTimers) := by
  have hflag := I.flags t ht
  by_cases hp : (s.timer t).preallocated = true
  · simp only [timerFree, if_pos hp, List.mem_append, List.mem_singleton, hflag.mp hp, and_true]
  · have hr : t ∉ List.range' 1 cfg.preallocTimers := fun h => hp (hflag.mpr h)
    simp only [timerFree, if_neg hp, hr, and_false, or_false]

theorem nodup_freed (I : Inv cfg s) (ht : t ∈ s.gAlloctimers) (wd' : Wdogs) :
    ((timerFree t { s with wd := wd' }).gFreetimers ++ s.gAlloctimers.erase t).Nodup := by
  have hnodup := I.timers
  rw [List.nodup_append] at hnodup
  obtain ⟨hnfree, hnalloc, hdisj⟩ := hnodup
  rw [List.nodup_append]
  refine ⟨?_, hnalloc.erase t, ?_⟩
  · have hnot : t ∉ s.gFreetimers := fun h => hdisj t h t ht rfl
    by_cases hp : (s.timer t).preallocated = true
    · simp only [timerFree, if_pos hp]
      rw [List.nodup_append]
      refine ⟨hnfree, List.nodup_singleton t, ?_⟩
      rintro a ha b hb rfl
      rw [List.mem_singleton.mp hb] at ha
      exact hnot ha
    · simp only [timerFree, if_neg hp]
      exact hnfree
  · intro a ha b hb
    obtain ⟨hne, hb⟩ := hnalloc.mem_erase_iff.mp hb
    rcases (mem_freed I ht wd' a).mp ha with h | ⟨rfl, -⟩
    · exact hdisj a h b hb
    · exact Ne.symm hne

theorem pool_freed (I : Inv cfg s) (ht : t ∈ s.gAlloctimers) {free : List Nat}
    (hf : free = s.wd.gWdfreelist ++ [(s.timer t).ptWdog]) :
    (free ++ (s.others ++ (s.gAlloctimers.erase t).map fun t => (s.timer t).ptWdog)).Perm
      (List.range' 1 cfg.wdogs.preallocWdogs) := by
  refine List.Perm.trans ?_ I.pool
  rw [hf, List.append_assoc]
  apply List.Perm.append_left
  rw [List.singleton_append]
  have hp : (s.gAlloctimers.map fun t => (s.timer t).ptWdog).Perm
      ((s.timer t).ptWdog :: (s.gAlloctimers.erase t).map fun t => (s.timer t).ptWdog) :=
    (List.perm_cons_erase ht).map _
  exact (List.perm_middle.symm.trans (List.Perm.append_left s.others hp.symm))

theorem Inv.release (I : Inv cfg s) (ht : t ∈ s.gAlloctimers) :
    ∃ s', timerRelease t s = some (0, s') ∧ Inv cfg s' ∧
      s'.gAlloctimers = s.gAlloctimers.erase t ∧ s'.draining = s.draining := by
  have hw0 : (s.timer t).ptWdog ≠ 0 := I.ne_zero (Inv.wdog_mem s ht)
  obtain ⟨wd', hdel, L, hm, hf, hfn, hp⟩ := wdDelete_spec I.linked hw0
  have hcr : ¬ 1 < (s.timer t).ptCrefs := by
    rw [I.crefs t ht]
    omega
  have hnalloc : s.gAlloctimers.Nodup := (List.nodup_append.mp I.timers).2.1
  have hmem : ∀ x, x ∈ s.gAlloctimers.erase t ↔ x ≠ t ∧ x ∈ s.gAlloctimers := fun x =>
    hnalloc.mem_erase_iff
  refine ⟨timerFree t { s with wd := wd' }, ?_, ?_, rfl, rfl⟩
  · simp only [timerRelease, if_neg hcr, hdel]
  · constructor
    · exact L
    · exact pool_freed I ht hf
    · exact nodup_freed I ht wd'
    · intro x hx
      rcases List.mem_append.mp (I.whole x hx) with h | h
      · exact List.mem_append_left _ ((mem_freed I ht wd' x).mpr (.inl h))
      · by_cases hxt : x = t
        · exact List.mem_append_left _ ((mem_freed I ht wd' x).mpr (.inr ⟨hxt, hxt ▸ hx⟩))
        · exact List.mem_append_right _ ((hmem x).mpr ⟨hxt, h⟩)
    · intro x hx
      exact I.flags x ((hmem x).mp hx).2
    · intro x hx
      rcases (mem_freed I ht wd' x).mp hx with h | ⟨rfl, h⟩
      · exact I.free x h
      · exact h
    · intro x hx
      exact I.crefs x ((hmem x).mp hx).2
    · intro w hw hact
      simp only [timerFree, hf, List.mem_append, List.mem_singleton] at hw
      obtain ⟨ha, hne⟩ := (hm w).mp hact
      rcases hw with h | h
      · exact I.idle w h ha
      · exact hne h
    · intro w hw hfunc
      obtain ⟨ha, hne⟩ := (hm w).mp hw
      have hfunc' : s.wd.func w = cfg.timerTimeout := by
        rw [← hfn]
        exact hfunc
      obtain ⟨x, hx, hparm, hwx, harm⟩ := I.active w ha hfunc'
      refine ⟨x, (hmem x).mpr ⟨?_, hx⟩, ?_, hwx, harm⟩
      · rintro rfl
        exact hne hwx.symm
      · simp only [timerFree, hp]
        exact hparm
    · intro x hx
      exact I.ids x ((hmem x).mp hx).2
    · intro x hx y hy
      exact I.apart x ((hmem x).mp hx).2 y ((hmem y).mp hy).2
    · intro id h
      rcases List.mem_cons.mp h with h | h
      · cases h
        refine ⟨I.ids t ht, ?_⟩
        intro x hx hid
        obtain ⟨hne, hx⟩ := (hmem x).mp hx
        exact hne (I.apart x hx t ht hid)
      · obtain ⟨h1, h2⟩ := I.dead id h
        exact ⟨h1, fun x hx => h2 x ((hmem x).mp hx).2⟩
    · exact I.callbacks

theorem Inv.deleteLoop (I : Inv cfg s) (pid : Nat) {ts : List Nat} (hn : ts.Nodup)
    (hts : ∀ t ∈ ts, t ∈ s.gAlloctimers) :
    ∃ s', deleteLoop pid ts s = some s' ∧ Inv cfg s' := by
  induction ts generalizing s with
  | nil => exact ⟨s, rfl, I⟩
  | cons t ts ih =>
    obtain ⟨hnt, hn⟩ := List.nodup_cons.mp hn
    unfold Posix.deleteLoop
    split
    · obtain ⟨s1, h1, I1, ha, -⟩ := I.release (hts t List.mem_cons_self)
      rw [h1]
      apply ih I1 hn
      intro x hx
      rw [ha]
      apply (List.mem_erase_of_ne ?_).mpr (hts x (List.mem_cons_of_mem t hx))
      rintro rfl
      exact hnt hx
    · exact ih I hn fun x hx => hts x (List.mem_cons_of_mem t hx)

theorem Inv.arm (I : Inv cfg s) (ht : t ∈ s.gAlloctimers) (delay : Int) :
    ∃ s', arm cfg t delay s = some s' ∧ Inv cfg s' := by
  obtain ⟨hnf, -⟩ := I.not_other ht
  unfold Posix.arm
  rcases wdStart_spec cfg.wdogs (w := (s.timer t).ptWdog) I.linked delay
      cfg.timerTimeout [t] with ⟨e, he⟩ | ⟨wd', hok, L, hm, hf, hfn, hp⟩
  · rw [he]
    exact ⟨s, rfl, I⟩
  · rw [hok]
    refine ⟨_, rfl, I.setWd L hf ?_ ?_⟩
    · intro w hw h
      rcases (hm w).mp h with rfl | h
      · exact hnf hw
      · exact I.idle w hw h
    · intro w hw hfunc
      by_cases hwt : w = (s.timer t).ptWdog
      · subst hwt
        refine ⟨t, ht, ?_, rfl, ?_⟩
        · rw [hp, update_self]
        · rw [update_self]
      · rw [hfn, update_of_ne hwt] at hfunc
        rw [hp, update_of_ne hwt, update_of_ne hwt]
        exact I.active w (((hm w).mp hw).resolve_left hwt) hfunc

theorem Inv.settime (I : Inv cfg s) (ht : t ∈ s.gAlloctimers) (zero : Bool)
    (interval : Option Int) (value : Int) :
    ∃ s', timerSettime cfg t zero interval value s = some s' ∧ Inv cfg s' := by
  have hw0 : (s.timer t).ptWdog ≠ 0 := I.ne_zero (Inv.wdog_mem s ht)
  obtain ⟨b, wd', hc, L, hm, hf, hfn, hp⟩ := wdCancel_spec I.linked hw0
  have I1 : Inv cfg { s with wd := wd' } := I.stopWd L hf (fun w hw => ((hm w).mp hw).1) hfn hp
  simp only [timerSettime, hc]
  split
  · exact ⟨_, rfl, I1⟩
  · have I2 := I1.setTimer (t := t) (p := { s.timer t with ptDelay := interval.getD 0 })
      rfl rfl rfl rfl
    generalize (if value ≤ 0 then _ else value) = delay
    split
    · apply Inv.arm
      · exact I2.setTimer rfl rfl rfl rfl
      · exact ht
    · exact ⟨_, rfl, I2⟩

theorem Inv.restart (I : Inv cfg s) (ht : t ∈ s.gAlloctimers) :
    ∃ s', timerRestart cfg t s = some s' ∧ Inv cfg s' := by
  unfold timerRestart
  split
  · apply Inv.arm
    · exact I.setTimer rfl rfl rfl rfl
    · exact ht
  · exact ⟨s, rfl, I⟩

theorem Inv.timerTimeout_eq (I : Inv cfg s) (ht : t ∈ s.gAlloctimers) :
    ∃ e, timerTimeout cfg t s = timerRestart cfg t (s.note e) ∧ Inv cfg (s.note e) := by
  have hcr := I.crefs t ht
  have hone : 1 < (1 + 1) % 256 := by decide
  have hback : ({ s.timer t with ptCrefs := (1 + 1) % 256 - 1 } : PosixTimer) = s.timer t := by
    have h2 : (1 + 1) % 256 - 1 = (s.timer t).ptCrefs := hcr.symm
    rw [h2]
  refine ⟨_, ?_, I.noteRan ht (s.timer t).ptOwner (s.timer t).ptSigno (s.timer t).ptValue⟩
  simp only [timerTimeout, timerRelease, Timers.setTimer, Timers.note, update_self, hcr,
    if_pos hone, update_idem, hback, update_eq_self]
  rw [if_pos (by decide)]

theorem Inv.timeout (I : Inv cfg s) (ht : t ∈ s.gAlloctimers) :
    ∃ s', timerTimeout cfg t s = some s' ∧ Inv cfg s' := by
  obtain ⟨e, he, I'⟩ := I.timerTimeout_eq ht
  rw [he]
  exact I'.restart ht

theorem Inv.add (I : Inv cfg s) {free : List Nat} {w : Nat} {flag : Bool}
    (hw : s.wd.gWdfreelist = w :: free) {fr : List Nat} (hnot : t ∉ s.gAlloctimers)
    (htimers : (fr ++ (s.gAlloctimers ++ [t])).Nodup)
    (hwhole : ∀ x ∈ s.gFreetimers, x ∈ fr ∨ x = t) (hfr : ∀ x ∈ fr, x ∈ s.gFreetimers)
    (hflag : flag = true ↔ t ∈ List.range' 1 cfg.preallocTimers) (owner signo value : Nat) :
    Inv cfg { s with
      wd := { s.wd with
        gWdfreelist := free
        active := update s.wd.active w false }
      gFreetimers := fr
      gAlloctimers := s.gAlloctimers ++ [t]
      timer := update s.timer t ⟨flag, 1, signo, owner, 0, 0, w, value, s.nextId⟩
      nextId := s.nextId + 1 } := by
  have hold : ∀ x ∈ s.gAlloctimers, update s.timer t
      ⟨flag, 1, signo, owner, 0, 0, w, value, s.nextId⟩ x = s.timer x := by
    intro x hx
    apply update_of_ne
    rintro rfl
    exact hnot hx
  have hidle : w ∉ s.wd.gWdactivelist := I.idle w (by rw [hw]; exact List.mem_cons_self)
  have hmem : ∀ x, x ∈ s.gAlloctimers ++ [t] ↔ x ∈ s.gAlloctimers ∨ x = t := by
    intro x
    rw [List.mem_append, List.mem_singleton]
  constructor
  · refine ⟨I.linked.nodup, ?_⟩
    intro x
    by_cases hx : x = w
    · subst hx
      simpa using hidle
    · simp only [update_of_ne hx]
      exact I.linked.active x
  · have hmap : (s.gAlloctimers ++ [t]).map (fun x => (update s.timer t
        ⟨flag, 1, signo, owner, 0, 0, w, value, s.nextId⟩ x).ptWdog) =
        (s.gAlloctimers.map fun x => (s.timer x).ptWdog) ++ [w] := by
      rw [List.map_append, List.map_singleton, update_self]
      congr 1
      apply List.map_congr_left
      intro x hx
      rw [hold x hx]
    have hpool := I.pool
    rw [hw, List.cons_append] at hpool
    simp only [hmap]
    refine List.Perm.trans ?_ hpool
    have hassoc : free ++ (s.others ++ ((s.gAlloctimers.map fun x => (s.timer x).ptWdog) ++
        [w])) = (free ++ (s.others ++ s.gAlloctimers.map fun x => (s.timer x).ptWdog)) ++
          [w] := by
      simp only [List.append_assoc]
    rw [hassoc]
    exact List.perm_append_singleton _ _
  · exact htimers
  · intro x hx
    rcases List.mem_append.mp (I.whole x hx) with h | h
    · rcases hwhole x h with h | h
      · exact List.mem_append_left _ h
      · exact List.mem_append_right _ ((hmem x).mpr (.inr h))
    · exact List.mem_append_right _ ((hmem x).mpr (.inl h))
  · intro x hx
    rcases (hmem x).mp hx with h | rfl
    · simp only [hold x h]
      exact I.flags x h
    · simp only [update_self]
      exact hflag
  · exact fun x hx => I.free x (hfr x hx)
  · intro x hx
    rcases (hmem x).mp hx with h | rfl
    · simp only [hold x h]
      exact I.crefs x h
    · simp only [update_self]
  · intro x hx
    exact I.idle x (by rw [hw]; exact List.mem_cons_of_mem w hx)
  · intro x hx hfunc
    obtain ⟨y, hy, h1, h2, h3⟩ := I.active x hx hfunc
    refine ⟨y, (hmem y).mpr (.inl hy), h1, ?_, ?_⟩
    · simp only [hold y hy]
      exact h2
    · simp only [hold y hy]
      exact h3
  · intro x hx
    rcases (hmem x).mp hx with h | rfl
    · simp only [hold x h]
      exact Nat.lt_succ_of_lt (I.ids x h)
    · simp only [update_self]
      exact Nat.lt_succ_self _
  · intro x hx y hy hid
    simp only at hid
    rcases (hmem x).mp hx with h | rfl
    · rcases (hmem y).mp hy with h' | rfl
      · rw [hold x h, hold y h'] at hid
        exact I.apart x h y h' hid
      · rw [hold x h, update_self] at hid
        exact absurd hid (Nat.ne_of_lt (I.ids x h))
    · rcases (hmem y).mp hy with h' | rfl
      · rw [hold y h', update_self] at hid
        exact absurd hid.symm (Nat.ne_of_lt (I.ids y h'))
      · rfl
  · intro id h
    obtain ⟨h1, h2⟩ := I.dead id h
    refine ⟨Nat.lt_succ_of_lt h1, ?_⟩
    intro x hx
    rcases (hmem x).mp hx with h | rfl
    · simp only [hold x h]
      exact h2 x h
    · simp only [update_self]
      exact (Nat.ne_of_lt h1).symm
  · exact I.callbacks

theorem wdCreate_nil (h : wd.gWdfreelist = []) : wdCreate wd = (wd, 0) := by
  unfold wdCreate
  split
  · rfl
  · rename_i hc
    rw [h] at hc
    cases hc

theorem wdCreate_cons {free : List Nat} (h : wd.gWdfreelist = w :: free) :
    wdCreate wd = ({ wd with
      gWdfreelist := free
      active := update wd.active w false }, w) := by
  unfold wdCreate
  split
  · rename_i hc
    rw [h] at hc
    cases hc
  · rename_i x f hc
    rw [h] at hc
    cases hc
    rfl

theorem Inv.create {ok : Bool} {pid : Nat} {evp : Option (Nat × Nat)} {mem : Option Nat}
    (I : Inv cfg s) (hv : (Op.create ok pid evp mem).valid cfg s)
    (hk : (Op.create ok pid evp mem).keeps s) :
    (timerCreate ok pid evp mem s = (false, s)) ∨
      ∃ s', timerCreate ok pid evp mem s = (true, s') ∧ Inv cfg s' := by
  unfold timerCreate
  cases ok with
  | false => exact .inl rfl
  | true =>
    simp only [Bool.true_eq_false, if_false]
    cases hwf : s.wd.gWdfreelist with
    | nil =>
      left
      rw [wdCreate_nil hwf]
      rfl
    | cons w free =>
      have hw0 : w ≠ 0 := I.ne_zero (by
        rw [hwf]
        exact List.mem_append_left _ List.mem_cons_self)
      rw [wdCreate_cons hwf]
      simp only [if_neg hw0, timerAllocate]
      right
      cases hft : s.gFreetimers with
      | cons t fr =>
        have ht := I.timers
        rw [hft] at ht
        have hnot : t ∉ s.gAlloctimers := fun h =>
          (List.nodup_append.mp ht).2.2 t List.mem_cons_self t h rfl
        refine ⟨_, rfl, ?_⟩
        apply I.add hwf hnot
        · rw [← List.append_assoc]
          exact (List.perm_append_singleton _ _).nodup_iff.mpr ht
        · intro x hx
          rw [hft] at hx
          exact (List.mem_cons.mp hx).symm
        · intro x hx
          rw [hft]
          exact List.mem_cons_of_mem t hx
        · exact ⟨fun _ => I.free t (by rw [hft]; exact List.mem_cons_self), fun _ => rfl⟩
      | nil =>
        obtain ⟨t, rfl⟩ := Option.ne_none_iff_exists'.mp
          (hk rfl (by rw [hwf]; exact List.cons_ne_nil _ _) hft)
        obtain ⟨hna, hnp⟩ := hv.2 t rfl
        have ht := I.timers
        rw [hft, List.nil_append] at ht
        refine ⟨_, rfl, ?_⟩
        apply I.add hwf hna
        · have hnodup : (s.gAlloctimers ++ [t]).Nodup :=
            (List.perm_append_singleton t _).nodup_iff.mpr (List.nodup_cons.mpr ⟨hna, ht⟩)
          exact hnodup
        · intro x hx
          rw [hft] at hx
          cases hx
        · intro x hx
          cases hx
        · exact ⟨(absurd · Bool.false_ne_true), (absurd · hnp)⟩

theorem Inv.otherCreate (I : Inv cfg s) {free : List Nat}
    (hw : s.wd.gWdfreelist = w :: free) : Inv cfg { s with
      wd := { s.wd with
        gWdfreelist := free
        active := update s.wd.active w false }
      others := w :: s.others } where
  linked := by
    have hidle : w ∉ s.wd.gWdactivelist := I.idle w (by rw [hw]; exact List.mem_cons_self)
    refine ⟨I.linked.nodup, ?_⟩
    intro x
    by_cases hx : x = w
    · subst hx
      simpa using hidle
    · simp only [update_of_ne hx]
      exact I.linked.active x
  pool := by
    have hpool := I.pool
    rw [hw, List.cons_append] at hpool
    refine List.Perm.trans ?_ hpool
    exact List.perm_middle
  timers := I.timers
  whole := I.whole
  flags := I.flags
  free := I.free
  crefs := I.crefs
  idle x hx := I.idle x (by rw [hw]; exact List.mem_cons_of_mem w hx)
  active := I.active
  ids := I.ids
  apart := I.apart
  dead := I.dead
  callbacks := I.callbacks

theorem Inv.otherDelete (I : Inv cfg s) (hw : w ∈ s.others) (L : Linked wd')
    (hm : ∀ x, x ∈ wd'.gWdactivelist ↔ x ∈ s.wd.gWdactivelist ∧ x ≠ w)
    (hf : wd'.gWdfreelist = s.wd.gWdfreelist ++ [w]) (hfn : wd'.func = s.wd.func)
    (hp : wd'.parm = s.wd.parm) : Inv cfg { s with
      wd := wd'
      others := s.others.erase w } where
  linked := L
  pool := by
    refine List.Perm.trans ?_ I.pool
    simp only [hf, List.append_assoc, List.singleton_append]
    apply List.Perm.append_left
    rw [← List.cons_append]
    exact (List.perm_cons_erase hw).symm.append_right _
  timers := I.timers
  whole := I.whole
  flags := I.flags
  free := I.free
  crefs := I.crefs
  idle x hx := by
    simp only [hf, List.mem_append, List.mem_singleton] at hx
    intro h
    obtain ⟨ha, hne⟩ := (hm x).mp h
    rcases hx with hx | hx
    · exact I.idle x hx ha
    · exact hne hx
  active x hx hfunc := by
    rw [hfn] at hfunc
    simp only [hp]
    exact I.active x ((hm x).mp hx).1 hfunc
  ids := I.ids
  apart := I.apart
  dead := I.dead
  callbacks := I.callbacks

theorem Inv.setDraining (I : Inv cfg s) (b : Bool) : Inv cfg { s with draining := b } where
  linked := I.linked
  pool := I.pool
  timers := I.timers
  whole := I.whole
  flags := I.flags
  free := I.free
  crefs := I.crefs
  idle := I.idle
  active := I.active
  ids := I.ids
  apart := I.apart
  dead := I.dead
  callbacks := I.callbacks

theorem Inv.expire (I : Inv cfg s) :
    ∃ s', Op.expire.exec cfg s = some (true, s') ∧ Inv cfg s' := by
  obtain ⟨L, hcases⟩ := wdExpire_cases I.linked
  obtain ⟨hf, hfn, hp⟩ := wdExpire_frame s.wd
  simp only [Op.exec]
  rcases hcases with ⟨hnone, hl⟩ | ⟨w, hsome, hw, hm⟩
  · rw [hnone]
    refine ⟨_, rfl, ?_⟩
    exact (I.stopWd L hf (fun x hx => hl ▸ hx) hfn hp).setDraining false
  · have I1 : Inv cfg { s with wd := (wdExpire s.wd).1 } :=
      I.stopWd L hf (fun x hx => ((hm x).mp hx).1) hfn hp
    rw [hsome]
    simp only
    split
    · rename_i hfunc
      obtain ⟨t, ht, hparm, -, -⟩ := I.active w hw hfunc
      obtain ⟨s', hs', I'⟩ := I1.timeout ht
      rw [hparm]
      simp only [hs', Option.map_some]
      exact ⟨s', rfl, I'⟩
    · exact ⟨_, rfl, I1⟩

theorem Inv.mem_other (I : Inv cfg s) (hw : w ∈ s.others) : w ≠ 0 ∧ w ∉ s.wd.gWdfreelist := by
  constructor
  · exact I.ne_zero (List.mem_append_right _ (List.mem_append_left _ hw))
  · intro h
    exact (List.nodup_append.mp I.pool_nodup).2.2 w h w (List.mem_append_left _ hw) rfl

theorem Inv.step {i : Op} (I : Inv cfg s) (hv : i.valid cfg s) (hk : i.keeps s) :
    ∃ ok s', i.exec cfg s = some (ok, s') ∧ Inv cfg s' ∧ (ok = false → s' = s) := by
  cases i with
  | create ok pid evp mem =>
    rcases I.create hv hk with h | ⟨s', h, I'⟩
    · exact ⟨false, s, by rw [Op.exec, h], I, fun _ => rfl⟩
    · exact ⟨true, s', by rw [Op.exec, h], I', fun h => by cases h⟩
  | settime t zero interval value =>
    obtain ⟨s', h, I'⟩ := I.settime hv.2 zero interval value
    exact ⟨true, s', by rw [Op.exec, h]; rfl, I', fun h => by cases h⟩
  | delete t =>
    obtain ⟨s', h, I', -⟩ := I.release hv.2
    exact ⟨true, s', by rw [Op.exec, h]; rfl, I', fun h => by cases h⟩
  | exit pid =>
    obtain ⟨s', h, I'⟩ := I.deleteLoop pid (List.nodup_append.mp I.timers).2.1 fun t ht => ht
    exact ⟨true, s', by rw [Op.exec, timerDeleteall, h]; rfl, I', fun h => by cases h⟩
  | tick =>
    obtain ⟨L, hl, hf, hfn, hp⟩ := wdTimer_spec I.linked
    refine ⟨true, _, rfl, ?_, fun h => by cases h⟩
    exact (I.stopWd L hf (fun x hx => hl ▸ hx) hfn hp).setDraining _
  | expire =>
    obtain ⟨s', h, I'⟩ := I.expire
    exact ⟨true, s', h, I', fun h => by cases h⟩
  | otherCreate =>
    simp only [Op.exec]
    cases hwf : s.wd.gWdfreelist with
    | nil =>
      rw [wdCreate_nil hwf]
      exact ⟨true, s, rfl, I, fun h => by cases h⟩
    | cons w free =>
      have hw0 : w ≠ 0 := I.ne_zero (by
        rw [hwf]
        exact List.mem_append_left _ List.mem_cons_self)
      rw [wdCreate_cons hwf]
      simp only [if_neg hw0]
      exact ⟨true, _, rfl, I.otherCreate hwf, fun h => by cases h⟩
  | otherStart w delay wdentry parm =>
    obtain ⟨hw, hentry⟩ := hv
    simp only [Op.exec]
    rcases wdStart_spec cfg.wdogs (w := w) I.linked delay wdentry parm with
      ⟨e, he⟩ | ⟨wd', hok, L, hm, hf, hfn, hp⟩
    · rw [he]
      exact ⟨true, s, rfl, I, fun h => by cases h⟩
    · rw [hok]
      refine ⟨true, _, rfl, I.setWd L hf ?_ ?_, fun h => by cases h⟩
      · intro x hx h
        rcases (hm x).mp h with rfl | h
        · exact (I.mem_other hw).2 hx
        · exact I.idle x hx h
      · intro x hx hfunc
        by_cases hxw : x = w
        · subst hxw
          rw [hfn, update_self] at hfunc
          exact absurd hfunc hentry
        · rw [hfn, update_of_ne hxw] at hfunc
          rw [hp, update_of_ne hxw]
          exact I.active x (((hm x).mp hx).resolve_left hxw) hfunc
  | otherCancel w =>
    obtain ⟨b, wd', hc, L, hm, hf, hfn, hp⟩ := wdCancel_spec I.linked (I.mem_other hv).1
    simp only [Op.exec, hc, Option.map_some]
    exact ⟨true, _, rfl, I.stopWd L hf (fun x hx => ((hm x).mp hx).1) hfn hp,
      fun h => by cases h⟩
  | otherDelete w =>
    obtain ⟨wd', hd, L, hm, hf, hfn, hp⟩ := wdDelete_spec I.linked (I.mem_other hv).1
    simp only [Op.exec, hd]
    exact ⟨true, _, rfl, I.otherDelete hv L hm hf hfn hp, fun h => by cases h⟩

/-- In every run in which no `timer_create` fails after it has taken its watchdog, the pools
are whole in every state, and every call that is made then does what it owes. -/
theorem timer_pools {s : Timers}
    (h : Reach (timerMachine cfg) (· = started cfg) (fun s i => i.keeps s) s) :
    Correct cfg s ∧ ∀ i : Op, i.valid cfg s → i.keeps s → Honours cfg i s := by
  have I : Inv cfg s := by
    apply h.invariant
    · rintro s rfl
      exact started_inv cfg
    · intro s i s' I hv hk he
      obtain ⟨ok, t, ht, J, -⟩ := I.step hv hk
      simp only [timerMachine, ht, Option.map_some, Option.some.injEq] at he
      exact he ▸ J
  refine ⟨I.correct, ?_⟩
  intro i hv hk
  obtain ⟨ok, t, ht, -, hsame⟩ := I.step hv hk
  refine ⟨ok, t, ht, ?_⟩
  intro hfail
  rw [hsame hfail]
  exact ⟨rfl, rfl, rfl⟩

instance decidablePosixValid (cfg : Config) (s : Timers) (i : Op) : Decidable (i.valid cfg s) :=
  match i with
  | .create _ _ _ mem => inferInstanceAs (Decidable (s.draining = false ∧
      ∀ t ∈ mem, t ∉ s.gAlloctimers ∧ t ∉ List.range' 1 cfg.preallocTimers))
  | .settime t _ _ _ => inferInstanceAs (Decidable (s.draining = false ∧ t ∈ s.gAlloctimers))
  | .delete t => inferInstanceAs (Decidable (s.draining = false ∧ t ∈ s.gAlloctimers))
  | .exit _ => inferInstanceAs (Decidable (s.draining = false))
  | .tick => inferInstanceAs (Decidable (s.draining = false))
  | .expire => inferInstanceAs (Decidable (s.draining = true))
  | .otherCreate => inferInstanceAs (Decidable True)
  | .otherStart w _ wdentry _ =>
    inferInstanceAs (Decidable (w ∈ s.others ∧ wdentry ≠ cfg.timerTimeout))
  | .otherCancel w => inferInstanceAs (Decidable (w ∈ s.others))
  | .otherDelete w => inferInstanceAs (Decidable (w ∈ s.others))

instance decidablePosixKeeps (s : Timers) (i : Op) : Decidable (i.keeps s) :=
  match i with
  | .create ok _ _ mem => inferInstanceAs (Decidable (ok = true → s.wd.gWdfreelist ≠ [] →
      s.gFreetimers = [] → mem ≠ none))
  | .settime _ _ _ _ => inferInstanceAs (Decidable True)
  | .delete _ => inferInstanceAs (Decidable True)
  | .exit _ => inferInstanceAs (Decidable True)
  | .tick => inferInstanceAs (Decidable True)
  | .expire => inferInstanceAs (Decidable True)
  | .otherCreate => inferInstanceAs (Decidable True)
  | .otherStart _ _ _ _ => inferInstanceAs (Decidable True)
  | .otherCancel _ => inferInstanceAs (Decidable True)
  | .otherDelete _ => inferInstanceAs (Decidable True)

instance decidableTimerMachineValid (cfg : Config) (s : Timers) (i : Op) :
    Decidable ((timerMachine cfg).valid s i) :=
  inferInstanceAs (Decidable (i.valid cfg s))

def smallConfig : Config := ⟨1, ⟨3, 4⟩, 7, by decide⟩

/-- A periodic timer expires and is armed again; another lies in memory from the heap. -/
def timerRun : List Op :=
  [.create true 5 none none, .create true 6 (some (4, 9)) (some 100), .otherCreate,
    .settime 1 false (some 1) 1, .otherStart 3 0 8 [], .tick, .expire, .expire, .tick, .expire,
    .expire, .create true 5 none none, .delete 100, .exit 5, .otherDelete 3]

theorem timer_pools_run : ∃ s, runAll (timerMachine smallConfig) (fun s i => i.keeps s)
    (started smallConfig) timerRun = some s ∧ s.log.length = 3 ∧
    (Correct smallConfig s ∧
      ∀ i : Op, i.valid smallConfig s → i.keeps s → Honours smallConfig i s) :=
  have h : ∃ s, runAll (timerMachine smallConfig) (fun s i => i.keeps s)
      (started smallConfig) timerRun = some s ∧ s.log.length = 3 := by decide +kernel
  h.elim fun s hs => ⟨s, hs.1, hs.2, timer_pools (.runAll (.init rfl) hs.1)⟩

/-- A `timer_create` that finds a watchdog and no memory keeps the watchdog. -/
theorem watchdog_lost : ¬ ∀ s : Timers,
    Reachable (timerMachine smallConfig) (· = started smallConfig) s → Correct smallConfig s := by
  intro hall
  have hr : ∃ s, runAll (timerMachine smallConfig) (fun _ _ => True) (started smallConfig)
      [.create true 5 none none, .create true 6 none none] = some s ∧
      (s.wd.gWdfreelist ++ (s.others ++ s.gAlloctimers.map fun t => (s.timer t).ptWdog)).count 2 =
        0 := by
    decide +kernel
  obtain ⟨s, hs, hn⟩ := hr
  have hc := (hall s (.runAll (.init rfl) hs)).wdogs 2 (by decide)
  omega

end NuttxAvr32.Wdog.Posix
