import NuttxAvr32.Lib.Runs

/-! # Initialising once

Threads call `pthread_once` on one control, each with a routine of its own. The scheduler's lock
is held around the test of the control only, so the routine runs while others come and go.
-/

namespace NuttxAvr32.Pthread.Once

open Runs

/-- Where a call stands: before `sched_lock`, before the test, before the control is set, before
the `sched_unlock` that follows, before the routine, in the routine, before the `sched_unlock` of
a call that found the control set, and before the return. -/
inductive Pc
  | enter
  | test
  | set
  | unlock
  | init
  | routine
  | skip
  | ret
deriving DecidableEq, Repr

structure Frame where
  initRoutine : Nat
  pc : Pc
deriving DecidableEq, Repr

inductive Event
  | called (initRoutine : Nat)
  | completed (initRoutine : Nat)
  | ok
  | einval
deriving DecidableEq, Repr

/-- `frames` has the calls of each thread, innermost first: a routine may call `pthread_once`
itself. -/
structure Sys where
  current : Nat
  onceControl : Bool
  lockcount : Nat → Nat
  frames : Nat → List Frame
  log : List Event

namespace Sys

def stack (s : Sys) : List Frame := s.frames s.current

def setStack (s : Sys) (l : List Frame) : Sys :=
  { s with frames := Function.update s.frames s.current l }

def report (s : Sys) (e : Event) : Sys := { s with log := s.log ++ [e] }

def setLockcount (s : Sys) (n : Nat) : Sys :=
  { s with lockcount := Function.update s.lockcount s.current n }

/-- `MAX_LOCK_COUNT` is asserted. -/
def schedLock (s : Sys) : Option Sys :=
  if s.lockcount s.current < 127 then some (s.setLockcount (s.lockcount s.current + 1)) else none

def schedUnlock (s : Sys) : Sys := s.setLockcount (s.lockcount s.current - 1)

/-- The running thread is in the code of its program or of a routine. -/
def inProgram (s : Sys) : Bool :=
  match s.stack with
  | [] => true
  | f :: _ => f.pc = .routine

end Sys

def pthreadOnce (s : Sys) : Option Sys :=
  match s.stack with
  | [] => none
  | ⟨r, pc⟩ :: rest =>
    match pc with
    | .enter => s.schedLock.map fun s => s.setStack (⟨r, .test⟩ :: rest)
    | .test => some (s.setStack (⟨r, if s.onceControl then .skip else .set⟩ :: rest))
    | .set => some ({ s with onceControl := true }.setStack (⟨r, .unlock⟩ :: rest))
    | .unlock => some (s.schedUnlock.setStack (⟨r, .init⟩ :: rest))
    | .init => some ((s.report (.called r)).setStack (⟨r, .routine⟩ :: rest))
    | .routine => some ((s.report (.completed r)).setStack (⟨r, .ret⟩ :: rest))
    | .skip => some (s.schedUnlock.setStack (⟨r, .ret⟩ :: rest))
    | .ret => some ((s.report .ok).setStack rest)

/-- `call none` is a call with a null argument; `switch` gives the processor to a thread. -/
inductive Op
  | call (initRoutine : Option Nat)
  | step
  | schedLock
  | schedUnlock
  | switch (t : Nat)
deriving DecidableEq, Repr

def Op.exec : Op → Sys → Option Sys
  | call none, s => some (s.report .einval)
  | call (some r), s => some (s.setStack (⟨r, .enter⟩ :: s.stack))
  | step, s => pthreadOnce s
  | schedLock, s => s.schedLock
  | schedUnlock, s => some s.schedUnlock
  | switch t, s => some { s with current := t }

/-- Programs and routines call, lock, unlock and wait as they like; elsewhere the processor is
lost only without the lock. -/
def Op.valid (s : Sys) : Op → Prop
  | step => True
  | switch _ => s.lockcount s.current = 0 ∨ s.inProgram = true
  | _ => s.inProgram = true

instance decidableOnceValid (s : Sys) (i : Op) : Decidable (i.valid s) := by
  cases i <;> (unfold Op.valid; infer_instance)

def onceMachine : Machine Sys Op where
  valid s i := i.valid s
  exec s i := i.exec s

instance decidableOnceMachineValid (s : Sys) (i : Op) : Decidable (onceMachine.valid s i) :=
  inferInstanceAs (Decidable (i.valid s))

structure Start (s : Sys) : Prop where
  control : s.onceControl = false
  frames : ∀ t, s.frames t = []
  log : s.log = []

def calls (log : List Event) : List Nat :=
  log.filterMap fun
    | .called r => some r
    | _ => none

def Initialised (log : List Event) : Prop := ∃ r, .called r ∈ log ∧ .completed r ∈ log

/-- At most one routine is called, and it has completed before each return of `OK`. -/
structure OnceCorrect (log : List Event) : Prop where
  once : (calls log).length ≤ 1
  returns : ∀ before after, log = before ++ .ok :: after → Initialised before

/-- The call is the one that initialises, and has not done it yet. -/
def Frame.initialises (f : Frame) : Bool := f.pc = .unlock ∨ f.pc = .init ∨ f.pc = .routine

/-- No call finds the control set while the routine is still to run or to complete. -/
def Op.timely (s : Sys) : Op → Prop
  | step => s.onceControl = true → ∀ f ∈ s.stack.head?, f.pc = .test →
      ∀ t, ∀ g ∈ s.frames t, g.initialises = false
  | _ => True

section

variable {s s' : Sys} {l : List Frame} {f g : Frame} {e : Event} {t : Nat}

@[simp] theorem frames_setStack : (s.setStack l).frames s.current = l :=
  Function.update_self ..

theorem frames_setStack_of_ne (h : t ≠ s.current) : (s.setStack l).frames t = s.frames t :=
  Function.update_of_ne h ..

theorem mem_setStack :
    g ∈ (s.setStack l).frames t ↔ t = s.current ∧ g ∈ l ∨ t ≠ s.current ∧ g ∈ s.frames t := by
  by_cases h : t = s.current
  · subst h
    simp
  · simp [frames_setStack_of_ne h, h]

@[simp] theorem setStack_setStack (l' : List Frame) :
    (s.setStack l).setStack l' = s.setStack l' := by
  simp [Sys.setStack]

theorem setLockcount_self (n : Nat) : (s.setLockcount n).lockcount s.current = n :=
  Function.update_self ..

theorem calls_report_other (h : ∀ r, e ≠ .called r) (log : List Event) :
    calls (log ++ [e]) = calls log := by
  cases e with
  | called r => exact absurd rfl (h r)
  | _ => simp [calls]

theorem calls_report_called (r : Nat) (log : List Event) :
    calls (log ++ [.called r]) = calls log ++ [r] := by
  simp [calls]

end

def Frame.holds (f : Frame) : Bool :=
  f.pc = .test ∨ f.pc = .set ∨ f.pc = .unlock ∨ f.pc = .skip

def Frame.fresh (f : Frame) : Bool := f.pc = .enter ∨ f.pc = .test ∨ f.pc = .set

/-- The call has set the control, and its routine is still to be called. -/
def Frame.opens (f : Frame) : Bool := f.pc = .unlock ∨ f.pc = .init

/-- Below the innermost call there are calls in their routines only, and only the running thread
is between `sched_lock` and `sched_unlock`. -/
structure Locked (s : Sys) : Prop where
  nested : ∀ t, ∀ g ∈ (s.frames t).tail, g.pc = .routine
  locked : ∀ t, ∀ f ∈ (s.frames t).head?, f.holds = true → t = s.current ∧ 0 < s.lockcount t

structure Inv (s : Sys) : Prop extends Locked s where
  unset : s.onceControl = false → calls s.log = [] ∧ ∀ t, ∀ f ∈ s.frames t, f.fresh = true
  isSet : s.onceControl = true → ∀ t, ∀ f ∈ s.frames t, f.pc ≠ .set
  alone : ∀ t, ∀ f ∈ s.frames t, f.opens = true → calls s.log = [] ∧
    ∀ u, ∀ g ∈ s.frames u, g.initialises = true → u = t ∧ g = f
  once : (calls s.log).length ≤ 1

theorem Inv.start {s : Sys} (h : Start s) : Inv s where
  nested t := by simp [h.frames t]
  locked t := by simp [h.frames t]
  unset _ := ⟨by simp [calls, h.log], fun t => by simp [h.frames t]⟩
  isSet _ t := by simp [h.frames t]
  alone t := by simp [h.frames t]
  once := by simp [calls, h.log]

section

variable {s s' s₁ : Sys} {f f' g : Frame} {rest : List Frame} {t : Nat} {i : Op}

/-- `s₁` differs from `s` at most in the control, the log and the lock of the running thread. -/
structure SameCalls (s s₁ : Sys) : Prop where
  frames : s₁.frames = s.frames
  current : s₁.current = s.current

theorem Locked.below (h : Locked s) (hstack : s.stack = f :: rest) :
    ∀ g ∈ rest, g.pc = .routine := by
  have hold := h.nested s.current
  rwa [show s.frames s.current = f :: rest from hstack] at hold

theorem mem_stack (hstack : s.stack = f :: rest) : f ∈ s.frames s.current := by
  rw [show s.frames s.current = f :: rest from hstack]
  exact List.mem_cons_self

theorem Locked.held (h : Locked s) (hg : g ∈ s.frames t) (hholds : g.holds = true) :
    t = s.current ∧ s.stack.head? = some g ∧ 0 < s.lockcount s.current := by
  cases hf : s.frames t with
  | nil => simp [hf] at hg
  | cons f rest =>
    rw [hf, List.mem_cons] at hg
    rcases hg with rfl | hg
    · obtain ⟨rfl, hlock⟩ := h.locked t g (by rw [hf]; rfl) hholds
      exact ⟨rfl, by rw [Sys.stack, hf]; rfl, hlock⟩
    · have hpc := h.nested t g (by rwa [hf])
      simp [Frame.holds, hpc] at hholds

theorem mem_replace (hstack : s.stack = f :: rest) (hsame : SameCalls s s₁)
    (hg : g ∈ (s₁.setStack (f' :: rest)).frames t) :
    t = s.current ∧ g = f' ∨ g ∈ s.frames t ∧ (t = s.current → g ∈ rest) := by
  rw [mem_setStack, hsame.current, hsame.frames, List.mem_cons] at hg
  rcases hg with ⟨ht, hg | hg⟩ | ⟨hne, hg⟩
  · exact .inl ⟨ht, hg⟩
  · refine .inr ⟨?_, fun _ => hg⟩
    have hmem : g ∈ s.stack := hstack ▸ List.mem_cons_of_mem f hg
    rwa [ht]
  · exact .inr ⟨hg, fun ht => absurd ht hne⟩

theorem Locked.replace (h : Locked s) (hstack : s.stack = f :: rest) (hsame : SameCalls s s₁)
    (hlock : f'.holds = true → 0 < s₁.lockcount s.current) :
    Locked (s₁.setStack (f' :: rest)) where
  nested t := by
    by_cases ht : t = s₁.current
    · subst ht
      rw [frames_setStack]
      exact h.below hstack
    · rw [frames_setStack_of_ne ht, hsame.frames]
      exact h.nested t
  locked t g hg hholds := by
    by_cases ht : t = s₁.current
    · subst ht
      rw [frames_setStack, List.head?_cons, Option.mem_some] at hg
      subst hg
      exact ⟨rfl, hsame.current ▸ hlock hholds⟩
    · rw [frames_setStack_of_ne ht, hsame.frames] at hg
      exact absurd (hsame.current ▸ (h.locked t g hg hholds).1) ht

theorem initialises_of_opens (h : g.opens = true) : g.initialises = true := by
  unfold Frame.opens at h
  unfold Frame.initialises
  grind

theorem not_initialises_of_fresh (h : g.fresh = true) : g.initialises = false := by
  unfold Frame.fresh at h
  unfold Frame.initialises
  grind

/-- Where the control and the calls of routines stay as they are, and no call comes to be about to
call one. -/
theorem Inv.quiet (h : Inv s) (hlocked : Locked s') (hcontrol : s'.onceControl = s.onceControl)
    (hlog : calls s'.log = calls s.log)
    (hmem : ∀ u, ∀ g ∈ s'.frames u, g ∈ s.frames u ∨ g.initialises = false ∧
      (s.onceControl = false → g.fresh = true) ∧ (s.onceControl = true → g.pc ≠ .set)) :
    Inv s' where
  toLocked := hlocked
  unset hc := by
    have hc₀ : s.onceControl = false := hcontrol ▸ hc
    obtain ⟨hcalls, hall⟩ := h.unset hc₀
    refine ⟨hlog.trans hcalls, fun t g hg => ?_⟩
    rcases hmem t g hg with hold | ⟨-, hfresh, -⟩
    · exact hall t g hold
    · exact hfresh hc₀
  isSet hc t g hg := by
    have hc₀ : s.onceControl = true := hcontrol ▸ hc
    rcases hmem t g hg with hold | ⟨-, -, hset⟩
    · exact h.isSet hc₀ t g hold
    · exact hset hc₀
  alone t g hg hopens := by
    have hold : ∀ u, ∀ g ∈ s'.frames u, g.initialises = true → g ∈ s.frames u := by
      intro u g hg hi
      rcases hmem u g hg with hold | ⟨hno, -⟩
      · exact hold
      · rw [hno] at hi
        cases hi
    obtain ⟨hcalls, hall⟩ := h.alone t g (hold t g hg (initialises_of_opens hopens)) hopens
    exact ⟨hlog.trans hcalls, fun u g' hg' hi => hall u g' (hold u g' hg' hi) hi⟩
  once := hlog ▸ h.once

theorem Inv.replace (h : Inv s) (hstack : s.stack = f :: rest) (hsame : SameCalls s s₁)
    (hlock : f'.holds = true → 0 < s₁.lockcount s.current)
    (hcontrol : s₁.onceControl = s.onceControl) (hlog : calls s₁.log = calls s.log)
    (hquiet : f'.initialises = false) (hfresh : s.onceControl = false → f'.fresh = true)
    (hset : s.onceControl = true → f'.pc ≠ .set) : Inv (s₁.setStack (f' :: rest)) := by
  refine h.quiet (h.toLocked.replace hstack hsame hlock) hcontrol hlog fun u g hg => ?_
  rcases mem_replace hstack hsame hg with ⟨-, rfl⟩ | ⟨hold, -⟩
  · exact .inr ⟨hquiet, hfresh, hset⟩
  · exact .inl hold

theorem Inv.returns (h : Inv s) (hstack : s.stack = f :: rest) :
    Inv ((s.report .ok).setStack rest) := by
  have hin : ∀ g ∈ rest, g ∈ s.frames s.current := by
    intro g hg
    rw [show s.frames s.current = f :: rest from hstack]
    exact List.mem_cons_of_mem f hg
  have hlocked : Locked ((s.report .ok).setStack rest) := by
    constructor
    · intro t g hg
      by_cases ht : t = s.current
      · subst ht
        rw [show ((s.report .ok).setStack rest).frames s.current = rest from
          frames_setStack (s := s.report .ok)] at hg
        exact h.below hstack g (List.mem_of_mem_tail hg)
      · rw [frames_setStack_of_ne (s := s.report .ok) ht] at hg
        exact h.nested t g hg
    · intro t g hg hholds
      by_cases ht : t = s.current
      · subst ht
        rw [show ((s.report .ok).setStack rest).frames s.current = rest from
          frames_setStack (s := s.report .ok)] at hg
        have hpc := h.below hstack g (List.mem_of_mem_head? hg)
        simp [Frame.holds, hpc] at hholds
      · rw [frames_setStack_of_ne (s := s.report .ok) ht] at hg
        exact h.locked t g hg hholds
  refine h.quiet hlocked rfl (calls_report_other (by simp) s.log) fun u g hg => .inl ?_
  rcases mem_setStack.mp hg with ⟨hu, hg⟩ | ⟨-, hg⟩
  · rw [show u = s.current from hu]
    exact hin g hg
  · exact hg

theorem Inv.enters {r : Nat} (h : Inv s) (hp : s.inProgram = true) :
    Inv (s.setStack (⟨r, .enter⟩ :: s.stack)) := by
  have hall : ∀ g ∈ s.stack, g.pc = .routine := by
    unfold Sys.inProgram at hp
    split at hp
    · next hnil => simp [hnil]
    · next f rest hstack =>
      intro g hg
      rw [hstack, List.mem_cons] at hg
      rcases hg with rfl | hg
      · simpa using hp
      · exact h.below hstack g hg
  have hlocked : Locked (s.setStack (⟨r, .enter⟩ :: s.stack)) := by
    constructor
    · intro t g hg
      by_cases ht : t = s.current
      · subst ht
        rw [frames_setStack] at hg
        exact hall g hg
      · rw [frames_setStack_of_ne ht] at hg
        exact h.nested t g hg
    · intro t g hg hholds
      by_cases ht : t = s.current
      · subst ht
        rw [frames_setStack, List.head?_cons, Option.mem_some] at hg
        subst hg
        cases hholds
      · rw [frames_setStack_of_ne ht] at hg
        exact h.locked t g hg hholds
  refine h.quiet hlocked rfl rfl fun u g hg => ?_
  rcases mem_setStack.mp hg with ⟨hu, hin⟩ | ⟨-, hin⟩
  · rcases List.mem_cons.mp hin with rfl | hin
    · exact .inr ⟨rfl, fun _ => rfl, fun _ h => by cases h⟩
    · exact .inl (hu ▸ hin)
  · exact .inl hin

theorem Inv.sets {r : Nat} (h : Inv s) (hstack : s.stack = ⟨r, .set⟩ :: rest) :
    Inv ({ s with onceControl := true }.setStack (⟨r, .unlock⟩ :: rest)) := by
  have hsame : SameCalls s { s with onceControl := true } := ⟨rfl, rfl⟩
  have hmem := mem_stack hstack
  obtain ⟨-, -, hlock⟩ := h.held hmem rfl
  have hc : s.onceControl = false := by
    by_contra hno
    exact h.isSet (by simpa using hno) _ _ hmem rfl
  obtain ⟨hcalls, hall⟩ := h.unset hc
  have hnew : ∀ u, ∀ g ∈ ({ s with onceControl := true }.setStack
      (⟨r, .unlock⟩ :: rest)).frames u, g.initialises = true →
        u = s.current ∧ g = ⟨r, .unlock⟩ := by
    intro u g hg hi
    rcases mem_replace hstack hsame hg with hnew | ⟨hold, -⟩
    · exact hnew
    · rw [not_initialises_of_fresh (hall u g hold)] at hi
      cases hi
  refine ⟨h.toLocked.replace hstack hsame fun _ => hlock, fun hc' => (by cases hc'), ?_, ?_, h.once⟩
  · intro _ t g hg hpc
    rcases mem_replace hstack hsame hg with ⟨-, rfl⟩ | ⟨hold, hin⟩
    · cases hpc
    · obtain ⟨ht, -⟩ := h.held hold (by simp [Frame.holds, hpc])
      rw [h.below hstack g (hin ht)] at hpc
      cases hpc
  · intro t g hg hopens
    obtain ⟨rfl, rfl⟩ := hnew t g hg (initialises_of_opens hopens)
    exact ⟨hcalls, hnew⟩

theorem Inv.set_of_not_fresh (h : Inv s) (hf : f ∈ s.frames t) (hfresh : f.fresh = false) :
    s.onceControl = true := by
  by_contra hno
  have hall := (h.unset (by simpa using hno)).2 t f hf
  rw [hfresh] at hall
  cases hall

theorem Inv.unlocks {r : Nat} (h : Inv s) (hstack : s.stack = ⟨r, .unlock⟩ :: rest) :
    Inv (s.schedUnlock.setStack (⟨r, .init⟩ :: rest)) := by
  have hsame : SameCalls s s.schedUnlock := ⟨rfl, rfl⟩
  have hmem := mem_stack hstack
  obtain ⟨hcalls, hall⟩ := h.alone _ _ hmem rfl
  have hc := h.set_of_not_fresh hmem rfl
  have hnew : ∀ u, ∀ g ∈ (s.schedUnlock.setStack (⟨r, .init⟩ :: rest)).frames u,
      g.initialises = true → u = s.current ∧ g = ⟨r, .init⟩ := by
    intro u g hg hi
    rcases mem_replace hstack hsame hg with hnew | ⟨hold, hin⟩
    · exact hnew
    · obtain ⟨hu, rfl⟩ := hall u g hold hi
      cases h.below hstack _ (hin hu)
  refine ⟨h.toLocked.replace hstack hsame fun h => (by cases h), fun hc' => ?_, ?_, ?_, h.once⟩
  · exact absurd (hc'.symm.trans hc) (by decide)
  · intro _ t g hg
    rcases mem_replace hstack hsame hg with ⟨-, rfl⟩ | ⟨hold, -⟩
    · exact fun h => by cases h
    · exact h.isSet hc t g hold
  · intro t g hg hopens
    obtain ⟨rfl, rfl⟩ := hnew t g hg (initialises_of_opens hopens)
    exact ⟨hcalls, hnew⟩

theorem Inv.inits {r : Nat} (h : Inv s) (hstack : s.stack = ⟨r, .init⟩ :: rest) :
    Inv ((s.report (.called r)).setStack (⟨r, .routine⟩ :: rest)) := by
  have hsame : SameCalls s (s.report (.called r)) := ⟨rfl, rfl⟩
  have hmem := mem_stack hstack
  obtain ⟨hcalls, hall⟩ := h.alone _ _ hmem rfl
  have hc := h.set_of_not_fresh hmem rfl
  refine ⟨h.toLocked.replace hstack hsame fun h => (by cases h), fun hc' => ?_, ?_, ?_, ?_⟩
  · exact absurd (hc'.symm.trans hc) (by decide)
  · intro _ t g hg
    rcases mem_replace hstack hsame hg with ⟨-, rfl⟩ | ⟨hold, -⟩
    · exact fun h => by cases h
    · exact h.isSet hc t g hold
  · intro t g hg hopens
    rcases mem_replace hstack hsame hg with ⟨-, rfl⟩ | ⟨hold, hin⟩
    · cases hopens
    · obtain ⟨ht, rfl⟩ := hall t g hold (initialises_of_opens hopens)
      cases h.below hstack _ (hin ht)
  · change (calls (s.log ++ [.called r])).length ≤ 1
    rw [calls_report_called, hcalls]
    exact Nat.le_refl 1

theorem inProgram_holds (hp : s.inProgram = true) (hf : s.stack.head? = some f) :
    f.holds = false := by
  unfold Sys.inProgram at hp
  cases hs : s.stack with
  | nil => simp [hs] at hf
  | cons g rest =>
    rw [hs, List.head?_cons, Option.some.injEq] at hf
    subst hf
    have hpc : g.pc = .routine := by simpa [hs] using hp
    simp [Frame.holds, hpc]

theorem Inv.program (h : Inv s) (hframes : s'.frames = s.frames)
    (hcontrol : s'.onceControl = s.onceControl) (hlog : calls s'.log = calls s.log)
    (hfree : ∀ t, ∀ f ∈ (s.frames t).head?, f.holds = false) : Inv s' := by
  have hlocked : Locked s' := by
    constructor
    · rw [hframes]
      exact h.nested
    · intro t f hf hholds
      rw [hframes] at hf
      rw [hfree t f hf] at hholds
      cases hholds
  refine h.quiet hlocked hcontrol hlog fun u g hg => .inl ?_
  rwa [hframes] at hg

theorem Locked.free (h : Locked s) (hp : s.lockcount s.current = 0 ∨ s.inProgram = true) (t : Nat) :
    ∀ f ∈ (s.frames t).head?, f.holds = false := by
  intro f hf
  by_contra hno
  obtain ⟨rfl, hlock⟩ := h.locked t f hf (by simpa using hno)
  rcases hp with hp | hp
  · omega
  · exact hno (inProgram_holds hp hf)

theorem Inv.pthreadOnce (h : Inv s) (he : pthreadOnce s = some s') : Inv s' := by
  unfold Once.pthreadOnce at he
  split at he
  · cases he
  · next r pc rest hstack =>
    have hmem := mem_stack hstack
    have hset : ∀ f : Frame, f.fresh = false → f ∈ s.frames s.current → s.onceControl = true :=
      fun f hf hin => h.set_of_not_fresh hin hf
    cases pc with
    | enter =>
      obtain ⟨s₁, hl, rfl⟩ := Option.map_eq_some_iff.mp he
      unfold Sys.schedLock at hl
      split at hl
      · cases hl
        refine h.replace hstack ⟨rfl, rfl⟩ (fun _ => ?_) rfl rfl rfl (fun _ => rfl)
          fun _ h => by cases h
        rw [setLockcount_self]
        exact Nat.succ_pos _
      · cases hl
    | test =>
      cases he
      have hlock := (h.held hmem rfl).2.2
      refine h.replace hstack ⟨rfl, rfl⟩ (fun _ => hlock) rfl rfl ?_ (fun hc => ?_) fun hc => ?_
      · split <;> rfl
      · rw [hc]
        rfl
      · rw [hc]
        exact fun h => by cases h
    | set =>
      cases he
      exact h.sets hstack
    | unlock =>
      cases he
      exact h.unlocks hstack
    | init =>
      cases he
      exact h.inits hstack
    | routine =>
      cases he
      have hc := hset _ rfl hmem
      exact h.replace hstack ⟨rfl, rfl⟩ (fun h => by cases h) rfl
        (calls_report_other (by simp) s.log) rfl (fun h => by simp [hc] at h)
        fun _ h => by cases h
    | skip =>
      cases he
      have hc := hset _ rfl hmem
      exact h.replace hstack ⟨rfl, rfl⟩ (fun h => by cases h) rfl rfl rfl
        (fun h => by simp [hc] at h) fun _ h => by cases h
    | ret =>
      cases he
      exact h.returns hstack

theorem Inv.exec (h : Inv s) (hv : i.valid s) (he : i.exec s = some s') : Inv s' := by
  cases i with
  | call r =>
    cases r with
    | none =>
      cases he
      exact h.program rfl rfl (calls_report_other (by simp) s.log) (h.free (.inr hv))
    | some r =>
      cases he
      exact h.enters hv
  | step => exact h.pthreadOnce he
  | schedLock =>
    have hl : s.schedLock = some s' := he
    unfold Sys.schedLock at hl
    split at hl
    · cases hl
      exact h.program rfl rfl rfl (h.free (.inr hv))
    · cases hl
  | schedUnlock =>
    cases he
    exact h.program rfl rfl rfl (h.free (.inr hv))
  | switch t =>
    cases he
    exact h.program rfl rfl rfl (h.free hv)

end

section

variable {s s' s₁ : Sys} {f f' g : Frame} {rest : List Frame} {t : Nat} {i : Op}
  {log : List Event} {e : Event}

def Returns (log : List Event) : Prop :=
  ∀ before after, log = before ++ .ok :: after → Initialised before

theorem Initialised.append (h : Initialised log) (log' : List Event) :
    Initialised (log ++ log') := by
  obtain ⟨r, hcalled, hcompleted⟩ := h
  exact ⟨r, List.mem_append_left _ hcalled, List.mem_append_left _ hcompleted⟩

theorem Returns.snoc (h : Returns log) (he : e = .ok → Initialised log) : Returns (log ++ [e]) := by
  intro before after heq
  rcases List.eq_nil_or_concat after with rfl | ⟨after', x, rfl⟩
  · obtain ⟨rfl, hlast⟩ := List.append_inj' heq rfl
    exact he (List.cons.inj hlast).1
  · rw [List.concat_eq_append, ← List.cons_append, ← List.append_assoc] at heq
    exact h before after' (List.append_inj' heq rfl).1

structure Timely (s : Sys) : Prop extends Inv s where
  complete : s.onceControl = true →
    Initialised s.log ∨ ∃ t, ∃ f ∈ s.frames t, f.initialises = true
  routine : ∀ t, ∀ f ∈ s.frames t, f.pc = .routine → .called f.initRoutine ∈ s.log
  after : ∀ t, ∀ f ∈ s.frames t, f.pc = .skip ∨ f.pc = .ret → Initialised s.log
  returns : Returns s.log

theorem Timely.start (h : Start s) : Timely s where
  toInv := .start h
  complete hc := absurd (h.control.symm.trans hc) (by decide)
  routine t := by simp [h.frames t]
  after t := by simp [h.frames t]
  returns before after heq := by simp [h.log] at heq

theorem Timely.grow (h : Timely s) (hinv : Inv s') {new : List Event} (hlog : s'.log = s.log ++ new)
    (hreturns : Returns s'.log)
    (hcomplete : s'.onceControl = true →
      s.onceControl = true ∧ (∀ t, ∀ g ∈ s.frames t, g.initialises = true → g ∈ s'.frames t) ∨
        Initialised s'.log ∨ ∃ t, ∃ g ∈ s'.frames t, g.initialises = true)
    (hmem : ∀ t, ∀ g ∈ s'.frames t, g ∈ s.frames t ∨
      (g.pc = .routine → .called g.initRoutine ∈ s'.log) ∧
        (g.pc = .skip ∨ g.pc = .ret → Initialised s'.log)) : Timely s' where
  toInv := hinv
  complete hc := by
    rcases hcomplete hc with ⟨hc₀, hkeep⟩ | hdone
    · rcases h.complete hc₀ with hinit | ⟨t, g, hg, hi⟩
      · exact .inl (hlog ▸ hinit.append new)
      · exact .inr ⟨t, g, hkeep t g hg hi, hi⟩
    · exact hdone
  routine t g hg hpc := by
    rcases hmem t g hg with hold | ⟨hroutine, -⟩
    · rw [hlog]
      exact List.mem_append_left _ (h.routine t g hold hpc)
    · exact hroutine hpc
  after t g hg hpc := by
    rcases hmem t g hg with hold | ⟨-, hafter⟩
    · exact hlog ▸ (h.after t g hold hpc).append new
    · exact hafter hpc
  returns := hreturns

theorem mem_keep (hstack : s.stack = f :: rest) (hsame : SameCalls s s₁)
    (hf : f.initialises = false) (l : List Frame) (hg : g ∈ s.frames t)
    (hi : g.initialises = true) : g ∈ (s₁.setStack (l ++ rest)).frames t := by
  rw [mem_setStack, hsame.current, hsame.frames]
  by_cases ht : t = s.current
  · refine .inl ⟨ht, List.mem_append_right l ?_⟩
    rw [ht, show s.frames s.current = f :: rest from hstack, List.mem_cons] at hg
    rcases hg with rfl | hg
    · rw [hf] at hi
      cases hi
    · exact hg
  · exact .inr ⟨ht, hg⟩

theorem Timely.replace (h : Timely s) (hinv : Inv (s₁.setStack (f' :: rest)))
    (hstack : s.stack = f :: rest) (hsame : SameCalls s s₁) {new : List Event}
    (hlog : s₁.log = s.log ++ new) (hreturns : Returns s₁.log)
    (hcomplete : s₁.onceControl = true → s.onceControl = true ∧ f.initialises = false ∨
      Initialised s₁.log ∨ f'.initialises = true)
    (hroutine : f'.pc = .routine → .called f'.initRoutine ∈ s₁.log)
    (hafter : f'.pc = .skip ∨ f'.pc = .ret → Initialised s₁.log) :
    Timely (s₁.setStack (f' :: rest)) := by
  refine h.grow hinv hlog hreturns (fun hc => ?_) fun t g hg => ?_
  · rcases hcomplete hc with ⟨hc₀, hf⟩ | hinit | hf'
    · exact .inl ⟨hc₀, fun t g hg hi => mem_keep hstack hsame hf [f'] hg hi⟩
    · exact .inr (.inl hinit)
    · refine .inr (.inr ⟨s₁.current, f', ?_, hf'⟩)
      rw [frames_setStack]
      exact List.mem_cons_self
  · rcases mem_replace hstack hsame hg with ⟨-, rfl⟩ | ⟨hold, -⟩
    · exact .inr ⟨hroutine, hafter⟩
    · exact .inl hold

theorem Timely.pthreadOnce (h : Timely s) (hk : Op.timely s .step) (he : pthreadOnce s = some s') :
    Timely s' := by
  have hinv := h.toInv.pthreadOnce he
  unfold Once.pthreadOnce at he
  split at he
  · cases he
  · next r pc rest hstack =>
    have hmem := mem_stack hstack
    cases pc with
    | enter =>
      obtain ⟨s₁, hl, rfl⟩ := Option.map_eq_some_iff.mp he
      unfold Sys.schedLock at hl
      split at hl
      · cases hl
        exact h.replace hinv hstack ⟨rfl, rfl⟩ (List.append_nil _).symm h.returns
          (fun hc => .inl ⟨hc, rfl⟩) (fun hpc => by cases hpc) fun hpc => by simp at hpc
      · cases hl
    | test =>
      cases he
      refine h.replace hinv hstack ⟨rfl, rfl⟩ (List.append_nil _).symm h.returns
        (fun hc => .inl ⟨hc, rfl⟩) (fun hpc => ?_) fun hpc => ?_
      · dsimp only at hpc
        split at hpc <;> cases hpc
      · have hc : s.onceControl = true := by
          by_contra hno
          simp [hno] at hpc
        have hidle := hk hc ⟨r, .test⟩ (by rw [hstack]; rfl) rfl
        rcases h.complete hc with hinit | ⟨t, g, hg, hi⟩
        · exact hinit
        · rw [hidle t g hg] at hi
          cases hi
    | set =>
      cases he
      exact h.replace hinv hstack ⟨rfl, rfl⟩ (List.append_nil _).symm h.returns
        (fun _ => .inr (.inr rfl)) (fun hpc => by cases hpc) fun hpc => by simp at hpc
    | unlock =>
      cases he
      exact h.replace hinv hstack ⟨rfl, rfl⟩ (List.append_nil _).symm h.returns
        (fun _ => .inr (.inr rfl)) (fun hpc => by cases hpc) fun hpc => by simp at hpc
    | init =>
      cases he
      exact h.replace hinv hstack ⟨rfl, rfl⟩ rfl (h.returns.snoc fun he => by cases he)
        (fun _ => .inr (.inr rfl)) (fun _ => List.mem_append_right _ List.mem_cons_self)
        fun hpc => by simp at hpc
    | routine =>
      cases he
      have hinit : Initialised (s.log ++ [.completed r]) :=
        ⟨r, List.mem_append_left _ (h.routine _ _ hmem rfl),
          List.mem_append_right _ List.mem_cons_self⟩
      exact h.replace hinv hstack ⟨rfl, rfl⟩ rfl (h.returns.snoc fun he => by cases he)
        (fun _ => .inr (.inl hinit)) (fun hpc => by cases hpc) fun _ => hinit
    | skip =>
      cases he
      have hinit := h.after _ _ hmem (.inl rfl)
      exact h.replace hinv hstack ⟨rfl, rfl⟩ (List.append_nil _).symm h.returns
        (fun hc => .inl ⟨hc, rfl⟩) (fun hpc => by cases hpc) fun _ => hinit
    | ret =>
      cases he
      have hinit := h.after _ _ hmem (.inr rfl)
      refine h.grow hinv rfl (h.returns.snoc fun _ => hinit)
        (fun _ => .inr (.inl (hinit.append _))) fun t g hg => .inl ?_
      rcases mem_setStack.mp hg with ⟨ht, hg⟩ | ⟨-, hg⟩
      · rw [show t = s.current from ht, show s.frames s.current = _ from hstack]
        exact List.mem_cons_of_mem _ hg
      · exact hg

theorem Timely.exec (h : Timely s) (hv : i.valid s) (hk : i.timely s) (he : i.exec s = some s') :
    Timely s' := by
  have hinv := h.toInv.exec hv he
  cases i with
  | call r =>
    cases r with
    | none =>
      cases he
      exact h.grow hinv rfl (h.returns.snoc fun he => by cases he)
        (fun hc => .inl ⟨hc, fun _ _ hg _ => hg⟩) fun _ _ hg => .inl hg
    | some r =>
      cases he
      refine h.grow hinv (List.append_nil _).symm h.returns
        (fun hc => .inl ⟨hc, fun t g hg _ => ?_⟩) fun t g hg => ?_
      · rw [mem_setStack]
        by_cases ht : t = s.current
        · exact .inl ⟨ht, List.mem_cons_of_mem _ (show g ∈ s.frames s.current from ht ▸ hg)⟩
        · exact .inr ⟨ht, hg⟩
      · rcases mem_setStack.mp hg with ⟨ht, hin⟩ | ⟨-, hin⟩
        · rcases List.mem_cons.mp hin with rfl | hin
          · exact .inr ⟨fun hpc => (by cases hpc), fun hpc => by simp at hpc⟩
          · exact .inl (ht ▸ hin)
        · exact .inl hin
  | step => exact h.pthreadOnce hk he
  | schedLock =>
    have hl : s.schedLock = some s' := he
    unfold Sys.schedLock at hl
    split at hl
    · cases hl
      exact h.grow hinv (List.append_nil _).symm h.returns
        (fun hc => .inl ⟨hc, fun _ _ hg _ => hg⟩) fun _ _ hg => .inl hg
    · cases hl
  | schedUnlock =>
    cases he
    exact h.grow hinv (List.append_nil _).symm h.returns
      (fun hc => .inl ⟨hc, fun _ _ hg _ => hg⟩) fun _ _ hg => .inl hg
  | switch t =>
    cases he
    exact h.grow hinv (List.append_nil _).symm h.returns
      (fun hc => .inl ⟨hc, fun _ _ hg _ => hg⟩) fun _ _ hg => .inl hg

end

/-- The routine is called once and completes before each return, as long as no call finds the
control set while the routine is still to run or to complete. -/
theorem once_correct {s : Sys} (h : Reach onceMachine Start Op.timely s) : OnceCorrect s.log := by
  have ht : Timely s :=
    h.invariant (fun _ => Timely.start) fun _ _ _ hi hv hk he => hi.exec hv hk he
  exact ⟨ht.once, ht.returns⟩

def idle : Sys := ⟨0, false, fun _ => 0, fun _ => [], []⟩

theorem idle_start : Start idle := ⟨rfl, fun _ => rfl, rfl⟩

def twice : List Op := .call (some 7) :: List.replicate 7 .step ++ [.call none]

def untested (s : Sys) (i : Op) : Prop := i = .step → s.onceControl = true →
  s.stack.head?.all (·.pc ≠ .test) = true

instance decidableUntested (s : Sys) (i : Op) : Decidable (untested s i) :=
  inferInstanceAs (Decidable (_ → _ → _))

theorem untested_timely {s : Sys} {i : Op} (h : untested s i) : i.timely s := by
  cases i with
  | step =>
    intro hc f hf hpc
    have hall := h rfl hc
    rw [Option.mem_def.mp hf] at hall
    simp [hpc] at hall
  | _ => trivial

/-- A single thread. -/
theorem once_correct_single : OnceCorrect [.called 7, .completed 7, .ok, .einval] := by
  have hrun : ∃ s, runAll onceMachine untested idle twice = some s ∧
      s.log = [.called 7, .completed 7, .ok, .einval] := ⟨_, rfl, rfl⟩
  obtain ⟨s, hrun, hlog⟩ := hrun
  rw [← hlog]
  exact once_correct
    (((Reach.init idle_start).runAll hrun).mono fun _ _ => untested_timely)

def overtaking : List Op :=
  .call (some 7) :: List.replicate 5 .step ++ .switch 1 :: .call (some 8) :: List.replicate 4 .step

/-- The second thread returns before the routine has completed. -/
theorem once_overtaken : ¬ ∀ s, Reachable onceMachine Start s → OnceCorrect s.log := by
  intro hall
  have hrun : ∃ s, runAll onceMachine (fun _ _ => True) idle overtaking = some s ∧
      s.log = [.called 7, .ok] := ⟨_, rfl, rfl⟩
  obtain ⟨s, hrun, hlog⟩ := hrun
  have hcorrect := hall s ((Reach.init idle_start).runAll hrun)
  rw [hlog] at hcorrect
  obtain ⟨r, -, hcompleted⟩ := hcorrect.returns [.called 7] [] rfl
  simp at hcompleted

end NuttxAvr32.Pthread.Once
