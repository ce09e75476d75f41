import NuttxAvr32.Sem.Semaphore

/-! # Runs of semaphore calls

All ways in which a task comes to wait for a semaphore and leaves its wait, in any order.
With priority inheritance `sem_waitirq` may be left in its middle: `sem_canceled` can lower
the priority of the task that runs it.
-/

namespace NuttxAvr32.Sem

open Keyed Runs

section

variable {ι : Type} [DecidableEq ι]

/-- `canceling` holds the calls of `sem_waitirq` that another task interrupted, with the
semaphore that they read. -/
structure SemSys (ι : Type) where
  sems : Sems ι
  canceling : List (Nat × ι)

inductive SemOp (ι : Type)
  | create (t p : Nat)
  | wait (t : Nat) (i : ι)
  | trywait (t : Nat) (i : ι)
  | post (i : ι)
  | waitirq (t : Nat)
  | canceled (t : Nat)
  | endWaitirq (t : Nat) (i : ι)
  | setpriority (t p : Nat)
  | delete (t : Nat)
  | restart (t initPriority : Nat)
  | cancel (t : Nat) (noncancelable : Bool)

namespace SemOp

def exec : SemOp ι → SemSys ι → Option (SemSys ι)
  | create t p, s => some { s with sems := taskCreate t p s.sems }
  | wait t i, s => (semWait t i s.sems).map fun r => { s with sems := r.1 }
  | trywait t i, s => some { s with sems := (semTrywait t i s.sems).1 }
  | post i, s => (semPost i s.sems).map fun r => { s with sems := r.1 }
  | waitirq t, s => (semWaitirq t s.sems).map fun r => { s with sems := r }
  | canceled t, s =>
    (s.sems.waitsem t).map fun i => { s with canceling := (t, i) :: s.canceling }
  | endWaitirq t i, s =>
    (Sem.endWaitirq t i s.sems).map fun r =>
      { sems := r, canceling := s.canceling.erase (t, i) }
  | setpriority t p, s => some { s with sems := schedSetpriority t p s.sems }
  | delete t, s => some { s with sems := taskDelete t s.sems }
  | restart t initPriority, s => some { s with sems := taskRestart t initPriority s.sems }
  | cancel t nc, s => some { s with sems := pthreadCancel t nc s.sems }

/-- A task that waits calls nothing, and a TCB in use is not created. -/
def valid (priorityInheritance : Bool) (s : SemSys ι) : SemOp ι → Prop
  | create t _ => t ∉ s.sems.gWaitingforsemaphore
  | wait t _ => t ∉ s.sems.gWaitingforsemaphore
  | trywait t _ => t ∉ s.sems.gWaitingforsemaphore
  | canceled t => priorityInheritance = true ∧ t ∈ s.sems.gWaitingforsemaphore
  | endWaitirq t i => (t, i) ∈ s.canceling
  | _ => True

/-- No task is deleted, restarted or canceled while it waits for a semaphore, and a task
whose wait is being ended still waits when the interrupted call goes on. -/
def spares (s : SemSys ι) : SemOp ι → Prop
  | delete t => t ∉ s.sems.gWaitingforsemaphore
  | restart t _ => t ∉ s.sems.gWaitingforsemaphore
  | cancel t nc => nc = true ∨ t ∉ s.sems.gWaitingforsemaphore
  | endWaitirq t i => s.sems.waitsem t = some i
  | _ => True

instance decidableSemValid (pi : Bool) (s : SemSys ι) (i : SemOp ι) : Decidable (i.valid pi s) := by
  cases i <;> (unfold valid; infer_instance)

instance decidableSpares (s : SemSys ι) (i : SemOp ι) : Decidable (i.spares s) := by
  cases i <;> (unfold spares; infer_instance)

end SemOp

def semMachine (ι : Type) [DecidableEq ι] (priorityInheritance : Bool) :
    Machine (SemSys ι) (SemOp ι) where
  valid s i := i.valid priorityInheritance s
  exec s i := i.exec s

instance decidableSemMachineValid (pi : Bool) (s : SemSys ι) (i : SemOp ι) :
    Decidable ((semMachine ι pi).valid s i) :=
  inferInstanceAs (Decidable (i.valid pi s))

/-- Semaphores after `sem_init`, and no task waits. -/
structure SemStart (s : SemSys ι) : Prop where
  semcount : ∀ i, 0 ≤ s.sems.semcount i ∧ s.sems.semcount i ≤ semValueMax
  waitsem : s.sems.waitsem = fun _ => none
  waiting : s.sems.gWaitingforsemaphore = []
  canceling : s.canceling = []

variable {s s' : SemSys ι}

theorem SemStart.law (h : SemStart s) : Law s.sems where
  nodup := by
    rw [h.waiting]
    exact List.nodup_nil
  ordered := by
    rw [h.waiting]
    exact List.Pairwise.nil
  recent t ht := by
    rw [h.waiting] at ht
    cases ht
  waits t := by
    rw [h.waiting, h.waitsem]
    simp
  counted i := by
    have hw : waiters s.sems i = [] := by
      unfold waiters
      rw [h.waiting]
      rfl
    have h0 := (h.semcount i).1
    rw [hw]
    simp only [List.length_nil, Nat.cast_zero]
    omega

theorem Law.step {pi : Bool} {i : SemOp ι} (L : Law s.sems) (hv : i.valid pi s) (hk : i.spares s)
    (he : i.exec s = some s') : Law s'.sems := by
  cases i with
  | create t p =>
    cases he
    exact L.taskCreate hv
  | wait t i =>
    obtain ⟨r, hr, rfl⟩ := Option.map_eq_some_iff.mp he
    exact L.semWait hv hr
  | trywait t i =>
    cases he
    exact L.semTrywait hv rfl
  | post i =>
    obtain ⟨r, hr, rfl⟩ := Option.map_eq_some_iff.mp he
    exact L.semPost hr
  | waitirq t =>
    obtain ⟨r, hr, rfl⟩ := Option.map_eq_some_iff.mp he
    exact L.semWaitirq hr
  | canceled t =>
    obtain ⟨r, hr, rfl⟩ := Option.map_eq_some_iff.mp he
    exact L
  | endWaitirq t i =>
    obtain ⟨r, hr, rfl⟩ := Option.map_eq_some_iff.mp he
    exact L.endWaitirq hk hr
  | setpriority t p =>
    cases he
    exact L.schedSetpriority
  | delete t =>
    cases he
    exact L.remove hk
  | restart t p =>
    cases he
    exact L.taskRestart hk
  | cancel t nc =>
    cases he
    exact L.pthreadCancel hk

end

/-- In every run in which no waiting task is deleted, restarted or canceled, and none has
left its wait when an interrupted `sem_waitirq` goes on, counts and waiters agree and no
post is lost. -/
theorem semaphores_counted {ι : Type} [DecidableEq ι] {pi : Bool} {s : SemSys ι}
    (h : Reach (semMachine ι pi) SemStart (fun s i => i.spares s) s) : CountLaw s.sems := by
  have L : Law s.sems := by
    apply Reach.invariant (I := fun s : SemSys ι => Law s.sems) _ _ h
    · exact fun s hs => hs.law
    · exact fun s i s' L hv hk he => L.step hv hk he
  exact L.countLaw

def semBoot : SemSys Nat where
  sems := ⟨fun _ => 0, fun _ => none, [], fun _ => 100, fun _ => 0, 0⟩
  canceling := []

theorem semBoot_start : SemStart semBoot where
  semcount _ := ⟨(by decide : (0 : Int) ≤ 0), (by decide : (0 : Int) ≤ semValueMax)⟩
  waitsem := rfl
  waiting := rfl
  canceling := rfl

/-- Two tasks wait, one wait is interrupted, and a post serves the other. -/
theorem semaphores_counted_run : ∃ s : SemSys Nat, s.sems.semcount 7 = 0 ∧
    s.sems.gWaitingforsemaphore = [] ∧ s.sems.clock = 2 ∧ CountLaw s.sems := by
  have hr : ((runAll (semMachine Nat true) (fun s i => i.spares s) semBoot
      [.wait 2 7, .wait 3 7, .waitirq 2, .post 7]).any fun s =>
        decide (s.sems.semcount 7 = 0 ∧ s.sems.gWaitingforsemaphore = [] ∧ s.sems.clock = 2)) =
          true := by
    decide +kernel
  obtain ⟨s, hs, hd⟩ := (Option.any_eq_true _ _).mp hr
  obtain ⟨h1, h2, h3⟩ := of_decide_eq_true hd
  exact ⟨s, h1, h2, h3, semaphores_counted (Reach.runAll (.init semBoot_start) hs)⟩

/-- A task is deleted while it waits: the count stays below zero with nobody waiting. -/
theorem count_leaked : ¬∀ s : SemSys Nat, Reachable (semMachine Nat false) SemStart s →
    CountLaw s.sems := by
  intro hall
  have hr : ((runAll (semMachine Nat false) (fun _ _ => True) semBoot
      [.wait 2 7, .delete 2]).any fun s =>
        decide (s.sems.semcount 7 = -1 ∧ waiters s.sems 7 = [])) = true := by
    decide +kernel
  obtain ⟨s, hs, hd⟩ := (Option.any_eq_true _ _).mp hr
  obtain ⟨h1, h2⟩ := of_decide_eq_true hd
  have hl := (hall s (Reach.runAll (.init semBoot_start) hs)).negative 7 (by omega)
  rw [h2, h1] at hl
  cases hl

end NuttxAvr32.Sem
