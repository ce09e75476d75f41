import NuttxAvr32.Sem.Semaphore

/-! # Mutexes and condition variables

Threads are named by their process ids. For a thread that is inside a call the state says
where it goes on; what lies between two statements at which other threads can come in is
one step. Signals may end the wait of a thread for a semaphore at any time.
-/

namespace NuttxAvr32.Pthread

open Runs Sem

/-- The semaphore of a mutex, and that of a condition variable. -/
inductive SemId
  | mutex (m : Nat)
  | cond (c : Nat)
deriving DecidableEq

structure Mutex where
  pid : Nat
  recursive : Bool
  nlocks : Nat

inductive WaitState
  | waiting
  | interrupted
  | granted
deriving DecidableEq

/-- Where a thread goes on. `saved` is the number of locks that a condition wait gave up. -/
inductive Call
  | lockWait (m : Nat) (w : WaitState)
  | condRelease (m c : Nat) (timed : Bool)
  | condWait (m c : Nat) (timed : Bool) (saved : Nat) (w : WaitState)
  | condRetake (m saved : Nat)
  | condRetakeWait (m saved : Nat) (w : WaitState)
  | condSetpid (m saved : Nat)
deriving DecidableEq

/-- `owners` lists the threads that got a mutex's semaphore and have not posted it, `depth`
counts a thread's successful lock and trylock calls less its unlocks. -/
structure Sys where
  sems : Sems SemId
  mutex : Nat → Mutex
  call : Nat → Option Call
  owners : Nat → List Nat
  depth : Nat → Nat → Nat

namespace Sys

def setCall (s : Sys) (t : Nat) (c : Option Call) : Sys :=
  { s with call := Function.update s.call t c }

def setMutex (s : Sys) (m pid nlocks : Nat) : Sys :=
  { s with
    mutex := Function.update s.mutex m
      { s.mutex m with
        pid := pid
        nlocks := nlocks } }

def setOwners (s : Sys) (m : Nat) (l : List Nat) : Sys :=
  { s with owners := Function.update s.owners m l }

def setDepth (s : Sys) (m t n : Nat) : Sys :=
  { s with depth := Function.update s.depth m (Function.update (s.depth m) t n) }

end Sys

def Call.wake (w : WaitState) : Call → Call
  | .lockWait m _ => .lockWait m w
  | .condWait m c timed saved _ => .condWait m c timed saved w
  | .condRetakeWait m saved _ => .condRetakeWait m saved w
  | c => c

def wakeCall (s : Sys) (t : Nat) (w : WaitState) : Sys :=
  s.setCall t ((s.call t).map (Call.wake w))

/-- `pthread_takesemaphore` on a mutex, up to a wait: where the thread goes on when the
semaphore is free, and when it waits. -/
def takeMutex (t m : Nat) (got waits : Option Call) (s : Sys) : Option (Sys × Bool) :=
  (semWait t (.mutex m) s.sems).map fun r =>
    if r.2 then
      ((({ s with sems := r.1 } : Sys).setOwners m (s.owners m ++ [t])).setCall t got, true)
    else (({ s with sems := r.1 } : Sys).setCall t waits, false)

def giveMutex (t m : Nat) (s : Sys) : Option Sys :=
  (semPost (.mutex m) s.sems).map fun r =>
    match r.2 with
    | none => ({ s with sems := r.1 } : Sys).setOwners m ((s.owners m).erase t)
    | some u =>
        wakeCall (({ s with sems := r.1 } : Sys).setOwners m ((s.owners m).erase t ++ [u])) u
          .granted

def postCond (c : Nat) (s : Sys) : Option Sys :=
  (semPost (.cond c) s.sems).map fun r =>
    match r.2 with
    | none => { s with sems := r.1 }
    | some u => wakeCall { s with sems := r.1 } u .granted

/-- The lock is taken: `pid` and `nlocks` are set. -/
def setLocked (t m : Nat) (s : Sys) : Sys :=
  (s.setMutex m t 1).setDepth m t (s.depth m t + 1)

def lockTake (t m : Nat) (s : Sys) : Option Sys :=
  (takeMutex t m none (some (.lockWait m .waiting)) s).map fun r =>
    if r.2 then setLocked t m r.1 else r.1

def pthreadMutexLock (t m : Nat) (s : Sys) : Option Sys :=
  if (s.mutex m).pid = t then
    if (s.mutex m).recursive then
      some ((s.setMutex m t ((s.mutex m).nlocks + 1)).setDepth m t (s.depth m t + 1))
    else some s
  else lockTake t m s

def pthreadMutexTrylock (t m : Nat) (s : Sys) : Sys :=
  let r := semTrywait t (.mutex m) s.sems
  if r.2 then
    ((({ s with sems := r.1 } : Sys).setOwners m (s.owners m ++ [t])).setMutex m t
      (s.mutex m).nlocks).setDepth m t (s.depth m t + 1)
  else s

def pthreadMutexUnlock (t m : Nat) (s : Sys) : Option Sys :=
  if (s.mutex m).pid ≠ t then some s
  else if (s.mutex m).recursive = true ∧ 1 < (s.mutex m).nlocks then
    some ((s.setMutex m t ((s.mutex m).nlocks - 1)).setDepth m t (s.depth m t - 1))
  else giveMutex t m ((s.setMutex m 0 0).setDepth m t (s.depth m t - 1))

/-- The test at the start of `pthread_cond_wait` and `pthread_cond_timedwait`. -/
def pthreadCondWait (t m c : Nat) (timed : Bool) (s : Sys) : Sys :=
  if (s.mutex m).pid ≠ t then s else s.setCall t (some (.condRelease m c timed))

def condTake (t m c : Nat) (timed : Bool) (saved : Nat) (s : Sys) : Option Sys :=
  (semWait t (.cond c) s.sems).map fun r =>
    ({ s with sems := r.1 } : Sys).setCall t
      (some (if r.2 then .condRetake m saved else .condWait m c timed saved .waiting))

def condRelease (t m c : Nat) (timed : Bool) (s : Sys) : Option Sys :=
  (giveMutex t m (((s.setMutex m 0 (s.mutex m).nlocks).setDepth m t 0).setCall t none)).bind
    (condTake t m c timed (s.depth m t))

def condRetake (t m saved : Nat) (s : Sys) : Option Sys :=
  (takeMutex t m (some (.condSetpid m saved)) (some (.condRetakeWait m saved .waiting)) s).map
    Prod.fst

def callStep (t : Nat) (s : Sys) : Call → Option Sys
  | .lockWait m w =>
      if w = .interrupted then lockTake t m s else some (setLocked t m (s.setCall t none))
  | .condRelease m c timed => condRelease t m c timed s
  | .condWait m c timed saved w =>
      if w = .interrupted ∧ timed = false then condTake t m c timed saved s
      else some (s.setCall t (some (.condRetake m saved)))
  | .condRetake m saved => condRetake t m saved s
  | .condRetakeWait m saved w =>
      if w = .interrupted then condRetake t m saved s
      else some (s.setCall t (some (.condSetpid m saved)))
  | .condSetpid m saved =>
      some (((s.setMutex m t (s.mutex m).nlocks).setDepth m t saved).setCall t none)

def waitirq (t : Nat) (s : Sys) : Option Sys :=
  if t ∈ s.sems.gWaitingforsemaphore then
    (semWaitirq t s.sems).map fun r => wakeCall { s with sems := r } t .interrupted
  else some s

inductive Op
  | lock (t m : Nat)
  | trylock (t m : Nat)
  | unlock (t m : Nat)
  | condWait (t m c : Nat) (timed : Bool)
  | step (t : Nat)
  | post (c : Nat)
  | waitirq (t : Nat)
  | setpriority (t p : Nat)
deriving DecidableEq

def Op.exec : Op → Sys → Option Sys
  | .lock t m, s => pthreadMutexLock t m s
  | .trylock t m, s => some (pthreadMutexTrylock t m s)
  | .unlock t m, s => pthreadMutexUnlock t m s
  | .condWait t m c timed, s => some (pthreadCondWait t m c timed s)
  | .step t, s => (s.call t).bind (callStep t s)
  | .post c, s => postCond c s
  | .waitirq t, s => Pthread.waitirq t s
  | .setpriority t p, s => some { s with sems := schedSetpriority t p s.sems }

/-- A thread outside these functions. The idle task, whose process id is zero, must not
wait and calls none of them. -/
def Sys.outside (s : Sys) (t : Nat) : Prop := t ≠ 0 ∧ s.call t = none

instance decidableOutside (s : Sys) (t : Nat) : Decidable (s.outside t) := by
  unfold Sys.outside
  infer_instance

def Op.valid (s : Sys) : Op → Prop
  | .lock t _ => s.outside t
  | .trylock t _ => s.outside t
  | .unlock t _ => s.outside t
  | .condWait t _ _ _ => s.outside t
  | .step t => t ∉ s.sems.gWaitingforsemaphore
  | _ => True

instance decidableOpValid (s : Sys) (i : Op) : Decidable (i.valid s) := by
  cases i <;> (unfold Op.valid; infer_instance)

def mutexMachine : Machine Sys Op where
  valid s i := i.valid s
  exec s i := i.exec s

instance decidableMachineValid (s : Sys) (i : Op) : Decidable (mutexMachine.valid s i) :=
  inferInstanceAs (Decidable (i.valid s))

/-- Mutexes after `pthread_mutex_init`, conditions after `pthread_cond_init`. -/
structure MutexStart (s : Sys) : Prop where
  mutex : ∀ m, (s.mutex m).pid = 0 ∧ (s.mutex m).nlocks = 0 ∧ s.sems.semcount (.mutex m) = 1
  cond : ∀ c, s.sems.semcount (.cond c) = 0
  waitsem : s.sems.waitsem = fun _ => none
  waiting : s.sems.gWaitingforsemaphore = []
  call : s.call = fun _ => none
  owners : s.owners = fun _ => []
  depth : s.depth = fun _ _ => 0

end NuttxAvr32.Pthread
