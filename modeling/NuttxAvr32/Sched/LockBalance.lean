import NuttxAvr32.Lib.Bracket
import NuttxAvr32.Lib.Runs

/-! # Who locks the scheduler unlocks it

The functions that bracket their work with `sched_lock` and `sched_unlock`, as trees of
their effects: what they read and what they are told by the rest of the system are the
answers to their questions. The functions that they call and that lock themselves are
written out, down to `sem_wait` and `sem_post`.
-/

namespace NuttxAvr32.Sched.LockBalance

open Bracket Runs
open Bracket.Code (repeatWhile Leaves)

/-- What a function asks. The answer is a C `int`, zero for `NULL` and for a test that
fails. -/
inductive Query
  | argument
  | gettcb
  | test
  | allocated
  | result
  | errno
  | block
  | handler
  | semaphoreOp
deriving DecidableEq

abbrev Prog (α : Type) : Type := Code Query Int α

def schedLock : Prog Unit := .lock (.ret ())

def schedUnlock : Prog Unit := .unlock (.ret ())

def ask (q : Query) : Prog Int := .ask q .ret

/-- The call panics, or the task exits. -/
def panic : Prog Int := .stop

abbrev OK : Int := 0
abbrev ERROR : Int := -1
abbrev eintr : Int := 4
abbrev einval : Int := 22
abbrev eperm : Int := 1
abbrev enomem : Int := 12
abbrev ebusy : Int := 16
abbrev eio : Int := 5
abbrev etimedout : Int := 110

/-- The configuration: `CONFIG_PRIORITY_INHERITANCE`, `CONFIG_RR_INTERVAL > 0`; loops turn at
most `turns` times in the part of a run that is looked at. -/
structure Config where
  priorityInheritance : Bool
  roundRobin : Bool
  turns : Nat

section

variable (cfg : Config)

def semWait : Prog Int := do
  if (← ask .argument) = 0 then return ERROR
  if 0 < (← ask .test) then return OK
  if (← ask .test) ≠ 0 then panic
  else if cfg.priorityInheritance then
    schedLock
    let _ ← ask .block
    let e ← ask .errno
    schedUnlock
    return (if e ≠ eintr then OK else ERROR)
  else
    let _ ← ask .block
    let e ← ask .errno
    return (if e ≠ eintr then OK else ERROR)

def semPost : Prog Int := do
  if (← ask .argument) = 0 then return ERROR
  if (← ask .test) = 0 then panic
  else if cfg.priorityInheritance then
    schedLock
    let _ ← ask .result
    schedUnlock
    return OK
  else
    let _ ← ask .result
    return OK

/-- A function that takes no lock but in `sem_wait` and `sem_post`, such as `kmalloc`. -/
def plainCall (q : Query) : Nat → Prog Int
  | 0 => panic
  | n + 1 => do
    let op ← ask .semaphoreOp
    if op = 1 then
      let _ ← semWait cfg
      plainCall q n
    else if op = 2 then
      let _ ← semPost cfg
      plainCall q n
    else ask q

abbrev call (q : Query) : Prog Int := plainCall cfg q cfg.turns

def pthreadTakesemaphore : Prog Int := do
  if (← ask .argument) = 0 then return ERROR
  repeatWhile (do
    if (← semWait cfg) = OK then return false
    return (← ask .errno) = eintr) cfg.turns
  ask .result

def pthreadGivesemaphore : Prog Int := do
  if (← ask .argument) = 0 then return ERROR
  if (← semPost cfg) = OK then return OK
  return ERROR

def sigFindaction : Prog Int := do
  if (← ask .argument) = 0 then return 0
  schedLock
  let sigact ← ask .result
  schedUnlock
  return sigact

def sigQueueaction : Prog Int := do
  schedLock
  let sigact ← sigFindaction
  if sigact ≠ 0 then
    let sigq ← call cfg .allocated
    schedUnlock
    return (if sigq = 0 then ERROR else OK)
  else
    schedUnlock
    return OK

/-- The loop takes signals that are no longer blocked; `received` is `sig_received`. -/
def sigUnmaskpendingsignal (received : Prog Int) : Prog Unit := do
  schedLock
  repeatWhile (do
    if (← ask .test) = 0 then return false
    if (← ask .test) ≠ 0 then
      let _ ← received
      let _ ← call cfg .result
      return true
    else return true) cfg.turns
  schedUnlock

def sigDeliver (received : Prog Int) : Prog Unit := do
  schedLock
  repeatWhile (do
    if (← ask .test) = 0 then return false
    let _ ← ask .handler
    sigUnmaskpendingsignal cfg received
    let _ ← call cfg .result
    return true) cfg.turns
  schedUnlock

/-- `up_schedule_sigaction`: the running task delivers its own signals at once. -/
def upScheduleSigaction (received : Prog Int) : Prog Unit := do
  if (← ask .test) ≠ 0 then sigDeliver cfg received
  else return ()

/-- `n` bounds the depth to which a handler's signals deliver others. -/
def sigReceived : Nat → Prog Int
  | 0 => panic
  | n + 1 => do
    if (← ask .argument) = 0 then return ERROR
    if (← ask .test) ≠ 0 then
      if (← ask .test) ≠ 0 then
        let _ ← ask .result
        return OK
      else if (← call cfg .allocated) = 0 then panic
      else return OK
    else
      let ret ← sigQueueaction cfg
      upScheduleSigaction cfg (sigReceived n)
      let _ ← ask .result
      return ret

def sigMqnotempty : Prog Int := do
  schedLock
  let stcb ← ask .gettcb
  if stcb ≠ 0 ∧ (← ask .test) ≠ 0 then
    let ret ← sigReceived cfg cfg.turns
    schedUnlock
    return ret
  else
    schedUnlock
    return ERROR

def sigqueue (pid signo : Int) : Prog Int := do
  if ¬ (0 ≤ signo ∧ signo ≤ 31) then return ERROR
  schedLock
  let stcb ← ask .gettcb
  if pid = 0 ∨ stcb = 0 then
    schedUnlock
    return ERROR
  let ret ← sigReceived cfg cfg.turns
  schedUnlock
  return ret

def envRelease : Prog Int := do
  schedLock
  let _ ← call cfg .result
  schedUnlock
  return OK

def envShare : Prog Int := do
  schedLock
  let _ ← ask .result
  schedUnlock
  return OK

/-- `timer_deleteall`, the stack, the arguments and the files before the environment. -/
def schedReleasetcb : Prog Int := do
  let _ ← call cfg .result
  let ret ← call cfg .result
  let _ ← envRelease cfg
  let _ ← call cfg .result
  return ret

def taskAssignpid : Prog Int := do
  schedLock
  let found ← ask .test
  if found ≠ 0 then
    schedUnlock
    return OK
  else
    schedUnlock
    return ERROR

def taskSchedsetup : Prog Int := do
  let ret ← taskAssignpid
  if ret = OK then
    let _ ← ask .result
    schedLock
    let _ ← ask .result
    schedUnlock
    return ret
  else return ret

def taskActivate : Prog Int := do
  let _ ← ask .result
  return OK

def taskRestart (self pid : Int) : Prog Int := do
  schedLock
  if pid = 0 ∨ pid = self then return ERROR
  let tcb ← ask .gettcb
  if tcb = 0 then return ERROR
  let _ ← call cfg .result
  let status ← taskActivate
  if status ≠ OK then
    let _ ← schedReleasetcb cfg
    return ERROR
  schedUnlock
  return OK

def taskDelete (self pid : Int) : Prog Int := do
  if pid = 0 ∨ pid = self then panic
  else
    schedLock
    let dtcb ← ask .gettcb
    if dtcb = 0 then
      schedUnlock
      return ERROR
    if (← ask .test) ≠ 0 then
      schedUnlock
      panic
    else
      let _ ← ask .result
      schedUnlock
      let _ ← call cfg .result
      let _ ← schedReleasetcb cfg
      return ERROR

def schedGetparam (self pid : Int) : Prog Int := do
  if (← ask .argument) = 0 then return ERROR
  if pid = 0 ∨ pid = self then return OK
  schedLock
  let tcb ← ask .gettcb
  schedUnlock
  return (if tcb = 0 then ERROR else OK)

abbrev schedFifo : Int := 1
abbrev schedRr : Int := 2

def schedSetscheduler (policy : Int) : Prog Int := do
  if policy ≠ schedFifo ∧ ¬ (cfg.roundRobin ∧ policy = schedRr) then return ERROR
  let tcb ← ask .gettcb
  if tcb = 0 then return ERROR
  schedLock
  let ret ← ask .result
  schedUnlock
  return (if ret ≠ OK then ERROR else schedFifo)

def mqOpen : Prog Int := do
  if (← ask .argument) = 0 then return ERROR
  schedLock
  if 0 < (← ask .argument) then
    let msgq ← ask .result
    if msgq ≠ 0 then
      if (← ask .argument) ≠ 0 then
        let mqdes ← call cfg .allocated
        schedUnlock
        return (if mqdes = 0 then ERROR else mqdes)
      else
        schedUnlock
        return ERROR
    else if (← ask .argument) ≠ 0 then
      if (← call cfg .allocated) ≠ 0 then
        let mqdes ← call cfg .allocated
        if mqdes ≠ 0 then
          let _ ← ask .result
          schedUnlock
          return mqdes
        else
          let _ ← call cfg .result
          schedUnlock
          return ERROR
      else
        schedUnlock
        return ERROR
    else
      schedUnlock
      return ERROR
  else
    schedUnlock
    return ERROR

/-- `mq_verifysend` and `mq_verifyreceive` with the test of `abstime`. -/
def mqVerify : Prog Int := do
  if (← ask .argument) = 0 then return ERROR
  if (← ask .argument) = 0 then return ERROR
  return OK

def mqMsgalloc : Prog Int := do
  let mqmsg ← ask .result
  if mqmsg = 0 then
    let mqmsg ← call cfg .allocated
    if mqmsg = 0 then panic
    else return mqmsg
  else return mqmsg

def mqWaitsend : Prog Int := do
  if (← ask .test) = 0 then return OK
  if (← ask .argument) ≠ 0 then return ERROR
  repeatWhile (do
    if (← ask .test) = 0 then return false
    let _ ← ask .block
    return (← ask .errno) = 0) cfg.turns
  ask .result

def mqDosend : Prog Int := do
  schedLock
  if (← ask .test) ≠ 0 then
    let _ ← sigMqnotempty cfg
    let _ ← ask .result
    schedUnlock
    return OK
  else
    let _ ← ask .result
    schedUnlock
    return OK

def mqWaitreceive : Prog Int := do
  repeatWhile (do
    if (← ask .test) ≠ 0 then return false
    if (← ask .argument) ≠ 0 then return false
    let _ ← ask .block
    return (← ask .errno) = 0) cfg.turns
  ask .result

def mqDoreceive : Prog Int := do
  let _ ← call cfg .result
  let _ ← ask .result
  ask .result

def mqTimedsend : Prog Int := do
  if (← mqVerify) ≠ OK then return ERROR
  let wdog ← ask .allocated
  if wdog = 0 then return ERROR
  schedLock
  if (← ask .test) ≠ 0 then
    let mqmsg ← mqMsgalloc cfg
    if mqmsg ≠ 0 then
      let ret ← mqDosend cfg
      schedUnlock
      let _ ← ask .result
      return ret
    else
      schedUnlock
      let _ ← ask .result
      return ERROR
  else if (← ask .result) ≠ OK then
    schedUnlock
    let _ ← ask .result
    return ERROR
  else
    let ret ← mqWaitsend cfg
    if ret = OK then
      let mqmsg ← mqMsgalloc cfg
      if mqmsg ≠ 0 then
        let ret ← mqDosend cfg
        schedUnlock
        let _ ← ask .result
        return ret
      else
        schedUnlock
        let _ ← ask .result
        return ret
    else
      schedUnlock
      let _ ← ask .result
      return ret

def mqTimedreceive : Prog Int := do
  if (← mqVerify) ≠ OK then return ERROR
  let wdog ← ask .allocated
  if wdog = 0 then return ERROR
  schedLock
  let late ← if (← ask .test) ≠ 0 then ask .result else pure OK
  if late ≠ OK then
    schedUnlock
    let _ ← ask .result
    return ERROR
  let mqmsg ← mqWaitreceive cfg
  if mqmsg ≠ 0 then
    let ret ← mqDoreceive cfg
    schedUnlock
    let _ ← ask .result
    return ret
  else
    schedUnlock
    let _ ← ask .result
    return ERROR

def pthreadCondWait : Prog Int := do
  if (← ask .argument) = 0 then return einval
  if (← ask .test) = 0 then return eperm
  schedLock
  let given ← pthreadGivesemaphore cfg
  let taken ← pthreadTakesemaphore cfg
  schedUnlock
  let again ← pthreadTakesemaphore cfg
  return (if given = OK ∧ taken = OK ∧ again = OK then OK else ERROR)

/-- `clock_abstime2ticks(CLOCK_REALTIME, abstime, &ticks)`: `clock_gettime` fails for other
clocks only, and `clock_time2ticks` never. -/
def clockAbstime2ticks : Prog (Int × Int) := do
  let ticks ← ask .result
  return (OK, ticks)

def pthreadCondTimedwait : Prog Int := do
  if (← ask .argument) = 0 then return einval
  if (← ask .test) = 0 then return eperm
  if (← ask .argument) = 0 then pthreadCondWait cfg
  else
    let wdog ← ask .allocated
    if wdog = 0 then return einval
    schedLock
    let (err, ticks) ← clockAbstime2ticks
    if err ≠ OK then
      -- no `sched_unlock` here
      let _ ← ask .result
      return err
    if ticks ≤ 0 then
      schedUnlock
      let _ ← ask .result
      return etimedout
    let ret ← pthreadGivesemaphore cfg
    if ret ≠ OK then
      let _ ← pthreadTakesemaphore cfg
      schedUnlock
      let _ ← ask .result
      return ret
    let status ← semWait cfg
    let e ← ask .errno
    let again ← pthreadTakesemaphore cfg
    schedUnlock
    let _ ← ask .result
    return (if status ≠ OK then if e = eintr then etimedout else einval else again)

def pthreadCreate (self : Int) : Prog Int := do
  let ptcb ← call cfg .allocated
  if ptcb = 0 then return enomem
  let status ← call cfg .result
  if status ≠ OK then
    let _ ← schedReleasetcb cfg
    return status
  let _ ← envShare
  let pjoin ← call cfg .allocated
  if pjoin = 0 then
    let _ ← schedReleasetcb cfg
    return enomem
  let status ← call cfg .result
  if status ≠ OK then
    let _ ← schedReleasetcb cfg
    let _ ← call cfg .result
    return enomem
  let _ ← schedGetparam self 0
  let status ← taskSchedsetup
  if status ≠ OK then
    let _ ← schedReleasetcb cfg
    let _ ← call cfg .result
    return ebusy
  let status ← ask .result
  schedLock
  if status = OK then
    let _ ← taskActivate
    let _ ← pthreadTakesemaphore cfg
    schedUnlock
    let _ ← call cfg .result
    return OK
  else
    schedUnlock
    let _ ← schedReleasetcb cfg
    let _ ← call cfg .result
    return eio

def pthreadBarrierWait : Prog Int := do
  if (← ask .argument) = 0 then return einval
  schedLock
  if (← ask .result) ≠ OK then
    schedUnlock
    return einval
  if (← ask .test) ≠ 0 then
    repeatWhile (do
      if 0 ≤ (← ask .test) then return false
      let _ ← semPost cfg
      return true) cfg.turns
    schedUnlock
    return 1
  else
    repeatWhile (do
      if (← semWait cfg) = OK then return false
      return (← ask .errno) = eintr) cfg.turns
    let errornumber ← ask .result
    schedUnlock
    return errornumber

end

section

variable {cfg : Config} {ok : Query → Int → Prop} {α β : Type} {d : Nat} {f : Int → Prog β}
  {g : Unit → Prog β} {p p' : Prog β} {c : Prop} [Decidable c]

@[simp] theorem leaves_lock_bind : Leaves ok (schedLock >>= g) d ↔ Leaves ok (g ()) (d + 1) := Iff.rfl

@[simp] theorem leaves_unlock_bind : Leaves ok (schedUnlock >>= g) (d + 1) ↔ Leaves ok (g ()) d :=
  Iff.rfl

@[simp] theorem leaves_ask_bind {q : Query} :
    Leaves ok (ask q >>= f) d ↔ ∀ a, ok q a → Leaves ok (f a) d := Iff.rfl

@[simp] theorem leaves_ask {q : Query} : Leaves ok (ask q) d ↔ ∀ a, ok q a → d = 0 := Iff.rfl

@[simp] theorem leaves_panic : Leaves ok panic d := trivial

@[simp] theorem leaves_ite : Leaves ok (if c then p else p') d ↔
    (c → Leaves ok p d) ∧ (¬ c → Leaves ok p' d) := by
  split <;> simp_all

theorem semWait_leaves : Leaves ok (semWait cfg) 0 := by
  simp only [semWait, leaves_ask_bind, leaves_ite, leaves_lock_bind, leaves_unlock_bind]
  simp

theorem semPost_leaves : Leaves ok (semPost cfg) 0 := by
  simp only [semPost, leaves_ask_bind, leaves_ite, leaves_lock_bind, leaves_unlock_bind]
  simp

theorem plainCall_leaves (q : Query) (n : Nat) : Leaves ok (plainCall cfg q n) 0 := by
  induction n with
  | zero => trivial
  | succ n ih =>
    simp only [plainCall, leaves_ask_bind, leaves_ite]
    intro op _
    refine ⟨fun _ => semWait_leaves.call fun _ => ih, fun _ => ⟨fun _ => ?_, fun _ => ?_⟩⟩
    · exact semPost_leaves.call fun _ => ih
    · simp

theorem call_leaves (q : Query) : Leaves ok (call cfg q) 0 := plainCall_leaves q _

theorem takesemaphore_leaves : Leaves ok (pthreadTakesemaphore cfg) 0 := by
  simp only [pthreadTakesemaphore, leaves_ask_bind, leaves_ite]
  refine fun _ _ => ⟨fun _ => rfl, fun _ => ?_⟩
  refine (Leaves.repeatWhile ?_ _).call fun _ => by simp
  apply semWait_leaves.call
  simp

theorem givesemaphore_leaves : Leaves ok (pthreadGivesemaphore cfg) 0 := by
  simp only [pthreadGivesemaphore, leaves_ask_bind, leaves_ite]
  refine fun _ _ => ⟨fun _ => rfl, fun _ => ?_⟩
  apply semPost_leaves.call
  simp

theorem findaction_leaves : Leaves ok sigFindaction 0 := by
  simp [sigFindaction]

theorem queueaction_leaves : Leaves ok (sigQueueaction cfg) 0 := by
  simp only [sigQueueaction, leaves_lock_bind]
  apply findaction_leaves.call
  intro sigact
  simp only [leaves_ite, leaves_unlock_bind]
  refine ⟨fun _ => (call_leaves _).call fun _ => ?_, fun _ => rfl⟩
  simp

theorem unmask_leaves {received : Prog Int} (hr : Leaves ok received 0) :
    Leaves ok (sigUnmaskpendingsignal cfg received) 0 := by
  simp only [sigUnmaskpendingsignal, leaves_lock_bind]
  refine (Leaves.repeatWhile ?_ _).call fun _ => rfl
  simp only [leaves_ask_bind, leaves_ite]
  refine fun _ _ => ⟨fun _ => rfl, fun _ _ _ => ⟨fun _ => ?_, fun _ => rfl⟩⟩
  exact hr.call fun _ => (call_leaves _).call fun _ => rfl

theorem deliver_leaves {received : Prog Int} (hr : Leaves ok received 0) :
    Leaves ok (sigDeliver cfg received) 0 := by
  simp only [sigDeliver, leaves_lock_bind]
  refine (Leaves.repeatWhile ?_ _).call fun _ => rfl
  simp only [leaves_ask_bind, leaves_ite]
  refine fun _ _ => ⟨fun _ => rfl, fun _ _ _ => ?_⟩
  exact (unmask_leaves hr).call fun _ => (call_leaves _).call fun _ => rfl

theorem received_leaves (n : Nat) : Leaves ok (sigReceived cfg n) 0 := by
  induction n with
  | zero => trivial
  | succ n ih =>
    have hschedule : Leaves ok (upScheduleSigaction cfg (sigReceived cfg n)) 0 := by
      simp only [upScheduleSigaction, leaves_ask_bind, leaves_ite]
      exact fun _ _ => ⟨fun _ => deliver_leaves ih, fun _ => rfl⟩
    simp only [sigReceived, leaves_ask_bind, leaves_ite]
    refine fun _ _ => ⟨fun _ => rfl, fun _ _ _ => ⟨fun _ _ _ => ⟨fun _ => ?_, fun _ => ?_⟩,
      fun _ => ?_⟩⟩
    · simp
    · refine (call_leaves _).call fun _ => ?_
      simp
    · refine queueaction_leaves.call fun _ => hschedule.call fun _ => ?_
      simp

theorem mqnotempty_leaves : Leaves ok (sigMqnotempty cfg) 0 := by
  simp only [sigMqnotempty, leaves_lock_bind, leaves_ask_bind, leaves_ite, leaves_unlock_bind]
  refine fun _ _ _ _ => ⟨fun _ => (received_leaves _).call fun _ => ?_, fun _ => rfl⟩
  simp

theorem sigqueue_leaves (pid signo : Int) : Leaves ok (sigqueue cfg pid signo) 0 := by
  simp only [sigqueue, leaves_lock_bind, leaves_ask_bind, leaves_ite, leaves_unlock_bind]
  refine ⟨fun _ => rfl, fun _ _ _ => ⟨fun _ => rfl, fun _ => ?_⟩⟩
  refine (received_leaves _).call fun _ => ?_
  simp

theorem envRelease_leaves : Leaves ok (envRelease cfg) 0 := by
  simp only [envRelease, leaves_lock_bind]
  exact (call_leaves _).call fun _ => rfl

theorem releasetcb_leaves : Leaves ok (schedReleasetcb cfg) 0 := by
  unfold schedReleasetcb
  refine (call_leaves _).call fun _ => (call_leaves _).call fun _ => ?_
  exact envRelease_leaves.call fun _ => (call_leaves _).call fun _ => rfl

theorem schedsetup_leaves : Leaves ok taskSchedsetup 0 := by
  have hassign : Leaves ok taskAssignpid 0 := by simp [taskAssignpid]
  unfold taskSchedsetup
  refine hassign.call fun _ => ?_
  simp

@[simp] theorem leaves_activate_bind : Leaves ok (taskActivate >>= f) d ↔
    ∀ a, ok .result a → Leaves ok (f OK) d := Iff.rfl

theorem getparam_leaves (self pid : Int) : Leaves ok (schedGetparam self pid) 0 := by
  simp [schedGetparam]

theorem restart_leaves {self pid : Int} (hpid : pid ≠ 0 ∧ pid ≠ self)
    (hok : ∀ a, ok .gettcb a → a ≠ 0) : Leaves ok (taskRestart cfg self pid) 0 := by
  have hself : ¬ (pid = 0 ∨ pid = self) := by tauto
  simp only [taskRestart, leaves_lock_bind, leaves_ite, leaves_ask_bind]
  refine ⟨fun h => absurd h hself, fun _ tcb htcb => ⟨fun h => absurd h (hok tcb htcb), fun _ => ?_⟩⟩
  refine (call_leaves _).call fun _ => ?_
  simp

theorem delete_leaves (self pid : Int) : Leaves ok (taskDelete cfg self pid) 0 := by
  simp only [taskDelete, leaves_lock_bind, leaves_ite, leaves_ask_bind, leaves_unlock_bind]
  refine ⟨fun _ => trivial, fun _ _ _ => ⟨fun _ => rfl, fun _ _ _ => ⟨fun _ => trivial, fun _ _ _ => ?_⟩⟩⟩
  exact (call_leaves _).call fun _ => releasetcb_leaves.call fun _ => rfl

theorem setscheduler_leaves (policy : Int) : Leaves ok (schedSetscheduler cfg policy) 0 := by
  simp [schedSetscheduler]

theorem mqOpen_leaves : Leaves ok (mqOpen cfg) 0 := by
  simp only [mqOpen, leaves_lock_bind, leaves_ite, leaves_ask_bind, leaves_unlock_bind]
  refine fun _ _ => ⟨fun _ => rfl, fun _ _ _ => ⟨fun _ _ _ => ⟨fun _ _ _ => ⟨fun _ => ?_,
    fun _ => rfl⟩, fun _ _ _ => ⟨fun _ => ?_, fun _ => rfl⟩⟩, fun _ => rfl⟩⟩
  · refine (call_leaves _).call fun _ => ?_
    simp
  · refine (call_leaves _).call fun _ => ?_
    simp only [leaves_ite, leaves_unlock_bind]
    refine ⟨fun _ => (call_leaves _).call fun _ => ?_, fun _ => rfl⟩
    simp only [leaves_ite, leaves_ask_bind, leaves_unlock_bind]
    refine ⟨fun _ _ _ => rfl, fun _ => (call_leaves _).call fun _ => rfl⟩

theorem verify_leaves : Leaves ok mqVerify 0 := by simp [mqVerify]

theorem msgalloc_leaves : Leaves ok (mqMsgalloc cfg) 0 := by
  simp only [mqMsgalloc, leaves_ask_bind, leaves_ite]
  refine fun _ _ => ⟨fun _ => (call_leaves _).call fun _ => ?_, fun _ => rfl⟩
  simp

theorem waitsend_leaves : Leaves ok (mqWaitsend cfg) 0 := by
  simp only [mqWaitsend, leaves_ask_bind, leaves_ite]
  refine fun _ _ => ⟨fun _ => rfl, fun _ _ _ => ⟨fun _ => rfl, fun _ => ?_⟩⟩
  refine (Leaves.repeatWhile ?_ _).call fun _ => ?_
  · simp
  · simp

theorem dosend_leaves : Leaves ok (mqDosend cfg) 0 := by
  simp only [mqDosend, leaves_lock_bind, leaves_ask_bind, leaves_ite]
  refine fun _ _ => ⟨fun _ => mqnotempty_leaves.call fun _ => ?_, fun _ => ?_⟩
  · simp
  · simp

theorem waitreceive_leaves : Leaves ok (mqWaitreceive cfg) 0 := by
  unfold mqWaitreceive
  refine (Leaves.repeatWhile ?_ _).call fun _ => ?_
  · simp
  · simp

theorem doreceive_leaves : Leaves ok (mqDoreceive cfg) 0 := by
  unfold mqDoreceive
  refine (call_leaves _).call fun _ => ?_
  simp

theorem sent_leaves (ret : Int) : Leaves ok (do
    let mqmsg ← mqMsgalloc cfg
    if mqmsg ≠ 0 then
      let ret ← mqDosend cfg
      schedUnlock
      let _ ← ask .result
      return ret
    else
      schedUnlock
      let _ ← ask .result
      return ret) 1 := by
  refine msgalloc_leaves.call fun _ => ?_
  simp only [leaves_ite, leaves_unlock_bind, leaves_ask_bind]
  exact ⟨fun _ => dosend_leaves.call fun _ _ _ => rfl, fun _ _ _ => rfl⟩

theorem timedsend_leaves : Leaves ok (mqTimedsend cfg) 0 := by
  unfold mqTimedsend
  refine verify_leaves.call fun _ => ?_
  simp only [leaves_ite, leaves_lock_bind, leaves_ask_bind, leaves_unlock_bind]
  refine ⟨fun _ => rfl, fun _ _ _ => ⟨fun _ => rfl, fun _ _ _ => ⟨fun _ => sent_leaves _,
    fun _ _ _ => ⟨fun _ _ _ => rfl, fun _ => ?_⟩⟩⟩⟩
  refine waitsend_leaves.call fun ret => ?_
  simp only [leaves_ite, leaves_unlock_bind, leaves_ask_bind]
  exact ⟨fun _ => sent_leaves ret, fun _ _ _ => rfl⟩

theorem timedreceive_leaves : Leaves ok (mqTimedreceive cfg) 0 := by
  unfold mqTimedreceive
  refine verify_leaves.call fun _ => ?_
  simp only [leaves_ite, leaves_lock_bind, leaves_ask_bind]
  refine ⟨fun _ => rfl, fun _ _ _ => ⟨fun _ => rfl, fun _ _ _ => ?_⟩⟩
  have hrest : ∀ late : Int, Leaves ok (do
      if late ≠ OK then
        schedUnlock
        let _ ← ask .result
        return ERROR
      let mqmsg ← mqWaitreceive cfg
      if mqmsg ≠ 0 then
        let ret ← mqDoreceive cfg
        schedUnlock
        let _ ← ask .result
        return ret
      else
        schedUnlock
        let _ ← ask .result
        return ERROR) 1 := by
    intro late
    simp only [leaves_ite, leaves_unlock_bind, leaves_ask_bind]
    refine ⟨fun _ _ _ => rfl, fun _ => waitreceive_leaves.call fun _ => ?_⟩
    simp only [leaves_ite, leaves_unlock_bind, leaves_ask_bind]
    exact ⟨fun _ => doreceive_leaves.call fun _ _ _ => rfl, fun _ _ _ => rfl⟩
  exact ⟨fun _ late _ => leaves_ite.mp (hrest late), fun _ => hrest OK⟩

theorem condWait_leaves : Leaves ok (pthreadCondWait cfg) 0 := by
  simp only [pthreadCondWait, leaves_ite, leaves_lock_bind, leaves_ask_bind]
  refine fun _ _ => ⟨fun _ => rfl, fun _ _ _ => ⟨fun _ => rfl, fun _ => ?_⟩⟩
  refine givesemaphore_leaves.call fun _ => takesemaphore_leaves.call fun _ => ?_
  exact takesemaphore_leaves.call fun _ => rfl

@[simp] theorem leaves_abstime_bind {h : Int × Int → Prog β} :
    Leaves ok (clockAbstime2ticks >>= h) d ↔ ∀ a, ok .result a → Leaves ok (h (OK, a)) d := Iff.rfl

theorem condTimedwait_leaves : Leaves ok (pthreadCondTimedwait cfg) 0 := by
  simp only [pthreadCondTimedwait, leaves_ite, leaves_lock_bind, leaves_ask_bind,
    leaves_abstime_bind, leaves_unlock_bind]
  refine fun _ _ => ⟨fun _ => rfl, fun _ _ _ => ⟨fun _ => rfl, fun _ _ _ => ⟨fun _ => condWait_leaves,
    fun _ _ _ => ⟨fun _ => rfl, fun _ _ _ => ⟨fun h => absurd rfl h, fun _ => ⟨fun _ _ _ => rfl,
      fun _ => ?_⟩⟩⟩⟩⟩⟩
  refine givesemaphore_leaves.call fun _ => ?_
  simp only [leaves_ite]
  refine ⟨fun _ => takesemaphore_leaves.call fun _ _ _ => rfl, fun _ => semWait_leaves.call fun _ => ?_⟩
  simp only [leaves_ask_bind]
  exact fun _ _ => takesemaphore_leaves.call fun _ _ _ => rfl

theorem create_leaves (self : Int) : Leaves ok (pthreadCreate cfg self) 0 := by
  have hfail : ∀ e : Int, Leaves ok (do
      let _ ← schedReleasetcb cfg
      let _ ← call cfg .result
      return e) 0 :=
    fun e => releasetcb_leaves.call fun _ => (call_leaves _).call fun _ => rfl
  have hshare : Leaves ok envShare 0 := by simp [envShare]
  unfold pthreadCreate
  refine (call_leaves _).call fun _ => ?_
  simp only [leaves_ite]
  refine ⟨fun _ => rfl, fun _ => (call_leaves _).call fun _ => ?_⟩
  simp only [leaves_ite]
  refine ⟨fun _ => releasetcb_leaves.call fun _ => rfl, fun _ => hshare.call fun _ =>
    (call_leaves _).call fun _ => ?_⟩
  simp only [leaves_ite]
  refine ⟨fun _ => releasetcb_leaves.call fun _ => rfl, fun _ => (call_leaves _).call fun _ => ?_⟩
  simp only [leaves_ite]
  refine ⟨fun _ => hfail _, fun _ => (getparam_leaves _ _).call fun _ =>
    schedsetup_leaves.call fun _ => ?_⟩
  simp only [leaves_ite, leaves_ask_bind, leaves_lock_bind, leaves_activate_bind,
    leaves_unlock_bind]
  refine ⟨fun _ => hfail _, fun _ _ _ => ⟨fun _ _ _ => ?_, fun _ => hfail _⟩⟩
  exact takesemaphore_leaves.call fun _ => (call_leaves _).call fun _ => rfl

theorem barrier_leaves : Leaves ok (pthreadBarrierWait cfg) 0 := by
  simp only [pthreadBarrierWait, leaves_ite, leaves_ask_bind, leaves_lock_bind, leaves_unlock_bind]
  refine fun _ _ => ⟨fun _ => rfl, fun _ _ _ => ⟨fun _ => rfl, fun _ _ _ => ⟨fun _ => ?_, fun _ => ?_⟩⟩⟩
  · refine (Leaves.repeatWhile ?_ _).call fun _ => rfl
    simp only [leaves_ite, leaves_ask_bind]
    exact fun _ _ => ⟨fun _ => rfl, fun _ => semPost_leaves.call fun _ => rfl⟩
  · refine (Leaves.repeatWhile ?_ _).call fun _ _ _ => rfl
    refine semWait_leaves.call fun _ => ?_
    simp

end

/-- The calls, with the arguments that decide which way they go. -/
inductive Fn
  | taskRestart (pid : Int)
  | taskDelete (pid : Int)
  | schedSetscheduler (policy : Int)
  | sigqueue (pid signo : Int)
  | mqOpen
  | mqTimedsend
  | mqTimedreceive
  | pthreadCondWait
  | pthreadCondTimedwait
  | pthreadCreate
  | pthreadBarrierWait
deriving DecidableEq

def Fn.code (cfg : Config) (self : Int) : Fn → Prog Int
  | taskRestart pid => LockBalance.taskRestart cfg self pid
  | taskDelete pid => LockBalance.taskDelete cfg self pid
  | schedSetscheduler policy => LockBalance.schedSetscheduler cfg policy
  | sigqueue pid signo => LockBalance.sigqueue cfg pid signo
  | mqOpen => LockBalance.mqOpen cfg
  | mqTimedsend => LockBalance.mqTimedsend cfg
  | mqTimedreceive => LockBalance.mqTimedreceive cfg
  | pthreadCondWait => LockBalance.pthreadCondWait cfg
  | pthreadCondTimedwait => LockBalance.pthreadCondTimedwait cfg
  | pthreadCreate => LockBalance.pthreadCreate cfg self
  | pthreadBarrierWait => LockBalance.pthreadBarrierWait cfg

/-- Each task is in at most one call; `code` is what is left of it and `entry` the lock count
with which it began. -/
structure Sys where
  running : Nat
  pid : Nat → Int
  lockcount : Nat → Nat
  calls : Nat → Option Fn
  code : Nat → Prog Int
  entry : Nat → Nat

/-- The running task begins a call, goes on with it, is given the result, delivers signals
before it goes on, or locks and unlocks the scheduler for itself; or another task runs. -/
inductive Op
  | switch (t : Nat)
  | begin (fn : Fn)
  | step (answer : Int)
  | finish
  | deliver
  | lock
  | unlock
deriving DecidableEq

abbrev maxLockCount : Nat := 127

namespace Sys

variable (cfg : Config) (s : Sys)

def setCode (p : Prog Int) : Sys := { s with code := Function.update s.code s.running p }

def setLockcount (n : Nat) : Sys :=
  { s with lockcount := Function.update s.lockcount s.running n }

def setCall (fn : Option Fn) : Sys := { s with calls := Function.update s.calls s.running fn }

def begin (fn : Fn) : Option Sys :=
  match s.calls s.running with
  | some _ => none
  | none =>
    let s' := (s.setCall (some fn)).setCode (fn.code cfg (s.pid s.running))
    some { s' with entry := Function.update s.entry s.running (s.lockcount s.running) }

def step (answer : Int) : Option Sys :=
  match s.calls s.running with
  | none => none
  | some _ =>
    ((s.code s.running).step maxLockCount answer (s.lockcount s.running)).map fun r =>
      (s.setCode r.1).setLockcount r.2

def finish : Option Sys :=
  match s.calls s.running, s.code s.running with
  | some _, .ret _ => some (s.setCall none)
  | _, _ => none

/-- The signals are delivered in the middle of a call, by `sig_deliver`. -/
def deliver : Option Sys :=
  match s.calls s.running with
  | none => none
  | some _ =>
    some (s.setCode (sigDeliver cfg (sigReceived cfg cfg.turns) >>= fun _ => s.code s.running))

end Sys

namespace Op

def exec (cfg : Config) : Op → Sys → Option Sys
  | switch t, s => some { s with running := t }
  | begin fn, s => s.begin cfg fn
  | step answer, s => s.step answer
  | finish, s => s.finish
  | deliver, s => s.deliver cfg
  | lock, s =>
    if s.calls s.running = none ∧ s.lockcount s.running < maxLockCount then
      some (s.setLockcount (s.lockcount s.running + 1))
    else none
  | unlock, s =>
    if s.calls s.running = none then some (s.setLockcount (s.lockcount s.running - 1)) else none

end Op

/-- The answers that a call of `task_restart` can do with: there is a task with the process
id. -/
def Fn.finds : Fn → Query → Int → Prop
  | taskRestart _, q, a => q = .gettcb → a ≠ 0
  | _, _, _ => True

instance decidableFinds (fn : Fn) (q : Query) (a : Int) : Decidable (fn.finds q a) :=
  match fn with
  | .taskRestart _ => inferInstanceAs (Decidable (q = .gettcb → a ≠ 0))
  | .taskDelete _ | .schedSetscheduler _ | .sigqueue _ _ | .mqOpen | .mqTimedsend
  | .mqTimedreceive | .pthreadCondWait | .pthreadCondTimedwait | .pthreadCreate
  | .pthreadBarrierWait => .isTrue trivial

/-- `task_restart` is not called for the caller itself. -/
def Fn.other (self : Int) : Fn → Prop
  | taskRestart pid => pid ≠ 0 ∧ pid ≠ self
  | _ => True

instance decidableOther (self : Int) (fn : Fn) : Decidable (fn.other self) :=
  match fn with
  | .taskRestart pid => inferInstanceAs (Decidable (pid ≠ 0 ∧ pid ≠ self))
  | .taskDelete _ | .schedSetscheduler _ | .sigqueue _ _ | .mqOpen | .mqTimedsend
  | .mqTimedreceive | .pthreadCondWait | .pthreadCondTimedwait | .pthreadCreate
  | .pthreadBarrierWait => .isTrue trivial

def question : Prog Int → Option Query
  | .ask q _ => some q
  | _ => none

/-- Whatever `task_restart` is asked to restart is another task, and there is one. -/
def Op.keeps (s : Sys) : Op → Prop
  | begin fn => fn.other (s.pid s.running)
  | step answer => ∀ fn ∈ s.calls s.running, ∀ q ∈ question (s.code s.running), fn.finds q answer
  | _ => True

instance decidableLockKeeps (s : Sys) (i : Op) : Decidable (i.keeps s) :=
  match i with
  | .begin fn => decidableOther (s.pid s.running) fn
  | .step answer => inferInstanceAs (Decidable (∀ fn ∈ s.calls s.running,
      ∀ q ∈ question (s.code s.running), fn.finds q answer))
  | .switch _ | .finish | .deliver | .lock | .unlock => .isTrue trivial

def lockMachine (cfg : Config) : Machine Sys Op where
  valid _ _ := True
  exec s i := i.exec cfg s

instance decidableLockMachine (cfg : Config) (s : Sys) (i : Op) :
    Decidable ((lockMachine cfg).valid s i) := .isTrue trivial

def LockStart (s : Sys) : Prop := ∀ t, s.calls t = none

def Balanced (s : Sys) : Prop :=
  ∀ t fn ret, s.calls t = some fn → s.code t = .ret ret → s.lockcount t = s.entry t

def LockInv (s : Sys) : Prop :=
  ∀ t fn, s.calls t = some fn →
    ∃ d, Leaves fn.finds (s.code t) d ∧ s.lockcount t = s.entry t + d

section

variable {cfg : Config} {s s' : Sys} {i : Op}

theorem code_leaves {self : Int} {fn : Fn} (h : fn.other self) :
    Leaves fn.finds (fn.code cfg self) 0 := by
  cases fn with
  | taskRestart pid => exact restart_leaves h fun a ha => ha rfl
  | taskDelete pid => exact delete_leaves _ _
  | schedSetscheduler policy => exact setscheduler_leaves _
  | sigqueue pid signo => exact sigqueue_leaves _ _
  | mqOpen => exact mqOpen_leaves
  | mqTimedsend => exact timedsend_leaves
  | mqTimedreceive => exact timedreceive_leaves
  | pthreadCondWait => exact condWait_leaves
  | pthreadCondTimedwait => exact condTimedwait_leaves
  | pthreadCreate => exact create_leaves _
  | pthreadBarrierWait => exact barrier_leaves

theorem LockInv.of_running (I : LockInv s)
    (hother : ∀ t, t ≠ s.running → s'.calls t = s.calls t ∧ s'.code t = s.code t ∧
      s'.lockcount t = s.lockcount t ∧ s'.entry t = s.entry t)
    (hself : ∀ fn, s'.calls s.running = some fn → ∃ d,
      Leaves fn.finds (s'.code s.running) d ∧
        s'.lockcount s.running = s'.entry s.running + d) : LockInv s' := by
  intro t fn ht
  by_cases h : t = s.running
  · subst h
    exact hself fn ht
  · obtain ⟨h1, h2, h3, h4⟩ := hother t h
    rw [h1] at ht
    rw [h2, h3, h4]
    exact I t fn ht

theorem LockInv.exec (I : LockInv s) (hk : i.keeps s) (he : i.exec cfg s = some s') :
    LockInv s' := by
  cases i with
  | switch t =>
    cases he
    exact I
  | begin fn =>
    simp only [Op.exec, Sys.begin] at he
    split at he
    · cases he
    · cases he
      refine I.of_running (fun t ht => ?_) fun fn' hfn => ⟨0, ?_, ?_⟩
      · simp [Sys.setCode, Sys.setCall, ht]
      · simp only [Sys.setCode, Sys.setCall, Function.update_self] at hfn ⊢
        cases hfn
        exact code_leaves hk
      · simp [Sys.setCode, Sys.setCall]
  | step answer =>
    simp only [Op.exec, Sys.step] at he
    split at he
    · cases he
    · rename_i fn hfn
      obtain ⟨⟨p', c'⟩, hstep, rfl⟩ := Option.map_eq_some_iff.mp he
      obtain ⟨d, hd, hc⟩ := I s.running fn hfn
      have hans : ∀ q k, s.code s.running = .ask q k → fn.finds q answer := by
        intro q k hq
        refine hk fn hfn q ?_
        rw [hq]
        rfl
      obtain ⟨d', hd', hc'⟩ := hd.step hc hans hstep
      refine I.of_running (fun t ht => ?_) fun fn' hfn' => ⟨d', ?_, ?_⟩
      · simp [Sys.setCode, Sys.setLockcount, ht]
      · have hsame : s.calls s.running = some fn' := hfn'
        rw [hfn] at hsame
        cases hsame
        simpa [Sys.setCode, Sys.setLockcount] using hd'
      · simpa [Sys.setCode, Sys.setLockcount] using hc'
  | finish =>
    simp only [Op.exec, Sys.finish] at he
    split at he
    · cases he
      refine I.of_running (fun t ht => ?_) fun fn' hfn' => ?_
      · simp [Sys.setCall, ht]
      · simp [Sys.setCall] at hfn'
    · cases he
  | deliver =>
    simp only [Op.exec, Sys.deliver] at he
    split at he
    · cases he
    · rename_i fn hfn
      cases he
      obtain ⟨d, hd, hc⟩ := I s.running fn hfn
      refine I.of_running (fun t ht => ?_) fun fn' hfn' => ⟨d, ?_, hc⟩
      · simp [Sys.setCode, ht]
      · have hsame : s.calls s.running = some fn' := hfn'
        rw [hfn] at hsame
        cases hsame
        simp only [Sys.setCode, Function.update_self]
        exact (deliver_leaves (received_leaves _)).call fun _ => hd
  | lock =>
    simp only [Op.exec] at he
    split at he
    · rename_i hfree
      cases he
      refine I.of_running (fun t ht => ?_) fun fn' hfn' => ?_
      · simp [Sys.setLockcount, ht]
      · have hsame : s.calls s.running = some fn' := hfn'
        rw [hfree.1] at hsame
        cases hsame
    · cases he
  | unlock =>
    simp only [Op.exec] at he
    split at he
    · rename_i hfree
      cases he
      refine I.of_running (fun t ht => ?_) fun fn' hfn' => ?_
      · simp [Sys.setLockcount, ht]
      · have hsame : s.calls s.running = some fn' := hfn'
        rw [hfree] at hsame
        cases hsame
    · cases he

theorem LockInv.balanced (I : LockInv s) : Balanced s := by
  intro t fn ret ht hret
  obtain ⟨d, hd, hc⟩ := I t fn ht
  rw [hret] at hd
  have h0 : d = 0 := hd
  rw [hc, h0, Nat.add_zero]

end

/-- Whatever the tasks do in between, a call ends with the lock count with which it began. -/
theorem locks_balanced {cfg : Config} {s : Sys}
    (h : Reach (lockMachine cfg) LockStart (fun s i => i.keeps s) s) : Balanced s := by
  refine LockInv.balanced (h.invariant (fun s hs t fn ht => ?_) fun _ _ _ I _ hk he => I.exec hk he)
  rw [hs t] at ht
  cases ht

def twoCallers : Sys := ⟨0, fun t => t + 1, fun t => if t = 0 then 1 else 0, fun _ => none,
  fun _ => .stop, fun _ => 0⟩

theorem twoCallers_start : LockStart twoCallers := fun _ => rfl

/-- Task 0 restarts a task, while task 1 sends a signal to a task that does not exist. -/
theorem locks_balanced_run : ∃ s, Runs.runAll (lockMachine ⟨true, true, 2⟩) (fun s i => i.keeps s)
    twoCallers [.begin (.taskRestart 7), .step 0, .step 99, .switch 1, .begin (.sigqueue 9 1),
      .step 0, .step 0, .step 0, .switch 0, .step 0, .step 0, .step 0, .step 0] = some s ∧
    (s.lockcount 0 = 1 ∧ s.calls 0 = some (.taskRestart 7) ∧ s.lockcount 1 = 0) ∧ Balanced s :=
  have h : ∃ s, Runs.runAll (lockMachine ⟨true, true, 2⟩) (fun s i => i.keeps s) twoCallers
      [.begin (.taskRestart 7), .step 0, .step 99, .switch 1, .begin (.sigqueue 9 1),
        .step 0, .step 0, .step 0, .switch 0, .step 0, .step 0, .step 0, .step 0] = some s ∧
      (s.lockcount 0 = 1 ∧ s.calls 0 = some (.taskRestart 7) ∧ s.lockcount 1 = 0) :=
    ⟨_, rfl, rfl, rfl, rfl⟩
  h.elim fun s hs => ⟨s, hs.1, hs.2, locks_balanced (.runAll (.init twoCallers_start) hs.1)⟩

/-- A restart of a task that does not exist keeps the lock. -/
theorem restart_keeps_lock : ¬ ∀ (cfg : Config) (s : Sys),
    Reachable (lockMachine cfg) LockStart s → Balanced s := by
  intro hall
  have h : ∃ s, Runs.runAll (lockMachine ⟨true, true, 2⟩) (fun _ _ => True) twoCallers
      [.begin (.taskRestart 7), .step 0, .step 0] = some s ∧ s.calls 0 = some (.taskRestart 7) ∧
      s.code 0 = .ret ERROR ∧ s.lockcount 0 = 2 ∧ s.entry 0 = 1 := ⟨_, rfl, rfl, rfl, rfl, rfl⟩
  obtain ⟨s, hs, hcall, hret, hlock, hentry⟩ := h
  have hb := hall _ s (.runAll (.init twoCallers_start) hs) 0 _ _ hcall hret
  rw [hlock, hentry] at hb
  cases hb

end NuttxAvr32.Sched.LockBalance
