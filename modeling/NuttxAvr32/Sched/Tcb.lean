import Mathlib.Algebra.Ring.Int.Defs
import Mathlib.Algebra.Ring.Nat

/-! # Tasks

The task control block, the states of a task with the list that `g_tasklisttable`
gives for each of them, and the table of process ids. A TCB is named by its
address; `NULL` is zero.
-/

namespace NuttxAvr32.Sched

/-- `tstate_e`, with signals and message queues and without paging. -/
inductive TaskState
  | invalid
  | pending
  | readytorun
  | running
  | inactive
  | waitSem
  | waitSig
  | waitMqnotempty
  | waitMqnotfull
deriving DecidableEq, Repr

inductive TaskList
  | readytorun
  | pendingtasks
  | waitingforsemaphore
  | waitingforsignal
  | waitingformqnotempty
  | waitingformqnotfull
  | inactivetasks
deriving DecidableEq, Repr

namespace TaskState

def list : TaskState → Option TaskList
  | invalid => none
  | pending => some .pendingtasks
  | readytorun => some .readytorun
  | running => some .readytorun
  | inactive => some .inactivetasks
  | waitSem => some .waitingforsemaphore
  | waitSig => some .waitingforsignal
  | waitMqnotempty => some .waitingformqnotempty
  | waitMqnotfull => some .waitingformqnotfull

/-- The `prioritized` column of `g_tasklisttable`. -/
def prioritized : TaskState → Bool
  | pending | readytorun | running | waitSem | waitMqnotempty | waitMqnotfull => true
  | invalid | inactive | waitSig => false

/-- From `FIRST_BLOCKED_STATE` to `LAST_BLOCKED_STATE`. -/
def IsBlocked : TaskState → Prop
  | inactive | waitSem | waitSig | waitMqnotempty | waitMqnotfull => True
  | invalid | pending | readytorun | running => False

/-- From `FIRST_READY_TO_RUN_STATE` to `LAST_READY_TO_RUN_STATE`. -/
def IsReady : TaskState → Prop
  | readytorun | running => True
  | _ => False

instance : DecidablePred IsBlocked := fun s => by
  cases s <;> (unfold IsBlocked; infer_instance)

instance : DecidablePred IsReady := fun s => by
  cases s <;> (unfold IsReady; infer_instance)

end TaskState

abbrev schedPriorityMin : Nat := 1
abbrev schedPriorityMax : Nat := 255
abbrev schedPriorityIdle : Nat := 0
abbrev maxLockCount : Nat := 127
abbrev invalidProcessId : Nat := 0

/-- The values of `errno` that the modelled functions write. -/
inductive Errno
  | ok
  | eintr
  | einval
  | esrch
  | eagain
deriving DecidableEq, Repr

/-- The fields of `_TCB` that scheduling and semaphores use, without the links.
`pendReprios` holds the first `npend_reprio` entries of `pend_reprios`. -/
structure Tcb where
  pid : Nat
  taskState : TaskState
  schedPriority : Nat
  basePriority : Nat
  initPriority : Nat
  pendReprios : List Nat
  lockcount : Nat
  roundRobin : Bool
  noncancelable : Bool
  cancelPending : Bool
  timeslice : Nat
  waitsem : Nat
  pterrno : Errno
deriving DecidableEq, Repr

/-- A TCB that is filled with zeros. -/
def Tcb.zero : Tcb := ⟨0, .invalid, 0, 0, 0, [], 0, false, false, false, 0, 0, .ok⟩

structure Pidhash where
  tcb : Nat
  pid : Nat
deriving DecidableEq, Repr

/-- The configuration: `CONFIG_MAX_TASKS`, the ticks of a time slice when
`CONFIG_RR_INTERVAL` is positive, and the semaphore options. -/
structure Config where
  maxTasks : Nat
  timeslice : Option Nat
  priorityInheritance : Bool
  nnestprio : Nat
  preallocholders : Nat

def gIdletcb : Nat := 1

structure Tasks where
  tcb : Nat → Tcb
  gPidhash : Nat → Pidhash
  gLastpid : Nat

namespace Tasks

abbrev prio (k : Tasks) (t : Nat) : Nat := (k.tcb t).schedPriority

end Tasks

/-- `pid & MAX_TASKS_MASK`; the number of tasks is a power of two. -/
def pidhash (cfg : Config) (pid : Nat) : Nat := pid % cfg.maxTasks

/-- The task that `g_pidhash` gives for a pid, `NULL` where there is none. -/
def schedGettcb (cfg : Config) (k : Tasks) (pid : Nat) : Nat :=
  let slot := k.gPidhash (pidhash cfg pid)
  if pid = slot.pid then slot.tcb else 0

def schedVerifytcb (cfg : Config) (k : Tasks) (tcb : Nat) : Bool :=
  decide (tcb = (k.gPidhash (pidhash cfg (k.tcb tcb).pid)).tcb)

end NuttxAvr32.Sched
