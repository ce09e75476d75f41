import NuttxAvr32.Sched.Runs
import NuttxAvr32.Lib.Owners

/-! # Message queues: sending and receiving

A task that is inside `mq_send`, `mq_timedsend`, `mq_receive` or `mq_timedreceive` has
an activation that says where it goes on; what lies between two statements at which
interrupts or other tasks can come in is one step. Signal handlers may call these
functions while a task waits, so the activations of a task are a stack.
-/

namespace NuttxAvr32.Mqueue

open Keyed Sched Owners Runs
open Function (update)

inductive Mqalloc
  | fixed
  | dyn
  | irq
deriving DecidableEq, Repr

structure Payload where
  priority : Nat
  msglen : Nat
  mail : List UInt8
deriving DecidableEq, Repr

structure Mqmsg where
  payload : Payload
  type : Mqalloc

/-- The fields of `struct msgq_s` for messages and waiting tasks. -/
structure Msgs where
  maxmsgs : Int
  nmsgs : Int
  nwaitnotfull : Int
  nwaitnotempty : Int
  msglist : List Nat

inductive MqCall
  | waitsend (q : Nat) (msg : Payload)
  | msgalloc (q : Nat) (msg : Payload)
  | dosend (q : Nat) (msg : Payload) (mqmsg : Nat)
  | wakeReceiver (q : Nat)
  | waitreceive (q : Nat)
  | doreceive (q : Nat) (mqmsg : Nat)
  | wakeSender (q : Nat)
deriving DecidableEq

/-- The kernel, the queues, the messages and the tasks' activations, with the numbers
that messages get when they are sent and what was sent and received. `memory` holds the
messages that were allocated and are not freed. -/
structure Sys where
  kernel : Kernel
  tasks : List Nat
  msgq : Nat → Msgs
  msg : Nat → Mqmsg
  gMsgfree : List Nat
  gMsgfreeirq : List Nat
  memory : List Nat
  msgwaitq : Nat → Nat
  errno : Nat → Nat
  calls : Nat → List MqCall
  serial : Nat → Nat
  sent : Nat → List Payload
  received : Nat → List (Nat × Payload)
  irqSent : Nat → Bool

abbrev eintr : Nat := 4
abbrev etimedout : Nat := 110

namespace Sys

def setCalls (s : Sys) (t : Nat) (fs : List MqCall) : Sys :=
  { s with calls := update s.calls t fs }

def setMsgq (s : Sys) (q : Nat) (f : Msgs → Msgs) : Sys :=
  { s with msgq := update s.msgq q (f (s.msgq q)) }

end Sys

/-- `mem` is what `kmalloc` returns, should it be called. -/
def mqMsgalloc (irq : Bool) (mem : Option Nat) (s : Sys) : Sys × Option Nat :=
  match s.gMsgfree with
  | n :: rest => ({ s with gMsgfree := rest }, some n)
  | [] =>
    if irq then
      match s.gMsgfreeirq with
      | n :: rest => ({ s with gMsgfreeirq := rest }, some n)
      | [] => (s, none)
    else
      match mem with
      | some n =>
        ({ s with
            msg := update s.msg n { s.msg n with type := .dyn }
            memory := n :: s.memory }, some n)
      | none => (s, none)

def mqMsgfree (n : Nat) (s : Sys) : Sys :=
  match (s.msg n).type with
  | .fixed => { s with gMsgfree := s.gMsgfree ++ [n] }
  | .irq => { s with gMsgfreeirq := s.gMsgfreeirq ++ [n] }
  | .dyn => { s with memory := s.memory.erase n }

/-- The part of `mq_dosend` that fills the message and inserts it behind all messages
whose priority is not lower. -/
def mqInsert (q : Nat) (msg : Payload) (n : Nat) (s : Sys) : Sys :=
  let s :=
    { s with
      msg := update s.msg n { s.msg n with payload := msg }
      serial := update s.serial n (s.sent q).length
      sent := update s.sent q (s.sent q ++ [msg]) }
  s.setMsgq q fun c =>
    { c with
      msglist := insertKeyed (fun m => (s.msg m).payload.priority) n c.msglist
      nmsgs := c.nmsgs + 1 }

def waitOn (st : TaskState) (q : Nat) (f : Msgs → Msgs) (s : Sys) : Option Sys :=
  let rtcb := s.kernel.head
  (upBlockTask rtcb st s.kernel).map fun k =>
    { s.setMsgq q f with
      kernel := k
      msgwaitq := update s.msgwaitq rtcb q
      errno := update s.errno rtcb 0 }

def firstWaiter (i : TaskList) (q : Nat) (s : Sys) : Option Nat :=
  (s.kernel.list i).find? fun t => s.msgwaitq t = q

def wake (cfg : Config) (btcb q : Nat) (f : Msgs → Msgs) (s : Sys) : Option Sys :=
  (upUnblockTask cfg btcb s.kernel).map fun k =>
    { s.setMsgq q f with
      kernel := k
      msgwaitq := update s.msgwaitq btcb 0 }

/-- `none` is `PANIC(OSERR_MQNONEMPTYCOUNT)`. -/
def wakeReceiver (cfg : Config) (q : Nat) (s : Sys) : Option Sys :=
  if 0 < (s.msgq q).nwaitnotempty then
    match firstWaiter .waitingformqnotempty q s with
    | none => none
    | some btcb => wake cfg btcb q (fun c => { c with nwaitnotempty := c.nwaitnotempty - 1 }) s
  else some s

/-- `none` is `PANIC(OSERR_MQNOTFULLCOUNT)`. -/
def wakeSender (cfg : Config) (q : Nat) (s : Sys) : Option Sys :=
  if 0 < (s.msgq q).nwaitnotfull then
    match firstWaiter .waitingformqnotfull q s with
    | none => none
    | some btcb => wake cfg btcb q (fun c => { c with nwaitnotfull := c.nwaitnotfull - 1 }) s
  else some s

/-- A timeout or a signal ends the wait of a task in one of the given states. -/
def endWait (cfg : Config) (t e : Nat) (states : List TaskState) (s : Sys) : Option Sys :=
  if (s.kernel.tcb t).taskState ∈ states then
    (upUnblockTask cfg t s.kernel).map fun k =>
      { s with
        kernel := k
        errno := update s.errno t e }
  else some s

def mqSndtimeout (cfg : Config) (t : Nat) (s : Sys) : Option Sys :=
  endWait cfg t etimedout [.waitMqnotfull] s

def mqRcvtimeout (cfg : Config) (t : Nat) (s : Sys) : Option Sys :=
  endWait cfg t etimedout [.waitMqnotempty] s

def mqWaitirq (cfg : Config) (t : Nat) (s : Sys) : Option Sys :=
  endWait cfg t eintr [.waitMqnotempty, .waitMqnotfull] s

/-- The test of `mq_send`, and with `mq_waitsend` what follows when the queue is full:
a sender counts itself in `nwaitnotempty`. -/
def sendTest (q : Nat) (msg : Payload) (nonblock : Bool) (below : List MqCall) (s : Sys) :
    Option Sys :=
  let rtcb := s.kernel.head
  if (s.msgq q).nmsgs < (s.msgq q).maxmsgs then
    some (s.setCalls rtcb (.msgalloc q msg :: below))
  else if nonblock then some (s.setCalls rtcb below)
  else
    waitOn .waitMqnotfull q (fun c => { c with nwaitnotempty := c.nwaitnotempty + 1 })
      (s.setCalls rtcb (.waitsend q msg :: below))

def receiveTest (q : Nat) (nonblock : Bool) (below : List MqCall) (s : Sys) : Option Sys :=
  let rtcb := s.kernel.head
  match (s.msgq q).msglist with
  | n :: rest =>
    some ((s.setMsgq q fun c => { c with msglist := rest, nmsgs := c.nmsgs - 1 }).setCalls rtcb
      (.doreceive q n :: below))
  | [] =>
    if nonblock then some (s.setCalls rtcb below)
    else
      waitOn .waitMqnotempty q (fun c => { c with nwaitnotempty := c.nwaitnotempty + 1 })
        (s.setCalls rtcb (.waitreceive q :: below))

def callStep (cfg : Config) (mem : Option Nat) (nonblock : Bool) (c : MqCall)
    (below : List MqCall) (s : Sys) : Option Sys :=
  let rtcb := s.kernel.head
  match c with
  | .waitsend q msg =>
    if s.errno rtcb ≠ 0 then some (s.setCalls rtcb below) else sendTest q msg false below s
  | .msgalloc q msg =>
    match mqMsgalloc false mem s with
    | (_, none) => none
    | (s, some n) => some (s.setCalls rtcb (.dosend q msg n :: below))
  | .dosend q msg n => some ((mqInsert q msg n s).setCalls rtcb (.wakeReceiver q :: below))
  | .wakeReceiver q => wakeReceiver cfg q (s.setCalls rtcb below)
  | .waitreceive q =>
    if s.errno rtcb ≠ 0 then some (s.setCalls rtcb below) else receiveTest q nonblock below s
  | .doreceive q n =>
    some (mqMsgfree n
      { s.setCalls rtcb (.wakeSender q :: below) with
        received := update s.received q
          (s.received q ++ [(s.serial n, (s.msg n).payload)]) })
  | .wakeSender q => wakeSender cfg q (s.setCalls rtcb below)

def mqSendIrq (cfg : Config) (q : Nat) (msg : Payload) (s : Sys) : Option Sys :=
  match mqMsgalloc true none s with
  | (s, none) => some s
  | (s, some n) =>
    wakeReceiver cfg q
      { mqInsert q msg n s with irqSent := update s.irqSent q true }

inductive MqOp
  | sched (i : Sched.Op)
  | send (q : Nat) (msg : Payload) (nonblock : Bool)
  | receive (q : Nat) (nonblock : Bool)
  | step (mem : Option Nat) (nonblock : Bool)
  | sendIrq (q : Nat) (msg : Payload)
  | sndtimeout (t : Nat)
  | rcvtimeout (t : Nat)
  | waitirq (t : Nat)
deriving DecidableEq

/-- A TCB that is created is filled with zeros. -/
def Sys.created (s : Sys) : Sched.Op → Sys
  | .create tcb _ =>
    { s.setCalls tcb [] with
      tasks := if tcb ∈ s.tasks then s.tasks else tcb :: s.tasks
      msgwaitq := update s.msgwaitq tcb 0 }
  | _ => s

def MqOp.exec (cfg : Config) : MqOp → Sys → Option Sys
  | .sched i, s => (i.exec cfg s.kernel).map fun k => { s.created i with kernel := k }
  | .send q msg nonblock, s => sendTest q msg nonblock (s.calls s.kernel.head) s
  | .receive q nonblock, s => receiveTest q nonblock (s.calls s.kernel.head) s
  | .step mem nonblock, s =>
    match s.calls s.kernel.head with
    | [] => none
    | c :: below => callStep cfg mem nonblock c below s
  | .sendIrq q msg, s => mqSendIrq cfg q msg s
  | .sndtimeout t, s => mqSndtimeout cfg t s
  | .rcvtimeout t, s => mqRcvtimeout cfg t s
  | .waitirq t, s => mqWaitirq cfg t s

def IsMqwait (st : TaskState) : Prop := st = .waitMqnotempty ∨ st = .waitMqnotfull

instance : DecidablePred IsMqwait := fun st => by
  unfold IsMqwait
  infer_instance

/-- The scheduler's calls from elsewhere leave the waits for messages alone, and tasks
that exit are not inside the functions modelled here. -/
def otherCall (cfg : Config) (s : Sys) : Sched.Op → Prop
  | .block _ st => ¬IsMqwait st
  | .unblock t => ¬IsMqwait (s.kernel.tcb t).taskState
  | .delete _ pid =>
    let t := schedGettcb cfg s.kernel.toTasks pid
    s.calls t = [] ∧ ¬IsMqwait (s.kernel.tcb t).taskState
  | .deletecurrent => s.calls s.kernel.head = []
  | _ => True

def MqOp.valid (cfg : Config) (s : Sys) : MqOp → Prop
  | .sched i => i.valid cfg s.kernel.toTasks s.kernel.head ∧ otherCall cfg s i
  | .send q _ _ => s.kernel.head ≠ gIdletcb ∧ q ≠ 0
  | .receive q _ => s.kernel.head ≠ gIdletcb ∧ q ≠ 0
  | .step mem _ => s.kernel.head ≠ gIdletcb ∧ ∀ n ∈ mem, n ∉ s.memory
  | .sendIrq q _ => q ≠ 0
  | .sndtimeout t => Live cfg s.kernel.toTasks t
  | .rcvtimeout t => Live cfg s.kernel.toTasks t
  | .waitirq t => Live cfg s.kernel.toTasks t

end NuttxAvr32.Mqueue
