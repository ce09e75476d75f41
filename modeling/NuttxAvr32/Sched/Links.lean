import NuttxAvr32.Sched.Mergepending

/-! # The scheduler on the links of the TCBs

The functions of `Kernel.lean` again, with every queue as the source has it: a head, a tail
and the links in the TCBs. They give no result where the source panics, fails an assertion or
goes through a `NULL` pointer. `fuel` is how many tests a search in a queue may make.
-/

namespace NuttxAvr32.Sched

open Keyed Linked
open Function (update)

/-- The TCBs with their links, and the queues of `g_tasklisttable`. -/
structure Links extends Tasks where
  flink : Nat → Option Nat
  blink : Nat → Option Nat
  queue : TaskList → Dq

namespace Links

variable (fuel : Nat) (m : Links)

/-- What `sched_addprioritized` and `sched_mergepending` work on. -/
def toQueues : Queues :=
  ⟨m.toTasks, m.flink, m.blink, m.queue .readytorun, m.queue .pendingtasks⟩

def relink (q : Queues) : Links := ⟨q.toTasks, q.flink, q.blink, m.queue⟩

def setQueue (i : TaskList) (q : Dq) : Links := { m with queue := update m.queue i q }

def modify (t : Nat) (f : Tcb → Tcb) : Links :=
  { m with tcb := update m.tcb t (f (m.tcb t)) }

def setState (t : Nat) (s : TaskState) : Links := m.modify t fun c => { c with taskState := s }

def head : Nat := (m.queue .readytorun).head.getD 0

def dqRem (node : Nat) (i : TaskList) : Links :=
  let prev := m.blink node
  let next := m.flink node
  let q := m.queue i
  { m with
    flink := update
      (match prev with
        | some p => update m.flink p next
        | none => m.flink) node none
    blink := update
      (match next with
        | some n => update m.blink n prev
        | none => m.blink) node none
    queue := update m.queue i
      ⟨if prev = none then next else q.head, if next = none then prev else q.tail⟩ }

def dqAddlast (node : Nat) (i : TaskList) : Option Links :=
  let q := m.queue i
  let flink := update m.flink node none
  let blink := update m.blink node q.tail
  match q.head with
  | none => some ⟨m.toTasks, flink, blink, update m.queue i ⟨some node, some node⟩⟩
  | some _ => q.tail.map fun tail =>
    ⟨m.toTasks, update flink tail (some node), blink,
      update m.queue i ⟨q.head, some node⟩⟩

def dqAddfirst (node : Nat) (i : TaskList) : Links :=
  let q := m.queue i
  let blink := update m.blink node none
  let flink := update m.flink node q.head
  match q.head with
  | none => ⟨m.toTasks, flink, blink, update m.queue i ⟨some node, some node⟩⟩
  | some head => ⟨m.toTasks, flink, update blink head (some node),
      update m.queue i ⟨some node, q.tail⟩⟩

def schedAddprioritized (tcb : Nat) (i : TaskList) : Option (Links × Bool) :=
  (m.toQueues.schedAddprioritized fuel tcb (m.queue i)).map fun r =>
    ((m.relink r.1).setQueue i r.2.1, r.2.2)

def schedMergepending : Option (Links × Bool) :=
  (m.toQueues.schedMergepending fuel).map fun r =>
    (((m.relink r.1).setQueue .readytorun r.1.gReadytorun).setQueue .pendingtasks
      r.1.gPendingtasks, r.2)

def schedAddreadytorun (btcb : Nat) : Option (Links × Bool) :=
  let rtcb := m.head
  if (m.tcb rtcb).lockcount ≠ 0 ∧ m.prio rtcb < m.prio btcb then
    (m.schedAddprioritized fuel btcb .pendingtasks).map fun r => (r.1.setState btcb .pending, false)
  else
    (m.schedAddprioritized fuel btcb .readytorun).bind fun r =>
      if r.2 then
        if (r.1.tcb rtcb).lockcount = 0 then
          (r.1.flink btcb).map fun next =>
            ((r.1.setState btcb .running).setState next .readytorun, true)
        else none
      else some (r.1.setState btcb .readytorun, false)

def schedAddblocked (btcb : Nat) (s : TaskState) : Option Links :=
  if s.IsBlocked then
    s.list.bind fun i =>
      let added := if s.prioritized then (m.schedAddprioritized fuel btcb i).map Prod.fst
        else m.dqAddlast btcb i
      added.map fun m => m.setState btcb s
  else none

def schedRemoveblocked (btcb : Nat) : Option Links :=
  if (m.tcb btcb).taskState.IsBlocked then
    (m.tcb btcb).taskState.list.map fun i => (m.dqRem btcb i).setState btcb .invalid
  else none

def schedRemovereadytorun (rtcb : Nat) : Option (Links × Bool) :=
  match m.blink rtcb with
  | none => (m.flink rtcb).map fun next =>
    (((m.setState next .running).dqRem rtcb .readytorun).setState rtcb .invalid, true)
  | some _ => some ((m.dqRem rtcb .readytorun).setState rtcb .invalid, false)

def schedLock (irq : Bool) : Option Links :=
  if irq then some m
  else if (m.tcb m.head).lockcount < maxLockCount then
    some (m.modify m.head fun c => { c with lockcount := c.lockcount + 1 })
  else none

def upReleasePending : Option Links := (m.schedMergepending fuel).map Prod.fst

/-- `if (g_pendingtasks.head) sched_mergepending();` -/
def mergeIfPending : Option Links :=
  if (m.queue .pendingtasks).head ≠ none then (m.schedMergepending fuel).map Prod.fst else some m

def schedUnlock (irq : Bool) : Option Links :=
  if irq then some m
  else
    let rtcb := m.head
    let m := m.modify rtcb fun c => { c with lockcount := c.lockcount - 1 }
    if (m.tcb rtcb).lockcount = 0 ∧ (m.queue .pendingtasks).head ≠ none then
      m.upReleasePending fuel
    else some m

def upBlockTask (tcb : Nat) (s : TaskState) : Option Links :=
  if (m.tcb tcb).taskState.IsReady then
    (m.schedRemovereadytorun tcb).bind fun r =>
      (r.1.schedAddblocked fuel tcb s).bind fun m => m.mergeIfPending fuel
  else none

def upUnblockTask (cfg : Config) (tcb : Nat) : Option Links :=
  if (m.tcb tcb).taskState.IsBlocked then
    (m.schedRemoveblocked tcb).bind fun m =>
      let m :=
        match cfg.timeslice with
        | some ticks => m.modify tcb fun c => { c with timeslice := ticks }
        | none => m
      (m.schedAddreadytorun fuel tcb).map Prod.fst
  else none

def upReprioritizeRtr (tcb priority : Nat) : Option Links :=
  if (m.tcb tcb).taskState.IsReady ∧ schedPriorityMin ≤ priority ∧ priority ≤ schedPriorityMax then
    (m.schedRemovereadytorun tcb).bind fun removed =>
      let m := removed.1.modify tcb fun c => { c with schedPriority := priority }
      (m.schedAddreadytorun fuel tcb).bind fun added =>
        if removed.2 ^^ added.2 then added.1.mergeIfPending fuel else some added.1
  else none

def setErrno (irq : Bool) (e : Errno) : Links :=
  if irq = false ∧ (m.tcb m.head).taskState = .running then
    m.modify m.head fun c => { c with pterrno := e }
  else m

def schedSetpriority (irq : Bool) (tcb priority : Nat) : Option (Links × Bool) :=
  if priority < schedPriorityMin ∨ schedPriorityMax < priority then
    some (m.setErrno irq .einval, false)
  else
    let setPrio (m : Links) : Links := m.modify tcb fun c => { c with schedPriority := priority }
    match (m.tcb tcb).taskState with
    | .running => (m.flink tcb).bind fun next =>
      if priority ≤ m.prio next then (m.upReprioritizeRtr fuel tcb priority).map (·, true)
      else some (setPrio m, true)
    | .readytorun =>
      if m.prio m.head < priority then (m.upReprioritizeRtr fuel tcb priority).map (·, true)
      else (m.schedRemovereadytorun tcb).bind fun removed =>
        if removed.2 then none
        else ((setPrio removed.1).schedAddreadytorun fuel tcb).bind fun added =>
          if added.2 then none else some (added.1, true)
    | s =>
      if s.prioritized then
        s.list.bind fun i => ((setPrio (m.dqRem tcb i)).schedAddprioritized fuel tcb i).map
          fun r => (r.1, true)
      else some (setPrio m, true)

def schedProcessTimeslice (cfg : Config) : Option Links :=
  match cfg.timeslice with
  | none => some m
  | some ticks =>
    let rtcb := m.head
    if (m.tcb rtcb).roundRobin = false then some m
    else if (m.tcb rtcb).timeslice ≤ 1 then
      if (m.tcb rtcb).lockcount = 0 then
        let m := m.modify rtcb fun c => { c with timeslice := ticks }
        match m.flink rtcb with
        | some next =>
          if m.prio rtcb ≤ m.prio next then m.upReprioritizeRtr fuel rtcb (m.prio rtcb)
          else some m
        | none => some m
      else some m
    else some (m.modify rtcb fun c => { c with timeslice := c.timeslice - 1 })

def assignTries (cfg : Config) (tcb : Nat) : Nat → Links → Links × Bool
  | 0, m => (m, false)
  | tries + 1, m =>
    let pid := nextPid m.gLastpid
    let m := { m with gLastpid := pid }
    if (m.gPidhash (pidhash cfg pid)).tcb = 0 then
      let m := { m with gPidhash := update m.gPidhash (pidhash cfg pid) ⟨tcb, pid⟩ }
      (m.modify tcb fun c => { c with pid := pid }, true)
    else assignTries cfg tcb tries m

def taskAssignpid (cfg : Config) (tcb : Nat) : Option (Links × Bool) :=
  (m.schedLock false).bind fun m =>
    let assigned := assignTries cfg tcb cfg.maxTasks m
    (assigned.1.schedUnlock fuel false).map (·, assigned.2)

def taskCreate (cfg : Config) (tcb priority : Nat) : Option Links :=
  ((m.modify tcb fun _ => Tcb.zero).taskAssignpid fuel cfg tcb).bind fun r =>
    if r.2 then
      let m := r.1.modify tcb fun c =>
        { c with initPriority := priority, schedPriority := priority, basePriority := priority }
      (m.schedLock false).bind fun m =>
        ((m.dqAddfirst tcb .inactivetasks).setState tcb .inactive).schedUnlock fuel false
    else some r.1

def schedReleasetcb (cfg : Config) (tcb : Nat) : Links :=
  if (m.tcb tcb).pid ≠ 0 then
    { m with gPidhash :=
        update m.gPidhash (pidhash cfg (m.tcb tcb).pid) ⟨0, invalidProcessId⟩ }
  else m

def taskDelete (cfg : Config) (irq : Bool) (pid : Nat) : Option Links :=
  if pid = 0 ∨ pid = (m.tcb m.head).pid then none
  else (m.schedLock irq).bind fun m =>
    let dtcb := schedGettcb cfg m.toTasks pid
    if dtcb = 0 then m.schedUnlock fuel irq
    else if (m.tcb dtcb).taskState = .running then none
    else (m.tcb dtcb).taskState.list.bind fun i =>
      let m := (m.dqRem dtcb i).setState dtcb .invalid
      (m.schedUnlock fuel irq).map fun m => m.schedReleasetcb cfg dtcb

def taskDeletecurrent (cfg : Config) : Option Links :=
  let dtcb := m.head
  (m.schedRemovereadytorun dtcb).bind fun r =>
    let rtcb := r.1.head
    (r.1.schedLock false).bind fun m =>
      let m := m.setState rtcb .readytorun
      (m.schedAddblocked fuel dtcb .inactive).bind fun m =>
        (m.taskDelete fuel cfg false (m.tcb dtcb).pid).bind fun m =>
          let m := m.setState rtcb .running
          (m.mergeIfPending fuel).bind fun m => m.schedUnlock fuel false

end Links

end NuttxAvr32.Sched
