import NuttxAvr32.Sched.Tcb
import NuttxAvr32.Lib.Keyed

/-! # The scheduler on task lists

The functions of the scheduler with every queue as the list of its TCBs. A
function returns `none` where the source panics or fails an assertion. `irq`
says that it runs in an interrupt handler. The running task is the head of
`g_readytorun`, so saving and restoring the registers leaves no trace here.
-/

namespace NuttxAvr32.Sched

open Keyed
open Function (update)

structure Kernel extends Tasks where
  list : TaskList → List Nat

namespace Kernel

variable (k : Kernel)

abbrev ready : List Nat := k.list .readytorun
abbrev pending : List Nat := k.list .pendingtasks

def head : Nat := k.ready.head?.getD 0

def next : Nat := k.ready.tail.head?.getD 0

def modify (t : Nat) (f : Tcb → Tcb) : Kernel :=
  { k with tcb := update k.tcb t (f (k.tcb t)) }

def setState (t : Nat) (s : TaskState) : Kernel := k.modify t fun c => { c with taskState := s }

def setList (i : TaskList) (l : List Nat) : Kernel := { k with list := update k.list i l }

end Kernel

/-- `errno = e`: the error number of the running task, unless in a handler. -/
def setErrno (irq : Bool) (e : Errno) (k : Kernel) : Kernel :=
  if irq = false ∧ (k.tcb k.head).taskState = .running then
    k.modify k.head fun c => { c with pterrno := e }
  else k

/-- Returns whether the task is now at the head. -/
def schedAddprioritized (tcb : Nat) (i : TaskList) (k : Kernel) : Kernel × Bool :=
  let l := insertKeyed k.prio tcb (k.list i)
  (k.setList i l, decide (l.head? = some tcb))

def schedAddreadytorun (btcb : Nat) (k : Kernel) : Kernel × Bool :=
  let rtcb := k.head
  if (k.tcb rtcb).lockcount ≠ 0 ∧ k.prio rtcb < k.prio btcb then
    ((schedAddprioritized btcb .pendingtasks k).1.setState btcb .pending, false)
  else
    let added := schedAddprioritized btcb .readytorun k
    if added.2 then ((added.1.setState btcb .running).setState rtcb .readytorun, true)
    else (added.1.setState btcb .readytorun, false)

def schedAddblocked (btcb : Nat) (s : TaskState) (k : Kernel) : Kernel :=
  match s.list with
  | none => k
  | some i =>
    let l := if s.prioritized then insertKeyed k.prio btcb (k.list i) else k.list i ++ [btcb]
    (k.setList i l).setState btcb s

def mergedReady (k : Kernel) : List Nat := mergeKeyed k.prio k.ready k.pending

/-- Returns whether the head of `g_readytorun` has changed. -/
def schedMergepending (k : Kernel) : Kernel × Bool :=
  let merged := mergedReady k
  let changed := decide (merged.head? ≠ k.ready.head?)
  let state (t : Nat) (s : TaskState) : TaskState :=
    if t ∈ k.pending then if merged.head? = some t then .running else .readytorun
    else if changed ∧ k.ready.head? = some t then .readytorun
    else s
  ({ k with
      tcb := fun t => { k.tcb t with taskState := state t (k.tcb t).taskState }
      list := update (update k.list .readytorun merged) .pendingtasks [] },
    changed)

def schedRemoveblocked (btcb : Nat) (k : Kernel) : Kernel :=
  match (k.tcb btcb).taskState.list with
  | none => k
  | some i => (k.setList i ((k.list i).erase btcb)).setState btcb .invalid

/-- Returns whether the task was at the head; the next one then runs. -/
def schedRemovereadytorun (rtcb : Nat) (k : Kernel) : Kernel × Bool :=
  let wasHead := decide (k.ready.head? = some rtcb)
  let k' := k.setList .readytorun (k.ready.erase rtcb)
  let k' := if wasHead then k'.setState k'.head .running else k'
  (k'.setState rtcb .invalid, wasHead)

def schedLock (irq : Bool) (k : Kernel) : Option Kernel :=
  if irq then some k
  else if (k.tcb k.head).lockcount < maxLockCount then
    some (k.modify k.head fun c => { c with lockcount := c.lockcount + 1 })
  else none

/-- The switch to the new head, if there is one, is the switch of the registers. -/
def upReleasePending (k : Kernel) : Kernel := (schedMergepending k).1

def schedUnlock (irq : Bool) (k : Kernel) : Kernel :=
  if irq then k
  else
    let rtcb := k.head
    let k := k.modify rtcb fun c => { c with lockcount := c.lockcount - 1 }
    if (k.tcb rtcb).lockcount = 0 ∧ k.pending ≠ [] then upReleasePending k else k

/-- `if (g_pendingtasks.head) sched_mergepending();` -/
def mergeIfPending (k : Kernel) : Kernel :=
  if k.pending ≠ [] then (schedMergepending k).1 else k

def upBlockTask (tcb : Nat) (s : TaskState) (k : Kernel) : Option Kernel :=
  if (k.tcb tcb).taskState.IsReady then
    some (mergeIfPending (schedAddblocked tcb s (schedRemovereadytorun tcb k).1))
  else none

def upUnblockTask (cfg : Config) (tcb : Nat) (k : Kernel) : Option Kernel :=
  if (k.tcb tcb).taskState.IsBlocked then
    let k := schedRemoveblocked tcb k
    let k :=
      match cfg.timeslice with
      | some ticks => k.modify tcb fun c => { c with timeslice := ticks }
      | none => k
    some (schedAddreadytorun tcb k).1
  else none

def upReprioritizeRtr (tcb priority : Nat) (k : Kernel) : Option Kernel :=
  if (k.tcb tcb).taskState.IsReady ∧ schedPriorityMin ≤ priority ∧ priority ≤ schedPriorityMax then
    let removed := schedRemovereadytorun tcb k
    let k := removed.1.modify tcb fun c => { c with schedPriority := priority }
    let added := schedAddreadytorun tcb k
    some (if removed.2 ^^ added.2 then mergeIfPending added.1 else added.1)
  else none

/-- Returns whether the priority was valid. -/
def schedSetpriority (irq : Bool) (tcb priority : Nat) (k : Kernel) : Option (Kernel × Bool) :=
  if priority < schedPriorityMin ∨ schedPriorityMax < priority then
    some (setErrno irq .einval k, false)
  else
    let setPrio (k : Kernel) : Kernel := k.modify tcb fun c => { c with schedPriority := priority }
    match (k.tcb tcb).taskState with
    | .running =>
      if priority ≤ k.prio k.next then
        (upReprioritizeRtr tcb priority k).map (·, true)
      else some (setPrio k, true)
    | .readytorun =>
      if k.prio k.head < priority then (upReprioritizeRtr tcb priority k).map (·, true)
      else some ((schedAddreadytorun tcb (setPrio (schedRemovereadytorun tcb k).1)).1, true)
    | s =>
      if s.prioritized then
        match s.list with
        | none => none
        | some i =>
          let k := setPrio (k.setList i ((k.list i).erase tcb))
          some ((schedAddprioritized tcb i k).1, true)
      else some (setPrio k, true)

def schedProcessTimeslice (cfg : Config) (k : Kernel) : Option Kernel :=
  match cfg.timeslice with
  | none => some k
  | some ticks =>
    let rtcb := k.head
    if (k.tcb rtcb).roundRobin = false then some k
    else if (k.tcb rtcb).timeslice ≤ 1 then
      if (k.tcb rtcb).lockcount = 0 then
        let k := k.modify rtcb fun c => { c with timeslice := ticks }
        if k.next ≠ 0 ∧ k.prio rtcb ≤ k.prio k.next then
          upReprioritizeRtr rtcb (k.prio rtcb) k
        else some k
      else some k
    else some (k.modify rtcb fun c => { c with timeslice := c.timeslice - 1 })

/-- The next candidate of `task_assignpid`: `pid_t` is an `int`. -/
def nextPid (pid : Nat) : Nat := if pid + 1 < 2 ^ 31 then pid + 1 else 1

def assignTries (cfg : Config) (tcb : Nat) : Nat → Kernel → Kernel × Bool
  | 0, k => (k, false)
  | tries + 1, k =>
    let pid := nextPid k.gLastpid
    let k := { k with gLastpid := pid }
    if (k.gPidhash (pidhash cfg pid)).tcb = 0 then
      let k := { k with gPidhash := update k.gPidhash (pidhash cfg pid) ⟨tcb, pid⟩ }
      (k.modify tcb fun c => { c with pid := pid }, true)
    else assignTries cfg tcb tries k

def taskAssignpid (cfg : Config) (tcb : Nat) (k : Kernel) : Option (Kernel × Bool) := do
  let k ← schedLock false k
  let assigned := assignTries cfg tcb cfg.maxTasks k
  some (schedUnlock false assigned.1, assigned.2)

/-- The part of `task_create` up to the activation, for a TCB fresh from `kzmalloc`. -/
def taskCreate (cfg : Config) (tcb priority : Nat) (k : Kernel) : Option Kernel := do
  let k := k.modify tcb fun _ => Tcb.zero
  let (k, ok) ← taskAssignpid cfg tcb k
  if ok then
    let k := k.modify tcb fun c =>
      { c with initPriority := priority, schedPriority := priority, basePriority := priority }
    let k ← schedLock false k
    let k := (k.setList .inactivetasks (tcb :: k.list .inactivetasks)).setState tcb .inactive
    some (schedUnlock false k)
  else some k

/-- `sched_releasetcb`, as far as it concerns the tables of the scheduler. -/
def schedReleasetcb (cfg : Config) (tcb : Nat) (k : Kernel) : Kernel :=
  if (k.tcb tcb).pid ≠ 0 then
    { k with gPidhash :=
        update k.gPidhash (pidhash cfg (k.tcb tcb).pid) ⟨0, invalidProcessId⟩ }
  else k

/-- `task_delete` of another task; a task that names itself exits instead. -/
def taskDelete (cfg : Config) (irq : Bool) (pid : Nat) (k : Kernel) : Option Kernel := do
  if pid = 0 ∨ pid = (k.tcb k.head).pid then none
  else
    let k ← schedLock irq k
    let dtcb := schedGettcb cfg k.toTasks pid
    if dtcb = 0 then some (schedUnlock irq k)
    else if (k.tcb dtcb).taskState = .running then none
    else
      match (k.tcb dtcb).taskState.list with
      | none => none
      | some i =>
        let k := (k.setList i ((k.list i).erase dtcb)).setState dtcb .invalid
        some (schedReleasetcb cfg dtcb (schedUnlock irq k))

def taskDeletecurrent (cfg : Config) (k : Kernel) : Option Kernel := do
  let dtcb := k.head
  let k := (schedRemovereadytorun dtcb k).1
  let rtcb := k.head
  let k ← schedLock false k
  let k := k.setState rtcb .readytorun
  let k := schedAddblocked dtcb .inactive k
  let k ← taskDelete cfg false (k.tcb dtcb).pid k
  let k := k.setState rtcb .running
  some (schedUnlock false (mergeIfPending k))

def osStart (cfg : Config) : Kernel where
  tcb := update (fun _ => Tcb.zero) gIdletcb { Tcb.zero with taskState := .running }
  gPidhash := update (fun _ => ⟨0, invalidProcessId⟩) (pidhash cfg 0) ⟨gIdletcb, 0⟩
  gLastpid := 0
  list := update (fun _ => []) .readytorun [gIdletcb]

end NuttxAvr32.Sched
