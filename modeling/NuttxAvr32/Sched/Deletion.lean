import Mathlib.Data.List.Nodup
import Mathlib.Data.List.Perm.Basic
import NuttxAvr32.Lib.Runs

/-! # What still leads to a deleted TCB

`task_delete` and every place that keeps a TCB: the task lists, `g_pidhash`, the holders of
semaphores, the watchdogs of timed waits, timers and message queues. A TCB is never used again
for another task here, so that `stale` tells whether a step reads or writes one that
`task_delete` has freed.
-/

namespace NuttxAvr32.Sched.Deletion

open Runs
open Function (update update_self update_of_ne)

inductive TaskState
  | pending
  | ready
  | waitSem
  | waitSig
  | waitMqNotEmpty
  | waitMqNotFull
deriving DecidableEq

inductive Errno
  | ok
  | eintr
  | etimedout
deriving DecidableEq

/-- The call on the stack of a task. `mqBegin` has its watchdog and does not wait yet, `mqEnd`
has cancelled it. -/
inductive Call
  | none
  | sem (sem : Nat)
  | sig (wdog : Option Nat)
  | mqBegin (wdog : Nat)
  | mq (full : Bool) (msgq : Nat) (wdog : Option Nat)
  | mqEnd (wdog : Nat)
deriving DecidableEq

def Call.wdog : Call → Option Nat
  | none => .none
  | sem _ => .none
  | sig wdog => wdog
  | mqBegin wdog => some wdog
  | mq _ _ wdog => wdog
  | mqEnd wdog => some wdog

/-- What an active watchdog calls, with its parameter. -/
inductive Wdentry
  | sigTimeout (tcb : Nat)
  | mqTimeout (full : Bool) (pid : Nat)
  | timerTimeout (timer : Nat)
deriving DecidableEq

structure Holder where
  sem : Nat
  holder : Nat
  counts : Int

structure Timer where
  timer : Nat
  ptOwner : Nat
  ptWdog : Nat

/-- `waitdogs` are the watchdogs on the stacks, with their task. -/
structure Kernel where
  list : TaskState → List Nat
  running : Nat
  gPidhash : Nat → Option Nat
  pid : Nat → Nat
  taskState : Nat → TaskState
  waitsem : Nat → Option Nat
  msgwaitq : Nat → Option Nat
  pterrno : Nat → Errno
  call : Nat → Call
  semcount : Nat → Int
  holders : List Holder
  gWdfreelist : List Nat
  gWdactivelist : List (Nat × Wdentry)
  waitdogs : List (Nat × Nat)
  gAlloctimers : List Timer
  ntpid : Nat → Option Nat
  nwaitnotempty : Nat → Int
  nwaitnotfull : Nat → Int
  created : Nat → Bool
  deleted : Nat → Bool
  stale : Bool

def touch (tcbs : List Nat) (s : Kernel) : Kernel :=
  { s with stale := s.stale || tcbs.any s.deleted }

def schedGettcb (pid : Nat) (s : Kernel) : Option Nat := s.gPidhash pid

def move (tcb : Nat) (st : TaskState) (s : Kernel) : Kernel :=
  let list := update s.list (s.taskState tcb)
    ((s.list (s.taskState tcb)).filter fun t => t ≠ tcb)
  touch [tcb] { s with
    list := update list st (list st ++ [tcb])
    taskState := update s.taskState tcb st }

/-- `up_unblock_task`, to `g_pendingtasks` where the scheduler is locked. -/
def upUnblockTask (locked : Bool) (tcb : Nat) (s : Kernel) : Kernel :=
  move tcb (if locked then .pending else .ready) s

def upBlockTask (st : TaskState) (call : Call) (s : Kernel) : Kernel :=
  move s.running st { s with
    pterrno := update s.pterrno s.running .ok
    call := update s.call s.running call }

def verifies (tcb : Nat) (s : Kernel) : Bool := decide (s.gPidhash (s.pid tcb) = some tcb)

/-- `sem_foreachholder` with a handler that verifies the holder and changes its priority. -/
def foreachHolder (sem : Nat) (s : Kernel) : Kernel :=
  touch ((s.holders.filter fun h => h.sem = sem).map Holder.holder) { s with
    holders := s.holders.filter fun h => h.sem ≠ sem || verifies h.holder s }

def semAddholder (container : Bool) (sem : Nat) (s : Kernel) : Kernel :=
  if s.holders.any fun h => h.sem = sem && h.holder = s.running then
    { s with holders := s.holders.map fun h =>
        if h.sem = sem ∧ h.holder = s.running then { h with counts := h.counts + 1 } else h }
  else if container then { s with holders := s.holders ++ [⟨sem, s.running, 1⟩] }
  else s

def semReleaseholder (sem : Nat) (s : Kernel) : Kernel :=
  { s with holders := s.holders.map fun h =>
      if h.sem = sem ∧ h.holder = s.running ∧ 0 < h.counts then { h with counts := h.counts - 1 }
      else h }

def semDropholder (sem : Nat) (s : Kernel) : Kernel :=
  { s with holders := s.holders.filter fun h =>
      !(decide (h.sem = sem) && decide (h.holder = s.running) && decide (h.counts ≤ 0)) }

def semWait (container : Bool) (sem : Nat) (s : Kernel) : Kernel :=
  let t := { s with semcount := update s.semcount sem (s.semcount sem - 1) }
  if 0 < s.semcount sem then
    touch [s.running] (semAddholder container sem
      { t with waitsem := update t.waitsem s.running none })
  else
    upBlockTask .waitSem (.sem sem) (foreachHolder sem
      { t with waitsem := update t.waitsem s.running (some sem) })

/-- The first task of a list that waits for an object, and the TCBs on the way to it. -/
def scan (waits : Nat → Option Nat) (object : Nat) (list : List Nat) : List Nat × Option Nat :=
  let found := list.find? fun t => waits t = some object
  (list.takeWhile (fun t => waits t ≠ some object) ++ found.toList, found)

def semPost (locked : Bool) (sem : Nat) (s : Kernel) : Kernel :=
  let s := semReleaseholder sem s
  let s := { s with semcount := update s.semcount sem (s.semcount sem + 1) }
  if s.semcount sem ≤ 0 then
    let r := scan s.waitsem sem (s.list .waitSem)
    let s := touch r.1 s
    match r.2 with
    | some tcb => semDropholder sem (foreachHolder sem (upUnblockTask locked tcb
        { s with waitsem := update s.waitsem tcb none }))
    | none => semDropholder sem s
  else semDropholder sem s

def semWaitirq (locked : Bool) (tcb : Nat) (s : Kernel) : Kernel :=
  match s.waitsem tcb with
  | some sem =>
    let s := foreachHolder sem s
    upUnblockTask locked tcb { s with
      semcount := update s.semcount sem (s.semcount sem + 1)
      waitsem := update s.waitsem tcb none
      pterrno := update s.pterrno tcb .eintr }
  | none => s

def wdCreate (s : Kernel) : Option (Nat × Kernel) :=
  match s.gWdfreelist with
  | [] => none
  | w :: free => some (w, { s with
      gWdfreelist := free
      waitdogs := (s.running, w) :: s.waitdogs })

def wdCancel (w : Nat) (s : Kernel) : Kernel :=
  { s with gWdactivelist := s.gWdactivelist.filter fun x => x.1 ≠ w }

def wdStart (w : Nat) (wdentry : Wdentry) (s : Kernel) : Kernel :=
  let s := wdCancel w s
  { s with gWdactivelist := (w, wdentry) :: s.gWdactivelist }

def wdDelete (w : Nat) (s : Kernel) : Kernel :=
  let s := wdCancel w s
  { s with
    gWdfreelist := s.gWdfreelist ++ [w]
    waitdogs := s.waitdogs.erase (s.running, w) }

def sigtimedwait (timeout : Bool) (s : Kernel) : Kernel :=
  let s := touch [s.running] s
  if timeout then
    match wdCreate s with
    | none => s
    | some (w, s) => upBlockTask .waitSig (.sig (some w)) (wdStart w (.sigTimeout s.running) s)
  else upBlockTask .waitSig (.sig none) s

def mqWaitirq (locked : Bool) (tcb : Nat) (s : Kernel) : Kernel :=
  upUnblockTask locked tcb { s with pterrno := update s.pterrno tcb .eintr }

/-- A signal of `sig_tcbdispatch` that ends the wait of a task. -/
def sigTcbdispatch (locked : Bool) (tcb : Nat) (s : Kernel) : Kernel :=
  let s := touch [tcb] s
  match s.taskState tcb with
  | .waitSig => upUnblockTask locked tcb s
  | .waitSem => semWaitirq locked tcb s
  | .waitMqNotEmpty => mqWaitirq locked tcb s
  | .waitMqNotFull => mqWaitirq locked tcb s
  | _ => s

def mqState (full : Bool) : TaskState := if full then .waitMqNotFull else .waitMqNotEmpty

/-- The wait of `mq_waitreceive` or, with `full`, of `mq_waitsend`, which counts the waiting
task in `nwaitnotempty` too. -/
def mqWait (full : Bool) (msgq : Nat) (wdog : Option Nat) (s : Kernel) : Kernel :=
  upBlockTask (mqState full) (.mq full msgq wdog) { s with
    msgwaitq := update s.msgwaitq s.running (some msgq)
    nwaitnotempty := update s.nwaitnotempty msgq (s.nwaitnotempty msgq + 1) }

def mqTimed (s : Kernel) : Kernel :=
  match wdCreate s with
  | none => s
  | some (w, s) => { s with call := update s.call s.running (.mqBegin w) }

/-- The loop over `g_waitingformqnotempty` in `mq_dosend`, and over `g_waitingformqnotfull` with
`full` in `mq_doreceive`. No step where it panics. -/
def mqWake (locked full : Bool) (msgq : Nat) (s : Kernel) : Option Kernel :=
  let n := if full then s.nwaitnotfull msgq else s.nwaitnotempty msgq
  if 0 < n then
    let r := scan s.msgwaitq msgq (s.list (mqState full))
    let s := touch r.1 s
    r.2.map fun tcb => upUnblockTask locked tcb { s with
      msgwaitq := update s.msgwaitq tcb none
      nwaitnotempty := if full then s.nwaitnotempty
        else update s.nwaitnotempty msgq (s.nwaitnotempty msgq - 1)
      nwaitnotfull := if full then update s.nwaitnotfull msgq (s.nwaitnotfull msgq - 1)
        else s.nwaitnotfull }
  else some s

/-- The notification of `mq_dosend`: `sig_mqnotempty` looks the task up. -/
def mqNotempty (locked : Bool) (msgq : Nat) (s : Kernel) : Kernel :=
  match s.ntpid msgq with
  | none => s
  | some pid =>
    let s := { s with ntpid := update s.ntpid msgq none }
    match schedGettcb pid s with
    | none => s
    | some tcb => sigTcbdispatch locked tcb s

def sigTimeout (locked : Bool) (tcb : Nat) (s : Kernel) : Kernel :=
  let s := touch [tcb] s
  if s.taskState tcb = .waitSig then upUnblockTask locked tcb s else s

def mqTimeout (locked full : Bool) (pid : Nat) (s : Kernel) : Kernel :=
  match schedGettcb pid s with
  | none => s
  | some tcb =>
    let s := touch [tcb] s
    if s.taskState tcb = mqState full then
      upUnblockTask locked tcb { s with
        pterrno := update s.pterrno tcb .etimedout }
    else s

def timerTimeout (locked : Bool) (timer : Nat) (s : Kernel) : Kernel :=
  match s.gAlloctimers.find? fun x => x.timer = timer with
  | none => s
  | some x =>
    match schedGettcb x.ptOwner s with
    | none => s
    | some tcb => sigTcbdispatch locked tcb s

/-- `wd_timer` takes an expired watchdog off the list and calls its function. -/
def expire (locked : Bool) (x : Nat × Wdentry) (s : Kernel) : Kernel :=
  let s := { s with gWdactivelist := s.gWdactivelist.filter fun y => y.1 ≠ x.1 }
  match x.2 with
  | .sigTimeout tcb => sigTimeout locked tcb s
  | .mqTimeout full pid => mqTimeout locked full pid s
  | .timerTimeout timer => timerTimeout locked timer s

/-- The running task returns from `up_block_task`. A message queue can be as it was before. -/
def resume (container again : Bool) (s : Kernel) : Kernel :=
  let return_ := fun s : Kernel => { s with call := update s.call s.running .none }
  let s := touch [s.running] s
  match s.call s.running with
  | .none => s
  | .sem sem =>
    if s.pterrno s.running ≠ .eintr then return_ (semAddholder container sem s) else return_ s
  | .sig none => return_ s
  | .sig (some w) => return_ (wdDelete w s)
  | .mqBegin w => { wdCancel w s with call := update s.call s.running (.mqEnd w) }
  | .mq full msgq wdog =>
    if s.pterrno s.running = .ok ∧ again = true then mqWait full msgq wdog s
    else
      match wdog with
      | none => return_ s
      | some w => { wdCancel w s with call := update s.call s.running (.mqEnd w) }
  | .mqEnd w => return_ (wdDelete w s)

def mqTimedwait (full : Bool) (msgq : Nat) (s : Kernel) : Kernel :=
  match s.call s.running with
  | .mqBegin w => mqWait full msgq (some w)
      (wdStart w (.mqTimeout full (s.pid s.running)) s)
  | _ => s

def timerCreate (timer : Nat) (s : Kernel) : Kernel :=
  match s.gWdfreelist with
  | [] => s
  | w :: free => { s with
      gWdfreelist := free
      gAlloctimers := s.gAlloctimers ++ [⟨timer, s.pid s.running, w⟩] }

def timerDelete (which : Timer → Bool) (s : Kernel) : Kernel :=
  { s with
    gWdactivelist := s.gWdactivelist.filter fun x =>
      !((s.gAlloctimers.filter which).any fun y => y.ptWdog = x.1)
    gWdfreelist := s.gWdfreelist ++ (s.gAlloctimers.filter which).map Timer.ptWdog
    gAlloctimers := s.gAlloctimers.filter fun y => !which y }

def timerDeleteall (pid : Nat) (s : Kernel) : Kernel :=
  timerDelete (fun y => decide (y.ptOwner = pid)) s

def taskCreate (tcb pid : Nat) (s : Kernel) : Kernel :=
  { s with
    list := update s.list .ready (s.list .ready ++ [tcb])
    gPidhash := update s.gPidhash pid (some tcb)
    pid := update s.pid tcb pid
    taskState := update s.taskState tcb .ready
    call := update s.call tcb .none
    created := update s.created tcb true }

/-- `sched_releasetcb`: the stack goes too, with the variables on it. -/
def schedReleasetcb (tcb : Nat) (s : Kernel) : Kernel :=
  let s := timerDeleteall (s.pid tcb) (touch [tcb] s)
  { s with
    gPidhash := update s.gPidhash (s.pid tcb) none
    waitdogs := s.waitdogs.filter fun x => x.1 ≠ tcb
    call := update s.call tcb .none }

def taskDelete (pid : Nat) (s : Kernel) : Kernel :=
  match schedGettcb pid s with
  | none => s
  | some tcb =>
    let s := touch [tcb] s
    let s := schedReleasetcb tcb { s with
      list := update s.list (s.taskState tcb)
        ((s.list (s.taskState tcb)).filter fun t => t ≠ tcb) }
    { s with deleted := update s.deleted tcb true }

def taskDeletecurrent (next : Nat) (s : Kernel) : Kernel :=
  let tcb := s.running
  let s := schedReleasetcb tcb { s with
    list := update s.list (s.taskState tcb)
      ((s.list (s.taskState tcb)).filter fun t => t ≠ tcb) }
  { s with running := next }

inductive Op
  | create (tcb pid : Nat)
  | delete (pid : Nat)
  | exit (next : Nat)
  | switch (tcb : Nat)
  | merge (tcb : Nat)
  | semWait (container : Bool) (sem : Nat)
  | semPost (locked : Bool) (sem : Nat)
  | sigtimedwait (timeout : Bool)
  | kill (locked : Bool) (pid : Nat)
  | mqWait (full : Bool) (msgq : Nat)
  | mqTimed
  | mqTimedwait (full : Bool) (msgq : Nat)
  | mqWake (locked full : Bool) (msgq : Nat)
  | mqNotify (msgq : Nat)
  | mqNotempty (locked : Bool) (msgq : Nat)
  | resume (container again : Bool)
  | timerCreate (timer : Nat)
  | timerSettime (timer wdog : Nat)
  | timerDelete (timer : Nat)
  | expire (locked : Bool) (x : Nat × Wdentry)

namespace Op

def exec : Op → Kernel → Option Kernel
  | create tcb pid, s => some (taskCreate tcb pid s)
  | delete pid, s => some (taskDelete pid s)
  | exit next, s => some (taskDeletecurrent next s)
  | switch tcb, s => some (touch [tcb] { s with running := tcb })
  | merge tcb, s => some (move tcb .ready s)
  | .semWait container sem, s => some (Deletion.semWait container sem s)
  | .semPost locked sem, s => some (Deletion.semPost locked sem s)
  | .sigtimedwait timeout, s => some (Deletion.sigtimedwait timeout s)
  | kill locked pid, s => match schedGettcb pid s with
    | none => some s
    | some tcb => some (sigTcbdispatch locked tcb s)
  | .mqWait full msgq, s => some (Deletion.mqWait full msgq none s)
  | .mqTimed, s => some (Deletion.mqTimed s)
  | .mqTimedwait full msgq, s => some (Deletion.mqTimedwait full msgq s)
  | .mqWake locked full msgq, s => Deletion.mqWake locked full msgq s
  | mqNotify msgq, s => some { s with
      ntpid := update s.ntpid msgq (some (s.pid s.running)) }
  | .mqNotempty locked msgq, s => some (Deletion.mqNotempty locked msgq s)
  | .resume container again, s => some (Deletion.resume container again s)
  | .timerCreate timer, s => some (Deletion.timerCreate timer s)
  | timerSettime timer wdog, s => some (wdStart wdog (.timerTimeout timer) s)
  | .timerDelete timer, s => some (Deletion.timerDelete (fun y => decide (y.timer = timer)) s)
  | .expire locked x, s => some (Deletion.expire locked x s)

/-- The task with the processor, that is in no call, or in the one it goes on with. -/
def Runs (s : Kernel) : Prop := s.running ∈ s.list .ready

def valid (s : Kernel) : Op → Prop
  | create tcb pid => s.created tcb = false ∧ s.gPidhash pid = none
  | delete pid => Runs s ∧ s.gPidhash pid ≠ some s.running
  | exit next => Runs s ∧ s.call s.running = .none ∧ next ≠ s.running ∧ next ∈ s.list .ready
  | switch tcb => tcb ∈ s.list .ready
  | merge tcb => tcb ∈ s.list .pending
  | .semWait _ _ => Runs s ∧ s.call s.running = .none
  | .semPost _ _ => Runs s
  | .sigtimedwait _ => Runs s ∧ s.call s.running = .none
  | kill _ _ => True
  | .mqWait _ _ => Runs s ∧ s.call s.running = .none
  | .mqTimed => Runs s ∧ s.call s.running = .none
  | .mqTimedwait _ _ => Runs s
  | .mqWake _ _ _ => True
  | mqNotify _ => Runs s
  | .mqNotempty _ _ => True
  | .resume _ _ => Runs s
  | .timerCreate timer => Runs s ∧ ∀ y ∈ s.gAlloctimers, y.timer ≠ timer
  | timerSettime timer wdog => ∃ y ∈ s.gAlloctimers, y.timer = timer ∧ y.ptWdog = wdog
  | .timerDelete _ => True
  | .expire _ x => x ∈ s.gWdactivelist

/-- The deleted task has no watchdog for a wait, and no semaphore records it as a holder. -/
def keeps (s : Kernel) : Op → Prop
  | delete pid => ∀ tcb ∈ s.gPidhash pid, (s.call tcb).wdog = none ∧
      ∀ h ∈ s.holders, h.holder ≠ tcb
  | _ => True

end Op

def deletionMachine : Machine Kernel Op where
  valid s i := i.valid s
  exec s i := i.exec s

/-- `os_start` has made the first task, and the watchdogs of `pool` are free. -/
structure Start (pool : List Nat) (s : Kernel) : Prop where
  nodup : pool.Nodup
  list : ∀ st t, t ∈ s.list st → st = .ready ∧ t = s.running
  running : s.taskState s.running = .ready ∧ s.created s.running = true
  gPidhash : ∀ p t, s.gPidhash p = some t → t = s.running ∧ s.pid t = p
  call : ∀ t, s.call t = .none
  holders : s.holders = []
  wdogs : s.gWdfreelist = pool ∧ s.gWdactivelist = [] ∧ s.waitdogs = [] ∧ s.gAlloctimers = []
  deleted : ∀ t, s.deleted t = false
  stale : s.stale = false

/-- `leads`: no list, process id, holder record or active watchdog leads to a deleted TCB. Timers
and notifications find their task by its process id. `pool`: each watchdog is free, on the stack
of a task that is not deleted, or that of a timer. -/
structure Correct (pool : List Nat) (s : Kernel) : Prop where
  stale : s.stale = false
  lists : ∀ st t, t ∈ s.list st → s.deleted t = false
  pids : ∀ p t, schedGettcb p s = some t → s.deleted t = false
  holders : ∀ h ∈ s.holders, s.deleted h.holder = false
  wdogs : ∀ w t, (w, Wdentry.sigTimeout t) ∈ s.gWdactivelist → s.deleted t = false
  pool : (s.gWdfreelist ++ (s.waitdogs.map Prod.snd ++ s.gAlloctimers.map Timer.ptWdog)).Perm pool
  waits : ∀ x ∈ s.waitdogs, s.deleted x.1 = false

structure Inv (pool : List Nat) (s : Kernel) : Prop where
  nodup : pool.Nodup
  stale : s.stale = false
  fresh : ∀ t, s.created t = false → s.deleted t = false
  lists : ∀ st t, t ∈ s.list st →
    s.deleted t = false ∧ s.created t = true ∧ s.taskState t = st
  hash : ∀ p t, s.gPidhash p = some t →
    s.deleted t = false ∧ s.created t = true ∧ s.pid t = p
  holders : ∀ h ∈ s.holders, s.deleted h.holder = false ∧ s.created h.holder = true
  wdogs : ∀ w t, (w, Wdentry.sigTimeout t) ∈ s.gWdactivelist → (t, w) ∈ s.waitdogs
  alive : ∀ t w, (t, w) ∈ s.waitdogs → s.deleted t = false ∧ s.created t = true
  waits : ∀ t w, (t, w) ∈ s.waitdogs ↔ (s.call t).wdog = some w
  pool : (s.gWdfreelist ++ (s.waitdogs.map Prod.snd ++ s.gAlloctimers.map Timer.ptWdog)).Perm pool

variable {pool : List Nat} {s : Kernel}

theorem Inv.correct (I : Inv pool s) : Correct pool s where
  stale := I.stale
  lists st t h := (I.lists st t h).1
  pids p t h := (I.hash p t h).1
  holders h hm := (I.holders h hm).1
  wdogs w t h := (I.alive t w (I.wdogs w t h)).1
  pool := I.pool
  waits x h := (I.alive x.1 x.2 h).1

theorem Start.inv (h : Start pool s) : Inv pool s where
  nodup := h.nodup
  stale := h.stale
  fresh t _ := h.deleted t
  lists st t ht := by
    obtain ⟨rfl, rfl⟩ := h.list st t ht
    exact ⟨h.deleted _, h.running.2, h.running.1⟩
  hash p t ht := by
    obtain ⟨rfl, hp⟩ := h.gPidhash p t ht
    exact ⟨h.deleted _, h.running.2, hp⟩
  holders := by simp [h.holders]
  wdogs := by simp [h.wdogs.2.1]
  alive := by simp [h.wdogs.2.2.1]
  waits t w := by simp [h.wdogs.2.2.1, h.call t, Call.wdog]
  pool := by simp [h.wdogs.1, h.wdogs.2.2.1, h.wdogs.2.2.2]

theorem Inv.touch (I : Inv pool s) {tcbs : List Nat} (h : ∀ t ∈ tcbs, s.deleted t = false) :
    Inv pool (touch tcbs s) :=
  { I with
    stale := by
      simp only [Deletion.touch, I.stale, Bool.false_or, List.any_eq_false]
      intro t ht
      simp [h t ht] }

theorem Inv.touchOne (I : Inv pool s) {t : Nat} (h : s.deleted t = false) :
    Inv pool (Deletion.touch [t] s) := by
  apply I.touch
  intro u hu
  rw [List.mem_singleton.mp hu]
  exact h

theorem Inv.move (I : Inv pool s) {t : Nat} (hd : s.deleted t = false)
    (hc : s.created t = true) (st : TaskState) : Inv pool (move t st s) := by
  apply Inv.touchOne
  · exact { I with
      lists := by
        intro st' u hu
        have hold : u ∈ update s.list (s.taskState t)
            ((s.list (s.taskState t)).filter fun u => u ≠ t) st' →
            u ≠ t ∧ u ∈ s.list st' := by
          intro hm
          by_cases hst : st' = s.taskState t
          · subst hst
            simpa [and_comm] using hm
          · rw [update_of_ne hst] at hm
            refine ⟨?_, hm⟩
            rintro rfl
            exact hst (I.lists st' u hm).2.2.symm
        by_cases hst : st' = st
        · subst hst
          simp only [update_self, List.mem_append, List.mem_singleton] at hu
          rcases hu with hu | rfl
          · obtain ⟨hne, hu⟩ := hold hu
            simpa [update_of_ne hne] using I.lists st' u hu
          · simp [hd, hc]
        · simp only [update_of_ne hst] at hu
          obtain ⟨hne, hu⟩ := hold hu
          simpa [update_of_ne hne] using I.lists st' u hu }
  · exact hd

theorem Inv.unblock (I : Inv pool s) {t : Nat} (hd : s.deleted t = false)
    (hc : s.created t = true) (locked : Bool) : Inv pool (upUnblockTask locked t s) :=
  I.move hd hc _

theorem Inv.setWait (I : Inv pool s) (msgwaitq : Nat → Option Nat) (pterrno : Nat → Errno)
    (nwaitnotempty nwaitnotfull : Nat → Int) : Inv pool { s with
      msgwaitq := msgwaitq
      pterrno := pterrno
      nwaitnotempty := nwaitnotempty
      nwaitnotfull := nwaitnotfull } :=
  { I with }

theorem Inv.setWaitdogs (I : Inv pool s) {waitdogs : List (Nat × Nat)}
    (h : waitdogs = s.waitdogs) : Inv pool { s with waitdogs := waitdogs } := by
  subst h
  exact I

theorem Inv.setCall (I : Inv pool s) {r : Nat} {c : Call} (h : c.wdog = (s.call r).wdog) :
    Inv pool { s with call := update s.call r c } :=
  { I with
    waits := by
      intro t w
      by_cases ht : t = r
      · subst ht
        simpa [h] using I.waits t w
      · simpa [update_of_ne ht] using I.waits t w }

theorem Inv.block (I : Inv pool s) (hr : s.running ∈ s.list .ready) {c : Call}
    (h : c.wdog = (s.call s.running).wdog) (st : TaskState) :
    Inv pool (upBlockTask st c s) := by
  obtain ⟨hd, hc, -⟩ := I.lists _ _ hr
  have J : Inv pool { s with
      pterrno := update s.pterrno s.running .ok
      call := update s.call s.running c } := { I.setCall h with }
  exact J.move hd hc st

theorem Inv.setHolders (I : Inv pool s) {holders : List Holder}
    (h : ∀ x ∈ holders, ∃ y ∈ s.holders, x.holder = y.holder) :
    Inv pool { s with holders := holders } :=
  { I with
    holders := by
      intro x hx
      obtain ⟨y, hy, he⟩ := h x hx
      rw [he]
      exact I.holders y hy }

theorem Inv.foreachHolder (I : Inv pool s) (sem : Nat) : Inv pool (foreachHolder sem s) := by
  apply Inv.touch
  · apply I.setHolders
    intro x hx
    exact ⟨x, List.mem_of_mem_filter hx, rfl⟩
  · intro t ht
    obtain ⟨y, hy, rfl⟩ := List.mem_map.mp ht
    exact (I.holders y (List.mem_of_mem_filter hy)).1

theorem Inv.addholder (I : Inv pool s) (hr : s.running ∈ s.list .ready) (container : Bool)
    (sem : Nat) : Inv pool (semAddholder container sem s) := by
  obtain ⟨hd, hc, -⟩ := I.lists _ _ hr
  unfold semAddholder
  split
  · apply I.setHolders
    intro x hx
    obtain ⟨y, hy, rfl⟩ := List.mem_map.mp hx
    refine ⟨y, hy, ?_⟩
    split <;> rfl
  · split
    · exact { I with
        holders := by
          intro x hx
          rcases List.mem_append.mp hx with hx | hx
          · exact I.holders x hx
          · rw [List.mem_singleton.mp hx]
            exact ⟨hd, hc⟩ }
    · exact I

theorem semAddholder_call (container : Bool) (sem : Nat) (s : Kernel) :
    (semAddholder container sem s).call (semAddholder container sem s).running =
      s.call s.running := by
  unfold semAddholder
  split
  · rfl
  · split <;> rfl

theorem Inv.releaseholder (I : Inv pool s) (sem : Nat) :
    Inv pool (semReleaseholder sem s) := by
  apply I.setHolders
  intro x hx
  obtain ⟨y, hy, rfl⟩ := List.mem_map.mp hx
  refine ⟨y, hy, ?_⟩
  split <;> rfl

theorem Inv.dropholder (I : Inv pool s) (sem : Nat) : Inv pool (semDropholder sem s) := by
  apply I.setHolders
  intro x hx
  exact ⟨x, List.mem_of_mem_filter hx, rfl⟩

theorem Inv.wdCancel (I : Inv pool s) (w : Nat) : Inv pool (wdCancel w s) :=
  { I with wdogs := fun w' t h => I.wdogs w' t (List.mem_of_mem_filter h) }

theorem Inv.wdStart (I : Inv pool s) {w : Nat} {e : Wdentry}
    (h : ∀ t, e = .sigTimeout t → (t, w) ∈ s.waitdogs) : Inv pool (wdStart w e s) :=
  { I.wdCancel w with
    wdogs := by
      intro w' t hm
      rcases List.mem_cons.mp hm with he | hm
      · obtain ⟨rfl, htimeout⟩ := Prod.mk.inj he
        exact h t htimeout.symm
      · exact I.wdogs w' t (List.mem_of_mem_filter hm) }

theorem Inv.wdCreate (I : Inv pool s) (hr : s.running ∈ s.list .ready)
    (hcall : s.call s.running = .none) {w : Nat} {t : Kernel}
    (h : wdCreate s = some (w, t)) {c : Call} (hc : c.wdog = some w) :
    (s.running, w) ∈ t.waitdogs ∧ t.running = s.running ∧ t.list = s.list ∧
      Inv pool { t with call := update t.call s.running c } := by
  obtain ⟨hd, hcr, -⟩ := I.lists _ _ hr
  unfold Deletion.wdCreate at h
  cases hf : s.gWdfreelist with
  | nil =>
    rw [hf] at h
    cases h
  | cons w' free =>
    rw [hf] at h
    obtain ⟨rfl, rfl⟩ := Prod.mk.inj (Option.some.inj h)
    refine ⟨List.mem_cons_self, rfl, rfl, ?_⟩
    have hp := I.pool
    rw [hf] at hp
    exact { I with
      wdogs := fun w t hm => List.mem_cons_of_mem _ (I.wdogs w t hm)
      alive := by
        intro t w hm
        rcases List.mem_cons.mp hm with he | hm
        · rw [(Prod.mk.inj he).1]
          exact ⟨hd, hcr⟩
        · exact I.alive t w hm
      waits := by
        intro t w
        by_cases ht : t = s.running
        · subst ht
          have hw := I.waits s.running w
          rw [hcall] at hw
          simp only [Call.wdog, reduceCtorEq, iff_false] at hw
          simp [hw, hc, eq_comm]
        · simpa [update_of_ne ht, ht] using I.waits t w
      pool := by
        refine List.Perm.trans ?_ hp
        simp only [List.map_cons, List.cons_append]
        exact List.perm_middle }

theorem Inv.wdDelete (I : Inv pool s) {w : Nat} (hcall : (s.call s.running).wdog = some w) :
    Inv pool { wdDelete w s with call := update s.call s.running .none } := by
  have hmem := (I.waits s.running w).2 hcall
  have hnd : s.waitdogs.Nodup := by
    have hn := (I.pool.nodup_iff).2 I.nodup
    exact List.Nodup.of_map _ (List.nodup_append.mp (List.nodup_append.mp hn).2.1).1
  exact { I with
    wdogs := by
      intro w' t hm
      have hne : w' ≠ w := by simpa using List.of_mem_filter hm
      refine (List.mem_erase_of_ne ?_).2 (I.wdogs w' t (List.mem_of_mem_filter hm))
      intro he
      exact hne (Prod.mk.inj he).2
    alive := fun t w' hm => I.alive t w' (List.mem_of_mem_erase hm)
    waits := by
      intro t w'
      change (t, w') ∈ s.waitdogs.erase (s.running, w) ↔ _
      rw [hnd.mem_erase_iff, I.waits t w']
      by_cases ht : t = s.running
      · subst ht
        rw [hcall]
        simp only [update_self, Call.wdog, reduceCtorEq, iff_false, not_and]
        intro hne he
        exact hne (by rw [Option.some.inj he])
      · simp [ht]
    pool := by
      refine List.Perm.trans ?_ I.pool
      simp only [Deletion.wdDelete, Deletion.wdCancel, List.append_assoc]
      refine List.Perm.append_left _ ?_
      rw [← List.append_assoc]
      refine List.Perm.append_right _ ?_
      exact ((List.perm_cons_erase hmem).map Prod.snd).symm }

theorem Inv.timerDelete (I : Inv pool s) (which : Timer → Bool) :
    Inv pool (timerDelete which s) :=
  { I with
    wdogs := fun w t hm => I.wdogs w t (List.mem_of_mem_filter hm)
    pool := by
      refine List.Perm.trans ?_ I.pool
      have hp := ((List.filter_append_perm which s.gAlloctimers).map Timer.ptWdog)
      rw [List.map_append] at hp
      simp only [Deletion.timerDelete, List.append_assoc]
      refine List.Perm.append_left _ ?_
      refine List.perm_append_comm_assoc _ _ _ |>.trans ?_
      exact hp.append_left _ }

theorem Inv.semWait (I : Inv pool s) (hr : s.running ∈ s.list .ready)
    (hcall : s.call s.running = .none) (container : Bool) (sem : Nat) :
    Inv pool (semWait container sem s) := by
  obtain ⟨hd, -, -⟩ := I.lists _ _ hr
  unfold Deletion.semWait
  dsimp only
  split
  · have J : Inv pool { s with
        semcount := update s.semcount sem (s.semcount sem - 1)
        waitsem := update s.waitsem s.running none } := { I with }
    have hr' : (semAddholder container sem { s with
        semcount := update s.semcount sem (s.semcount sem - 1)
        waitsem := update s.waitsem s.running none }).deleted = s.deleted := by
      unfold semAddholder
      split
      · rfl
      · split <;> rfl
    apply (J.addholder hr container sem).touchOne
    rw [hr']
    exact hd
  · have J : Inv pool { s with
        semcount := update s.semcount sem (s.semcount sem - 1)
        waitsem := update s.waitsem s.running (some sem) } := { I with }
    refine (J.foreachHolder sem).block hr ?_ _
    simp [Deletion.foreachHolder, Deletion.touch, hcall, Call.wdog]

theorem Inv.scan (I : Inv pool s) (waits : Nat → Option Nat) (object : Nat) (st : TaskState) :
    (∀ t ∈ (scan waits object (s.list st)).1, s.deleted t = false) ∧
      ∀ t ∈ (scan waits object (s.list st)).2, s.deleted t = false ∧ s.created t = true := by
  constructor
  · intro t ht
    rcases List.mem_append.mp ht with ht | ht
    · exact (I.lists st t ((List.takeWhile_sublist _).mem ht)).1
    · exact (I.lists st t (List.mem_of_find?_eq_some (Option.mem_toList.mp ht))).1
  · intro t ht
    obtain ⟨hd, hc, -⟩ := I.lists st t (List.mem_of_find?_eq_some ht)
    exact ⟨hd, hc⟩

theorem Inv.semPost (I : Inv pool s) (locked : Bool) (sem : Nat) :
    Inv pool (semPost locked sem s) := by
  unfold Deletion.semPost
  have J := I.releaseholder sem
  generalize semReleaseholder sem s = t at J
  have K : Inv pool { t with
      semcount := update t.semcount sem (t.semcount sem + 1) } := { J with }
  dsimp only
  split
  · obtain ⟨hvisit, hfound⟩ := K.scan t.waitsem sem .waitSem
    have L := K.touch hvisit
    split
    · rename_i tcb htcb
      obtain ⟨hd, hc⟩ := hfound tcb htcb
      have M : Inv pool { Deletion.touch (Deletion.scan t.waitsem sem (t.list .waitSem)).1
          { t with semcount := update t.semcount sem (t.semcount sem + 1) } with
        waitsem := update t.waitsem tcb none } := { L with }
      exact ((M.unblock hd hc locked).foreachHolder sem).dropholder sem
    · exact L.dropholder sem
  · exact K.dropholder sem

theorem Inv.dispatch (I : Inv pool s) {t : Nat} (hd : s.deleted t = false)
    (hc : s.created t = true) (locked : Bool) : Inv pool (sigTcbdispatch locked t s) := by
  have J := I.touchOne hd
  have hmq : Inv pool (mqWaitirq locked t (Deletion.touch [t] s)) := by
    have K : Inv pool { Deletion.touch [t] s with
        pterrno := update s.pterrno t .eintr } := { J with }
    exact K.unblock hd hc locked
  unfold sigTcbdispatch
  dsimp only
  split
  · exact J.unblock hd hc locked
  · unfold semWaitirq
    split
    · rename_i sem hsem
      have K := J.foreachHolder sem
      have L : Inv pool { Deletion.foreachHolder sem (Deletion.touch [t] s) with
          semcount := update s.semcount sem (s.semcount sem + 1)
          waitsem := update s.waitsem t none
          pterrno := update s.pterrno t .eintr } := { K with }
      exact L.unblock hd hc locked
    · exact J
  · exact hmq
  · exact hmq
  · exact J

theorem Inv.sigtimedwait (I : Inv pool s) (hr : s.running ∈ s.list .ready)
    (hcall : s.call s.running = .none) (timeout : Bool) :
    Inv pool (sigtimedwait timeout s) := by
  obtain ⟨hd, hcr, -⟩ := I.lists _ _ hr
  have J := I.touchOne hd
  unfold Deletion.sigtimedwait
  dsimp only
  split
  · split
    · exact J
    · rename_i w t ht
      obtain ⟨hm, hrun, hl, K⟩ := J.wdCreate hr hcall ht (c := .sig (some w)) rfl
      have hready : t.running ∈ t.list .ready := by
        rw [hrun, hl]
        exact hr
      rw [← hrun] at hm K
      have L := K.wdStart (w := w) (e := .sigTimeout t.running) fun u hu => by
        cases hu
        exact hm
      have M : Inv pool { Deletion.wdStart w (.sigTimeout t.running) t with
          pterrno := update t.pterrno t.running .ok
          call := update t.call t.running (.sig (some w)) } := { L with }
      obtain ⟨hd', hc', -⟩ := M.lists .ready t.running hready
      exact M.move hd' hc' _
  · exact J.block hr (by simp [Deletion.touch, hcall, Call.wdog]) _

theorem Inv.mqWait (I : Inv pool s) (hr : s.running ∈ s.list .ready) {wdog : Option Nat}
    (hw : wdog = (s.call s.running).wdog) (full : Bool) (msgq : Nat) :
    Inv pool (mqWait full msgq wdog s) := by
  have J : Inv pool { s with
      msgwaitq := update s.msgwaitq s.running (some msgq)
      nwaitnotempty := update s.nwaitnotempty msgq (s.nwaitnotempty msgq + 1) } :=
    { I with }
  exact J.block hr (c := .mq full msgq wdog) hw _

theorem Inv.mqTimed (I : Inv pool s) (hr : s.running ∈ s.list .ready)
    (hcall : s.call s.running = .none) : Inv pool (mqTimed s) := by
  unfold Deletion.mqTimed
  split
  · exact I
  · rename_i w t ht
    obtain ⟨-, hrun, -, J⟩ := I.wdCreate hr hcall ht (c := .mqBegin w) rfl
    rw [← hrun] at J
    exact J

theorem Inv.mqTimedwait (I : Inv pool s) (hr : s.running ∈ s.list .ready) (full : Bool)
    (msgq : Nat) : Inv pool (mqTimedwait full msgq s) := by
  unfold Deletion.mqTimedwait
  split
  · rename_i w hw
    have J := I.wdStart (w := w) (e := .mqTimeout full (s.pid s.running)) fun t ht => by cases ht
    apply J.mqWait hr
    simp [Deletion.wdStart, Deletion.wdCancel, hw, Call.wdog]
  · exact I

theorem Inv.mqWake (I : Inv pool s) {locked full : Bool} {msgq : Nat} {t : Kernel}
    (h : mqWake locked full msgq s = some t) : Inv pool t := by
  unfold Deletion.mqWake at h
  dsimp only at h
  by_cases hn : 0 < if full then s.nwaitnotfull msgq else s.nwaitnotempty msgq
  · rw [if_pos hn] at h
    obtain ⟨hvisit, hfound⟩ := I.scan s.msgwaitq msgq (mqState full)
    have J := I.touch hvisit
    obtain ⟨tcb, htcb, rfl⟩ := Option.map_eq_some_iff.mp h
    obtain ⟨hd, hc⟩ := hfound tcb htcb
    exact (J.setWait _ _ _ _).unblock hd hc locked
  · rw [if_neg hn] at h
    exact Option.some.inj h ▸ I

theorem Inv.mqNotempty (I : Inv pool s) (locked : Bool) (msgq : Nat) :
    Inv pool (mqNotempty locked msgq s) := by
  unfold Deletion.mqNotempty
  split
  · exact I
  · rename_i pid hpid
    have J : Inv pool { s with ntpid := update s.ntpid msgq none } := { I with }
    dsimp only
    split
    · exact J
    · rename_i tcb htcb
      obtain ⟨hd, hc, -⟩ := I.hash pid tcb htcb
      exact J.dispatch hd hc locked

theorem Inv.expire (I : Inv pool s) (locked : Bool) {x : Nat × Wdentry}
    (hx : x ∈ s.gWdactivelist) : Inv pool (expire locked x s) := by
  have J := I.wdCancel x.1
  obtain ⟨w, e⟩ := x
  unfold Deletion.expire
  cases e with
  | sigTimeout tcb =>
    obtain ⟨hd, hc⟩ := I.alive tcb w (I.wdogs w tcb hx)
    have K := J.touchOne hd
    dsimp only
    unfold sigTimeout
    dsimp only
    split
    · exact K.unblock hd hc locked
    · exact K
  | mqTimeout full pid =>
    dsimp only
    unfold mqTimeout
    split
    · exact J
    · rename_i tcb htcb
      obtain ⟨hd, hc, -⟩ := I.hash pid tcb htcb
      have K := J.touchOne hd
      dsimp only
      split
      · exact (K.setWait _ _ _ _).unblock hd hc locked
      · exact K
  | timerTimeout timer =>
    dsimp only
    unfold timerTimeout
    split
    · exact J
    · split
      · exact J
      · rename_i y _ _ tcb htcb
        obtain ⟨hd, hc, -⟩ := I.hash y.ptOwner tcb htcb
        exact J.dispatch hd hc locked

theorem Inv.resume (I : Inv pool s) (hr : s.running ∈ s.list .ready) (container again : Bool) :
    Inv pool (resume container again s) := by
  obtain ⟨hd, -, -⟩ := I.lists _ _ hr
  have J := I.touchOne hd
  unfold Deletion.resume
  dsimp only
  split
  · exact J
  · rename_i sem hcall
    split
    · have K := J.addholder hr container sem
      exact K.setCall (by rw [semAddholder_call, hcall]; rfl)
    · exact J.setCall (by rw [hcall]; rfl)
  · rename_i hcall
    exact J.setCall (by rw [hcall]; rfl)
  · rename_i w hcall
    exact J.wdDelete (by rw [hcall]; rfl)
  · rename_i w hcall
    exact (J.wdCancel w).setCall (by
      change _ = ((Deletion.touch [s.running] s).call _).wdog
      rw [hcall]
      rfl)
  · rename_i full msgq wdog hcall
    split
    · exact J.mqWait hr (by rw [hcall]; rfl) full msgq
    · split
      · exact J.setCall (by rw [hcall]; rfl)
      · rename_i w
        exact (J.wdCancel w).setCall (by
          change _ = ((Deletion.touch [s.running] s).call _).wdog
          rw [hcall]
          rfl)
  · rename_i w hcall
    exact J.wdDelete (by rw [hcall]; rfl)

theorem Inv.create (I : Inv pool s) {tcb pid : Nat} (hf : s.created tcb = false)
    (hpid : s.gPidhash pid = none) : Inv pool (taskCreate tcb pid s) := by
  have hne : ∀ t, s.created t = true → t ≠ tcb := by
    rintro t ht rfl
    rw [hf] at ht
    cases ht
  have hnone : (s.call tcb).wdog = none := by
    cases hw : (s.call tcb).wdog with
    | none => rfl
    | some w => exact absurd rfl (hne tcb (I.alive tcb w ((I.waits tcb w).2 hw)).2)
  have hcreated : ∀ t, s.created t = true → update s.created tcb true t = true := by
    intro t ht
    rw [update_of_ne (hne t ht)]
    exact ht
  exact { I with
    fresh := by
      intro t ht
      by_cases he : t = tcb
      · subst he
        simp [taskCreate] at ht
      · exact I.fresh t (by simpa [taskCreate, he] using ht)
    lists := by
      intro st t ht
      have hold : t ∈ s.list st → s.deleted t = false ∧
          update s.created tcb true t = true ∧
          update s.taskState tcb .ready t = st := by
        intro hm
        obtain ⟨h1, h2, h3⟩ := I.lists st t hm
        exact ⟨h1, hcreated t h2, by rw [update_of_ne (hne t h2)]; exact h3⟩
      by_cases hst : st = .ready
      · subst hst
        simp only [taskCreate, update_self, List.mem_append,
          List.mem_singleton] at ht
        rcases ht with ht | rfl
        · exact hold ht
        · exact ⟨I.fresh t hf, by simp [taskCreate], by simp [taskCreate]⟩
      · simp only [taskCreate, update_of_ne hst] at ht
        exact hold ht
    hash := by
      intro p t ht
      by_cases hp : p = pid
      · subst hp
        simp only [taskCreate, update_self, Option.some.injEq] at ht
        subst ht
        exact ⟨I.fresh tcb hf, by simp [taskCreate], by simp [taskCreate]⟩
      · simp only [taskCreate, update_of_ne hp] at ht
        obtain ⟨h1, h2, h3⟩ := I.hash p t ht
        exact ⟨h1, hcreated t h2, by
          simp only [taskCreate]
          rw [update_of_ne (hne t h2)]
          exact h3⟩
    holders := fun h hm => ⟨(I.holders h hm).1, hcreated _ (I.holders h hm).2⟩
    alive := fun t w hm => ⟨(I.alive t w hm).1, hcreated _ (I.alive t w hm).2⟩
    waits := (I.setCall (c := .none) (r := tcb) hnone.symm).waits }

theorem Inv.release (I : Inv pool s) {tcb : Nat} (hd : s.deleted tcb = false)
    (hw : (s.call tcb).wdog = none) :
    Inv pool (schedReleasetcb tcb { s with
      list := update s.list (s.taskState tcb)
        ((s.list (s.taskState tcb)).filter fun t => t ≠ tcb) }) := by
  have J : Inv pool { s with
      list := update s.list (s.taskState tcb)
        ((s.list (s.taskState tcb)).filter fun t => t ≠ tcb) } :=
    { I with
      lists := by
        intro st t ht
        by_cases hst : st = s.taskState tcb
        · subst hst
          simp only [update_self] at ht
          exact I.lists _ t (List.mem_of_mem_filter ht)
        · simp only [update_of_ne hst] at ht
          exact I.lists st t ht }
  have K := (J.touchOne hd).timerDelete (fun y => decide (y.ptOwner = s.pid tcb))
  have L := K.setCall (c := .none) (r := tcb) hw.symm
  have hfilter : (s.waitdogs.filter fun x => x.1 ≠ tcb) = s.waitdogs := by
    rw [List.filter_eq_self]
    intro x hx
    have hne : x.1 ≠ tcb := by
      rintro rfl
      rw [(I.waits x.1 x.2).1 hx] at hw
      cases hw
    simpa using hne
  have M : Inv pool { Deletion.timerDelete (fun y => decide (y.ptOwner = s.pid tcb))
        (Deletion.touch [tcb] { s with
          list := update s.list (s.taskState tcb)
            ((s.list (s.taskState tcb)).filter fun t => t ≠ tcb) }) with
      call := update s.call tcb .none
      gPidhash := update s.gPidhash (s.pid tcb) none } :=
    { L with
      hash := by
        intro p t ht
        by_cases hp : p = s.pid tcb
        · subst hp
          simp at ht
        · simp only [update_of_ne hp] at ht
          exact I.hash p t ht }
  exact M.setWaitdogs hfilter

theorem Inv.unlisted (I : Inv pool s) {tcb : Nat} {t : Kernel} (ht : t = schedReleasetcb tcb { s with
      list := update s.list (s.taskState tcb)
        ((s.list (s.taskState tcb)).filter fun t => t ≠ tcb) }) :
    (∀ st, tcb ∉ t.list st) ∧ ∀ p, t.gPidhash p ≠ some tcb := by
  subst ht
  constructor
  · intro st hm
    have hm' : tcb ∈ update s.list (s.taskState tcb)
        ((s.list (s.taskState tcb)).filter fun t => t ≠ tcb) st := hm
    by_cases hst : st = s.taskState tcb
    · subst hst
      simp at hm'
    · rw [update_of_ne hst] at hm'
      exact hst (I.lists st tcb hm').2.2.symm
  · intro p hp
    have hp' : update s.gPidhash (s.pid tcb) none p = some tcb := hp
    by_cases he : p = s.pid tcb
    · subst he
      simp at hp'
    · rw [update_of_ne he] at hp'
      exact he (I.hash p tcb hp').2.2.symm

theorem Inv.delete (I : Inv pool s) {pid : Nat}
    (hk : ∀ tcb ∈ s.gPidhash pid, (s.call tcb).wdog = none ∧
      ∀ h ∈ s.holders, h.holder ≠ tcb) : Inv pool (taskDelete pid s) := by
  unfold taskDelete
  split
  · exact I
  · rename_i tcb htcb
    obtain ⟨hd, hc, -⟩ := I.hash pid tcb htcb
    obtain ⟨hw, hh⟩ := hk tcb htcb
    have J := I.touchOne hd
    have K := J.release hd hw
    obtain ⟨hlists, hpids⟩ := J.unlisted rfl
    have hnot : ∀ t, t ≠ tcb → s.deleted t = false →
        update s.deleted tcb true t = false := by
      intro t hne ht
      rw [update_of_ne hne]
      exact ht
    exact { K with
      fresh := by
        intro t ht
        refine hnot t ?_ (I.fresh t ht)
        rintro rfl
        have ht' : s.created t = false := ht
        rw [hc] at ht'
        cases ht'
      lists := by
        intro st t ht
        obtain ⟨h1, h2, h3⟩ := K.lists st t ht
        exact ⟨hnot t (fun he => hlists st (he ▸ ht)) h1, h2, h3⟩
      hash := by
        intro p t ht
        obtain ⟨h1, h2, h3⟩ := K.hash p t ht
        exact ⟨hnot t (fun he => hpids p (he ▸ ht)) h1, h2, h3⟩
      holders := fun h hm => ⟨hnot _ (hh h hm) (I.holders h hm).1, (I.holders h hm).2⟩
      alive := by
        intro t w hm
        obtain ⟨h1, h2⟩ := K.alive t w hm
        refine ⟨hnot t ?_ h1, h2⟩
        rintro rfl
        have hcall := (K.waits t w).1 hm
        simp [schedReleasetcb, Call.wdog] at hcall }

theorem Inv.step (I : Inv pool s) {i : Op} {t : Kernel} (hv : i.valid s) (hk : i.keeps s)
    (h : i.exec s = some t) : Inv pool t := by
  cases i with
  | create tcb pid => exact Option.some.inj h ▸ I.create hv.1 hv.2
  | delete pid => exact Option.some.inj h ▸ I.delete hk
  | exit next =>
    obtain ⟨hr, hcall, -⟩ := hv
    have J := I.release (I.lists _ _ hr).1 (by rw [hcall]; rfl)
    have K : Inv pool (taskDeletecurrent next s) := { J with }
    exact Option.some.inj h ▸ K
  | switch tcb =>
    have J : Inv pool { s with running := tcb } := { I with }
    have K := J.touchOne (I.lists _ _ hv).1
    exact Option.some.inj h ▸ K
  | merge tcb =>
    obtain ⟨hd, hc, -⟩ := I.lists _ _ hv
    exact Option.some.inj h ▸ I.move hd hc .ready
  | semWait container sem => exact Option.some.inj h ▸ I.semWait hv.1 hv.2 container sem
  | semPost locked sem => exact Option.some.inj h ▸ I.semPost locked sem
  | sigtimedwait timeout => exact Option.some.inj h ▸ I.sigtimedwait hv.1 hv.2 timeout
  | kill locked pid =>
    simp only [Op.exec] at h
    split at h
    · exact Option.some.inj h ▸ I
    · rename_i tcb htcb
      obtain ⟨hd, hc, -⟩ := I.hash pid tcb htcb
      exact Option.some.inj h ▸ I.dispatch hd hc locked
  | mqWait full msgq =>
    exact Option.some.inj h ▸ I.mqWait hv.1 (by rw [hv.2]; rfl) full msgq
  | mqTimed => exact Option.some.inj h ▸ I.mqTimed hv.1 hv.2
  | mqTimedwait full msgq => exact Option.some.inj h ▸ I.mqTimedwait hv full msgq
  | mqWake locked full msgq => exact I.mqWake h
  | mqNotify msgq =>
    have J : Inv pool { s with
        ntpid := update s.ntpid msgq (some (s.pid s.running)) } := { I with }
    exact Option.some.inj h ▸ J
  | mqNotempty locked msgq => exact Option.some.inj h ▸ I.mqNotempty locked msgq
  | resume container again => exact Option.some.inj h ▸ I.resume hv container again
  | timerCreate timer =>
    have J : Inv pool (Deletion.timerCreate timer s) := by
      unfold Deletion.timerCreate
      split
      · exact I
      · rename_i w free hf
        have hp := I.pool
        rw [hf] at hp
        refine { I with pool := List.Perm.trans ?_ hp }
        simp only [List.map_append, List.map_singleton, ← List.append_assoc,
          List.cons_append]
        exact List.perm_append_singleton _ _
    exact Option.some.inj h ▸ J
  | timerSettime timer wdog =>
    have J := I.wdStart (w := wdog) (e := .timerTimeout timer) fun u hu => by cases hu
    exact Option.some.inj h ▸ J
  | timerDelete timer => exact Option.some.inj h ▸ I.timerDelete _
  | expire locked x => exact Option.some.inj h ▸ I.expire locked hv

/-- In every run in which no task is deleted while it has a watchdog for a wait or is recorded as
the holder of a semaphore, nothing leads to a deleted TCB and no watchdog is lost. -/
theorem no_stale_tcb {s : Kernel}
    (h : Reach deletionMachine (Start pool) (fun s i => i.keeps s) s) : Correct pool s := by
  have I : Inv pool s :=
    h.invariant (fun _ h0 => h0.inv) fun _ _ _ I hv hk he => I.step hv hk he
  exact I.correct

instance decidableDeletionValid (s : Kernel) (i : Op) : Decidable (deletionMachine.valid s i) :=
  match i with
  | .create tcb pid =>
    inferInstanceAs (Decidable (s.created tcb = false ∧ s.gPidhash pid = none))
  | .delete pid => inferInstanceAs (Decidable (s.running ∈ s.list .ready ∧
      s.gPidhash pid ≠ some s.running))
  | .exit next => inferInstanceAs (Decidable (s.running ∈ s.list .ready ∧
      s.call s.running = .none ∧ next ≠ s.running ∧ next ∈ s.list .ready))
  | .switch tcb => inferInstanceAs (Decidable (tcb ∈ s.list .ready))
  | .merge tcb => inferInstanceAs (Decidable (tcb ∈ s.list .pending))
  | .semWait _ _ => inferInstanceAs (Decidable (s.running ∈ s.list .ready ∧
      s.call s.running = .none))
  | .semPost _ _ => inferInstanceAs (Decidable (s.running ∈ s.list .ready))
  | .sigtimedwait _ => inferInstanceAs (Decidable (s.running ∈ s.list .ready ∧
      s.call s.running = .none))
  | .kill _ _ => inferInstanceAs (Decidable True)
  | .mqWait _ _ => inferInstanceAs (Decidable (s.running ∈ s.list .ready ∧
      s.call s.running = .none))
  | .mqTimed => inferInstanceAs (Decidable (s.running ∈ s.list .ready ∧
      s.call s.running = .none))
  | .mqTimedwait _ _ => inferInstanceAs (Decidable (s.running ∈ s.list .ready))
  | .mqWake _ _ _ => inferInstanceAs (Decidable True)
  | .mqNotify _ => inferInstanceAs (Decidable (s.running ∈ s.list .ready))
  | .mqNotempty _ _ => inferInstanceAs (Decidable True)
  | .resume _ _ => inferInstanceAs (Decidable (s.running ∈ s.list .ready))
  | .timerCreate timer => inferInstanceAs (Decidable (s.running ∈ s.list .ready ∧
      ∀ y ∈ s.gAlloctimers, y.timer ≠ timer))
  | .timerSettime timer wdog => inferInstanceAs (Decidable (∃ y ∈ s.gAlloctimers,
      y.timer = timer ∧ y.ptWdog = wdog))
  | .timerDelete _ => inferInstanceAs (Decidable True)
  | .expire _ x => inferInstanceAs (Decidable (x ∈ s.gWdactivelist))

instance decidableDeletionKeeps (s : Kernel) (i : Op) : Decidable (i.keeps s) :=
  match i with
  | .delete pid => inferInstanceAs (Decidable (∀ tcb ∈ s.gPidhash pid,
      (s.call tcb).wdog = none ∧ ∀ h ∈ s.holders, h.holder ≠ tcb))
  | .create _ _ => inferInstanceAs (Decidable True)
  | .exit _ => inferInstanceAs (Decidable True)
  | .switch _ => inferInstanceAs (Decidable True)
  | .merge _ => inferInstanceAs (Decidable True)
  | .semWait _ _ => inferInstanceAs (Decidable True)
  | .semPost _ _ => inferInstanceAs (Decidable True)
  | .sigtimedwait _ => inferInstanceAs (Decidable True)
  | .kill _ _ => inferInstanceAs (Decidable True)
  | .mqWait _ _ => inferInstanceAs (Decidable True)
  | .mqTimed => inferInstanceAs (Decidable True)
  | .mqTimedwait _ _ => inferInstanceAs (Decidable True)
  | .mqWake _ _ _ => inferInstanceAs (Decidable True)
  | .mqNotify _ => inferInstanceAs (Decidable True)
  | .mqNotempty _ _ => inferInstanceAs (Decidable True)
  | .resume _ _ => inferInstanceAs (Decidable True)
  | .timerCreate _ => inferInstanceAs (Decidable True)
  | .timerSettime _ _ => inferInstanceAs (Decidable True)
  | .timerDelete _ => inferInstanceAs (Decidable True)
  | .expire _ _ => inferInstanceAs (Decidable True)

/-- One task, with process id 10, and two watchdogs. -/
def oneTask : Kernel where
  list st := if st = .ready then [0] else []
  running := 0
  gPidhash p := if p = 10 then some 0 else none
  pid _ := 10
  taskState _ := .ready
  waitsem _ := none
  msgwaitq _ := none
  pterrno _ := .ok
  call _ := .none
  semcount _ := 1
  holders := []
  gWdfreelist := [21, 22]
  gWdactivelist := []
  waitdogs := []
  gAlloctimers := []
  ntpid _ := none
  nwaitnotempty _ := 0
  nwaitnotfull _ := 0
  created t := decide (t = 0)
  deleted _ := false
  stale := false

theorem oneTask_start : Start [21, 22] oneTask where
  nodup := by decide
  list st t h := by
    by_cases hst : st = .ready
    · simpa [oneTask, hst] using h
    · simp [oneTask, hst] at h
  running := ⟨rfl, rfl⟩
  gPidhash p t h := by
    by_cases hp : p = 10
    · simp only [oneTask, hp, if_true, Option.some.injEq] at h
      exact ⟨h.symm, hp.symm⟩
    · simp [oneTask, hp] at h
  call _ := rfl
  holders := rfl
  wdogs := ⟨rfl, rfl, rfl, rfl⟩
  deleted _ := rfl
  stale := rfl

/-- Task 1 owns a timer and waits for a signal, task 2 waits for a message until its time has
passed; then task 1 is deleted. -/
def deletionRun : List Op :=
  [.create 1 11, .create 2 12, .switch 1, .timerCreate 5, .timerSettime 5 21,
    .sigtimedwait false, .switch 2, .mqTimed, .mqTimedwait false 7, .switch 0,
    .expire false (22, .mqTimeout false 12), .switch 2, .resume true false, .resume true false,
    .semWait true 3, .switch 0, .semWait true 3, .switch 2, .semPost false 3, .switch 0,
    .resume true false, .delete 11, .kill false 11]

theorem no_stale_tcb_run : ∃ s, runAll deletionMachine (fun s i => i.keeps s) oneTask
      deletionRun = some s ∧ (s.deleted 1 = true ∧ s.gWdfreelist = [22, 21]) ∧
    Correct [21, 22] s :=
  have h : ∃ s, runAll deletionMachine (fun s i => i.keeps s) oneTask deletionRun = some s ∧
      (s.deleted 1 = true ∧ s.gWdfreelist = [22, 21]) := by
    decide +kernel
  h.elim fun s hs => ⟨s, hs.1, hs.2, no_stale_tcb (.runAll (.init oneTask_start) hs.1)⟩

/-- The timeout of a deleted task reads its TCB. -/
theorem timeout_reads_deleted : ¬ ∀ s : Kernel,
    Reachable deletionMachine (Start [21, 22]) s → Correct [21, 22] s := by
  intro hall
  have hr : ∃ s, runAll deletionMachine (fun _ _ => True) oneTask
      [.create 1 11, .switch 1, .sigtimedwait true, .switch 0, .delete 11,
        .expire false (21, .sigTimeout 1)] = some s ∧ s.stale = true := by
    decide +kernel
  obtain ⟨s, hs, hstale⟩ := hr
  have hc := (hall s (.runAll (.init oneTask_start) hs)).stale
  rw [hstale] at hc
  cases hc

end NuttxAvr32.Sched.Deletion
