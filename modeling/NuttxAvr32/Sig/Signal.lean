import Mathlib.Data.List.Basic

/-! # Signals: the queues, the pools and what the functions do to them

Nodes and tasks are named by their addresses, `none` is `NULL`. A task runs
`sig_received`, `sig_deliver`, `sig_unmaskpendingsignal` and the two waiting
functions in steps that interrupts may separate, so each task has a stack of
activations of these functions, the innermost first. An interrupt handler runs to its
end, since `up_doirq` does not nest.
-/

namespace NuttxAvr32.Sig

abbrev Sigset := BitVec 32

abbrev nullSignalSet : Sigset := 0

def signo2set (signo : Nat) : Sigset := 1#32 <<< signo

def sigismember (set : Sigset) (signo : Nat) : Bool := set.getLsbD signo

def sigdelset (set : Sigset) (signo : Nat) : Sigset := set &&& ~~~signo2set signo

def maxSigno : Nat := 31

/-- The lowest signal in the set, `none` for `ERROR`. -/
def sigLowest (set : Sigset) : Option Nat :=
  (List.range (maxSigno + 1)).find? (sigismember set)

inductive Sigalloc
  | fixed
  | dyn
  | irq
deriving DecidableEq, Repr

structure Siginfo where
  siSigno : Nat
  siCode : Nat
  siValue : Nat
deriving DecidableEq, Repr

/-- `sigactq_t`, a handler that is not there is zero -/
structure Sigact where
  signo : Nat
  sigaction : Nat
  saMask : Sigset
deriving DecidableEq, Repr

structure Action where
  sighandler : Nat
  info : Siginfo
deriving DecidableEq, Repr

structure Sigq where
  act : Action
  mask : Sigset
  type : Sigalloc

structure Sigpendq where
  info : Siginfo
  type : Sigalloc

/-- The next statement of `sig_received` and of the functions it calls. -/
inductive RecvPc
  | start
  | find
  | copy (sigpend : Nat)
  | allocSignal
  | addSignal (sigpend : Nat)
  | allocAction
  | addAction (sigact : Sigact) (sigq : Nat)
  | schedule
  | wake
deriving DecidableEq, Repr

/-- The next statement of `sig_deliver`; `handler` is inside the handler. -/
inductive DeliverPc
  | fetch
  | dequeue
  | call
  | handler
  | finish
  | release
deriving DecidableEq, Repr

/-- An activation. `entry` is the `sigprocmask` with which `sig_deliver` was entered. -/
inductive Frame
  | received (stcb : Nat) (info : Siginfo) (pc : RecvPc)
  | deliver (sigq next : Option Nat) (savesigprocmask entry : Sigset) (pc : DeliverPc)
  | unmaskStart
  | unmask (unmaskedset : Sigset) (pendingsig : Option Nat)
  | suspend (savedSigprocmask : Sigset)
  | timedwait
deriving DecidableEq, Repr

structure History where
  queued : List Action
  delivered : List Action
  released : List Action
  accepted : List Siginfo
  returned : List Siginfo
  coalesced : List Siginfo
  ignored : List Siginfo

/-- The signal part of a TCB, `xcp.sigdeliver`, whether the task is in
`TSTATE_WAIT_SIG`, its activations and its history. -/
structure Tcb where
  sigactionq : List Sigact
  sigpendingq : List Nat
  sigpendactionq : List Nat
  sigpostedq : List Nat
  sigprocmask : Sigset
  sigwaitmask : Sigset
  sigunbinfo : Siginfo
  waitSig : Bool
  sigdeliver : Bool
  frames : List Frame
  history : History

/-- `head` is the running task. A state is `broken` once `sig_deliver` has taken a node
that is not in the queue: the lists then no longer say what is in memory. -/
structure State where
  tasks : List Nat
  head : Nat
  tcb : Nat → Tcb
  gSigpendingaction : List Nat
  gSigpendingirqaction : List Nat
  gSigpendingsignal : List Nat
  gSigpendingirqsignal : List Nat
  sigq : Nat → Sigq
  sigpend : Nat → Sigpendq
  broken : Bool

def State.modify (s : State) (t : Nat) (f : Tcb → Tcb) : State :=
  { s with tcb := Function.update s.tcb t (f (s.tcb t)) }

def Tcb.log (c : Tcb) (f : History → History) : Tcb := { c with history := f c.history }

def State.frames (s : State) (fs : List Frame) : State :=
  s.modify s.head fun c => { c with frames := fs }

abbrev numPendingActions : Nat := 16
abbrev numPendingIntActions : Nat := 8
abbrev numSignalsPending : Nat := 16
abbrev numIntSignalsPending : Nat := 8

/-- The entries of a block of `n` structures that `kmalloc` has given. -/
def block (base n : Nat) : List Nat := List.range' base n

/-- The addresses of the four blocks that `sig_initialize` allocates. -/
structure Blocks where
  actions : Nat
  irqactions : Nat
  signals : Nat
  irqsignals : Nat

def sigAllocateblock (base nsigs : Nat) (type : Sigalloc) (sigq : Nat → Sigq) : Nat → Sigq :=
  fun n => if n ∈ block base nsigs then { sigq n with type } else sigq n

def sigAllocatependingsignalblock (base nsigs : Nat) (type : Sigalloc)
    (sigpend : Nat → Sigpendq) : Nat → Sigpendq :=
  fun n => if n ∈ block base nsigs then { sigpend n with type } else sigpend n

/-- Both blocks of action structures go to `g_sigpendingaction`. -/
def sigInitialize (b : Blocks) (s : State) : State :=
  { s with
    gSigpendingaction :=
      block b.actions numPendingActions ++ block b.irqactions numPendingIntActions
    gSigpendingirqaction := []
    gSigpendingsignal := block b.signals numSignalsPending
    gSigpendingirqsignal := block b.irqsignals numIntSignalsPending
    sigq := sigAllocateblock b.irqactions numPendingIntActions .irq
      (sigAllocateblock b.actions numPendingActions .fixed s.sigq)
    sigpend := sigAllocatependingsignalblock b.irqsignals numIntSignalsPending .irq
      (sigAllocatependingsignalblock b.signals numSignalsPending .fixed s.sigpend) }

/-- `mem` is what `kmalloc` returns, should it be called. -/
def sigAllocatependingsigaction (irq : Bool) (mem : Option Nat) (s : State) : State × Option Nat :=
  match s.gSigpendingaction with
  | n :: rest => ({ s with gSigpendingaction := rest }, some n)
  | [] =>
    if irq then
      match s.gSigpendingirqaction with
      | n :: rest => ({ s with gSigpendingirqaction := rest }, some n)
      | [] => (s, none)
    else
      match mem with
      | some n =>
        ({ s with sigq := Function.update s.sigq n { s.sigq n with type := .dyn } }, some n)
      | none => (s, none)

def sigReleasependingsigaction (n : Nat) (s : State) : State :=
  match (s.sigq n).type with
  | .fixed => { s with gSigpendingaction := s.gSigpendingaction ++ [n] }
  | .irq => { s with gSigpendingirqaction := s.gSigpendingirqaction ++ [n] }
  | .dyn => s

/-- In interrupt context the node from `g_sigpendingsignal` is overwritten by the one
from the other list. -/
def sigAllocatependingsignal (irq : Bool) (mem : Option Nat) (s : State) : State × Option Nat :=
  if irq then
    ({ s with
        gSigpendingsignal := s.gSigpendingsignal.tail
        gSigpendingirqsignal := s.gSigpendingirqsignal.tail }, s.gSigpendingirqsignal.head?)
  else
    match s.gSigpendingsignal with
    | n :: rest => ({ s with gSigpendingsignal := rest }, some n)
    | [] =>
      match mem with
      | some n =>
        ({ s with
            sigpend := Function.update s.sigpend n { s.sigpend n with type := .dyn } }, some n)
      | none => (s, none)

def sigReleasependingsignal (n : Nat) (s : State) : State :=
  match (s.sigpend n).type with
  | .fixed => { s with gSigpendingsignal := s.gSigpendingsignal ++ [n] }
  | .irq => { s with gSigpendingirqsignal := s.gSigpendingirqsignal ++ [n] }
  | .dyn => s

def sigFindaction (c : Tcb) (signo : Nat) : Option Sigact :=
  c.sigactionq.find? fun a => a.signo = signo

def sigFindpendingsignal (t signo : Nat) (s : State) : Option Nat :=
  (s.tcb t).sigpendingq.find? fun n => (s.sigpend n).info.siSigno = signo

def sigPendingset (t : Nat) (s : State) : Sigset :=
  (s.tcb t).sigpendingq.foldl (fun set n => set ||| signo2set (s.sigpend n).info.siSigno)
    nullSignalSet

def sigRemovependingsignal (t signo : Nat) (s : State) : State × Option Nat :=
  match sigFindpendingsignal t signo s with
  | some n => (s.modify t fun c => { c with sigpendingq := c.sigpendingq.erase n }, some n)
  | none => (s, none)

def wakeWith (t : Nat) (info : Siginfo) (s : State) : State :=
  s.modify t fun c =>
    { c with
      sigunbinfo := info
      sigwaitmask := nullSignalSet
      waitSig := false }

def copyPending (t : Nat) (info : Siginfo) (n : Nat) (s : State) : State :=
  { s with sigpend := Function.update s.sigpend n { s.sigpend n with info } }.modify t fun c =>
    c.log fun h => { h with coalesced := h.coalesced ++ [(s.sigpend n).info] }

def addPending (t : Nat) (info : Siginfo) (n : Nat) (s : State) : State :=
  { s with sigpend := Function.update s.sigpend n { s.sigpend n with info } }.modify t fun c =>
    { c with sigpendingq := c.sigpendingq ++ [n] }

def addAction (t : Nat) (info : Siginfo) (sigact : Sigact) (n : Nat) (s : State) : State :=
  { s with
    sigq := Function.update s.sigq n
      { s.sigq n with
        act := ⟨sigact.sigaction, info⟩
        mask := sigact.saMask } }.modify t fun c =>
    { c with sigpendactionq := c.sigpendactionq ++ [n] }.log fun h =>
      { h with queued := h.queued ++ [Action.mk sigact.sigaction info] }

/-- The action that `sig_queueaction` finds for the signal. -/
def installed (t : Nat) (info : Siginfo) (s : State) : Option Sigact :=
  (sigFindaction (s.tcb t) info.siSigno).filter fun a => a.sigaction ≠ 0

def ignore (t : Nat) (info : Siginfo) (s : State) : State :=
  s.modify t fun c => c.log fun h => { h with ignored := h.ignored ++ [info] }

def flagSigaction (t : Nat) (s : State) : State := s.modify t fun c => { c with sigdeliver := true }

/-- An activation of `sig_deliver` with the first node of the queue. -/
def enterDeliver (c : Tcb) : Frame :=
  .deliver c.sigpendactionq.head? none c.sigprocmask c.sigprocmask .fetch

def wakeWaiter (t : Nat) (info : Siginfo) (s : State) : State :=
  if (s.tcb t).waitSig then wakeWith t info s else s

def sigQueueactionIrq (t : Nat) (info : Siginfo) (s : State) : State :=
  match installed t info s with
  | none => ignore t info s
  | some sigact =>
    match sigAllocatependingsigaction true none s with
    | (s, none) => s
    | (s, some n) => addAction t info sigact n s

/-- `none` is `PANIC`. -/
def sigAddpendingsignalIrq (t : Nat) (info : Siginfo) (s : State) : Option State :=
  match sigFindpendingsignal t info.siSigno s with
  | some n => some (copyPending t info n s)
  | none =>
    match sigAllocatependingsignal true none s with
    | (_, none) => none
    | (s, some n) => some (addPending t info n s)

def accept (t : Nat) (info : Siginfo) (s : State) : State :=
  s.modify t fun c => c.log fun h => { h with accepted := h.accepted ++ [info] }

def sigReceivedIrq (t : Nat) (info : Siginfo) (s : State) : Option State :=
  let s := accept t info s
  if sigismember (s.tcb t).sigprocmask info.siSigno then
    if (s.tcb t).waitSig ∧ sigismember (s.tcb t).sigwaitmask info.siSigno then
      some (wakeWith t info s)
    else sigAddpendingsignalIrq t info s
  else some (wakeWaiter t info (flagSigaction t (sigQueueactionIrq t info s)))

/-- A step of `sig_received`. `below` are the activations under it. -/
def receivedStep (mem : Option Nat) (t : Nat) (info : Siginfo) (below : List Frame) (s : State) :
    RecvPc → Option State
  | .start =>
    if sigismember (s.tcb t).sigprocmask info.siSigno then
      if (s.tcb t).waitSig ∧ sigismember (s.tcb t).sigwaitmask info.siSigno then
        some ((wakeWith t info s).frames below)
      else some (s.frames (.received t info .find :: below))
    else some (s.frames (.received t info .allocAction :: below))
  | .find =>
    match sigFindpendingsignal t info.siSigno s with
    | some n => some (s.frames (.received t info (.copy n) :: below))
    | none => some (s.frames (.received t info .allocSignal :: below))
  | .copy n => some ((copyPending t info n s).frames below)
  | .allocSignal =>
    match sigAllocatependingsignal false mem s with
    | (_, none) => none
    | (s, some n) => some (s.frames (.received t info (.addSignal n) :: below))
  | .addSignal n => some ((addPending t info n s).frames below)
  | .allocAction =>
    match installed t info s with
    | none => some ((ignore t info s).frames (.received t info .schedule :: below))
    | some sigact =>
      match sigAllocatependingsigaction false mem s with
      | (s, none) => some (s.frames (.received t info .schedule :: below))
      | (s, some n) => some (s.frames (.received t info (.addAction sigact n) :: below))
  | .addAction sigact n =>
    some ((addAction t info sigact n s).frames (.received t info .schedule :: below))
  | .schedule =>
    let back := .received t info .wake :: below
    if (s.tcb t).sigdeliver then some (s.frames back)
    else if t = s.head then some (s.frames (enterDeliver (s.tcb t) :: back))
    else some ((flagSigaction t s).frames back)
  | .wake => some ((wakeWaiter t info s).frames below)

/-- A step of `sig_deliver`. A handler that is called stays on the stack until it
returns, which is the step at `handler`. -/
def deliverStep (sigq next : Option Nat) (save entry : Sigset) (below : List Frame) (s : State) :
    DeliverPc → State
  | .fetch =>
    match sigq with
    | none => s.frames below
    | some n =>
      let q := (s.tcb s.head).sigpendactionq
      s.frames (.deliver sigq (q[q.idxOf n + 1]?) save entry .dequeue :: below)
  | .dequeue =>
    match sigq with
    | none => s
    | some n =>
      { s with broken := s.broken || decide (n ∉ (s.tcb s.head).sigpendactionq) }.modify s.head
        fun c =>
          { c with
            sigpendactionq := c.sigpendactionq.erase n
            sigpostedq := c.sigpostedq ++ [n]
            frames := .deliver sigq next save entry .call :: below }
  | .call =>
    match sigq with
    | none => s
    | some n =>
      s.modify s.head fun c =>
        { c with
          sigprocmask := c.sigprocmask ||| (s.sigq n).mask |||
            signo2set (s.sigq n).act.info.siSigno
          frames := .deliver sigq next c.sigprocmask entry .handler :: below }.log fun h =>
          { h with delivered := h.delivered ++ [(s.sigq n).act] }
  | .handler =>
    s.modify s.head fun c =>
      { c with
        sigprocmask := save
        frames := .unmaskStart :: .deliver sigq next save entry .finish :: below }
  | .finish =>
    match sigq with
    | none => s
    | some n =>
      s.modify s.head fun c =>
        { c with
          sigpostedq := c.sigpostedq.erase n
          frames := .deliver sigq next save entry .release :: below }
  | .release =>
    match sigq with
    | none => s
    | some n =>
      (sigReleasependingsigaction n s).modify s.head fun c =>
        { c with frames := .deliver next none save entry .fetch :: below }.log fun h =>
          { h with released := h.released ++ [(s.sigq n).act] }

def unmaskStep (unmaskedset : Sigset) (below : List Frame) (s : State) : Option Nat → State
  | some n =>
    (sigReleasependingsignal n s).frames (.unmask unmaskedset none :: below)
  | none =>
    match sigLowest unmaskedset with
    | none => s.frames below
    | some signo =>
      let rest := sigdelset unmaskedset signo
      match sigRemovependingsignal s.head signo s with
      | (s, none) => s.frames (.unmask rest none :: below)
      | (s, some n) =>
        s.frames (.received s.head (s.sigpend n).info .start ::
          .unmask rest (some n) :: below)

/-- `sigwaitinfo` returns what the waiter was woken with, unless it timed out. -/
def timedwaitReturn (below : List Frame) (s : State) : State :=
  s.modify s.head fun c =>
    { c with
      sigwaitmask := nullSignalSet
      frames := below }.log fun h =>
      if c.sigunbinfo.siSigno ≤ maxSigno then
        { h with returned := h.returned ++ [c.sigunbinfo] }
      else h

def frameStep (mem : Option Nat) (f : Frame) (below : List Frame) (s : State) : Option State :=
  match f with
  | .received t info pc => receivedStep mem t info below s pc
  | .deliver sigq next save entry pc => some (deliverStep sigq next save entry below s pc)
  | .unmaskStart =>
    some (s.frames (.unmask (~~~(s.tcb s.head).sigprocmask &&& sigPendingset s.head s) none ::
      below))
  | .unmask unmaskedset pendingsig => some (unmaskStep unmaskedset below s pendingsig)
  | .suspend saved =>
    some (s.modify s.head fun c =>
      { c with
        sigprocmask := saved
        frames := .unmaskStart :: below })
  | .timedwait => some (timedwaitReturn below s)

abbrev sigBlock : Nat := 1
abbrev sigUnblock : Nat := 2
abbrev sigSetmask : Nat := 3

def procmask (how : Nat) (set old : Sigset) : Sigset :=
  if how = sigBlock then old ||| set
  else if how = sigUnblock then old &&& ~~~set
  else if how = sigSetmask then set
  else old

def sigprocmask (how : Nat) (set : Option Sigset) (s : State) : State :=
  match set with
  | none => s
  | some set =>
    s.modify s.head fun c =>
      { c with
        sigprocmask := procmask how set c.sigprocmask
        frames := .unmaskStart :: c.frames }

/-- `act` is `none` for `NULL`; a `NULL` handler removes the action. -/
def sigaction (signo : Nat) (act : Option (Nat × Sigset)) (s : State) : State :=
  match act with
  | none => s
  | some (handler, mask) =>
    if signo ≤ maxSigno then
      s.modify s.head fun c =>
        let q := c.sigactionq
        { c with
          sigactionq :=
            if handler = 0 then q.eraseP fun a => a.signo = signo
            else if (sigFindaction c signo).isSome then
              q.map fun a => if a.signo = signo then ⟨signo, handler, mask⟩ else a
            else q ++ [⟨signo, handler, mask⟩] }
    else s

/-- `none` is `PANIC`. A pending signal that becomes unblocked is removed. -/
def sigsuspend (set : Sigset) (s : State) : Option State :=
  match sigLowest (~~~set &&& sigPendingset s.head s) with
  | some signo =>
    match sigRemovependingsignal s.head signo s with
    | (_, none) => none
    | (s, some n) => some (sigReleasependingsignal n s)
  | none =>
    some (s.modify s.head fun c =>
      { c with
        sigprocmask := set
        sigwaitmask := nullSignalSet
        waitSig := true
        frames := .suspend c.sigprocmask :: c.frames })

/-- `none` is `PANIC`. There is a watchdog unless `wd_create` fails for a wait with a
timeout; the task then does not wait. -/
def sigtimedwait (set : Sigset) (wdog : Bool) (s : State) : Option State :=
  match sigLowest (set &&& sigPendingset s.head s) with
  | some signo =>
    match sigRemovependingsignal s.head signo s with
    | (_, none) => none
    | (s, some n) =>
      some (sigReleasependingsignal n (s.modify s.head fun c =>
        c.log fun h => { h with returned := h.returned ++ [(s.sigpend n).info] }))
  | none =>
    some (s.modify s.head fun c =>
      { c with
        sigwaitmask := set
        waitSig := wdog
        frames := .timedwait :: c.frames })

/-- The number of a signal that a timeout leaves in `si_signo`: `ERROR` in eight bits. -/
abbrev errorSigno : Nat := 255

abbrev siTimer : Nat := 2

def sigTimeout (t : Nat) (s : State) : State :=
  if (s.tcb t).waitSig then
    s.modify t fun c =>
      { c with
        sigunbinfo := ⟨errorSigno, siTimer, 0⟩
        waitSig := false }
  else s

def upSigdeliver (s : State) : State :=
  s.modify s.head fun c =>
    { c with
      sigdeliver := false
      frames := enterDeliver c :: c.frames }

end NuttxAvr32.Sig
