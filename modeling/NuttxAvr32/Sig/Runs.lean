import NuttxAvr32.Sig.Signal
import NuttxAvr32.Lib.Owners
import NuttxAvr32.Lib.Runs

/-! # Runs of the signal functions

The running task makes the next step of its innermost activation, its code or a
handler calls a function, another task is switched to, or an interrupt sends a
signal. A task that is flagged goes on with `up_sigdeliver`.
-/

namespace NuttxAvr32.Sig

open Owners Runs

inductive Op
  | step (mem : Option Nat)
  | kill (t : Nat) (info : Siginfo)
  | sigprocmask (how : Nat) (set : Option Sigset)
  | sigaction (signo : Nat) (act : Option (Nat × Sigset))
  | sigsuspend (set : Sigset)
  | sigtimedwait (set : Sigset) (wdog : Bool)
  | sigdeliver
  | switch (t : Nat)
  | interrupt (t : Nat) (info : Siginfo)
  | timeout (t : Nat)
deriving DecidableEq

def stepHead (mem : Option Nat) (s : State) : Option State :=
  match (s.tcb s.head).frames with
  | [] => none
  | f :: below => frameStep mem f below s

def Op.exec : Op → State → Option State
  | .step mem, s => stepHead mem s
  | .kill t info, s => some ((accept t info s).frames
      (.received t info .start :: (s.tcb s.head).frames))
  | .sigprocmask how set, s => some (Sig.sigprocmask how set s)
  | .sigaction signo act, s => some (Sig.sigaction signo act s)
  | .sigsuspend set, s => Sig.sigsuspend set s
  | .sigtimedwait set wdog, s => Sig.sigtimedwait set wdog s
  | .sigdeliver, s => some (upSigdeliver s)
  | .switch t, s => some { s with head := t }
  | .interrupt t info, s => sigReceivedIrq t info s
  | .timeout t, s => some (sigTimeout t s)

def Frame.inHandler : Frame → Bool
  | .deliver _ _ _ _ .handler => true
  | _ => false

/-- The task itself can call a function: it is in its own code or in that of a handler. -/
def Tcb.inUser (c : Tcb) : Bool := c.frames.head?.all Frame.inHandler

/-- `sched_lock` is held, and the next statement does not block in `kmalloc`. -/
def Frame.locked : Frame → Bool
  | .received _ _ .allocSignal => false
  | .received _ _ .allocAction => false
  | .received _ _ _ => true
  | .unmaskStart => true
  | .unmask _ _ => true
  | .deliver _ _ _ _ .handler => false
  | .deliver _ _ _ _ _ => true
  | .suspend _ => false
  | .timedwait => false

def State.runs (s : State) : Bool :=
  let c := s.tcb s.head
  !c.waitSig && !c.sigdeliver

def Frame.calls : Frame → Bool
  | .deliver _ _ _ _ .call => true
  | _ => false

/-- The nodes of a type that are in an activation's variables only. -/
def Frame.actionNode : Frame → List Nat
  | .received _ _ (.addAction _ n) => [n]
  | .deliver (some n) _ _ _ .release => [n]
  | _ => []

def Frame.signalNode : Frame → List Nat
  | .received _ _ (.addSignal n) => [n]
  | .unmask _ (some n) => [n]
  | _ => []

def Tcb.actionNodes (c : Tcb) : List Nat :=
  c.sigpendactionq ++ c.sigpostedq ++ c.frames.flatMap Frame.actionNode

def Tcb.signalNodes (c : Tcb) : List Nat := c.sigpendingq ++ c.frames.flatMap Frame.signalNode

def State.freeActions (s : State) : List Nat := s.gSigpendingaction ++ s.gSigpendingirqaction

def State.freeSignals (s : State) : List Nat := s.gSigpendingsignal ++ s.gSigpendingirqsignal

def State.actionNodes (s : State) : List Nat :=
  s.freeActions ++ owned s.tasks fun t => (s.tcb t).actionNodes

def State.signalNodes (s : State) : List Nat :=
  s.freeSignals ++ owned s.tasks fun t => (s.tcb t).signalNodes

def Op.valid : Op → State → Prop
  | .step mem, s => s.runs ∧ (∀ n ∈ mem, n ∉ s.actionNodes ∧ n ∉ s.signalNodes) ∧
      (s.broken = false ∨ (s.tcb s.head).frames.head?.all Frame.calls)
  | .kill t info, s => s.runs ∧ (s.tcb s.head).inUser ∧ t ∈ s.tasks ∧ info.siSigno ≤ maxSigno ∧
      s.broken = false
  | .sigprocmask _ _, s => s.runs ∧ (s.tcb s.head).inUser ∧ s.broken = false
  | .sigaction _ _, s => s.runs ∧ (s.tcb s.head).inUser ∧ s.broken = false
  | .sigsuspend _, s => s.runs ∧ (s.tcb s.head).inUser ∧ s.broken = false
  | .sigtimedwait _ _, s => s.runs ∧ (s.tcb s.head).inUser ∧ s.broken = false
  | .sigdeliver, s =>
      (s.tcb s.head).waitSig = false ∧ (s.tcb s.head).sigdeliver = true ∧ s.broken = false
  | .switch t, s => (s.tcb s.head).frames.head?.all (fun f => !f.locked) ∧ t ∈ s.tasks ∧
      (s.tcb t).waitSig = false ∧ s.broken = false
  | .interrupt t info, s => t ∈ s.tasks ∧ info.siSigno ≤ maxSigno ∧ s.broken = false
  | .timeout t, s => t ∈ s.tasks ∧ (s.tcb t).waitSig = true ∧
      Frame.timedwait ∈ (s.tcb t).frames.head? ∧ s.broken = false

instance (i : Op) (s : State) : Decidable (i.valid s) := by
  cases i <;> (unfold Op.valid; infer_instance)

def sigMachine : Machine State Op where
  valid s i := i.valid s
  exec s i := i.exec s

instance (s : State) (i : Op) : Decidable (sigMachine.valid s i) :=
  inferInstanceAs (Decidable (i.valid s))

def newTcb (mask : Sigset) : Tcb where
  sigactionq := []
  sigpendingq := []
  sigpendactionq := []
  sigpostedq := []
  sigprocmask := mask
  sigwaitmask := nullSignalSet
  sigunbinfo := ⟨errorSigno, 0, 0⟩
  waitSig := false
  sigdeliver := false
  frames := []
  history := ⟨[], [], [], [], [], [], []⟩

/-- What `sig_initialize` leaves, with the tasks of the run and their signal masks. -/
def started (b : Blocks) (tasks : List Nat) (head : Nat) (masks : Nat → Sigset) : State :=
  sigInitialize b
    { tasks, head
      tcb t := newTcb (masks t)
      gSigpendingaction := []
      gSigpendingirqaction := []
      gSigpendingsignal := []
      gSigpendingirqsignal := []
      sigq _ := ⟨⟨0, ⟨0, 0, 0⟩⟩, nullSignalSet, .dyn⟩
      sigpend _ := ⟨⟨0, 0, 0⟩, .dyn⟩
      broken := false }

/-- The blocks that `kmalloc` has given do not overlap. -/
structure Blocks.Disjoint (b : Blocks) : Prop where
  actions : (block b.actions numPendingActions).Disjoint (block b.irqactions numPendingIntActions)
  signals : (block b.signals numSignalsPending).Disjoint
    (block b.irqsignals numIntSignalsPending)

def Initial (s : State) : Prop :=
  ∃ b : Blocks, b.Disjoint ∧ ∃ tasks : List Nat, tasks.Nodup ∧ ∃ head ∈ tasks, ∃ masks,
    s = started b tasks head masks

end NuttxAvr32.Sig
