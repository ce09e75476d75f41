import NuttxAvr32.Sig.Runs

/-! # The pools of signal structures

Where the preallocated `sigq_t` and `sigpendq_t` nodes are. The free lists have the
nodes of both types mixed from the start, and an interrupt handler that adds a
pending signal drops a node.
-/

namespace NuttxAvr32.Sig

open Owners Runs

def Blocks.actionBlock (b : Blocks) : List Nat :=
  block b.actions numPendingActions ++ block b.irqactions numPendingIntActions

def Blocks.signalBlock (b : Blocks) : List Nat :=
  block b.signals numSignalsPending ++ block b.irqsignals numIntSignalsPending

/-- Each preallocated node is in one place, and the free lists are sorted by type. -/
structure PoolsOk (b : Blocks) (s : State) : Prop where
  action_once : ∀ n ∈ b.actionBlock, s.actionNodes.count n = 1
  signal_once : ∀ n ∈ b.signalBlock, s.signalNodes.count n = 1
  actions : ∀ n ∈ s.gSigpendingaction, (s.sigq n).type = .fixed
  irqactions : ∀ n ∈ s.gSigpendingirqaction, (s.sigq n).type = .irq
  signals : ∀ n ∈ s.gSigpendingsignal, (s.sigpend n).type = .fixed
  irqsignals : ∀ n ∈ s.gSigpendingirqsignal, (s.sigpend n).type = .irq

theorem mem_block (base n : Nat) (h : 0 < n) : base ∈ block base n := by
  unfold block
  rw [List.mem_range'_1]
  omega

theorem initialize_irq_type (b : Blocks) (s : State) {n : Nat}
    (h : n ∈ block b.irqactions numPendingIntActions) :
    ((sigInitialize b s).sigq n).type = .irq := by
  show (sigAllocateblock b.irqactions numPendingIntActions .irq _ n).type = .irq
  unfold sigAllocateblock
  rw [if_pos h]

/-- `sig_initialize` leaves the nodes reserved for interrupt handlers in the list that
tasks allocate from. -/
theorem initialize_irq_mem (b : Blocks) (s : State) {n : Nat}
    (h : n ∈ block b.irqactions numPendingIntActions) :
    n ∈ (sigInitialize b s).gSigpendingaction := List.mem_append_right _ h

theorem initialize_pools (b : Blocks) (s : State) : ¬PoolsOk b (sigInitialize b s) := by
  intro h
  have hb : b.irqactions ∈ block b.irqactions numPendingIntActions := mem_block _ _ (by decide)
  have ht := h.actions _ (initialize_irq_mem b s hb)
  rw [initialize_irq_type b s hb] at ht
  exact absurd ht (by decide)

/-- No layout of the blocks, no set of tasks and no signal masks give runs in which the
pools are conserved. -/
theorem pools_mixed (b : Blocks) (tasks : List Nat) (head : Nat) (masks : Nat → Sigset) :
    ¬∀ s, Reachable sigMachine (· = started b tasks head masks) s → PoolsOk b s :=
  fun h => initialize_pools b _ (h _ (.init rfl))

/-- With the blocks one after the other and one task. -/
theorem pools_mixed_at_start :
    ¬∀ s, Reachable sigMachine (· = started ⟨0, 16, 24, 40⟩ [1] 1 fun _ => 0) s →
      PoolsOk ⟨0, 16, 24, 40⟩ s := by
  intro h
  have ht := (h _ (.init rfl)).actions 16 (by decide)
  exact absurd ht (by decide)

end NuttxAvr32.Sig
