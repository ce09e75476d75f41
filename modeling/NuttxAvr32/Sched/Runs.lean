import NuttxAvr32.Sched.Lifecycle
import NuttxAvr32.Lib.Runs

/-! # Runs of the scheduler

The calls that move tasks, in any order, by tasks and by interrupt handlers. A call
is admitted where its caller keeps to its contract: it names a live task, it does
not block or reprioritise the idle task, and a TCB that is created is a new one.
-/

namespace NuttxAvr32.Sched

open Runs

inductive Op
  | create (tcb priority : Nat)
  | activate (tcb : Nat)
  | block (tcb : Nat) (s : TaskState)
  | unblock (tcb : Nat)
  | setpriority (irq : Bool) (tcb priority : Nat)
  | lock (irq : Bool)
  | unlock (irq : Bool)
  | releasePending
  | timeslice
  | delete (irq : Bool) (pid : Nat)
  | deletecurrent
deriving DecidableEq, Repr

def taskActivate (cfg : Config) (tcb : Nat) (k : Kernel) : Option Kernel := upUnblockTask cfg tcb k

def Op.exec (cfg : Config) : Op → Kernel → Option Kernel
  | .create tcb priority, k => taskCreate cfg tcb priority k
  | .activate tcb, k => taskActivate cfg tcb k
  | .block tcb s, k => upBlockTask tcb s k
  | .unblock tcb, k => upUnblockTask cfg tcb k
  | .setpriority irq tcb priority, k => (schedSetpriority irq tcb priority k).map Prod.fst
  | .lock irq, k => schedLock irq k
  | .unlock irq, k => some (schedUnlock irq k)
  | .releasePending, k => some (upReleasePending k)
  | .timeslice, k => schedProcessTimeslice cfg k
  | .delete irq pid, k => taskDelete cfg irq pid k
  | .deletecurrent, k => taskDeletecurrent cfg k

def Op.valid (cfg : Config) (k : Tasks) (head : Nat) : Op → Prop
  | .create tcb priority =>
    tcb ≠ 0 ∧ ¬ Live cfg k tcb ∧ schedPriorityMin ≤ priority ∧ priority ≤ schedPriorityMax
  | .activate tcb => Live cfg k tcb ∧ (k.tcb tcb).taskState = .inactive
  | .block tcb s => Live cfg k tcb ∧ tcb ≠ gIdletcb ∧ (k.tcb tcb).taskState.IsReady ∧ s.IsBlocked
  | .unblock tcb => Live cfg k tcb ∧ (k.tcb tcb).taskState.IsBlocked
  | .setpriority _ tcb _ => Live cfg k tcb ∧ tcb ≠ gIdletcb
  | .delete _ pid => pid ≠ 0 ∧ pid ≠ (k.tcb head).pid
  | .deletecurrent => head ≠ gIdletcb
  | _ => True

instance (cfg : Config) (k : Tasks) (head : Nat) (i : Op) : Decidable (i.valid cfg k head) := by
  cases i <;> (unfold Op.valid; infer_instance)

def schedMachine (cfg : Config) : Machine Kernel Op where
  valid k i := i.valid cfg k.toTasks k.head
  exec k i := i.exec cfg k

instance (cfg : Config) (k : Kernel) (i : Op) : Decidable ((schedMachine cfg).valid k i) :=
  inferInstanceAs (Decidable (i.valid cfg k.toTasks k.head))

structure Inv (cfg : Config) (k : Kernel) : Prop where
  ok : Ok k
  pids : Pids cfg k

section

variable (cfg : Config)

theorem osStart_list (i : TaskList) :
    (osStart cfg).list i = if i = .readytorun then [gIdletcb] else [] := by
  show Function.update (fun _ => ([] : List Nat)) .readytorun [gIdletcb] i = _
  by_cases h : i = .readytorun
  · rw [h, Function.update_self, if_pos rfl]
  · rw [Function.update_of_ne h, if_neg h]

theorem osStart_mem {i : TaskList} {t : Nat} :
    t ∈ (osStart cfg).list i ↔ i = .readytorun ∧ t = gIdletcb := by
  rw [osStart_list]
  split
  · rename_i h
    simp [h]
  · rename_i h
    simp [h]

theorem osStart_idle : (osStart cfg).tcb gIdletcb = { Tcb.zero with taskState := .running } := by
  show Function.update (fun _ => Tcb.zero) gIdletcb { Tcb.zero with taskState := .running }
    gIdletcb = _
  rw [Function.update_self]

theorem osStart_slot : (osStart cfg).gPidhash (pidhash cfg 0) = ⟨gIdletcb, 0⟩ := by
  show Function.update (fun _ => (⟨0, invalidProcessId⟩ : Pidhash)) (pidhash cfg 0) ⟨gIdletcb, 0⟩
    (pidhash cfg 0) = _
  rw [Function.update_self]

theorem osStart_inv : Inv cfg (osStart cfg) := by
  have hready : (osStart cfg).ready = [gIdletcb] := by
    show (osStart cfg).list .readytorun = _
    rw [osStart_list, if_pos rfl]
  have hlisted : ∀ t, Listed (osStart cfg) t ↔ t = gIdletcb := by
    intro t
    constructor
    · rintro ⟨i, hi⟩
      exact ((osStart_mem cfg).mp hi).2
    · intro h
      exact ⟨.readytorun, (osStart_mem cfg).mpr ⟨rfl, h⟩⟩
  refine ⟨⟨⟨fun i => ?_, fun i t ht => ?_, fun i _ => ?_, fun i h => ?_, ?_, ?_, fun i t ht hne => ?_⟩,
    fun t ht => ?_, fun h => ?_⟩, ⟨fun i hi => ?_, fun t ht => ?_, fun t ht => ?_⟩⟩
  · rw [osStart_list]
    split <;> simp
  · obtain ⟨rfl, rfl⟩ := (osStart_mem cfg).mp ht
    rw [osStart_idle]
    rfl
  · rw [osStart_list]
    split <;> simp [Keyed.Descending]
  · have := ((osStart_mem cfg).mp h).2
    cases this
  · rw [hready]
    rfl
  · show ((osStart cfg).tcb gIdletcb).schedPriority = _
    rw [osStart_idle]
    rfl
  · exact absurd ((osStart_mem cfg).mp ht).2 hne
  · have ht' : t = gIdletcb := ((osStart_mem cfg).mp ht).2
    subst ht'
    rw [osStart_idle, hready]
    simp
  · exact absurd (by rw [Kernel.pending, osStart_list, if_neg (by decide)]) h
  · have hi' : (Function.update (fun _ => (⟨0, invalidProcessId⟩ : Pidhash)) (pidhash cfg 0)
        ⟨gIdletcb, 0⟩ i).tcb ≠ 0 := hi
    by_cases he : i = pidhash cfg 0
    · subst he
      rw [osStart_slot, hlisted, osStart_idle]
      exact ⟨rfl, rfl, rfl⟩
    · rw [Function.update_of_ne he] at hi'
      exact absurd rfl hi'
  · have ht' := (hlisted t).mp ht
    subst ht'
    rw [osStart_idle]
    show ((osStart cfg).gPidhash (pidhash cfg 0)).tcb = _
    rw [osStart_slot]
  · have ht' := (hlisted t).mp ht
    subst ht'
    rw [osStart_idle]
    simp [Tcb.zero]

end

section

variable {cfg : Config} {k k' : Kernel}

theorem Inv.live_iff (I : Inv cfg k) {t : Nat} : Live cfg k.toTasks t ↔ Listed k t :=
  I.pids.live_iff I.ok.wf

theorem Inv.live_mem (I : Inv cfg k) {t : Nat} {i : TaskList} (h : Live cfg k.toTasks t)
    (hs : (k.tcb t).taskState.list = some i) : t ∈ k.list i := by
  obtain ⟨j, hj⟩ := I.live_iff.mp h
  have hsj := I.ok.wf.state j t hj
  rw [hs] at hsj
  rw [Option.some.inj hsj]
  exact hj

theorem Inv.live_ready (I : Inv cfg k) {t : Nat} (h : Live cfg k.toTasks t)
    (hs : (k.tcb t).taskState.IsReady) : t ∈ k.ready := by
  apply I.live_mem h
  cases hst : (k.tcb t).taskState <;> rw [hst] at hs <;> first | rfl | exact hs.elim

theorem Inv.live_blocked (I : Inv cfg k) {t : Nat} (h : Live cfg k.toTasks t)
    (hs : (k.tcb t).taskState.IsBlocked) :
    ∃ i, t ∈ k.list i ∧ i ≠ .readytorun ∧ i ≠ .pendingtasks := by
  obtain ⟨i, hi⟩ := I.live_iff.mp h
  have hsi := I.ok.wf.state i t hi
  refine ⟨i, hi, ?_, ?_⟩ <;>
    · intro he
      subst he
      cases hst : (k.tcb t).taskState <;> rw [hst] at hs hsi <;> first | exact hs.elim | cases hsi

theorem Inv.unblock (I : Inv cfg k) {t : Nat} (hl : Live cfg k.toTasks t)
    (hs : (k.tcb t).taskState.IsBlocked) (h : upUnblockTask cfg t k = some k') : Inv cfg k' := by
  obtain ⟨i, hi, hr, hp⟩ := I.live_blocked hl hs
  obtain ⟨k₁, h₁, O, K, -, -, L, -⟩ := I.ok.unblock cfg hi hr hp
  cases h₁.symm.trans h
  exact ⟨O, I.pids.congr (fun u _ => K.pid u) K.gPidhash L⟩

theorem Inv.step {i : Op} (I : Inv cfg k) (hv : i.valid cfg k.toTasks k.head)
    (h : i.exec cfg k = some k') : Inv cfg k' := by
  cases i with
  | create tcb priority =>
    obtain ⟨h0, hl, hp⟩ := hv
    have ht : ¬ Listed k tcb := fun hc => hl (I.live_iff.mpr hc)
    obtain ⟨O, P, -⟩ := I.ok.create I.pids h0 ht hp h
    exact ⟨O, P⟩
  | activate tcb => exact I.unblock hv.1 (by rw [hv.2]; trivial) h
  | block tcb s =>
    obtain ⟨hl, hidle, hr, hs⟩ := hv
    obtain ⟨i, hi⟩ := blocked_list hs
    obtain ⟨k₁, h₁, O, T, -, -, -, L⟩ := I.ok.block (I.live_ready hl hr) hidle hs hi
    cases h₁.symm.trans h
    exact ⟨O, I.pids.congr (fun u _ => T.pid u) T.gPidhash L⟩
  | unblock tcb => exact I.unblock hv.1 hv.2 h
  | setpriority irq tcb priority =>
    obtain ⟨hl, hidle⟩ := hv
    obtain ⟨r, hr, hk'⟩ := Option.map_eq_some_iff.mp h
    by_cases hp : schedPriorityMin ≤ priority ∧ priority ≤ schedPriorityMax
    · obtain ⟨k₁, h₁, O, S, -, L⟩ := I.ok.setpriority irq (I.live_iff.mp hl) hidle hp
      cases h₁.symm.trans hr
      cases hk'
      exact ⟨O, I.pids.setPrio S L⟩
    · unfold schedSetpriority at hr
      rw [if_pos (by omega)] at hr
      cases hr
      subst hk'
      show Inv cfg (setErrno irq .einval k)
      unfold setErrno
      split
      · refine ⟨I.ok.modify rfl rfl id, I.pids.congr (fun u _ => ?_) rfl fun u => Iff.rfl⟩
        by_cases hu : u = k.head
        · rw [hu, modify_tcb_same]
        · rw [modify_tcb_of_ne hu]
      · exact I
  | lock irq =>
    obtain ⟨O, S, -⟩ := I.ok.lock h
    exact ⟨O, I.pids.stays S⟩
  | unlock irq =>
    cases h
    obtain ⟨O, S⟩ := I.ok.unlock irq
    exact ⟨O, I.pids.stays S⟩
  | releasePending =>
    cases h
    obtain ⟨O, T, B, L⟩ := I.ok.releasePending
    exact ⟨O, I.pids.congr (fun u _ => T.pid u) T.gPidhash L⟩
  | timeslice =>
    obtain ⟨k₁, h₁, O, S, -⟩ := I.ok.timeslice cfg
    cases h₁.symm.trans h
    exact ⟨O, I.pids.stays S⟩
  | delete irq pid =>
    rcases I.ok.delete I.pids hv.1 hv.2 h with rfl | ⟨t, i, -, -, -, -, -, O, P⟩
    · exact I
    · exact ⟨O, P⟩
  | deletecurrent =>
    obtain ⟨O, P⟩ := I.ok.deletecurrent I.pids hv h
    exact ⟨O, P⟩

theorem reach_inv (h : Reachable (schedMachine cfg) (· = osStart cfg) k) : Inv cfg k := by
  apply Reach.invariant (I := Inv cfg) _ _ h
  · intro s hs
    rw [hs]
    exact osStart_inv cfg
  · exact fun s i s' I hv _ he => I.step hv he

end

/-- The task could run: it is running, ready, or parked until a lock is gone. -/
def TaskState.Runnable (s : TaskState) : Prop := s.IsReady ∨ s = .pending

structure HighestRuns (cfg : Config) (k : Kernel) : Prop where
  unlocked : (k.tcb k.head).lockcount = 0 →
    k.pending = [] ∧ ∀ t, Live cfg k.toTasks t → (k.tcb t).taskState.Runnable → k.prio t ≤ k.prio k.head
  never_stranded : k.pending ≠ [] → 0 < (k.tcb k.head).lockcount

theorem highest_priority_runs {cfg : Config} {k : Kernel}
    (h : Reachable (schedMachine cfg) (· = osStart cfg) k) : HighestRuns cfg k := by
  have I := reach_inv h
  have hpend : (k.tcb k.head).lockcount = 0 → k.pending = [] := by
    intro h0
    by_contra hne
    exact I.ok.parked hne h0
  refine ⟨fun h0 => ⟨hpend h0, fun t hl hs => ?_⟩, fun hne => Nat.pos_of_ne_zero (I.ok.parked hne)⟩
  rcases hs with hs | hs
  · exact I.ok.wf.prio_le_head (I.live_ready hl hs)
  · have hm : t ∈ k.pending := I.live_mem hl (by rw [hs]; rfl)
    rw [hpend h0] at hm
    cases hm

/-- A task of higher priority waits for the lock of the running task and then runs. -/
theorem highest_priority_runs_run : ∃ k, k.ready = [3, 2, 1] ∧ HighestRuns ⟨4, none, false, 0, 0⟩ k := by
  have h : ((runAll (schedMachine ⟨4, none, false, 0, 0⟩) (fun _ _ => True)
      (osStart ⟨4, none, false, 0, 0⟩)
      [.create 2 100, .activate 2, .lock false, .create 3 150, .activate 3, .unlock false]).any
      fun k => decide (k.ready = [3, 2, 1])) = true := by
    decide +kernel
  obtain ⟨k, hk, hr⟩ := (Option.any_eq_true _ _).mp h
  exact ⟨k, of_decide_eq_true hr, highest_priority_runs (Reach.runAll (.init rfl) hk)⟩

end NuttxAvr32.Sched
