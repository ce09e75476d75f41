import NuttxAvr32.Sched.LinkMoves
import NuttxAvr32.Sched.Priority

/-! # Switching tasks on the links

The functions that lock, switch and reprioritize do to the links what they do to the lists. The
states between their steps are well formed, so no search runs out and no link is `NULL`.
-/

namespace NuttxAvr32.Sched

open Keyed Linked

variable {live : List Nat} {fuel : Nat} {m m' : Links} {k : Kernel} {t : Nat} {i : TaskList}

theorem Holds.lock (H : Holds live m k) (irq : Bool) :
    Option.Rel (Holds live) (m.schedLock irq) (schedLock irq k) := by
  unfold Links.schedLock Sched.schedLock
  rw [H.head, H.tcb]
  by_cases hi : irq = true
  · rw [if_pos hi, if_pos hi]
    exact .some H
  · rw [if_neg hi, if_neg hi]
    by_cases hl : (k.tcb k.head).lockcount < maxLockCount
    · rw [if_pos hl, if_pos hl]
      exact .some (H.modify _ _)
    · rw [if_neg hl, if_neg hl]
      exact .none

theorem Holds.unlock (H : Holds live m k) (W : Wf k) (hfuel : live.length < fuel) (irq : Bool) :
    ∃ m', m.schedUnlock fuel irq = some m' ∧ Holds live m' (schedUnlock irq k) := by
  unfold Links.schedUnlock Sched.schedUnlock
  rw [H.head]
  by_cases hi : irq = true
  · rw [if_pos hi, if_pos hi]
    exact ⟨m, rfl, H⟩
  · rw [if_neg hi, if_neg hi]
    dsimp only
    have H₁ := H.modify k.head fun c => { c with lockcount := c.lockcount - 1 }
    have W₁ : Wf (k.modify k.head fun c => { c with lockcount := c.lockcount - 1 }) :=
      W.modify rfl rfl
    generalize m.modify k.head (fun c => { c with lockcount := c.lockcount - 1 }) = m₁ at H₁ ⊢
    generalize k.modify k.head (fun c => { c with lockcount := c.lockcount - 1 }) = k₁ at H₁ W₁ ⊢
    rw [H₁.tcb]
    by_cases h : (k₁.tcb k.head).lockcount = 0 ∧ k₁.pending ≠ []
    · obtain ⟨m', he, H'⟩ := H₁.mergepending W₁ hfuel
      rw [if_pos h, if_pos ⟨h.1, H₁.pending.mpr h.2⟩, Links.upReleasePending, he]
      exact ⟨m', rfl, H'⟩
    · rw [if_neg h, if_neg fun h' => h ⟨h'.1, H₁.pending.mp h'.2⟩]
      exact ⟨m₁, rfl, H₁⟩

theorem Holds.block {s : TaskState} (H : Holds live m k) (W : Wf k) (hfuel : live.length < fuel)
    (ht : t ∈ k.ready) (hidle : t ≠ gIdletcb) (hs : s.IsBlocked) :
    ∃ m' k', m.upBlockTask fuel t s = some m' ∧ upBlockTask t s k = some k' ∧
      Holds live m' k' := by
  have hready := isReady_of_ready W ht
  have hnot : ¬ Listed (schedRemovereadytorun t k).1 t :=
    fun h => ((removereadytorun_listed W ht).mp h).1 rfl
  have hprio : schedPriorityMin ≤ (schedRemovereadytorun t k).1.prio t ∧
      (schedRemovereadytorun t k).1.prio t ≤ schedPriorityMax := by
    rw [(removereadytorun_sameTasks k t).prio]
    exact W.prio _ t ht hidle
  have W₁ := W.removereadytorun ht hidle
  have W₂ := W₁.addblocked hnot (fun h => W.nonzero _ (h ▸ ht)) hprio hs
  obtain ⟨m₁, he₁, H₁⟩ := H.removereadytorun W ht hidle
  obtain ⟨m₂, he₂, H₂⟩ := H₁.addblocked hfuel hnot (H.live _ t ht) hprio.1 hs
  obtain ⟨m₃, he₃, H₃⟩ := H₂.mergeIfPending W₂ hfuel
  refine ⟨m₃, _, ?_, by rw [upBlockTask, if_pos hready], H₃⟩
  rw [Links.upBlockTask, H.tcb, if_pos hready, he₁, Option.bind_some, he₂, Option.bind_some, he₃]

theorem Holds.unblock (cfg : Config) (H : Holds live m k) (O : Ok k) (hfuel : live.length < fuel)
    (ht : t ∈ k.list i) (hi : i ≠ .readytorun) (hi' : i ≠ .pendingtasks) :
    ∃ m' k', m.upUnblockTask fuel cfg t = some m' ∧ upUnblockTask cfg t k = some k' ∧
      Holds live m' k' := by
  have W := O.wf
  have hblocked := O.blocked_state ht hi hi'
  have hidle : t ≠ gIdletcb := fun h => hi (W.idle_ready (h ▸ ht))
  have hlive := H.live i t ht
  obtain ⟨O₁, T₁, -, -, L₁⟩ := O.removeblocked ht hi hi'
  have hnot : ¬ Listed (schedRemoveblocked t k) t := fun h => ((L₁ t).mp h).1 rfl
  have hmin : schedPriorityMin ≤ (schedRemoveblocked t k).prio t := by
    rw [T₁.prio]
    exact (W.prio i t ht hidle).1
  obtain ⟨m₁, he₁, H₁⟩ := H.removeblocked W ht hblocked
  unfold Links.upUnblockTask Sched.upUnblockTask
  rw [H.tcb, if_pos hblocked, if_pos hblocked, he₁, Option.bind_some]
  cases cfg.timeslice with
  | none =>
    obtain ⟨m₂, he₂, H₂⟩ := H₁.addreadytorun O₁.wf hfuel hnot hlive hmin
    exact ⟨m₂, _, by dsimp only; rw [he₂]; rfl, rfl, H₂⟩
  | some ticks =>
    have O₂ : Ok ((schedRemoveblocked t k).modify t fun c => { c with timeslice := ticks }) :=
      O₁.modify_unlisted hnot
    have hmin₂ : schedPriorityMin ≤
        ((schedRemoveblocked t k).modify t fun c => { c with timeslice := ticks }).prio t := by
      rw [(keeps_modify rfl).prio]
      exact hmin
    obtain ⟨m₂, he₂, H₂⟩ := (H₁.modify t fun c => { c with timeslice := ticks }).addreadytorun
      O₂.wf hfuel hnot hlive hmin₂
    exact ⟨m₂, _, by dsimp only; rw [he₂]; rfl, rfl, H₂⟩

theorem Holds.readd {p : Nat} (H : Holds live m k) (O : Ok k) (hfuel : live.length < fuel)
    (ht : t ∈ k.ready) (hidle : t ≠ gIdletcb) (hp : schedPriorityMin ≤ p ∧ p ≤ schedPriorityMax) :
    ∃ m₁ m₂ k₁, m.schedRemovereadytorun t = some (m₁, (schedRemovereadytorun t k).2) ∧
      (schedRemovereadytorun t k).1.modify t (fun c => { c with schedPriority := p }) = k₁ ∧
      (m₁.modify t fun c => { c with schedPriority := p }).schedAddreadytorun fuel t =
        some (m₂, (schedAddreadytorun t k₁).2) ∧
      Holds live m₂ (schedAddreadytorun t k₁).1 ∧ Wf (schedAddreadytorun t k₁).1 := by
  have h0 : t ≠ 0 := fun h => O.wf.nonzero _ (h ▸ ht)
  obtain ⟨k₁, hk₁, W₁, -, P₁, hnot, -⟩ := O.removed (p := p) ht hidle
  have hp₁ : schedPriorityMin ≤ k₁.prio t ∧ k₁.prio t ≤ schedPriorityMax := by
    rw [P₁.prio, Function.update_self]
    exact hp
  obtain ⟨m₁, he₁, H₁⟩ := H.removereadytorun O.wf ht hidle
  have H₂ := H₁.modify t fun c => { c with schedPriority := p }
  rw [← hk₁] at H₂
  obtain ⟨m₂, he₂, H₃⟩ := H₂.addreadytorun W₁ hfuel hnot (H.live _ t ht) hp₁.1
  exact ⟨m₁, m₂, k₁, he₁, hk₁.symm, he₂, H₃, (W₁.added hnot).wf W₁ hnot h0 hp₁⟩

theorem Holds.reprioritize {p : Nat} (H : Holds live m k) (O : Ok k) (hfuel : live.length < fuel)
    (ht : t ∈ k.ready) (hidle : t ≠ gIdletcb) (hp : schedPriorityMin ≤ p ∧ p ≤ schedPriorityMax) :
    ∃ m' k', m.upReprioritizeRtr fuel t p = some m' ∧ upReprioritizeRtr t p k = some k' ∧
      Holds live m' k' := by
  have hready := isReady_of_ready O.wf ht
  obtain ⟨m₁, m₂, k₁, he₁, hk₁, he₂, H₂, W₂⟩ := H.readd O hfuel ht hidle hp
  unfold Links.upReprioritizeRtr Sched.upReprioritizeRtr
  rw [H.tcb, if_pos ⟨hready, hp⟩, if_pos ⟨hready, hp⟩, he₁, Option.bind_some]
  dsimp only
  rw [he₂, Option.bind_some, hk₁]
  dsimp only
  by_cases hx : ((schedRemovereadytorun t k).2 ^^ (schedAddreadytorun t k₁).2) = true
  · rw [if_pos hx, if_pos hx]
    obtain ⟨m₃, he₃, H₃⟩ := H₂.mergeIfPending W₂ hfuel
    exact ⟨m₃, _, he₃, rfl, H₃⟩
  · rw [if_neg hx, if_neg hx]
    exact ⟨m₂, _, rfl, rfl, H₂⟩

theorem Holds.setErrno (H : Holds live m k) (irq : Bool) (e : Errno) :
    Holds live (m.setErrno irq e) (setErrno irq e k) := by
  unfold Links.setErrno Sched.setErrno
  rw [H.head, H.tcb]
  by_cases h : irq = false ∧ (k.tcb k.head).taskState = .running
  · rw [if_pos h, if_pos h]
    exact H.modify _ _
  · rw [if_neg h, if_neg h]
    exact H

theorem Holds.setReady {p : Nat} (H : Holds live m k) (O : Ok k) (hfuel : live.length < fuel)
    (irq : Bool) (ht : t ∈ k.ready) (hidle : t ≠ gIdletcb)
    (hp : schedPriorityMin ≤ p ∧ p ≤ schedPriorityMax) :
    ∃ m' k', m.schedSetpriority fuel irq t p = some (m', true) ∧
      schedSetpriority irq t p k = some (k', true) ∧ Holds live m' k' := by
  have W := O.wf
  have hst := W.state .readytorun t ht
  have hrun := O.running t ht
  have hrange : ¬ (p < schedPriorityMin ∨ schedPriorityMax < p) := by omega
  obtain ⟨m', k', he, hk, H'⟩ := H.reprioritize O hfuel ht hidle hp
  unfold Links.schedSetpriority Sched.schedSetpriority
  rw [if_neg hrange, if_neg hrange]
  dsimp only
  rw [H.tcb, H.head, H.prio]
  cases hs : (k.tcb t).taskState <;> rw [hs] at hst <;> cases hst
  · -- ready, but not running
    have hth : t ≠ k.head := by
      intro h
      have := hrun.mpr (h ▸ W.head)
      rw [hs] at this
      cases this
    dsimp only
    by_cases hlt : k.prio k.head < p
    · rw [if_pos hlt, if_pos hlt, he, hk]
      exact ⟨m', k', rfl, rfl, H'⟩
    · rw [if_neg hlt, if_neg hlt]
      obtain ⟨m₁, m₂, k₁, he₁, hk₁, he₂, H₂, -⟩ := H.readd O hfuel ht hidle hp
      have hstays : (schedRemovereadytorun t k).2 = false := by
        rw [removereadytorun_eq W hidle, if_neg hth]
      have hbehind : (schedAddreadytorun t k₁).2 = false := by
        obtain ⟨k₂, hk₂, W₁, -, P₁, hnot, -, -, hhead₁⟩ := O.removed (p := p) ht hidle
        rw [← hk₁, ← hk₂]
        rw [if_neg hth] at hhead₁
        have A := W₁.added hnot
        generalize schedAddreadytorun t k₂ = r at A ⊢
        cases A with
        | parked => rfl
        | behind => rfl
        | top hlock hprio =>
          rw [hhead₁, P₁.prio, Function.update_self, Function.update_of_ne (Ne.symm hth)] at hprio
          exact absurd hprio hlt
      rw [he₁, Option.bind_some, hstays]
      dsimp only
      rw [if_neg Bool.false_ne_true, he₂, Option.bind_some, hbehind, hk₁]
      dsimp only
      rw [if_neg Bool.false_ne_true]
      exact ⟨m₂, _, rfl, rfl, H₂⟩
  · -- running
    have hth : t = k.head := by
      have h := hrun.mp hs
      rw [W.head] at h
      exact (Option.some.inj h).symm
    have hnext : m.flink t = some k.next := by
      rw [hth]
      exact H.flink_head W (hth ▸ hidle)
    dsimp only
    rw [hnext, Option.bind_some]
    by_cases hle : p ≤ k.prio k.next
    · rw [if_pos hle, if_pos hle, he, hk]
      exact ⟨m', k', rfl, rfl, H'⟩
    · rw [if_neg hle, if_neg hle]
      exact ⟨_, _, rfl, rfl, H.modify t _⟩

theorem Holds.setWaiting {p : Nat} (H : Holds live m k) (O : Ok k) (hfuel : live.length < fuel)
    (irq : Bool) (ht : t ∈ k.list i) (hi : i ≠ .readytorun)
    (hp : schedPriorityMin ≤ p ∧ p ≤ schedPriorityMax) :
    ∃ m' k', m.schedSetpriority fuel irq t p = some (m', true) ∧
      schedSetpriority irq t p k = some (k', true) ∧ Holds live m' k' := by
  have W := O.wf
  have hst := W.state i t ht
  have hidle : t ≠ gIdletcb := fun h => hi (W.idle_ready (h ▸ ht))
  have hrange : ¬ (p < schedPriorityMin ∨ schedPriorityMax < p) := by omega
  have hnot : ¬ Listed ((k.setList i ((k.list i).erase t)).modify t fun c =>
      { c with schedPriority := p }) t := W.not_listed_remove ht
  have hmin : schedPriorityMin ≤ ((k.setList i ((k.list i).erase t)).modify t fun c =>
      { c with schedPriority := p }).prio t := by
    show schedPriorityMin ≤ (((k.setList i ((k.list i).erase t)).modify t _).tcb t).schedPriority
    rw [modify_tcb_same]
    exact hp.1
  obtain ⟨m', he, H'⟩ := ((H.dqRem ht).modify t fun c =>
    { c with schedPriority := p }).addprioritized hfuel hnot (H.live i t ht) hmin i
  have hset := H.modify t fun c => { c with schedPriority := p }
  unfold Links.schedSetpriority Sched.schedSetpriority
  rw [if_neg hrange, if_neg hrange]
  dsimp only
  rw [H.tcb]
  cases hs : (k.tcb t).taskState <;> rw [hs] at hst <;> cases hst
  case readytorun => exact absurd rfl hi
  case running => exact absurd rfl hi
  case inactive => exact ⟨_, _, rfl, rfl, hset⟩
  case waitSig => exact ⟨_, _, rfl, rfl, hset⟩
  all_goals
    exact ⟨m', _, by simp [TaskState.prioritized, TaskState.list, he], rfl, H'⟩

theorem Holds.setpriority (H : Holds live m k) (O : Ok k) (hfuel : live.length < fuel)
    (irq : Bool) (ht : Listed k t) (hidle : t ≠ gIdletcb) (p : Nat) :
    ∃ m' k' valid, m.schedSetpriority fuel irq t p = some (m', valid) ∧
      schedSetpriority irq t p k = some (k', valid) ∧ Holds live m' k' := by
  by_cases hp : schedPriorityMin ≤ p ∧ p ≤ schedPriorityMax
  · obtain ⟨i, ht⟩ := ht
    by_cases hi : i = .readytorun
    · subst hi
      obtain ⟨m', k', he, hk, H'⟩ := H.setReady O hfuel irq ht hidle hp
      exact ⟨m', k', true, he, hk, H'⟩
    · obtain ⟨m', k', he, hk, H'⟩ := H.setWaiting O hfuel irq ht hi hp
      exact ⟨m', k', true, he, hk, H'⟩
  · have hrange : p < schedPriorityMin ∨ schedPriorityMax < p := by omega
    refine ⟨_, _, false, ?_, ?_, H.setErrno irq .einval⟩
    · rw [Links.schedSetpriority, if_pos hrange]
    · rw [schedSetpriority, if_pos hrange]

theorem Holds.timeslice (cfg : Config) (H : Holds live m k) (O : Ok k)
    (hfuel : live.length < fuel) :
    ∃ m' k', m.schedProcessTimeslice fuel cfg = some m' ∧
      schedProcessTimeslice cfg k = some k' ∧ Holds live m' k' := by
  unfold Links.schedProcessTimeslice Sched.schedProcessTimeslice
  cases cfg.timeslice with
  | none => exact ⟨m, k, rfl, rfl, H⟩
  | some ticks =>
    dsimp only
    rw [H.head, H.tcb]
    by_cases hrr : (k.tcb k.head).roundRobin = false
    · rw [if_pos hrr, if_pos hrr]
      exact ⟨m, k, rfl, rfl, H⟩
    rw [if_neg hrr, if_neg hrr]
    by_cases hts : (k.tcb k.head).timeslice ≤ 1
    · rw [if_pos hts, if_pos hts]
      by_cases hl : (k.tcb k.head).lockcount = 0
      · rw [if_pos hl, if_pos hl]
        have H₁ := H.modify k.head fun c => { c with timeslice := ticks }
        have O₁ : Ok (k.modify k.head fun c => { c with timeslice := ticks }) :=
          O.modify rfl rfl id
        have hhead : (k.modify k.head fun c => { c with timeslice := ticks }).head = k.head := rfl
        generalize m.modify k.head (fun c => { c with timeslice := ticks }) = m₁ at H₁ ⊢
        generalize k.modify k.head (fun c => { c with timeslice := ticks }) = k₁ at H₁ O₁ hhead ⊢
        rw [← hhead, H₁.prio]
        by_cases hidle : k₁.head = gIdletcb
        · have hnone : m₁.flink k₁.head = none := by
            rw [H₁.flink_ready O₁.wf, O₁.wf.tail_idle hidle]
            rfl
          have hnext : k₁.next = 0 := by
            rw [Kernel.next, O₁.wf.tail_idle hidle]
            rfl
          rw [hnone, if_neg fun h => h.1 hnext]
          exact ⟨m₁, k₁, rfl, rfl, H₁⟩
        · have hsome := H₁.flink_head O₁.wf hidle
          have hn0 : k₁.next ≠ 0 := O₁.wf.next_ne_zero hidle
          rw [hsome]
          dsimp only
          by_cases hle : k₁.prio k₁.head ≤ k₁.prio k₁.next
          · obtain ⟨m', k', he, hk, H'⟩ := H₁.reprioritize O₁ hfuel O₁.wf.head_mem hidle
              (O₁.wf.prio .readytorun _ O₁.wf.head_mem hidle)
            rw [if_pos hle, if_pos ⟨hn0, hle⟩]
            exact ⟨m', k', he, hk, H'⟩
          · rw [if_neg hle, if_neg fun h => hle h.2]
            exact ⟨m₁, k₁, rfl, rfl, H₁⟩
      · rw [if_neg hl, if_neg hl]
        exact ⟨m, k, rfl, rfl, H⟩
    · rw [if_neg hts, if_neg hts]
      exact ⟨_, _, rfl, rfl, H.modify _ _⟩

end NuttxAvr32.Sched
