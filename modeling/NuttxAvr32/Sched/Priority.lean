import NuttxAvr32.Sched.Steps

/-! # Changing the priority of a task

`up_reprioritize_rtr` and `sched_setpriority`, for any task except the idle task and
with or without a lock of the running task. In a prioritized list the task is put
behind those of its new priority.
-/

namespace NuttxAvr32.Sched

open Keyed
open Function (update update_self update_of_ne update_eq_self)

/-- `k'` differs from `k` in lists and states, and the task has a new priority. -/
structure SetPrio (t p : Nat) (k k' : Kernel) : Prop where
  tcb : ∀ u, k'.tcb u = { k.tcb u with
    taskState := (k'.tcb u).taskState
    schedPriority := if u = t then p else (k.tcb u).schedPriority }
  gPidhash : k'.gPidhash = k.gPidhash
  gLastpid : k'.gLastpid = k.gLastpid

def retuned (k : Kernel) (t p : Nat) (i : TaskList) : List Nat :=
  if t ∈ k.list i ∧ i.prioritized = true then
    insertKeyed (update k.prio t p) t ((k.list i).erase t)
  else k.list i

section

variable {k k' k'' : Kernel} {t u p : Nat} {i : TaskList}

theorem SetPrio.prio (h : SetPrio t p k k') : k'.prio = update k.prio t p := by
  funext u
  show (k'.tcb u).schedPriority = _
  rw [h.tcb u]
  show (if u = t then p else k.prio u) = _
  by_cases hu : u = t
  · rw [if_pos hu, hu, update_self]
  · rw [if_neg hu, update_of_ne hu]

theorem setPrio_modify : SetPrio t p k (k.modify t fun c => { c with schedPriority := p }) := by
  refine ⟨fun u => ?_, rfl, rfl⟩
  by_cases h : u = t
  · subst h
    rw [modify_tcb_same, if_pos rfl]
  · rw [modify_tcb_of_ne h, if_neg h]

theorem SameTasks.setPrio (h : SameTasks k k') (h' : SetPrio t p k' k'') : SetPrio t p k k'' := by
  refine ⟨fun u => ?_, h'.gPidhash.trans h.gPidhash, h'.gLastpid.trans h.gLastpid⟩
  rw [h'.tcb u, h.tcb u]

theorem SetPrio.sameTasks (h : SetPrio t p k k') (h' : SameTasks k' k'') : SetPrio t p k k'' := by
  refine ⟨fun u => ?_, h'.gPidhash.trans h.gPidhash, h'.gLastpid.trans h.gLastpid⟩
  rw [h'.tcb u, h.tcb u]

theorem SetPrio.lockcount (h : SetPrio t p k k') (u : Nat) :
    (k'.tcb u).lockcount = (k.tcb u).lockcount := by rw [h.tcb u]

theorem mem_retuned : u ∈ retuned k t p i ↔ u ∈ k.list i := by
  unfold retuned
  split
  · rename_i h
    rw [mem_insertKeyed]
    constructor
    · rintro (rfl | hu)
      · exact h.1
      · exact List.mem_of_mem_erase hu
    · intro hu
      by_cases hut : u = t
      · exact .inl hut
      · exact .inr ((List.mem_erase_of_ne hut).mpr hu)
  · exact Iff.rfl

theorem retuned_of_not_mem (h : t ∉ k.list i) : retuned k t p i = k.list i :=
  if_neg fun hc => h hc.1

end

section

variable {k : Kernel} {t u p : Nat}

theorem Ok.removed (O : Ok k) (ht : t ∈ k.ready) (hidle : t ≠ gIdletcb) :
    ∃ k₁, k₁ = (schedRemovereadytorun t k).1.modify t (fun c => { c with schedPriority := p }) ∧
      Wf k₁ ∧ Running k₁ ∧ SetPrio t p k k₁ ∧ ¬ Listed k₁ t ∧
      (∀ u, Listed k₁ u ↔ u ≠ t ∧ Listed k u) ∧ (∀ i, i ≠ .readytorun → k₁.list i = k.list i) ∧
      k₁.head = (if t = k.head then k.next else k.head) := by
  have W₁ := O.wf.removereadytorun ht hidle
  have R₁ := O.running.removereadytorun O.wf hidle
  have L₁ : ∀ u, Listed (schedRemovereadytorun t k).1 u ↔ u ≠ t ∧ Listed k u :=
    fun u => removereadytorun_listed O.wf ht
  have hnot : ¬ Listed (schedRemovereadytorun t k).1 t := fun h => ((L₁ t).mp h).1 rfl
  refine ⟨_, rfl, W₁.modify_unlisted hnot, ?_, ?_, hnot, L₁, ?_, ?_⟩
  · refine R₁.congr (show Kernel.ready (Kernel.modify _ _ _) = _ from rfl) fun u hu => ?_
    rw [modify_tcb_of_ne]
    intro h
    exact hnot ⟨_, h ▸ hu⟩
  · exact (removereadytorun_sameTasks k t).setPrio setPrio_modify
  · intro i hi
    show (schedRemovereadytorun t k).1.list i = _
    rw [removereadytorun_list]
    exact setList_list_of_ne hi
  · exact head_eq (removereadytorun_head O.wf hidle)

theorem Ok.reprioritize (O : Ok k) (ht : t ∈ k.ready) (hidle : t ≠ gIdletcb)
    (hp : schedPriorityMin ≤ p ∧ p ≤ schedPriorityMax) :
    ∃ k', upReprioritizeRtr t p k = some k' ∧ Ok k' ∧ SetPrio t p k k' ∧ SameBlocked k k' ∧
      ∀ u, Listed k' u ↔ Listed k u := by
  have h0 : t ≠ 0 := fun h => O.wf.nonzero _ (h ▸ ht)
  obtain ⟨k₁, hk₁, W₁, R₁, P₁, hnot, L₁, B₁, hhead₁⟩ := O.removed (p := p) ht hidle
  have hp₁ : schedPriorityMin ≤ k₁.prio t ∧ k₁.prio t ≤ schedPriorityMax := by
    rw [P₁.prio, update_self]
    exact hp
  have A := W₁.added hnot
  have W₂ := A.wf W₁ hnot h0 hp₁
  have R₂ := A.running W₁ hnot R₁
  have P₂ := P₁.sameTasks A.sameTasks
  have B₂ : SameBlocked k (schedAddreadytorun t k₁).1 := by
    intro i hi hi'
    rw [A.list hi hi', B₁ i hi]
  have L₂ : ∀ u, Listed (schedAddreadytorun t k₁).1 u ↔ Listed k u := by
    intro u
    rw [A.listed, L₁ u]
    constructor
    · rintro (rfl | h)
      · exact ⟨_, ht⟩
      · exact h.2
    · intro h
      by_cases hut : u = t
      · exact .inl hut
      · exact .inr ⟨hut, h⟩
  have hrun : upReprioritizeRtr t p k = some
      (if (schedRemovereadytorun t k).2 ^^ (schedAddreadytorun t k₁).2 then
        mergeIfPending (schedAddreadytorun t k₁).1 else (schedAddreadytorun t k₁).1) := by
    unfold upReprioritizeRtr
    rw [if_pos ⟨isReady_of_ready O.wf ht, hp⟩, hk₁]
  refine ⟨_, hrun, ?_⟩
  by_cases hx : ((schedRemovereadytorun t k).2 ^^ (schedAddreadytorun t k₁).2) = true
  · rw [if_pos hx]
    obtain ⟨W₃, R₃, hpend, T₃, B₃, L₃⟩ := mergeIfPending_eq W₂ R₂
    exact ⟨⟨W₃, R₃, parked_of_nil hpend⟩, P₂.sameTasks T₃, B₂.trans B₃,
      fun u => (L₃ u).trans (L₂ u)⟩
  · rw [if_neg hx]
    refine ⟨⟨W₂, R₂, ?_⟩, P₂, B₂, L₂⟩
    have hpend₁ : k₁.pending = k.pending := B₁ .pendingtasks (by decide)
    have hhead₂ := head_eq (A.head W₁)
    rw [removereadytorun_eq O.wf hidle] at hx
    intro hne
    rw [hhead₂, P₂.lockcount]
    by_cases hth : t = k.head
    · rw [if_pos hth] at hx hhead₁
      have hadd : (schedAddreadytorun t k₁).2 = true := by
        cases h : (schedAddreadytorun t k₁).2 <;> simp [h] at hx ⊢
      rw [if_pos hadd, hth]
      apply O.parked
      rw [← hpend₁]
      -- at the head again, so the task was not parked
      generalize schedAddreadytorun t k₁ = r at A hadd hne
      cases A with
      | parked => cases hadd
      | behind => cases hadd
      | top =>
        intro h
        apply hne
        show (k₁.setList .readytorun (t :: k₁.ready)).list .pendingtasks = []
        rw [setList_list_of_ne (by decide)]
        exact h
    · rw [if_neg hth] at hx hhead₁
      have hadd : (schedAddreadytorun t k₁).2 = false := by
        cases h : (schedAddreadytorun t k₁).2 <;> simp [h] at hx ⊢
      rw [if_neg (by simp [hadd]), hhead₁]
      generalize schedAddreadytorun t k₁ = r at A hadd hne
      cases A with
      | top => cases hadd
      | parked hlock =>
        rw [hhead₁, P₁.lockcount] at hlock
        exact hlock
      | behind =>
        apply O.parked
        rw [← hpend₁]
        intro h
        apply hne
        show (k₁.setList .readytorun (insertKeyed k₁.prio t k₁.ready)).list .pendingtasks = []
        rw [setList_list_of_ne (by decide)]
        exact h

end

section

variable {k : Kernel} {t u p : Nat} {i : TaskList}

theorem Ok.setHead (O : Ok k) (hidle : k.head ≠ gIdletcb) (hnext : k.prio k.next < p)
    (hp : schedPriorityMin ≤ p ∧ p ≤ schedPriorityMax) :
    Ok (k.modify k.head fun c => { c with schedPriority := p }) := by
  have P : SetPrio k.head p k (k.modify k.head fun c => { c with schedPriority := p }) :=
    setPrio_modify
  have W := O.wf
  have hother : ∀ i, i ≠ .readytorun → ∀ u ∈ k.list i, u ≠ k.head := by
    intro i hi u hu he
    exact hi (W.list_unique hu (he ▸ W.head_mem))
  refine ⟨⟨W.nodup, fun i u hu => ?_, fun i hi => ?_, W.nonzero, W.idle, ?_, fun i u hu hne => ?_⟩,
    ?_, ?_⟩
  · have hs := W.state i u hu
    rw [P.tcb u]
    by_cases h : u = k.head
    · subst h
      rw [modify_tcb_same]
      exact hs
    · rw [modify_tcb_of_ne h]
      exact hs
  · rw [P.prio]
    show Descending (update k.prio k.head p) (k.list i)
    have hs := W.sorted i hi
    by_cases hr : i = .readytorun
    · subst hr
      have hh := W.head
      have htail := (W.tail_head hidle).1
      have hn := W.nodup .readytorun
      unfold Kernel.ready at hh htail
      cases hl : k.list .readytorun with
      | nil =>
        rw [hl] at hh
        cases hh
      | cons a r =>
        rw [hl] at hh htail hs hn
        have ha : a = k.head := Option.some.inj hh
        have hne : ∀ u ∈ r, u ≠ k.head :=
          fun u hu he => (List.nodup_cons.mp hn).1 (ha ▸ he ▸ hu)
        obtain ⟨h1, h2⟩ := List.pairwise_cons.mp hs
        refine List.pairwise_cons.mpr ⟨fun u hu => ?_, ?_⟩
        · rw [update_of_ne (hne u hu), ha, update_self]
          -- the next task is the highest of the rest
          cases hr : r with
          | nil =>
            rw [hr] at hu
            cases hu
          | cons b r' =>
            rw [hr] at hu htail h2
            have hb : b = k.next := Option.some.inj htail
            rcases List.mem_cons.mp hu with rfl | hu
            · rw [hb]
              exact Nat.le_of_lt hnext
            · have hbu : k.prio u ≤ k.prio b := (List.pairwise_cons.mp h2).1 u hu
              rw [hb] at hbu
              exact Nat.le_of_lt (Nat.lt_of_le_of_lt hbu hnext)
        · refine h2.imp_of_mem fun {x y} hx hy hxy => ?_
          rw [update_of_ne (hne x hx), update_of_ne (hne y hy)]
          exact hxy
    · refine hs.imp_of_mem fun {x y} hx hy hxy => ?_
      rw [update_of_ne (hother i hr x hx), update_of_ne (hother i hr y hy)]
      exact hxy
  · rw [P.prio, update_of_ne (Ne.symm hidle)]
    exact W.idlePrio
  · rw [P.prio]
    by_cases h : u = k.head
    · rw [h, update_self]
      exact hp
    · rw [update_of_ne h]
      exact W.prio i u hu hne
  · refine O.running.congr (show Kernel.ready (Kernel.modify _ _ _) = _ from rfl) fun u hu => ?_
    by_cases h : u = k.head
    · rw [h, modify_tcb_same]
    · rw [modify_tcb_of_ne h]
  · intro hne
    show ((k.modify k.head _).tcb k.head).lockcount ≠ 0
    rw [modify_tcb_same]
    exact O.parked hne

theorem Ok.requeue (O : Ok k) (ht : t ∈ k.list i) (hi : i ≠ .readytorun)
    (hpr : i.prioritized = true) (hp : schedPriorityMin ≤ p ∧ p ≤ schedPriorityMax) :
    ∃ k', k' = (schedAddprioritized t i
        ((k.setList i ((k.list i).erase t)).modify t fun c => { c with schedPriority := p })).1 ∧
      Ok k' ∧ SetPrio t p k k' ∧ (∀ j, j ≠ .readytorun → j ≠ .pendingtasks →
        k'.list j = retuned k t p j) ∧ (∀ u, Listed k' u ↔ Listed k u) := by
  have W := O.wf
  have hidle : t ≠ gIdletcb := fun h => hi (W.idle_ready (h ▸ ht))
  have h0 : t ≠ 0 := fun h => W.nonzero i (h ▸ ht)
  let k₀ := k.setList i ((k.list i).erase t)
  let k₁ := k₀.modify t fun c => { c with schedPriority := p }
  have W₀ : Wf k₀ := W.remove hidle
  have hnot : ¬ Listed k₀ t := W.not_listed_remove ht
  have W₁ : Wf k₁ := W₀.modify_unlisted hnot
  have P₁ : SetPrio t p k k₁ := sameTasks_setList.setPrio setPrio_modify
  have hst : (k₁.tcb t).taskState.list = some i := by
    show ((k₀.modify t _).tcb t).taskState.list = _
    rw [modify_tcb_same]
    exact W.state i t ht
  have hprio : k₁.prio = update k.prio t p := P₁.prio
  have hli : k₁.list i = (k.list i).erase t := setList_list_same
  let l := insertKeyed k₁.prio t (k₁.list i)
  have W₂ : Wf ((k₁.setList i l).setState t (k₁.tcb t).taskState) := by
    apply W₁.insert hnot h0 _ hst (insertKeyed_perm _ _ _)
      (fun h => insertKeyed_descending (W₁.sorted _ h)) (fun h => absurd h hi)
    rw [hprio, update_self]
    exact hp
  have hself : (k₁.setList i l).setState t (k₁.tcb t).taskState = k₁.setList i l := by
    unfold Kernel.setState Kernel.modify
    have he : update (k₁.setList i l).tcb t
        { (k₁.setList i l).tcb t with taskState := (k₁.tcb t).taskState } = (k₁.setList i l).tcb := by
      apply update_eq_self
    rw [he]
  rw [hself] at W₂
  have hready : (k₁.setList i l).ready = k.ready := by
    show (k₁.setList i l).list .readytorun = _
    rw [setList_list_of_ne (Ne.symm hi)]
    show (k.setList i _).list .readytorun = _
    exact setList_list_of_ne (Ne.symm hi)
  have hnr : ∀ u ∈ k.ready, u ≠ t := by
    intro u hu he
    exact hi (W.list_unique ht (he ▸ hu))
  refine ⟨_, rfl, ⟨W₂, ?_, ?_⟩, ?_, ?_, ?_⟩
  · refine O.running.congr hready fun u hu => ?_
    have hu₁ : k₁.tcb u = k₀.tcb u := modify_tcb_of_ne (hnr u hu)
    show (k₁.tcb u).taskState = _
    rw [hu₁]
    rfl
  · have hhead : (k₁.setList i l).head = k.head := by
      unfold Kernel.head
      rw [hready]
    intro hne
    show ((k₁.setList i l).tcb (k₁.setList i l).head).lockcount ≠ 0
    rw [hhead, setList_tcb, P₁.lockcount]
    apply O.parked
    intro hnil
    by_cases hip : i = .pendingtasks
    · subst hip
      have : t ∈ k.pending := ht
      rw [hnil] at this
      cases this
    · apply hne
      show (k₁.setList i l).list .pendingtasks = []
      rw [setList_list_of_ne (Ne.symm hip)]
      show (k.setList i _).list .pendingtasks = []
      rw [setList_list_of_ne (Ne.symm hip)]
      exact hnil
  · exact P₁.sameTasks sameTasks_setList
  · intro j hj hj'
    show (k₁.setList i l).list j = _
    by_cases hji : j = i
    · subst hji
      rw [setList_list_same]
      show insertKeyed k₁.prio t (k₁.list j) = _
      rw [hprio, hli]
      exact (if_pos ⟨ht, hpr⟩).symm
    · rw [setList_list_of_ne hji]
      show (k.setList i _).list j = _
      rw [setList_list_of_ne hji, retuned_of_not_mem fun h => hji (W.list_unique h ht)]
  · intro u
    have hl : Listed (k₁.setList i l) u ↔ u = t ∨ Listed k₁ u :=
      listed_insert rfl fun _ => mem_insertKeyed
    have h₁ : Listed k₁ u ↔ u ≠ t ∧ Listed k u := listed_erase W ht rfl
    show Listed (k₁.setList i l) u ↔ _
    rw [hl, h₁]
    constructor
    · rintro (rfl | h)
      · exact ⟨_, ht⟩
      · exact h.2
    · intro h
      by_cases hut : u = t
      · exact .inl hut
      · exact .inr ⟨hut, h⟩

theorem Ok.setpriority (O : Ok k) (irq : Bool) (ht : Listed k t) (hidle : t ≠ gIdletcb)
    (hp : schedPriorityMin ≤ p ∧ p ≤ schedPriorityMax) :
    ∃ k', schedSetpriority irq t p k = some (k', true) ∧ Ok k' ∧ SetPrio t p k k' ∧
      (∀ j, j ≠ .readytorun → j ≠ .pendingtasks → k'.list j = retuned k t p j) ∧
      ∀ u, Listed k' u ↔ Listed k u := by
  obtain ⟨i, hi⟩ := ht
  have W := O.wf
  have hst := W.state i t hi
  have hne : ∀ j, j ≠ i → retuned k t p j = k.list j :=
    fun j hj => retuned_of_not_mem fun h => hj (W.list_unique h hi)
  have hrange : ¬ (p < schedPriorityMin ∨ schedPriorityMax < p) := by omega
  by_cases hr : i = .readytorun
  · subst hr
    unfold schedSetpriority
    rw [if_neg hrange]
    dsimp only
    have hblocked : ∀ {k' : Kernel}, SameBlocked k k' → ∀ j, j ≠ .readytorun → j ≠ .pendingtasks →
        k'.list j = retuned k t p j := by
      intro k' B j hj hj'
      rw [hne j hj]
      exact B j hj hj'
    have hrun := O.running t hi
    have hre := O.reprioritize hi hidle hp
    obtain ⟨k', hk', O', P', B', L'⟩ := hre
    cases hs : (k.tcb t).taskState <;> rw [hs] at hst <;> cases hst
    · -- ready, but not running
      have hth : t ≠ k.head := by
        intro h
        have := hrun.mpr (h ▸ W.head)
        rw [hs] at this
        cases this
      dsimp only
      by_cases hlt : k.prio k.head < p
      · rw [if_pos hlt, hk']
        exact ⟨k', rfl, O', P', hblocked B', L'⟩
      · rw [if_neg hlt]
        obtain ⟨k₁, hk₁, W₁, R₁, P₁, hnot, L₁, B₁, hhead₁⟩ := O.removed (p := p) hi hidle
        rw [if_neg hth] at hhead₁
        have O₁ : Ok k₁ := by
          refine ⟨W₁, R₁, fun hpne => ?_⟩
          rw [hhead₁, P₁.lockcount]
          exact O.parked fun h => hpne ((B₁ .pendingtasks (by decide)).trans h)
        have hp₁ : schedPriorityMin ≤ k₁.prio t ∧ k₁.prio t ≤ schedPriorityMax := by
          rw [P₁.prio, update_self]
          exact hp
        obtain ⟨O₂, T₂, B₂, L₂⟩ := O₁.addready hnot (fun h => W.nonzero _ (h ▸ hi)) hp₁
        refine ⟨(schedAddreadytorun t k₁).1, by rw [hk₁], O₂, P₁.sameTasks T₂, ?_, fun u => ?_⟩
        · intro j hj hj'
          rw [B₂ j hj hj', B₁ j hj, hne j hj]
        · rw [L₂ u, L₁ u]
          constructor
          · rintro (rfl | h)
            · exact ⟨_, hi⟩
            · exact h.2
          · intro h
            by_cases hut : u = t
            · exact .inl hut
            · exact .inr ⟨hut, h⟩
    · -- running
      have hth : t = k.head := by
        have h := hrun.mp hs
        rw [W.head] at h
        exact (Option.some.inj h).symm
      dsimp only
      by_cases hle : p ≤ k.prio k.next
      · rw [if_pos hle, hk']
        exact ⟨k', rfl, O', P', hblocked B', L'⟩
      · rw [if_neg hle]
        refine ⟨_, rfl, ?_, setPrio_modify, hblocked fun _ _ _ => rfl, fun _ => Iff.rfl⟩
        subst hth
        exact O.setHead hidle (by omega) hp
  · have hcase : (k.tcb t).taskState ≠ .running ∧ (k.tcb t).taskState ≠ .readytorun := by
      constructor <;>
        · intro h
          rw [h] at hst
          exact hr (Option.some.inj hst).symm
    have hpr := TaskState.prioritized_eq hst
    have hgoal : schedSetpriority irq t p k =
        if i.prioritized then some ((schedAddprioritized t i ((k.setList i ((k.list i).erase t)).modify
            t fun c => { c with schedPriority := p })).1, true)
          else some (k.modify t fun c => { c with schedPriority := p }, true) := by
      unfold schedSetpriority
      rw [if_neg hrange]
      dsimp only
      cases hs : (k.tcb t).taskState <;> rw [hs] at hst hpr hcase <;>
        first
          | exact absurd rfl hcase.1
          | exact absurd rfl hcase.2
          | cases hst
      all_goals rfl
    rw [hgoal]
    by_cases hpi : i.prioritized = true
    · rw [if_pos hpi]
      obtain ⟨k', hk', O', P', B', L'⟩ := O.requeue hi hr hpi hp
      exact ⟨k', by rw [hk'], O', P', B', L'⟩
    · rw [if_neg hpi]
      have hip : i ≠ .pendingtasks := fun h => hpi (h ▸ rfl)
      refine ⟨_, rfl, ?_, setPrio_modify, ?_, fun _ => Iff.rfl⟩
      · -- the list is not ordered by priority
        have P : SetPrio t p k (k.modify t fun c => { c with schedPriority := p }) := setPrio_modify
        have hnot : ∀ j, j.prioritized = true → ∀ u ∈ k.list j, u ≠ t := by
          intro j hj u hu he
          apply hpi
          rw [← W.list_unique (he ▸ hu) hi]
          exact hj
        have htr : ∀ u ∈ k.ready, u ≠ t := hnot .readytorun rfl
        refine ⟨⟨W.nodup, fun j u hu => ?_, fun j hj => ?_, W.nonzero, W.idle, ?_,
          fun j u hu hun => ?_⟩, ?_, ?_⟩
        · have hs := W.state j u hu
          by_cases h : u = t
          · subst h
            rw [modify_tcb_same]
            exact hs
          · rw [modify_tcb_of_ne h]
            exact hs
        · rw [P.prio]
          refine (W.sorted j hj).imp_of_mem fun {x y} hx hy hxy => ?_
          rw [update_of_ne (hnot j hj x hx), update_of_ne (hnot j hj y hy)]
          exact hxy
        · rw [P.prio, update_of_ne (Ne.symm hidle)]
          exact W.idlePrio
        · rw [P.prio]
          by_cases h : u = t
          · rw [h, update_self]
            exact hp
          · rw [update_of_ne h]
            exact W.prio j u hu hun
        · refine O.running.congr (show Kernel.ready (Kernel.modify _ _ _) = _ from rfl) fun u hu => ?_
          rw [modify_tcb_of_ne (htr u hu)]
        · intro hpne
          show ((k.modify t _).tcb k.head).lockcount ≠ 0
          rw [modify_tcb_of_ne (htr _ W.head_mem)]
          exact O.parked hpne
      · intro j hj hj'
        show k.list j = _
        by_cases hji : j = i
        · subst hji
          exact (if_neg fun h => hpi h.2).symm
        · exact (hne j hji).symm

end

theorem Ok.timeslice {k : Kernel} (cfg : Config) (O : Ok k) :
    ∃ k', schedProcessTimeslice cfg k = some k' ∧ Ok k' ∧ Stays k k' ∧ SameLocks k k' := by
  unfold schedProcessTimeslice
  cases cfg.timeslice with
  | none => exact ⟨k, rfl, O, Stays.refl k, fun _ => rfl⟩
  | some ticks =>
    dsimp only
    by_cases hrr : (k.tcb k.head).roundRobin = false
    · rw [if_pos hrr]
      exact ⟨k, rfl, O, Stays.refl k, fun _ => rfl⟩
    rw [if_neg hrr]
    by_cases hts : (k.tcb k.head).timeslice ≤ 1
    · rw [if_pos hts]
      by_cases hl : (k.tcb k.head).lockcount = 0
      · rw [if_pos hl]
        let k₁ := k.modify k.head fun c => { c with timeslice := ticks }
        have O₁ : Ok k₁ := O.modify rfl rfl id
        have S₁ : Stays k k₁ := ⟨keeps_modify rfl, SameBlocked.refl k, fun _ => Iff.rfl⟩
        show ∃ k', (if k₁.next ≠ 0 ∧ k₁.prio k.head ≤ k₁.prio k₁.next then
          upReprioritizeRtr k.head (k₁.prio k.head) k₁ else some k₁) = some k' ∧ Ok k' ∧
            Stays k k' ∧ SameLocks k k'
        by_cases hn : k₁.next ≠ 0 ∧ k₁.prio k.head ≤ k₁.prio k₁.next
        · rw [if_pos hn]
          -- with a task behind it the running task is not the idle task
          have hidle : k.head ≠ gIdletcb := by
            intro h
            apply hn.1
            show k.next = 0
            rw [Kernel.next, O.wf.tail_idle h]
            rfl
          obtain ⟨k', hk', O', P', B', L'⟩ := O₁.reprioritize (p := k₁.prio k.head)
            (show k.head ∈ k₁.ready from O.wf.head_mem) hidle
            (O₁.wf.prio .readytorun _ O.wf.head_mem hidle)
          have S₂ : SameLocks k k₁ := sameLocks_modify rfl
          refine ⟨k', hk', O', S₁.trans ⟨⟨fun u => ?_, P'.gPidhash, P'.gLastpid⟩, B', L'⟩,
            S₂.trans P'.lockcount⟩
          rw [P'.tcb u]
          by_cases hu : u = k.head
          · rw [if_pos hu, hu]
          · rw [if_neg hu]
        · rw [if_neg hn]
          exact ⟨k₁, rfl, O₁, S₁, sameLocks_modify rfl⟩
      · rw [if_neg hl]
        exact ⟨k, rfl, O, Stays.refl k, fun _ => rfl⟩
    · rw [if_neg hts]
      exact ⟨_, rfl, O.modify rfl rfl id, ⟨keeps_modify rfl, SameBlocked.refl k, fun _ => Iff.rfl⟩,
        sameLocks_modify rfl⟩

end NuttxAvr32.Sched
