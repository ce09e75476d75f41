import NuttxAvr32.Sched.Moves

/-! # The functions of the scheduler keep the lists

`Ok` is what holds between two calls: well-formed lists, the head running, and no
task parked on `g_pendingtasks` without a lock of the running task. Every function
is described by what it keeps and by what it does to the blocked lists.
-/

namespace NuttxAvr32.Sched

open Keyed

def Parked (k : Kernel) : Prop := k.pending ≠ [] → (k.tcb k.head).lockcount ≠ 0

structure Ok (k : Kernel) : Prop where
  wf : Wf k
  running : Running k
  parked : Parked k

/-- `k'` differs from `k` in lists, states, locks and time slices only. -/
structure Keeps (k k' : Kernel) : Prop where
  tcb : ∀ t, k'.tcb t = { k.tcb t with
    taskState := (k'.tcb t).taskState
    lockcount := (k'.tcb t).lockcount
    timeslice := (k'.tcb t).timeslice }
  gPidhash : k'.gPidhash = k.gPidhash
  gLastpid : k'.gLastpid = k.gLastpid

def SameLocks (k k' : Kernel) : Prop := ∀ t, (k'.tcb t).lockcount = (k.tcb t).lockcount

def SameBlocked (k k' : Kernel) : Prop :=
  ∀ i, i ≠ .readytorun → i ≠ .pendingtasks → k'.list i = k.list i

section

variable {k k' k'' : Kernel} {t u : Nat} {i : TaskList} {s : TaskState} {f : Tcb → Tcb}

theorem Keeps.refl (k : Kernel) : Keeps k k := ⟨fun _ => rfl, rfl, rfl⟩

theorem Keeps.trans (h : Keeps k k') (h' : Keeps k' k'') : Keeps k k'' :=
  ⟨fun t => by rw [h'.tcb t, h.tcb t], h'.gPidhash.trans h.gPidhash, h'.gLastpid.trans h.gLastpid⟩

theorem SameTasks.keeps (h : SameTasks k k') : Keeps k k' :=
  ⟨fun t => by rw [h.tcb t], h.gPidhash, h.gLastpid⟩

theorem SameTasks.sameLocks (h : SameTasks k k') : SameLocks k k' := h.lockcount

theorem SameLocks.trans (h : SameLocks k k') (h' : SameLocks k' k'') : SameLocks k k'' :=
  fun t => (h' t).trans (h t)

theorem sameLocks_modify (hl : (f (k.tcb t)).lockcount = (k.tcb t).lockcount) :
    SameLocks k (k.modify t f) := by
  intro u
  by_cases h : u = t
  · subst h
    rw [modify_tcb_same, hl]
  · rw [modify_tcb_of_ne h]

theorem Keeps.prio (h : Keeps k k') : k'.prio = k.prio := by
  funext t
  show (k'.tcb t).schedPriority = _
  rw [h.tcb t]

theorem Keeps.pid (h : Keeps k k') (t : Nat) : (k'.tcb t).pid = (k.tcb t).pid := by rw [h.tcb t]

theorem SameBlocked.refl (k : Kernel) : SameBlocked k k := fun _ _ _ => rfl

theorem SameBlocked.trans (h : SameBlocked k k') (h' : SameBlocked k' k'') : SameBlocked k k'' :=
  fun i hi hi' => (h' i hi hi').trans (h i hi hi')

theorem keeps_modify (hs : f (k.tcb t) = { k.tcb t with
    taskState := (f (k.tcb t)).taskState
    lockcount := (f (k.tcb t)).lockcount
    timeslice := (f (k.tcb t)).timeslice }) : Keeps k (k.modify t f) := by
  refine ⟨fun u => ?_, rfl, rfl⟩
  by_cases h : u = t
  · subst h
    rw [modify_tcb_same]
    exact hs
  · rw [modify_tcb_of_ne h]

theorem Ok.modify (O : Ok k) (hs : (f (k.tcb t)).taskState = (k.tcb t).taskState)
    (hp : (f (k.tcb t)).schedPriority = (k.tcb t).schedPriority)
    (hl : (k.tcb t).lockcount ≠ 0 → (f (k.tcb t)).lockcount ≠ 0) : Ok (k.modify t f) where
  wf := O.wf.modify hs hp
  running := by
    refine O.running.congr (show (k.modify t f).ready = k.ready from rfl) fun u hu => ?_
    by_cases h : u = t
    · subst h
      rw [modify_tcb_same, hs]
    · rw [modify_tcb_of_ne h]
  parked := by
    intro hne
    have h := O.parked hne
    show ((k.modify t f).tcb k.head).lockcount ≠ 0
    by_cases ht : k.head = t
    · subst ht
      rw [modify_tcb_same]
      exact hl h
    · rw [modify_tcb_of_ne ht]
      exact h

theorem Ok.modify_unlisted (O : Ok k) (ht : ¬ Listed k t) : Ok (k.modify t f) where
  wf := O.wf.modify_unlisted ht
  running := by
    refine O.running.congr (show (k.modify t f).ready = k.ready from rfl) fun u hu => ?_
    rw [modify_tcb_of_ne]
    intro h
    exact ht ⟨_, h ▸ hu⟩
  parked := by
    intro hne
    show ((k.modify t f).tcb k.head).lockcount ≠ 0
    rw [modify_tcb_of_ne]
    · exact O.parked hne
    · intro h
      exact ht ⟨_, h ▸ O.wf.head_mem⟩

theorem Ok.blocked_state (O : Ok k) (h : t ∈ k.list i) (hi : i ≠ .readytorun)
    (hi' : i ≠ .pendingtasks) : (k.tcb t).taskState.IsBlocked := by
  have hs := O.wf.state i t h
  cases hst : (k.tcb t).taskState <;> rw [hst] at hs <;> first | trivial | skip
  all_goals
    cases hs
    first | exact absurd rfl hi | exact absurd rfl hi'

end

section

variable {k : Kernel} {t u : Nat}

theorem mergeIfPending_eq (W : Wf k) (hr : Running k) :
    Wf (mergeIfPending k) ∧ Running (mergeIfPending k) ∧ (mergeIfPending k).pending = [] ∧
      SameTasks k (mergeIfPending k) ∧ SameBlocked k (mergeIfPending k) ∧
      ∀ u, Listed (mergeIfPending k) u ↔ Listed k u := by
  unfold mergeIfPending
  by_cases h : k.pending ≠ []
  · rw [if_pos h]
    exact ⟨W.merge, hr.merge W, mergepending_pending, mergepending_sameTasks k,
      fun i hi hi' => mergepending_list_other hi hi', fun u => mergepending_listed⟩
  · rw [if_neg h]
    exact ⟨W, hr, not_not.mp h, SameTasks.refl k, SameBlocked.refl k, fun u => Iff.rfl⟩

theorem parked_of_nil (h : k.pending = []) : Parked k := fun hne => absurd h hne

theorem Wf.mergeIfPending (W : Wf k) : Wf (Sched.mergeIfPending k) := by
  unfold Sched.mergeIfPending
  split
  · exact W.merge
  · exact W

theorem Ok.releasePending (O : Ok k) : Ok (upReleasePending k) ∧
    SameTasks k (upReleasePending k) ∧ SameBlocked k (upReleasePending k) ∧
    ∀ u, Listed (upReleasePending k) u ↔ Listed k u :=
  ⟨⟨O.wf.merge, O.running.merge O.wf, parked_of_nil mergepending_pending⟩,
    mergepending_sameTasks k, fun i hi hi' => mergepending_list_other hi hi',
    fun u => mergepending_listed⟩

end

section

variable {k k' : Kernel} {irq : Bool}

structure Stays (k k' : Kernel) : Prop where
  keeps : Keeps k k'
  blocked : SameBlocked k k'
  listed : ∀ u, Listed k' u ↔ Listed k u

theorem Stays.refl (k : Kernel) : Stays k k :=
  ⟨Keeps.refl k, SameBlocked.refl k, fun _ => Iff.rfl⟩

theorem Stays.trans {k'' : Kernel} (h : Stays k k') (h' : Stays k' k'') : Stays k k'' :=
  ⟨h.keeps.trans h'.keeps, h.blocked.trans h'.blocked, fun u => (h'.listed u).trans (h.listed u)⟩

theorem schedLock_eq (h : schedLock irq k = some k') :
    k' = if irq then k else k.modify k.head fun c => { c with lockcount := c.lockcount + 1 } := by
  unfold schedLock at h
  split at h
  · rename_i hi
    rw [if_pos hi]
    exact (Option.some.inj h).symm
  · rename_i hi
    rw [if_neg hi]
    split at h
    · exact (Option.some.inj h).symm
    · cases h

theorem Wf.lock {irq : Bool} {k' : Kernel} (W : Wf k) (h : schedLock irq k = some k') :
    Wf k' ∧ k'.list = k.list ∧ Keeps k k' := by
  rw [schedLock_eq h]
  split
  · exact ⟨W, rfl, Keeps.refl k⟩
  · exact ⟨W.modify rfl rfl, rfl, keeps_modify rfl⟩

theorem Wf.unlock (W : Wf k) (irq : Bool) :
    Wf (schedUnlock irq k) ∧ ∀ u ∈ k.ready, u ∈ (schedUnlock irq k).ready := by
  have W₁ : Wf (k.modify k.head fun c => { c with lockcount := c.lockcount - 1 }) :=
    W.modify rfl rfl
  unfold schedUnlock
  split
  · exact ⟨W, fun _ hu => hu⟩
  · dsimp only
    split
    · refine ⟨W₁.merge, fun u hu => ?_⟩
      rw [upReleasePending, mergepending_ready]
      exact mem_mergedReady.mpr (.inr hu)
    · exact ⟨W₁, fun _ hu => hu⟩

theorem Ok.lock (O : Ok k) (h : schedLock irq k = some k') :
    Ok k' ∧ Stays k k' ∧ k'.list = k.list := by
  rw [schedLock_eq h]
  split
  · exact ⟨O, Stays.refl k, rfl⟩
  · refine ⟨O.modify rfl rfl fun _ => Nat.succ_ne_zero _, ⟨keeps_modify rfl, SameBlocked.refl k,
      fun _ => Iff.rfl⟩, rfl⟩

theorem Ok.unlock (O : Ok k) (irq : Bool) : Ok (schedUnlock irq k) ∧ Stays k (schedUnlock irq k) := by
  unfold schedUnlock
  split
  · exact ⟨O, Stays.refl k⟩
  dsimp only
  let k₁ := k.modify k.head fun c => { c with lockcount := c.lockcount - 1 }
  have W₁ : Wf k₁ := O.wf.modify rfl rfl
  have R₁ : Running k₁ := by
    refine O.running.congr (show k₁.ready = k.ready from rfl) fun u _ => ?_
    by_cases h : u = k.head
    · subst h
      show ((k.modify k.head fun c => { c with lockcount := c.lockcount - 1 }).tcb k.head).taskState = _
      rw [modify_tcb_same]
    · show ((k.modify k.head _).tcb u).taskState = _
      rw [modify_tcb_of_ne h]
  have S₁ : Stays k k₁ := ⟨keeps_modify rfl, SameBlocked.refl k, fun _ => Iff.rfl⟩
  show Ok (if (k₁.tcb k.head).lockcount = 0 ∧ k₁.pending ≠ [] then upReleasePending k₁ else k₁) ∧
    Stays k (if (k₁.tcb k.head).lockcount = 0 ∧ k₁.pending ≠ [] then upReleasePending k₁ else k₁)
  by_cases h : (k₁.tcb k.head).lockcount = 0 ∧ k₁.pending ≠ []
  · rw [if_pos h]
    exact ⟨⟨W₁.merge, R₁.merge W₁, parked_of_nil mergepending_pending⟩,
      S₁.trans ⟨(mergepending_sameTasks k₁).keeps, fun i hi hi' => mergepending_list_other hi hi',
        fun u => mergepending_listed⟩⟩
  · rw [if_neg h]
    refine ⟨⟨W₁, R₁, fun hne => ?_⟩, S₁⟩
    intro h0
    exact h ⟨h0, hne⟩

end

section

variable {k : Kernel} {t u : Nat} {s : TaskState} {i : TaskList}

def blockedList (k : Kernel) (t : Nat) (s : TaskState) (i : TaskList) : List Nat :=
  if s.prioritized then insertKeyed k.prio t (k.list i) else k.list i ++ [t]

theorem isReady_of_ready (W : Wf k) (h : t ∈ k.ready) : (k.tcb t).taskState.IsReady := by
  have hs := W.state .readytorun t h
  cases hst : (k.tcb t).taskState <;> rw [hst] at hs <;> cases hs <;> trivial

theorem addblocked_same_list (hi : s.list = some i) :
    (schedAddblocked t s k).list i = blockedList k t s i := by
  unfold schedAddblocked
  rw [hi]
  exact setList_list_same

theorem Ok.block (O : Ok k) (ht : t ∈ k.ready) (hidle : t ≠ gIdletcb) (hs : s.IsBlocked)
    (hi : s.list = some i) :
    ∃ k', upBlockTask t s k = some k' ∧ Ok k' ∧ SameTasks k k' ∧ (k'.tcb t).taskState = s ∧
      k'.list i = blockedList k t s i ∧
      (∀ j, j ≠ i → j ≠ .readytorun → j ≠ .pendingtasks → k'.list j = k.list j) ∧
      (∀ u, Listed k' u ↔ Listed k u) := by
  have h0 : t ≠ 0 := fun h => O.wf.nonzero _ (h ▸ ht)
  let k₁ := (schedRemovereadytorun t k).1
  let k₂ := schedAddblocked t s k₁
  have W₁ : Wf k₁ := O.wf.removereadytorun ht hidle
  have R₁ : Running k₁ := O.running.removereadytorun O.wf hidle
  have T₁ : SameTasks k k₁ := removereadytorun_sameTasks k t
  have hnot : ¬ Listed k₁ t := fun h => ((removereadytorun_listed O.wf ht).mp h).1 rfl
  have hp : schedPriorityMin ≤ k₁.prio t ∧ k₁.prio t ≤ schedPriorityMax := by
    rw [T₁.prio]
    exact O.wf.prio _ t ht hidle
  have W₂ : Wf k₂ := W₁.addblocked hnot h0 hp hs
  have R₂ : Running k₂ := R₁.addblocked hnot hs
  have T₂ : SameTasks k₁ k₂ := addblocked_sameTasks k₁ t s
  obtain ⟨W₃, R₃, hpend, T₃, B₃, L₃⟩ := mergeIfPending_eq W₂ R₂
  have hir : i ≠ .readytorun := by
    intro h
    subst h
    cases s <;> first | exact hs.elim | cases hi
  have hip : i ≠ .pendingtasks := by
    intro h
    subst h
    cases s <;> first | exact hs.elim | cases hi
  have hlist₁ : ∀ j, j ≠ .readytorun → k₁.list j = k.list j := by
    intro j hj
    show (schedRemovereadytorun t k).1.list j = _
    rw [removereadytorun_list]
    exact setList_list_of_ne hj
  have hmem₂ : t ∈ k₂.list i := by
    show t ∈ (schedAddblocked t s k₁).list i
    rw [addblocked_same_list hi]
    unfold blockedList
    split
    · exact mem_insertKeyed.mpr (.inl rfl)
    · simp
  refine ⟨mergeIfPending k₂, ?_, ⟨W₃, R₃, parked_of_nil hpend⟩, (T₁.trans T₂).trans T₃, ?_, ?_, ?_,
    ?_⟩
  · unfold upBlockTask
    rw [if_pos (isReady_of_ready O.wf ht)]
  · have h₂ : (k₂.tcb t).taskState = s := addblocked_state hs
    rw [← h₂]
    show ((mergeIfPending k₂).tcb t).taskState = _
    unfold mergeIfPending
    split
    · show (ite _ _ _ : TaskState) = _
      have hnp : t ∉ k₂.pending := fun h => hip (W₂.list_unique hmem₂ h)
      have hnr : k₂.ready.head? ≠ some t :=
        fun h => hir (W₂.list_unique hmem₂ (List.mem_of_mem_head? h))
      rw [if_neg hnp, if_neg fun h => hnr h.2]
    · rfl
  · rw [B₃ i hir hip]
    show (schedAddblocked t s k₁).list i = _
    rw [addblocked_same_list hi]
    unfold blockedList
    rw [hlist₁ i hir, T₁.prio]
  · intro j hj hjr hjp
    rw [B₃ j hjr hjp]
    show (schedAddblocked t s k₁).list j = _
    rw [addblocked_list hs (by rw [hi]; exact fun h => hj (Option.some.inj h).symm), hlist₁ j hjr]
  · intro u
    rw [L₃ u]
    show Listed (schedAddblocked t s k₁) u ↔ _
    rw [addblocked_listed hs, removereadytorun_listed O.wf ht]
    constructor
    · rintro (rfl | h)
      · exact ⟨_, ht⟩
      · exact h.2
    · intro h
      by_cases hut : u = t
      · exact .inl hut
      · exact .inr ⟨hut, h⟩

theorem Ok.addready (O : Ok k) (ht : ¬ Listed k t) (h0 : t ≠ 0)
    (hp : schedPriorityMin ≤ k.prio t ∧ k.prio t ≤ schedPriorityMax) :
    Ok (schedAddreadytorun t k).1 ∧ SameTasks k (schedAddreadytorun t k).1 ∧
      SameBlocked k (schedAddreadytorun t k).1 ∧
      (∀ u, Listed (schedAddreadytorun t k).1 u ↔ u = t ∨ Listed k u) := by
  have A := O.wf.added ht
  refine ⟨⟨A.wf O.wf ht h0 hp, A.running O.wf ht O.running, ?_⟩, A.sameTasks,
    fun i hi hi' => A.list hi hi', fun u => A.listed⟩
  have hhead := head_eq (A.head O.wf)
  intro hne
  rw [A.sameTasks.lockcount, hhead]
  generalize schedAddreadytorun t k = r at A hne hhead ⊢
  cases A with
  | parked hlock hprio => exact hlock
  | top hlock hprio =>
      have hp' : k.pending ≠ [] := by
        intro h
        apply hne
        show (k.setList .readytorun (t :: k.ready)).list .pendingtasks = []
        rw [setList_list_of_ne (by decide)]
        exact h
      exact absurd hlock (O.parked hp')
  | behind hprio =>
      apply O.parked
      intro h
      apply hne
      show (k.setList .readytorun (insertKeyed k.prio t k.ready)).list .pendingtasks = []
      rw [setList_list_of_ne (by decide)]
      exact h

theorem Ok.removeblocked (O : Ok k) (ht : t ∈ k.list i) (hi : i ≠ .readytorun)
    (hi' : i ≠ .pendingtasks) :
    Ok (schedRemoveblocked t k) ∧ SameTasks k (schedRemoveblocked t k) ∧
      (schedRemoveblocked t k).list i = (k.list i).erase t ∧
      (∀ j, j ≠ i → (schedRemoveblocked t k).list j = k.list j) ∧
      (∀ u, Listed (schedRemoveblocked t k) u ↔ u ≠ t ∧ Listed k u) := by
  have hidle : t ≠ gIdletcb := by
    intro h
    exact hi (O.wf.idle_ready (h ▸ ht))
  rw [removeblocked_eq ht O.wf]
  have W' : Wf (k.setList i ((k.list i).erase t)) := O.wf.remove hidle
  have hnot := O.wf.not_listed_remove ht
  have hready : (k.setList i ((k.list i).erase t)).ready = k.ready := setList_list_of_ne (Ne.symm hi)
  have hpend : (k.setList i ((k.list i).erase t)).pending = k.pending :=
    setList_list_of_ne (Ne.symm hi')
  have hhead : (k.setList i ((k.list i).erase t)).head = k.head := by
    unfold Kernel.head
    rw [hready]
  have O' : Ok (k.setList i ((k.list i).erase t)) := by
    refine ⟨W', O.running.congr hready fun _ _ => rfl, ?_⟩
    intro hne
    rw [hpend] at hne
    rw [hhead]
    exact O.parked hne
  refine ⟨O'.modify_unlisted hnot, sameTasks_setList.trans sameTasks_setState, setList_list_same,
    fun j hj => setList_list_of_ne hj, fun u => listed_erase O.wf ht rfl⟩

theorem Ok.unblock (cfg : Config) (O : Ok k) (ht : t ∈ k.list i) (hi : i ≠ .readytorun)
    (hi' : i ≠ .pendingtasks) :
    ∃ k', upUnblockTask cfg t k = some k' ∧ Ok k' ∧ Keeps k k' ∧
      k'.list i = (k.list i).erase t ∧
      (∀ j, j ≠ i → j ≠ .readytorun → j ≠ .pendingtasks → k'.list j = k.list j) ∧
      (∀ u, Listed k' u ↔ Listed k u) ∧ SameLocks k k' := by
  have h0 : t ≠ 0 := fun h => O.wf.nonzero _ (h ▸ ht)
  have hidle : t ≠ gIdletcb := fun h => hi (O.wf.idle_ready (h ▸ ht))
  obtain ⟨O₁, T₁, hl₁, hj₁, L₁⟩ := O.removeblocked ht hi hi'
  have hnot : ¬ Listed (schedRemoveblocked t k) t := fun h => ((L₁ t).mp h).1 rfl
  have hslice : ∃ k₂, upUnblockTask cfg t k = some (schedAddreadytorun t k₂).1 ∧ Ok k₂ ∧
      Keeps k k₂ ∧ k₂.list = (schedRemoveblocked t k).list ∧ SameLocks k k₂ := by
    unfold upUnblockTask
    rw [if_pos (O.blocked_state ht hi hi')]
    cases cfg.timeslice with
    | none => exact ⟨_, rfl, O₁, T₁.keeps, rfl, T₁.sameLocks⟩
    | some ticks => exact ⟨_, rfl, O₁.modify_unlisted hnot, T₁.keeps.trans (keeps_modify rfl), rfl,
        T₁.sameLocks.trans (sameLocks_modify rfl)⟩
  obtain ⟨k₂, hk₂, O₂, K₂, hl₂, S₂⟩ := hslice
  have hnot₂ : ¬ Listed k₂ t := by
    unfold Listed
    rw [hl₂]
    exact hnot
  have hp : schedPriorityMin ≤ k₂.prio t ∧ k₂.prio t ≤ schedPriorityMax := by
    rw [K₂.prio]
    exact O.wf.prio i t ht hidle
  obtain ⟨O₃, T₃, B₃, L₃⟩ := O₂.addready hnot₂ h0 hp
  refine ⟨(schedAddreadytorun t k₂).1, hk₂, O₃, K₂.trans T₃.keeps, ?_, ?_, ?_,
    S₂.trans T₃.sameLocks⟩
  · rw [B₃ i hi hi', hl₂]
    exact hl₁
  · intro j hj hjr hjp
    rw [B₃ j hjr hjp, hl₂]
    exact hj₁ j hj
  · intro u
    rw [L₃ u]
    have hl : Listed k₂ u ↔ Listed (schedRemoveblocked t k) u := by
      unfold Listed
      rw [hl₂]
    rw [hl, L₁ u]
    constructor
    · rintro (rfl | h)
      · exact ⟨_, ht⟩
      · exact h.2
    · intro h
      by_cases hut : u = t
      · exact .inl hut
      · exact .inr ⟨hut, h⟩

end

end NuttxAvr32.Sched
