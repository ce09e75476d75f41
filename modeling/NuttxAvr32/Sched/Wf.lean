import NuttxAvr32.Sched.Kernel

/-! # Well-formed task lists

`Wf` is what every function of the scheduler keeps, also between two steps of one
function, when a task may be in no list: the state of a listed task names its
list, prioritized lists descend and the idle task ends `g_readytorun`.
-/

namespace NuttxAvr32.Sched

open Keyed

/-- The lists that `g_tasklisttable` marks as prioritized. -/
def TaskList.prioritized : TaskList → Bool
  | inactivetasks | waitingforsignal => false
  | _ => true

theorem TaskState.prioritized_eq {s : TaskState} {i : TaskList} (h : s.list = some i) :
    s.prioritized = i.prioritized := by
  cases s <;> cases h <;> rfl

theorem blocked_list {s : TaskState} (h : s.IsBlocked) : ∃ i, s.list = some i := by
  cases s <;> first | exact h.elim | exact ⟨_, rfl⟩

def Listed (k : Kernel) (t : Nat) : Prop := ∃ i, t ∈ k.list i

structure Wf (k : Kernel) : Prop where
  nodup : ∀ i, (k.list i).Nodup
  state : ∀ i, ∀ t ∈ k.list i, (k.tcb t).taskState.list = some i
  sorted : ∀ i, i.prioritized = true → Descending k.prio (k.list i)
  nonzero : ∀ i, 0 ∉ k.list i
  idle : k.ready.getLast? = some gIdletcb
  idlePrio : k.prio gIdletcb = schedPriorityIdle
  prio : ∀ i, ∀ t ∈ k.list i, t ≠ gIdletcb →
    schedPriorityMin ≤ k.prio t ∧ k.prio t ≤ schedPriorityMax

/-- The head of `g_readytorun` is the one ready task that is running. -/
def Running (k : Kernel) : Prop :=
  ∀ t ∈ k.ready, (k.tcb t).taskState = .running ↔ k.ready.head? = some t

/-- `k'` differs from `k` in the lists and in the states of tasks only. -/
structure SameTasks (k k' : Kernel) : Prop where
  tcb : ∀ t, k'.tcb t = { k.tcb t with taskState := (k'.tcb t).taskState }
  gPidhash : k'.gPidhash = k.gPidhash
  gLastpid : k'.gLastpid = k.gLastpid

section

variable {k k' k'' : Kernel} {t u : Nat} {i j : TaskList} {l : List Nat} {s : TaskState}
  {f : Tcb → Tcb}

@[simp] theorem setList_list_same : (k.setList i l).list i = l := Function.update_self _ _ _

theorem setList_list_of_ne (h : j ≠ i) : (k.setList i l).list j = k.list j :=
  Function.update_of_ne h _ _

@[simp] theorem setList_tcb : (k.setList i l).tcb = k.tcb := rfl

@[simp] theorem modify_list : (k.modify t f).list = k.list := rfl

@[simp] theorem setState_list : (k.setState t s).list = k.list := rfl

@[simp] theorem modify_tcb_same : (k.modify t f).tcb t = f (k.tcb t) := Function.update_self _ _ _

theorem modify_tcb_of_ne (h : u ≠ t) : (k.modify t f).tcb u = k.tcb u :=
  Function.update_of_ne h _ _

@[simp] theorem setState_tcb_same : (k.setState t s).tcb t = { k.tcb t with taskState := s } :=
  modify_tcb_same

theorem setState_tcb_of_ne (h : u ≠ t) : (k.setState t s).tcb u = k.tcb u := modify_tcb_of_ne h

theorem SameTasks.refl (k : Kernel) : SameTasks k k := ⟨fun _ => rfl, rfl, rfl⟩

theorem SameTasks.trans (h : SameTasks k k') (h' : SameTasks k' k'') : SameTasks k k'' :=
  ⟨fun t => by rw [h'.tcb t, h.tcb t], h'.gPidhash.trans h.gPidhash, h'.gLastpid.trans h.gLastpid⟩

theorem SameTasks.prio (h : SameTasks k k') : k'.prio = k.prio := by
  funext t
  show (k'.tcb t).schedPriority = _
  rw [h.tcb t]

theorem SameTasks.lockcount (h : SameTasks k k') (t : Nat) :
    (k'.tcb t).lockcount = (k.tcb t).lockcount := by rw [h.tcb t]

theorem SameTasks.pid (h : SameTasks k k') (t : Nat) : (k'.tcb t).pid = (k.tcb t).pid := by
  rw [h.tcb t]

theorem sameTasks_setList : SameTasks k (k.setList i l) := ⟨fun _ => rfl, rfl, rfl⟩

theorem sameTasks_setState : SameTasks k (k.setState t s) := by
  refine ⟨fun u => ?_, rfl, rfl⟩
  by_cases h : u = t
  · subst h
    simp
  · rw [setState_tcb_of_ne h]

theorem head_eq (h : k.ready.head? = some t) : k.head = t := by
  rw [Kernel.head, h]
  rfl

theorem head?_eq_head (h : k.ready ≠ []) : k.ready.head? = some k.head := by
  rw [Kernel.head]
  cases hr : k.ready with
  | nil => exact absurd hr h
  | cons t r => rfl

theorem setState_head : (k.setState t s).head = k.head := rfl

end

section

variable {k : Kernel} {t u : Nat} {i j : TaskList}

theorem Wf.list_unique (W : Wf k) (hi : t ∈ k.list i) (hj : t ∈ k.list j) : i = j :=
  Option.some.inj ((W.state i t hi).symm.trans (W.state j t hj))

theorem Wf.ready_ne_nil (W : Wf k) : k.ready ≠ [] := by
  intro h
  have := W.idle
  rw [h] at this
  cases this

theorem Wf.head (W : Wf k) : k.ready.head? = some k.head := head?_eq_head W.ready_ne_nil

theorem Wf.head_mem (W : Wf k) : k.head ∈ k.ready := List.mem_of_mem_head? W.head

theorem Wf.idle_mem (W : Wf k) : gIdletcb ∈ k.ready := List.mem_of_getLast? W.idle

theorem Wf.idle_ready (W : Wf k) (h : gIdletcb ∈ k.list i) : i = .readytorun :=
  W.list_unique h W.idle_mem

theorem Wf.prio_pos (W : Wf k) (h : t ∈ k.list i) (hne : t ≠ gIdletcb) :
    k.prio gIdletcb < k.prio t := by
  rw [W.idlePrio]
  exact (W.prio i t h hne).1

theorem Wf.pending_pos (W : Wf k) (h : t ∈ k.pending) : k.prio gIdletcb < k.prio t := by
  apply W.prio_pos h
  rintro rfl
  cases W.idle_ready h

theorem Wf.prio_le_head (W : Wf k) (h : t ∈ k.ready) : k.prio t ≤ k.prio k.head := by
  have hs := W.sorted .readytorun rfl
  have hh := W.head
  unfold Kernel.ready at *
  cases hr : k.list .readytorun with
  | nil =>
      rw [hr] at h
      cases h
  | cons u r =>
      rw [hr] at hs hh h
      cases hh
      rcases List.mem_cons.mp h with rfl | h
      · exact Nat.le_refl _
      · exact List.rel_of_pairwise_cons hs h

theorem not_listed_iff : ¬ Listed k t ↔ ∀ i, t ∉ k.list i := by
  simp [Listed]

end

section

variable {k : Kernel} {t u : Nat} {i j : TaskList} {l : List Nat} {s : TaskState} {f : Tcb → Tcb}

theorem Wf.congr {k' : Kernel} (W : Wf k) (hl : k'.list = k.list)
    (hs : ∀ u, Listed k u → (k'.tcb u).taskState.list = (k.tcb u).taskState.list)
    (hp : ∀ u, Listed k u → k'.prio u = k.prio u) : Wf k' where
  nodup i := by rw [hl]; exact W.nodup i
  state i u hu := by
    rw [hl] at hu
    rw [hs u ⟨i, hu⟩]
    exact W.state i u hu
  sorted i hi := by
    rw [hl]
    refine (W.sorted i hi).imp_of_mem fun {x y} hx hy hxy => ?_
    rw [hp x ⟨i, hx⟩, hp y ⟨i, hy⟩]
    exact hxy
  nonzero i := by rw [hl]; exact W.nonzero i
  idle := by
    show (k'.list _).getLast? = _
    rw [hl]
    exact W.idle
  idlePrio := (hp _ ⟨_, W.idle_mem⟩).trans W.idlePrio
  prio i u hu hne := by
    rw [hl] at hu
    rw [hp u ⟨i, hu⟩]
    exact W.prio i u hu hne

theorem Wf.modify (W : Wf k) (hs : (f (k.tcb t)).taskState = (k.tcb t).taskState)
    (hp : (f (k.tcb t)).schedPriority = (k.tcb t).schedPriority) : Wf (k.modify t f) := by
  refine W.congr rfl (fun u _ => ?_) fun u _ => ?_
  · by_cases h : u = t
    · subst h
      rw [modify_tcb_same, hs]
    · rw [modify_tcb_of_ne h]
  · show ((k.modify t f).tcb u).schedPriority = (k.tcb u).schedPriority
    by_cases h : u = t
    · subst h
      rw [modify_tcb_same, hp]
    · rw [modify_tcb_of_ne h]

theorem Wf.modify_unlisted (W : Wf k) (ht : ¬ Listed k t) : Wf (k.modify t f) := by
  have hne : ∀ u, Listed k u → u ≠ t := by
    rintro u hu rfl
    exact ht hu
  refine W.congr rfl (fun u hu => ?_) fun u hu => ?_
  · rw [modify_tcb_of_ne (hne u hu)]
  · show ((k.modify t f).tcb u).schedPriority = (k.tcb u).schedPriority
    rw [modify_tcb_of_ne (hne u hu)]

theorem Wf.setState (W : Wf k) (ht : t ∈ k.list i) (hs : s.list = some i) :
    Wf (k.setState t s) := by
  refine W.congr rfl (fun u _ => ?_) fun u _ => congrFun sameTasks_setState.prio u
  by_cases h : u = t
  · subst h
    rw [setState_tcb_same, hs, W.state i u ht]
  · rw [setState_tcb_of_ne h]

theorem Wf.remove (W : Wf k) (hne : t ≠ gIdletcb) :
    Wf (k.setList i ((k.list i).erase t)) where
  nodup j := by
    by_cases h : j = i
    · subst h
      rw [setList_list_same]
      exact (W.nodup j).erase t
    · rw [setList_list_of_ne h]
      exact W.nodup j
  state j u hu := by
    by_cases h : j = i
    · subst h
      rw [setList_list_same] at hu
      exact W.state j u (List.mem_of_mem_erase hu)
    · rw [setList_list_of_ne h] at hu
      exact W.state j u hu
  sorted j hj := by
    by_cases h : j = i
    · subst h
      rw [setList_list_same]
      exact (W.sorted j hj).sublist List.erase_sublist
    · rw [setList_list_of_ne h]
      exact W.sorted j hj
  nonzero j := by
    by_cases h : j = i
    · subst h
      rw [setList_list_same]
      exact fun h0 => W.nonzero j (List.mem_of_mem_erase h0)
    · rw [setList_list_of_ne h]
      exact W.nonzero j
  idle := by
    by_cases h : TaskList.readytorun = i
    · subst h
      show ((k.setList .readytorun _).list .readytorun).getLast? = _
      rw [setList_list_same]
      obtain ⟨l, hl⟩ := List.getLast?_eq_some_iff.mp W.idle
      rw [show k.list .readytorun = _ from hl]
      by_cases ht : t ∈ l
      · rw [List.erase_append_left _ ht, List.getLast?_append]
        rfl
      · rw [List.erase_append_right _ ht, List.getLast?_append]
        rw [List.erase_of_not_mem (by simpa using hne)]
        rfl
    · show ((k.setList i _).list .readytorun).getLast? = _
      rw [setList_list_of_ne h]
      exact W.idle
  idlePrio := W.idlePrio
  prio j u hu := by
    by_cases h : j = i
    · subst h
      rw [setList_list_same] at hu
      exact W.prio j u (List.mem_of_mem_erase hu)
    · rw [setList_list_of_ne h] at hu
      exact W.prio j u hu

theorem Wf.not_listed_remove (W : Wf k) (ht : t ∈ k.list i) :
    ¬ Listed (k.setList i ((k.list i).erase t)) t := by
  rintro ⟨j, hj⟩
  by_cases h : j = i
  · subst h
    rw [setList_list_same] at hj
    exact ((W.nodup j).mem_erase_iff.mp hj).1 rfl
  · rw [setList_list_of_ne h] at hj
    exact h (W.list_unique hj ht)

theorem Wf.insert (W : Wf k) (ht : ¬ Listed k t) (h0 : t ≠ 0)
    (hprio : schedPriorityMin ≤ k.prio t ∧ k.prio t ≤ schedPriorityMax)
    (hs : s.list = some i) (hl : l.Perm (t :: k.list i))
    (hsort : i.prioritized = true → Descending k.prio l)
    (hlast : i = .readytorun → l.getLast? = some gIdletcb) :
    Wf ((k.setList i l).setState t s) := by
  have hmem : ∀ u, u ∈ l ↔ u = t ∨ u ∈ k.list i := fun u => by
    rw [hl.mem_iff, List.mem_cons]
  have htl : ∀ j, t ∉ k.list j := not_listed_iff.mp ht
  have hpr : ((k.setList i l).setState t s).prio = k.prio := sameTasks_setState.prio
  have hlist : ((k.setList i l).setState t s).list i = l := setList_list_same
  have hother : ∀ j, j ≠ i → ((k.setList i l).setState t s).list j = k.list j :=
    fun j hj => setList_list_of_ne hj
  refine ⟨fun j => ?_, fun j u hu => ?_, fun j hj => ?_, fun j => ?_, ?_, ?_, fun j u hu hne => ?_⟩
  · by_cases h : j = i
    · subst h
      rw [hlist]
      exact hl.nodup_iff.mpr (List.nodup_cons.mpr ⟨htl j, W.nodup j⟩)
    · rw [hother j h]
      exact W.nodup j
  · by_cases hut : u = t
    · subst hut
      rw [setState_tcb_same]
      by_cases h : j = i
      · rw [h]
        exact hs
      · rw [hother j h] at hu
        exact absurd hu (htl j)
    · rw [setState_tcb_of_ne hut]
      by_cases h : j = i
      · subst h
        rw [hlist] at hu
        exact W.state j u (((hmem u).mp hu).resolve_left hut)
      · rw [hother j h] at hu
        exact W.state j u hu
  · rw [hpr]
    by_cases h : j = i
    · subst h
      rw [hlist]
      exact hsort hj
    · rw [hother j h]
      exact W.sorted j hj
  · by_cases h : j = i
    · subst h
      rw [hlist, hmem]
      rintro (h | h)
      · exact h0 h.symm
      · exact W.nonzero j h
    · rw [hother j h]
      exact W.nonzero j
  · show (((k.setList i l).setState t s).list .readytorun).getLast? = _
    by_cases h : TaskList.readytorun = i
    · subst h
      rw [hlist]
      exact hlast rfl
    · rw [hother _ h]
      exact W.idle
  · rw [hpr]
    exact W.idlePrio
  · rw [hpr]
    by_cases h : j = i
    · subst h
      rw [hlist, hmem] at hu
      rcases hu with rfl | hu
      · exact hprio
      · exact W.prio j u hu hne
    · rw [hother j h] at hu
      exact W.prio j u hu hne

end

end NuttxAvr32.Sched
