import NuttxAvr32.Sched.Wf

/-! # What moving a task does

One lemma for each function that moves TCBs between the lists: the lists stay
well formed, the head runs, and the result is one of a few explicit states.
-/

namespace NuttxAvr32.Sched

open Keyed
open Function (update update_self update_of_ne)

section

variable {k : Kernel} {t u : Nat} {s : TaskState} {i : TaskList}

/-- The three places where a task that becomes ready can go. -/
inductive Added (k : Kernel) (t : Nat) : Kernel × Bool → Prop
  | parked (hlock : (k.tcb k.head).lockcount ≠ 0) (hprio : k.prio k.head < k.prio t) :
      Added k t ((k.setList .pendingtasks (insertKeyed k.prio t k.pending)).setState t .pending,
        false)
  | top (hlock : (k.tcb k.head).lockcount = 0) (hprio : k.prio k.head < k.prio t) :
      Added k t (((k.setList .readytorun (t :: k.ready)).setState t .running).setState k.head
        .readytorun, true)
  | behind (hprio : k.prio t ≤ k.prio k.head) :
      Added k t ((k.setList .readytorun (insertKeyed k.prio t k.ready)).setState t .readytorun,
        false)

theorem addprioritized_top (hh : k.ready.head? = some u) (hlt : k.prio u < k.prio t) :
    schedAddprioritized t .readytorun k = (k.setList .readytorun (t :: k.ready), true) := by
  have hins : insertKeyed k.prio t k.ready = t :: k.ready := by
    apply head?_insertKeyed_of_lt
    rw [hh]
    rintro y ⟨⟩
    exact hlt
  show (k.setList .readytorun (insertKeyed k.prio t k.ready),
    decide ((insertKeyed k.prio t k.ready).head? = some t)) = _
  rw [hins]
  simp

theorem addprioritized_behind (hh : k.ready.head? = some u) (hle : k.prio t ≤ k.prio u)
    (hne : u ≠ t) : schedAddprioritized t .readytorun k =
      (k.setList .readytorun (insertKeyed k.prio t k.ready), false) := by
  show (k.setList .readytorun (insertKeyed k.prio t k.ready),
    decide ((insertKeyed k.prio t k.ready).head? = some t)) = _
  rw [head?_insertKeyed_of_le hh hle]
  simp [hne]

theorem Wf.added (W : Wf k) (ht : ¬ Listed k t) : Added k t (schedAddreadytorun t k) := by
  have hne : t ≠ k.head := fun h => ht ⟨_, h ▸ W.head_mem⟩
  unfold schedAddreadytorun
  dsimp only
  by_cases hpark : (k.tcb k.head).lockcount ≠ 0 ∧ k.prio k.head < k.prio t
  · rw [if_pos hpark]
    exact .parked hpark.1 hpark.2
  · rw [if_neg hpark]
    by_cases hlt : k.prio k.head < k.prio t
    · rw [addprioritized_top W.head hlt, if_pos rfl]
      exact .top (by tauto) hlt
    · rw [addprioritized_behind W.head (by omega) (Ne.symm hne), if_neg (by simp)]
      exact .behind (by omega)

variable {r : Kernel × Bool}

theorem Added.sameTasks (A : Added k t r) : SameTasks k r.1 := by
  cases A with
  | parked => exact sameTasks_setList.trans sameTasks_setState
  | top => exact (sameTasks_setList.trans sameTasks_setState).trans sameTasks_setState
  | behind => exact sameTasks_setList.trans sameTasks_setState

theorem Added.list (A : Added k t r) (hi : i ≠ .readytorun) (hi' : i ≠ .pendingtasks) :
    r.1.list i = k.list i := by
  cases A with
  | parked => exact setList_list_of_ne hi'
  | top => exact setList_list_of_ne hi
  | behind => exact setList_list_of_ne hi

theorem listed_insert {k' : Kernel} {l : List Nat} (hl : k'.list = (k.setList i l).list)
    (hp : ∀ u, u ∈ l ↔ u = t ∨ u ∈ k.list i) : Listed k' u ↔ u = t ∨ Listed k u := by
  unfold Listed
  rw [hl]
  constructor
  · rintro ⟨j, hj⟩
    by_cases h : j = i
    · subst h
      rw [setList_list_same, hp] at hj
      exact hj.imp_right fun hj => ⟨j, hj⟩
    · rw [setList_list_of_ne h] at hj
      exact .inr ⟨j, hj⟩
  · rintro (rfl | ⟨j, hj⟩)
    · refine ⟨i, ?_⟩
      rw [setList_list_same, hp]
      exact .inl rfl
    · by_cases h : j = i
      · subst h
        refine ⟨j, ?_⟩
        rw [setList_list_same, hp]
        exact .inr hj
      · refine ⟨j, ?_⟩
        rw [setList_list_of_ne h]
        exact hj

theorem listed_erase {k' : Kernel} (W : Wf k) (ht : t ∈ k.list i)
    (hl : k'.list = (k.setList i ((k.list i).erase t)).list) :
    Listed k' u ↔ u ≠ t ∧ Listed k u := by
  unfold Listed
  rw [hl]
  constructor
  · rintro ⟨j, hj⟩
    by_cases h : j = i
    · subst h
      rw [setList_list_same, (W.nodup j).mem_erase_iff] at hj
      exact ⟨hj.1, j, hj.2⟩
    · rw [setList_list_of_ne h] at hj
      refine ⟨?_, j, hj⟩
      rintro rfl
      exact h (W.list_unique hj ht)
  · rintro ⟨hne, j, hj⟩
    by_cases h : j = i
    · subst h
      refine ⟨j, ?_⟩
      rw [setList_list_same, (W.nodup j).mem_erase_iff]
      exact ⟨hne, hj⟩
    · refine ⟨j, ?_⟩
      rw [setList_list_of_ne h]
      exact hj

theorem Added.listed (A : Added k t r) : Listed r.1 u ↔ u = t ∨ Listed k u := by
  cases A with
  | parked => exact listed_insert rfl fun _ => mem_insertKeyed
  | top => exact listed_insert rfl fun _ => List.mem_cons
  | behind => exact listed_insert rfl fun _ => mem_insertKeyed

theorem Added.wf (A : Added k t r) (W : Wf k) (ht : ¬ Listed k t) (h0 : t ≠ 0)
    (hp : schedPriorityMin ≤ k.prio t ∧ k.prio t ≤ schedPriorityMax) : Wf r.1 := by
  have hidle : k.prio gIdletcb < k.prio t := by
    rw [W.idlePrio]
    exact hp.1
  have hready := W.sorted .readytorun rfl
  cases A with
  | parked =>
    exact W.insert ht h0 hp rfl (insertKeyed_perm _ _ _)
      (fun h => insertKeyed_descending (W.sorted _ h)) (fun h => by cases h)
  | top hlock hprio =>
    have W' : Wf ((k.setList .readytorun (t :: k.ready)).setState t .running) := by
      refine W.insert ht h0 hp rfl (.refl _) (fun _ => ?_) fun _ => ?_
      · refine List.pairwise_cons.mpr ⟨fun u hu => ?_, hready⟩
        exact Nat.le_of_lt (Nat.lt_of_le_of_lt (W.prio_le_head hu) hprio)
      · rw [List.getLast?_cons, W.idle]
        rfl
    apply W'.setState (i := .readytorun) _ rfl
    show k.head ∈ (k.setList .readytorun (t :: k.ready)).list .readytorun
    rw [setList_list_same]
    exact List.mem_cons_of_mem _ W.head_mem
  | behind =>
    exact W.insert ht h0 hp rfl (insertKeyed_perm _ _ _)
      (fun h => insertKeyed_descending (W.sorted _ h))
      (fun _ => getLast?_insertKeyed W.idle hidle)

theorem Added.head (A : Added k t r) (W : Wf k) :
    r.1.ready.head? = some (if r.2 then t else k.head) := by
  cases A with
  | parked => exact W.head
  | top =>
    show ((k.setList .readytorun (t :: k.ready)).list .readytorun).head? = some t
    rw [setList_list_same]
    rfl
  | behind hprio =>
    show ((k.setList .readytorun (insertKeyed k.prio t k.ready)).list .readytorun).head? = _
    rw [setList_list_same]
    exact head?_insertKeyed_of_le W.head hprio

theorem Added.running (A : Added k t r) (W : Wf k) (ht : ¬ Listed k t) (hr : Running k) :
    Running r.1 := by
  have hne : ∀ u ∈ k.ready, u ≠ t := by
    rintro u hu rfl
    exact ht ⟨_, hu⟩
  have hht := hne k.head W.head_mem
  have hhead := A.head W
  cases A with
  | parked =>
    intro u hu
    have hu' : u ∈ k.ready := hu
    rw [setState_tcb_of_ne (hne u hu')]
    exact hr u hu'
  | top =>
    intro u hu
    rw [hhead]
    have hu' : u ∈ t :: k.ready := by
      rw [← setList_list_same (k := k) (i := .readytorun) (l := t :: k.ready)]
      exact hu
    simp only [if_true, Option.some.injEq]
    by_cases hut : u = t
    · subst hut
      rw [setState_tcb_of_ne (Ne.symm hht), setState_tcb_same]
      simp
    · have hur := (List.mem_cons.mp hu').resolve_left hut
      by_cases huh : u = k.head
      · subst huh
        rw [setState_tcb_same]
        simp [Ne.symm hut]
      · rw [setState_tcb_of_ne huh, setState_tcb_of_ne hut, setList_tcb, hr u hur, W.head]
        simp [Ne.symm huh, Ne.symm hut]
  | behind =>
    intro u hu
    rw [hhead]
    have hu' : u ∈ insertKeyed k.prio t k.ready := by
      rw [← setList_list_same (k := k) (i := .readytorun) (l := insertKeyed k.prio t k.ready)]
      exact hu
    simp only [Bool.false_eq_true, if_false, Option.some.injEq]
    by_cases hut : u = t
    · subst hut
      rw [setState_tcb_same]
      simp [hht]
    · rw [setState_tcb_of_ne hut, setList_tcb, hr u ((mem_insertKeyed.mp hu').resolve_left hut),
        W.head, Option.some.injEq]

theorem Wf.tail_head (W : Wf k) (hne : k.head ≠ gIdletcb) :
    k.ready.tail.head? = some k.next ∧ k.next ∈ k.ready ∧ k.next ≠ k.head := by
  have hh := W.head
  have hl := W.idle
  have hn := W.nodup .readytorun
  unfold Kernel.next
  unfold Kernel.ready at *
  rcases hr : k.list .readytorun with _ | ⟨u, _ | ⟨v, r⟩⟩
  · rw [hr] at hh
    cases hh
  · rw [hr] at hh hl
    exact absurd ((Option.some.inj hh).symm.trans (Option.some.inj hl)) hne
  · rw [hr] at hh hn
    have hu : u = k.head := Option.some.inj hh
    refine ⟨rfl, by simp, ?_⟩
    intro he
    have hv : v = k.head := he
    rw [hv, hu] at hn
    exact (List.nodup_cons.mp hn).1 List.mem_cons_self

theorem Wf.next_ne_zero (W : Wf k) (h : k.head ≠ gIdletcb) : k.next ≠ 0 :=
  fun h0 => W.nonzero .readytorun (h0 ▸ (W.tail_head h).2.1)

theorem Wf.tail_idle (W : Wf k) (h : k.head = gIdletcb) : k.ready.tail = [] := by
  have hh := W.head
  have hl := W.idle
  have hd := W.nodup .readytorun
  unfold Kernel.ready at *
  cases hr : k.list .readytorun with
  | nil => rfl
  | cons x l =>
    rw [hr] at hh hl hd
    have hx : x = gIdletcb := (Option.some.inj hh).trans h
    cases l with
    | nil => rfl
    | cons y l =>
      rw [List.getLast?_cons_cons] at hl
      exact absurd (hx ▸ List.mem_of_getLast? hl) (List.nodup_cons.mp hd).1

theorem Wf.erase_head (W : Wf k) : k.ready.erase k.head = k.ready.tail := by
  have hh := W.head
  unfold Kernel.ready at *
  cases hr : k.list .readytorun with
  | nil =>
    rw [hr] at hh
    cases hh
  | cons u r =>
    rw [hr] at hh
    cases hh
    simp

theorem Wf.head?_erase (W : Wf k) (h : t ≠ k.head) :
    (k.ready.erase t).head? = some k.head := by
  have hh := W.head
  unfold Kernel.ready at *
  cases hr : k.list .readytorun with
  | nil =>
    rw [hr] at hh
    cases hh
  | cons u r =>
    rw [hr] at hh
    cases hh
    rw [List.erase_cons_tail (by simpa using Ne.symm h)]
    rfl

theorem removereadytorun_eq (W : Wf k) (ht : t ≠ gIdletcb) :
    schedRemovereadytorun t k = if t = k.head then
        (((k.setList .readytorun (k.ready.erase t)).setState k.next .running).setState t .invalid,
          true)
      else ((k.setList .readytorun (k.ready.erase t)).setState t .invalid, false) := by
  unfold schedRemovereadytorun
  dsimp only
  by_cases h : t = k.head
  · subst h
    have hhead : (k.setList .readytorun (k.ready.erase k.head)).head = k.next := by
      apply head_eq
      show ((k.setList .readytorun (k.ready.erase k.head)).list .readytorun).head? = _
      rw [setList_list_same, W.erase_head]
      exact (W.tail_head ht).1
    have hdec : decide (k.ready.head? = some k.head) = true := decide_eq_true W.head
    rw [hdec, if_pos rfl, if_pos rfl, hhead]
  · have hdec : decide (k.ready.head? = some t) = false := by
      apply decide_eq_false
      rw [W.head]
      simpa using Ne.symm h
    rw [hdec, if_neg (by simp), if_neg h]

theorem removereadytorun_sameTasks (k : Kernel) (t : Nat) :
    SameTasks k (schedRemovereadytorun t k).1 := by
  unfold schedRemovereadytorun
  dsimp only
  split
  · exact (sameTasks_setList.trans sameTasks_setState).trans sameTasks_setState
  · exact sameTasks_setList.trans sameTasks_setState

theorem removereadytorun_list (k : Kernel) (t : Nat) :
    (schedRemovereadytorun t k).1.list = (k.setList .readytorun (k.ready.erase t)).list := by
  unfold schedRemovereadytorun
  dsimp only
  split <;> rfl

theorem Wf.removereadytorun (W : Wf k) (hm : t ∈ k.ready) (ht : t ≠ gIdletcb) :
    Wf (schedRemovereadytorun t k).1 := by
  have W' : Wf (k.setList .readytorun (k.ready.erase t)) := W.remove ht
  have hnot : ¬ Listed (k.setList .readytorun (k.ready.erase t)) t := W.not_listed_remove hm
  rw [removereadytorun_eq W ht]
  by_cases h : t = k.head
  · subst h
    rw [if_pos rfl]
    have hmem : k.next ∈ (k.setList .readytorun (k.ready.erase k.head)).list .readytorun := by
      rw [setList_list_same]
      have hn := W.tail_head ht
      exact (W.nodup .readytorun).mem_erase_iff.mpr ⟨hn.2.2, hn.2.1⟩
    have W'' := W'.setState (s := .running) hmem rfl
    exact W''.modify_unlisted (f := fun c => { c with taskState := .invalid }) hnot
  · rw [if_neg h]
    exact W'.modify_unlisted (f := fun c => { c with taskState := .invalid }) hnot

theorem removereadytorun_listed (W : Wf k) (hm : t ∈ k.ready) :
    Listed (schedRemovereadytorun t k).1 u ↔ u ≠ t ∧ Listed k u :=
  listed_erase W hm (removereadytorun_list k t)

theorem removereadytorun_head (W : Wf k) (ht : t ≠ gIdletcb) :
    (schedRemovereadytorun t k).1.ready.head? = some (if t = k.head then k.next else k.head) := by
  show ((schedRemovereadytorun t k).1.list .readytorun).head? = _
  rw [removereadytorun_list, setList_list_same]
  by_cases h : t = k.head
  · subst h
    rw [W.erase_head, if_pos rfl]
    exact (W.tail_head ht).1
  · rw [if_neg h]
    exact W.head?_erase h

theorem Running.removereadytorun (hr : Running k) (W : Wf k) (ht : t ≠ gIdletcb) :
    Running (schedRemovereadytorun t k).1 := by
  intro u hu
  rw [removereadytorun_head W ht]
  have hu' : u ∈ k.ready.erase t := by
    have : u ∈ (schedRemovereadytorun t k).1.list .readytorun := hu
    rw [removereadytorun_list, setList_list_same] at this
    exact this
  obtain ⟨hut, hur⟩ := (W.nodup .readytorun).mem_erase_iff.mp hu'
  rw [removereadytorun_eq W ht]
  by_cases h : t = k.head
  · subst h
    rw [if_pos rfl, if_pos rfl, setState_tcb_of_ne hut]
    by_cases hun : u = k.next
    · subst hun
      rw [setState_tcb_same]
      simp
    · rw [setState_tcb_of_ne hun, setList_tcb, hr u hur, W.head]
      simp [Ne.symm hun, Ne.symm hut]
  · rw [if_neg h, if_neg h, setState_tcb_of_ne hut, setList_tcb, hr u hur, W.head]

theorem Wf.addblocked (W : Wf k) (ht : ¬ Listed k t) (h0 : t ≠ 0)
    (hp : schedPriorityMin ≤ k.prio t ∧ k.prio t ≤ schedPriorityMax) (hs : s.IsBlocked) :
    Wf (schedAddblocked t s k) := by
  obtain ⟨i, hi⟩ := blocked_list hs
  have hready : i ≠ .readytorun := by
    rintro rfl
    cases s <;> first | exact hs.elim | cases hi
  have hpr := TaskState.prioritized_eq hi
  unfold schedAddblocked
  rw [hi]
  dsimp only
  cases hb : s.prioritized with
  | true =>
    rw [if_pos rfl]
    exact W.insert ht h0 hp hi (insertKeyed_perm _ _ _)
      (fun h => insertKeyed_descending (W.sorted _ h)) (fun h => absurd h hready)
  | false =>
    rw [if_neg (by simp)]
    refine W.insert ht h0 hp hi ?_ (fun h => ?_) (fun h => absurd h hready)
    · exact List.perm_append_comm
    · rw [← hpr, hb] at h
      cases h

theorem addblocked_sameTasks (k : Kernel) (t : Nat) (s : TaskState) :
    SameTasks k (schedAddblocked t s k) := by
  unfold schedAddblocked
  split
  · exact SameTasks.refl k
  · exact sameTasks_setList.trans sameTasks_setState

theorem addblocked_listed (hs : s.IsBlocked) :
    Listed (schedAddblocked t s k) u ↔ u = t ∨ Listed k u := by
  obtain ⟨i, hi⟩ := blocked_list hs
  unfold schedAddblocked
  rw [hi]
  refine listed_insert (i := i) rfl fun v => ?_
  cases s.prioritized with
  | true => exact mem_insertKeyed
  | false =>
    show v ∈ k.list i ++ [t] ↔ _
    rw [List.mem_append, List.mem_singleton, or_comm]

theorem addblocked_list (hs : s.IsBlocked) (hi : s.list ≠ some i) :
    (schedAddblocked t s k).list i = k.list i := by
  obtain ⟨j, hj⟩ := blocked_list hs
  unfold schedAddblocked
  rw [hj]
  apply setList_list_of_ne
  rintro rfl
  exact hi hj

theorem addblocked_ready (hs : s.IsBlocked) :
    (schedAddblocked t s k).ready = k.ready ∧ (schedAddblocked t s k).pending = k.pending := by
  constructor <;> refine addblocked_list hs ?_ <;> cases s <;> first | exact hs.elim | simp [TaskState.list]

theorem addblocked_tcb_of_ne (h : u ≠ t) : (schedAddblocked t s k).tcb u = k.tcb u := by
  unfold schedAddblocked
  split
  · rfl
  · exact setState_tcb_of_ne h

theorem addblocked_state (hs : s.IsBlocked) : ((schedAddblocked t s k).tcb t).taskState = s := by
  obtain ⟨j, hj⟩ := blocked_list hs
  unfold schedAddblocked
  rw [hj]
  dsimp only
  rw [setState_tcb_same]

theorem Running.congr {k' : Kernel} (hr : Running k) (hl : k'.ready = k.ready)
    (hs : ∀ u ∈ k.ready, (k'.tcb u).taskState = (k.tcb u).taskState) : Running k' := by
  intro u hu
  rw [hl] at hu ⊢
  rw [hs u hu]
  exact hr u hu

theorem Running.addblocked (hr : Running k) (ht : ¬ Listed k t) (hs : s.IsBlocked) :
    Running (schedAddblocked t s k) := by
  refine hr.congr (addblocked_ready hs).1 fun u hu => ?_
  rw [addblocked_tcb_of_ne]
  rintro rfl
  exact ht ⟨_, hu⟩

theorem removeblocked_eq (h : t ∈ k.list i) (W : Wf k) :
    schedRemoveblocked t k = (k.setList i ((k.list i).erase t)).setState t .invalid := by
  unfold schedRemoveblocked
  rw [W.state i t h]

theorem mergepending_list_other (hi : i ≠ .readytorun) (hi' : i ≠ .pendingtasks) :
    (schedMergepending k).1.list i = k.list i := by
  show update (update k.list _ _) _ _ i = _
  rw [update_of_ne hi', update_of_ne hi]

@[simp] theorem mergepending_ready : (schedMergepending k).1.ready = mergedReady k := by
  show update (update k.list .readytorun (mergedReady k)) .pendingtasks []
    .readytorun = _
  rw [update_of_ne (by decide), update_self]

@[simp] theorem mergepending_pending : (schedMergepending k).1.pending = [] := by
  show update (update k.list .readytorun (mergedReady k)) .pendingtasks []
    .pendingtasks = _
  rw [update_self]

theorem mergepending_sameTasks (k : Kernel) : SameTasks k (schedMergepending k).1 :=
  ⟨fun _ => rfl, rfl, rfl⟩

theorem mem_mergedReady : t ∈ mergedReady k ↔ t ∈ k.pending ∨ t ∈ k.ready := mem_mergeKeyed

theorem mergepending_mem {j : TaskList} (h : u ∈ (schedMergepending k).1.list j) :
    (u ∈ k.ready ∧ j = .readytorun) ∨ (u ∈ k.pending ∧ j = .readytorun) ∨
      (u ∈ k.list j ∧ j ≠ .readytorun ∧ j ≠ .pendingtasks) := by
  by_cases hr : j = .readytorun
  · subst hr
    have h' : u ∈ (schedMergepending k).1.ready := h
    rw [mergepending_ready] at h'
    rcases mem_mergedReady.mp h' with h' | h'
    · exact .inr (.inl ⟨h', rfl⟩)
    · exact .inl ⟨h', rfl⟩
  · by_cases hp : j = .pendingtasks
    · subst hp
      have h' : u ∈ (schedMergepending k).1.pending := h
      rw [mergepending_pending] at h'
      cases h'
    · rw [mergepending_list_other hr hp] at h
      exact .inr (.inr ⟨h, hr, hp⟩)

theorem mergepending_listed : Listed (schedMergepending k).1 u ↔ Listed k u := by
  have hready : ∀ v, v ∈ (schedMergepending k).1.ready ↔ v ∈ k.pending ∨ v ∈ k.ready := fun v => by
    rw [mergepending_ready, mem_mergedReady]
  constructor
  · rintro ⟨i, hi⟩
    by_cases h : i = .readytorun
    · subst h
      exact ((hready u).mp hi).elim (fun h => ⟨_, h⟩) fun h => ⟨_, h⟩
    · by_cases h' : i = .pendingtasks
      · subst h'
        have : u ∈ (schedMergepending k).1.pending := hi
        rw [mergepending_pending] at this
        cases this
      · rw [mergepending_list_other h h'] at hi
        exact ⟨i, hi⟩
  · rintro ⟨i, hi⟩
    by_cases h : i = .readytorun
    · subst h
      exact ⟨.readytorun, (hready u).mpr (.inr hi)⟩
    · by_cases h' : i = .pendingtasks
      · subst h'
        exact ⟨.readytorun, (hready u).mpr (.inl hi)⟩
      · refine ⟨i, ?_⟩
        rw [mergepending_list_other h h']
        exact hi

theorem Wf.merged_head (W : Wf k) : (mergedReady k).head? =
    some (match k.pending.head? with
      | some x => if k.prio k.head < k.prio x then x else k.head
      | none => k.head) := by
  have h := head?_mergeKeyed W.head (W.sorted .pendingtasks rfl)
  show (mergeKeyed k.prio k.ready k.pending).head? = _
  rw [h]
  unfold Kernel.pending
  cases k.list .pendingtasks <;> rfl

theorem Wf.merge (W : Wf k) : Wf (schedMergepending k).1 := by
  have hsame := mergepending_sameTasks k
  have hstate : ∀ t, t ∈ k.pending ∨ t ∈ k.ready →
      ((schedMergepending k).1.tcb t).taskState.list = some .readytorun := by
    intro t ht
    show (ite _ _ _ : TaskState).list = _
    by_cases hp : t ∈ k.pending
    · rw [if_pos hp]
      split <;> rfl
    · rw [if_neg hp]
      split
      · rfl
      · exact W.state .readytorun t (ht.resolve_left hp)
  refine ⟨fun i => ?_, fun i t ht => ?_, fun i hi => ?_, fun i => ?_, ?_, ?_, fun i t ht hne => ?_⟩
  · by_cases h : i = .readytorun
    · subst h
      show ((schedMergepending k).1.ready).Nodup
      rw [mergepending_ready]
      refine mergeKeyed_perm.nodup_iff.mpr (List.nodup_append.mpr
        ⟨W.nodup .pendingtasks, W.nodup .readytorun, ?_⟩)
      rintro a ha b hb rfl
      cases W.list_unique ha hb
    · by_cases h' : i = .pendingtasks
      · subst h'
        show ((schedMergepending k).1.pending).Nodup
        rw [mergepending_pending]
        exact List.nodup_nil
      · rw [mergepending_list_other h h']
        exact W.nodup i
  · by_cases h : i = .readytorun
    · subst h
      have ht' : t ∈ (schedMergepending k).1.ready := ht
      rw [mergepending_ready, mem_mergedReady] at ht'
      exact hstate t ht'
    · by_cases h' : i = .pendingtasks
      · subst h'
        have ht' : t ∈ (schedMergepending k).1.pending := ht
        rw [mergepending_pending] at ht'
        cases ht'
      · rw [mergepending_list_other h h'] at ht
        have hp : t ∉ k.pending := fun hp => h' (W.list_unique ht hp)
        have hr : k.ready.head? ≠ some t := fun hr =>
          h (W.list_unique ht (List.mem_of_mem_head? hr))
        show (ite _ _ _ : TaskState).list = _
        rw [if_neg hp, if_neg (fun hc => hr hc.2)]
        exact W.state i t ht
  · rw [hsame.prio]
    by_cases h : i = .readytorun
    · subst h
      show Descending _ (schedMergepending k).1.ready
      rw [mergepending_ready]
      exact mergeKeyed_descending (W.sorted .readytorun rfl)
    · by_cases h' : i = .pendingtasks
      · subst h'
        show Descending _ (schedMergepending k).1.pending
        rw [mergepending_pending]
        exact List.Pairwise.nil
      · rw [mergepending_list_other h h']
        exact W.sorted i hi
  · intro h0
    obtain ⟨j, hj⟩ := mergepending_listed.mp ⟨i, h0⟩
    exact W.nonzero j hj
  · rw [mergepending_ready]
    exact getLast?_mergeKeyed W.idle fun t ht => W.pending_pos ht
  · rw [hsame.prio]
    exact W.idlePrio
  · rw [hsame.prio]
    obtain ⟨j, hj⟩ := mergepending_listed.mp ⟨i, ht⟩
    exact W.prio j t hj hne

theorem Running.merge (hr : Running k) (W : Wf k) : Running (schedMergepending k).1 := by
  have hdis : ∀ t ∈ k.ready, t ∉ k.pending := fun t ht hp => by cases W.list_unique ht hp
  intro t ht
  rw [mergepending_ready] at ht ⊢
  show (ite _ _ _ : TaskState) = .running ↔ _
  by_cases hp : t ∈ k.pending
  · rw [if_pos hp]
    split <;> simp_all
  · rw [if_neg hp]
    have htr := (mem_mergedReady.mp ht).resolve_left hp
    by_cases hch : (mergedReady k).head? = k.ready.head?
    · rw [if_neg (by simp [hch]), hch]
      exact hr t htr
    · by_cases hh : k.ready.head? = some t
      · rw [if_pos ⟨by simpa using hch, hh⟩]
        rw [hh] at hch
        simp [hch]
      · rw [if_neg (fun hc => hh hc.2), hr t htr]
        have hne : (mergedReady k).head? ≠ some t := by
          intro he
          have hm := W.merged_head
          rw [he] at hm
          cases hx : k.pending.head? with
          | none =>
            rw [hx] at hm
            cases hm
            exact hh W.head
          | some x =>
            rw [hx] at hm
            dsimp only at hm
            split at hm
            · cases hm
              exact hp (List.mem_of_mem_head? hx)
            · cases hm
              exact hh W.head
        simp [hh, hne]

end

end NuttxAvr32.Sched
