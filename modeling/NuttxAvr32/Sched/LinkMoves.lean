import NuttxAvr32.Sched.Links

/-! # The links hold the lists

`Holds` ties the links of the TCBs to the lists of `Kernel.lean`: every queue spells its list and
no task is in two of them. Each edit of a queue is the edit of its list.
-/

namespace NuttxAvr32.Sched

open Keyed Linked

/-- The links hold the lists of the kernel, with all tasks in `live`. -/
structure Holds (live : List Nat) (m : Links) (k : Kernel) : Prop where
  tasks : m.toTasks = k.toTasks
  queue : ∀ i, IsQueue m.toQueues (m.queue i) (k.list i)
  apart : ∀ i j t, t ∈ k.list i → t ∈ k.list j → i = j
  live : ∀ i, ∀ t ∈ k.list i, t ∈ live

variable {live : List Nat} {fuel : Nat} {m m' : Links} {k : Kernel} {t : Nat} {i : TaskList}

@[simp] theorem Links.setQueue_same (q : Dq) : (m.setQueue i q).queue i = q := by
  simp [Links.setQueue]

theorem Links.setQueue_of_ne {j : TaskList} {q : Dq} (h : j ≠ i) :
    (m.setQueue i q).queue j = m.queue j := by
  simp [Links.setQueue, h]

theorem IsQueue.of_links {m m' : Queues} {q q' : Dq} {l : List Nat} (Q : IsQueue m q l)
    (hq : q' = q) (hl : ∀ t ∈ l, m'.flink t = m.flink t ∧ m'.blink t = m.blink t) :
    IsQueue m' q' l :=
  ⟨hq ▸ Q.head, hq ▸ Q.tail, Q.ends.congr (fun t ht => (hl t ht).1) fun t ht => (hl t ht).2⟩

theorem Holds.setList (H : Holds live m k) {l : List Nat} (htasks : m'.toTasks = m.toTasks)
    (hqueue : ∀ j, j ≠ i → m'.queue j = m.queue j)
    (hlinks : ∀ j, j ≠ i → ∀ u ∈ k.list j, m'.flink u = m.flink u ∧ m'.blink u = m.blink u)
    (hQ : IsQueue m'.toQueues (m'.queue i) l)
    (hnew : ∀ u ∈ l, u ∈ k.list i ∨ (u ∈ live ∧ ¬ Listed k u)) :
    Holds live m' (k.setList i l) := by
  have hother : ∀ j u, u ∈ l → u ∈ k.list j → j = i := by
    intro j u hu hj
    rcases hnew u hu with hi | ⟨-, hn⟩
    · exact H.apart j i u hj hi
    · exact absurd ⟨j, hj⟩ hn
  refine ⟨htasks.trans H.tasks, fun j => ?_, fun a b u ha hb => ?_, fun j u hu => ?_⟩
  · by_cases h : j = i
    · subst h
      rw [setList_list_same]
      exact hQ
    · rw [setList_list_of_ne h]
      exact (H.queue j).of_links (hqueue j h) (hlinks j h)
  · by_cases hai : a = i
    · subst hai
      rw [setList_list_same] at ha
      by_cases hbi : b = a
      · exact hbi.symm
      · rw [setList_list_of_ne hbi] at hb
        exact (hother b u ha hb).symm
    · rw [setList_list_of_ne hai] at ha
      by_cases hbi : b = i
      · subst hbi
        rw [setList_list_same] at hb
        exact hother a u hb ha
      · rw [setList_list_of_ne hbi] at hb
        exact H.apart a b u ha hb
  · by_cases h : j = i
    · subst h
      rw [setList_list_same] at hu
      rcases hnew u hu with hi | ⟨hl, -⟩
      · exact H.live j u hi
      · exact hl
    · rw [setList_list_of_ne h] at hu
      exact H.live j u hu

theorem Holds.setTasks {k' : Kernel} (H : Holds live m k) (htasks : m'.toTasks = k'.toTasks)
    (hflink : m'.flink = m.flink) (hblink : m'.blink = m.blink) (hqueue : m'.queue = m.queue)
    (hlist : k'.list = k.list) : Holds live m' k' := by
  refine ⟨htasks, fun i => ?_, hlist ▸ H.apart, hlist ▸ H.live⟩
  rw [hlist]
  exact (H.queue i).of_links (congrFun hqueue i) fun t _ =>
    ⟨congrFun hflink t, congrFun hblink t⟩

theorem Holds.modify (H : Holds live m k) (t : Nat) (f : Tcb → Tcb) :
    Holds live (m.modify t f) (k.modify t f) := by
  refine H.setTasks ?_ rfl rfl rfl rfl
  show Tasks.mk (Function.update m.toTasks.tcb t (f (m.toTasks.tcb t))) m.toTasks.gPidhash
    m.toTasks.gLastpid = _
  rw [H.tasks]
  rfl

theorem Holds.setState (H : Holds live m k) (t : Nat) (s : TaskState) :
    Holds live (m.setState t s) (k.setState t s) := H.modify t _

theorem Holds.tcb (H : Holds live m k) : m.tcb = k.tcb := congrArg Tasks.tcb H.tasks

theorem Holds.gPidhash (H : Holds live m k) : m.gPidhash = k.gPidhash :=
  congrArg Tasks.gPidhash H.tasks

theorem Holds.gLastpid (H : Holds live m k) : m.gLastpid = k.gLastpid :=
  congrArg Tasks.gLastpid H.tasks

theorem Holds.prio (H : Holds live m k) : m.prio = k.prio :=
  congrArg (fun k : Tasks => k.prio) H.tasks

theorem Holds.head (H : Holds live m k) : m.head = k.head := by
  rw [Links.head, Kernel.head, (H.queue .readytorun).head]

theorem Holds.pending (H : Holds live m k) :
    (m.queue .pendingtasks).head ≠ none ↔ k.pending ≠ [] := by
  rw [(H.queue .pendingtasks).head]
  exact not_congr List.head?_eq_none_iff

theorem Holds.nodup (H : Holds live m k) (i : TaskList) : (k.list i).Nodup := (H.queue i).ends.nodup

theorem Holds.length (H : Holds live m k) (i : TaskList) : (k.list i).length ≤ live.length :=
  (List.subperm_of_subset (H.nodup i) fun t ht => H.live i t ht).length_le

theorem Holds.split (H : Holds live m k) (ht : t ∈ k.list i) : ∃ l₁ l₂,
    k.list i = l₁ ++ t :: l₂ ∧ (k.list i).erase t = l₁ ++ l₂ ∧
      m.blink t = l₁.getLast? ∧ m.flink t = l₂.head? := by
  obtain ⟨l₁, l₂, hl⟩ := List.append_of_mem ht
  have hd := H.nodup i
  have hends := (H.queue i).ends
  rw [hl] at hd hends
  have hnot : t ∉ l₁ := fun h => (List.nodup_append.mp hd).2.2 t h t List.mem_cons_self rfl
  refine ⟨l₁, l₂, hl, ?_, hends.neighbours⟩
  rw [hl, List.erase_append_right _ hnot, List.erase_cons_head]

theorem Holds.dqRem (H : Holds live m k) (ht : t ∈ k.list i) :
    Holds live (m.dqRem t i) (k.setList i ((k.list i).erase t)) := by
  obtain ⟨l₁, l₂, hl, herase, hblink, hflink⟩ := H.split ht
  have hd := H.nodup i
  have Q := H.queue i
  rw [hl] at hd Q
  have hmem : ∀ u, u ∈ l₁ ++ l₂ → u ≠ t := by
    rintro u hu rfl
    exact (List.nodup_cons.mp (List.perm_middle.nodup_iff.mp hd)).1 hu
  have hf : ∀ u, u ≠ t → (m.dqRem t i).flink u =
      if l₁.getLast? = some u then l₂.head? else m.flink u := by
    intro u hu
    simp only [Links.dqRem, Function.update_of_ne hu, hblink, hflink]
    cases hp : l₁.getLast? with
    | none => simp
    | some p =>
      by_cases he : u = p
      · subst he
        simp
      · simp [Function.update_of_ne he, Ne.symm he]
  have hb : ∀ u, u ≠ t → (m.dqRem t i).blink u =
      if l₂.head? = some u then l₁.getLast? else m.blink u := by
    intro u hu
    simp only [Links.dqRem, Function.update_of_ne hu, hblink, hflink]
    cases hn : l₂.head? with
    | none => simp
    | some n =>
      by_cases he : u = n
      · subst he
        simp
      · simp [Function.update_of_ne he, Ne.symm he]
  rw [herase]
  refine H.setList rfl (fun j hj => Function.update_of_ne hj _ _) (fun j hj u hu => ?_) ?_
    fun u hu => .inl ?_
  · have hout : u ∉ l₁ ++ t :: l₂ := fun h => hj (H.apart j i u hu (hl ▸ h))
    have hut : u ≠ t := fun h => hout (by simp [h])
    rw [hf u hut, hb u hut, if_neg fun h => hout (by simp [List.mem_of_getLast? h]),
      if_neg fun h => hout (by simp [List.mem_of_head? h])]
    exact ⟨rfl, rfl⟩
  · have hends : Ends (m.dqRem t i).flink (m.dqRem t i).blink (l₁ ++ l₂) :=
      Q.ends.remove hd (fun y hy => hf y (hmem y hy)) fun y hy => hb y (hmem y hy)
    have hqueue : (m.dqRem t i).queue i =
        ⟨if l₁.getLast? = none then l₂.head? else (m.queue i).head,
          if l₂.head? = none then l₁.getLast? else (m.queue i).tail⟩ := by
      simp only [Links.dqRem, Function.update_self, hblink, hflink]
    rw [hqueue]
    refine ⟨?_, ?_, hends⟩
    · have hh := Q.head
      cases l₁ with
      | nil => simp
      | cons x l₁ =>
        have hne : ¬ (x :: l₁).getLast? = none := by simp
        rw [if_neg hne, hh]
        rfl
    · have htl := Q.tail
      cases l₂ with
      | nil => simp
      | cons x l₂ =>
        have hne : ¬ (x :: l₂).head? = none := by simp
        rw [if_neg hne, htl, List.getLast?_append, List.getLast?_append,
          List.getLast?_cons_cons]
  · rw [hl]
    rcases List.mem_append.mp hu with h | h
    · simp [h]
    · simp [h]

theorem Holds.insert (H : Holds live m k) (ht : ¬ Listed k t) (hlive : t ∈ live) {l : List Nat}
    {q : Dq} {m₁ : Queues} (htasks : m₁.toTasks = m.toTasks) (hQ : IsQueue m₁ q l)
    (hmem : ∀ u, u ∈ l ↔ u = t ∨ u ∈ k.list i)
    (hlinks : Queues.LinksOutside (t :: k.list i) m.toQueues m₁) :
    Holds live ((m.relink m₁).setQueue i q) (k.setList i l) := by
  refine H.setList htasks (fun j hj => Function.update_of_ne hj _ _) (fun j hj u hu => ?_) ?_
    fun u hu => ?_
  · refine hlinks u fun hm => ?_
    rcases List.mem_cons.mp hm with rfl | hi
    · exact ht ⟨j, hu⟩
    · exact hj (H.apart j i u hu hi)
  · exact hQ.of_links (Links.setQueue_same q) fun _ _ => ⟨rfl, rfl⟩
  · rcases (hmem u).mp hu with rfl | hi
    · exact .inr ⟨hlive, ht⟩
    · exact .inl hi

theorem Holds.addprioritized (H : Holds live m k) (hfuel : live.length < fuel)
    (ht : ¬ Listed k t) (hlive : t ∈ live) (hmin : schedPriorityMin ≤ k.prio t) (i : TaskList) :
    ∃ m', m.schedAddprioritized fuel t i = some (m', (schedAddprioritized t i k).2) ∧
      Holds live m' (schedAddprioritized t i k).1 := by
  have hprio : m.toQueues.prio = k.prio := H.prio
  have hlen : (k.list i).length < fuel := Nat.lt_of_le_of_lt (H.length i) hfuel
  obtain ⟨m₁, q, he, hQ, htasks, hlinks⟩ := Queues.addprioritized_spec (H.queue i)
    (by rw [hprio]; exact hmin) (fun h => ht ⟨i, h⟩) hlen
  rw [hprio] at he hQ
  refine ⟨(m.relink m₁).setQueue i q, ?_, H.insert ht hlive htasks hQ (fun u => mem_insertKeyed)
    hlinks⟩
  rw [Links.schedAddprioritized, he]
  rfl

theorem Holds.addlast (H : Holds live m k) (ht : ¬ Listed k t) (hlive : t ∈ live) (i : TaskList) :
    ∃ m', m.dqAddlast t i = some m' ∧ Holds live m' (k.setList i (k.list i ++ [t])) := by
  have Q := H.queue i
  have hnot : t ∉ k.list i := fun h => ht ⟨i, h⟩
  have hd : (k.list i ++ t :: []).Nodup :=
    List.perm_middle.nodup_iff.mpr (List.nodup_cons.mpr ⟨by simpa using hnot, by
      simpa using H.nodup i⟩)
  have hQ := Queues.isQueue_linkBetween (k.list i) [] (by simpa using Q) hd
  have hlinks : Queues.LinksOutside (t :: k.list i) m.toQueues
      (m.toQueues.linkBetween (k.list i).getLast? none t) :=
    Queues.linksOutside_linkBetween List.mem_cons_self
      (fun p hp => List.mem_cons_of_mem _ (List.mem_of_getLast? hp)) fun n hn => by cases hn
  have htasks : (m.toQueues.linkBetween (k.list i).getLast? none t).toTasks = m.toTasks := rfl
  have H' := H.insert (i := i) ht hlive htasks hQ (fun u => by rw [List.mem_append, List.mem_singleton, or_comm]) hlinks
  refine ⟨_, ?_, H'⟩
  have hh := Q.head
  have htl := Q.tail
  cases hl : k.list i with
  | nil =>
    rw [hl] at hh htl
    rw [Links.dqAddlast, hh, htl]
    rfl
  | cons x l =>
    rw [hl] at hh htl
    obtain ⟨z, hz⟩ : ∃ z, (x :: l).getLast? = some z :=
      ⟨_, List.getLast?_eq_some_getLast (List.cons_ne_nil x l)⟩
    rw [hz] at htl
    simp only [Links.dqAddlast, hh, htl, List.head?_cons, Option.map_some, hz]
    rfl

theorem Holds.addfirst (H : Holds live m k) (ht : ¬ Listed k t) (hlive : t ∈ live) (i : TaskList) :
    Holds live (m.dqAddfirst t i) (k.setList i (t :: k.list i)) := by
  have Q := H.queue i
  have hnot : t ∉ k.list i := fun h => ht ⟨i, h⟩
  have hd : (([] : List Nat) ++ t :: k.list i).Nodup := List.nodup_cons.mpr ⟨hnot, H.nodup i⟩
  have hQ := Queues.isQueue_linkBetween [] (k.list i) Q hd
  have hlinks : Queues.LinksOutside (t :: k.list i) m.toQueues
      (m.toQueues.linkBetween none (k.list i).head? t) :=
    Queues.linksOutside_linkBetween List.mem_cons_self (fun p hp => by cases hp)
      fun n hn => List.mem_cons_of_mem _ (List.mem_of_head? hn)
  have htasks : (m.toQueues.linkBetween none (k.list i).head? t).toTasks = m.toTasks := rfl
  have H' := H.insert (i := i) ht hlive htasks hQ (fun u => List.mem_cons) hlinks
  have hh := Q.head
  have htl := Q.tail
  have he : m.dqAddfirst t i = (m.relink (m.toQueues.linkBetween none (k.list i).head? t)).setQueue
      i ⟨some t, if k.list i = [] then some t else (m.queue i).tail⟩ := by
    cases hl : k.list i with
    | nil =>
      rw [hl] at hh
      rw [Links.dqAddfirst, hh]
      rfl
    | cons x l =>
      rw [hl] at hh
      rw [Links.dqAddfirst, hh, if_neg (List.cons_ne_nil x l)]
      rfl
  rw [he]
  exact H'

theorem Holds.mergeable_length (H : Holds live m k) :
    k.ready.length + k.pending.length ≤ live.length := by
  have hd : (k.ready ++ k.pending).Nodup := by
    refine List.nodup_append.mpr ⟨H.nodup _, H.nodup _, ?_⟩
    rintro t hr _ hp rfl
    cases H.apart _ _ t hr hp
  have hsub : k.ready ++ k.pending ⊆ live := by
    intro t ht
    rcases List.mem_append.mp ht with h | h
    · exact H.live _ t h
    · exact H.live _ t h
  have hle := (List.subperm_of_subset hd hsub).length_le
  rw [List.length_append] at hle
  exact hle

theorem Holds.mergepending (H : Holds live m k) (W : Wf k) (hfuel : live.length < fuel) :
    ∃ m', m.schedMergepending fuel = some (m', (schedMergepending k).2) ∧
      Holds live m' (schedMergepending k).1 := by
  have R : Represents m.toQueues k := ⟨H.tasks, H.queue .readytorun, H.queue .pendingtasks⟩
  have hlen : k.ready.length + k.pending.length < fuel :=
    Nat.lt_of_le_of_lt H.mergeable_length hfuel
  obtain ⟨m₁, he, R', hlinks⟩ := R.mergepending W hlen
  refine ⟨((m.relink m₁).setQueue .readytorun m₁.gReadytorun).setQueue .pendingtasks
    m₁.gPendingtasks, by rw [Links.schedMergepending, he]; rfl, R'.tasks, fun j => ?_,
    fun a b u ha hb => ?_, fun j u hu => ?_⟩
  · by_cases hr : j = .readytorun
    · subst hr
      have hq : (((m.relink m₁).setQueue .readytorun m₁.gReadytorun).setQueue .pendingtasks
          m₁.gPendingtasks).queue .readytorun = m₁.gReadytorun := by
        rw [Links.setQueue_of_ne (by decide), Links.setQueue_same]
      exact R'.ready.of_links hq fun _ _ => ⟨rfl, rfl⟩
    · by_cases hp : j = .pendingtasks
      · subst hp
        have hq : (((m.relink m₁).setQueue .readytorun m₁.gReadytorun).setQueue .pendingtasks
            m₁.gPendingtasks).queue .pendingtasks = m₁.gPendingtasks := Links.setQueue_same _
        exact R'.pending.of_links hq fun _ _ => ⟨rfl, rfl⟩
      · have hq : (((m.relink m₁).setQueue .readytorun m₁.gReadytorun).setQueue .pendingtasks
            m₁.gPendingtasks).queue j = m.queue j := by
          rw [Links.setQueue_of_ne hp, Links.setQueue_of_ne hr]
          rfl
        rw [mergepending_list_other hr hp]
        refine (H.queue j).of_links hq fun u hu => hlinks u fun hm => ?_
        rcases List.mem_append.mp hm with h | h
        · exact hr (H.apart _ _ u hu h)
        · exact hp (H.apart _ _ u hu h)
  · rcases mergepending_mem ha with ⟨hr, rfl⟩ | ⟨hp, rfl⟩ | ⟨ha, ha1, ha2⟩
    · rcases mergepending_mem hb with ⟨-, rfl⟩ | ⟨-, rfl⟩ | ⟨hb, hb1, -⟩
      · rfl
      · rfl
      · exact absurd (H.apart b .readytorun u hb hr) hb1
    · rcases mergepending_mem hb with ⟨-, rfl⟩ | ⟨-, rfl⟩ | ⟨hb, -, hb2⟩
      · rfl
      · rfl
      · exact absurd (H.apart b .pendingtasks u hb hp) hb2
    · rcases mergepending_mem hb with ⟨hb, -⟩ | ⟨hb, -⟩ | ⟨hb, -⟩
      · exact absurd (H.apart _ _ u ha hb) ha1
      · exact absurd (H.apart _ _ u ha hb) ha2
      · exact H.apart a b u ha hb
  · rcases mergepending_mem hu with ⟨hu, -⟩ | ⟨hu, -⟩ | ⟨hu, -⟩
    · exact H.live _ u hu
    · exact H.live _ u hu
    · exact H.live _ u hu

theorem Holds.mergeIfPending (H : Holds live m k) (W : Wf k) (hfuel : live.length < fuel) :
    ∃ m', m.mergeIfPending fuel = some m' ∧ Holds live m' (mergeIfPending k) := by
  unfold Links.mergeIfPending Sched.mergeIfPending
  by_cases h : k.pending ≠ []
  · obtain ⟨m', he, H'⟩ := H.mergepending W hfuel
    refine ⟨m', ?_, ?_⟩
    · rw [if_pos (H.pending.mpr h), he]
      rfl
    · rw [if_pos h]
      exact H'
  · refine ⟨m, if_neg (mt H.pending.mp h), ?_⟩
    rw [if_neg h]
    exact H

theorem Holds.addreadytorun (H : Holds live m k) (W : Wf k) (hfuel : live.length < fuel)
    (ht : ¬ Listed k t) (hlive : t ∈ live) (hmin : schedPriorityMin ≤ k.prio t) :
    ∃ m', m.schedAddreadytorun fuel t = some (m', (schedAddreadytorun t k).2) ∧
      Holds live m' (schedAddreadytorun t k).1 := by
  unfold Links.schedAddreadytorun Sched.schedAddreadytorun
  dsimp only
  rw [H.head, H.tcb, H.prio]
  by_cases hpark : (k.tcb k.head).lockcount ≠ 0 ∧ k.prio k.head < k.prio t
  · obtain ⟨m', he, H'⟩ := H.addprioritized hfuel ht hlive hmin .pendingtasks
    rw [if_pos hpark, if_pos hpark, he]
    exact ⟨_, rfl, H'.setState t .pending⟩
  · obtain ⟨m', he, H'⟩ := H.addprioritized hfuel ht hlive hmin .readytorun
    rw [if_neg hpark, if_neg hpark, he, Option.bind_some]
    by_cases hlt : k.prio k.head < k.prio t
    · have hlock : (k.tcb k.head).lockcount = 0 := by
        by_contra h
        exact hpark ⟨h, hlt⟩
      rw [addprioritized_top W.head hlt] at H' ⊢
      have hflink : m'.flink t = some k.head := by
        have hends := (H'.queue .readytorun).ends
        rw [setList_list_same] at hends
        have hf := hends.2.1
        rw [W.head] at hf
        exact hf
      have htcb : (m'.tcb k.head).lockcount = 0 := by
        rw [H'.tcb]
        exact hlock
      refine ⟨(m'.setState t .running).setState k.head .readytorun, ?_, ?_⟩
      · simp only [if_true, htcb, hflink, Option.map_some]
      · exact (H'.setState t .running).setState k.head .readytorun
    · have hne : k.head ≠ t := fun h => ht ⟨.readytorun, h ▸ W.head_mem⟩
      rw [addprioritized_behind W.head (by omega) hne] at H' ⊢
      exact ⟨m'.setState t .readytorun, rfl, H'.setState t .readytorun⟩

theorem Holds.flink_ready (H : Holds live m k) (W : Wf k) :
    m.flink k.head = k.ready.tail.head? := by
  have hh := W.head
  have hends := (H.queue .readytorun).ends
  unfold Kernel.ready at *
  cases hr : k.list .readytorun with
  | nil =>
    rw [hr] at hh
    cases hh
  | cons x l =>
    rw [hr] at hh hends
    have hx : x = k.head := Option.some.inj hh
    rw [hx] at hends
    exact hends.2.1.trans (Option.or_none ..)

theorem Holds.flink_head (H : Holds live m k) (W : Wf k) (h : k.head ≠ gIdletcb) :
    m.flink k.head = some k.next := (H.flink_ready W).trans (W.tail_head h).1

theorem Holds.removereadytorun (H : Holds live m k) (W : Wf k) (ht : t ∈ k.ready)
    (hidle : t ≠ gIdletcb) :
    ∃ m', m.schedRemovereadytorun t = some (m', (schedRemovereadytorun t k).2) ∧
      Holds live m' (schedRemovereadytorun t k).1 := by
  obtain ⟨l₁, l₂, hl, -, hblink, -⟩ := H.split ht
  have hd := H.nodup .readytorun
  have hhead := W.head
  have hready : k.ready = l₁ ++ t :: l₂ := hl
  rw [hl] at hd
  rw [hready] at hhead
  rw [removereadytorun_eq W hidle]
  by_cases h : t = k.head
  · have hnil : l₁ = [] := by
      cases l₁ with
      | nil => rfl
      | cons x l₁ =>
        have hx : x = t := (Option.some.inj hhead).trans h.symm
        exact absurd hx fun hx => (List.nodup_append.mp hd).2.2 x List.mem_cons_self t
          List.mem_cons_self hx
    subst hnil
    have hf : m.flink t = some k.next := by
      rw [h]
      exact H.flink_head W (h ▸ hidle)
    refine ⟨((m.setState k.next .running).dqRem t .readytorun).setState t .invalid, ?_, ?_⟩
    · rw [if_pos h, Links.schedRemovereadytorun, hblink, List.getLast?_nil]
      simp only [hf, Option.map_some]
    · rw [if_pos h]
      exact ((H.setState k.next .running).dqRem ht).setState t .invalid
  · obtain ⟨x, l, rfl⟩ : ∃ x l, l₁ = x :: l := by
      cases l₁ with
      | nil => exact absurd (Option.some.inj hhead) h
      | cons x l => exact ⟨x, l, rfl⟩
    obtain ⟨z, hz⟩ : ∃ z, (x :: l).getLast? = some z :=
      ⟨_, List.getLast?_eq_some_getLast (List.cons_ne_nil x l)⟩
    refine ⟨(m.dqRem t .readytorun).setState t .invalid, ?_, ?_⟩
    · rw [if_neg h, Links.schedRemovereadytorun, hblink, hz]
    · rw [if_neg h]
      exact (H.dqRem ht).setState t .invalid

theorem Holds.addblocked {s : TaskState} (H : Holds live m k) (hfuel : live.length < fuel)
    (ht : ¬ Listed k t) (hlive : t ∈ live) (hmin : schedPriorityMin ≤ k.prio t)
    (hs : s.IsBlocked) : ∃ m', m.schedAddblocked fuel t s = some m' ∧
      Holds live m' (schedAddblocked t s k) := by
  obtain ⟨i, hi⟩ := blocked_list hs
  unfold Links.schedAddblocked Sched.schedAddblocked
  rw [if_pos hs, hi, Option.bind_some]
  dsimp only
  cases s.prioritized with
  | true =>
    obtain ⟨m', he, H'⟩ := H.addprioritized hfuel ht hlive hmin i
    rw [if_pos rfl, if_pos rfl, he]
    exact ⟨_, rfl, H'.setState t s⟩
  | false =>
    obtain ⟨m', he, H'⟩ := H.addlast ht hlive i
    rw [if_neg (by decide), if_neg (by decide), he]
    exact ⟨_, rfl, H'.setState t s⟩

theorem Holds.removeblocked (H : Holds live m k) (W : Wf k) (ht : t ∈ k.list i)
    (hs : (k.tcb t).taskState.IsBlocked) : ∃ m', m.schedRemoveblocked t = some m' ∧
      Holds live m' (schedRemoveblocked t k) := by
  refine ⟨(m.dqRem t i).setState t .invalid, ?_, ?_⟩
  · rw [Links.schedRemoveblocked, H.tcb, if_pos hs, W.state i t ht]
    rfl
  · rw [removeblocked_eq ht W]
    exact (H.dqRem ht).setState t .invalid

end NuttxAvr32.Sched
