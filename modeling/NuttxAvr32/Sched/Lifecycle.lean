import NuttxAvr32.Sched.Priority

/-! # Creating and deleting tasks

`Pids` ties the table of process ids to the lists: the live tasks are those that
are in some list. A deletion is a removal from the lists and from the table, also
in `task_deletecurrent`, where the running task leaves first.
-/

namespace NuttxAvr32.Sched

open Keyed
open Function (update update_idem update_self update_of_ne update_eq_self)

structure Pids (cfg : Config) (k : Kernel) : Prop where
  slot : ∀ i, (k.gPidhash i).tcb ≠ 0 → Listed k (k.gPidhash i).tcb ∧
    (k.tcb (k.gPidhash i).tcb).pid = (k.gPidhash i).pid ∧ pidhash cfg (k.gPidhash i).pid = i
  listed : ∀ t, Listed k t → (k.gPidhash (pidhash cfg (k.tcb t).pid)).tcb = t
  idle : ∀ t, Listed k t → ((k.tcb t).pid = 0 ↔ t = gIdletcb)

/-- The TCB belongs to a task, as `sched_verifytcb` finds it. -/
def Live (cfg : Config) (k : Tasks) (t : Nat) : Prop := t ≠ 0 ∧ schedVerifytcb cfg k t = true

instance (cfg : Config) (k : Tasks) (t : Nat) : Decidable (Live cfg k t) :=
  inferInstanceAs (Decidable (_ ∧ _))

section

variable {cfg : Config} {k k' : Kernel} {t u : Nat}

theorem Pids.live_iff (P : Pids cfg k) (W : Wf k) : Live cfg k.toTasks t ↔ Listed k t := by
  constructor
  · intro ⟨h0, hv⟩
    have hs : t = (k.gPidhash (pidhash cfg (k.tcb t).pid)).tcb := of_decide_eq_true hv
    have hl := (P.slot (pidhash cfg (k.tcb t).pid) (by rw [← hs]; exact h0)).1
    rwa [← hs] at hl
  · intro h
    refine ⟨?_, decide_eq_true (P.listed t h).symm⟩
    obtain ⟨i, hi⟩ := h
    intro h0
    exact W.nonzero i (h0 ▸ hi)

theorem Pids.congr (P : Pids cfg k) (hpid : ∀ u, Listed k u → (k'.tcb u).pid = (k.tcb u).pid)
    (hhash : k'.gPidhash = k.gPidhash) (hl : ∀ u, Listed k' u ↔ Listed k u) : Pids cfg k' where
  slot i hi := by
    rw [hhash] at hi ⊢
    have hs := P.slot i hi
    rw [hl, hpid _ hs.1]
    exact hs
  listed t ht := by
    rw [hhash, hpid t ((hl t).mp ht)]
    exact P.listed t ((hl t).mp ht)
  idle t ht := by
    rw [hpid t ((hl t).mp ht)]
    exact P.idle t ((hl t).mp ht)

theorem Pids.stays (P : Pids cfg k) (S : Stays k k') : Pids cfg k' :=
  P.congr (fun u _ => S.keeps.pid u) S.keeps.gPidhash S.listed

theorem Pids.setPrio {p : Nat} (P : Pids cfg k) (S : SetPrio t p k k')
    (hl : ∀ u, Listed k' u ↔ Listed k u) : Pids cfg k' :=
  P.congr (fun u _ => by rw [S.tcb u]) S.gPidhash hl

theorem Pids.gettcb (P : Pids cfg k) (W : Wf k) (h : Listed k t) :
    schedGettcb cfg k.toTasks (k.tcb t).pid = t := by
  have ht := P.listed t h
  have h0 : t ≠ 0 := by
    obtain ⟨i, hi⟩ := h
    intro h0
    exact W.nonzero i (h0 ▸ hi)
  have hslot := P.slot (pidhash cfg (k.tcb t).pid) (by rw [ht]; exact h0)
  rw [ht] at hslot
  unfold schedGettcb
  dsimp only
  rw [if_pos hslot.2.1, ht]

theorem Pids.of_gettcb (P : Pids cfg k) {pid : Nat} (h : schedGettcb cfg k.toTasks pid ≠ 0) :
    Listed k (schedGettcb cfg k.toTasks pid) ∧
      (k.tcb (schedGettcb cfg k.toTasks pid)).pid = pid := by
  unfold schedGettcb at h ⊢
  dsimp only at h ⊢
  by_cases hp : pid = (k.gPidhash (pidhash cfg pid)).pid
  · rw [if_pos hp] at h ⊢
    have hs := P.slot _ h
    exact ⟨hs.1, hs.2.1.trans hp.symm⟩
  · rw [if_neg hp] at h
    exact absurd rfl h

end

section

variable {cfg : Config} {k : Kernel} {t u : Nat} {i : TaskList} {irq : Bool}

def dropped (k : Kernel) (t : Nat) (i : TaskList) : Kernel :=
  (k.setList i ((k.list i).erase t)).setState t .invalid

theorem dropped_head (W : Wf k) (hne : t ≠ k.head) : (dropped k t i).head = k.head := by
  apply head_eq
  show ((k.setList i ((k.list i).erase t)).list .readytorun).head? = _
  by_cases h : TaskList.readytorun = i
  · subst h
    rw [setList_list_same]
    exact W.head?_erase hne
  · rw [setList_list_of_ne h]
    exact W.head

theorem dropped_pending (h : (dropped k t i).pending ≠ []) : k.pending ≠ [] := by
  intro hn
  apply h
  show (k.setList i ((k.list i).erase t)).list .pendingtasks = []
  by_cases hi : TaskList.pendingtasks = i
  · subst hi
    rw [setList_list_same]
    have hp : k.list .pendingtasks = [] := hn
    rw [hp]
    rfl
  · rw [setList_list_of_ne hi]
    exact hn

theorem Wf.dropped (W : Wf k) (ht : t ∈ k.list i) (hidle : t ≠ gIdletcb) :
    Wf (Sched.dropped k t i) :=
  Wf.modify_unlisted (f := fun c => { c with taskState := .invalid }) (W.remove hidle)
    (W.not_listed_remove ht)

theorem dropped_listed (W : Wf k) (ht : t ∈ k.list i) :
    Listed (dropped k t i) u ↔ u ≠ t ∧ Listed k u := listed_erase W ht rfl

theorem dropped_sameTasks : SameTasks k (dropped k t i) :=
  sameTasks_setList.trans sameTasks_setState

theorem Ok.dropped (O : Ok k) (ht : t ∈ k.list i) (hidle : t ≠ gIdletcb) (hne : t ≠ k.head) :
    Ok (Sched.dropped k t i) := by
  have hready : ∀ u, u ∈ (Sched.dropped k t i).ready → u ∈ k.ready ∧ u ≠ t := by
    intro u hu
    have hl := (dropped_listed O.wf ht).mp ⟨_, hu⟩
    refine ⟨?_, hl.1⟩
    have hu' : u ∈ (k.setList i ((k.list i).erase t)).list .readytorun := hu
    by_cases h : TaskList.readytorun = i
    · subst h
      rw [setList_list_same] at hu'
      exact List.mem_of_mem_erase hu'
    · rw [setList_list_of_ne h] at hu'
      exact hu'
  refine ⟨O.wf.dropped ht hidle, fun u hu => ?_, fun hp => ?_⟩
  · obtain ⟨hur, hut⟩ := hready u hu
    have hh : (Sched.dropped k t i).ready.head? = k.ready.head? := by
      rw [(O.wf.dropped ht hidle).head, O.wf.head, dropped_head O.wf hne]
    rw [hh]
    have htcb : (Sched.dropped k t i).tcb u = k.tcb u := setState_tcb_of_ne hut
    rw [htcb]
    exact O.running u hur
  · rw [dropped_head O.wf hne, dropped_sameTasks.lockcount]
    exact O.parked (dropped_pending hp)

theorem lock_dropped_unlock (W : Wf k) (hP : Parked k) (hne : t ≠ k.head)
    {k₁ : Kernel} (hl : schedLock irq k = some k₁) :
    schedUnlock irq (dropped k₁ t i) = dropped k t i := by
  have h₁ := schedLock_eq hl
  unfold schedUnlock
  by_cases hirq : irq = true
  · rw [if_pos hirq] at h₁ ⊢
    rw [h₁]
  rw [if_neg hirq] at h₁ ⊢
  have hd : dropped k₁ t i =
      (dropped k t i).modify k.head fun c => { c with lockcount := c.lockcount + 1 } := by
    rw [h₁]
    unfold dropped Kernel.setState Kernel.modify Kernel.setList
    dsimp only
    congr 2
    funext u
    by_cases hu : u = t
    · subst hu
      simp [hne]
    · by_cases hh : u = k.head
      · subst hh
        simp [hu]
      · simp [hu, hh]
  have hback : (dropped k₁ t i).modify k.head (fun c => { c with lockcount := c.lockcount - 1 }) =
      dropped k t i := by
    rw [hd]
    unfold Kernel.modify
    dsimp only
    rw [update_idem, update_self]
    have he : update (dropped k t i).tcb k.head
        { (dropped k t i).tcb k.head with
          lockcount := ((dropped k t i).tcb k.head).lockcount + 1 - 1 } = (dropped k t i).tcb := by
      rw [Nat.add_sub_cancel]
      exact update_eq_self _ _
    rw [he]
  have hhead : (dropped k₁ t i).head = k.head := by
    rw [hd]
    exact dropped_head W hne
  dsimp only
  rw [hhead, hback, if_neg]
  rintro ⟨h0, hp⟩
  rw [dropped_sameTasks.lockcount] at h0
  exact hP (dropped_pending hp) h0

theorem lock_unlock (hP : Parked k) {k₁ : Kernel} (hl : schedLock irq k = some k₁) :
    schedUnlock irq k₁ = k := by
  have h₁ := schedLock_eq hl
  unfold schedUnlock
  by_cases hirq : irq = true
  · rw [if_pos hirq] at h₁ ⊢
    exact h₁
  rw [if_neg hirq] at h₁ ⊢
  have hback : k₁.modify k.head (fun c => { c with lockcount := c.lockcount - 1 }) = k := by
    rw [h₁]
    unfold Kernel.modify
    dsimp only
    rw [update_idem, update_self]
    have he : update k.tcb k.head { k.tcb k.head with
        lockcount := (k.tcb k.head).lockcount + 1 - 1 } = k.tcb := by
      rw [Nat.add_sub_cancel]
      exact update_eq_self _ _
    rw [he]
  have hhead : k₁.head = k.head := by
    rw [h₁]
    rfl
  dsimp only
  rw [hhead, hback, if_neg]
  intro ⟨h0, hp⟩
  exact hP hp h0

theorem taskDelete_eq (W : Wf k) (hP : Parked k) {pid : Nat} (h0 : pid ≠ 0)
    (hself : pid ≠ (k.tcb k.head).pid) {k₁ : Kernel} (hl : schedLock irq k = some k₁)
    (hg : schedGettcb cfg k.toTasks pid = t) (ht : t ∈ k.list i) (hne : t ≠ k.head)
    (hrun : (k.tcb t).taskState ≠ .running) :
    taskDelete cfg irq pid k = some (schedReleasetcb cfg t (dropped k t i)) := by
  have ht0 : t ≠ 0 := fun h => W.nonzero i (h ▸ ht)
  have h₁ := schedLock_eq hl
  have htcb : k₁.tcb t = k.tcb t := by
    rw [h₁]
    split
    · rfl
    · exact modify_tcb_of_ne hne
  have hg₁ : schedGettcb cfg k₁.toTasks pid = t := by
    rw [← hg, h₁]
    split <;> rfl
  have hlist : k₁.list = k.list := by
    rw [h₁]
    split <;> rfl
  unfold taskDelete
  rw [if_neg (by tauto), hl]
  show (if schedGettcb cfg k₁.toTasks pid = 0 then _ else _) = _
  rw [hg₁, if_neg ht0, htcb, if_neg hrun, W.state i t ht]
  show some (schedReleasetcb cfg t (schedUnlock irq (dropped k₁ t i))) = _
  rw [lock_dropped_unlock W hP hne hl]

theorem releasetcb_ok (O : Ok k) : Ok (schedReleasetcb cfg t k) := by
  unfold schedReleasetcb
  split
  · exact ⟨⟨O.wf.nodup, O.wf.state, O.wf.sorted, O.wf.nonzero, O.wf.idle, O.wf.idlePrio,
      O.wf.prio⟩, O.running, O.parked⟩
  · exact O

theorem Pids.release (P : Pids cfg k) (hl : Listed k t) (hidle : t ≠ gIdletcb) {k' : Kernel}
    (hpid : ∀ u, (k'.tcb u).pid = (k.tcb u).pid) (hhash : k'.gPidhash = k.gPidhash)
    (hL : ∀ u, Listed k' u ↔ u ≠ t ∧ Listed k u) : Pids cfg (schedReleasetcb cfg t k') := by
  have hp : (k'.tcb t).pid ≠ 0 := by
    rw [hpid]
    exact fun h => hidle ((P.idle t hl).mp h)
  have hslot := P.listed t hl
  unfold schedReleasetcb
  rw [if_pos hp, hpid]
  constructor
  · intro i hi
    have hi' : (update k'.gPidhash (pidhash cfg (k.tcb t).pid) ⟨0, invalidProcessId⟩ i).tcb
        ≠ 0 := hi
    show Listed k' (update k'.gPidhash _ _ i).tcb ∧
      (k'.tcb (update k'.gPidhash _ _ i).tcb).pid = (update k'.gPidhash _ _ i).pid ∧
      pidhash cfg (update k'.gPidhash _ _ i).pid = i
    by_cases he : i = pidhash cfg (k.tcb t).pid
    · subst he
      rw [update_self] at hi'
      exact absurd rfl hi'
    · rw [update_of_ne he, hhash] at hi'
      rw [update_of_ne he, hhash]
      have hs := P.slot i hi'
      rw [hL, hpid]
      refine ⟨⟨?_, hs.1⟩, hs.2⟩
      intro ht
      apply he
      rw [← ht, hs.2.1, hs.2.2]
  · intro u hu
    obtain ⟨hut, hul⟩ := (hL u).mp hu
    show (update k'.gPidhash _ _ (pidhash cfg (k'.tcb u).pid)).tcb = u
    rw [hpid, update_of_ne, hhash]
    · exact P.listed u hul
    · intro he
      apply hut
      rw [← P.listed u hul, he, hslot]
  · intro u hu
    show (k'.tcb u).pid = 0 ↔ _
    rw [hpid]
    exact P.idle u ((hL u).mp hu).2

theorem Ok.delete (O : Ok k) (P : Pids cfg k) {pid : Nat} (h0 : pid ≠ 0)
    (hself : pid ≠ (k.tcb k.head).pid) {k' : Kernel} (h : taskDelete cfg irq pid k = some k') :
    k' = k ∨
      ∃ t i, t ∈ k.list i ∧ (k.tcb t).pid = pid ∧ t ≠ k.head ∧ t ≠ gIdletcb ∧
        k' = schedReleasetcb cfg t (Sched.dropped k t i) ∧ Ok k' ∧ Pids cfg k' := by
  cases hl : schedLock irq k with
  | none =>
    unfold taskDelete at h
    rw [if_neg (by tauto), hl] at h
    cases h
  | some k₁ =>
    obtain ⟨O₁, S₁, hlist⟩ := O.lock hl
    by_cases hg : schedGettcb cfg k.toTasks pid = 0
    · left
      have hg₁ : schedGettcb cfg k₁.toTasks pid = 0 := by
        rw [← hg, schedLock_eq hl]
        split <;> rfl
      unfold taskDelete at h
      rw [if_neg (by tauto), hl] at h
      have h' : (if schedGettcb cfg k₁.toTasks pid = 0 then some (schedUnlock irq k₁) else _) =
        some k' := h
      rw [if_pos hg₁] at h'
      rw [← Option.some.inj h']
      exact lock_unlock O.parked hl
    · right
      obtain ⟨hlisted, hpid⟩ := P.of_gettcb hg
      obtain ⟨i, hi⟩ := hlisted
      have hne : schedGettcb cfg k.toTasks pid ≠ k.head := by
        intro he
        apply hself
        rw [← he, hpid]
      have hidle : schedGettcb cfg k.toTasks pid ≠ gIdletcb := by
        intro he
        apply h0
        rw [← hpid]
        exact (P.idle _ ⟨i, hi⟩).mpr he
      have hrun : (k.tcb (schedGettcb cfg k.toTasks pid)).taskState ≠ .running := by
        intro hr
        have hir : i = .readytorun := by
          have hs := O.wf.state i _ hi
          rw [hr] at hs
          exact (Option.some.inj hs).symm
        subst hir
        have hh := (O.running _ hi).mp hr
        rw [O.wf.head] at hh
        exact hne (Option.some.inj hh).symm
      have heq := taskDelete_eq O.wf O.parked h0 hself hl rfl hi hne hrun
      have hk' := Option.some.inj (h.symm.trans heq)
      refine ⟨_, i, hi, hpid, hne, hidle, hk', ?_, ?_⟩
      · rw [hk']
        exact releasetcb_ok (O.dropped hi hidle hne)
      · rw [hk']
        exact P.release ⟨i, hi⟩ hidle dropped_sameTasks.pid rfl fun u => dropped_listed O.wf hi

end

section

variable {cfg : Config} {k : Kernel}

/-- The lists without the running task, with the lock that its successor gets. -/
def departed (cfg : Config) (k : Kernel) : Kernel :=
  schedReleasetcb cfg k.head ((schedRemovereadytorun k.head k).1.modify k.next
    fun c => { c with lockcount := c.lockcount + 1 })

theorem releasetcb_setState (cfg : Config) (k : Kernel) (t u : Nat) (s : TaskState) :
    (schedReleasetcb cfg t k).setState u s = schedReleasetcb cfg t (k.setState u s) := by
  have hp : ((k.setState u s).tcb t).pid = (k.tcb t).pid := sameTasks_setState.pid _
  unfold schedReleasetcb
  rw [hp]
  split <;> rfl

theorem inactive_detour {t n : Nat} (hne : n ≠ t) (hnot : ¬ Listed k t)
    (hrun : (k.tcb n).taskState = .running) (hinv : (k.tcb t).taskState = .invalid) :
    (dropped (schedAddblocked t .inactive (k.setState n .readytorun)) t .inactivetasks).setState n
      .running = k := by
  let k₃ := k.setState n .readytorun
  let k₄ := schedAddblocked t .inactive k₃
  have h₄ : k₄ = (k₃.setList .inactivetasks (k₃.list .inactivetasks ++ [t])).setState t
      .inactive := rfl
  have hnil : t ∉ k.list .inactivetasks := fun h => hnot ⟨_, h⟩
  have herase : (k.list .inactivetasks ++ [t]).erase t = k.list .inactivetasks := by
    rw [List.erase_append_right _ hnil]
    simp
  have hlist : ((dropped k₄ t .inactivetasks).setState n .running).list = k.list := by
    show update (update k.list .inactivetasks (k.list .inactivetasks ++ [t]))
      .inactivetasks ((update k.list .inactivetasks
        (k.list .inactivetasks ++ [t]) .inactivetasks).erase t) = k.list
    rw [update_self, herase, update_idem, update_eq_self]
  have htcb : ((dropped k₄ t .inactivetasks).setState n .running).tcb = k.tcb := by
    funext u
    have hblocked : u ≠ t → k₄.tcb u = k₃.tcb u := addblocked_tcb_of_ne
    by_cases hun : u = n
    · subst hun
      have hd : (dropped k₄ t .inactivetasks).tcb u = k₄.tcb u := setState_tcb_of_ne hne
      rw [setState_tcb_same, hd, hblocked hne, setState_tcb_same]
      show { k.tcb u with taskState := .running } = k.tcb u
      rw [← hrun]
    · rw [setState_tcb_of_ne hun]
      have h₃ : k₃.tcb u = k.tcb u := setState_tcb_of_ne hun
      by_cases hut : u = t
      · subst hut
        have hd : (dropped k₄ u .inactivetasks).tcb u =
            { k₄.tcb u with taskState := .invalid } := setState_tcb_same
        have h₄' : k₄.tcb u = { k₃.tcb u with taskState := .inactive } := by
          rw [h₄, setState_tcb_same]
          rfl
        rw [hd, h₄', h₃, ← hinv]
      · have hd : (dropped k₄ t .inactivetasks).tcb u = k₄.tcb u := setState_tcb_of_ne hut
        rw [hd, hblocked hut, h₃]
  have hpidhash : ((dropped k₄ t .inactivetasks).setState n .running).gPidhash = k.gPidhash := rfl
  have hlast : ((dropped k₄ t .inactivetasks).setState n .running).gLastpid = k.gLastpid := rfl
  show (dropped k₄ t .inactivetasks).setState n .running = k
  generalize (dropped k₄ t .inactivetasks).setState n .running = a at *
  clear k₃ k₄ h₄ hnil herase hrun hinv hnot
  rcases a with ⟨⟨a1, a2, a3⟩, a4⟩
  rcases k with ⟨⟨b1, b2, b3⟩, b4⟩
  dsimp only at hlist htcb hpidhash hlast
  subst hlist htcb hpidhash hlast
  rfl

theorem taskDeletecurrent_eq (O : Ok k) (P : Pids cfg k) (hidle : k.head ≠ gIdletcb) :
    taskDeletecurrent cfg k =
      if (k.tcb k.next).lockcount + 1 < maxLockCount then
        some (schedUnlock false (mergeIfPending (departed cfg k)))
      else none := by
  have W := O.wf
  obtain ⟨-, hnext, hnh⟩ := W.tail_head hidle
  let k₁ := (schedRemovereadytorun k.head k).1
  have W₁ : Wf k₁ := W.removereadytorun W.head_mem hidle
  have T₁ : SameTasks k k₁ := removereadytorun_sameTasks k k.head
  have hhead₁ : k₁.head = k.next := by
    have h := head_eq (removereadytorun_head W hidle)
    rwa [if_pos rfl] at h
  have hstate₁ : (k₁.tcb k.next).taskState = .running ∧ (k₁.tcb k.head).taskState = .invalid := by
    show ((schedRemovereadytorun k.head k).1.tcb k.next).taskState = _ ∧
      ((schedRemovereadytorun k.head k).1.tcb k.head).taskState = _
    rw [removereadytorun_eq W hidle, if_pos rfl]
    dsimp only
    rw [setState_tcb_of_ne hnh, setState_tcb_same, setState_tcb_same]
    exact ⟨rfl, rfl⟩
  have hnot : ¬ Listed k₁ k.head := fun h => ((removereadytorun_listed W W.head_mem).mp h).1 rfl
  have hlock : schedLock false k₁ = if (k.tcb k.next).lockcount < maxLockCount then
      some (k₁.modify k.next fun c => { c with lockcount := c.lockcount + 1 }) else none := by
    unfold schedLock
    rw [if_neg (by simp), hhead₁, T₁.lockcount]
  show (schedLock false k₁).bind _ = _
  rw [hlock]
  by_cases hlt : (k.tcb k.next).lockcount < maxLockCount
  swap
  · rw [if_neg hlt, if_neg (by omega)]
    rfl
  rw [if_pos hlt]
  let k₂ := k₁.modify k.next fun c => { c with lockcount := c.lockcount + 1 }
  let k₃ := k₂.setState k₁.head .readytorun
  let k₄ := schedAddblocked k.head .inactive k₃
  show (taskDelete cfg false (k₄.tcb k.head).pid k₄).bind _ = _
  have hk₃ : k₃ = k₂.setState k.next .readytorun := by
    show k₂.setState k₁.head _ = _
    rw [hhead₁]
  have W₂ : Wf k₂ := W₁.modify rfl rfl
  have hnm₁ : k.next ∈ k₁.ready := by
    have h := W₁.head_mem
    rwa [hhead₁] at h
  have W₃ : Wf k₃ := by
    rw [hk₃]
    exact W₂.setState (show k.next ∈ k₂.list .readytorun from hnm₁) rfl
  have hnot₃ : ¬ Listed k₃ k.head := hnot
  have hprio₃ : k₃.prio k.head = k.prio k.head := by
    rw [hk₃]
    show ((k₂.setState k.next .readytorun).tcb k.head).schedPriority = _
    rw [setState_tcb_of_ne (Ne.symm hnh)]
    show ((k₁.modify k.next _).tcb k.head).schedPriority = _
    rw [modify_tcb_of_ne (Ne.symm hnh)]
    exact congrFun T₁.prio k.head
  have W₄ : Wf k₄ := by
    apply W₃.addblocked (s := .inactive) hnot₃ (fun h => W.nonzero .readytorun (h ▸ W.head_mem)) _
      trivial
    rw [hprio₃]
    exact W.prio .readytorun _ W.head_mem hidle
  have hhead₄ : k₄.head = k.next := by
    have hr : k₄.ready = k₁.ready := by
      show (schedAddblocked k.head .inactive k₃).ready = _
      rw [(addblocked_ready (s := .inactive) trivial).1]
      rfl
    unfold Kernel.head
    rw [hr]
    exact hhead₁
  have htcb₄ : ∀ u, u ≠ k.head → k₄.tcb u = k₃.tcb u := fun u hu => addblocked_tcb_of_ne hu
  have hlc₄ : (k₄.tcb k.next).lockcount = (k.tcb k.next).lockcount + 1 := by
    rw [htcb₄ _ hnh, hk₃, setState_tcb_same]
    show ((k₁.modify k.next _).tcb k.next).lockcount = _
    rw [modify_tcb_same, ← T₁.lockcount]
  have hpid₄ : ∀ u, (k₄.tcb u).pid = (k.tcb u).pid := by
    intro u
    have h₄ : (k₄.tcb u).pid = (k₃.tcb u).pid := (addblocked_sameTasks k₃ k.head .inactive).pid u
    have h₃ : (k₃.tcb u).pid = (k₂.tcb u).pid := sameTasks_setState.pid u
    have h₂ : (k₂.tcb u).pid = (k₁.tcb u).pid := by
      show ((k₁.modify k.next _).tcb u).pid = _
      by_cases h : u = k.next
      · rw [h, modify_tcb_same]
      · rw [modify_tcb_of_ne h]
    rw [h₄, h₃, h₂, T₁.pid]
  have hP₄ : Parked k₄ := by
    intro _
    rw [hhead₄, hlc₄]
    exact Nat.succ_ne_zero _
  have hpid0 : (k.tcb k.head).pid ≠ 0 :=
    fun h => hidle ((P.idle _ ⟨_, W.head_mem⟩).mp h)
  have hpidne : (k.tcb k.head).pid ≠ (k.tcb k.next).pid := by
    intro he
    apply hnh
    rw [← P.listed _ ⟨_, hnext⟩, ← he, P.listed _ ⟨_, W.head_mem⟩]
  have hmem₄ : k.head ∈ k₄.list .inactivetasks := by
    show k.head ∈ (schedAddblocked k.head .inactive k₃).list .inactivetasks
    rw [addblocked_same_list rfl]
    exact List.mem_append_right _ (List.mem_singleton_self _)
  by_cases hlt₂ : (k.tcb k.next).lockcount + 1 < maxLockCount
  swap
  · rw [if_neg hlt₂]
    have hnone : schedLock false k₄ = none := by
      unfold schedLock
      rw [if_neg (by simp), hhead₄, hlc₄, if_neg hlt₂]
    unfold taskDelete
    rw [hpid₄, hhead₄, hpid₄, if_neg (by tauto), hnone]
    rfl
  rw [if_pos hlt₂]
  have hsome : schedLock false k₄ =
      some (k₄.modify k₄.head fun c => { c with lockcount := c.lockcount + 1 }) := by
    unfold schedLock
    rw [if_neg (by simp), if_pos]
    rw [hhead₄, hlc₄]
    exact hlt₂
  have hgh : ∀ u, (schedAddblocked k.head .inactive u).gPidhash = u.gPidhash :=
    fun u => (addblocked_sameTasks u k.head .inactive).gPidhash
  have hg₄ : schedGettcb cfg k₄.toTasks (k₄.tcb k.head).pid = k.head := by
    have hh : k₄.gPidhash = k.gPidhash := by
      show (schedAddblocked k.head .inactive k₃).gPidhash = _
      rw [hgh]
      exact T₁.gPidhash
    have he : schedGettcb cfg k₄.toTasks (k₄.tcb k.head).pid =
        schedGettcb cfg k.toTasks (k.tcb k.head).pid := by
      rw [hpid₄]
      unfold schedGettcb
      rw [hh]
    exact he.trans (P.gettcb W ⟨_, W.head_mem⟩)
  have hstate₄ : (k₄.tcb k.head).taskState = .inactive := addblocked_state trivial
  have hdel := taskDelete_eq W₄ hP₄ (by rw [hpid₄]; exact hpid0)
    (by rw [hhead₄, hpid₄, hpid₄]; exact hpidne) hsome hg₄ hmem₄
    (by rw [hhead₄]; exact Ne.symm hnh) (by rw [hstate₄]; decide)
  rw [hdel]
  show some (schedUnlock false (mergeIfPending
    ((schedReleasetcb cfg k.head (dropped k₄ k.head .inactivetasks)).setState k₁.head .running))) = _
  have hrel : (schedReleasetcb cfg k.head (dropped k₄ k.head .inactivetasks)).setState k₁.head
      .running = departed cfg k := by
    rw [hhead₁, releasetcb_setState]
    show schedReleasetcb cfg k.head ((dropped (schedAddblocked k.head .inactive k₃) k.head
      .inactivetasks).setState k.next .running) = _
    rw [hk₃, inactive_detour hnh]
    · rfl
    · exact hnot
    · show ((k₁.modify k.next _).tcb k.next).taskState = _
      rw [modify_tcb_same]
      exact hstate₁.1
    · show ((k₁.modify k.next _).tcb k.head).taskState = _
      rw [modify_tcb_of_ne (Ne.symm hnh)]
      exact hstate₁.2
  rw [hrel]

theorem Ok.departed (O : Ok k) (P : Pids cfg k) (hidle : k.head ≠ gIdletcb) :
    Ok (Sched.departed cfg k) ∧ Pids cfg (Sched.departed cfg k) ∧
      (Sched.departed cfg k).head = k.next := by
  have W := O.wf
  obtain ⟨-, hnext, hnh⟩ := W.tail_head hidle
  have W₁ := W.removereadytorun W.head_mem hidle
  have R₁ := O.running.removereadytorun W hidle
  have T₁ := removereadytorun_sameTasks k k.head
  have hhead₁ : (schedRemovereadytorun k.head k).1.head = k.next := by
    have h := head_eq (removereadytorun_head W hidle)
    rwa [if_pos rfl] at h
  have O₂ : Ok ((schedRemovereadytorun k.head k).1.modify k.next
      fun c => { c with lockcount := c.lockcount + 1 }) := by
    refine ⟨W₁.modify rfl rfl, ?_, ?_⟩
    · refine R₁.congr (show Kernel.ready (Kernel.modify _ _ _) = _ from rfl) fun u _ => ?_
      by_cases h : u = k.next
      · rw [h, modify_tcb_same]
      · rw [modify_tcb_of_ne h]
    · intro _
      show ((Kernel.modify _ _ _).tcb (schedRemovereadytorun k.head k).1.head).lockcount ≠ 0
      rw [hhead₁, modify_tcb_same]
      exact Nat.succ_ne_zero _
  refine ⟨releasetcb_ok O₂, ?_, ?_⟩
  · apply P.release ⟨_, W.head_mem⟩ hidle
    · intro u
      by_cases h : u = k.next
      · rw [h, modify_tcb_same]
        exact T₁.pid _
      · rw [modify_tcb_of_ne h]
        exact T₁.pid _
    · exact T₁.gPidhash
    · exact fun u => removereadytorun_listed W W.head_mem
  · unfold Sched.departed schedReleasetcb
    split <;> exact hhead₁

theorem Ok.deletecurrent (O : Ok k) (P : Pids cfg k) (hidle : k.head ≠ gIdletcb) {k' : Kernel}
    (h : taskDeletecurrent cfg k = some k') : Ok k' ∧ Pids cfg k' := by
  rw [taskDeletecurrent_eq O P hidle] at h
  split at h
  · cases h
    obtain ⟨O₁, P₁, -⟩ := O.departed P hidle
    obtain ⟨W₂, R₂, hp, T₂, B₂, L₂⟩ := mergeIfPending_eq O₁.wf O₁.running
    have O₂ : Ok (mergeIfPending (Sched.departed cfg k)) := ⟨W₂, R₂, parked_of_nil hp⟩
    obtain ⟨O₃, S₃⟩ := O₂.unlock false
    exact ⟨O₃, (P₁.congr (fun u _ => T₂.pid u) T₂.gPidhash L₂).stays S₃⟩
  · cases h

end

section

variable {cfg : Config} {k : Kernel} {t u : Nat}

theorem nextPid_pos (pid : Nat) : 0 < nextPid pid := by
  unfold nextPid
  split <;> omega

theorem assignTries_eq (cfg : Config) (t n : Nat) (k : Kernel) :
    ∃ last, assignTries cfg t n k = ({ k with gLastpid := last }, false) ∨
      ∃ pid, 0 < pid ∧ (k.gPidhash (pidhash cfg pid)).tcb = 0 ∧
        assignTries cfg t n k =
          (({ k with
              gLastpid := last
              gPidhash := update k.gPidhash (pidhash cfg pid) ⟨t, pid⟩ } : Kernel).modify t
            fun c => { c with pid := pid }, true) := by
  induction n generalizing k with
  | zero => exact ⟨k.gLastpid, .inl rfl⟩
  | succ n ih =>
    unfold assignTries
    dsimp only
    by_cases h : (k.gPidhash (pidhash cfg (nextPid k.gLastpid))).tcb = 0
    · rw [if_pos h]
      exact ⟨_, .inr ⟨_, nextPid_pos _, h, rfl⟩⟩
    · rw [if_neg h]
      exact ih { k with gLastpid := nextPid k.gLastpid }

theorem Ok.table (O : Ok k) (last : Nat) (hash : Nat → Pidhash) :
    Ok { k with gLastpid := last, gPidhash := hash } :=
  ⟨⟨O.wf.nodup, O.wf.state, O.wf.sorted, O.wf.nonzero, O.wf.idle, O.wf.idlePrio, O.wf.prio⟩,
    O.running, O.parked⟩

theorem Ok.inactive (O : Ok k) (ht : ¬ Listed k t) (h0 : t ≠ 0)
    (hp : schedPriorityMin ≤ k.prio t ∧ k.prio t ≤ schedPriorityMax) :
    Ok ((k.setList .inactivetasks (t :: k.list .inactivetasks)).setState t .inactive) := by
  have hready : (k.setList .inactivetasks (t :: k.list .inactivetasks)).list .readytorun = k.ready :=
    setList_list_of_ne (by decide)
  have hpend : (k.setList .inactivetasks (t :: k.list .inactivetasks)).list .pendingtasks =
      k.pending := setList_list_of_ne (by decide)
  have hne : ∀ u ∈ k.ready, u ≠ t := fun u hu he => ht ⟨_, he ▸ hu⟩
  refine ⟨?_, ?_, fun h => ?_⟩
  · exact O.wf.insert ht h0 hp rfl (.refl _) (fun h => by cases h) (fun h => by cases h)
  · refine O.running.congr hready fun u hu => ?_
    rw [setState_tcb_of_ne (hne u hu)]
    rfl
  · have hhead : ((k.setList .inactivetasks (t :: k.list .inactivetasks)).setState t
        .inactive).head = k.head := by
      rw [setState_head]
      unfold Kernel.head Kernel.ready
      rw [hready]
    rw [hhead, setState_tcb_of_ne (hne _ O.wf.head_mem)]
    apply O.parked
    intro hn
    exact h (hpend.trans hn)

/-- The steps of `task_create`: a process id is assigned under a lock, and the task is made inactive
under another one if there was a free one. -/
theorem taskCreate_steps {p : Nat} {k' : Kernel} (h : taskCreate cfg t p k = some k') :
    ∃ k₁ r, schedLock false (k.modify t fun _ => Tcb.zero) = some k₁ ∧
      r = schedUnlock false (assignTries cfg t cfg.maxTasks k₁).1 ∧
      (((assignTries cfg t cfg.maxTasks k₁).2 = true ∧
        ∃ k₅, schedLock false (r.modify t fun c =>
            { c with initPriority := p, schedPriority := p, basePriority := p }) = some k₅ ∧
          schedUnlock false
            ((k₅.setList .inactivetasks (t :: k₅.list .inactivetasks)).setState t .inactive) = k') ∨
      ((assignTries cfg t cfg.maxTasks k₁).2 = false ∧ r = k')) := by
  have h₁ : (taskAssignpid cfg t (k.modify t fun _ => Tcb.zero)).bind (fun r => if r.2 = true then
      (schedLock false (r.1.modify t fun c =>
        { c with initPriority := p, schedPriority := p, basePriority := p })).bind fun k =>
        some (schedUnlock false
          ((k.setList .inactivetasks (t :: k.list .inactivetasks)).setState t .inactive))
      else some r.1) = some k' := h
  obtain ⟨r, hr, h₂⟩ := Option.bind_eq_some_iff.mp h₁
  obtain ⟨k₁, hk₁, hr₂⟩ := Option.bind_eq_some_iff.mp hr
  cases hr₂
  refine ⟨k₁, _, hk₁, rfl, ?_⟩
  by_cases hb : (assignTries cfg t cfg.maxTasks k₁).2 = true
  · rw [if_pos hb] at h₂
    obtain ⟨k₅, hk₅, h₃⟩ := Option.bind_eq_some_iff.mp h₂
    exact .inl ⟨hb, k₅, hk₅, Option.some.inj h₃⟩
  · rw [if_neg hb] at h₂
    exact .inr ⟨Bool.eq_false_iff.mpr hb, Option.some.inj h₂⟩

theorem Ok.create (O : Ok k) (P : Pids cfg k) (h0 : t ≠ 0) (ht : ¬ Listed k t) {p : Nat}
    (hp : schedPriorityMin ≤ p ∧ p ≤ schedPriorityMax) {k' : Kernel}
    (h : taskCreate cfg t p k = some k') :
    Ok k' ∧ Pids cfg k' ∧ ∀ u, Listed k' u → u = t ∨ Listed k u := by
  have hne : ∀ u, Listed k u → u ≠ t := fun u hu he => ht (he ▸ hu)
  let k₀ := k.modify t fun _ => Tcb.zero
  have O₀ : Ok k₀ := O.modify_unlisted ht
  have htcb₀ : ∀ u, u ≠ t → k₀.tcb u = k.tcb u := fun u hu => modify_tcb_of_ne hu
  obtain ⟨k₁, r, hk₁, hr, h₂⟩ := taskCreate_steps h
  subst hr
  obtain ⟨O₁, S₁, hl₁⟩ := O₀.lock hk₁
  have hpid₁ : ∀ u, Listed k u → (k₁.tcb u).pid = (k.tcb u).pid := by
    intro u hu
    rw [S₁.keeps.pid, htcb₀ u (hne u hu)]
  have hL₁ : ∀ u, Listed k₁ u ↔ Listed k u := S₁.listed
  have hnot₁ : ¬ Listed k₁ t := fun hc => ht ((hL₁ t).mp hc)
  obtain ⟨last, hfail | ⟨pid, hpos, hslot, hok⟩⟩ := assignTries_eq cfg t cfg.maxTasks k₁
  · -- no slot was free
    rw [hfail] at h₂
    obtain ⟨hb, -⟩ | ⟨-, rfl⟩ := h₂
    · cases hb
    obtain ⟨O₂, S₂⟩ := (O₁.table last k₁.gPidhash).unlock false
    have P₁ : Pids cfg { k₁ with gLastpid := last } :=
      P.congr hpid₁ (S₁.keeps.gPidhash) hL₁
    exact ⟨O₂, P₁.stays S₂, fun u hu => .inr ((hL₁ u).mp ((S₂.listed u).mp hu))⟩
  · rw [hok] at h₂
    let k₂ : Kernel := ({ k₁ with
      gLastpid := last
      gPidhash := update k₁.gPidhash (pidhash cfg pid) ⟨t, pid⟩ } : Kernel).modify t
        fun c => { c with pid := pid }
    have O₂ : Ok k₂ := (O₁.table last _).modify_unlisted hnot₁
    obtain ⟨O₃, S₃⟩ := O₂.unlock false
    let k₄ := (schedUnlock false k₂).modify t fun c =>
      { c with initPriority := p, schedPriority := p, basePriority := p }
    have hL₃ : ∀ u, Listed (schedUnlock false k₂) u ↔ Listed k u :=
      fun u => (S₃.listed u).trans (hL₁ u)
    have hnot₃ : ¬ Listed (schedUnlock false k₂) t := fun hc => ht ((hL₃ t).mp hc)
    have O₄ : Ok k₄ := O₃.modify_unlisted hnot₃
    obtain ⟨-, k₅, hk₅, hk'⟩ | ⟨hb, -⟩ := h₂
    swap
    · cases hb
    obtain ⟨O₅, S₅, hl₅⟩ := O₄.lock hk₅
    have hL₅ : ∀ u, Listed k₅ u ↔ Listed k u := fun u => (S₅.listed u).trans (hL₃ u)
    have hp₅ : k₅.prio t = p := by
      rw [S₅.keeps.prio]
      show (((schedUnlock false k₂).modify t _).tcb t).schedPriority = p
      rw [modify_tcb_same]
    have O₆ := O₅.inactive (fun hc => ht ((hL₅ t).mp hc)) h0 (by rw [hp₅]; exact hp)
    obtain ⟨O₇, S₇⟩ := O₆.unlock false
    have hhash₅ : k₅.gPidhash = update k.gPidhash (pidhash cfg pid) ⟨t, pid⟩ := by
      rw [S₅.keeps.gPidhash]
      show (schedUnlock false k₂).gPidhash = _
      rw [S₃.keeps.gPidhash]
      show update k₁.gPidhash _ _ = _
      rw [S₁.keeps.gPidhash]
      rfl
    have hpid₅ : ∀ u, u ≠ t → (k₅.tcb u).pid = (k.tcb u).pid := by
      intro u hu
      rw [S₅.keeps.pid]
      show (((schedUnlock false k₂).modify t _).tcb u).pid = _
      rw [modify_tcb_of_ne hu, S₃.keeps.pid]
      show ((Kernel.modify _ t _).tcb u).pid = _
      rw [modify_tcb_of_ne hu]
      show (k₁.tcb u).pid = _
      rw [S₁.keeps.pid, htcb₀ u hu]
    have hpidt : (k₅.tcb t).pid = pid := by
      rw [S₅.keeps.pid]
      show (((schedUnlock false k₂).modify t _).tcb t).pid = _
      rw [modify_tcb_same, S₃.keeps.pid]
      show ((Kernel.modify _ t _).tcb t).pid = _
      rw [modify_tcb_same]
    have hslot' : (k.gPidhash (pidhash cfg pid)).tcb = 0 := by
      rw [S₁.keeps.gPidhash] at hslot
      exact hslot
    have hpid₆ : ∀ u, (((k₅.setList .inactivetasks (t :: k₅.list .inactivetasks)).setState t
        .inactive).tcb u).pid = (k₅.tcb u).pid := (sameTasks_setList.trans sameTasks_setState).pid
    have hL₆ : ∀ u, Listed ((k₅.setList .inactivetasks (t :: k₅.list .inactivetasks)).setState t
        .inactive) u ↔ u = t ∨ Listed k u := by
      intro u
      rw [← hL₅ u]
      exact listed_insert rfl fun _ => List.mem_cons
    rw [← hk']
    refine ⟨O₇, Pids.stays ?_ S₇, fun u hu => (hL₆ u).mp ((S₇.listed u).mp hu)⟩
    constructor
    · intro i hi
      rw [hL₆, hpid₆]
      show (_ = t ∨ _) ∧ (k₅.tcb (k₅.gPidhash i).tcb).pid = (k₅.gPidhash i).pid ∧
        pidhash cfg (k₅.gPidhash i).pid = i
      have hi' : (k₅.gPidhash i).tcb ≠ 0 := hi
      show ((k₅.gPidhash i).tcb = t ∨ Listed k (k₅.gPidhash i).tcb) ∧ _
      rw [hhash₅] at hi' ⊢
      by_cases he : i = pidhash cfg pid
      · subst he
        rw [update_self]
        exact ⟨.inl rfl, hpidt, rfl⟩
      · rw [update_of_ne he] at hi' ⊢
        have hs := P.slot i hi'
        rw [hpid₅ _ (hne _ hs.1)]
        exact ⟨.inr hs.1, hs.2⟩
    · intro u hu
      rw [hpid₆]
      show (k₅.gPidhash (pidhash cfg (k₅.tcb u).pid)).tcb = u
      rcases (hL₆ u).mp hu with rfl | hu
      · rw [hpidt, hhash₅, update_self]
      · rw [hpid₅ u (hne u hu), hhash₅, update_of_ne]
        · exact P.listed u hu
        · intro he
          have hz := P.listed u hu
          rw [he, hslot'] at hz
          obtain ⟨j, hj⟩ := hu
          exact O.wf.nonzero j (hz ▸ hj)
    · intro u hu
      rw [hpid₆]
      rcases (hL₆ u).mp hu with rfl | hu
      · rw [hpidt]
        constructor
        · omega
        · intro he
          exact absurd ⟨_, he ▸ O.wf.idle_mem⟩ ht
      · rw [hpid₅ u (hne u hu)]
        exact P.idle u hu

end

end NuttxAvr32.Sched
