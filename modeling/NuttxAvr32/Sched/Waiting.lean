import NuttxAvr32.Sched.Runs

/-! # The lists of waiting tasks

A call of the scheduler keeps a list of waiting tasks, up to their order, unless it
blocks a task in that list or takes one out of it by its name.
-/

namespace NuttxAvr32.Sched

def TaskList.Waits : TaskList → Prop
  | .waitingforsemaphore | .waitingforsignal | .waitingformqnotempty | .waitingformqnotfull => True
  | _ => False

/-- The call does not block a task in the list, unblock one that is in it, or delete it. -/
def Op.spares (cfg : Config) (k : Kernel) (j : TaskList) : Op → Prop
  | .block _ s => s.list ≠ some j
  | .unblock t => (k.tcb t).taskState.list ≠ some j
  | .delete _ pid => (k.tcb (schedGettcb cfg k.toTasks pid)).taskState.list ≠ some j
  | _ => True

section

variable {cfg : Config} {k k' : Kernel} {j : TaskList} {t p : Nat} {irq : Bool}

theorem TaskList.Waits.blocked (h : j.Waits) :
    j ≠ .readytorun ∧ j ≠ .pendingtasks ∧ j ≠ .inactivetasks := by
  cases j <;> first | exact h.elim | decide

theorem unlock_list (h : j.Waits) : (schedUnlock irq k).list j = k.list j := by
  unfold schedUnlock
  split
  · rfl
  · dsimp only
    split
    · exact mergepending_list_other h.blocked.1 h.blocked.2.1
    · rfl

theorem lock_list (h : schedLock irq k = some k') : k'.list = k.list := by
  rw [schedLock_eq h]
  split <;> rfl

theorem assignTries_list (n : Nat) : (assignTries cfg t n k).1.list = k.list := by
  obtain ⟨last, hfail | ⟨pid, -, -, hok⟩⟩ := assignTries_eq cfg t n k
  · rw [hfail]
  · rw [hok]
    rfl

theorem create_list (hj : j.Waits) (h : taskCreate cfg t p k = some k') :
    k'.list j = k.list j := by
  obtain ⟨k₁, r, hk₁, hr, h₂⟩ := taskCreate_steps h
  have hfirst : r.list j = k.list j := by
    rw [hr, unlock_list hj, assignTries_list, lock_list hk₁]
    rfl
  rcases h₂ with ⟨-, k₅, hk₅, rfl⟩ | ⟨-, rfl⟩
  · rw [unlock_list hj]
    show (k₅.setList .inactivetasks _).list j = _
    rw [setList_list_of_ne hj.blocked.2.2, lock_list hk₅]
    exact hfirst
  · exact hfirst

theorem departed_list (hj : j.Waits) : (departed cfg k).list j = k.list j := by
  have hl : (departed cfg k).list = (schedRemovereadytorun k.head k).1.list := by
    unfold departed schedReleasetcb
    split <;> rfl
  rw [hl, removereadytorun_list]
  exact setList_list_of_ne hj.blocked.1

theorem mergeIfPending_list (hj : j.Waits) : (mergeIfPending k).list j = k.list j := by
  unfold mergeIfPending
  split
  · exact mergepending_list_other hj.blocked.1 hj.blocked.2.1
  · rfl

theorem setErrno_list (e : Errno) : (setErrno irq e k).list = k.list := by
  unfold setErrno
  split <;> rfl

theorem Inv.spares {i : Op} (I : Inv cfg k) (hv : i.valid cfg k.toTasks k.head) (hj : j.Waits)
    (hs : i.spares cfg k j) (h : i.exec cfg k = some k') : (k'.list j).Perm (k.list j) := by
  have I' : Inv cfg k' := I.step hv h
  have hb := hj.blocked
  cases i with
  | create tcb priority => rw [create_list hj h]
  | activate tcb =>
    obtain ⟨i, hi, hr, hp⟩ := I.live_blocked hv.1 (by rw [hv.2]; trivial)
    have hst := I.ok.wf.state i tcb hi
    rw [hv.2] at hst
    have hij : j ≠ i := by
      rw [← Option.some.inj hst]
      exact hb.2.2
    obtain ⟨k₁, h₁, -, -, -, B, -⟩ := I.ok.unblock cfg hi hr hp
    cases h₁.symm.trans h
    rw [B j hij hb.1 hb.2.1]
  | block tcb s =>
    obtain ⟨hl, hidle, hr, hsb⟩ := hv
    obtain ⟨i, hi⟩ := blocked_list hsb
    have hij : j ≠ i := fun he => hs (he ▸ hi)
    obtain ⟨k₁, h₁, -, -, -, -, B, -⟩ := I.ok.block (I.live_ready hl hr) hidle hsb hi
    cases h₁.symm.trans h
    rw [B j hij hb.1 hb.2.1]
  | unblock tcb =>
    obtain ⟨i, hi, hr, hp⟩ := I.live_blocked hv.1 hv.2
    have hst := I.ok.wf.state i tcb hi
    have hij : j ≠ i := fun he => hs (he ▸ hst)
    obtain ⟨k₁, h₁, -, -, -, B, -⟩ := I.ok.unblock cfg hi hr hp
    cases h₁.symm.trans h
    rw [B j hij hb.1 hb.2.1]
  | setpriority irq tcb priority =>
    obtain ⟨r, hr, hk⟩ := Option.map_eq_some_iff.mp h
    by_cases hp : schedPriorityMin ≤ priority ∧ priority ≤ schedPriorityMax
    · obtain ⟨k₁, h₁, O, S, B, L⟩ := I.ok.setpriority irq (I.live_iff.mp hv.1) hv.2 hp
      cases h₁.symm.trans hr
      cases hk
      apply (List.perm_ext_iff_of_nodup (I'.ok.wf.nodup j) (I.ok.wf.nodup j)).mpr
      intro u
      rw [B j hb.1 hb.2.1, mem_retuned]
    · unfold schedSetpriority at hr
      rw [if_pos (by omega)] at hr
      rw [← hk, ← Option.some.inj hr, setErrno_list]
  | lock irq => rw [lock_list h]
  | unlock irq =>
    rw [← Option.some.inj h, unlock_list hj]
  | releasePending =>
    rw [← Option.some.inj h]
    show ((schedMergepending k).1.list j).Perm _
    rw [mergepending_list_other hb.1 hb.2.1]
  | timeslice =>
    obtain ⟨k₁, h₁, -, S, -⟩ := I.ok.timeslice cfg
    cases h₁.symm.trans h
    rw [S.blocked j hb.1 hb.2.1]
  | delete irq pid =>
    rcases I.ok.delete I.pids hv.1 hv.2 h with rfl | ⟨t, i, ht, hpid, hne, -, he, -, -⟩
    · exact .refl _
    · have hg : schedGettcb cfg k.toTasks pid = t := by
        rw [← hpid]
        exact I.pids.gettcb I.ok.wf ⟨i, ht⟩
      have hst := I.ok.wf.state i t ht
      have hij : j ≠ i := by
        intro hji
        apply hs
        rw [hg, hst, hji]
      have hl : (schedReleasetcb cfg t (Sched.dropped k t i)).list = (Sched.dropped k t i).list := by
        unfold schedReleasetcb
        split <;> rfl
      rw [he, hl]
      show ((k.setList i ((k.list i).erase t)).list j).Perm _
      rw [setList_list_of_ne hij]
  | deletecurrent =>
    have hd : taskDeletecurrent cfg k = some k' := h
    rw [taskDeletecurrent_eq I.ok I.pids hv] at hd
    split at hd
    · rw [← Option.some.inj hd, unlock_list hj, mergeIfPending_list hj, departed_list hj]
    · cases hd

theorem releasetcb_listed {u : Nat} : Listed (schedReleasetcb cfg t k) u ↔ Listed k u := by
  unfold schedReleasetcb
  split <;> rfl

theorem departed_listed {u : Nat} (O : Ok k) (h : Listed (departed cfg k) u) : Listed k u := by
  have hl : (departed cfg k).list = (schedRemovereadytorun k.head k).1.list := by
    unfold departed schedReleasetcb
    split <;> rfl
  unfold Listed at h
  rw [hl] at h
  exact ((removereadytorun_listed O.wf O.wf.head_mem).mp h).2

theorem Inv.listed {i : Op} (I : Inv cfg k) (hv : i.valid cfg k.toTasks k.head)
    (h : i.exec cfg k = some k') (u : Nat) (hu : Listed k' u) :
    Listed k u ∨ ∃ p, i = .create u p := by
  cases i with
  | create tcb priority =>
    obtain ⟨h0, hl, hp⟩ := hv
    have ht : ¬ Listed k tcb := fun hc => hl (I.live_iff.mpr hc)
    obtain ⟨-, -, hL⟩ := I.ok.create I.pids h0 ht hp h
    rcases hL u hu with rfl | h'
    · exact .inr ⟨priority, rfl⟩
    · exact .inl h'
  | activate tcb =>
    obtain ⟨i, hi, hr, hp⟩ := I.live_blocked hv.1 (by rw [hv.2]; trivial)
    obtain ⟨k₁, h₁, -, -, -, -, L, -⟩ := I.ok.unblock cfg hi hr hp
    cases h₁.symm.trans h
    exact .inl ((L u).mp hu)
  | block tcb s =>
    obtain ⟨hl, hidle, hr, hs⟩ := hv
    obtain ⟨i, hi⟩ := blocked_list hs
    obtain ⟨k₁, h₁, -, -, -, -, -, L⟩ := I.ok.block (I.live_ready hl hr) hidle hs hi
    cases h₁.symm.trans h
    exact .inl ((L u).mp hu)
  | unblock tcb =>
    obtain ⟨i, hi, hr, hp⟩ := I.live_blocked hv.1 hv.2
    obtain ⟨k₁, h₁, -, -, -, -, L, -⟩ := I.ok.unblock cfg hi hr hp
    cases h₁.symm.trans h
    exact .inl ((L u).mp hu)
  | setpriority irq tcb priority =>
    obtain ⟨r, hr, hk⟩ := Option.map_eq_some_iff.mp h
    by_cases hp : schedPriorityMin ≤ priority ∧ priority ≤ schedPriorityMax
    · obtain ⟨k₁, h₁, -, -, -, L⟩ := I.ok.setpriority irq (I.live_iff.mp hv.1) hv.2 hp
      cases h₁.symm.trans hr
      cases hk
      exact .inl ((L u).mp hu)
    · unfold schedSetpriority at hr
      rw [if_pos (by omega)] at hr
      rw [← hk, ← Option.some.inj hr] at hu
      unfold Listed at hu
      rw [setErrno_list] at hu
      exact .inl hu
  | lock irq =>
    have hu' := hu
    unfold Listed at hu'
    rw [lock_list h] at hu'
    exact .inl hu'
  | unlock irq =>
    cases h
    exact .inl (((I.ok.unlock irq).2.listed u).mp hu)
  | releasePending =>
    cases h
    exact .inl ((I.ok.releasePending.2.2.2 u).mp hu)
  | timeslice =>
    obtain ⟨k₁, h₁, -, S, -⟩ := I.ok.timeslice cfg
    cases h₁.symm.trans h
    exact .inl ((S.listed u).mp hu)
  | delete irq pid =>
    rcases I.ok.delete I.pids hv.1 hv.2 h with rfl | ⟨t, i, ht, -, -, -, he, -, -⟩
    · exact .inl hu
    · rw [he] at hu
      exact .inl ((dropped_listed I.ok.wf ht).mp (releasetcb_listed.mp hu)).2
  | deletecurrent =>
    have hd : taskDeletecurrent cfg k = some k' := h
    rw [taskDeletecurrent_eq I.ok I.pids hv] at hd
    split at hd
    · rw [← Option.some.inj hd] at hu
      obtain ⟨O₁, -, -⟩ := I.ok.departed I.pids hv
      obtain ⟨W₂, R₂, hp, -, -, L₂⟩ := mergeIfPending_eq O₁.wf O₁.running
      have O₂ : Ok (mergeIfPending (departed cfg k)) := ⟨W₂, R₂, parked_of_nil hp⟩
      exact .inl (departed_listed I.ok ((L₂ u).mp (((O₂.unlock false).2.listed u).mp hu)))
    · cases hd

end

end NuttxAvr32.Sched
