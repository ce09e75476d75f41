import NuttxAvr32.Sched.Runs

/-! # Who holds the preemption lock

`sched_lock` and `sched_unlock` act on whatever task is at the head of
`g_readytorun`. The machine counts beside the kernel how often each task has called
them for itself. The calls come in pairs inside the other functions, and a pair
leaves no trace as long as the head stays the same between its two calls.
-/

namespace NuttxAvr32.Sched

open Runs
open Function (update update_self update_of_ne)

/-- The kernel, and the locks that each task has taken and not given back. -/
structure Owned where
  kernel : Kernel
  locks : Nat → Nat

def Op.locks (i : Op) (s : Owned) : Nat → Nat :=
  match i with
  | .lock false => update s.locks s.kernel.head (s.locks s.kernel.head + 1)
  | .unlock false => update s.locks s.kernel.head (s.locks s.kernel.head - 1)
  | .create tcb _ => update s.locks tcb 0
  | _ => s.locks

def ownerMachine (cfg : Config) : Machine Owned Op where
  valid s i := i.valid cfg s.kernel.toTasks s.kernel.head
  exec s i := (i.exec cfg s.kernel).map fun k => ⟨k, i.locks s⟩

instance (cfg : Config) (s : Owned) (i : Op) : Decidable ((ownerMachine cfg).valid s i) :=
  inferInstanceAs (Decidable (i.valid cfg s.kernel.toTasks s.kernel.head))

def ownedStart (cfg : Config) : Owned := ⟨osStart cfg, fun _ => 0⟩

/-- No task is pending above the one that runs next when the running task exits. -/
def Op.exitsQuietly (i : Op) (s : Owned) : Prop :=
  i = .deletecurrent → ∀ t ∈ s.kernel.pending.head?, s.kernel.prio t ≤ s.kernel.prio s.kernel.next

instance (i : Op) (s : Owned) : Decidable (i.exitsQuietly s) := by
  unfold Op.exitsQuietly
  infer_instance

def LocksOwned (cfg : Config) (s : Owned) : Prop :=
  ∀ t, Live cfg s.kernel.toTasks t → (s.kernel.tcb t).lockcount = s.locks t

section

variable {cfg : Config} {k k' : Kernel} {t u : Nat}

theorem unlock_locks (k : Kernel) (u : Nat) : ((schedUnlock false k).tcb u).lockcount =
    if u = k.head then (k.tcb u).lockcount - 1 else (k.tcb u).lockcount := by
  have hmod : ((k.modify k.head fun c => { c with lockcount := c.lockcount - 1 }).tcb u).lockcount =
      if u = k.head then (k.tcb u).lockcount - 1 else (k.tcb u).lockcount := by
    by_cases h : u = k.head
    · subst h
      rw [modify_tcb_same, if_pos rfl]
    · rw [modify_tcb_of_ne h, if_neg h]
  unfold schedUnlock
  rw [if_neg (by simp)]
  dsimp only
  split
  · exact ((mergepending_sameTasks _).lockcount u).trans hmod
  · exact hmod

theorem lock_locks (h : schedLock false k = some k') (u : Nat) : (k'.tcb u).lockcount =
    if u = k.head then (k.tcb u).lockcount + 1 else (k.tcb u).lockcount := by
  rw [schedLock_eq h, if_neg (by simp)]
  by_cases hu : u = k.head
  · subst hu
    rw [modify_tcb_same, if_pos rfl]
  · rw [modify_tcb_of_ne hu, if_neg hu]

theorem lock_head {irq : Bool} (h : schedLock irq k = some k') : k'.head = k.head := by
  rw [schedLock_eq h]
  split <;> rfl

theorem pair_locks {a b : Kernel} (h : schedLock false k = some a) (hh : b.head = k.head)
    (hu : (b.tcb u).lockcount = (a.tcb u).lockcount) :
    ((schedUnlock false b).tcb u).lockcount = (k.tcb u).lockcount := by
  rw [unlock_locks, hu, hh, lock_locks h]
  split <;> rfl

theorem assignTries_locks (cfg : Config) (t n : Nat) (k : Kernel) :
    (assignTries cfg t n k).1.head = k.head ∧ SameLocks k (assignTries cfg t n k).1 := by
  obtain ⟨last, hfail | ⟨pid, -, -, hok⟩⟩ := assignTries_eq cfg t n k
  · rw [hfail]
    exact ⟨rfl, fun _ => rfl⟩
  · rw [hok]
    exact ⟨rfl, sameLocks_modify rfl⟩

theorem create_locks {p : Nat} (h : taskCreate cfg t p k = some k') :
    (∀ u, u ≠ t → (k'.tcb u).lockcount = (k.tcb u).lockcount) ∧ (k'.tcb t).lockcount = 0 := by
  let k₀ := k.modify t fun _ => Tcb.zero
  obtain ⟨k₁, r, hk₁, hr, h₂⟩ := taskCreate_steps h
  have hassign := assignTries_locks cfg t cfg.maxTasks k₁
  have hfirst : ∀ u, (r.tcb u).lockcount = (k₀.tcb u).lockcount := by
    intro u
    rw [hr]
    exact pair_locks hk₁ (hassign.1.trans (lock_head hk₁)) (hassign.2 u)
  have hall : ∀ u, (k'.tcb u).lockcount = (k₀.tcb u).lockcount := by
    intro u
    rcases h₂ with ⟨-, k₅, hk₅, rfl⟩ | ⟨-, rfl⟩
    · rw [← hfirst u]
      have hmod : SameLocks r (r.modify t fun c =>
          { c with initPriority := p, schedPriority := p, basePriority := p }) := sameLocks_modify rfl
      rw [← hmod u]
      apply pair_locks hk₅
      · rw [setState_head, ← lock_head hk₅]
        unfold Kernel.head Kernel.ready
        rw [setList_list_of_ne (by decide)]
      · exact (sameTasks_setList.trans sameTasks_setState).lockcount u
    · exact hfirst u
  constructor
  · intro u hu
    rw [hall u]
    show ((k.modify t _).tcb u).lockcount = _
    rw [modify_tcb_of_ne hu]
  · rw [hall t]
    show ((k.modify t _).tcb t).lockcount = _
    rw [modify_tcb_same]
    rfl

theorem releasetcb_locks : SameLocks k (schedReleasetcb cfg t k) := by
  unfold schedReleasetcb
  split <;> exact fun _ => rfl

theorem departed_merged_head (O : Ok k) (P : Pids cfg k) (hidle : k.head ≠ gIdletcb)
    (hq : ∀ t ∈ k.pending.head?, k.prio t ≤ k.prio k.next) :
    (mergeIfPending (departed cfg k)).head = k.next := by
  obtain ⟨O₁, -, hhead⟩ := O.departed P hidle
  unfold mergeIfPending
  split
  swap
  · exact hhead
  have hpend : (departed cfg k).pending = k.pending := by
    have hl : (departed cfg k).list = (schedRemovereadytorun k.head k).1.list := by
      unfold departed schedReleasetcb
      split <;> rfl
    show (departed cfg k).list .pendingtasks = _
    rw [hl, removereadytorun_list]
    exact setList_list_of_ne (by decide)
  have hprio : ∀ u, (departed cfg k).prio u = k.prio u := by
    intro u
    have hT := (removereadytorun_sameTasks k k.head).prio
    have hd : (departed cfg k).prio u = ((schedRemovereadytorun k.head k).1.modify k.next
        fun c => { c with lockcount := c.lockcount + 1 }).prio u := by
      unfold departed schedReleasetcb
      split <;> rfl
    rw [hd, ← congrFun hT u]
    show ((Kernel.modify _ _ _).tcb u).schedPriority = _
    by_cases hu : u = k.next
    · rw [hu, modify_tcb_same]
    · rw [modify_tcb_of_ne hu]
  apply head_eq
  rw [mergepending_ready, O₁.wf.merged_head, hpend, hhead]
  cases hx : k.pending.head? with
  | none => rfl
  | some x =>
    dsimp only
    rw [hprio, hprio, if_neg]
    have := hq x hx
    omega

theorem departed_locks (u : Nat) : ((departed cfg k).tcb u).lockcount =
    if u = k.next then (k.tcb u).lockcount + 1 else (k.tcb u).lockcount := by
  have hT := (removereadytorun_sameTasks k k.head).lockcount u
  unfold departed
  rw [releasetcb_locks]
  by_cases hu : u = k.next
  · subst hu
    rw [modify_tcb_same, if_pos rfl]
    dsimp only
    rw [hT]
  · rw [modify_tcb_of_ne hu, if_neg hu, hT]

end

structure OwnedInv (cfg : Config) (s : Owned) : Prop where
  inv : Inv cfg s.kernel
  owned : LocksOwned cfg s

theorem OwnedInv.step {cfg : Config} {s s' : Owned} {i : Op} (I : OwnedInv cfg s)
    (hv : i.valid cfg s.kernel.toTasks s.kernel.head) (hq : i.exitsQuietly s)
    (h : (ownerMachine cfg).exec s i = some s') : OwnedInv cfg s' := by
  obtain ⟨k', hk', rfl⟩ := Option.map_eq_some_iff.mp h
  have I' : Inv cfg k' := I.inv.step hv hk'
  have hO := I.inv.ok
  -- live tasks stay live unless they are created
  have hsame : i.locks s = s.locks → SameLocks s.kernel k' →
      (∀ u, Listed k' u → Listed s.kernel u) → OwnedInv cfg ⟨k', i.locks s⟩ := by
    intro hl hs hL
    refine ⟨I', fun t ht => ?_⟩
    show (k'.tcb t).lockcount = i.locks s t
    rw [hl, hs t]
    exact I.owned t (I.inv.live_iff.mpr (hL t (I'.live_iff.mp ht)))
  cases i with
  | create tcb priority =>
    obtain ⟨h0, hl, hp⟩ := hv
    have ht : ¬ Listed s.kernel tcb := fun hc => hl (I.inv.live_iff.mpr hc)
    obtain ⟨hother, hnew⟩ := create_locks hk'
    refine ⟨I', fun t ht' => ?_⟩
    show (k'.tcb t).lockcount = update s.locks tcb 0 t
    by_cases he : t = tcb
    · subst he
      rw [update_self, hnew]
    · rw [update_of_ne he, hother t he]
      apply I.owned
      obtain ⟨-, -, hL⟩ := hO.create I.inv.pids h0 ht hp hk'
      exact I.inv.live_iff.mpr ((hL t (I'.live_iff.mp ht')).resolve_left he)
  | activate tcb =>
    obtain ⟨i, hi, hr, hp⟩ := I.inv.live_blocked hv.1 (by rw [hv.2]; trivial)
    obtain ⟨k₁, h₁, -, -, -, -, L, S⟩ := hO.unblock cfg hi hr hp
    cases h₁.symm.trans hk'
    exact hsame rfl S fun u => (L u).mp
  | block tcb st =>
    obtain ⟨hl, hidle, hr, hs⟩ := hv
    obtain ⟨i, hi⟩ := blocked_list hs
    obtain ⟨k₁, h₁, -, T, -, -, -, L⟩ := hO.block (I.inv.live_ready hl hr) hidle hs hi
    cases h₁.symm.trans hk'
    exact hsame rfl T.sameLocks fun u => (L u).mp
  | unblock tcb =>
    obtain ⟨i, hi, hr, hp⟩ := I.inv.live_blocked hv.1 hv.2
    obtain ⟨k₁, h₁, -, -, -, -, L, S⟩ := hO.unblock cfg hi hr hp
    cases h₁.symm.trans hk'
    exact hsame rfl S fun u => (L u).mp
  | setpriority irq tcb priority =>
    obtain ⟨hl, hidle⟩ := hv
    obtain ⟨r, hr, hkr⟩ := Option.map_eq_some_iff.mp hk'
    by_cases hp : schedPriorityMin ≤ priority ∧ priority ≤ schedPriorityMax
    · obtain ⟨k₁, h₁, -, S, -, L⟩ := hO.setpriority irq (I.inv.live_iff.mp hl) hidle hp
      cases h₁.symm.trans hr
      cases hkr
      exact hsame rfl S.lockcount fun u => (L u).mp
    · unfold schedSetpriority at hr
      rw [if_pos (by omega)] at hr
      cases hr
      subst hkr
      refine hsame rfl ?_ ?_
      · show SameLocks s.kernel (setErrno irq .einval s.kernel)
        unfold setErrno
        split
        · exact sameLocks_modify rfl
        · exact fun _ => rfl
      · intro u hu
        have hu' : Listed (setErrno irq .einval s.kernel) u := hu
        unfold setErrno at hu'
        split at hu' <;> exact hu'
  | lock irq =>
    obtain ⟨-, S, -⟩ := hO.lock hk'
    cases irq with
    | true =>
      have he := schedLock_eq hk'
      rw [if_pos rfl] at he
      subst he
      exact hsame rfl (fun _ => rfl) fun u => id
    | false =>
      refine ⟨I', fun t ht => ?_⟩
      have hl := I.owned t (I.inv.live_iff.mpr ((S.listed t).mp (I'.live_iff.mp ht)))
      show (k'.tcb t).lockcount =
        update s.locks s.kernel.head (s.locks s.kernel.head + 1) t
      rw [lock_locks hk']
      by_cases he : t = s.kernel.head
      · rw [if_pos he, hl, he, update_self]
      · rw [if_neg he, hl, update_of_ne he]
  | unlock irq =>
    have he := Option.some.inj hk'
    subst he
    obtain ⟨-, S⟩ := hO.unlock irq
    cases irq with
    | true => exact hsame rfl (fun _ => rfl) fun u => id
    | false =>
      refine ⟨I', fun t ht => ?_⟩
      have hl := I.owned t (I.inv.live_iff.mpr ((S.listed t).mp (I'.live_iff.mp ht)))
      show ((schedUnlock false s.kernel).tcb t).lockcount =
        update s.locks s.kernel.head (s.locks s.kernel.head - 1) t
      rw [unlock_locks]
      by_cases he : t = s.kernel.head
      · rw [if_pos he, hl, he, update_self]
      · rw [if_neg he, hl, update_of_ne he]
  | releasePending =>
    have he := Option.some.inj hk'
    subst he
    obtain ⟨-, T, -, L⟩ := hO.releasePending
    exact hsame rfl T.sameLocks fun u => (L u).mp
  | timeslice =>
    obtain ⟨k₁, h₁, -, S, hS⟩ := hO.timeslice cfg
    cases h₁.symm.trans hk'
    exact hsame rfl hS fun u => (S.listed u).mp
  | delete irq pid =>
    rcases hO.delete I.inv.pids hv.1 hv.2 hk' with rfl | ⟨t, i, ht, -, -, -, he, -, -⟩
    · exact hsame rfl (fun _ => rfl) fun u => id
    · subst he
      refine hsame rfl ?_ ?_
      · exact dropped_sameTasks.sameLocks.trans releasetcb_locks
      · intro u hu
        have hu' : Listed (dropped s.kernel t i) u := by
          obtain ⟨j, hj⟩ := hu
          refine ⟨j, ?_⟩
          unfold schedReleasetcb at hj
          split at hj <;> exact hj
        exact ((dropped_listed hO.wf ht).mp hu').2
  | deletecurrent =>
    have heq := taskDeletecurrent_eq hO I.inv.pids hv
    have hk'' : taskDeletecurrent cfg s.kernel = some k' := hk'
    rw [heq] at hk''
    split at hk''
    swap
    · cases hk''
    have he := Option.some.inj hk''
    subst he
    have hhead := departed_merged_head hO I.inv.pids hv (hq rfl)
    obtain ⟨-, -, hnh⟩ := hO.wf.tail_head hv
    obtain ⟨O₁, -, -⟩ := hO.departed I.inv.pids hv
    obtain ⟨W₂, R₂, hp, T₂, -, L₂⟩ := mergeIfPending_eq O₁.wf O₁.running
    have O₂ : Ok (mergeIfPending (departed cfg s.kernel)) := ⟨W₂, R₂, parked_of_nil hp⟩
    obtain ⟨-, S₃⟩ := O₂.unlock false
    refine hsame rfl (fun u => ?_) fun u hu => ?_
    · rw [unlock_locks, hhead, T₂.lockcount, departed_locks]
      split <;> rfl
    · have hu₁ := (L₂ u).mp ((S₃.listed u).mp hu)
      obtain ⟨j, hj⟩ := hu₁
      have hl : (departed cfg s.kernel).list = (schedRemovereadytorun s.kernel.head s.kernel).1.list := by
        unfold departed schedReleasetcb
        split <;> rfl
      rw [hl] at hj
      exact ((removereadytorun_listed hO.wf hO.wf.head_mem).mp ⟨j, hj⟩).2

/-- The locks are their owners' in every run whose exits find no task pending above
the successor of the running task. -/
theorem locks_owned {cfg : Config} {s : Owned}
    (h : Reach (ownerMachine cfg) (· = ownedStart cfg) (fun s i => i.exitsQuietly s) s) :
    LocksOwned cfg s := by
  have hi : OwnedInv cfg s := by
    apply Reach.invariant (I := OwnedInv cfg) _ _ h
    · intro s hs
      rw [hs]
      refine ⟨osStart_inv cfg, fun t ht => ?_⟩
      have hl := (osStart_inv cfg).live_iff.mp ht
      obtain ⟨i, hi⟩ := hl
      have ht' := ((osStart_mem cfg).mp hi).2
      rw [ht']
      show ((osStart cfg).tcb gIdletcb).lockcount = 0
      rw [osStart_idle]
      rfl
    · exact fun s i s' I hv hq he => I.step hv hq he
  exact hi.owned

theorem locks_owned_run : ∃ s : Owned, s.kernel.ready = [3, 1] ∧ s.locks 3 = 1 ∧
    LocksOwned ⟨4, none, false, 0, 0⟩ s := by
  have h : ((runAll (ownerMachine ⟨4, none, false, 0, 0⟩) (fun s i => Op.exitsQuietly i s)
      (ownedStart ⟨4, none, false, 0, 0⟩)
      [.create 2 100, .activate 2, .create 3 50, .activate 3, .lock false, .deletecurrent,
        .lock false]).any
      fun s => decide (s.kernel.ready = [3, 1] ∧ s.locks 3 = 1)) = true := by
    decide +kernel
  obtain ⟨s, hs, hr⟩ := (Option.any_eq_true _ _).mp h
  obtain ⟨h1, h2⟩ := of_decide_eq_true hr
  exact ⟨s, h1, h2, locks_owned (Reach.runAll (.init rfl) hs)⟩

/-- A locked task exits while a task of higher priority than the next one is pending:
the lock of `task_deletecurrent` stays with the idle task. -/
theorem lock_leaked : ∃ s, Reachable (ownerMachine ⟨4, none, false, 0, 0⟩)
    (· = ownedStart ⟨4, none, false, 0, 0⟩) s ∧ ¬ LocksOwned ⟨4, none, false, 0, 0⟩ s := by
  have h : ((runAll (ownerMachine ⟨4, none, false, 0, 0⟩) (fun _ _ => True)
      (ownedStart ⟨4, none, false, 0, 0⟩)
      [.create 2 100, .activate 2, .lock false, .create 3 150, .activate 3, .deletecurrent]).any
      fun s => decide (Live ⟨4, none, false, 0, 0⟩ s.kernel.toTasks gIdletcb ∧
        (s.kernel.tcb gIdletcb).lockcount = 1 ∧ s.locks gIdletcb = 0)) = true := by
    decide +kernel
  obtain ⟨s, hs, hr⟩ := (Option.any_eq_true _ _).mp h
  obtain ⟨h1, h2, h3⟩ := of_decide_eq_true hr
  refine ⟨s, Reach.runAll (.init rfl) hs, fun ho => ?_⟩
  have := ho gIdletcb h1
  omega

end NuttxAvr32.Sched
