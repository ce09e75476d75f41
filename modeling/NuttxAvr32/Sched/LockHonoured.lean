import NuttxAvr32.Sched.LockOwner

/-! # The preemption lock is honoured

While the running task holds a lock, nothing takes the head of `g_readytorun` from it,
except that its own priority is set to one that is not above that of the next task:
the task is then taken out and put in again, and the test for a lock looks at the
task that has come to the head.
-/

namespace NuttxAvr32.Sched

open Keyed Runs

abbrev schedFifo : Nat := 1
abbrev schedRr : Nat := 2

/-- Without priority inheritance this is `sched_setpriority`. -/
def schedReprioritize (cfg : Config) (tcb priority : Nat) (k : Kernel) : Option (Kernel × Bool) :=
  (schedSetpriority false tcb priority k).map fun r =>
    if r.2 = true ∧ cfg.priorityInheritance = true then
      (r.1.modify tcb fun c => { c with basePriority := priority, pendReprios := [] }, true)
    else r

/-- The `sched_unlock` of the caller, which it reaches once it runs again. -/
def callerUnlock (rtcb : Nat) (k : Kernel) : Kernel :=
  if k.head = rtcb then schedUnlock false k else k

def schedSetparam (cfg : Config) (pid priority : Nat) (k : Kernel) : Option Kernel := do
  let k ← schedLock false k
  let rtcb := k.head
  let tcb := if pid = 0 ∨ pid = (k.tcb rtcb).pid then rtcb else schedGettcb cfg k.toTasks pid
  if tcb = 0 then some (schedUnlock false (setErrno false .esrch k))
  else
    let r ← schedReprioritize cfg tcb priority k
    some (callerUnlock rtcb r.1)

def setPolicy (cfg : Config) (tcb policy : Nat) (k : Kernel) : Kernel :=
  match cfg.timeslice with
  | none => k
  | some ticks =>
    if policy = schedRr then k.modify tcb fun c => { c with roundRobin := true, timeslice := ticks }
    else k.modify tcb fun c => { c with roundRobin := false, timeslice := 0 }

def schedSetscheduler (cfg : Config) (pid policy priority : Nat) (k : Kernel) : Option Kernel :=
  if policy ≠ schedFifo ∧ (policy ≠ schedRr ∨ cfg.timeslice = none) then some (setErrno false .einval k)
  else
    let rtcb := k.head
    let tcb := schedGettcb cfg k.toTasks (if pid = 0 then (k.tcb rtcb).pid else pid)
    if tcb = 0 then some (setErrno false .esrch k)
    else do
      let k ← schedLock false k
      let r ← schedReprioritize cfg tcb priority (setPolicy cfg tcb policy k)
      some (callerUnlock rtcb r.1)

inductive Call
  | op (i : Op)
  | setparam (pid priority : Nat)
  | setscheduler (pid policy priority : Nat)

def Call.exec (cfg : Config) : Call → Kernel → Option Kernel
  | .op i, k => i.exec cfg k
  | .setparam pid priority, k => schedSetparam cfg pid priority k
  | .setscheduler pid policy priority, k => schedSetscheduler cfg pid policy priority k

def named (cfg : Config) (k : Kernel) (pid : Nat) : Nat :=
  if pid = 0 ∨ pid = (k.tcb k.head).pid then k.head else schedGettcb cfg k.toTasks pid

/-- Only `sched_unlock` calls `up_release_pending`, and tasks block themselves. -/
def Call.valid (cfg : Config) (k : Kernel) : Call → Prop
  | .op .releasePending => False
  | .op (.block tcb s) => tcb = k.head ∧ (Op.block tcb s).valid cfg k.toTasks k.head
  | .op i => i.valid cfg k.toTasks k.head
  | .setparam pid _ => named cfg k pid ≠ gIdletcb
  | .setscheduler pid _ _ => named cfg k pid ≠ gIdletcb

/-- The running task blocks itself, exits, or gives its last lock back. -/
def Call.givesUp (k : Kernel) : Call → Prop
  | .op (.block _ _) => True
  | .op .deletecurrent => True
  | .op (.unlock irq) => irq = false ∧ (k.tcb k.head).lockcount = 1
  | _ => False

/-- A valid priority that is not above that of the next task. -/
def lowers (k : Kernel) (priority : Nat) : Prop :=
  schedPriorityMin ≤ priority ∧ priority ≤ schedPriorityMax ∧ priority ≤ k.prio k.next

def Call.lowersHead (cfg : Config) (k : Kernel) : Call → Prop
  | .op (.setpriority _ tcb priority) => tcb = k.head ∧ lowers k priority
  | .setparam pid priority => named cfg k pid = k.head ∧ lowers k priority
  | .setscheduler pid policy priority =>
    (policy = schedFifo ∨ (policy = schedRr ∧ cfg.timeslice ≠ none)) ∧
      named cfg k pid = k.head ∧ lowers k priority
  | _ => False

section

variable {cfg : Config} {k k' : Kernel} {t p : Nat} {irq : Bool}

theorem setErrno_head (e : Errno) : (setErrno irq e k).head = k.head := by
  unfold setErrno
  split <;> rfl

theorem setErrno_lockcount (e : Errno) (u : Nat) :
    ((setErrno irq e k).tcb u).lockcount = (k.tcb u).lockcount := by
  unfold setErrno
  split
  · have h : SameLocks k (k.modify k.head fun c => { c with pterrno := e }) := sameLocks_modify rfl
    exact h u
  · rfl

theorem unlock_head (h : irq = true ∨ (k.tcb k.head).lockcount ≠ 1)
    (hl : 0 < (k.tcb k.head).lockcount) : (schedUnlock irq k).head = k.head := by
  unfold schedUnlock
  split
  · rfl
  · rename_i hi
    dsimp only
    rw [if_neg]
    · rfl
    · intro ⟨h0, _⟩
      rw [modify_tcb_same] at h0
      have h1 := h.resolve_left hi
      dsimp only at h0
      omega

theorem pair_head {a b : Kernel} (hl : 0 < (k.tcb k.head).lockcount)
    (h : schedLock false k = some a) (hh : b.head = k.head)
    (hc : (b.tcb k.head).lockcount = (a.tcb k.head).lockcount) :
    (schedUnlock false b).head = k.head := by
  have ha := lock_locks h k.head
  rw [if_pos rfl] at ha
  rw [unlock_head, hh]
  · right
    rw [hh, hc, ha]
    omega
  · rw [hh, hc, ha]
    omega

theorem unblock_head (O : Ok k) {i : TaskList} (ht : t ∈ k.list i) (hi : i ≠ .readytorun)
    (hl : 0 < (k.tcb k.head).lockcount)
    (h : upUnblockTask cfg t k = some k') : k'.head = k.head := by
  unfold upUnblockTask at h
  split at h
  swap
  · cases h
  have hready : (schedRemoveblocked t k).ready = k.ready := by
    rw [removeblocked_eq ht O.wf]
    exact setList_list_of_ne (Ne.symm hi)
  have hlocks : ∀ u, ((schedRemoveblocked t k).tcb u).lockcount = (k.tcb u).lockcount := by
    rw [removeblocked_eq ht O.wf]
    exact (sameTasks_setList.trans sameTasks_setState).lockcount
  have hadd : ∀ k₂ : Kernel, k₂.ready = k.ready → (k₂.tcb k.head).lockcount = (k.tcb k.head).lockcount →
      (schedAddreadytorun t k₂).1.head = k.head := by
    intro k₂ hr hc
    have hh₂ : k₂.head = k.head := by
      unfold Kernel.head
      rw [hr]
    unfold schedAddreadytorun
    rw [hh₂]
    dsimp only
    rw [hc]
    by_cases hlt : k₂.prio k.head < k₂.prio t
    · rw [if_pos ⟨by omega, hlt⟩]
      exact hh₂
    · rw [if_neg fun h => hlt h.2]
      have hh : k₂.ready.head? = some k.head := hr ▸ O.wf.head
      have hne : k.head ≠ t := fun he => hi (O.wf.list_unique ht (he ▸ O.wf.head_mem))
      rw [addprioritized_behind hh (by omega) hne]
      dsimp only
      rw [if_neg (by simp)]
      apply head_eq
      show ((k₂.setList .readytorun _).list .readytorun).head? = _
      rw [setList_list_same]
      exact head?_insertKeyed_of_le hh (by omega)
  dsimp only at h
  rw [← Option.some.inj h]
  split
  · rename_i ticks _
    apply hadd
    · exact hready
    · have hs : SameLocks (schedRemoveblocked t k)
          ((schedRemoveblocked t k).modify t fun c => { c with timeslice := ticks }) :=
        sameLocks_modify rfl
      exact (hs k.head).trans (hlocks k.head)
  · exact hadd _ hready (hlocks k.head)

theorem reprioritize_other (O : Ok k) (ht : t ∈ k.ready) (hidle : t ≠ gIdletcb) (hth : t ≠ k.head)
    (hl : 0 < (k.tcb k.head).lockcount) {k₁ : Kernel}
    (hk₁ : k₁ = (schedRemovereadytorun t k).1.modify t fun c => { c with schedPriority := p }) :
    (schedAddreadytorun t k₁).1.head = k.head ∧ (schedAddreadytorun t k₁).2 = false ∧
      (schedRemovereadytorun t k).2 = false := by
  obtain ⟨k₂, hk₂, W₁, R₁, P₁, hnot, L₁, B₁, hhead₁⟩ := O.removed (p := p) ht hidle
  rw [← hk₁] at hk₂
  subst hk₂
  rw [if_neg hth] at hhead₁
  have A := W₁.added hnot
  have hr : (schedAddreadytorun t k₂).2 = false := by
    generalize schedAddreadytorun t k₂ = r at A
    cases A with
    | parked => rfl
    | behind => rfl
    | top hlock =>
      rw [hhead₁, P₁.lockcount] at hlock
      omega
  refine ⟨?_, hr, ?_⟩
  · rw [head_eq (A.head W₁), hr, hhead₁]
    rfl
  · rw [removereadytorun_eq O.wf hidle, if_neg hth]

theorem reprioritize_head (O : Ok k) (hidle : k.head ≠ gIdletcb) (hle : p ≤ k.prio k.next)
    (h : upReprioritizeRtr k.head p k = some k') : k'.head ≠ k.head := by
  obtain ⟨k₁, hk₁, W₁, R₁, P₁, hnot, L₁, B₁, hhead₁⟩ := O.removed (p := p) O.wf.head_mem hidle
  rw [if_pos rfl] at hhead₁
  have hnext := O.wf.tail_head hidle
  have hprio : k₁.prio k.head ≤ k₁.prio k₁.head := by
    rw [hhead₁, P₁.prio, Function.update_self, Function.update_of_ne hnext.2.2]
    exact hle
  have A := W₁.added hnot
  have hr : (schedAddreadytorun k.head k₁).2 = false := by
    generalize schedAddreadytorun k.head k₁ = r at A
    cases A with
    | parked => rfl
    | behind => rfl
    | top _ hlt => omega
  have hh₂ : (schedAddreadytorun k.head k₁).1.ready.head? = some k.next := by
    rw [A.head W₁, hr, hhead₁]
    rfl
  unfold upReprioritizeRtr at h
  split at h
  swap
  · cases h
  dsimp only at h
  rw [← hk₁, hr, removereadytorun_eq O.wf hidle, if_pos rfl] at h
  rw [← Option.some.inj h]
  dsimp only
  rw [if_pos (by rfl)]
  have hp₁ : schedPriorityMin ≤ p ∧ p ≤ schedPriorityMax := by
    rename_i hc
    exact hc.2
  have h0 : k.head ≠ 0 := fun h => O.wf.nonzero _ (h ▸ O.wf.head_mem)
  have W₂ := A.wf W₁ hnot h0 (by rw [P₁.prio, Function.update_self]; exact hp₁)
  unfold mergeIfPending
  split
  · -- what is merged in comes from the list of pending tasks
    rename_i hp
    have hmerged := W₂.merged_head
    rw [head_eq hh₂] at hmerged
    rw [head_eq (mergepending_ready ▸ hmerged)]
    have hpend : (schedAddreadytorun k.head k₁).1.pending = k.pending := by
      have hk₁p : k₁.pending = k.pending := B₁ .pendingtasks (by decide)
      generalize schedAddreadytorun k.head k₁ = r at A hr
      cases A with
      | parked _ hlt => omega
      | top _ hlt => omega
      | behind =>
        rw [← hk₁p]
        show (k₁.setList .readytorun (insertKeyed k₁.prio k.head k₁.ready)).list
          .pendingtasks = _
        rw [setList_list_of_ne (by decide)]
    rw [hpend]
    cases hx : k.pending.head? with
    | none => exact hnext.2.2
    | some x =>
      dsimp only
      split
      · intro he
        have hm : x ∈ k.pending := List.mem_of_mem_head? hx
        have hij : TaskList.pendingtasks = TaskList.readytorun :=
          O.wf.list_unique (he ▸ hm) O.wf.head_mem
        cases hij
      · exact hnext.2.2
  · rw [head_eq hh₂]
    exact hnext.2.2

theorem setpriority_head (O : Ok k) (ht : Listed k t) (hidle : t ≠ gIdletcb)
    (hl : 0 < (k.tcb k.head).lockcount) {r : Kernel × Bool}
    (h : schedSetpriority irq t p k = some r) :
    r.1.head = k.head ↔ ¬(t = k.head ∧ lowers k p) := by
  unfold schedSetpriority at h
  split at h
  · rename_i hp
    rw [← Option.some.inj h, setErrno_head]
    unfold lowers
    exact iff_of_true rfl (by omega)
  rename_i hp
  have hrange : schedPriorityMin ≤ p ∧ p ≤ schedPriorityMax := by omega
  obtain ⟨i, hi⟩ := ht
  have hst := O.wf.state i t hi
  have hth : t = k.head → i = .readytorun := fun he => O.wf.list_unique hi (he ▸ O.wf.head_mem)
  have hother : i ≠ .readytorun → ¬(t = k.head ∧ lowers k p) := fun hr hc => hr (hth hc.1)
  dsimp only at h
  cases hs : (k.tcb t).taskState with
  | running =>
    rw [hs] at h hst
    have hi' : i = .readytorun := (Option.some.inj hst).symm
    subst hi'
    have he : t = k.head := by
      have h := (O.running t hi).mp hs
      rw [O.wf.head] at h
      exact (Option.some.inj h).symm
    subst he
    dsimp only at h
    split at h
    · rename_i hle
      obtain ⟨k₁, hk₁, hr⟩ := Option.map_eq_some_iff.mp h
      rw [← hr]
      have hne := reprioritize_head O hidle hle hk₁
      exact iff_of_false hne fun hc => hc ⟨rfl, hrange.1, hrange.2, hle⟩
    · rename_i hle
      rw [← Option.some.inj h]
      exact iff_of_true rfl fun hc => hle hc.2.2.2
  | readytorun =>
    rw [hs] at h hst
    have hi' : i = .readytorun := (Option.some.inj hst).symm
    subst hi'
    have hne : t ≠ k.head := by
      intro he
      have := (O.running t hi).mpr (he ▸ O.wf.head)
      rw [hs] at this
      cases this
    obtain ⟨h1, h2, h3⟩ := reprioritize_other (p := p) O hi hidle hne hl rfl
    dsimp only at h
    split at h
    · obtain ⟨k₁, hk₁, hr⟩ := Option.map_eq_some_iff.mp h
      unfold upReprioritizeRtr at hk₁
      rw [if_pos ⟨isReady_of_ready O.wf hi, hrange⟩] at hk₁
      dsimp only at hk₁
      rw [h2, h3, if_neg (by simp)] at hk₁
      rw [← hr, ← Option.some.inj hk₁]
      exact iff_of_true h1 fun hc => hne hc.1
    · rw [← Option.some.inj h]
      exact iff_of_true h1 fun hc => hne hc.1
  | _ =>
    rw [hs] at h hst
    have hr : i ≠ .readytorun := by
      intro he
      rw [he] at hst
      cases hst
    refine iff_of_true ?_ (hother hr)
    dsimp only at h
    split at h
    · rw [hst] at h
      dsimp only at h
      rw [← Option.some.inj h]
      show Kernel.head (Kernel.setList (Kernel.modify (Kernel.setList _ _ _) _ _) _ _) = _
      unfold Kernel.head Kernel.ready
      rw [setList_list_of_ne (Ne.symm hr), modify_list, setList_list_of_ne (Ne.symm hr)]
    · rw [← Option.some.inj h]
      rfl

end

section

variable {cfg : Config} {k k' : Kernel} {t p : Nat}

theorem create_head (O : Ok k) (ht : ¬ Listed k t) (hl : 0 < (k.tcb k.head).lockcount)
    (h : taskCreate cfg t p k = some k') : k'.head = k.head := by
  have hne : k.head ≠ t := fun he => ht ⟨_, he ▸ O.wf.head_mem⟩
  let k₀ := k.modify t fun _ => Tcb.zero
  obtain ⟨k₁, r, hk₁, hr, h₂⟩ := taskCreate_steps h
  have hl₀ : (k₀.tcb k.head).lockcount = (k.tcb k.head).lockcount := by
    show ((k.modify t _).tcb k.head).lockcount = _
    rw [modify_tcb_of_ne hne]
  have hassign := assignTries_locks cfg t cfg.maxTasks k₁
  have hhead₁ : r.head = k.head := by
    rw [hr]
    exact pair_head (k := k₀) (by rw [show k₀.head = k.head from rfl, hl₀]; exact hl) hk₁
      (hassign.1.trans (lock_head hk₁)) (hassign.2 _)
  have hlock₁ : (r.tcb k.head).lockcount = (k.tcb k.head).lockcount := by
    rw [hr, ← hl₀]
    exact pair_locks hk₁ (hassign.1.trans (lock_head hk₁)) (hassign.2 _)
  rcases h₂ with ⟨-, k₅, hk₅, rfl⟩ | ⟨-, rfl⟩
  · have hmod : SameLocks r (r.modify t fun c =>
        { c with initPriority := p, schedPriority := p, basePriority := p }) := sameLocks_modify rfl
    have hheadm : (r.modify t fun c =>
        { c with initPriority := p, schedPriority := p, basePriority := p }).head = k.head := hhead₁
    rw [← hheadm]
    apply pair_head _ hk₅
    · rw [setState_head, ← lock_head hk₅]
      unfold Kernel.head Kernel.ready
      rw [setList_list_of_ne (by decide)]
    · exact (sameTasks_setList.trans sameTasks_setState).lockcount _
    · rw [hheadm, hmod k.head, hlock₁]
      exact hl
  · exact hhead₁

theorem timeslice_head (hl : 0 < (k.tcb k.head).lockcount)
    (h : schedProcessTimeslice cfg k = some k') : k'.head = k.head := by
  unfold schedProcessTimeslice at h
  split at h
  · rw [← Option.some.inj h]
  · dsimp only at h
    split at h
    · rw [← Option.some.inj h]
    · split at h
      · rw [if_neg (by omega)] at h
        rw [← Option.some.inj h]
      · rw [← Option.some.inj h]
        rfl

theorem delete_head (I : Inv cfg k) {irq : Bool} {pid : Nat} (h0 : pid ≠ 0)
    (hself : pid ≠ (k.tcb k.head).pid) (h : taskDelete cfg irq pid k = some k') :
    k'.head = k.head := by
  rcases I.ok.delete I.pids h0 hself h with rfl | ⟨t, i, ht, -, hne, -, he, -, -⟩
  · rfl
  · rw [he]
    have hr : (schedReleasetcb cfg t (Sched.dropped k t i)).head = (Sched.dropped k t i).head := by
      unfold schedReleasetcb
      split <;> rfl
    rw [hr]
    exact dropped_head I.ok.wf hne

theorem reprioritize_call (O : Ok k) (ht : Listed k t) (hidle : t ≠ gIdletcb)
    (hl : 0 < (k.tcb k.head).lockcount) {r : Kernel × Bool}
    (h : schedReprioritize cfg t p k = some r) :
    r.1.head = k.head ↔ ¬(t = k.head ∧ lowers k p) := by
  obtain ⟨r₁, h₁, hr⟩ := Option.map_eq_some_iff.mp h
  have hs := setpriority_head O ht hidle hl h₁
  rw [← hr]
  split
  · exact hs
  · exact hs

theorem reprioritize_lockcount (O : Ok k) (ht : Listed k t) (hidle : t ≠ gIdletcb)
    {r : Kernel × Bool} (h : schedReprioritize cfg t p k = some r) (u : Nat) :
    (r.1.tcb u).lockcount = (k.tcb u).lockcount := by
  obtain ⟨r₁, h₁, hr⟩ := Option.map_eq_some_iff.mp h
  have hs : (r₁.1.tcb u).lockcount = (k.tcb u).lockcount := by
    by_cases hp : schedPriorityMin ≤ p ∧ p ≤ schedPriorityMax
    · obtain ⟨k₁, hk₁, -, S, -⟩ := O.setpriority false ht hidle hp
      cases hk₁.symm.trans h₁
      exact S.lockcount u
    · unfold schedSetpriority at h₁
      rw [if_pos (by omega)] at h₁
      rw [← Option.some.inj h₁]
      exact setErrno_lockcount _ u
  rw [← hr]
  split
  · have hm : SameLocks r₁.1 (r₁.1.modify t fun c =>
        { c with basePriority := p, pendReprios := [] }) := sameLocks_modify rfl
    exact (hm u).trans hs
  · exact hs

/-- The unlock of the caller does not change the head, since the lock that was held
before is still held. -/
theorem callerUnlock_head {a b : Kernel} (hl : 0 < (k.tcb k.head).lockcount)
    (h : schedLock false k = some a) (hc : (b.tcb k.head).lockcount = (a.tcb k.head).lockcount) :
    (callerUnlock k.head b).head = k.head ↔ b.head = k.head := by
  unfold callerUnlock
  split
  · rename_i hb
    exact iff_of_true (pair_head hl h hb hc) hb
  · exact Iff.rfl

theorem setPolicy_ok (O : Ok k) (t policy : Nat) : Ok (setPolicy cfg t policy k) := by
  unfold setPolicy
  split
  · exact O
  · split
    · exact O.modify rfl rfl id
    · exact O.modify rfl rfl id

theorem setPolicy_list (t policy : Nat) : (setPolicy cfg t policy k).list = k.list := by
  unfold setPolicy
  split
  · rfl
  · split <;> rfl

theorem setPolicy_locks (t policy : Nat) : SameLocks k (setPolicy cfg t policy k) := by
  unfold setPolicy
  split
  · exact fun _ => rfl
  · split <;> exact sameLocks_modify rfl

theorem setPolicy_prio (t policy : Nat) : (setPolicy cfg t policy k).prio = k.prio := by
  have h : ∀ f : Tcb → Tcb, (f (k.tcb t)).schedPriority = (k.tcb t).schedPriority →
      (k.modify t f).prio = k.prio := by
    intro f hf
    funext u
    show ((k.modify t f).tcb u).schedPriority = (k.tcb u).schedPriority
    by_cases hu : u = t
    · subst hu
      rw [modify_tcb_same]
      exact hf
    · rw [modify_tcb_of_ne hu]
  unfold setPolicy
  split
  · rfl
  · split <;> exact h _ rfl

theorem locked_call (I : Inv cfg k) {a b : Kernel} {r : Kernel × Bool} (ht : Listed k t)
    (hidle : t ≠ gIdletcb) (hl : 0 < (k.tcb k.head).lockcount) (ha : schedLock false k = some a)
    (hb : Ok b) (hlist : b.list = a.list) (hlocks : SameLocks a b) (hprio : b.prio = a.prio)
    (h : schedReprioritize cfg t p b = some r) :
    (callerUnlock k.head r.1).head = k.head ↔ ¬(t = k.head ∧ lowers k p) := by
  obtain ⟨-, S, hlist₁⟩ := I.ok.lock ha
  have hlistk : b.list = k.list := hlist.trans hlist₁
  have htb : Listed b t := by
    unfold Listed
    rw [hlistk]
    exact ht
  have hhead : b.head = k.head := by
    unfold Kernel.head Kernel.ready
    rw [hlistk]
  have hnext : b.next = k.next := by
    unfold Kernel.next Kernel.ready
    rw [hlistk]
  have hlb : (b.tcb k.head).lockcount = (k.tcb k.head).lockcount + 1 := by
    rw [hlocks k.head, lock_locks ha, if_pos rfl]
  have hlow : lowers b p ↔ lowers k p := by
    unfold lowers
    rw [hprio, S.keeps.prio, hnext]
  have hr := reprioritize_call hb htb hidle (by rw [hhead, hlb]; omega) h
  rw [hhead, hlow] at hr
  rw [callerUnlock_head hl ha, hr]
  rw [reprioritize_lockcount hb htb hidle h, hlocks k.head]

/-- While the running task holds a lock, a call that is not its own block, exit or last
unlock changes the head of `g_readytorun` exactly when it sets the priority of the running
task to one that is not above that of the next task. -/
theorem lock_honoured (h : Reachable (schedMachine cfg) (· = osStart cfg) k) (i : Call)
    (hv : i.valid cfg k) (hl : 0 < (k.tcb k.head).lockcount) (hg : ¬i.givesUp k)
    (he : i.exec cfg k = some k') : k'.head = k.head ↔ ¬i.lowersHead cfg k := by
  have I := reach_inv h
  have O := I.ok
  cases i with
  | op i =>
    cases i with
    | create tcb priority =>
      have ht : ¬ Listed k tcb := fun hc => hv.2.1 (I.live_iff.mpr hc)
      exact iff_of_true (create_head O ht hl he) fun hc => hc
    | activate tcb =>
      obtain ⟨i, hi, hr, hp⟩ := I.live_blocked hv.1 (by rw [hv.2]; trivial)
      exact iff_of_true (unblock_head O hi hr hl he) fun hc => hc
    | block tcb s => exact absurd trivial hg
    | unblock tcb =>
      obtain ⟨i, hi, hr, hp⟩ := I.live_blocked hv.1 hv.2
      exact iff_of_true (unblock_head O hi hr hl he) fun hc => hc
    | setpriority irq tcb priority =>
      obtain ⟨r, hr, hk⟩ := Option.map_eq_some_iff.mp he
      rw [← hk]
      exact setpriority_head O (I.live_iff.mp hv.1) hv.2 hl hr
    | lock irq => exact iff_of_true (lock_head he) fun hc => hc
    | unlock irq =>
      have hk := Option.some.inj he
      rw [← hk]
      refine iff_of_true (unlock_head ?_ hl) fun hc => hc
      cases irq with
      | true => exact .inl rfl
      | false => exact .inr fun h1 => hg ⟨rfl, h1⟩
    | releasePending => exact absurd hv fun hc => hc
    | timeslice => exact iff_of_true (timeslice_head hl he) fun hc => hc
    | delete irq pid => exact iff_of_true (delete_head I hv.1 hv.2 he) fun hc => hc
    | deletecurrent => exact absurd trivial hg
  | setparam pid priority =>
    obtain ⟨a, ha, he⟩ := Option.bind_eq_some_iff.mp he
    have hahead := lock_head ha
    have hapid : ∀ u, (a.tcb u).pid = (k.tcb u).pid := (I.ok.lock ha).2.1.keeps.pid
    have hatasks : schedGettcb cfg a.toTasks pid = schedGettcb cfg k.toTasks pid := by
      rw [schedLock_eq ha]
      rfl
    dsimp only at he
    rw [hahead, hapid, hatasks] at he
    show k'.head = k.head ↔ ¬(named cfg k pid = k.head ∧ lowers k priority)
    have hv' : named cfg k pid ≠ gIdletcb := hv
    change (if named cfg k pid = 0 then _ else _) = some k' at he
    by_cases h0 : named cfg k pid = 0
    · rw [if_pos h0] at he
      rw [← Option.some.inj he, h0]
      refine iff_of_true ?_ fun hc => ?_
      · apply pair_head hl ha
        · rw [setErrno_head]
          exact hahead
        · exact setErrno_lockcount _ _
      · exact O.wf.nonzero _ (hc.1 ▸ O.wf.head_mem)
    · rw [if_neg h0] at he
      obtain ⟨r, hr, hk⟩ := Option.bind_eq_some_iff.mp he
      rw [← Option.some.inj hk]
      have ht : Listed k (named cfg k pid) := by
        unfold named at h0 ⊢
        split
        · exact ⟨_, O.wf.head_mem⟩
        · rename_i hn
          rw [if_neg hn] at h0
          exact (I.pids.of_gettcb h0).1
      exact locked_call I ht hv' hl ha (O.lock ha).1 rfl (fun _ => rfl) rfl hr
  | setscheduler pid policy priority =>
    show k'.head = k.head ↔ ¬((policy = schedFifo ∨ (policy = schedRr ∧ cfg.timeslice ≠ none)) ∧
      named cfg k pid = k.head ∧ lowers k priority)
    have hv' : named cfg k pid ≠ gIdletcb := hv
    have hnamed : schedGettcb cfg k.toTasks (if pid = 0 then (k.tcb k.head).pid else pid) =
        named cfg k pid := by
      have hself := I.pids.gettcb O.wf ⟨_, O.wf.head_mem⟩
      unfold named
      by_cases hp : pid = 0
      · rw [if_pos hp, if_pos (.inl hp)]
        exact hself
      · rw [if_neg hp]
        by_cases hs : pid = (k.tcb k.head).pid
        · rw [if_pos (.inr hs), hs]
          exact hself
        · rw [if_neg (not_or.mpr ⟨hp, hs⟩)]
    have he' : schedSetscheduler cfg pid policy priority k = some k' := he
    unfold schedSetscheduler at he'
    split at he'
    · rename_i hpol
      rw [← Option.some.inj he', setErrno_head]
      exact iff_of_true rfl fun hc => by tauto
    rename_i hpol
    dsimp only at he'
    rw [hnamed] at he'
    by_cases h0 : named cfg k pid = 0
    · rw [if_pos h0] at he'
      rw [← Option.some.inj he', setErrno_head, h0]
      exact iff_of_true rfl fun hc => O.wf.nonzero _ (hc.2.1 ▸ O.wf.head_mem)
    · rw [if_neg h0] at he'
      obtain ⟨a, ha, he'⟩ := Option.bind_eq_some_iff.mp he'
      obtain ⟨r, hr, hk⟩ := Option.bind_eq_some_iff.mp he'
      rw [← Option.some.inj hk]
      have ht : Listed k (named cfg k pid) := by
        rw [← hnamed] at h0 ⊢
        exact (I.pids.of_gettcb h0).1
      have hc := locked_call I ht hv' hl ha (setPolicy_ok (O.lock ha).1 _ policy)
        (setPolicy_list _ _) (setPolicy_locks _ _) (setPolicy_prio _ _) hr
      rw [hc]
      have hpol' : policy = schedFifo ∨ (policy = schedRr ∧ cfg.timeslice ≠ none) := by tauto
      constructor
      · exact fun hn hh => hn hh.2
      · exact fun hn hh => hn ⟨hpol', hh⟩

end

def lockedRun : List Op :=
  [.create 2 100, .activate 2, .create 3 90, .activate 3, .lock false]

/-- The running task lowers itself to a priority that is still above the next one. -/
theorem lock_honoured_run : ∃ k k' : Kernel, 0 < (k.tcb k.head).lockcount ∧
    (Call.setparam 0 95).exec ⟨4, none, false, 0, 0⟩ k = some k' ∧
      (k'.head = k.head ↔ ¬(Call.setparam 0 95).lowersHead ⟨4, none, false, 0, 0⟩ k) := by
  have hr : ((runAll (schedMachine ⟨4, none, false, 0, 0⟩) (fun _ _ => True)
      (osStart ⟨4, none, false, 0, 0⟩) lockedRun).any fun k =>
        decide (0 < (k.tcb k.head).lockcount ∧ named ⟨4, none, false, 0, 0⟩ k 0 ≠ gIdletcb ∧
          ((Call.setparam 0 95).exec ⟨4, none, false, 0, 0⟩ k).isSome = true)) = true := by
    decide +kernel
  obtain ⟨k, hk, hd⟩ := (Option.any_eq_true _ _).mp hr
  obtain ⟨hl, hv, he⟩ := of_decide_eq_true hd
  obtain ⟨k', he⟩ := Option.isSome_iff_exists.mp he
  exact ⟨k, k', hl, he, lock_honoured (Reach.runAll (.init rfl) hk) _ hv hl (fun hc => hc) he⟩

/-- The running task holds a lock and sets its own priority below that of the next. -/
theorem lock_broken : ¬∀ k, Reachable (schedMachine ⟨4, none, false, 0, 0⟩)
    (· = osStart ⟨4, none, false, 0, 0⟩) k → ∀ i : Call, i.valid ⟨4, none, false, 0, 0⟩ k →
      0 < (k.tcb k.head).lockcount → ¬i.givesUp k → ∀ k',
        i.exec ⟨4, none, false, 0, 0⟩ k = some k' → k'.head = k.head := by
  intro hall
  have hr : ((runAll (schedMachine ⟨4, none, false, 0, 0⟩) (fun _ _ => True)
      (osStart ⟨4, none, false, 0, 0⟩) lockedRun).any fun k =>
        decide (0 < (k.tcb k.head).lockcount ∧
          (Op.setpriority false 2 50).valid ⟨4, none, false, 0, 0⟩ k.toTasks k.head ∧
          ((Op.setpriority false 2 50).exec ⟨4, none, false, 0, 0⟩ k).any
            (fun k' => decide (k'.head ≠ k.head)) = true)) = true := by
    decide +kernel
  obtain ⟨k, hk, hd⟩ := (Option.any_eq_true _ _).mp hr
  obtain ⟨hl, hv, he⟩ := of_decide_eq_true hd
  obtain ⟨k', he, hne⟩ := (Option.any_eq_true _ _).mp he
  exact of_decide_eq_true hne (hall k (Reach.runAll (.init rfl) hk)
    (.op (.setpriority false 2 50)) hv hl (fun hc => hc) k' he)

end NuttxAvr32.Sched
