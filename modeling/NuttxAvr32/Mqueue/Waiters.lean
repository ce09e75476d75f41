import NuttxAvr32.Mqueue.Messages
import NuttxAvr32.Sched.Waiting

/-! # The counters of waiting tasks

`nwaitnotempty` and `nwaitnotfull` against the two lists of waiting tasks, in every run
in which no sender waits and no wait ends by a timeout or a signal.
-/

namespace NuttxAvr32.Mqueue

open Keyed Sched Runs
open Function (update update_self update_of_ne)

def mqMachine (cfg : Config) : Machine Sys MqOp where
  valid s i := i.valid cfg s
  exec s i := i.exec cfg s

instance decidableOtherCall (cfg : Config) (s : Sys) :
    ∀ i : Sched.Op, Decidable (otherCall cfg s i)
  | .block _ st => inferInstanceAs (Decidable (¬IsMqwait st))
  | .unblock t => inferInstanceAs (Decidable (¬IsMqwait (s.kernel.tcb t).taskState))
  | .delete _ pid =>
    inferInstanceAs (Decidable (s.calls (schedGettcb cfg s.kernel.toTasks pid) = [] ∧
      ¬IsMqwait (s.kernel.tcb (schedGettcb cfg s.kernel.toTasks pid)).taskState))
  | .deletecurrent => inferInstanceAs (Decidable (s.calls s.kernel.head = []))
  | .create _ _ => inferInstanceAs (Decidable True)
  | .activate _ => inferInstanceAs (Decidable True)
  | .setpriority _ _ _ => inferInstanceAs (Decidable True)
  | .lock _ => inferInstanceAs (Decidable True)
  | .unlock _ => inferInstanceAs (Decidable True)
  | .releasePending => inferInstanceAs (Decidable True)
  | .timeslice => inferInstanceAs (Decidable True)

instance decidableMqOpValid (cfg : Config) (s : Sys) (i : MqOp) : Decidable (i.valid cfg s) := by
  cases i <;> (unfold MqOp.valid; infer_instance)

instance decidableMqMachineValid (cfg : Config) (s : Sys) (i : MqOp) :
    Decidable ((mqMachine cfg).valid s i) :=
  inferInstanceAs (Decidable (i.valid cfg s))

/-- What `mq_initialize` leaves when the scheduler starts, with empty queues. -/
structure MqStart (cfg : Config) (s : Sys) : Prop where
  kernel : s.kernel = osStart cfg
  tasks : s.tasks = [gIdletcb]
  calls : s.calls = fun _ => []
  msgwaitq : s.msgwaitq = fun _ => 0
  queues : ∀ q, 0 ≤ (s.msgq q).maxmsgs ∧ s.msgq q = ⟨(s.msgq q).maxmsgs, 0, 0, 0, []⟩
  memory : s.memory = s.gMsgfree ++ s.gMsgfreeirq
  nodup : s.memory.Nodup
  types : (∀ n ∈ s.gMsgfree, (s.msg n).type = .fixed) ∧ ∀ n ∈ s.gMsgfreeirq, (s.msg n).type = .irq
  sent : s.sent = fun _ => []
  received : s.received = fun _ => []
  irqSent : s.irqSent = fun _ => false

def waitersOf (l : List Nat) (msgwaitq : Nat → Nat) (q : Nat) : List Nat :=
  l.filter fun t => msgwaitq t = q

def waiters (j : TaskList) (q : Nat) (s : Sys) : List Nat :=
  waitersOf (s.kernel.list j) s.msgwaitq q

def Msgs.waitcount (c : Msgs) (j : TaskList) : Int :=
  if j = .waitingformqnotempty then c.nwaitnotempty else c.nwaitnotfull

/-- The list and the state of the tasks that wait for a message, or for room. -/
inductive Waitlist : TaskList → TaskState → Prop
  | notempty : Waitlist .waitingformqnotempty .waitMqnotempty
  | notfull : Waitlist .waitingformqnotfull .waitMqnotfull

structure WaitersCounted (cfg : Config) (s : Sys) : Prop where
  members : ∀ j st, Waitlist j st → ∀ q t, t ∈ waiters j q s ↔
    Live cfg s.kernel.toTasks t ∧ (s.kernel.tcb t).taskState = st ∧ s.msgwaitq t = q
  counted : ∀ j st, Waitlist j st → ∀ q, q ≠ 0 →
    (s.msgq q).waitcount j = (waiters j q s).length
  no_panic : ∀ j st, Waitlist j st → ∀ q, q ≠ 0 →
    0 < (s.msgq q).waitcount j → ∃ t, firstWaiter j q s = some t
  wakes_highest : ∀ j st, Waitlist j st → ∀ q, q ≠ 0 → ∀ u ∈ waiters j q s,
    0 < (s.msgq q).waitcount j ∧ ∃ t ∈ waiters j q s, firstWaiter j q s = some t ∧
      ∀ v ∈ waiters j q s, s.kernel.prio v ≤ s.kernel.prio t

structure WInv (cfg : Config) (s : Sys) : Prop where
  kernel : Sched.Inv cfg s.kernel
  counted : ∀ j st, Waitlist j st → ∀ q, q ≠ 0 →
    (s.msgq q).waitcount j = (waiters j q s).length

section

variable {cfg : Config} {s s' : Sys} {j : TaskList} {st : TaskState} {q t : Nat}

theorem Waitlist.waits (h : Waitlist j st) : j.Waits := by cases h <;> trivial

theorem Waitlist.list (h : Waitlist j st) : st.list = some j := by cases h <;> rfl

theorem Waitlist.blocked (h : Waitlist j st) : st.IsBlocked := by cases h <;> trivial

theorem Waitlist.mqwait (h : Waitlist j st) : IsMqwait st := by
  cases h
  · exact .inl rfl
  · exact .inr rfl

theorem Waitlist.prioritized (h : Waitlist j st) : j.prioritized = true ∧ st.prioritized = true := by
  cases h <;> exact ⟨rfl, rfl⟩

theorem Waitlist.of_list (h : Waitlist j st) {st' : TaskState} (hs : st'.list = some j) : st' = st := by
  cases h <;> cases st' <;> first | rfl | cases hs

theorem mem_waiters : t ∈ waiters j q s ↔ t ∈ s.kernel.list j ∧ s.msgwaitq t = q := by
  unfold waiters waitersOf
  rw [List.mem_filter, decide_eq_true_eq]

theorem waitersOf_update {l : List Nat} {w : Nat → Nat} {x r : Nat} (h : t ∉ l) :
    waitersOf l (update w t x) r = waitersOf l w r := by
  unfold waitersOf
  apply List.filter_congr
  intro u hu
  rw [update_of_ne]
  intro he
  exact h (he ▸ hu)

theorem waitersOf_cons {l : List Nat} {w : Nat → Nat} {r : Nat} :
    (waitersOf (t :: l) w r).length =
      (waitersOf l w r).length + if r = w t then 1 else 0 := by
  unfold waitersOf
  rw [List.filter_cons]
  by_cases h : r = w t
  · rw [if_pos (by simp [h]), if_pos h]
    rfl
  · rw [if_neg (by simpa using fun h' => h h'.symm), if_neg h]
    rfl

theorem waitersOf_perm {l l' : List Nat} {w : Nat → Nat} {r : Nat} (h : l.Perm l') :
    (waitersOf l w r).length = (waitersOf l' w r).length := (h.filter _).length_eq

/-- The first task of an ordered list that waits for a queue has the highest priority of
those that do. -/
theorem firstWaiter_highest (hs : Descending s.kernel.prio (s.kernel.list j))
    (h : firstWaiter j q s = some t) :
    t ∈ waiters j q s ∧ ∀ v ∈ waiters j q s, s.kernel.prio v ≤ s.kernel.prio t := by
  have hmem : t ∈ waiters j q s :=
    mem_waiters.mpr ⟨List.mem_of_find?_eq_some h, by simpa using List.find?_some h⟩
  refine ⟨hmem, ?_⟩
  have hw : Descending s.kernel.prio (waiters j q s) := hs.filter _
  have hhead : (waiters j q s).head? = some t := by
    unfold waiters waitersOf
    rw [List.head?_filter]
    exact h
  intro v hv
  cases hl : waiters j q s with
  | nil =>
    rw [hl] at hv
    cases hv
  | cons a l =>
    rw [hl] at hhead hw hv
    have ha : a = t := Option.some.inj hhead
    subst ha
    rcases List.mem_cons.mp hv with hv | hv
    · rw [hv]
    · exact (List.pairwise_cons.mp hw).1 v hv

theorem firstWaiter_of_mem (h : t ∈ waiters j q s) : ∃ u, firstWaiter j q s = some u := by
  obtain ⟨hl, hq⟩ := mem_waiters.mp h
  cases hf : firstWaiter j q s with
  | some u => exact ⟨u, rfl⟩
  | none =>
    have := List.find?_eq_none.mp hf t hl
    exact absurd hq (by simpa using this)

theorem WInv.waitersCounted (I : WInv cfg s) : WaitersCounted cfg s := by
  constructor
  · intro j st hj q t
    rw [mem_waiters]
    constructor
    · rintro ⟨hl, hq⟩
      exact ⟨I.kernel.live_iff.mpr ⟨j, hl⟩, hj.of_list (I.kernel.ok.wf.state j t hl), hq⟩
    · rintro ⟨hl, hs, hq⟩
      exact ⟨I.kernel.live_mem hl (hs ▸ hj.list), hq⟩
  · exact I.counted
  · intro j st hj q hq hc
    rw [I.counted j st hj q hq] at hc
    have hpos : 0 < (waiters j q s).length := by omega
    obtain ⟨t, ht⟩ := List.exists_mem_of_length_pos hpos
    exact firstWaiter_of_mem ht
  · intro j st hj q hq u hu
    obtain ⟨t, ht⟩ := firstWaiter_of_mem hu
    obtain ⟨hm, hp⟩ := firstWaiter_highest (I.kernel.ok.wf.sorted j hj.prioritized.1) ht
    refine ⟨?_, t, hm, ht, hp⟩
    rw [I.counted j st hj q hq]
    have := List.length_pos_of_mem hu
    omega

theorem WInv.congr (I : WInv cfg s) (hk : Sched.Inv cfg s'.kernel)
    (hl : ∀ j st, Waitlist j st → (s'.kernel.list j).Perm (s.kernel.list j))
    (hw : ∀ j st, Waitlist j st → ∀ t ∈ s.kernel.list j, s'.msgwaitq t = s.msgwaitq t)
    (hc : ∀ j q, (s'.msgq q).waitcount j = (s.msgq q).waitcount j) : WInv cfg s' := by
  refine ⟨hk, ?_⟩
  intro j st hj q hq
  have hp : (waiters j q s').Perm (waiters j q s) := by
    unfold waiters waitersOf
    refine ((hl j st hj).filter _).trans ?_
    apply List.Perm.of_eq
    apply List.filter_congr
    intro t ht
    rw [hw j st hj t ht]
  rw [hc, hp.length_eq]
  exact I.counted j st hj q hq

theorem WInv.same (I : WInv cfg s) (hk : s'.kernel = s.kernel) (hw : s'.msgwaitq = s.msgwaitq)
    (hc : ∀ j q, (s'.msgq q).waitcount j = (s.msgq q).waitcount j) : WInv cfg s' := by
  apply I.congr _ _ _ hc
  · rw [hk]
    exact I.kernel
  · intro j st _
    rw [hk]
  · intro j st _ t _
    rw [hw]

theorem setMsgq_same (f : Msgs → Msgs) : (s.setMsgq q f).msgq q = f (s.msgq q) :=
  update_self ..

theorem setMsgq_of_ne {r : Nat} (h : r ≠ q) (f : Msgs → Msgs) : (s.setMsgq q f).msgq r = s.msgq r :=
  update_of_ne h ..

theorem setMsgq_waitcount {f : Msgs → Msgs}
    (hf : ∀ j, (f (s.msgq q)).waitcount j = (s.msgq q).waitcount j) (r : Nat) (j : TaskList) :
    ((s.setMsgq q f).msgq r).waitcount j = (s.msgq r).waitcount j := by
  by_cases h : r = q
  · subst h
    rw [setMsgq_same, hf]
  · rw [setMsgq_of_ne h]

theorem counted_setMsgq {f : Msgs → Msgs} {r : Nat} {d : Int}
    (hf : (f (s.msgq q)).waitcount j = (s.msgq q).waitcount j + d) :
    ((s.setMsgq q f).msgq r).waitcount j =
      (s.msgq r).waitcount j + if r = q then d else 0 := by
  by_cases h : r = q
  · subst h
    rw [setMsgq_same, hf, if_pos rfl]
  · rw [setMsgq_of_ne h, if_neg h]
    omega

theorem WInv.counted_other (I : WInv cfg s) (hj : Waitlist j st) {k : Kernel} {f : Msgs → Msgs}
    {w r : Nat} (hl : k.list j = s.kernel.list j) (hf : ∀ c, (f c).waitcount j = c.waitcount j)
    (hnot : t ∉ s.kernel.list j) (hr : r ≠ 0) : ((s.setMsgq q f).msgq r).waitcount j =
      (waitersOf (k.list j) (update s.msgwaitq t w) r).length := by
  have hcount : (s.msgq r).waitcount j = (waitersOf (s.kernel.list j) s.msgwaitq r).length :=
    I.counted j st hj r hr
  have h0 : (f (s.msgq q)).waitcount j = (s.msgq q).waitcount j + 0 := by
    rw [hf, Int.add_zero]
  rw [counted_setMsgq h0, hl, waitersOf_update hnot, hcount]
  split <;> omega

theorem WInv.waitOn (I : WInv cfg s) (hidle : s.kernel.head ≠ gIdletcb) (hj : Waitlist j st)
    {f : Msgs → Msgs} (hf : ∀ c, (f c).waitcount j = c.waitcount j + 1)
    (hf' : ∀ c j' st', Waitlist j' st' → j' ≠ j → (f c).waitcount j' = c.waitcount j')
    (he : Mqueue.waitOn st q f s = some s') : WInv cfg s' := by
  obtain ⟨k, hk, hs'⟩ := Option.map_eq_some_iff.mp he
  have O := I.kernel.ok
  obtain ⟨k₁, h₁, O₁, T, -, hlist, B, L⟩ := O.block O.wf.head_mem hidle hj.blocked hj.list
  cases h₁.symm.trans hk
  have hinv : Sched.Inv cfg k := ⟨O₁, I.kernel.pids.congr (fun u _ => T.pid u) T.gPidhash L⟩
  have hnot : ∀ j' st', Waitlist j' st' → s.kernel.head ∉ s.kernel.list j' := by
    intro j' st' hj' hm
    exact hj'.waits.blocked.1 (O.wf.list_unique hm O.wf.head_mem)
  subst hs'
  refine ⟨hinv, ?_⟩
  intro j' st' hj' r hr
  have hcount : (s.msgq r).waitcount j' =
      (waitersOf (s.kernel.list j') s.msgwaitq r).length := I.counted j' st' hj' r hr
  show ((s.setMsgq q f).msgq r).waitcount j' =
    (waitersOf (k.list j') (update s.msgwaitq s.kernel.head q) r).length
  by_cases hjj : j' = j
  · subst hjj
    have hp : (k.list j').Perm (s.kernel.head :: s.kernel.list j') := by
      rw [hlist]
      unfold blockedList
      rw [if_pos hj.prioritized.2]
      exact insertKeyed_perm _ _ _
    rw [counted_setMsgq (hf _), waitersOf_perm hp, waitersOf_cons, update_self,
      waitersOf_update (hnot j' st' hj'), hcount]
    push_cast
    split <;> rfl
  · exact I.counted_other hj' (B j' hjj hj'.waits.blocked.1 hj'.waits.blocked.2.1)
      (fun c => hf' c _ _ hj' hjj) (hnot j' st' hj') hr

theorem WInv.wake (I : WInv cfg s) (hj : Waitlist j st) {f : Msgs → Msgs}
    (hf : ∀ c, (f c).waitcount j = c.waitcount j - 1)
    (hf' : ∀ c j' st', Waitlist j' st' → j' ≠ j → (f c).waitcount j' = c.waitcount j')
    (hfirst : firstWaiter j q s = some t) (he : Mqueue.wake cfg t q f s = some s') :
    WInv cfg s' := by
  obtain ⟨k, hk, hs'⟩ := Option.map_eq_some_iff.mp he
  have O := I.kernel.ok
  have hb := hj.waits.blocked
  have hmem : t ∈ s.kernel.list j := List.mem_of_find?_eq_some hfirst
  have hwq : s.msgwaitq t = q := by simpa using List.find?_some hfirst
  obtain ⟨k₁, h₁, O₁, K, hlist, B, L, -⟩ := O.unblock cfg hmem hb.1 hb.2.1
  cases h₁.symm.trans hk
  have hinv : Sched.Inv cfg k := ⟨O₁, I.kernel.pids.congr (fun u _ => K.pid u) K.gPidhash L⟩
  have hnd := O.wf.nodup j
  subst hs'
  refine ⟨hinv, ?_⟩
  intro j' st' hj' r hr
  have hcount : (s.msgq r).waitcount j' =
      (waitersOf (s.kernel.list j') s.msgwaitq r).length := I.counted j' st' hj' r hr
  show ((s.setMsgq q f).msgq r).waitcount j' =
    (waitersOf (k.list j') (update s.msgwaitq t 0) r).length
  by_cases hjj : j' = j
  · subst hjj
    have hnot : t ∉ (s.kernel.list j').erase t := fun h => (hnd.mem_erase_iff.mp h).1 rfl
    rw [counted_setMsgq (d := -1) (by rw [hf]; rfl), hlist, waitersOf_update hnot, hcount,
      waitersOf_perm (List.perm_cons_erase hmem), waitersOf_cons, hwq]
    push_cast
    split <;> omega
  · exact I.counted_other hj' (B j' hjj hj'.waits.blocked.1 hj'.waits.blocked.2.1)
      (fun c => hf' c _ _ hj' hjj) (fun hm => hjj (O.wf.list_unique hm hmem)) hr

theorem WInv.wakeReceiver (I : WInv cfg s) (he : Mqueue.wakeReceiver cfg q s = some s') :
    WInv cfg s' := by
  unfold Mqueue.wakeReceiver at he
  split at he
  · split at he
    · cases he
    · rename_i t ht
      apply I.wake .notempty _ _ ht he
      · exact fun c => rfl
      · intro c j' st' hj' hne
        cases hj' with
        | notempty => exact absurd rfl hne
        | notfull => rfl
  · cases he
    exact I

theorem WInv.wakeSender (I : WInv cfg s) (he : Mqueue.wakeSender cfg q s = some s') :
    WInv cfg s' := by
  unfold Mqueue.wakeSender at he
  split at he
  · split at he
    · cases he
    · rename_i t ht
      apply I.wake .notfull _ _ ht he
      · exact fun c => rfl
      · intro c j' st' hj' hne
        cases hj' with
        | notempty => rfl
        | notfull => exact absurd rfl hne
  · cases he
    exact I

/-- A step that leaves the kernel, who waits for what, and the counters. -/
structure Steady (s s' : Sys) : Prop where
  kernel : s'.kernel = s.kernel
  msgwaitq : s'.msgwaitq = s.msgwaitq
  counts : ∀ j q, (s'.msgq q).waitcount j = (s.msgq q).waitcount j

theorem WInv.steady (I : WInv cfg s) (h : Steady s s') : WInv cfg s' :=
  I.same h.kernel h.msgwaitq h.counts

theorem Steady.trans {s'' : Sys} (h : Steady s s') (h' : Steady s' s'') : Steady s s'' :=
  ⟨h'.kernel.trans h.kernel, h'.msgwaitq.trans h.msgwaitq,
    fun j q => (h'.counts j q).trans (h.counts j q)⟩

theorem steady_setCalls (fs : List MqCall) : Steady s (s.setCalls t fs) :=
  ⟨rfl, rfl, fun _ _ => rfl⟩

theorem steady_msgalloc (irq : Bool) (mem : Option Nat) : Steady s (mqMsgalloc irq mem s).1 := by
  unfold mqMsgalloc
  split
  · exact ⟨rfl, rfl, fun _ _ => rfl⟩
  · split
    · split <;> exact ⟨rfl, rfl, fun _ _ => rfl⟩
    · split <;> exact ⟨rfl, rfl, fun _ _ => rfl⟩

theorem steady_msgfree (n : Nat) : Steady s (mqMsgfree n s) := by
  unfold mqMsgfree
  split <;> exact ⟨rfl, rfl, fun _ _ => rfl⟩

theorem steady_insert (msg : Payload) (n : Nat) : Steady s (mqInsert q msg n s) := by
  refine ⟨rfl, rfl, ?_⟩
  intro j r
  unfold mqInsert
  apply Eq.trans (setMsgq_waitcount _ r j)
  · rfl
  · exact fun _ => rfl

end

def Sys.full (s : Sys) (q : Nat) : Bool := decide ((s.msgq q).maxmsgs ≤ (s.msgq q).nmsgs)

def MqOp.waitsForRoom (s : Sys) : MqOp → Bool
  | .send q _ nonblock => s.full q && !nonblock
  | .step _ _ =>
    match s.calls s.kernel.head with
    | .waitsend q _ :: _ => s.full q && decide (s.errno s.kernel.head = 0)
    | _ => false
  | _ => false

/-- A timeout or a signal finds a task waiting for a message or for room. -/
def MqOp.endsWait (s : Sys) : MqOp → Bool
  | .sndtimeout t => decide ((s.kernel.tcb t).taskState = .waitMqnotfull)
  | .rcvtimeout t => decide ((s.kernel.tcb t).taskState = .waitMqnotempty)
  | .waitirq t => decide (IsMqwait (s.kernel.tcb t).taskState)
  | _ => false

/-- No sender waits for room, and no wait ends by a timeout or a signal. -/
def MqOp.countsRight (s : Sys) (i : MqOp) : Prop :=
  i.waitsForRoom s = false ∧ i.endsWait s = false

instance decidableCountsRight (s : Sys) (i : MqOp) : Decidable (i.countsRight s) := by
  unfold MqOp.countsRight
  infer_instance

section

variable {cfg : Config} {s s' : Sys} {q t : Nat} {below : List MqCall}

theorem WInv.sendTest (I : WInv cfg s) {msg : Payload} {nonblock : Bool}
    (hok : (s.full q && !nonblock) = false)
    (he : Mqueue.sendTest q msg nonblock below s = some s') : WInv cfg s' := by
  unfold Mqueue.sendTest at he
  dsimp only at he
  split at he
  · cases he
    exact I.steady (steady_setCalls _)
  · rename_i hroom
    split at he
    · cases he
      exact I.steady (steady_setCalls _)
    · rename_i hn
      simp [Sys.full, hn] at hok
      omega

theorem WInv.receiveTest (I : WInv cfg s) (hidle : s.kernel.head ≠ gIdletcb) {nonblock : Bool}
    (he : Mqueue.receiveTest q nonblock below s = some s') : WInv cfg s' := by
  unfold Mqueue.receiveTest at he
  dsimp only at he
  split at he
  · cases he
    apply I.steady
    apply Steady.trans _ (steady_setCalls _)
    exact ⟨rfl, rfl, fun j r => setMsgq_waitcount (fun _ => rfl) r j⟩
  · split at he
    · cases he
      exact I.steady (steady_setCalls _)
    · have I' : WInv cfg (s.setCalls s.kernel.head (.waitreceive q :: below)) :=
        I.steady (steady_setCalls _)
      apply I'.waitOn hidle .notempty _ _ he
      · exact fun c => rfl
      · intro c j' st' hj' hne
        cases hj' with
        | notempty => exact absurd rfl hne
        | notfull => rfl

theorem WInv.callStep (I : WInv cfg s) (hidle : s.kernel.head ≠ gIdletcb) {c : MqCall}
    {mem : Option Nat} {nonblock : Bool}
    (hok : ∀ q msg, c = .waitsend q msg → s.errno s.kernel.head = 0 → s.full q = false)
    (he : Mqueue.callStep cfg mem nonblock c below s = some s') : WInv cfg s' := by
  unfold Mqueue.callStep at he
  dsimp only at he
  cases c with
  | waitsend q msg =>
    dsimp only at he
    split at he
    · cases he
      exact I.steady (steady_setCalls _)
    · rename_i h0
      exact I.sendTest (by simp [hok q msg rfl (not_not.mp h0)]) he
  | msgalloc q msg =>
    dsimp only at he
    have hs : Steady s (mqMsgalloc false mem s).1 := steady_msgalloc false mem
    cases ha : mqMsgalloc false mem s with
    | mk s1 r =>
      rw [ha] at he hs
      cases r with
      | none => cases he
      | some n =>
        cases he
        exact I.steady (hs.trans (steady_setCalls _))
  | dosend q msg n =>
    cases he
    exact I.steady ((steady_insert msg n).trans (steady_setCalls _))
  | wakeReceiver q => exact (I.steady (steady_setCalls _)).wakeReceiver he
  | waitreceive q =>
    dsimp only at he
    split at he
    · cases he
      exact I.steady (steady_setCalls _)
    · exact I.receiveTest hidle he
  | doreceive q n =>
    cases he
    apply I.steady
    apply Steady.trans _ (steady_msgfree n)
    exact ⟨rfl, rfl, fun _ _ => rfl⟩
  | wakeSender q => exact (I.steady (steady_setCalls _)).wakeSender he

theorem WInv.endWait (I : WInv cfg s) {e : Nat} {states : List TaskState}
    (h : (s.kernel.tcb t).taskState ∉ states)
    (he : Mqueue.endWait cfg t e states s = some s') : WInv cfg s' := by
  unfold Mqueue.endWait at he
  rw [if_neg h] at he
  cases he
  exact I

theorem spares_of_otherCall {i : Sched.Op} {j : TaskList} {st : TaskState} (hj : Waitlist j st)
    (h : otherCall cfg s i) : i.spares cfg s.kernel j := by
  have hstate : ∀ st' : TaskState, st'.list = some j → IsMqwait st' := by
    intro st' hs
    rw [hj.of_list hs]
    exact hj.mqwait
  cases i with
  | block t st' => exact fun he => h (hstate _ he)
  | unblock t => exact fun he => h (hstate _ he)
  | delete irq pid => exact fun he => h.2 (hstate _ he)
  | _ => trivial

theorem WInv.sched (I : WInv cfg s) {i : Sched.Op}
    (hv : i.valid cfg s.kernel.toTasks s.kernel.head) (ho : otherCall cfg s i) {k : Kernel}
    (hk : i.exec cfg s.kernel = some k) : WInv cfg { s.created i with kernel := k } := by
  apply I.congr
  · exact I.kernel.step hv hk
  · intro j st hj
    exact I.kernel.spares hv hj.waits (spares_of_otherCall hj ho) hk
  · intro j st hj t ht
    cases i with
    | create tcb priority =>
      show update s.msgwaitq tcb 0 t = _
      apply update_of_ne
      intro hc
      apply hv.2.1
      rw [← hc]
      exact I.kernel.live_iff.mpr ⟨j, ht⟩
    | _ => rfl
  · intro j q
    cases i with
    | create tcb priority => rfl
    | _ => rfl

theorem WInv.step (I : WInv cfg s) {i : MqOp} (hv : i.valid cfg s) (hk : i.countsRight s)
    (he : i.exec cfg s = some s') : WInv cfg s' := by
  cases i with
  | sched i =>
    obtain ⟨k, hk', hs'⟩ := Option.map_eq_some_iff.mp he
    rw [← hs']
    exact I.sched hv.1 hv.2 hk'
  | send q msg nonblock => exact I.sendTest hk.1 he
  | receive q nonblock => exact I.receiveTest hv.1 he
  | step mem nonblock =>
    simp only [MqOp.exec] at he
    cases hc : s.calls s.kernel.head with
    | nil =>
      rw [hc] at he
      cases he
    | cons c below =>
      rw [hc] at he
      apply I.callStep hv.1 _ he
      intro q msg hcq h0
      have h1 := hk.1
      simp only [MqOp.waitsForRoom, hc, hcq, h0] at h1
      simpa using h1
  | sendIrq q msg =>
    simp only [MqOp.exec, mqSendIrq] at he
    have hs : Steady s (mqMsgalloc true none s).1 := steady_msgalloc true none
    cases ha : mqMsgalloc true none s with
    | mk s1 r =>
      rw [ha] at he hs
      cases r with
      | none =>
        cases he
        exact I.steady hs
      | some n =>
        have hi : Steady s1
            { mqInsert q msg n s1 with irqSent := update s1.irqSent q true } :=
          (steady_insert msg n).trans ⟨rfl, rfl, fun _ _ => rfl⟩
        exact (I.steady (hs.trans hi)).wakeReceiver he
  | sndtimeout t =>
    apply I.endWait _ he
    have h1 := hk.2
    simpa [MqOp.endsWait] using h1
  | rcvtimeout t =>
    apply I.endWait _ he
    have h1 := hk.2
    simpa [MqOp.endsWait] using h1
  | waitirq t =>
    apply I.endWait _ he
    have h1 : ¬IsMqwait (s.kernel.tcb t).taskState := of_decide_eq_false hk.2
    intro hm
    apply h1
    simpa [IsMqwait] using hm

theorem MqStart.winv (h : MqStart cfg s) : WInv cfg s := by
  refine ⟨by rw [h.kernel]; exact osStart_inv cfg, ?_⟩
  intro j st hj q _
  have hw : waiters j q s = [] := by
    unfold waiters waitersOf
    rw [h.kernel, osStart_list, if_neg hj.waits.blocked.1]
    rfl
  rw [hw, (h.queues q).2]
  cases hj <;> rfl

end

/-- In every run in which no sender waits for room and no wait ends by a timeout or a
signal, the counters are the numbers of waiting tasks. -/
theorem waiters_counted {cfg : Config} {s : Sys}
    (h : Reach (mqMachine cfg) (MqStart cfg) (fun s i => i.countsRight s) s) :
    WaitersCounted cfg s := by
  have I : WInv cfg s := by
    apply Reach.invariant (I := WInv cfg) _ _ h
    · exact fun s hs => hs.winv
    · exact fun s i s' I hv hk he => I.step hv hk he
  exact I.waitersCounted

/-- The kernel at its start and one queue for two messages, with four messages in the
pools. -/
def mqBoot : Sys where
  kernel := osStart ⟨4, none, false, 0, 0⟩
  tasks := [gIdletcb]
  msgq _ := ⟨2, 0, 0, 0, []⟩
  msg n := ⟨⟨0, 0, []⟩, if n < 13 then .fixed else .irq⟩
  gMsgfree := [11, 12]
  gMsgfreeirq := [13, 14]
  memory := [11, 12, 13, 14]
  msgwaitq _ := 0
  errno _ := 0
  calls _ := []
  serial _ := 0
  sent _ := []
  received _ := []
  irqSent _ := false

theorem mqBoot_start : MqStart ⟨4, none, false, 0, 0⟩ mqBoot where
  kernel := rfl
  tasks := rfl
  calls := rfl
  msgwaitq := rfl
  queues _ := ⟨(by decide : (0 : Int) ≤ 2), rfl⟩
  memory := rfl
  nodup := by decide
  types := by decide
  sent := rfl
  received := rfl
  irqSent := rfl

def receiverWaits : List MqOp :=
  [.sched (.create 2 100), .sched (.activate 2), .receive 7 false]

/-- Another task sends one, and the waiting task runs again. -/
theorem waiters_counted_run : ∃ s : Sys, s.kernel.head = 2 ∧ (s.msgq 7).nmsgs = 1 ∧
    WaitersCounted ⟨4, none, false, 0, 0⟩ s := by
  have hr : ((runAll (mqMachine ⟨4, none, false, 0, 0⟩) (fun s i => i.countsRight s) mqBoot
      (receiverWaits ++ [.sched (.create 3 90), .sched (.activate 3), .send 7 ⟨1, 1, [5]⟩ false,
        .step none false, .step none false, .step none false])).any fun s =>
        decide (s.kernel.head = 2 ∧ (s.msgq 7).nmsgs = 1)) = true := by
    decide +kernel
  obtain ⟨s, hs, hd⟩ := (Option.any_eq_true _ _).mp hr
  obtain ⟨h1, h2⟩ := of_decide_eq_true hd
  exact ⟨s, h1, h2, waiters_counted (Reach.runAll (.init mqBoot_start) hs)⟩

/-- A sender that waits for room is counted among those that wait for a message. -/
theorem waiters_miscounted : ¬∀ s, Reachable (mqMachine ⟨4, none, false, 0, 0⟩)
    (MqStart ⟨4, none, false, 0, 0⟩) s → WaitersCounted ⟨4, none, false, 0, 0⟩ s := by
  intro hall
  have hr : ((runAll (mqMachine ⟨4, none, false, 0, 0⟩) (fun _ _ => True) mqBoot
      [.sched (.create 2 100), .sched (.activate 2), .send 7 ⟨1, 1, [5]⟩ false, .step none false,
        .step none false, .step none false, .send 7 ⟨1, 1, [6]⟩ false, .step none false,
        .step none false, .step none false, .send 7 ⟨1, 1, [8]⟩ false]).any fun s =>
        decide ((s.msgq 7).nwaitnotfull ≠ (waiters .waitingformqnotfull 7 s).length)) = true := by
    decide +kernel
  obtain ⟨s, hs, hd⟩ := (Option.any_eq_true _ _).mp hr
  have hc := (hall s (Reach.runAll (.init mqBoot_start) hs)).counted _ _ .notfull 7 (by decide)
  exact of_decide_eq_true hd hc

end NuttxAvr32.Mqueue
