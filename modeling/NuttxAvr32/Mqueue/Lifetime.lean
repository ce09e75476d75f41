import NuttxAvr32.Mqueue.Msgq
import NuttxAvr32.Lib.Owners
import NuttxAvr32.Lib.Runs
import Mathlib.Tactic.Ring

/-! # The lifetime of message queues

Runs of `mq_open`, `mq_close`, `mq_unlink` and of tasks that come and go, with the
list of the tasks that are alive beside the queues.
-/

namespace NuttxAvr32.Mqueue

open Owners Runs
open Function (update update_self update_of_ne update_eq_self)

structure State where
  queues : Queues
  tasks : List Nat

def State.held (s : State) : List Nat := owned s.tasks s.queues.msgdesq

def Queues.descriptors (q : Queues) : List Nat := q.gDesalloc.flatMap blockDes

inductive Op
  | create (tcb : Nat)
  | exit (tcb : Nat)
  | mqOpen (rtcb : Nat) (mqName : String) (oflags : Nat) (attr : Option MqAttr) (mem base : Nat)
  | mqClose (rtcb mqdes : Nat)
  | mqUnlink (mqName : String)

def Op.exec (maxBytes : Int) : Op → State → State
  | .create tcb, s => ⟨taskCreate tcb s.queues, tcb :: s.tasks⟩
  | .exit tcb, s => ⟨schedReleasetcb tcb s.queues, s.tasks.erase tcb⟩
  | .mqOpen rtcb mqName oflags attr mem base, s =>
    { s with queues := (Mqueue.mqOpen maxBytes rtcb mqName oflags attr mem base s.queues).1 }
  | .mqClose rtcb mqdes, s => { s with queues := Mqueue.mqClose rtcb mqdes s.queues }
  | .mqUnlink mqName, s => { s with queues := (Mqueue.mqUnlink mqName s.queues).1 }

/-- A block of descriptors that `kmalloc` can return. -/
def FreshBlock (base : Nat) (q : Queues) : Prop :=
  base ≠ 0 → ∀ d ∈ blockDes base, d ∉ q.descriptors

/-- `kmalloc` gives memory that is not in use, and tasks close their own descriptors. -/
def Op.valid : Op → State → Prop
  | .create tcb, s => tcb ∉ s.tasks
  | .exit tcb, s => tcb ∈ s.tasks
  | .mqOpen rtcb _ _ _ mem base, s =>
    rtcb ∈ s.tasks ∧ mem ∉ s.queues.memory ∧ FreshBlock base s.queues
  | .mqClose rtcb mqdes, s => rtcb ∈ s.tasks ∧ (mqdes = 0 ∨ mqdes ∈ s.queues.msgdesq rtcb)
  | .mqUnlink _, _ => True

/-- A task goes without open descriptors, and no queue gets its 32768th. -/
def Op.safe : Op → State → Prop
  | .exit tcb, s => s.queues.msgdesq tcb = []
  | .mqOpen _ mqName _ _ _ _, s =>
    (s.queues.msgq (mqFindnamed mqName s.queues)).nconnect < 2 ^ 15 - 1
  | _, _ => True

instance (base : Nat) (q : Queues) : Decidable (FreshBlock base q) := by
  unfold FreshBlock
  infer_instance

instance (i : Op) (s : State) : Decidable (i.valid s) := by
  cases i <;> (unfold Op.valid; infer_instance)

instance (i : Op) (s : State) : Decidable (i.safe s) := by
  cases i <;> (unfold Op.safe; infer_instance)

def queueMachine (maxBytes : Int) : Machine State Op where
  valid s i := i.valid s
  exec s i := some (i.exec maxBytes s)

instance (maxBytes : Int) (s : State) (i : Op) : Decidable ((queueMachine maxBytes).valid s i) :=
  inferInstanceAs (Decidable (i.valid s))

/-- What `mq_initialize` leaves, before any task uses message queues. -/
def started (base : Nat) (tasks : List Nat) : State := ⟨mqInitialize base, tasks⟩

def State.connections (s : State) (q : Nat) : Nat :=
  s.held.countP fun d => decide ((s.queues.des d).msgq = q)

structure LifetimeOk (s : State) : Prop where
  nconnect : ∀ q ∈ s.queues.memory, (s.queues.msgq q).nconnect = s.connections q
  listed : ∀ q, q ∈ s.queues.gMsgqueues ↔ q ∈ s.queues.memory ∧
    ((s.queues.msgq q).unlinked = false ∨ 0 < (s.queues.msgq q).nconnect)
  no_dangling : ∀ d ∈ s.held, (s.queues.des d).msgq ∈ s.queues.memory
  returned : ∀ d ∈ s.queues.descriptors, d ∉ s.held → d ∈ s.queues.gDesfree

structure Inv (s : State) : Prop where
  tasks : s.tasks.Nodup
  memory : s.queues.memory.Nodup
  nonzero : 0 ∉ s.queues.memory
  list : s.queues.gMsgqueues.Perm s.queues.memory
  descriptors : s.queues.descriptors.Nodup
  pool : (s.queues.gDesfree ++ s.held).Perm s.queues.descriptors
  connected : ∀ d ∈ s.held, (s.queues.des d).msgq ∈ s.queues.memory
  count : ∀ q ∈ s.queues.memory, (s.queues.msgq q).nconnect = s.connections q
  bound : ∀ q ∈ s.queues.memory, (s.queues.msgq q).nconnect < 2 ^ 15
  kept : ∀ q ∈ s.queues.memory, (s.queues.msgq q).unlinked = true →
    (s.queues.msgq q).nconnect ≠ 0

theorem Inv.lifetimeOk {s : State} (I : Inv s) : LifetimeOk s where
  nconnect := I.count
  listed q := by
    rw [I.list.mem_iff]
    constructor
    · intro hq
      refine ⟨hq, ?_⟩
      cases hu : (s.queues.msgq q).unlinked with
      | false => exact .inl rfl
      | true =>
        have h0 := I.kept q hq hu
        have hc := I.count q hq
        exact .inr (by omega)
    · exact fun h => h.1
  no_dangling := I.connected
  returned d hd hh := by
    rw [← I.pool.mem_iff, List.mem_append] at hd
    exact hd.resolve_right hh

theorem blockDes_nodup (base : Nat) : (blockDes base).Nodup := List.nodup_range'

theorem wrapInt16_eq {x : Int} (h : -2 ^ 15 ≤ x) (h' : x < 2 ^ 15) : wrapInt16 x = x := by
  unfold wrapInt16
  exact Int.bmod_eq_of_le (by omega) (by omega)

theorem started_inv {base : Nat} {tasks : List Nat} (h : tasks.Nodup) : Inv (started base tasks) := by
  have hheld : ∀ q : Queues, q.msgdesq = (fun _ => []) → owned tasks q.msgdesq = [] := by
    intro q hq
    rw [hq]
    simp [owned]
  have hmsg : (mqInitialize base).msgdesq = fun _ => [] := by
    unfold mqInitialize mqDesblockalloc
    split <;> rfl
  have hmem : (mqInitialize base).memory = [] ∧ (mqInitialize base).gMsgqueues = [] := by
    unfold mqInitialize mqDesblockalloc
    split <;> exact ⟨rfl, rfl⟩
  have hheld' : (started base tasks).held = [] := hheld _ hmsg
  have hmem' : (started base tasks).queues.memory = [] := hmem.1
  have hpool : (started base tasks).queues.gDesfree = (started base tasks).queues.descriptors ∧
      (started base tasks).queues.descriptors.Nodup := by
    show (mqInitialize base).gDesfree = (mqInitialize base).descriptors ∧
      (mqInitialize base).descriptors.Nodup
    unfold mqInitialize mqDesblockalloc Queues.descriptors
    split
    · simp [blockDes_nodup]
    · simp
  constructor
  · exact h
  · rw [hmem']
    exact List.nodup_nil
  · rw [hmem']
    exact List.not_mem_nil
  · show (mqInitialize base).gMsgqueues.Perm _
    rw [hmem.2, hmem']
  · exact hpool.2
  · rw [hheld', List.append_nil, hpool.1]
  · simp [hheld']
  · simp [hmem']
  · simp [hmem']
  · simp [hmem']

theorem zero_not_mem_descriptors {base : Nat} (h : base ≠ 0) : 0 ∉ blockDes base := by
  unfold blockDes
  rw [List.mem_range'_1]
  omega

theorem mqDesalloc_nil {base : Nat} {q : Queues} (h : q.gDesfree = []) :
    mqDesalloc base q = if base = 0 then (q, 0) else
      ({ q with
        gDesalloc := q.gDesalloc ++ [base]
        gDesfree := (blockDes base).tail }, base) := by
  unfold mqDesalloc mqDesblockalloc
  rw [if_pos h]
  by_cases hb : base = 0
  · rw [if_neg (by omega), if_pos hb]
    dsimp only
    rw [h]
  · rw [if_pos hb, if_neg hb, h]
    rfl

theorem mqDesalloc_cons {base d : Nat} {free : List Nat} {q : Queues}
    (h : q.gDesfree = d :: free) : mqDesalloc base q = ({ q with gDesfree := free }, d) := by
  unfold mqDesalloc
  rw [if_neg (by rw [h]; simp)]
  dsimp only
  rw [h]

theorem Inv.descreate {s : State} (I : Inv s) (hz : 0 ∉ s.queues.descriptors)
    {mtcb msgq oflags base : Nat} (hb : FreshBlock base s.queues) :
    mqDescreate mtcb msgq oflags base s.queues = (s.queues, 0) ∨
      ∃ d free desalloc, d ≠ 0 ∧ d ∉ s.held ∧
        mqDescreate mtcb msgq oflags base s.queues =
          ({ s.queues with
            gDesfree := free
            gDesalloc := desalloc
            des := update s.queues.des d ⟨msgq, oflags⟩
            msgdesq := update s.queues.msgdesq mtcb (s.queues.msgdesq mtcb ++ [d]) }, d) ∧
        (desalloc.flatMap blockDes).Nodup ∧ 0 ∉ desalloc.flatMap blockDes ∧
        (d :: free ++ s.held).Perm (desalloc.flatMap blockDes) := by
  have hn := I.pool.nodup_iff.mpr I.descriptors
  unfold mqDescreate
  cases hf : s.queues.gDesfree with
  | nil =>
    rw [mqDesalloc_nil hf]
    by_cases h0 : base = 0
    · left
      rw [if_pos h0]
      rfl
    · right
      have hpool := I.pool
      rw [hf, List.nil_append] at hpool
      have hblock : base :: (blockDes base).tail = blockDes base := rfl
      have hmem : base ∈ blockDes base := by
        rw [← hblock]
        exact List.mem_cons_self
      refine ⟨base, (blockDes base).tail, s.queues.gDesalloc ++ [base], h0, ?_, ?_, ?_, ?_, ?_⟩
      · exact fun h => hb h0 base hmem (hpool.mem_iff.mp h)
      · rw [if_neg h0]
        dsimp only
        rw [if_pos h0]
      · rw [List.flatMap_append, List.flatMap_singleton]
        apply List.nodup_append.mpr
        exact ⟨I.descriptors, blockDes_nodup base, fun a ha b hb' he => hb h0 b hb' (he ▸ ha)⟩
      · rw [List.flatMap_append, List.flatMap_singleton, List.mem_append]
        exact fun h => h.elim hz (zero_not_mem_descriptors h0)
      · rw [hblock, List.flatMap_append, List.flatMap_singleton]
        exact (List.perm_append_comm).trans (hpool.append_right _)
  | cons d free =>
    right
    have hpool := I.pool
    rw [hf] at hpool hn
    have hd0 : d ≠ 0 := by
      intro h
      apply hz
      rw [← h]
      exact hpool.mem_iff.mp (by simp)
    refine ⟨d, free, s.queues.gDesalloc, hd0, ?_, ?_, I.descriptors, hz, hpool⟩
    · rw [List.cons_append] at hn
      exact fun h => (List.nodup_cons.mp hn).1 (List.mem_append_right _ h)
    · rw [mqDesalloc_cons hf]
      dsimp only
      rw [if_pos hd0]

theorem mqFindnamed_mem {mqName : String} {q : Queues} (h : mqFindnamed mqName q ≠ 0) :
    mqFindnamed mqName q ∈ q.gMsgqueues := by
  unfold mqFindnamed at h ⊢
  cases hf : q.gMsgqueues.find? (fun a => decide ((q.msgq a).name = mqName)) with
  | none =>
    rw [hf] at h
    exact absurd rfl h
  | some a => exact List.mem_of_find?_eq_some hf

/-- A task gets a descriptor of a queue that has memory, and its count goes up by one. -/
theorem Inv.connect {s : State} (I : Inv s) {q : Queues} {mtcb msgq oflags d : Nat}
    (ht : mtcb ∈ s.tasks) (hd : d ∉ s.held)
    (hdes : q.des = update s.queues.des d ⟨msgq, oflags⟩)
    (hmsgdesq : q.msgdesq =
      update s.queues.msgdesq mtcb (s.queues.msgdesq mtcb ++ [d]))
    (hpool : (q.gDesfree ++ d :: s.held).Perm q.descriptors) (hn : q.descriptors.Nodup)
    (hlist : q.gMsgqueues.Perm q.memory) (hmemory : q.memory.Nodup) (h0 : 0 ∉ q.memory)
    (hsub : ∀ a, a ∈ q.memory ↔ a = msgq ∨ a ∈ s.queues.memory)
    (hother : ∀ a, a ≠ msgq → q.msgq a = s.queues.msgq a)
    (hcount : (q.msgq msgq).nconnect = s.connections msgq + 1)
    (hbound : (q.msgq msgq).nconnect < 2 ^ 15) : Inv { s with queues := q } := by
  have hheld : ({ s with queues := q } : State).held.Perm (d :: s.held) := by
    show (owned s.tasks q.msgdesq).Perm _
    rw [hmsgdesq]
    exact owned_push I.tasks ht
  have hdesold : ∀ e ∈ s.held, q.des e = s.queues.des e := by
    intro e he
    rw [hdes]
    apply update_of_ne
    intro h
    exact hd (h ▸ he)
  have hdesnew : q.des d = ⟨msgq, oflags⟩ := by
    rw [hdes, update_self]
  have hconn : ∀ a, ({ s with queues := q } : State).connections a =
      s.connections a + if msgq = a then 1 else 0 := by
    intro a
    show List.countP _ ({ s with queues := q } : State).held = _
    rw [hheld.countP_eq, List.countP_cons]
    show List.countP (fun e => decide ((q.des e).msgq = a)) s.held + _ = _
    rw [hdesnew]
    have hc : List.countP (fun e => decide ((q.des e).msgq = a)) s.held = s.connections a := by
      apply List.countP_congr
      intro e he
      rw [hdesold e he]
    rw [hc]
    simp
  constructor
  · exact I.tasks
  · exact hmemory
  · exact h0
  · exact hlist
  · exact hn
  · exact ((hheld.append_left _).trans hpool)
  · intro e he
    rw [hheld.mem_iff, List.mem_cons] at he
    show (q.des e).msgq ∈ q.memory
    rw [hsub]
    rcases he with rfl | he
    · rw [hdesnew]
      exact .inl rfl
    · rw [hdesold e he]
      exact .inr (I.connected e he)
  · intro a ha
    rw [hconn]
    show (q.msgq a).nconnect = _
    by_cases he : a = msgq
    · subst he
      rw [hcount, if_pos rfl]
      rfl
    · rw [hother a he, if_neg (Ne.symm he)]
      exact I.count a (((hsub a).mp ha).resolve_left he)
  · intro a ha
    show (q.msgq a).nconnect < 2 ^ 15
    by_cases he : a = msgq
    · subst he
      exact hbound
    · rw [hother a he]
      exact I.bound a (((hsub a).mp ha).resolve_left he)
  · intro a ha hu
    show (q.msgq a).nconnect ≠ 0
    by_cases he : a = msgq
    · subst he
      omega
    · have hu' : (q.msgq a).unlinked = true := hu
      rw [hother a he] at hu' ⊢
      exact I.kept a (((hsub a).mp ha).resolve_left he) hu'

theorem Inv.connections_zero {s : State} (I : Inv s) {q : Nat} (h : q ∉ s.queues.memory) :
    s.connections q = 0 := by
  apply List.countP_eq_zero.mpr
  intro d hd
  have := I.connected d hd
  simp only [decide_eq_true_eq]
  intro he
  exact h (he ▸ this)

theorem Inv.mqOpen {s : State} (I : Inv s) (hz : 0 ∉ s.queues.descriptors) {maxBytes : Int}
    {rtcb : Nat} {mqName : String} {oflags : Nat} {attr : Option MqAttr} {mem base : Nat}
    (hv : (Op.mqOpen rtcb mqName oflags attr mem base).valid s)
    (hs : (Op.mqOpen rtcb mqName oflags attr mem base).safe s) :
    Inv ((Op.mqOpen rtcb mqName oflags attr mem base).exec maxBytes s) ∧
      0 ∉ ((Op.mqOpen rtcb mqName oflags attr mem base).exec maxBytes s).queues.descriptors := by
  have hsame : Mqueue.mqOpen maxBytes rtcb mqName oflags attr mem base s.queues = (s.queues, 0) →
      Inv ((Op.mqOpen rtcb mqName oflags attr mem base).exec maxBytes s) ∧
      0 ∉ ((Op.mqOpen rtcb mqName oflags attr mem base).exec maxBytes s).queues.descriptors := by
    intro h
    show Inv { s with queues := (Mqueue.mqOpen _ _ _ _ _ _ _ _).1 } ∧
      0 ∉ (Mqueue.mqOpen _ _ _ _ _ _ _ _).1.descriptors
    rw [h]
    exact ⟨I, hz⟩
  obtain ⟨ht, hmem, hbase⟩ := hv
  unfold Mqueue.mqOpen at hsame
  by_cases hlen : mqName.length = 0
  · exact hsame (if_pos hlen)
  rw [if_neg hlen] at hsame
  dsimp only at hsame
  by_cases hfound : mqFindnamed mqName s.queues ≠ 0
  · rw [if_pos hfound] at hsame
    by_cases hfl : oflags &&& oCreat = 0 ∨ oflags &&& oExcl = 0
    · rw [if_pos hfl] at hsame
      rcases @Inv.descreate s I hz rtcb (mqFindnamed mqName s.queues) oflags base hbase with hc | ⟨d, free, desalloc, hd0, hd, hc, hn, hz', hp⟩
      · rw [hc] at hsame
        exact hsame rfl
      · have hq := I.list.mem_iff.mp (mqFindnamed_mem hfound)
        have hcount := I.count _ hq
        have hsafe : (s.queues.msgq (mqFindnamed mqName s.queues)).nconnect < 2 ^ 15 - 1 := hs
        show Inv { s with queues := (Mqueue.mqOpen _ _ _ _ _ _ _ _).1 } ∧
          0 ∉ (Mqueue.mqOpen _ _ _ _ _ _ _ _).1.descriptors
        unfold Mqueue.mqOpen
        rw [if_neg hlen]
        dsimp only
        rw [if_pos hfound, if_pos hfl, hc]
        dsimp only
        rw [if_pos hd0]
        dsimp only
        refine ⟨?_, hz'⟩
        apply I.connect ht hd rfl rfl
        · exact (List.perm_middle).trans hp
        · exact hn
        · exact I.list
        · exact I.memory
        · exact I.nonzero
        · intro a
          constructor
          · exact .inr
          · rintro (rfl | h)
            · exact hq
            · exact h
        · exact fun a ha => update_of_ne ha _ _
        · dsimp only
          rw [update_self]
          dsimp only
          rw [wrapInt16_eq (by omega) (by omega), hcount]
        · dsimp only
          rw [update_self]
          dsimp only
          rw [wrapInt16_eq (by omega) (by omega)]
          omega
    · exact hsame (if_neg hfl)
  · rw [if_neg hfound] at hsame
    by_cases hcr : oflags &&& oCreat ≠ 0 ∧ mem ≠ 0
    · rw [if_pos hcr] at hsame
      rcases @Inv.descreate s I hz rtcb mem oflags base hbase with
        hc | ⟨d, free, desalloc, hd0, hd, hc, hn, hz', hp⟩
      · rw [hc] at hsame
        exact hsame rfl
      · show Inv { s with queues := (Mqueue.mqOpen _ _ _ _ _ _ _ _).1 } ∧
          0 ∉ (Mqueue.mqOpen _ _ _ _ _ _ _ _).1.descriptors
        unfold Mqueue.mqOpen
        rw [if_neg hlen]
        dsimp only
        rw [if_neg hfound, if_pos hcr, hc]
        dsimp only
        rw [if_pos hd0]
        dsimp only
        refine ⟨?_, hz'⟩
        apply I.connect ht hd rfl rfl
        · exact (List.perm_middle).trans hp
        · exact hn
        · exact (List.perm_append_singleton _ _).trans (I.list.cons _)
        · exact List.nodup_cons.mpr ⟨hmem, I.memory⟩
        · intro h
          rcases List.mem_cons.mp h with h | h
          · exact hcr.2 h.symm
          · exact I.nonzero h
        · exact fun a => List.mem_cons
        · exact fun a ha => update_of_ne ha _ _
        · dsimp only
          rw [update_self, I.connections_zero hmem]
          rfl
        · dsimp only
          rw [update_self]
          show (1 : Int) < _
          omega
    · exact hsame (if_neg hcr)

theorem disconnect_nconnect {d : Nat} {q : Msgq} (h : 0 < q.nconnect) (h' : q.nconnect < 2 ^ 15) :
    (q.disconnect d).nconnect = q.nconnect - 1 := by
  unfold Msgq.disconnect
  dsimp only
  have hw : wrapInt16 (q.nconnect - 1) = q.nconnect - 1 := wrapInt16_eq (by omega) (by omega)
  split
  · rw [if_pos (show q.nconnect ≠ 0 by omega)]
    exact hw
  · rw [if_pos (show q.nconnect ≠ 0 by omega)]
    exact hw

theorem Inv.remove {s : State} (I : Inv s) {q : Nat} (hq : s.connections q = 0) :
    Inv { s with queues := mqRemove q s.queues } := by
  have hsub : ∀ a ∈ s.queues.memory.erase q, a ∈ s.queues.memory :=
    fun a ha => List.mem_of_mem_erase ha
  refine { I with
    memory := I.memory.erase q
    nonzero := fun h => I.nonzero (hsub _ h)
    list := I.list.erase q
    connected := fun d hd => ?_
    count := fun a ha => I.count a (hsub a ha)
    bound := fun a ha => I.bound a (hsub a ha)
    kept := fun a ha => I.kept a (hsub a ha) }
  apply (I.memory.mem_erase_iff).mpr
  refine ⟨?_, I.connected d hd⟩
  have h := List.countP_eq_zero.mp hq d hd
  exact fun he => h (decide_eq_true he)

theorem Inv.mqClose {s : State} (I : Inv s) {maxBytes : Int} {rtcb mqdes : Nat}
    (hv : (Op.mqClose rtcb mqdes).valid s) : Inv ((Op.mqClose rtcb mqdes).exec maxBytes s) := by
  show Inv { s with queues := Mqueue.mqClose rtcb mqdes s.queues }
  unfold Mqueue.mqClose
  by_cases h0 : mqdes = 0
  · rw [if_pos h0]
    exact I
  rw [if_neg h0]
  dsimp only
  have hd := hv.2.resolve_left h0
  have hheld := owned_erase I.tasks hv.1 hd
  have hin : mqdes ∈ s.held := mem_owned.mpr ⟨rtcb, hv.1, hd⟩
  have hq := I.connected mqdes hin
  have hcount := I.count _ hq
  -- the state with the descriptor closed and the queue still there
  let q := s.queues.msgq (s.queues.des mqdes).msgq
  let t : State := ⟨{ s.queues with
    msgdesq := update s.queues.msgdesq rtcb ((s.queues.msgdesq rtcb).erase mqdes)
    msgq := update s.queues.msgq (s.queues.des mqdes).msgq (q.disconnect mqdes)
    gDesfree := s.queues.gDesfree ++ [mqdes] }, s.tasks⟩
  have hconn : ∀ a, s.connections a =
      t.connections a + if (s.queues.des mqdes).msgq = a then 1 else 0 := by
    intro a
    unfold State.connections
    have hc := hheld.countP_eq (fun d => decide ((s.queues.des d).msgq = a))
    rw [List.countP_cons] at hc
    have hp : List.countP (fun d => decide ((s.queues.des d).msgq = a)) s.held =
        List.countP (fun d => decide ((s.queues.des d).msgq = a)) (owned s.tasks s.queues.msgdesq) :=
      rfl
    rw [hp, hc]
    simp only [decide_eq_true_eq]
    rfl
  have hpos := hconn (s.queues.des mqdes).msgq
  rw [if_pos rfl] at hpos
  have hbound := I.bound _ hq
  have hdis : (q.disconnect mqdes).nconnect = t.connections (s.queues.des mqdes).msgq := by
    rw [disconnect_nconnect (show 0 < q.nconnect by show 0 < (s.queues.msgq _).nconnect; omega)
      hbound]
    show (s.queues.msgq _).nconnect - 1 = _
    omega
  have hlt : (q.disconnect mqdes).nconnect < 2 ^ 15 := by
    show _ < (32768 : Int)
    omega
  have hother : ∀ a, a ≠ (s.queues.des mqdes).msgq → t.queues.msgq a = s.queues.msgq a :=
    fun a ha => update_of_ne ha _ _
  have hself : t.queues.msgq (s.queues.des mqdes).msgq = q.disconnect mqdes :=
    update_self _ _ _
  have hpool : (t.queues.gDesfree ++ t.held).Perm t.queues.descriptors := by
    show (s.queues.gDesfree ++ [mqdes] ++ t.held).Perm s.queues.descriptors
    rw [List.append_assoc]
    exact ((List.Perm.refl _).append hheld.symm).trans I.pool
  have hcounts : ∀ a ∈ s.queues.memory, (t.queues.msgq a).nconnect = t.connections a := by
    intro a ha
    by_cases he : a = (s.queues.des mqdes).msgq
    · subst he
      rw [hself]
      exact hdis
    · have hc := hconn a
      rw [if_neg (Ne.symm he)] at hc
      rw [hother a he, I.count a ha, hc]
      rfl
  have hbounds : ∀ a ∈ s.queues.memory, (t.queues.msgq a).nconnect < 2 ^ 15 := by
    intro a ha
    by_cases he : a = (s.queues.des mqdes).msgq
    · subst he
      rw [hself]
      exact hlt
    · rw [hother a he]
      exact I.bound a ha
  have hconnected : ∀ d ∈ t.held, (s.queues.des d).msgq ∈ s.queues.memory := by
    intro d hd'
    apply I.connected
    exact hheld.mem_iff.mpr (List.mem_cons_of_mem _ hd')
  by_cases hgone : (q.disconnect mqdes).nconnect = 0 ∧ (q.disconnect mqdes).unlinked = true
  · rw [if_pos hgone]
    have hzero : t.connections (s.queues.des mqdes).msgq = 0 := by omega
    -- the queue goes with its last descriptor
    have hsub : ∀ a ∈ s.queues.memory.erase (s.queues.des mqdes).msgq, a ∈ s.queues.memory :=
      fun a ha => List.mem_of_mem_erase ha
    constructor
    · exact I.tasks
    · exact I.memory.erase _
    · exact fun h => I.nonzero (hsub _ h)
    · exact I.list.erase _
    · exact I.descriptors
    · exact hpool
    · intro d hd'
      apply I.memory.mem_erase_iff.mpr
      refine ⟨?_, hconnected d hd'⟩
      have h := List.countP_eq_zero.mp hzero d hd'
      exact fun he => h (decide_eq_true he)
    · exact fun a ha => hcounts a (hsub a ha)
    · exact fun a ha => hbounds a (hsub a ha)
    · intro a ha hu
      obtain ⟨hne, hm⟩ := I.memory.mem_erase_iff.mp ha
      have hu' : (t.queues.msgq a).unlinked = true := hu
      show (t.queues.msgq a).nconnect ≠ 0
      rw [hother a hne] at hu' ⊢
      exact I.kept a hm hu'
  · rw [if_neg hgone]
    constructor
    · exact I.tasks
    · exact I.memory
    · exact I.nonzero
    · exact I.list
    · exact I.descriptors
    · exact hpool
    · exact hconnected
    · exact hcounts
    · exact hbounds
    · intro a ha hu
      have hu' : (t.queues.msgq a).unlinked = true := hu
      show (t.queues.msgq a).nconnect ≠ 0
      by_cases he : a = (s.queues.des mqdes).msgq
      · subst he
        rw [hself] at hu' ⊢
        exact fun h => hgone ⟨h, hu'⟩
      · rw [hother a he] at hu' ⊢
        exact I.kept a ha hu'

theorem Inv.mqUnlink {s : State} (I : Inv s) (maxBytes : Int) (mqName : String) :
    Inv ((Op.mqUnlink mqName).exec maxBytes s) := by
  show Inv { s with queues := (Mqueue.mqUnlink mqName s.queues).1 }
  unfold Mqueue.mqUnlink
  dsimp only
  by_cases hf : mqFindnamed mqName s.queues ≠ 0
  · rw [if_pos hf]
    have hq := I.list.mem_iff.mp (mqFindnamed_mem hf)
    by_cases hn : (s.queues.msgq (mqFindnamed mqName s.queues)).nconnect = 0
    · rw [if_pos hn]
      apply I.remove
      have := I.count _ hq
      omega
    · rw [if_neg hn]
      have hfield : ∀ a, (update s.queues.msgq (mqFindnamed mqName s.queues)
          { s.queues.msgq (mqFindnamed mqName s.queues) with unlinked := true } a).nconnect =
          (s.queues.msgq a).nconnect := by
        intro a
        by_cases he : a = mqFindnamed mqName s.queues
        · rw [he, update_self]
        · rw [update_of_ne he]
      refine { I with
        count := fun a ha => (hfield a).trans (I.count a ha)
        bound := fun a ha => ?_
        kept := fun a ha hu => ?_ }
      · exact (hfield a).symm ▸ I.bound a ha
      · show (update s.queues.msgq (mqFindnamed mqName s.queues) _ a).nconnect ≠ 0
        rw [hfield]
        by_cases he : a = mqFindnamed mqName s.queues
        · rw [he]
          exact hn
        · have hu' : (update s.queues.msgq (mqFindnamed mqName s.queues) _ a).unlinked =
            true := hu
          rw [update_of_ne he] at hu'
          exact I.kept a ha hu'
  · rw [if_neg hf]
    exact I

theorem Inv.retask {s : State} (I : Inv s) {tasks : List Nat} {tcb : Nat} (ht : tasks.Nodup)
    (hheld : (owned tasks (update s.queues.msgdesq tcb [])).Perm s.held) :
    Inv ⟨taskCreate tcb s.queues, tasks⟩ := by
  have hh : (⟨taskCreate tcb s.queues, tasks⟩ : State).held.Perm s.held := hheld
  constructor
  · exact ht
  · exact I.memory
  · exact I.nonzero
  · exact I.list
  · exact I.descriptors
  · exact (hh.append_left _).trans I.pool
  · exact fun d hd => I.connected d (hh.mem_iff.mp hd)
  · intro q hq
    unfold State.connections
    rw [hh.countP_eq]
    exact I.count q hq
  · exact I.bound
  · exact I.kept

theorem Inv.step {s : State} {i : Op} {maxBytes : Int} (I : Inv s) (hz : 0 ∉ s.queues.descriptors)
    (hv : i.valid s) (hs : i.safe s) :
    Inv (i.exec maxBytes s) ∧ 0 ∉ (i.exec maxBytes s).queues.descriptors := by
  cases i with
  | create tcb =>
    refine ⟨I.retask (List.nodup_cons.mpr ⟨hv, I.tasks⟩) ?_, hz⟩
    show (update s.queues.msgdesq tcb [] tcb ++
      owned s.tasks (update s.queues.msgdesq tcb [])).Perm (owned s.tasks s.queues.msgdesq)
    rw [update_self, List.nil_append, owned_update_of_not_mem hv]
  | exit tcb =>
    have hnil : s.queues.msgdesq tcb = [] := hs
    have hsame : update s.queues.msgdesq tcb [] = s.queues.msgdesq := by
      rw [← hnil, update_eq_self]
    refine ⟨I.retask (I.tasks.erase tcb) ?_, hz⟩
    rw [hsame]
    have hp := owned_perm (f := s.queues.msgdesq) hv
    rw [hnil, List.nil_append] at hp
    exact hp.symm
  | mqOpen rtcb mqName oflags attr mem base => exact I.mqOpen hz hv hs
  | mqClose rtcb mqdes =>
    refine ⟨I.mqClose hv, ?_⟩
    show 0 ∉ (Mqueue.mqClose rtcb mqdes s.queues).descriptors
    unfold Mqueue.mqClose
    split
    · exact hz
    · dsimp only
      split <;> exact hz
  | mqUnlink mqName =>
    refine ⟨I.mqUnlink maxBytes mqName, ?_⟩
    show 0 ∉ (Mqueue.mqUnlink mqName s.queues).1.descriptors
    unfold Mqueue.mqUnlink
    dsimp only
    split
    · split <;> exact hz
    · exact hz

def Started (s : State) : Prop := ∃ base tasks, tasks.Nodup ∧ s = started base tasks

theorem started_zero (base : Nat) (tasks : List Nat) :
    0 ∉ (started base tasks).queues.descriptors := by
  show 0 ∉ (mqInitialize base).descriptors
  unfold mqInitialize mqDesblockalloc Queues.descriptors
  split
  · rename_i h
    simpa using zero_not_mem_descriptors h
  · simp

/-- Counts, list and descriptors agree in every run in which tasks close their
descriptors before they go. -/
theorem queues_outlive_connections {maxBytes : Int} {s : State}
    (h : Reach (queueMachine maxBytes) Started (fun s i => i.safe s) s) : LifetimeOk s := by
  have hi : Inv s ∧ 0 ∉ s.queues.descriptors := by
    apply Reach.invariant (I := fun s => Inv s ∧ 0 ∉ s.queues.descriptors) _ _ h
    · rintro s ⟨base, tasks, hn, rfl⟩
      exact ⟨started_inv hn, started_zero base tasks⟩
    · intro s i s' hI hv hs he
      cases he
      exact hI.1.step hI.2 hv hs
  exact hi.1.lifetimeOk

theorem queues_outlive_connections_run : ∃ s : State,
    s.queues.gMsgqueues = [200] ∧ s.tasks = [8] ∧ LifetimeOk s := by
  have h : ((runAll (queueMachine 32) (fun s i => Op.safe i s) (started 500 [7])
      [.create 8, .mqOpen 7 "a" 4 none 100 0, .mqOpen 8 "a" 0 none 0 0, .mqUnlink "a",
        .mqClose 7 500, .mqOpen 8 "b" 4 (some ⟨3, 8⟩) 200 0, .mqClose 8 501, .exit 7]).any fun s =>
      decide (s.queues.gMsgqueues = [200] ∧ s.tasks = [8])) = true := by
    decide +kernel
  obtain ⟨s, hs, hf⟩ := (Option.any_eq_true _ _).mp h
  have hf' := of_decide_eq_true hf
  refine ⟨s, hf'.1, hf'.2, queues_outlive_connections (Reach.runAll (.init ?_) hs)⟩
  exact ⟨500, [7], by decide, rfl⟩

/-- A task that exits with an open descriptor leaves its queue connected. -/
theorem lifetime_broken : ∃ s, Reachable (queueMachine 32) Started s ∧ ¬ LifetimeOk s := by
  have h : ((runAll (queueMachine 32) (fun _ _ => True) (started 500 [7])
      [.mqOpen 7 "a" 4 none 100 0, .exit 7]).any fun s =>
      decide (100 ∈ s.queues.memory ∧ (s.queues.msgq 100).nconnect = 1 ∧ s.connections 100 = 0)) =
        true := by
    decide +kernel
  obtain ⟨s, hs, hf⟩ := (Option.any_eq_true _ _).mp h
  obtain ⟨hm, hn, hc⟩ := of_decide_eq_true hf
  refine ⟨s, Reach.runAll (.init ⟨500, [7], by decide, rfl⟩) hs, fun hok => ?_⟩
  have := hok.nconnect 100 hm
  omega

end NuttxAvr32.Mqueue
