import NuttxAvr32.Mqueue.Waiters
import NuttxAvr32.Lib.Apart

/-! # Delivery of messages

Every message is in one of the pools, in one queue, or held by one activation. From this
follow that a message is received once and as it was sent, and that receivers get the
oldest message of the highest priority. The bound on the number of messages needs more:
a sender that found room may be overtaken by others before it puts its message in.
-/

namespace NuttxAvr32.Mqueue

open Keyed Sched Owners Runs Apart
open Function (update update_self update_of_ne)

def Before (s : Sys) (n m : Nat) : Prop :=
  (s.msg m).payload.priority < (s.msg n).payload.priority ∨
    (s.msg m).payload.priority = (s.msg n).payload.priority ∧ s.serial n < s.serial m

/-- What was sent to the queue under the number of the message is still in it. -/
def Intact (s : Sys) (q n : Nat) : Prop := (s.sent q)[s.serial n]? = some (s.msg n).payload

def Sys.numbers (s : Sys) (q : Nat) : List Nat := (s.received q).map Prod.fst

structure Delivered (s : Sys) : Prop where
  once : ∀ q, (s.numbers q).Nodup
  same : ∀ q i msg, (i, msg) ∈ s.received q → (s.sent q)[i]? = some msg
  present : ∀ q, ∀ n ∈ (s.msgq q).msglist, Intact s q n ∧ s.serial n ∉ s.numbers q
  oldest : ∀ q nonblock below s', receiveTest q nonblock below s = some s' →
    (s.msgq q).msglist ≠ [] → ∃ n ∈ (s.msgq q).msglist,
      s'.calls s.kernel.head = .doreceive q n :: below ∧
        ∀ m ∈ (s.msgq q).msglist, m ≠ n → Before s n m
  counted : ∀ q, (s.msgq q).nmsgs = (s.msgq q).msglist.length
  bounded : ∀ q, s.irqSent q = false → (s.msgq q).nmsgs ≤ (s.msgq q).maxmsgs

def MqCall.mqmsg : MqCall → Option Nat
  | .dosend _ _ n => some n
  | .doreceive _ n => some n
  | _ => none

inductive Place
  | free
  | freeirq
  | queue (q : Nat)
  | hand (t : Nat)

def places (s : Sys) : Place → List Nat
  | .free => s.gMsgfree
  | .freeirq => s.gMsgfreeirq
  | .queue q => (s.msgq q).msglist
  | .hand t => (s.calls t).filterMap MqCall.mqmsg

@[simp] theorem places_queue (s : Sys) (q : Nat) : places s (.queue q) = (s.msgq q).msglist := rfl

@[simp] theorem places_hand (s : Sys) (t : Nat) :
    places s (.hand t) = (s.calls t).filterMap MqCall.mqmsg := rfl

/-- The message was sent to the queue, and no receiver has copied it yet. -/
def Undelivered (s : Sys) (q n : Nat) : Prop :=
  n ∈ (s.msgq q).msglist ∨ ∃ t, .doreceive q n ∈ s.calls t

structure MsgInv (s : Sys) : Prop where
  apart : Apart (places s)
  memory : ∀ a, ∀ n ∈ places s a, n ∈ s.memory
  intact : ∀ q n, Undelivered s q n → Intact s q n ∧ s.serial n ∉ s.numbers q
  serials : ∀ q n m, Undelivered s q n → Undelivered s q m → s.serial n = s.serial m → n = m
  ordered : ∀ q, (s.msgq q).msglist.Pairwise (Before s)
  counted : ∀ q, (s.msgq q).nmsgs = (s.msgq q).msglist.length
  once : ∀ q, (s.numbers q).Nodup
  same : ∀ q i msg, (i, msg) ∈ s.received q → (s.sent q)[i]? = some msg

def Nowhere (s : Sys) (n : Nat) : Prop := ∀ a, n ∉ places s a

section

variable {s s' : Sys} {q r n m t : Nat} {fs below : List MqCall}

theorem Undelivered.place (h : Undelivered s q n) : ∃ a, n ∈ places s a := by
  rcases h with h | ⟨t, ht⟩
  · exact ⟨.queue q, h⟩
  · exact ⟨.hand t, List.mem_filterMap.mpr ⟨_, ht, rfl⟩⟩

theorem Nowhere.not_undelivered (h : Nowhere s n) : ¬Undelivered s q n := by
  intro hu
  obtain ⟨a, ha⟩ := hu.place
  exact h a ha

/-- What was sent and received, and the contents of the messages, stay. -/
structure SameContents (s s' : Sys) : Prop where
  payload : ∀ n, (s'.msg n).payload = (s.msg n).payload
  serial : s'.serial = s.serial
  sent : s'.sent = s.sent
  received : s'.received = s.received

theorem SameContents.before (h : SameContents s s') : Before s' = Before s := by
  funext n m
  unfold Before
  rw [h.payload, h.payload, h.serial]

theorem SameContents.intact (h : SameContents s s') : Intact s' q n ↔ Intact s q n := by
  unfold Intact
  rw [h.payload, h.serial, h.sent]

theorem SameContents.numbers (h : SameContents s s') : s'.numbers q = s.numbers q := by
  unfold Sys.numbers
  rw [h.received]

theorem MsgInv.moved (I : MsgInv s) (h : SameContents s s') (ha : Apart (places s'))
    (hm : ∀ a, ∀ n ∈ places s' a, n ∈ s'.memory)
    (hund : ∀ q n, Undelivered s' q n → Undelivered s q n)
    (hq : ∀ q, (s'.msgq q).msglist.Sublist (s.msgq q).msglist)
    (hn : ∀ q, (s'.msgq q).nmsgs = (s'.msgq q).msglist.length) : MsgInv s' where
  apart := ha
  memory := hm
  intact q n hu := by
    rw [h.intact, h.numbers, h.serial]
    exact I.intact q n (hund q n hu)
  serials q n m hu hu' he := by
    rw [h.serial] at he
    exact I.serials q n m (hund q n hu) (hund q m hu') he
  ordered q := by
    rw [h.before]
    exact (I.ordered q).sublist (hq q)
  counted := hn
  once q := by
    rw [h.numbers]
    exact I.once q
  same q i msg hr := by
    rw [h.received] at hr
    rw [h.sent]
    exact I.same q i msg hr

/-- Activations are given up or replaced by one that holds no message, messages are taken
from the pools. -/
structure Leaves (s s' : Sys) : Prop where
  contents : SameContents s s'
  held : ∀ t, (s'.calls t).Sublist (s.calls t) ∨
    ∃ c below, s'.calls t = c :: below ∧ c.mqmsg = none ∧ below.Sublist (s.calls t)
  msglist : ∀ q, (s'.msgq q).msglist = (s.msgq q).msglist
  nmsgs : ∀ q, (s'.msgq q).nmsgs = (s.msgq q).nmsgs
  gMsgfree : s'.gMsgfree.Sublist s.gMsgfree
  gMsgfreeirq : s'.gMsgfreeirq.Sublist s.gMsgfreeirq
  memory : ∀ n ∈ s.memory, n ∈ s'.memory

theorem Leaves.place (h : Leaves s s') (a : Place) : (places s' a).Sublist (places s a) := by
  cases a with
  | free => exact h.gMsgfree
  | freeirq => exact h.gMsgfreeirq
  | queue q =>
    rw [places_queue, places_queue]
    rw [h.msglist]
  | hand t =>
    rw [places_hand, places_hand]
    rcases h.held t with h' | ⟨c, below, he, hc, h'⟩
    · exact h'.filterMap _
    · rw [he, List.filterMap_cons_none hc]
      exact h'.filterMap _

theorem Leaves.undelivered (h : Leaves s s') (hu : Undelivered s' q n) : Undelivered s q n := by
  rcases hu with hu | ⟨t, ht⟩
  · exact .inl (h.msglist q ▸ hu)
  · rcases h.held t with h' | ⟨c, below, he, hc, h'⟩
    · exact .inr ⟨t, h'.subset ht⟩
    · rw [he] at ht
      rcases List.mem_cons.mp ht with rfl | ht
      · cases hc
      · exact .inr ⟨t, h'.subset ht⟩

theorem MsgInv.leaves (I : MsgInv s) (h : Leaves s s') : MsgInv s' := by
  apply I.moved h.contents (I.apart.sublist h.place)
  · exact fun a n hn => h.memory n (I.memory a n ((h.place a).subset hn))
  · exact fun q n hu => h.undelivered hu
  · intro q
    rw [h.msglist]
  · intro q
    rw [h.msglist, h.nmsgs]
    exact I.counted q

end

def MqCall.passed (q : Nat) : MqCall → Bool
  | .msgalloc r _ => r = q
  | .dosend r _ _ => r = q
  | _ => false

/-- How many senders found room and have not put their message in. -/
def Sys.passed (s : Sys) (q : Nat) : Nat := (owned s.tasks s.calls).countP (MqCall.passed q)

def Sys.load (s : Sys) (q : Nat) : Int := (s.msgq q).nmsgs + s.passed q

structure RoomInv (cfg : Config) (s : Sys) : Prop where
  kernel : Sched.Inv cfg s.kernel
  tasks : s.tasks.Nodup
  listed : ∀ t, Listed s.kernel t → t ∈ s.tasks
  room : ∀ q, s.irqSent q = false → s.load q ≤ (s.msgq q).maxmsgs

section

variable {cfg : Config} {s s' : Sys} {q t : Nat} {fs : List MqCall}

theorem RoomInv.head_mem (R : RoomInv cfg s) : s.kernel.head ∈ s.tasks :=
  R.listed _ ⟨_, R.kernel.ok.wf.head_mem⟩

theorem passed_setCalls (fs : List MqCall) (hn : s.tasks.Nodup) (ht : t ∈ s.tasks) (q : Nat) :
    (s.setCalls t fs).passed q + (s.calls t).countP (MqCall.passed q) =
      s.passed q + fs.countP (MqCall.passed q) := by
  have h1 : (s.setCalls t fs).passed q = fs.countP (MqCall.passed q) +
      (owned (s.tasks.erase t) s.calls).countP (MqCall.passed q) := by
    unfold Sys.passed
    rw [show (s.setCalls t fs).calls = update s.calls t fs from rfl,
      show (s.setCalls t fs).tasks = s.tasks from rfl,
      (owned_update_perm hn ht).countP_eq, List.countP_append]
  have h2 : s.passed q = (s.calls t).countP (MqCall.passed q) +
      (owned (s.tasks.erase t) s.calls).countP (MqCall.passed q) := by
    unfold Sys.passed
    rw [(owned_perm ht).countP_eq, List.countP_append]
  omega

/-- A step that neither sends a message nor lets a sender find room. -/
structure Calm (s s' : Sys) : Prop where
  load : ∀ q, s'.load q ≤ s.load q
  maxmsgs : ∀ q, (s'.msgq q).maxmsgs = (s.msgq q).maxmsgs
  irqSent : s'.irqSent = s.irqSent

theorem RoomInv.calm (R : RoomInv cfg s) (h : Calm s s') (hk : Sched.Inv cfg s'.kernel)
    (hn : s'.tasks.Nodup) (hl : ∀ t, Listed s'.kernel t → t ∈ s'.tasks) : RoomInv cfg s' := by
  refine ⟨hk, hn, hl, fun q hq => ?_⟩
  rw [h.maxmsgs]
  rw [h.irqSent] at hq
  exact (h.load q).trans (R.room q hq)

theorem RoomInv.calm_setCalls (R : RoomInv cfg s) (ht : t ∈ s.tasks)
    (hc : ∀ q, fs.countP (MqCall.passed q) ≤ (s.calls t).countP (MqCall.passed q)) :
    Calm s (s.setCalls t fs) := by
  refine ⟨fun q => ?_, fun _ => rfl, rfl⟩
  have h := passed_setCalls fs R.tasks ht q
  have := hc q
  show (s.msgq q).nmsgs + _ ≤ (s.msgq q).nmsgs + _
  omega

end

structure DInv (cfg : Config) (s : Sys) : Prop where
  msgs : MsgInv s
  rooms : RoomInv cfg s

def KeepsMsgs (f : Msgs → Msgs) : Prop :=
  ∀ c, (f c).msglist = c.msglist ∧ (f c).nmsgs = c.nmsgs ∧ (f c).maxmsgs = c.maxmsgs

section

variable {cfg : Config} {s s' : Sys} {q t e : Nat} {f : Msgs → Msgs} {j : TaskList}
  {st : TaskState} {k : Kernel} {fs below : List MqCall} {c : MqCall} {w er : Nat → Nat}

theorem setMsgq_keeps (hf : KeepsMsgs f) (r : Nat) :
    ((s.setMsgq q f).msgq r).msglist = (s.msgq r).msglist ∧
      ((s.setMsgq q f).msgq r).nmsgs = (s.msgq r).nmsgs ∧
        ((s.setMsgq q f).msgq r).maxmsgs = (s.msgq r).maxmsgs := by
  by_cases h : r = q
  · subst h
    have := hf (s.msgq r)
    simpa [Sys.setMsgq] using this
  · simp [Sys.setMsgq, h]

theorem DInv.moved (D : DInv cfg s) (hf : KeepsMsgs f) (hk : Sched.Inv cfg k)
    (hl : ∀ u, Listed k u → Listed s.kernel u) :
    DInv cfg { s.setMsgq q f with kernel := k, msgwaitq := w, errno := er } where
  msgs := D.msgs.leaves ⟨⟨fun _ => rfl, rfl, rfl, rfl⟩, fun _ => .inl (.refl _),
    fun r => (setMsgq_keeps hf r).1, fun r => (setMsgq_keeps hf r).2.1, .refl _, .refl _,
    fun _ => id⟩
  rooms := by
    refine ⟨hk, D.rooms.tasks, fun u hu => D.rooms.listed u (hl u hu), fun r hr => ?_⟩
    show ((s.setMsgq q f).msgq r).nmsgs + s.passed r ≤ ((s.setMsgq q f).msgq r).maxmsgs
    rw [(setMsgq_keeps hf r).2.1, (setMsgq_keeps hf r).2.2]
    exact D.rooms.room r hr

theorem DInv.waitOn (D : DInv cfg s) (hidle : s.kernel.head ≠ gIdletcb) (hj : Waitlist j st)
    (hf : KeepsMsgs f) (he : Mqueue.waitOn st q f s = some s') : DInv cfg s' := by
  obtain ⟨k, hk, hs'⟩ := Option.map_eq_some_iff.mp he
  have O := D.rooms.kernel.ok
  obtain ⟨k₁, h₁, O₁, T, -, -, -, L⟩ := O.block O.wf.head_mem hidle hj.blocked hj.list
  cases h₁.symm.trans hk
  subst hs'
  apply D.moved hf
  · exact ⟨O₁, D.rooms.kernel.pids.congr (fun u _ => T.pid u) T.gPidhash L⟩
  · exact fun u => (L u).mp

theorem DInv.unblocked (D : DInv cfg s) {i : TaskList} (hi : t ∈ s.kernel.list i)
    (hr : i ≠ .readytorun) (hp : i ≠ .pendingtasks) (hf : KeepsMsgs f)
    (hk : upUnblockTask cfg t s.kernel = some k) :
    DInv cfg { s.setMsgq q f with kernel := k, msgwaitq := w, errno := er } := by
  obtain ⟨k₁, h₁, O₁, K, -, -, L, -⟩ := D.rooms.kernel.ok.unblock cfg hi hr hp
  cases h₁.symm.trans hk
  apply D.moved hf
  · exact ⟨O₁, D.rooms.kernel.pids.congr (fun u _ => K.pid u) K.gPidhash L⟩
  · exact fun u => (L u).mp

theorem DInv.wake (D : DInv cfg s) (hj : Waitlist j st) (hf : KeepsMsgs f)
    (hfirst : firstWaiter j q s = some t) (he : Mqueue.wake cfg t q f s = some s') :
    DInv cfg s' := by
  obtain ⟨k, hk, hs'⟩ := Option.map_eq_some_iff.mp he
  subst hs'
  have hb := hj.waits.blocked
  exact D.unblocked (List.mem_of_find?_eq_some hfirst) hb.1 hb.2.1 hf hk

theorem DInv.wakeReceiver (D : DInv cfg s) (he : Mqueue.wakeReceiver cfg q s = some s') :
    DInv cfg s' := by
  unfold Mqueue.wakeReceiver at he
  split at he
  · split at he
    · cases he
    · rename_i t hfirst
      apply D.wake .notempty _ hfirst he
      exact fun _ => ⟨rfl, rfl, rfl⟩
  · cases he
    exact D

theorem DInv.wakeSender (D : DInv cfg s) (he : Mqueue.wakeSender cfg q s = some s') :
    DInv cfg s' := by
  unfold Mqueue.wakeSender at he
  split at he
  · split at he
    · cases he
    · rename_i t hfirst
      apply D.wake .notfull _ hfirst he
      exact fun _ => ⟨rfl, rfl, rfl⟩
  · cases he
    exact D

theorem DInv.endWait (D : DInv cfg s) (hl : Live cfg s.kernel.toTasks t)
    {states : List TaskState} (hs : ∀ st ∈ states, IsMqwait st)
    (he : Mqueue.endWait cfg t e states s = some s') : DInv cfg s' := by
  unfold Mqueue.endWait at he
  split at he
  · rename_i hst
    obtain ⟨k, hk, hs'⟩ := Option.map_eq_some_iff.mp he
    have hb : (s.kernel.tcb t).taskState.IsBlocked := by
      rcases hs _ hst with h | h <;> rw [h] <;> trivial
    obtain ⟨i, hi, hr, hp⟩ := D.rooms.kernel.live_blocked hl hb
    obtain ⟨k₁, h₁, O₁, K, -, -, L, -⟩ := D.rooms.kernel.ok.unblock cfg hi hr hp
    cases h₁.symm.trans hk
    subst hs'
    refine ⟨D.msgs.leaves ⟨⟨fun _ => rfl, rfl, rfl, rfl⟩, fun _ => .inl (.refl _), fun _ => rfl,
      fun _ => rfl, .refl _, .refl _, fun _ => id⟩, ?_⟩
    exact ⟨⟨O₁, D.rooms.kernel.pids.congr (fun u _ => K.pid u) K.gPidhash L⟩, D.rooms.tasks,
      fun u hu => D.rooms.listed u ((L u).mp hu), D.rooms.room⟩
  · cases he
    exact D

theorem MsgInv.setCalls (I : MsgInv s) (hheld : fs.Sublist (s.calls t) ∨
      ∃ c below, fs = c :: below ∧ c.mqmsg = none ∧ below.Sublist (s.calls t)) :
    MsgInv (s.setCalls t fs) := by
  apply I.leaves
  refine ⟨⟨fun _ => rfl, rfl, rfl, rfl⟩, fun u => ?_, fun _ => rfl, fun _ => rfl, .refl _,
    .refl _, fun _ => id⟩
  by_cases h : u = t
  · subst h
    simpa [Sys.setCalls] using hheld
  · left
    simp [Sys.setCalls, h]

theorem DInv.setCalls (D : DInv cfg s) (ht : t ∈ s.tasks)
    (hheld : fs.Sublist (s.calls t) ∨
      ∃ c below, fs = c :: below ∧ c.mqmsg = none ∧ below.Sublist (s.calls t))
    (hc : ∀ q, fs.countP (MqCall.passed q) ≤ (s.calls t).countP (MqCall.passed q)) :
    DInv cfg (s.setCalls t fs) where
  msgs := D.msgs.setCalls hheld
  rooms := D.rooms.calm (D.rooms.calm_setCalls ht hc) D.rooms.kernel D.rooms.tasks D.rooms.listed

theorem DInv.drop (D : DInv cfg s) (ht : t ∈ s.tasks) (h : s.calls t = c :: below) :
    DInv cfg (s.setCalls t below) := by
  apply D.setCalls ht
  · left
    rw [h]
    exact List.sublist_cons_self c below
  · intro q
    rw [h]
    exact (List.sublist_cons_self c below).countP_le

theorem DInv.push (D : DInv cfg s) (ht : t ∈ s.tasks) (hb : below.Sublist (s.calls t))
    (hn : c.mqmsg = none) (hp : ∀ q, c.passed q = false) :
    DInv cfg (s.setCalls t (c :: below)) := by
  apply D.setCalls ht
  · exact .inr ⟨c, below, rfl, hn, hb⟩
  · intro q
    rw [List.countP_cons_of_neg (by simp [hp q])]
    exact hb.countP_le

end

section

variable {cfg : Config} {s s' : Sys} {q n t : Nat} {mem : Option Nat} {irq : Bool}
  {msg : Payload} {c d : MqCall} {fs below : List MqCall}

theorem DInv.msgalloc (D : DInv cfg s) (hmem : ∀ n ∈ mem, n ∉ s.memory)
    (ha : mqMsgalloc irq mem s = (s', some n)) :
    DInv cfg s' ∧ Nowhere s' n ∧ n ∈ s'.memory ∧ s'.calls = s.calls ∧ s'.kernel = s.kernel := by
  have hroom : ∀ {s' : Sys}, s'.kernel = s.kernel → s'.tasks = s.tasks → s'.calls = s.calls →
      s'.msgq = s.msgq → s'.irqSent = s.irqSent → RoomInv cfg s' := by
    intro s' hk ht hc hq hi
    apply D.rooms.calm
    · refine ⟨fun r => ?_, fun r => by rw [hq], hi⟩
      unfold Sys.load Sys.passed
      rw [hq, ht, hc]
    · rw [hk]
      exact D.rooms.kernel
    · rw [ht]
      exact D.rooms.tasks
    · rw [hk, ht]
      exact D.rooms.listed
  have htaken : ∀ {s' : Sys} (a : Place), Leaves s s' → RoomInv cfg s' →
      places s a = n :: places s' a → (∀ b, b ≠ a → places s' b = places s b) →
        s'.memory = s.memory → DInv cfg s' ∧ Nowhere s' n ∧ n ∈ s'.memory := by
    intro s' a L hr hp hb hm
    refine ⟨⟨D.msgs.leaves L, hr⟩, (D.msgs.apart.take (hp ▸ .refl _) hb).2, ?_⟩
    rw [hm]
    exact D.msgs.memory a n (hp ▸ List.mem_cons_self)
  unfold mqMsgalloc at ha
  split at ha
  · rename_i m rest hl
    cases ha
    have L : Leaves s { s with gMsgfree := rest } :=
      ⟨⟨fun _ => rfl, rfl, rfl, rfl⟩, fun _ => .inl (.refl _), fun _ => rfl, fun _ => rfl,
        hl ▸ List.sublist_cons_self n rest, .refl _, fun _ => id⟩
    obtain ⟨hD, hn, hm⟩ := htaken .free L (hroom rfl rfl rfl rfl rfl) hl
      (fun b hb => by cases b <;> first | rfl | exact absurd rfl hb) rfl
    exact ⟨hD, hn, hm, rfl, rfl⟩
  · split at ha
    · split at ha
      · rename_i m rest hl
        cases ha
        have L : Leaves s { s with gMsgfreeirq := rest } :=
          ⟨⟨fun _ => rfl, rfl, rfl, rfl⟩, fun _ => .inl (.refl _), fun _ => rfl, fun _ => rfl,
            .refl _, hl ▸ List.sublist_cons_self n rest, fun _ => id⟩
        obtain ⟨hD, hn, hm⟩ := htaken .freeirq L (hroom rfl rfl rfl rfl rfl) hl
          (fun b hb => by cases b <;> first | rfl | exact absurd rfl hb) rfl
        exact ⟨hD, hn, hm, rfl, rfl⟩
      · cases ha
    · split at ha
      · rename_i m
        cases ha
        have hnew : n ∉ s.memory := hmem n rfl
        have L : Leaves s
            { s with
              msg := update s.msg n { s.msg n with type := .dyn }
              memory := n :: s.memory } := by
          refine ⟨⟨fun m => ?_, rfl, rfl, rfl⟩, fun _ => .inl (.refl _), fun _ => rfl,
            fun _ => rfl, .refl _, .refl _, fun _ => List.mem_cons_of_mem _⟩
          by_cases h : m = n
          · subst h
            simp
          · simp [h]
        refine ⟨⟨D.msgs.leaves L, hroom rfl rfl rfl rfl rfl⟩, ?_, List.mem_cons_self, rfl, rfl⟩
        intro a hn
        exact hnew (D.msgs.memory a n ((L.place a).subset hn))
      · cases ha

theorem msgalloc_none (ha : mqMsgalloc irq mem s = (s', none)) : s' = s := by
  unfold mqMsgalloc at ha
  split at ha
  · cases ha
  · split at ha
    · split at ha
      · cases ha
      · cases ha
        rfl
    · split at ha
      · cases ha
      · cases ha
        rfl

theorem MsgInv.letGo (I : MsgInv s) (hc : s.calls t = c :: below) (hn : c.mqmsg = some n)
    (hd : d.mqmsg = none) : Nowhere (s.setCalls t (d :: below)) n ∧ n ∈ s.memory := by
  have hp : (places s (.hand t)).Perm (n :: places (s.setCalls t (d :: below)) (.hand t)) := by
    rw [places_hand, places_hand, hc, List.filterMap_cons_some hn]
    simp [Sys.setCalls, List.filterMap_cons_none hd]
  refine ⟨(I.apart.take hp ?_).2, I.memory (.hand t) n (hp.mem_iff.mpr List.mem_cons_self)⟩
  intro b hb
  cases b with
  | hand u =>
    have hu : u ≠ t := fun h => hb (by rw [h])
    simp [places, Sys.setCalls, hu]
  | _ => rfl

end

section

variable {cfg : Config} {s s' : Sys} {q r n m t : Nat} {mem : Option Nat} {irq : Bool}
  {msg : Payload} {c d : MqCall} {fs below : List MqCall}

theorem insert_payload (h : m ≠ n) : ((mqInsert q msg n s).msg m).payload = (s.msg m).payload := by
  show (update s.msg n _ m).payload = _
  rw [update_of_ne h]

theorem insert_payload_self : ((mqInsert q msg n s).msg n).payload = msg := by
  show (update s.msg n _ n).payload = _
  rw [update_self]

theorem insert_serial (h : m ≠ n) : (mqInsert q msg n s).serial m = s.serial m :=
  update_of_ne h _ _

theorem insert_serial_self : (mqInsert q msg n s).serial n = (s.sent q).length :=
  update_self _ _ _

theorem insert_sent_self : (mqInsert q msg n s).sent q = s.sent q ++ [msg] :=
  update_self _ _ _

theorem insert_sent (h : r ≠ q) : (mqInsert q msg n s).sent r = s.sent r :=
  update_of_ne h _ _

theorem insert_sent_kept {i : Nat} {p : Payload} (h : (s.sent r)[i]? = some p) :
    ((mqInsert q msg n s).sent r)[i]? = some p := by
  by_cases hr : r = q
  · subst hr
    rw [insert_sent_self, List.getElem?_append_left]
    · exact h
    · exact (List.getElem?_eq_some_iff.mp h).1
  · rw [insert_sent hr]
    exact h

theorem insert_msgq (h : r ≠ q) : (mqInsert q msg n s).msgq r = s.msgq r :=
  update_of_ne h _ _

theorem insert_nmsgs : ((mqInsert q msg n s).msgq q).nmsgs = (s.msgq q).nmsgs + 1 := by
  simp [mqInsert, Sys.setMsgq]

theorem insert_split (msg : Payload) (hn : n ∉ (s.msgq q).msglist) : ∃ l₁ l₂, (s.msgq q).msglist = l₁ ++ l₂ ∧
    ((mqInsert q msg n s).msgq q).msglist = l₁ ++ n :: l₂ ∧
      (∀ y ∈ l₁, msg.priority ≤ (s.msg y).payload.priority) ∧
        ∀ y ∈ l₂.head?, (s.msg y).payload.priority < msg.priority := by
  obtain ⟨l₁, l₂, hl, hins, h1, h2⟩ := insertKeyed_split
    (fun m => ((mqInsert q msg n s).msg m).payload.priority) n (s.msgq q).msglist
  have hne : ∀ y ∈ (s.msgq q).msglist, y ≠ n := fun y hy h => hn (h ▸ hy)
  refine ⟨l₁, l₂, hl, ?_, fun y hy => ?_, fun y hy => ?_⟩
  · rw [← hins]
    simp only [mqInsert, Sys.setMsgq, update_self]
  · have := h1 y hy
    rwa [insert_payload_self, insert_payload (hne y (hl ▸ List.mem_append_left _ hy))] at this
  · have := h2 y hy
    have hy' : y ∈ l₂ := List.mem_of_mem_head? hy
    rwa [insert_payload_self, insert_payload (hne y (hl ▸ List.mem_append_right _ hy'))] at this

theorem insert_undelivered (h : Undelivered (mqInsert q msg n s) r m) :
    (m = n ∧ r = q) ∨ Undelivered s r m := by
  rcases h with h | h
  · by_cases hr : r = q
    · subst hr
      have hp : ((mqInsert r msg n s).msgq r).msglist = insertKeyed
          (fun m => ((mqInsert r msg n s).msg m).payload.priority) n (s.msgq r).msglist := by
        simp only [mqInsert, Sys.setMsgq, update_self]
      rw [hp, mem_insertKeyed] at h
      rcases h with rfl | h
      · exact .inl ⟨rfl, rfl⟩
      · exact .inr (.inl h)
    · rw [insert_msgq hr] at h
      exact .inr (.inl h)
  · exact .inr (.inr h)

theorem insert_before {x y : Nat} (hx : x ≠ n) (hy : y ≠ n) (h : Before s x y) :
    Before (mqInsert q msg n s) x y := by
  unfold Before at *
  rwa [insert_payload hx, insert_payload hy, insert_serial hx, insert_serial hy]

theorem Before.priority_le {x y : Nat} (h : Before s x y) :
    (s.msg y).payload.priority ≤ (s.msg x).payload.priority := by
  rcases h with h | ⟨h, -⟩
  · exact Nat.le_of_lt h
  · exact Nat.le_of_eq h

theorem MsgInv.serial_lt (I : MsgInv s) (h : Undelivered s q m) :
    s.serial m < (s.sent q).length :=
  (List.getElem?_eq_some_iff.mp (I.intact q m h).1).1

theorem MsgInv.insert_ordered (I : MsgInv s) (hn : Nowhere s n) :
    ((mqInsert q msg n s).msgq q).msglist.Pairwise (Before (mqInsert q msg n s)) := by
  have hnot : n ∉ (s.msgq q).msglist := hn (.queue q)
  obtain ⟨l₁, l₂, hl, hins, h1, h2⟩ := insert_split msg hnot
  have ho := I.ordered q
  rw [hl] at ho
  obtain ⟨ho1, ho2, ho12⟩ := List.pairwise_append.mp ho
  have hne : ∀ y ∈ l₁ ++ l₂, y ≠ n := fun y hy h => hnot (by rw [hl]; exact h ▸ hy)
  have hlow : ∀ y ∈ l₂, (s.msg y).payload.priority < msg.priority := by
    intro y hy
    cases l₂ with
    | nil => cases hy
    | cons a l =>
      have ha := h2 a rfl
      rcases List.mem_cons.mp hy with rfl | hy
      · exact ha
      · exact lt_of_le_of_lt ((List.pairwise_cons.mp ho2).1 y hy).priority_le ha
  rw [hins]
  apply List.pairwise_append.mpr
  refine ⟨?_, List.pairwise_cons.mpr ⟨?_, ?_⟩, ?_⟩
  · apply ho1.imp_of_mem
    intro x y hx hy
    exact insert_before (hne x (List.mem_append_left _ hx)) (hne y (List.mem_append_left _ hy))
  · intro y hy
    left
    rw [insert_payload_self, insert_payload (hne y (List.mem_append_right _ hy))]
    exact hlow y hy
  · apply ho2.imp_of_mem
    intro x y hx hy
    exact insert_before (hne x (List.mem_append_right _ hx)) (hne y (List.mem_append_right _ hy))
  · intro x hx y hy
    have hx' := hne x (List.mem_append_left _ hx)
    rcases List.mem_cons.mp hy with rfl | hy
    · -- equal priorities keep the order of sending
      have hlt : s.serial x < (s.sent q).length :=
        I.serial_lt (.inl (hl ▸ List.mem_append_left _ hx))
      unfold Before
      rw [insert_payload_self, insert_payload hx', insert_serial hx', insert_serial_self]
      rcases Nat.lt_or_eq_of_le (h1 x hx) with h | h
      · exact .inl h
      · exact .inr ⟨h, hlt⟩
    · exact insert_before hx' (hne y (List.mem_append_right _ hy)) (ho12 x hx y hy)

theorem MsgInv.insert (I : MsgInv s) (hn : Nowhere s n) (hm : n ∈ s.memory) :
    MsgInv (mqInsert q msg n s) where
  apart := by
    obtain ⟨l₁, l₂, hl, hins, -, -⟩ := insert_split msg (hn (.queue q))
    apply I.apart.put hn (a := .queue q)
    · show ((mqInsert q msg n s).msgq q).msglist.Perm (n :: (s.msgq q).msglist)
      rw [hins, hl]
      exact List.perm_middle
    · intro b hb
      cases b with
      | queue r =>
        have hr : r ≠ q := fun h => hb (by rw [h])
        rw [places_queue, places_queue, insert_msgq hr]
      | _ => rfl
  memory a m hma := by
    show m ∈ s.memory
    cases a with
    | queue r =>
      have hu : Undelivered (mqInsert q msg n s) r m := .inl hma
      rcases insert_undelivered hu with ⟨rfl, -⟩ | h
      · exact hm
      · obtain ⟨a, ha⟩ := h.place
        exact I.memory a m ha
    | free => exact I.memory .free m hma
    | freeirq => exact I.memory .freeirq m hma
    | hand t => exact I.memory (.hand t) m hma
  intact r m hu := by
    rcases insert_undelivered hu with ⟨rfl, rfl⟩ | h
    · unfold Intact
      rw [insert_payload_self, insert_serial_self, insert_sent_self]
      refine ⟨by simp, ?_⟩
      intro hnum
      obtain ⟨⟨i, p⟩, hip, hi⟩ := List.mem_map.mp hnum
      have hlt := (List.getElem?_eq_some_iff.mp (I.same r i p hip)).1
      dsimp only at hi
      omega
    · have hne : m ≠ n := fun he => hn.not_undelivered (he ▸ h)
      obtain ⟨h1, h2⟩ := I.intact r m h
      unfold Intact
      rw [insert_payload hne, insert_serial hne]
      exact ⟨insert_sent_kept h1, h2⟩
  serials r x y hx hy he := by
    rcases insert_undelivered hx with ⟨rfl, rfl⟩ | hx'
    · rcases insert_undelivered hy with ⟨rfl, -⟩ | hy'
      · rfl
      · have hne : y ≠ x := fun h => hn.not_undelivered (h ▸ hy')
        rw [insert_serial_self, insert_serial hne] at he
        have := I.serial_lt hy'
        omega
    · have hne : x ≠ n := fun h => hn.not_undelivered (h ▸ hx')
      rcases insert_undelivered hy with ⟨rfl, rfl⟩ | hy'
      · rw [insert_serial_self, insert_serial hne] at he
        have := I.serial_lt hx'
        omega
      · have hne' : y ≠ n := fun h => hn.not_undelivered (h ▸ hy')
        rw [insert_serial hne, insert_serial hne'] at he
        exact I.serials r x y hx' hy' he
  ordered r := by
    by_cases hr : r = q
    · subst hr
      exact I.insert_ordered hn
    · rw [insert_msgq hr]
      apply (I.ordered r).imp_of_mem
      intro x y hx hy
      exact insert_before (fun h => hn (.queue r) (h ▸ hx)) (fun h => hn (.queue r) (h ▸ hy))
  counted r := by
    by_cases hr : r = q
    · subst hr
      obtain ⟨l₁, l₂, hl, hins, -, -⟩ := insert_split msg (hn (.queue r))
      rw [insert_nmsgs, I.counted r, hins, hl]
      simp only [List.length_append, List.length_cons]
      push_cast
      omega
    · rw [insert_msgq hr]
      exact I.counted r
  once r := I.once r
  same r i p hip := insert_sent_kept (I.same r i p hip)

theorem RoomInv.insert (R : RoomInv cfg s)
    (h : s.irqSent q = false → s.load q < (s.msgq q).maxmsgs) :
    RoomInv cfg (mqInsert q msg n s) := by
  refine ⟨R.kernel, R.tasks, R.listed, fun r hr => ?_⟩
  by_cases hq : r = q
  · subst hq
    have hload : (mqInsert r msg n s).load r = s.load r + 1 := by
      unfold Sys.load
      rw [insert_nmsgs]
      show (s.msgq r).nmsgs + 1 + _ = (s.msgq r).nmsgs + _ + 1
      have : (mqInsert r msg n s).passed r = s.passed r := rfl
      omega
    have hmax : ((mqInsert r msg n s).msgq r).maxmsgs = (s.msgq r).maxmsgs := by
      simp [mqInsert, Sys.setMsgq]
    rw [hload, hmax]
    have := h hr
    omega
  · have hload : (mqInsert q msg n s).load r = s.load r := by
      unfold Sys.load
      rw [insert_msgq hq]
      rfl
    rw [hload, insert_msgq hq]
    exact R.room r hr

end

section

variable {cfg : Config} {s s' : Sys} {q r n m t : Nat} {nonblock : Bool} {msg : Payload}
  {fs gs below : List MqCall}

theorem setCalls_setCalls : (s.setCalls t fs).setCalls t gs = s.setCalls t gs := by
  simp [Sys.setCalls]

theorem MsgInv.takeFirst (I : MsgInv s) {rest : List Nat} (hl : (s.msgq q).msglist = n :: rest) :
    MsgInv ((s.setMsgq q fun c => { c with msglist := rest, nmsgs := c.nmsgs - 1 }).setCalls t
      (.doreceive q n :: s.calls t)) := by
  let s' := (s.setMsgq q fun c => { c with msglist := rest, nmsgs := c.nmsgs - 1 }).setCalls t
    (.doreceive q n :: s.calls t)
  have hself : s'.msgq q =
      { s.msgq q with
        msglist := rest
        nmsgs := (s.msgq q).nmsgs - 1 } := update_self _ _ _
  have hother : ∀ r, r ≠ q → s'.msgq r = s.msgq r := fun r hr => update_of_ne hr _ _
  have hcalls : ∀ u, u ≠ t → s'.calls u = s.calls u := fun u hu => update_of_ne hu _ _
  have hcallt : s'.calls t = .doreceive q n :: s.calls t := update_self _ _ _
  have hplace : ∀ b, b ≠ .queue q → b ≠ .hand t → places s' b = places s b := by
    intro b hb hb'
    cases b with
    | queue r =>
      rw [places_queue, places_queue, hother r fun h => hb (by rw [h])]
    | hand u =>
      rw [places_hand, places_hand, hcalls u fun h => hb' (by rw [h])]
    | _ => rfl
  have hq : (places s (.queue q)).Perm (n :: places s' (.queue q)) := by
    rw [places_queue, places_queue, hself, hl]
  have hh : (places s' (.hand t)).Perm (n :: places s (.hand t)) := by
    have hn : (MqCall.doreceive q n).mqmsg = some n := rfl
    rw [places_hand, places_hand, hcallt, List.filterMap_cons_some hn]
  have hsame : SameContents s s' := ⟨fun _ => rfl, rfl, rfl, rfl⟩
  show MsgInv s'
  apply I.moved hsame (I.apart.move (by simp) hq hh hplace)
  · intro b m hm
    show m ∈ s.memory
    by_cases hb : b = .queue q
    · subst hb
      exact I.memory (.queue q) m (hq.mem_iff.mpr (List.mem_cons_of_mem _ hm))
    · by_cases hb' : b = .hand t
      · subst hb'
        rcases List.mem_cons.mp (hh.mem_iff.mp hm) with rfl | hm
        · exact I.memory (.queue q) m (hq.mem_iff.mpr List.mem_cons_self)
        · exact I.memory (.hand t) m hm
      · rw [hplace b hb hb'] at hm
        exact I.memory b m hm
  · rintro r m (hm | ⟨u, hu⟩)
    · left
      by_cases hr : r = q
      · subst hr
        rw [hself] at hm
        rw [hl]
        exact List.mem_cons_of_mem _ hm
      · rwa [hother r hr] at hm
    · by_cases hut : u = t
      · subst hut
        rw [hcallt] at hu
        rcases List.mem_cons.mp hu with he | hu
        · cases he
          left
          rw [hl]
          exact List.mem_cons_self
        · exact .inr ⟨u, hu⟩
      · rw [hcalls u hut] at hu
        exact .inr ⟨u, hu⟩
  · intro r
    by_cases hr : r = q
    · subst hr
      rw [hself, hl]
      exact List.sublist_cons_self n rest
    · rw [hother r hr]
  · intro r
    by_cases hr : r = q
    · subst hr
      have hc := I.counted r
      rw [hl, List.length_cons] at hc
      rw [hself]
      dsimp only
      push_cast at hc
      omega
    · rw [hother r hr]
      exact I.counted r

theorem MsgInv.receive (I : MsgInv s) (hint : Intact s q n)
    (hnum : s.serial n ∉ s.numbers q)
    (huniq : ∀ m, Undelivered s q m → s.serial m ≠ s.serial n) :
    MsgInv { s with
      received := update s.received q
        (s.received q ++ [(s.serial n, (s.msg n).payload)]) } := by
  have hself : ∀ r, r = q → (update s.received q
      (s.received q ++ [(s.serial n, (s.msg n).payload)]) r) =
        s.received q ++ [(s.serial n, (s.msg n).payload)] := by
    intro r hr
    rw [hr, update_self]
  have hother : ∀ r, r ≠ q → (update s.received q
      (s.received q ++ [(s.serial n, (s.msg n).payload)]) r) = s.received r :=
    fun r hr => update_of_ne hr _ _
  refine ⟨I.apart, I.memory, fun r m hu => ?_, I.serials, I.ordered, I.counted, fun r => ?_,
    fun r i p hip => ?_⟩
  · have hu' : Undelivered s r m := hu
    obtain ⟨h1, h2⟩ := I.intact r m hu'
    refine ⟨h1, ?_⟩
    unfold Sys.numbers
    dsimp only
    by_cases hr : r = q
    · rw [hself r hr, List.map_append]
      subst hr
      intro hmem
      rcases List.mem_append.mp hmem with h | h
      · exact h2 h
      · exact huniq m hu' (by simpa using h)
    · rw [hother r hr]
      exact h2
  · unfold Sys.numbers
    dsimp only
    by_cases hr : r = q
    · rw [hself r hr, List.map_append]
      apply (I.once q).append (List.nodup_singleton _)
      apply List.disjoint_singleton.mpr
      exact hnum
    · rw [hother r hr]
      exact I.once r
  · show (s.sent r)[i]? = some p
    dsimp only at hip
    by_cases hr : r = q
    · rw [hself r hr] at hip
      subst hr
      rcases List.mem_append.mp hip with h | h
      · exact I.same r i p h
      · cases List.mem_singleton.mp h
        exact hint
    · rw [hother r hr] at hip
      exact I.same r i p hip

theorem MsgInv.msgfree (I : MsgInv s) (hn : Nowhere s n) (hm : n ∈ s.memory) :
    MsgInv (mqMsgfree n s) := by
  have hput : ∀ {s' : Sys} {a : Place}, SameContents s s' → s'.msgq = s.msgq →
      s'.calls = s.calls → s'.memory = s.memory → (places s' a).Perm (n :: places s a) →
      (∀ b, b ≠ a → places s' b = places s b) → MsgInv s' := by
    intro s' a hs hq hc hmem ha hb
    apply I.moved hs (I.apart.put hn ha hb)
    · intro b m hmb
      rw [hmem]
      by_cases h : b = a
      · subst h
        rcases List.mem_cons.mp (ha.mem_iff.mp hmb) with rfl | hmb
        · exact hm
        · exact I.memory b m hmb
      · rw [hb b h] at hmb
        exact I.memory b m hmb
    · intro r m hu
      unfold Undelivered at *
      rwa [hq, hc] at hu
    · intro r
      rw [hq]
    · intro r
      rw [hq]
      exact I.counted r
  unfold mqMsgfree
  split
  · apply hput (a := .free)
    · exact ⟨fun _ => rfl, rfl, rfl, rfl⟩
    · rfl
    · rfl
    · rfl
    · exact List.perm_append_singleton n s.gMsgfree
    · intro b hb
      cases b <;> first | rfl | exact absurd rfl hb
  · apply hput (a := .freeirq)
    · exact ⟨fun _ => rfl, rfl, rfl, rfl⟩
    · rfl
    · rfl
    · rfl
    · exact List.perm_append_singleton n s.gMsgfreeirq
    · intro b hb
      cases b <;> first | rfl | exact absurd rfl hb
  · have hp : places { s with memory := s.memory.erase n } = places s := by
      funext b
      cases b <;> rfl
    have hsame : SameContents s { s with memory := s.memory.erase n } :=
      ⟨fun _ => rfl, rfl, rfl, rfl⟩
    apply I.moved hsame
    · rw [hp]
      exact I.apart
    · intro b m hmb
      rw [hp] at hmb
      have hne : m ≠ n := fun h => hn b (h ▸ hmb)
      exact (List.mem_erase_of_ne hne).mpr (I.memory b m hmb)
    · exact fun _ _ hu => hu
    · exact fun _ => .refl _
    · exact I.counted

end

/-- Together with the messages in the queue, those of the senders that found room are fewer
than the queue takes, when another sender finds room. -/
def Sys.roomFor (s : Sys) (q : Nat) : Prop :=
  s.irqSent q = false → (s.msgq q).nmsgs < (s.msgq q).maxmsgs → s.load q < (s.msgq q).maxmsgs

def Sys.retestsWithRoom (s : Sys) : List MqCall → Prop
  | .waitsend q _ :: _ => s.errno s.kernel.head = 0 → s.roomFor q
  | _ => True

def MqOp.keepsRoom (s : Sys) : MqOp → Prop
  | .send q _ _ => s.roomFor q
  | .step _ _ => s.retestsWithRoom (s.calls s.kernel.head)
  | _ => True

instance decidableRoomFor (s : Sys) (q : Nat) : Decidable (s.roomFor q) := by
  unfold Sys.roomFor
  infer_instance

instance decidableRetests (s : Sys) : ∀ l : List MqCall, Decidable (s.retestsWithRoom l)
  | .waitsend q _ :: _ => inferInstanceAs (Decidable (s.errno s.kernel.head = 0 → s.roomFor q))
  | [] => inferInstanceAs (Decidable True)
  | .msgalloc _ _ :: _ => inferInstanceAs (Decidable True)
  | .dosend _ _ _ :: _ => inferInstanceAs (Decidable True)
  | .wakeReceiver _ :: _ => inferInstanceAs (Decidable True)
  | .waitreceive _ :: _ => inferInstanceAs (Decidable True)
  | .doreceive _ _ :: _ => inferInstanceAs (Decidable True)
  | .wakeSender _ :: _ => inferInstanceAs (Decidable True)

instance decidableKeepsRoom (s : Sys) : ∀ i : MqOp, Decidable (i.keepsRoom s)
  | .send q _ _ => decidableRoomFor s q
  | .step _ _ => decidableRetests s (s.calls s.kernel.head)
  | .sched _ => inferInstanceAs (Decidable True)
  | .receive _ _ => inferInstanceAs (Decidable True)
  | .sendIrq _ _ => inferInstanceAs (Decidable True)
  | .sndtimeout _ => inferInstanceAs (Decidable True)
  | .rcvtimeout _ => inferInstanceAs (Decidable True)
  | .waitirq _ => inferInstanceAs (Decidable True)

section

variable {cfg : Config} {s s' : Sys} {q n t : Nat} {mem : Option Nat} {nonblock irq : Bool}
  {msg : Payload} {c d : MqCall} {fs below : List MqCall}

theorem sendTest_drop : sendTest q msg nonblock below s =
    sendTest q msg nonblock below (s.setCalls s.kernel.head below) := by
  unfold sendTest
  dsimp only
  rw [show (s.setCalls s.kernel.head below).kernel = s.kernel from rfl, setCalls_setCalls,
    setCalls_setCalls, setCalls_setCalls]
  rfl

theorem receiveTest_drop : receiveTest q nonblock below s =
    receiveTest q nonblock below (s.setCalls s.kernel.head below) := by
  have hset : ∀ f, ((s.setCalls s.kernel.head below).setMsgq q f) =
      (s.setMsgq q f).setCalls s.kernel.head below := fun _ => rfl
  unfold receiveTest
  dsimp only
  rw [show (s.setCalls s.kernel.head below).kernel = s.kernel from rfl, setCalls_setCalls,
    setCalls_setCalls, show (s.setCalls s.kernel.head below).msgq = s.msgq from rfl]
  simp only [hset, setCalls_setCalls]

theorem DInv.sendTest (D : DInv cfg s) (hidle : s.kernel.head ≠ gIdletcb)
    (hc : s.calls s.kernel.head = below) (hroom : s.roomFor q)
    (he : Mqueue.sendTest q msg nonblock below s = some s') : DInv cfg s' := by
  have ht := D.rooms.head_mem
  subst hc
  unfold Mqueue.sendTest at he
  dsimp only at he
  split at he
  · rename_i hlt
    cases he
    refine ⟨D.msgs.setCalls (.inr ⟨_, _, rfl, rfl, .refl _⟩), D.rooms.kernel, D.rooms.tasks,
      D.rooms.listed, fun r hr => ?_⟩
    have hp := passed_setCalls (.msgalloc q msg :: s.calls s.kernel.head) D.rooms.tasks ht r
    have hmax := D.rooms.room r hr
    show (s.msgq r).nmsgs + _ ≤ (s.msgq r).maxmsgs
    unfold Sys.load at hmax
    by_cases hq : r = q
    · subst hq
      have hlt' := hroom hr hlt
      unfold Sys.load at hlt'
      rw [List.countP_cons_of_pos (by simp [MqCall.passed])] at hp
      omega
    · rw [List.countP_cons_of_neg (by simpa [MqCall.passed] using fun h => hq h.symm)] at hp
      omega
  · split at he
    · cases he
      exact D.setCalls ht (.inl (.refl _)) fun _ => le_refl _
    · have D' := D.push (c := .waitsend q msg) ht (.refl _) rfl fun _ => rfl
      apply D'.waitOn hidle .notfull _ he
      exact fun _ => ⟨rfl, rfl, rfl⟩

theorem DInv.receiveTest (D : DInv cfg s) (hidle : s.kernel.head ≠ gIdletcb)
    (hc : s.calls s.kernel.head = below)
    (he : Mqueue.receiveTest q nonblock below s = some s') : DInv cfg s' := by
  have ht := D.rooms.head_mem
  subst hc
  unfold Mqueue.receiveTest at he
  dsimp only at he
  split at he
  · rename_i n rest hl
    cases he
    refine ⟨D.msgs.takeFirst hl, D.rooms.kernel, D.rooms.tasks, D.rooms.listed, fun r hr => ?_⟩
    have hp := passed_setCalls (.doreceive q n :: s.calls s.kernel.head) D.rooms.tasks ht r
    rw [List.countP_cons_of_neg (by simp [MqCall.passed])] at hp
    have hmax := D.rooms.room r hr
    unfold Sys.load at hmax ⊢
    have hpass : ((s.setMsgq q fun c => { c with msglist := rest, nmsgs := c.nmsgs - 1 }).setCalls
        s.kernel.head (.doreceive q n :: s.calls s.kernel.head)).passed r = s.passed r := by
      show (s.setCalls s.kernel.head (.doreceive q n :: s.calls s.kernel.head)).passed r = _
      omega
    rw [hpass]
    by_cases hq : r = q
    · subst hq
      simp only [Sys.setCalls, Sys.setMsgq, update_self]
      omega
    · simp only [Sys.setCalls, Sys.setMsgq, update_of_ne hq]
      exact hmax
  · split at he
    · cases he
      exact D.setCalls ht (.inl (.refl _)) fun _ => le_refl _
    · have D' := D.push (c := .waitreceive q) ht (.refl _) rfl fun _ => rfl
      apply D'.waitOn hidle .notempty _ he
      exact fun _ => ⟨rfl, rfl, rfl⟩

theorem DInv.hold (D : DInv cfg s) (ht : t ∈ s.tasks) (hc : s.calls t = .msgalloc q msg :: below)
    (hn : Nowhere s n) (hm : n ∈ s.memory) :
    DInv cfg (s.setCalls t (.dosend q msg n :: below)) where
  msgs := by
    have hother : ∀ u, u ≠ t → (s.setCalls t (.dosend q msg n :: below)).calls u = s.calls u :=
      fun u hu => update_of_ne hu _ _
    have hself : (s.setCalls t (.dosend q msg n :: below)).calls t = .dosend q msg n :: below :=
      update_self _ _ _
    have hplace : ∀ b, b ≠ .hand t →
        places (s.setCalls t (.dosend q msg n :: below)) b = places s b := by
      intro b hb
      cases b with
      | hand u => rw [places_hand, places_hand, hother u fun h => hb (by rw [h])]
      | _ => rfl
    have hhand : (places (s.setCalls t (.dosend q msg n :: below)) (.hand t)).Perm
        (n :: places s (.hand t)) := by
      have h1 : (MqCall.dosend q msg n).mqmsg = some n := rfl
      have h2 : (MqCall.msgalloc q msg).mqmsg = none := rfl
      rw [places_hand, places_hand, hself, hc, List.filterMap_cons_some h1,
        List.filterMap_cons_none h2]
    have hsame : SameContents s (s.setCalls t (.dosend q msg n :: below)) :=
      ⟨fun _ => rfl, rfl, rfl, rfl⟩
    apply D.msgs.moved hsame (D.msgs.apart.put hn hhand hplace)
    · intro b m hb
      show m ∈ s.memory
      by_cases h : b = .hand t
      · subst h
        rcases List.mem_cons.mp (hhand.mem_iff.mp hb) with rfl | hb
        · exact hm
        · exact D.msgs.memory _ m hb
      · rw [hplace b h] at hb
        exact D.msgs.memory b m hb
    · intro r m hu
      rcases hu with hu | ⟨u, hu⟩
      · exact .inl hu
      · by_cases hut : u = t
        · subst hut
          rw [hself] at hu
          rcases List.mem_cons.mp hu with he | hu
          · cases he
          · exact .inr ⟨u, hc ▸ List.mem_cons_of_mem _ hu⟩
        · rw [hother u hut] at hu
          exact .inr ⟨u, hu⟩
    · exact fun _ => .refl _
    · exact D.msgs.counted
  rooms := by
    have hcalm : Calm s (s.setCalls t (.dosend q msg n :: below)) := by
      apply D.rooms.calm_setCalls ht
      intro r
      rw [hc]
      simp [List.countP_cons, MqCall.passed]
    exact D.rooms.calm hcalm D.rooms.kernel D.rooms.tasks D.rooms.listed

theorem DInv.dosend (D : DInv cfg s) (ht : t ∈ s.tasks)
    (hc : s.calls t = .dosend q msg n :: below) :
    DInv cfg (mqInsert q msg n (s.setCalls t (.wakeReceiver q :: below))) := by
  have hd : (MqCall.wakeReceiver q).mqmsg = none := rfl
  obtain ⟨hn, hm⟩ := D.msgs.letGo hc rfl hd
  have D' : DInv cfg (s.setCalls t (.wakeReceiver q :: below)) := by
    apply D.setCalls ht
    · refine .inr ⟨_, _, rfl, rfl, ?_⟩
      rw [hc]
      exact List.sublist_cons_self _ below
    · intro r
      rw [hc]
      simp [List.countP_cons, MqCall.passed]
  refine ⟨D'.msgs.insert hn hm, D'.rooms.insert fun hq => ?_⟩
  have hp := passed_setCalls (.wakeReceiver q :: below) D.rooms.tasks ht q
  have hpos : (MqCall.dosend q msg n).passed q = true := by simp [MqCall.passed]
  have hneg : ¬(MqCall.wakeReceiver q).passed q = true := by simp [MqCall.passed]
  rw [hc, List.countP_cons_of_pos hpos, List.countP_cons_of_neg hneg] at hp
  have hmax := D.rooms.room q hq
  unfold Sys.load at hmax ⊢
  show (s.msgq q).nmsgs + _ < (s.msgq q).maxmsgs
  omega

theorem DInv.doreceive (D : DInv cfg s) (ht : t ∈ s.tasks)
    (hc : s.calls t = .doreceive q n :: below) :
    DInv cfg (mqMsgfree n
      { s.setCalls t (.wakeSender q :: below) with
        received := update s.received q
          (s.received q ++ [(s.serial n, (s.msg n).payload)]) }) := by
  have hd : (MqCall.wakeSender q).mqmsg = none := rfl
  obtain ⟨hn, hm⟩ := D.msgs.letGo hc rfl hd
  have hu : Undelivered s q n := .inr ⟨t, hc ▸ List.mem_cons_self⟩
  obtain ⟨hint, hnum⟩ := D.msgs.intact q n hu
  have D' : DInv cfg (s.setCalls t (.wakeSender q :: below)) := by
    apply D.setCalls ht
    · refine .inr ⟨_, _, rfl, rfl, ?_⟩
      rw [hc]
      exact List.sublist_cons_self _ below
    · intro r
      rw [hc]
      simp [MqCall.passed]
  have I : MsgInv { s.setCalls t (.wakeSender q :: below) with
      received := update s.received q
        (s.received q ++ [(s.serial n, (s.msg n).payload)]) } := by
    apply D'.msgs.receive hint hnum
    intro m hm' he
    have hm0 : Undelivered s q m := by
      rcases hm' with h | ⟨u, h⟩
      · exact .inl h
      · by_cases hut : u = t
        · subst hut
          have h' : MqCall.doreceive q m ∈ MqCall.wakeSender q :: below := by
            simpa [Sys.setCalls] using h
          rcases List.mem_cons.mp h' with h' | h'
          · cases h'
          · exact .inr ⟨u, hc ▸ List.mem_cons_of_mem _ h'⟩
        · have h' : MqCall.doreceive q m ∈ s.calls u := by
            simpa [Sys.setCalls, hut] using h
          exact .inr ⟨u, h'⟩
    have := D.msgs.serials q m n hm0 hu he
    subst this
    exact hn.not_undelivered hm'
  refine ⟨I.msgfree hn hm, ?_⟩
  unfold mqMsgfree
  split <;> exact ⟨D'.rooms.kernel, D'.rooms.tasks, D'.rooms.listed, D'.rooms.room⟩

theorem DInv.callStep (D : DInv cfg s) (hidle : s.kernel.head ≠ gIdletcb)
    (hmem : ∀ n ∈ mem, n ∉ s.memory) (hc : s.calls s.kernel.head = c :: below)
    (hroom : ∀ q msg, c = .waitsend q msg → s.errno s.kernel.head = 0 → s.roomFor q)
    (he : Mqueue.callStep cfg mem nonblock c below s = some s') : DInv cfg s' := by
  have ht := D.rooms.head_mem
  have Dd : DInv cfg (s.setCalls s.kernel.head below) := D.drop ht hc
  have hcd : (s.setCalls s.kernel.head below).calls s.kernel.head = below :=
    update_self _ _ _
  unfold Mqueue.callStep at he
  dsimp only at he
  cases c with
  | waitsend q msg =>
    dsimp only at he
    split at he
    · cases he
      exact Dd
    · rename_i h0
      rw [sendTest_drop] at he
      apply Dd.sendTest hidle hcd _ he
      have hp := passed_setCalls below D.rooms.tasks ht q
      rw [hc, List.countP_cons_of_neg (by simp [MqCall.passed])] at hp
      intro hq hlt
      have hload := hroom q msg rfl (not_not.mp h0) hq hlt
      unfold Sys.load at hload ⊢
      show (s.msgq q).nmsgs + _ < (s.msgq q).maxmsgs
      omega
  | msgalloc q msg =>
    dsimp only at he
    cases ha : mqMsgalloc false mem s with
    | mk s1 r =>
      rw [ha] at he
      cases r with
      | none => cases he
      | some n =>
        cases he
        obtain ⟨D1, hn, hm, hcalls, hk⟩ := D.msgalloc hmem ha
        have ht1 := D1.rooms.head_mem
        rw [hk] at ht1
        exact D1.hold ht1 (hcalls ▸ hc) hn hm
  | dosend q msg n =>
    cases he
    exact D.dosend ht hc
  | wakeReceiver q => exact Dd.wakeReceiver he
  | waitreceive q =>
    dsimp only at he
    split at he
    · cases he
      exact Dd
    · rw [receiveTest_drop] at he
      exact Dd.receiveTest hidle hcd he
  | doreceive q n =>
    cases he
    exact D.doreceive ht hc
  | wakeSender q => exact Dd.wakeSender he

theorem DInv.sendIrq (D : DInv cfg s) (he : mqSendIrq cfg q msg s = some s') : DInv cfg s' := by
  unfold mqSendIrq at he
  cases ha : mqMsgalloc true none s with
  | mk s1 r =>
    rw [ha] at he
    cases r with
    | none =>
      cases he
      rw [msgalloc_none ha]
      exact D
    | some n =>
      obtain ⟨D1, hn, hm, -, -⟩ := D.msgalloc (by simp) ha
      have hmark : RoomInv cfg { s1 with irqSent := update s1.irqSent q true } := by
        refine ⟨D1.rooms.kernel, D1.rooms.tasks, D1.rooms.listed, fun r hr => ?_⟩
        apply D1.rooms.room r
        by_cases h : r = q
        · subst h
          simp at hr
        · simpa [h] using hr
      have D2 : DInv cfg { mqInsert q msg n s1 with
          irqSent := update s1.irqSent q true } := by
        have I2 : MsgInv (mqInsert q msg n s1) := D1.msgs.insert hn hm
        refine ⟨⟨I2.apart, I2.memory, I2.intact, I2.serials, I2.ordered, I2.counted, I2.once,
          I2.same⟩, ?_⟩
        apply hmark.insert
        intro hq
        simp at hq
      exact D2.wakeReceiver he

theorem DInv.sched (D : DInv cfg s) {i : Sched.Op}
    (hv : i.valid cfg s.kernel.toTasks s.kernel.head) {k : Kernel}
    (hk : i.exec cfg s.kernel = some k) : DInv cfg { s.created i with kernel := k } := by
  have hinv := D.rooms.kernel.step hv hk
  have hl := D.rooms.kernel.listed hv hk
  cases i with
  | create tcb priority =>
    have hcalls : ∀ u, (s.created (.create tcb priority)).calls u =
        if u = tcb then [] else s.calls u := by
      intro u
      by_cases h : u = tcb
      · subst h
        simp [Sys.created, Sys.setCalls]
      · simp [Sys.created, Sys.setCalls, h]
    refine ⟨D.msgs.leaves ⟨⟨fun _ => rfl, rfl, rfl, rfl⟩, fun u => ?_, fun _ => rfl,
      fun _ => rfl, .refl _, .refl _, fun _ => id⟩, hinv, ?_, fun u hu => ?_, fun r hr => ?_⟩
    · left
      show ((s.created (.create tcb priority)).calls u).Sublist _
      rw [hcalls]
      split
      · exact List.nil_sublist _
      · exact .refl _
    · show (if tcb ∈ s.tasks then s.tasks else tcb :: s.tasks).Nodup
      split
      · exact D.rooms.tasks
      · rename_i hnew
        exact List.nodup_cons.mpr ⟨hnew, D.rooms.tasks⟩
    · show u ∈ if tcb ∈ s.tasks then s.tasks else tcb :: s.tasks
      rcases hl u hu with h | ⟨p, h⟩
      · split
        · exact D.rooms.listed u h
        · exact List.mem_cons_of_mem _ (D.rooms.listed u h)
      · cases h
        split
        · assumption
        · exact List.mem_cons_self
    · have hmax := D.rooms.room r hr
      have hpass : (owned (if tcb ∈ s.tasks then s.tasks else tcb :: s.tasks)
          (update s.calls tcb [])).countP (MqCall.passed r) ≤ s.passed r := by
        split
        · rename_i hold
          have hp := passed_setCalls [] D.rooms.tasks hold r
          rw [List.countP_nil] at hp
          show (s.setCalls tcb []).passed r ≤ _
          omega
        · rename_i hnew
          have ho : owned (tcb :: s.tasks) (update s.calls tcb []) =
              owned s.tasks s.calls := by
            unfold owned
            rw [List.flatMap_cons, update_self, List.nil_append]
            exact owned_update_of_not_mem hnew
          rw [ho]
          exact le_refl _
      unfold Sys.load at hmax
      show (s.msgq r).nmsgs + _ ≤ (s.msgq r).maxmsgs
      have : ({ s.created (.create tcb priority) with kernel := k } : Sys).passed r =
        (owned (if tcb ∈ s.tasks then s.tasks else tcb :: s.tasks)
          (update s.calls tcb [])).countP (MqCall.passed r) := rfl
      omega
  | _ =>
    refine ⟨D.msgs.leaves ⟨⟨fun _ => rfl, rfl, rfl, rfl⟩, fun _ => .inl (.refl _), fun _ => rfl,
      fun _ => rfl, .refl _, .refl _, fun _ => id⟩, hinv, D.rooms.tasks, fun u hu => ?_,
      D.rooms.room⟩
    rcases hl u hu with h | ⟨p, h⟩
    · exact D.rooms.listed u h
    · cases h

theorem DInv.step (D : DInv cfg s) {i : MqOp} (hv : i.valid cfg s) (hk : i.keepsRoom s)
    (he : i.exec cfg s = some s') : DInv cfg s' := by
  cases i with
  | sched i =>
    obtain ⟨k, hk', hs'⟩ := Option.map_eq_some_iff.mp he
    rw [← hs']
    exact D.sched hv.1 hk'
  | send q msg nonblock => exact D.sendTest hv.1 rfl hk he
  | receive q nonblock => exact D.receiveTest hv.1 rfl he
  | step mem nonblock =>
    simp only [MqOp.exec] at he
    cases hc : s.calls s.kernel.head with
    | nil =>
      rw [hc] at he
      cases he
    | cons c below =>
      rw [hc] at he
      apply D.callStep hv.1 hv.2 hc _ he
      intro q msg hcq
      unfold MqOp.keepsRoom at hk
      rw [hc, hcq] at hk
      exact hk
  | sendIrq q msg => exact D.sendIrq he
  | sndtimeout t =>
    apply D.endWait hv _ he
    intro st hst
    exact .inr (List.mem_singleton.mp hst)
  | rcvtimeout t =>
    apply D.endWait hv _ he
    intro st hst
    exact .inl (List.mem_singleton.mp hst)
  | waitirq t =>
    apply D.endWait hv _ he
    intro st hst
    unfold IsMqwait
    simpa using hst

theorem MqStart.dinv (h : MqStart cfg s) : DInv cfg s := by
  have hnil : ∀ q, (s.msgq q).msglist = [] := fun q => by rw [(h.queues q).2]
  have hund : ∀ q n, ¬Undelivered s q n := by
    rintro q n (hu | ⟨t, hu⟩)
    · rw [hnil] at hu
      cases hu
    · rw [h.calls] at hu
      cases hu
  have hpool := List.nodup_append.mp (h.memory ▸ h.nodup)
  refine ⟨⟨⟨?_, ?_⟩, ?_, fun q n hu => absurd hu (hund q n), fun q n _ hu => absurd hu (hund q n),
    fun q => ?_, fun q => ?_, fun q => ?_, fun q i msg hm => ?_⟩, ?_, ?_, fun t ht => ?_,
    fun q _ => ?_⟩
  · intro a
    cases a with
    | free => exact hpool.1
    | freeirq => exact hpool.2.1
    | queue q => simp [hnil]
    | hand t => simp [h.calls]
  · intro a b x ha hb
    cases a <;> cases b <;>
      first
        | rfl
        | exact absurd rfl (hpool.2.2 x ha x hb)
        | exact absurd rfl (hpool.2.2 x hb x ha)
        | simp [hnil, h.calls] at ha
        | simp [hnil, h.calls] at hb
  · intro a n hn
    rw [h.memory]
    cases a with
    | free => exact List.mem_append_left _ hn
    | freeirq => exact List.mem_append_right _ hn
    | queue q => simp [hnil] at hn
    | hand t => simp [h.calls] at hn
  · rw [hnil]
    exact List.Pairwise.nil
  · rw [(h.queues q).2]
    rfl
  · unfold Sys.numbers
    rw [h.received]
    exact List.nodup_nil
  · rw [h.received] at hm
    cases hm
  · rw [h.kernel]
    exact osStart_inv cfg
  · rw [h.tasks]
    exact List.nodup_singleton _
  · rw [h.tasks]
    obtain ⟨i, hi⟩ := ht
    rw [h.kernel, osStart_list] at hi
    split at hi
    · exact hi
    · cases hi
  · have hp : s.passed q = 0 := by
      unfold Sys.passed
      rw [h.tasks, h.calls]
      rfl
    unfold Sys.load
    rw [hp, (h.queues q).2]
    simpa using (h.queues q).1

theorem DInv.delivered (D : DInv cfg s) : Delivered s where
  once := D.msgs.once
  same := D.msgs.same
  present q n hn := D.msgs.intact q n (.inl hn)
  oldest q nonblock below s' he hne := by
    have ho := D.msgs.ordered q
    unfold Mqueue.receiveTest at he
    dsimp only at he
    split at he
    · rename_i n rest hl
      cases he
      rw [hl] at ho ⊢
      refine ⟨n, List.mem_cons_self, update_self _ _ _, fun m hm hne' => ?_⟩
      rcases List.mem_cons.mp hm with rfl | hm
      · exact absurd rfl hne'
      · exact (List.pairwise_cons.mp ho).1 m hm
    · rename_i hl
      exact absurd hl hne
  counted := D.msgs.counted
  bounded q hq := by
    have := D.rooms.room q hq
    unfold Sys.load at this
    omega

end

end NuttxAvr32.Mqueue
