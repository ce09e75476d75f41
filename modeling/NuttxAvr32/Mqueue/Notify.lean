import NuttxAvr32.Mqueue.Waiters

/-! # Notification

The registrations of `mq_notify` beside the queues. The step in which `mq_dosend` inserts a
message is also the one in which it notifies.
-/

namespace NuttxAvr32.Mqueue

open Sched Runs

/-- The fields of `struct msgq_s` for the notification; `ntmqdes` is 0 while there is none. -/
structure Notification where
  ntmqdes : Nat
  ntpid : Nat
  ntsigno : Int
  ntvalue : Nat
deriving DecidableEq

structure Sigevent where
  sigevSigno : Int
  sigevValue : Nat
deriving DecidableEq

/-- The queues and their notifications, with all registrations in order, the number of the one
that a queue has, and the calls of `sig_mqnotempty` by the number of the registration. -/
structure Notices where
  sys : Sys
  nt : Nat → Notification
  registered : List (Nat × Notification)
  number : Nat → Nat
  notified : List (Nat × Notification)

def detached : Notification := ⟨0, 0, 0, 0⟩

def goodSigno (signo : Int) : Prop := 0 ≤ signo ∧ signo ≤ 31

instance (signo : Int) : Decidable (goodSigno signo) := inferInstanceAs (Decidable (_ ∧ _))

namespace Notices

def setNt (q : Nat) (n : Notification) (s : Notices) : Notices :=
  { s with nt := Function.update s.nt q n }

def register (q : Nat) (n : Notification) (s : Notices) : Notices :=
  { s.setNt q n with
    registered := s.registered ++ [(q, n)]
    number := Function.update s.number q s.registered.length }

/-- `false` is `ERROR`. -/
def mqNotify (q mqdes : Nat) (notification : Option Sigevent) (s : Notices) : Notices × Bool :=
  let pid := (s.sys.kernel.tcb s.sys.kernel.head).pid
  if mqdes = 0 then (s, false)
  else if (s.nt q).ntmqdes = 0 then
    match notification with
    | some e =>
      if goodSigno e.sigevSigno then
        (s.register q ⟨mqdes, pid, e.sigevSigno, e.sigevValue⟩, true)
      else (s, false)
    | none => (s, false)
  else if (s.nt q).ntpid = pid ∧ notification = none then (s.setNt q detached, true)
  else (s, false)

def mqNotempty (q : Nat) (s : Notices) : Notices :=
  if (s.nt q).ntmqdes = 0 then s
  else { s.setNt q detached with notified := s.notified ++ [(s.number q, s.nt q)] }

end Notices

def MqOp.arrives (s : Sys) : MqOp → Option Nat
  | .step _ _ =>
    match s.calls s.kernel.head with
    | .dosend q _ _ :: _ => some q
    | _ => none
  | .sendIrq q _ => (mqMsgalloc true none s).2.map fun _ => q
  | _ => none

inductive NotifyOp
  | mq (i : MqOp)
  | notify (q mqdes : Nat) (notification : Option Sigevent)

namespace NotifyOp

def arrives (s : Sys) : NotifyOp → Option Nat
  | .mq i => i.arrives s
  | .notify _ _ _ => none

def valid (cfg : Config) (s : Sys) : NotifyOp → Prop
  | .mq i => i.valid cfg s
  | .notify _ _ _ => True

def exec (cfg : Config) : NotifyOp → Notices → Option Notices
  | .mq i, s => (i.exec cfg s.sys).map fun sys =>
    let s' := { s with sys := sys }
    (i.arrives s.sys).elim s' fun q => s'.mqNotempty q
  | .notify q mqdes notification, s => some (s.mqNotify q mqdes notification).1

end NotifyOp

def notifyMachine (cfg : Config) : Machine Notices NotifyOp where
  valid s i := i.valid cfg s.sys
  exec s i := i.exec cfg s

structure NotifyStart (cfg : Config) (s : Notices) : Prop where
  sys : MqStart cfg s.sys
  nt : s.nt = fun _ => detached
  registered : s.registered = []
  notified : s.notified = []

/-- Each notification is that of a registration, with what was registered, and no registration
has two; that of a queue has none yet. -/
structure Once (s : Notices) : Prop where
  attached : ∀ q, (s.nt q).ntmqdes ≠ 0 →
    s.registered[s.number q]? = some (q, s.nt q) ∧ s.number q ∉ s.notified.map Prod.fst
  of_registered : ∀ k n, (k, n) ∈ s.notified → ∃ q, s.registered[k]? = some (q, n)
  nodup : (s.notified.map Prod.fst).Nodup

section

variable {cfg : Config} {s s' : Notices} {i : NotifyOp} {q : Nat}

theorem Once.notified_lt (h : Once s) {k : Nat} (hk : k ∈ s.notified.map Prod.fst) :
    k < s.registered.length := by
  obtain ⟨⟨k, n⟩, hmem, rfl⟩ := List.mem_map.mp hk
  obtain ⟨q, hq⟩ := h.of_registered k n hmem
  exact (List.getElem?_eq_some_iff.mp hq).1

theorem Once.detach (h : Once s) : Once (s.setNt q detached) := by
  refine ⟨fun r hr => ?_, h.of_registered, h.nodup⟩
  by_cases hrq : r = q
  · subst hrq
    simp [Notices.setNt, detached] at hr
  · simp only [Notices.setNt, Function.update_of_ne hrq] at hr ⊢
    exact h.attached r hr

theorem Once.register (h : Once s) (n : Notification) : Once (s.register q n) := by
  have hold : ∀ {k x}, s.registered[k]? = some x → (s.registered ++ [(q, n)])[k]? = some x :=
    fun hk => (List.getElem?_append_left (List.getElem?_eq_some_iff.mp hk).1).trans hk
  refine ⟨fun r hr => ?_, fun k m hm => ?_, h.nodup⟩
  · by_cases hrq : r = q
    · subst hrq
      simp only [Notices.register, Notices.setNt, Function.update_self]
      exact ⟨List.getElem?_concat_length, fun hk => Nat.lt_irrefl _ (h.notified_lt hk)⟩
    · simp only [Notices.register, Notices.setNt, Function.update_of_ne hrq] at hr ⊢
      exact ⟨hold (h.attached r hr).1, (h.attached r hr).2⟩
  · obtain ⟨r, hr⟩ := h.of_registered k m hm
    exact ⟨r, hold hr⟩

theorem Once.mqNotempty (h : Once s) : Once (s.mqNotempty q) := by
  unfold Notices.mqNotempty
  split
  · exact h
  · rename_i hq
    obtain ⟨hreg, hnew⟩ := h.attached q hq
    have hmap : (s.notified ++ [(s.number q, s.nt q)]).map Prod.fst =
        s.notified.map Prod.fst ++ [s.number q] := List.map_append
    refine ⟨fun r hr => ?_, fun k n hk => ?_, ?_⟩
    · obtain ⟨hr1, hr2⟩ := (h.detach (q := q)).attached r hr
      refine ⟨hr1, fun hmem => ?_⟩
      rcases List.mem_append.mp (hmap ▸ hmem) with hmem | hmem
      · exact hr2 hmem
      · -- two queues have different registrations
        have hnum : s.number r = s.number q := List.mem_singleton.mp hmem
        have hrq : r = q := (Prod.mk.inj (Option.some.inj (hr1.symm.trans (hnum ▸ hreg)))).1
        subst hrq
        simp [Notices.setNt, detached] at hr
    · rcases List.mem_append.mp hk with hk | hk
      · exact h.of_registered k n hk
      · cases List.mem_singleton.mp hk
        exact ⟨q, hreg⟩
    · show ((s.notified ++ [(s.number q, s.nt q)]).map Prod.fst).Nodup
      rw [hmap]
      exact List.nodup_append.mpr ⟨h.nodup, List.nodup_singleton _, fun a ha b hb hab =>
        hnew (List.mem_singleton.mp hb ▸ hab ▸ ha)⟩

theorem mqNotify_cases (s : Notices) (q mqdes : Nat) (notification : Option Sigevent) :
    ∃ s', (s.mqNotify q mqdes notification).1 = s' ∧
      (s' = s ∨ (∃ n, s' = s.register q n) ∨ s' = s.setNt q detached) := by
  refine ⟨_, rfl, ?_⟩
  unfold Notices.mqNotify
  dsimp only
  split_ifs
  · exact .inl rfl
  · cases notification with
    | none => exact .inl rfl
    | some e =>
      dsimp only
      split_ifs
      · exact .inr (.inl ⟨_, rfl⟩)
      · exact .inl rfl
  · exact .inr (.inr rfl)
  · exact .inl rfl

theorem Once.step (h : Once s) (he : i.exec cfg s = some s') : Once s' := by
  cases i with
  | mq i =>
    obtain ⟨sys, -, rfl⟩ := Option.map_eq_some_iff.mp he
    have hs : Once { s with sys := sys } := ⟨h.attached, h.of_registered, h.nodup⟩
    cases i.arrives s.sys with
    | none => exact hs
    | some q => exact hs.mqNotempty
  | notify q mqdes notification =>
    cases he
    obtain ⟨s', he, h'⟩ := mqNotify_cases s q mqdes notification
    rw [he]
    rcases h' with rfl | ⟨n, rfl⟩ | rfl
    · exact h
    · exact h.register n
    · exact h.detach

theorem notified_of_none (he : i.exec cfg s = some s') (hi : i.arrives s.sys = none) :
    s'.notified = s.notified := by
  cases i with
  | mq i =>
    obtain ⟨sys, -, rfl⟩ := Option.map_eq_some_iff.mp he
    rw [show i.arrives s.sys = none from hi]
    rfl
  | notify q mqdes notification =>
    cases he
    obtain ⟨s', he, h'⟩ := mqNotify_cases s q mqdes notification
    rw [he]
    rcases h' with rfl | ⟨n, rfl⟩ | rfl <;> rfl

theorem nt_of_arrives (he : i.exec cfg s = some s') (hi : i.arrives s.sys = some q) :
    (s'.nt q).ntmqdes = 0 ∧ s'.notified = s.notified ++
      if (s.nt q).ntmqdes = 0 then [] else [(s.number q, s.nt q)] := by
  cases i with
  | mq i =>
    obtain ⟨sys, -, rfl⟩ := Option.map_eq_some_iff.mp he
    rw [show i.arrives s.sys = some q from hi]
    dsimp only [Option.elim_some, Notices.mqNotempty]
    split_ifs with h0
    · exact ⟨h0, (List.append_nil _).symm⟩
    · exact ⟨by simp [Notices.setNt, detached], rfl⟩
  | notify _ _ _ => cases hi

end

/-- A message that arrives at an empty queue notifies the registered task, with a waiting
receiver or without, and takes the registration away; without an arrival nobody is notified, and
no registration is used twice. -/
theorem registered_notified {cfg : Config} {s s' : Notices} {i : NotifyOp}
    (h : Reachable (notifyMachine cfg) (NotifyStart cfg) s)
    (he : (notifyMachine cfg).exec s i = some s') :
    (∀ q, i.arrives s.sys = some q → (s.sys.msgq q).msglist = [] → (s'.nt q).ntmqdes = 0 ∧
      ((s.nt q).ntmqdes = 0 → s'.notified = s.notified) ∧
      ((s.nt q).ntmqdes ≠ 0 → s.registered[s.number q]? = some (q, s.nt q) ∧
        s'.notified = s.notified ++ [(s.number q, s.nt q)])) ∧
    (i.arrives s.sys = none → s'.notified = s.notified) ∧ Once s' := by
  have I : Once s := by
    apply Reach.invariant (I := Once) _ _ h
    · intro s hs
      refine ⟨fun q hq => ?_, fun k n hk => ?_, ?_⟩
      · rw [hs.nt] at hq
        exact absurd rfl hq
      · rw [hs.notified] at hk
        cases hk
      · rw [hs.notified]
        exact List.nodup_nil
    · exact fun s i s' I _ _ he => I.step he
  refine ⟨fun q hi _ => ?_, notified_of_none he, I.step he⟩
  obtain ⟨hnt, hno⟩ := nt_of_arrives he hi
  refine ⟨hnt, fun h0 => ?_, fun h0 => ⟨(I.attached q h0).1, ?_⟩⟩
  · rw [hno, if_pos h0, List.append_nil]
  · rw [hno, if_neg h0]

def registersAndSends : List NotifyOp :=
  [.mq (.sched (.create 3 90)), .mq (.sched (.activate 3)), .notify 7 1 (some ⟨5, 9⟩),
    .mq (.send 7 ⟨1, 1, [5]⟩ false), .mq (.step none false)]

def notifyBoot : Notices := ⟨mqBoot, fun _ => detached, [], fun _ => 0, []⟩

theorem notifyBoot_start : NotifyStart ⟨4, none, false, 0, 0⟩ notifyBoot :=
  ⟨mqBoot_start, rfl, rfl, rfl⟩

instance decidableNotifyValid (cfg : Config) (s : Notices) :
    ∀ i, Decidable ((notifyMachine cfg).valid s i)
  | .mq i => inferInstanceAs (Decidable (i.valid cfg s.sys))
  | .notify _ _ _ => inferInstanceAs (Decidable True)

/-- The registered task is notified of its own message. -/
theorem registered_notified_run : ∃ s s', (NotifyOp.mq (.step none false)).exec
    ⟨4, none, false, 0, 0⟩ s = some s' ∧ s'.notified = s.notified ++ [(0, ⟨1, 1, 5, 9⟩)] ∧
      Once s' := by
  have hr : ((runAll (notifyMachine ⟨4, none, false, 0, 0⟩) (fun _ _ => True) notifyBoot
      registersAndSends).any fun s => decide
        (((NotifyOp.mq (.step none false)).exec ⟨4, none, false, 0, 0⟩ s).isSome ∧
        (NotifyOp.mq (.step none false)).arrives s.sys = some 7 ∧ (s.sys.msgq 7).msglist = [] ∧
          s.number 7 = 0 ∧ s.nt 7 = ⟨1, 1, 5, 9⟩)) = true := by
    decide +kernel
  obtain ⟨s, hs, hd⟩ := (Option.any_eq_true _ _).mp hr
  obtain ⟨he, ha, hl, hnum, hnt⟩ := of_decide_eq_true hd
  obtain ⟨s', he⟩ := Option.isSome_iff_exists.mp he
  obtain ⟨harr, -, honce⟩ := registered_notified (i := .mq (.step none false))
    (Reach.runAll (.init notifyBoot_start) hs) he
  have hlog := ((harr 7 ha hl).2.2 (by rw [hnt]; decide)).2
  rw [hnum, hnt] at hlog
  exact ⟨s, s', he, hlog, honce⟩

/-- The registered task is notified although another one waits for the message. -/
theorem notified_with_receiver : ¬∀ s s' i q, Reachable (notifyMachine ⟨4, none, false, 0, 0⟩)
    (NotifyStart ⟨4, none, false, 0, 0⟩) s → (notifyMachine ⟨4, none, false, 0, 0⟩).valid s i →
    (notifyMachine ⟨4, none, false, 0, 0⟩).exec s i = some s' → i.arrives s.sys = some q →
    s'.notified ≠ s.notified →
      (s.sys.msgq q).msglist = [] ∧ waiters .waitingformqnotempty q s.sys = [] := by
  intro hall
  have hr : ((runAll (notifyMachine ⟨4, none, false, 0, 0⟩) (fun _ _ => True) notifyBoot
      (receiverWaits.map .mq ++ registersAndSends)).any fun s => decide
        (((notifyMachine ⟨4, none, false, 0, 0⟩).valid s (.mq (.step none false)) ∧
          ((NotifyOp.mq (.step none false)).exec ⟨4, none, false, 0, 0⟩ s).isSome) ∧
        (NotifyOp.mq (.step none false)).arrives s.sys = some 7 ∧
          waiters .waitingformqnotempty 7 s.sys = [2] ∧ (s.nt 7).ntmqdes ≠ 0)) = true := by
    decide +kernel
  obtain ⟨s, hs, hd⟩ := (Option.any_eq_true _ _).mp hr
  obtain ⟨⟨hv, he⟩, ha, hwait, hnt⟩ := of_decide_eq_true hd
  obtain ⟨s', he⟩ := Option.isSome_iff_exists.mp he
  have hlog := (nt_of_arrives he ha).2
  rw [if_neg hnt] at hlog
  have hne : s'.notified ≠ s.notified := by
    rw [hlog]
    simp
  have hnone := (hall s s' _ 7 (Reach.runAll (.init notifyBoot_start) hs) hv he ha hne).2
  rw [hwait] at hnone
  cases hnone

end NuttxAvr32.Mqueue
