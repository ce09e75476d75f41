import NuttxAvr32.Sig.Turns

/-! # Signals that become unblocked

When a task's mask changes, `sig_unmaskpendingsignal` hands the pending signals that are no
longer blocked to `sig_received`. Before the call returns each of them has been passed on:
its handler has run, or there was none, or a handler took it with `sigtimedwait`.
-/

namespace NuttxAvr32.Sig

open Owners Apart Runs

section

variable {s s' : State} {m : Mark} {t n signo : Nat} {info : Siginfo} {g : Tcb → Tcb}
  {f : Frame} {base below : List Frame} {mem : Option Nat}

/-- No activation changes; a pending signal stays or `sigtimedwait` returns it. -/
structure Still (m : Mark) (t signo : Nat) (s s' : State) : Prop where
  grow : Grow s s'
  delivered : ∀ v, (s'.tcb v).history.delivered = (s.tcb v).history.delivered
  frames : ∀ v, (s'.tcb v).frames = (s.tcb v).frames
  mask : ∀ v, (s'.tcb v).sigprocmask = (s.tcb v).sigprocmask
  pends : s.Pends t signo → s'.Pends t signo ∨ Passed m signo (s'.tcb t)

inductive Moves (m : Mark) (t signo : Nat) (base : List Frame) (s s' : State) : Prop
  | turn (f : Frame) (below new : List Frame) :
      Turn m t signo base s s' f below new → Moves m t signo base s s'
  | push (x : Frame) : Push m t signo base s s' x → Moves m t signo base s s'
  | still : Still m t signo s s' → Moves m t signo base s s'

theorem Moves.grow (M : Moves m t signo base s s') : Grow s s' := by
  cases M with
  | turn f below new T => exact T.grow
  | push x T => exact T.grow
  | still T => exact T.grow

theorem Moves.onWay (M : Moves m t signo base s s') (h : OnWay m t signo base s) :
    OnWay m t signo base s' := by
  cases M with
  | turn f below new T => exact T.onWay h
  | push x T => exact T.onWay h
  | still T => exact h.calm T.grow (T.delivered t) T.pends (T.frames t) (T.mask t)

theorem Moves.keepsUnblocked (M : Moves m t signo base s s') (hu : Unblocked s) :
    Unblocked s' := by
  cases M with
  | turn f below new T => exact T.keepsUnblocked hu
  | push x T => exact T.keepsUnblocked hu
  | still T =>
    intro v pre set p rest hf
    rw [T.frames] at hf
    rw [T.mask]
    exact hu v pre set p rest hf

theorem Still.ofCalm (hc : Calm s s') (hs : SameFrames s s') : Still m t signo s s' :=
  ⟨hc.grow, hc.delivered, hs.frames, hs.mask, fun h => .inl (hc.pends t signo h)⟩

theorem Push.ofModify {x : Frame} (hc : Calm s (s.modify s.head g))
    (hf : (g (s.tcb s.head)).frames = x :: (s.tcb s.head).frames)
    (hlevel : ∀ pre y rest, (s.tcb s.head).frames = pre ++ y :: rest → y.inHandler = false →
      levelMask (x :: pre) (g (s.tcb s.head)).sigprocmask =
        levelMask pre (s.tcb s.head).sigprocmask)
    (hun : ∀ set p, x ≠ .unmask set p)
    (hsched : t = s.head → ∀ k info rest,
      InQueue s t signo k [] rest (.received t info .schedule) → m.delivered ≤ k →
        base <:+ rest → OnWay m t signo base (s.modify s.head g)) :
    Push m t signo base s (s.modify s.head g) x := by
  refine ⟨hc.grow, fun v hv => ?_, hc.delivered, hc.pends, ?_, ?_, hun, hsched⟩
  · rw [modify_tcb_of_ne hv]
    exact ⟨rfl, rfl⟩
  · rw [modify_tcb_same]
    exact hf
  · rw [modify_tcb_same]
    exact hlevel

theorem kill_push {u : Nat} (hu : (s.tcb s.head).inUser = true) :
    Push m t signo base s ((accept u info s).frames
      (.received u info .start :: (s.tcb s.head).frames)) (.received u info .start) := by
  have hc : Calm s ((accept u info s).frames
      (.received u info .start :: (s.tcb s.head).frames)) := calm_accept.trans calm_frames
  have hs := (quiet_accept u info s).same
  have hmask : ∀ v, (((accept u info s).frames
      (.received u info .start :: (s.tcb s.head).frames)).tcb v).sigprocmask =
        (s.tcb v).sigprocmask := fun v => (modify_field Tcb.sigprocmask rfl v).trans (hs.mask v)
  refine ⟨hc.grow, fun v hv => ⟨?_, hmask v⟩, hc.delivered, hc.pends, ?_, ?_, by simp, ?_⟩
  · unfold State.frames
    rw [modify_tcb_of_ne (by rw [hs.head]; exact hv)]
    exact hs.frames v
  · rw [← hs.head]
    unfold State.frames
    rw [modify_tcb_same]
  · rw [hmask]
    exact level_user hu (fun _ _ => rfl) _
  · intro ht k i rest hq
    subst ht
    exact (not_schedule_user hu hq).elim

theorem procmask_push {how : Nat} {set : Sigset} (hu : (s.tcb s.head).inUser = true) :
    Push m t signo base s (sigprocmask how (some set) s) .unmaskStart := by
  unfold sigprocmask
  apply Push.ofModify
  · exact calm_modify List.prefix_rfl rfl List.prefix_rfl List.prefix_rfl fun _ h => h
  · rfl
  · exact level_user hu (fun _ _ => rfl) _
  · simp
  · intro ht k i rest hq
    subst ht
    exact (not_schedule_user hu hq).elim

theorem suspend_push {set : Sigset} (hu : (s.tcb s.head).inUser = true) :
    Push m t signo base s (s.modify s.head fun c =>
      { c with
        sigprocmask := set
        sigwaitmask := nullSignalSet
        waitSig := true
        frames := .suspend c.sigprocmask :: c.frames }) (.suspend (s.tcb s.head).sigprocmask) := by
  apply Push.ofModify
  · exact calm_modify List.prefix_rfl rfl List.prefix_rfl List.prefix_rfl fun _ h => h
  · rfl
  · exact fun _ _ _ _ _ => rfl
  · simp
  · intro ht k i rest hq
    subst ht
    exact (not_schedule_user hu hq).elim

theorem timedwait_push {set : Sigset} {wdog : Bool} (hu : (s.tcb s.head).inUser = true) :
    Push m t signo base s (s.modify s.head fun c =>
      { c with
        sigwaitmask := set
        waitSig := wdog
        frames := .timedwait :: c.frames }) .timedwait := by
  apply Push.ofModify
  · exact calm_modify List.prefix_rfl rfl List.prefix_rfl List.prefix_rfl fun _ h => h
  · rfl
  · exact fun _ _ _ _ _ => rfl
  · simp
  · intro ht k i rest hq
    subst ht
    exact (not_schedule_user hu hq).elim

theorem sigdeliver_push (I : Inv s) (hset : ∀ f ∈ (s.tcb s.head).frames, f.settled = true) :
    Push m t signo base s (upSigdeliver s) (enterDeliver (s.tcb s.head)) := by
  show Push m t signo base s (s.modify s.head _) _
  have hc : Calm s (upSigdeliver s) :=
    calm_modify List.prefix_rfl rfl List.prefix_rfl List.prefix_rfl fun _ h => h
  apply Push.ofModify
  · exact hc
  · rfl
  · exact fun _ _ _ _ _ => rfl
  · simp [enterDeliver]
  · intro ht k i rest hq hk hb
    subst ht
    refine .inQueue k [] (s.tcb s.head).frames (enterDeliver (s.tcb s.head))
      (hq.goOn hc.grow (hc.delivered _) ?_ (enter_gets I hset hq)) hk ?_
    · unfold upSigdeliver
      rw [modify_tcb_same]
      rfl
    · rw [hq.frames]
      exact hb.trans (List.suffix_cons _ _)

theorem timedwait_take {a : Nat} {s1 : State} (K : Kept s fun _ _ => 0) (hpast : m.Past (s.tcb t))
    (hr : sigRemovependingsignal s.head a s = (s1, some n)) :
    Still m t signo s (sigReleasependingsignal n (s1.modify s1.head fun c =>
      c.log fun h => { h with returned := h.returned ++ [(s1.sigpend n).info] })) := by
  obtain ⟨-, -, hno, -, hpend, hs⟩ := K.removePending hr
  let g : Tcb → Tcb := fun c => { c with sigpendingq := c.sigpendingq.erase n }
  let g' : Tcb → Tcb := fun c =>
    c.log fun h => { h with returned := h.returned ++ [(s1.sigpend n).info] }
  have hs1 : s1 = s.modify s.head g := hs
  have hhead : s1.head = s.head := by
    rw [hs1]
    rfl
  have hgrow : Grow s s1 := by
    rw [hs1]
    apply grow_modify <;> exact List.prefix_rfl
  have hc : Calm s1 (sigReleasependingsignal n (s1.modify s1.head g')) :=
    Calm.trans (calm_modify List.prefix_rfl rfl List.prefix_rfl (List.prefix_append _ _)
      fun _ h => h) calm_release
  have hf : SameFrames s (sigReleasependingsignal n (s1.modify s1.head g')) := by
    refine SameFrames.trans ?_ ((sameFrames_modify (s := s1) (t := s1.head) (f := g') rfl rfl).trans
      sameFrames_releaseSignal)
    rw [hs1]
    exact sameFrames_modify rfl rfl
  refine ⟨hgrow.trans hc.grow, fun v => (hc.delivered v).trans ?_, hf.frames, hf.mask, fun hp => ?_⟩
  · rw [hs1]
    exact modify_field (fun c => c.history.delivered) rfl v
  · by_cases h : t = s.head ∧ signo = a
    · obtain ⟨ht, rfl⟩ := h
      right
      right
      right
      rw [release_tcb.1, ht, ← hhead, modify_tcb_same]
      have hret : (s1.tcb s1.head).history.returned = (s.tcb s.head).history.returned := by
        rw [hhead, hs1, modify_tcb_same]
      show After _ _ _ ((s1.tcb s1.head).history.returned ++ [(s1.sigpend n).info])
      rw [hret]
      apply after_append
      · have := hpast.returned
        rwa [ht] at this
      · rw [hpend]
        exact hno
    · left
      apply hc.pends
      obtain ⟨k, hk, hb⟩ := hp
      refine ⟨k, ?_, by rw [hpend]; exact hb⟩
      rw [hs1]
      by_cases ht : t = s.head
      · subst ht
        rw [modify_tcb_same]
        have hkn : k ≠ n := by
          rintro rfl
          exact h ⟨rfl, hb.symm.trans hno⟩
        exact (List.mem_erase_of_ne hkn).mpr hk
      · rw [modify_tcb_of_ne ht]
        exact hk

theorem calm_allocAction (irq : Bool) (mem : Option Nat) : Calm s (sigAllocatependingsigaction irq mem s).1 := by
  obtain ⟨hb, -, htcb, -⟩ := allocAction_books irq mem s
  exact calm_tcb htcb fun m => by rw [hb.infos]

theorem calm_queueIrq : Calm s (sigQueueactionIrq t info s) ∧
    SameFrames s (sigQueueactionIrq t info s) := by
  unfold sigQueueactionIrq
  split
  · exact ⟨calm_ignore, (quiet_ignore t info s).same⟩
  · have hc := calm_allocAction (s := s) true none
    have hs := (allocAction_spec true none s).1
    cases ha : sigAllocatependingsigaction true none s with
    | mk s1 r =>
      rw [ha] at hc hs
      cases r with
      | none => exact ⟨hc, hs⟩
      | some n => exact ⟨hc.trans calm_addAction, hs.trans (sameFrames_addAction t info _ n s1)⟩

theorem calm_addPendingIrq (K : Kept s d) (he : sigAddpendingsignalIrq t info s = some s') :
    Calm s s' ∧ SameFrames s s' := by
  unfold sigAddpendingsignalIrq at he
  split at he
  · rename_i n hfind
    cases he
    exact ⟨calm_copyPending (find_pending hfind).2, (quiet_copyPending t info n s).same⟩
  · have hq := (quiet_allocatependingsignal true none s).same
    cases ha : sigAllocatependingsignal true none s with
    | mk s1 r =>
      rw [ha] at he hq
      cases r with
      | none => cases he
      | some n =>
        cases he
        obtain ⟨-, hno, htcb, -, -, hinfo⟩ := K.allocSignal (fun m hm => (by cases hm)) ha
        have hc : Calm s s1 := calm_tcb htcb fun m => by rw [hinfo]
        exact ⟨hc.trans (calm_addPending fun u => hno (.pend u)),
          hq.trans (quiet_addPending t info n s1).same⟩

theorem calm_interrupt (K : Kept s fun _ _ => 0) (he : sigReceivedIrq t info s = some s') :
    Calm s s' ∧ SameFrames s s' := by
  have ha := (quiet_accept t info s).same
  unfold sigReceivedIrq at he
  dsimp only at he
  split at he
  · split at he
    · cases he
      exact ⟨calm_accept.trans calm_wakeWith, ha.trans sameFrames_wakeWith⟩
    · obtain ⟨hc, hs⟩ := calm_addPendingIrq (K.accept t info) he
      exact ⟨calm_accept.trans hc, ha.trans hs⟩
  · cases he
    have hq : Calm (accept t info s) (sigQueueactionIrq t info (accept t info s)) ∧
        SameFrames (accept t info s) (sigQueueactionIrq t info (accept t info s)) := calm_queueIrq
    exact ⟨calm_accept.trans (hq.1.trans (calm_flag.trans calm_wakeWaiter)),
      ha.trans (hq.2.trans ((sameFrames_modify rfl rfl).trans (quiet_wakeWaiter t info _).same))⟩

theorem calm_sigaction {signo' : Nat} {act : Option (Nat × Sigset)} :
    Calm s (sigaction signo' act s) ∧ SameFrames s (sigaction signo' act s) := by
  unfold sigaction
  cases act with
  | none => exact ⟨.refl, .refl⟩
  | some a =>
    dsimp only
    split
    · exact ⟨calm_modify List.prefix_rfl rfl List.prefix_rfl List.prefix_rfl fun _ h => h,
        sameFrames_modify rfl rfl⟩
    · exact ⟨.refl, .refl⟩

theorem calm_timeout {u : Nat} : Calm s (sigTimeout u s) ∧ SameFrames s (sigTimeout u s) := by
  unfold sigTimeout
  split
  · exact ⟨calm_modify List.prefix_rfl rfl List.prefix_rfl List.prefix_rfl fun _ h => h,
      sameFrames_modify rfl rfl⟩
  · exact ⟨.refl, .refl⟩

theorem moves_step (I : Inv s) (K : Kept s fun _ _ => 0) (hu : Unblocked s)
    (hpast : m.Past (s.tcb t)) {i : Op} (hv : i.valid s) (hd : i.deliversAlone s)
    (hk : i.keeps s) (he : i.exec s = some s') : Moves m t signo base s s' := by
  have hruns : s.runs = true →
      (s.tcb s.head).waitSig = false ∧ (s.tcb s.head).sigdeliver = false := by
    intro h
    unfold State.runs at h
    simpa using h
  cases i with
  | step mem =>
    simp only [Op.exec, stepHead] at he
    cases hf : (s.tcb s.head).frames with
    | nil =>
      rw [hf] at he
      cases he
    | cons f below =>
      rw [hf] at he
      have hT : ∃ new, Turn m t signo base s s' f below new := by
        refine frame_turn I K hu hpast ⟨I.head, (hruns hv.1).1, hf⟩ (hruns hv.1).2 ?_
          (hk f (by rw [hf]; rfl)) (fun n hn => (hv.2.1 n hn).2) he
        intro info hi
        apply hd
        simp only [Op.entersDeliver, hf, hi]
        simp [(hruns hv.1).2]
      obtain ⟨new, T⟩ := hT
      exact .turn f below new T
  | kill u info =>
    cases he
    exact .push _ (kill_push hv.2.1)
  | sigprocmask how set =>
    cases he
    cases set with
    | none => exact .still (.ofCalm .refl .refl)
    | some set => exact .push _ (procmask_push hv.2.1)
  | sigaction signo' act =>
    cases he
    exact .still (.ofCalm calm_sigaction.1 calm_sigaction.2)
  | sigsuspend set =>
    simp only [Op.exec, sigsuspend] at he
    rw [show sigLowest (~~~set &&& sigPendingset s.head s) = none from hk] at he
    cases he
    exact .push _ (suspend_push hv.2.1)
  | sigtimedwait set wdog =>
    simp only [Op.exec, sigtimedwait] at he
    split at he
    · rename_i a hl
      cases hr : sigRemovependingsignal s.head a s with
      | mk s1 r =>
        rw [hr] at he
        cases r with
        | none => cases he
        | some n =>
          cases he
          exact .still (timedwait_take K hpast hr)
    · cases he
      exact .push _ (timedwait_push hv.2.1)
  | sigdeliver =>
    cases he
    exact .push _ (sigdeliver_push I (hd rfl))
  | switch u =>
    cases he
    exact .still ⟨⟨fun _ => List.prefix_rfl, fun _ => List.prefix_rfl, fun _ => List.prefix_rfl,
      fun _ => List.prefix_rfl⟩, fun _ => rfl, fun _ => rfl, fun _ => rfl, fun h => .inl h⟩
  | interrupt u info =>
    obtain ⟨hc, hs⟩ := calm_interrupt K he
    exact .still (.ofCalm hc hs)
  | timeout u =>
    cases he
    exact .still (.ofCalm calm_timeout.1 calm_timeout.2)

end

/-- A task calls `sigprocmask` with a set, or its `sigsuspend` puts the old mask back. The
activations to which the call returns. -/
def Op.setsMask (s : State) : Op → Option (List Frame)
  | .sigprocmask _ (some _) => some (s.tcb s.head).frames
  | .step _ =>
    match (s.tcb s.head).frames with
    | .suspend _ :: below => some below
    | _ => none
  | _ => none

/-- A pending signal that such a call unblocks has been passed on when it returns. -/
def UnblockedHandled (ok : State → Op → Prop) (s : State) : Prop :=
  ∀ i base s1, i.valid s → ok s i → i.setsMask s = some base → i.exec s = some s1 →
    ∀ signo, s1.Pends s.head signo → sigismember (s1.tcb s.head).sigprocmask signo = false →
      ∀ s2, Reach sigMachine (· = s1) ok s2 → (s2.tcb s.head).frames = base →
        Passed (s1.tcb s.head).mark signo (s2.tcb s.head)

/-- No signal is lost in the runs whose steps are `ok`. -/
structure SignalsKept (ok : State → Op → Prop) (s : State) : Prop where
  once : ∀ t ∈ s.tasks,
    ((s.tcb t).history.booked ++ (s.tcb t).woken ++ s.pending t ++ s.inFlight t).Perm
      (s.tcb t).history.accepted
  actions : ActionsOnce s
  numbers : ∀ t ∈ s.tasks, ((s.pending t).map Siginfo.siSigno).Nodup
  handled : UnblockedHandled ok s

/-- The step loses no signal. -/
def Op.safe (s : State) (i : Op) : Prop := i.deliversAlone s ∧ i.keeps s

section

variable {s s1 s2 : State} {i : Op} {base : List Frame} {signo t : Nat} {m : Mark}

theorem Mark.past (c : Tcb) : c.mark.Past c := ⟨Nat.le_refl _, Nat.le_refl _, Nat.le_refl _⟩

theorem not_suffix_of_longer {x : Frame} {pre rest : List Frame} (h : base <:+ rest) :
    base ≠ pre ++ x :: rest := by
  intro he
  have hlen := congrArg List.length he
  have := h.length_le
  rw [List.length_append, List.length_cons] at hlen
  omega

theorem OnWay.left (h : OnWay m t signo base s) (hf : (s.tcb t).frames = base) :
    Passed m signo (s.tcb t) := by
  cases h with
  | passed h => exact h
  | owed pre f ho =>
    exact absurd (hf.symm.trans ho.frames) (not_suffix_of_longer List.suffix_rfl)
  | flying pre rest info pc hfl hb =>
    exact absurd (hf.symm.trans hfl.frames) (not_suffix_of_longer hb)
  | inQueue k pre rest f hq _ hb =>
    exact absurd (hf.symm.trans hq.frames) (not_suffix_of_longer hb)

/-- The invariant of a run that loses no signal. -/
structure Sound (s : State) : Prop where
  inv : Inv s
  kept : Kept s fun _ _ => 0
  unblocked : Unblocked s

theorem Initial.sound (h : Initial s) : Sound s := by
  refine ⟨h.inv, h.kept, ?_⟩
  obtain ⟨b, hb, tasks, htasks, head, hhead, masks, rfl⟩ := h
  intro t pre set p rest hf
  cases pre <;> cases hf

theorem Sound.step (S : Sound s) (hv : i.valid s) (hk : i.safe s) (he : i.exec s = some s1) :
    Sound s1 := by
  have M : Moves (s.tcb s.head).mark s.head 0 [] s s1 :=
    moves_step S.inv S.kept S.unblocked (Mark.past _) hv hk.1 hk.2 he
  exact ⟨S.inv.step hv hk.1 he, S.kept.step S.inv hv hk.2 he, M.keepsUnblocked S.unblocked⟩

theorem reach_sound (h : Reach sigMachine Initial (fun s i => i.safe s) s) : Sound s := by
  apply Reach.invariant (I := Sound) _ _ h
  · exact fun s hs => hs.sound
  · exact fun s i s' S hv hk he => S.step hv hk he

theorem onWay_run (S : Sound s1) (hw : OnWay (s1.tcb t).mark t signo base s1)
    (h : Reach sigMachine (· = s1) (fun s i => i.safe s) s2) :
    OnWay (s1.tcb t).mark t signo base s2 := by
  have hinv : Sound s2 ∧ (s1.tcb t).mark.Past (s2.tcb t) ∧
      OnWay (s1.tcb t).mark t signo base s2 := by
    apply Reach.invariant (I := fun s => Sound s ∧ (s1.tcb t).mark.Past (s.tcb t) ∧
      OnWay (s1.tcb t).mark t signo base s) _ _ h
    · rintro s rfl
      exact ⟨S, Mark.past _, hw⟩
    · intro s i s' hI hv hk he
      obtain ⟨S, hpast, hw⟩ := hI
      have M : Moves (s1.tcb t).mark t signo base s s' :=
        moves_step S.inv S.kept S.unblocked hpast hv hk.1 hk.2 he
      exact ⟨S.step hv hk he, hpast.mono M.grow, M.onWay hw⟩
  exact hinv.2.2

theorem setsMask_frames (hset : i.setsMask s = some base) (he : i.exec s = some s1) :
    (s1.tcb s.head).frames = .unmaskStart :: base := by
  cases i with
  | sigprocmask how set =>
    cases set with
    | none => cases hset
    | some set =>
      cases hset
      cases he
      unfold Sig.sigprocmask
      rw [modify_tcb_same]
  | step mem =>
    simp only [Op.exec, stepHead] at he
    simp only [Op.setsMask] at hset
    split at hset
    · rename_i saved below hf
      cases hset
      rw [hf] at he
      cases he
      rw [modify_tcb_same]
    · cases hset
  | _ => cases hset

/-- Every signal that was accepted is accounted for once, its action is called once in its
turn, no two pending signals have one number, and what is unblocked is handled before the
call returns, in every run without a step that loses a signal. -/
theorem signals_kept (h : Reach sigMachine Initial (fun s i => i.safe s) s) :
    SignalsKept (fun s i => i.safe s) s := by
  have S := reach_sound h
  refine ⟨fun t ht => S.kept.balanced ht, S.inv.actionsOnce, fun t _ => S.kept.numbers t, ?_⟩
  intro i base s1 hv hk hset he signo hp hun s2 h2 hf
  have hframes := setsMask_frames hset he
  have hw : OnWay (s1.tcb s.head).mark s.head signo base s1 :=
    .owed [] .unmaskStart ⟨hframes, hp, hun, .inl rfl⟩
  exact (onWay_run (S.step hv hk he) hw h2).left hf

end

instance (t : Nat) (s : State) : Decidable (wakesNone t s) :=
  inferInstanceAs (Decidable ((s.tcb t).waitSig = true → Frame.timedwait ∉ (s.tcb t).frames))

instance (irq : Bool) (mem : Option Nat) (t : Nat) (info : Siginfo) (s : State) :
    Decidable (canQueue irq mem t info s) :=
  inferInstanceAs (Decidable (installed t info s ≠ none →
    (sigAllocatependingsigaction irq mem s).2 ≠ none))

instance (mem : Option Nat) (s : State) (f : Frame) : Decidable (f.keeps mem s) := by
  unfold Frame.keeps
  split <;> infer_instance

instance (s : State) : (i : Op) → Decidable (i.keeps s)
  | .step mem => inferInstanceAs (Decidable (∀ f ∈ (s.tcb s.head).frames.head?, f.keeps mem s))
  | .sigsuspend set =>
    inferInstanceAs (Decidable (sigLowest (~~~set &&& sigPendingset s.head s) = none))
  | .sigtimedwait set wdog =>
    inferInstanceAs (Decidable (sigLowest (set &&& sigPendingset s.head s) = none →
      wdog = true ∧ Frame.timedwait ∉ (s.tcb s.head).frames))
  | .interrupt t info =>
    inferInstanceAs (Decidable (sigismember (s.tcb t).sigprocmask info.siSigno = false →
      wakesNone t s ∧ canQueue true none t info s))
  | .kill _ _ | .sigprocmask _ _ | .sigaction _ _ | .sigdeliver | .switch _ | .timeout _ =>
    inferInstanceAs (Decidable True)

instance (s : State) (i : Op) : Decidable (i.safe s) := by
  unfold Op.safe
  infer_instance

def blockedTwo : State := started ⟨100, 200, 300, 400⟩ [1, 2] 1 fun _ => 2

theorem blockedTwo_initial : Initial blockedTwo :=
  ⟨⟨100, 200, 300, 400⟩,
    ⟨List.disjoint_left.mpr (by decide), List.disjoint_left.mpr (by decide)⟩, [1, 2],
    by decide, 1, by decide, fun _ => 2, rfl⟩

def pendingOne : List Op :=
  [.sigaction 1 (some (7, 0)), .kill 1 ⟨1, 0, 0⟩] ++ List.replicate 4 (.step none)

/-- It unblocks the signal, and the handler has run when `sigprocmask` returns. -/
theorem signals_kept_run : ∃ s, Reach sigMachine Initial (fun s i => i.safe s) s ∧
    (s.tcb 1).history.delivered.map Action.sighandler = [7] ∧ (s.tcb 1).frames = [] ∧
      SignalsKept (fun s i => i.safe s) s := by
  have hr : ((runAll sigMachine (fun s i => i.safe s) blockedTwo
      (pendingOne ++ [.sigprocmask sigSetmask (some 0)] ++ List.replicate 18 (.step none))).any
        fun s => decide ((s.tcb 1).history.delivered.map Action.sighandler = [7] ∧
          (s.tcb 1).frames = [])) = true := by
    decide +kernel
  obtain ⟨s, hs, hd⟩ := (Option.any_eq_true _ _).mp hr
  obtain ⟨h1, h2⟩ := of_decide_eq_true hd
  have h := Reach.runAll (.init blockedTwo_initial) hs
  exact ⟨s, h, h1, h2, signals_kept h⟩

/-- `sigsuspend` with a set that unblocks the pending signal throws it away. -/
theorem suspend_loses : ¬∀ s, Reachable sigMachine Initial s →
    SignalsKept (fun _ _ => True) s := by
  intro hall
  have hr : ((runAll sigMachine (fun _ _ => True) blockedTwo
      (pendingOne ++ [.sigsuspend 0])).any fun s =>
        decide ((s.tcb 1).history.accepted ≠ [] ∧ (s.tcb 1).history.booked ++ (s.tcb 1).woken ++
          s.pending 1 ++ s.inFlight 1 = [] ∧ 1 ∈ s.tasks)) = true := by
    decide +kernel
  obtain ⟨s, hs, hd⟩ := (Option.any_eq_true _ _).mp hr
  obtain ⟨hacc, hnone, ht⟩ := of_decide_eq_true hd
  have h := (hall s (Reach.runAll (.init blockedTwo_initial) hs)).once 1 ht
  rw [hnone] at h
  exact hacc h.nil_eq.symm

end NuttxAvr32.Sig
