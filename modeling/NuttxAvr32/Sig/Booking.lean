import NuttxAvr32.Sig.Ledger

/-! # The steps keep the ledger

Each step books what it takes from the signals on their way, unless it is one of those that
lose a signal or book one twice.
-/

namespace NuttxAvr32.Sig

open Owners Apart Runs

/-- The running task is about to make a step of `f`. -/
structure Ready (s : State) (f : Frame) (below : List Frame) : Prop where
  head : s.head ∈ s.tasks
  runs : (s.tcb s.head).waitSig = false
  frames : (s.tcb s.head).frames = f :: below

/-- The action of a signal for which there is a handler gets a node. -/
def canQueue (irq : Bool) (mem : Option Nat) (t : Nat) (info : Siginfo) (s : State) : Prop :=
  installed t info s ≠ none → (sigAllocatependingsigaction irq mem s).2 ≠ none

/-- A signal that is not blocked ends no `sigtimedwait`. -/
def wakesNone (t : Nat) (s : State) : Prop :=
  (s.tcb t).waitSig = true → Frame.timedwait ∉ (s.tcb t).frames

def Frame.keeps (mem : Option Nat) (s : State) : Frame → Prop
  | .received t info (.copy n) =>
    n ∈ (s.tcb t).sigpendingq ∧ (s.sigpend n).info.siSigno = info.siSigno
  | .received t info (.addSignal _) => sigFindpendingsignal t info.siSigno s = none
  | .received t info .allocAction => canQueue false mem t info s
  | .received t _ .wake => wakesNone t s
  | _ => True

/-- The step loses no signal and books none twice. -/
def Op.keeps (s : State) : Op → Prop
  | .step mem => ∀ f ∈ (s.tcb s.head).frames.head?, f.keeps mem s
  | .sigsuspend set => sigLowest (~~~set &&& sigPendingset s.head s) = none
  | .sigtimedwait set wdog => sigLowest (set &&& sigPendingset s.head s) = none →
      wdog = true ∧ Frame.timedwait ∉ (s.tcb s.head).frames
  | .interrupt t info => sigismember (s.tcb t).sigprocmask info.siSigno = false →
      wakesNone t s ∧ canQueue true none t info s
  | _ => True

section

variable {s s' : State} {d z : Nat → Siginfo → Int} {t u n : Nat} {info x : Siginfo}
  {f f' : Frame} {g : Tcb → Tcb} {fs below new : List Frame}

theorem Ready.modify (R : Ready s f below) (h1 : (g (s.tcb t)).frames = (s.tcb t).frames)
    (h2 : (g (s.tcb t)).waitSig = (s.tcb t).waitSig ∨ (g (s.tcb t)).waitSig = false) :
    Ready (s.modify t g) f below := by
  refine ⟨R.head, ?_, ?_⟩
  · show ((s.modify t g).tcb s.head).waitSig = false
    by_cases h : s.head = t
    · rw [h, modify_tcb_same]
      rcases h2 with h2 | h2
      · rw [h2, ← h]
        exact R.runs
      · exact h2
    · rw [modify_tcb_of_ne h]
      exact R.runs
  · exact (modify_field Tcb.frames h1 s.head).trans R.frames

theorem Kept.replace (K : Kept s d) (R : Ready s f below) (new : List Frame)
    (hn : Apart (s.frames (new ++ below)).places)
    (hsig : ∀ g ∈ new, ∀ u info pc, g = .received u info pc → info.siSigno ≤ maxSigno)
    (htw : new.count .timedwait = [f].count .timedwait)
    (hd : ∀ t x, z t x = d t x + (new.flatMap (Frame.inFlight t)).count x -
      (f.inFlight t).count x) : Kept (s.frames (new ++ below)) z := by
  have h := K.frames R.head R.runs hn
    (by
      intro g hg u info pc hp
      rcases List.mem_append.mp hg with hg | hg
      · exact hsig g hg u info pc hp
      · apply K.signo s.head g _ u info pc hp
        rw [R.frames]
        exact List.mem_cons_of_mem _ hg)
    (by
      rw [R.frames, List.count_append, htw, ← List.count_append]
      rfl)
  apply h.congr
  intro v x
  rw [hd, R.frames, List.flatMap_append, List.flatMap_cons, List.count_append, List.count_append]
  push_cast
  omega

theorem Kept.goOn (K : Kept s d) (R : Ready s f below) (new : List Frame)
    (hnode : new.flatMap Frame.signalNode = f.signalNode)
    (hsig : ∀ g ∈ new, ∀ u info pc, g = .received u info pc → info.siSigno ≤ maxSigno)
    (htw : new.count .timedwait = [f].count .timedwait)
    (hd : ∀ t x, z t x = d t x + (new.flatMap (Frame.inFlight t)).count x -
      (f.inFlight t).count x) : Kept (s.frames (new ++ below)) z := by
  apply K.replace R new _ hsig htw hd
  apply K.heldSame
  rw [R.frames, List.flatMap_append, List.flatMap_cons, hnode]

theorem inFlight_received {pc : RecvPc} (h1 : pc ≠ .schedule) (h2 : pc ≠ .wake) (v : Nat)
    (x : Siginfo) : (((Frame.received t info pc).inFlight v).count x : Int) = single t info v x := by
  have hl : (Frame.received t info pc).inFlight v = if t = v then [info] else [] := by
    cases pc <;> first | rfl | contradiction
  rw [hl]
  by_cases hv : t = v
  · rw [if_pos hv, ← hv]
    exact count_singleton_self info x t
  · rw [if_neg hv, single_of_ne (Ne.symm hv)]
    rfl

theorem Kept.settle (K : Kept s fun v x => 0 + single t info v x) {pc : RecvPc}
    (R : Ready s (.received t info pc) below) (h1 : pc ≠ .schedule) (h2 : pc ≠ .wake)
    (new : List Frame) (hnode : new.flatMap Frame.signalNode = (Frame.received t info pc).signalNode)
    (hsig : ∀ g ∈ new, ∀ u info pc, g = .received u info pc → info.siSigno ≤ maxSigno)
    (htw : new.count .timedwait = 0) (hflight : ∀ v, new.flatMap (Frame.inFlight v) = []) :
    Kept (s.frames (new ++ below)) fun _ _ => 0 := by
  apply K.goOn R new hnode hsig
  · rw [htw]
    simp
  · intro v x
    rw [inFlight_received h1 h2, hflight]
    simp

theorem allocAction_books (irq : Bool) (mem : Option Nat) (s : State) :
    SameBooks s (sigAllocatependingsigaction irq mem s).1 ∧
      (sigAllocatependingsigaction irq mem s).1.places = s.places ∧
        (sigAllocatependingsigaction irq mem s).1.tcb = s.tcb ∧
          (sigAllocatependingsigaction irq mem s).1.head = s.head := by
  have h : ∀ (l l' : List Nat) (q : Nat → Sigq),
      SameBooks s { s with gSigpendingaction := l, gSigpendingirqaction := l', sigq := q } :=
    fun _ _ _ => ⟨rfl, fun _ => rfl, fun _ => rfl, fun _ => rfl, fun _ => rfl, fun _ => rfl,
      fun _ => rfl, fun _ => rfl, fun _ => rfl⟩
  unfold sigAllocatependingsigaction
  split
  · refine ⟨h _ _ _, ?_, rfl, rfl⟩
    funext a
    cases a <;> rfl
  · split
    · split
      · refine ⟨h _ _ _, ?_, rfl, rfl⟩
        funext a
        cases a <;> rfl
      · exact ⟨.refl, rfl, rfl, rfl⟩
    · split
      · refine ⟨h _ _ _, ?_, rfl, rfl⟩
        funext a
        cases a <;> rfl
      · exact ⟨.refl, rfl, rfl, rfl⟩

theorem signo_received {pc : RecvPc} (hi : info.siSigno ≤ maxSigno) :
    ∀ g ∈ ([.received t info pc] : List Frame), ∀ u i q, g = .received u i q →
      i.siSigno ≤ maxSigno := by
  intro g hg u i q hp
  rw [List.mem_singleton.mp hg] at hp
  cases hp
  exact hi

theorem signo_nil : ∀ g ∈ ([] : List Frame), ∀ u i q, g = Frame.received u i q →
    i.siSigno ≤ maxSigno := by
  intro g hg
  cases hg

theorem Kept.advance (K : Kept s d) {pc pc' : RecvPc} (R : Ready s (.received t info pc) below)
    (hi : info.siSigno ≤ maxSigno) (h1 : pc ≠ .schedule) (h2 : pc ≠ .wake) (h1' : pc' ≠ .schedule)
    (h2' : pc' ≠ .wake) (hnode : (Frame.received t info pc').signalNode =
      (Frame.received t info pc).signalNode) :
    Kept (s.frames (.received t info pc' :: below)) d := by
  apply K.goOn R [.received t info pc'] _ (signo_received hi) _
  · intro v x
    rw [List.flatMap_cons, List.flatMap_nil, List.append_nil, inFlight_received h1 h2,
      inFlight_received h1' h2']
    omega
  · rw [List.flatMap_cons, List.flatMap_nil, List.append_nil, hnode]
  · simp

theorem addPending_frames : (addPending t info n s).frames fs = addPending t info n (s.frames fs) := by
  unfold addPending State.frames State.modify
  by_cases ht : t = s.head
  · subst ht
    simp only [Function.update_idem, Function.update_self]
  · simp only [Function.update_of_ne ht, Function.update_of_ne (Ne.symm ht)]
    rw [Function.update_comm ht]

theorem find_none_signo {signo : Nat} (h : sigFindpendingsignal t signo s = none) :
    ∀ m ∈ (s.tcb t).sigpendingq, (s.sigpend m).info.siSigno ≠ signo := by
  intro m hm he
  exact List.find?_eq_none.mp h m hm (decide_eq_true he)

theorem Kept.flag (K : Kept s d) : Kept (flagSigaction t s) d := by
  have hb : SameBooks s (flagSigaction t s) :=
    ⟨rfl, modify_field Tcb.frames rfl, modify_field Tcb.sigpendingq rfl, fun _ => rfl,
      modify_field Tcb.waitSig rfl, modify_field Tcb.sigwaitmask rfl,
      modify_field Tcb.sigunbinfo rfl, modify_field (fun c => c.history.booked) rfl,
      modify_field (fun c => c.history.accepted) rfl⟩
  apply K.same hb
  rw [hb.places rfl rfl]
  exact K.nodes

theorem Kept.received {mem : Option Nat} {pc : RecvPc} (K : Kept s fun _ _ => 0)
    (R : Ready s (.received t info pc) below) (ht : t ∈ s.tasks)
    (hmem : ∀ m ∈ mem, m ∉ s.signalNodes) (hk : (Frame.received t info pc).keeps mem s)
    (he : receivedStep mem t info below s pc = some s') : Kept s' fun _ _ => 0 := by
  have hi : info.siSigno ≤ maxSigno := by
    apply K.signo s.head (.received t info pc) _ t info pc rfl
    rw [R.frames]
    exact List.mem_cons_self
  cases pc with
  | start =>
    simp only [receivedStep] at he
    split at he
    · split at he
      · rename_i hw
        cases he
        have K1 := K.wakeWaiting ht hw.1 hw.2 hi
        have R1 : Ready (wakeWith t info s) (.received t info .start) below :=
          R.modify rfl (.inr rfl)
        exact K1.settle R1 (by simp) (by simp) [] rfl signo_nil rfl (fun _ => rfl)
      · cases he
        exact K.advance R hi (by simp) (by simp) (by simp) (by simp) rfl
    · cases he
      exact K.advance R hi (by simp) (by simp) (by simp) (by simp) rfl
  | find =>
    simp only [receivedStep] at he
    split at he
    · cases he
      exact K.advance R hi (by simp) (by simp) (by simp) (by simp) rfl
    · cases he
      exact K.advance R hi (by simp) (by simp) (by simp) (by simp) rfl
  | copy m =>
    cases he
    have K1 := K.copyPending hk.1 hk.2
    have R0 : Ready { s with sigpend := Function.update s.sigpend m { s.sigpend m with info } }
        (.received t info (.copy m)) below := ⟨R.head, R.runs, R.frames⟩
    have R1 : Ready (Sig.copyPending t info m s) (.received t info (.copy m)) below :=
      R0.modify rfl (.inl rfl)
    exact K1.settle R1 (by simp) (by simp) [] rfl signo_nil rfl (fun _ => rfl)
  | allocSignal =>
    simp only [receivedStep] at he
    cases ha : sigAllocatependingsignal false mem s with
    | mk s1 r =>
      rw [ha] at he
      cases r with
      | none => cases he
      | some m =>
        cases he
        obtain ⟨K1, hno, htcb, htasks, hhead, -⟩ := K.allocSignal hmem ha
        have R1 : Ready s1 (.received t info .allocSignal) below := by
          refine ⟨?_, ?_, ?_⟩
          · rw [hhead, htasks]
            exact R.head
          · rw [hhead, htcb]
            exact R.runs
          · rw [hhead, htcb]
            exact R.frames
        apply K1.replace R1 [.received t info (.addSignal m)] _ (signo_received hi) _
        · intro v x
          rw [List.flatMap_cons, List.flatMap_nil, List.append_nil,
            inFlight_received (by simp) (by simp), inFlight_received (by simp) (by simp)]
          omega
        · apply K1.heldMore hno
          rw [R1.frames]
          rfl
        · simp
  | addSignal m =>
    cases he
    rw [addPending_frames]
    have hless := K.heldLess (n := m) (l := below) (by
      rw [R.frames]
      rfl)
    have K1 : Kept (s.frames ([] ++ below)) fun v x => 0 - single t info v x := by
      apply K.replace R [] hless.1 signo_nil (by simp)
      intro v x
      rw [inFlight_received (by simp) (by simp)]
      simp
    have hpend : ((s.frames below).tcb t).sigpendingq = (s.tcb t).sigpendingq :=
      modify_field Tcb.sigpendingq rfl t
    have K2 := K1.addPending (t := t) ht hless.2 hi (by
      intro m' hm'
      rw [List.nil_append, hpend] at hm'
      exact find_none_signo hk m' hm')
    exact K2.congr fun v x => by omega
  | allocAction =>
    simp only [receivedStep] at he
    split at he
    · cases he
      have K1 := K.ignore t info
      have R1 : Ready (Sig.ignore t info s) (.received t info .allocAction) below :=
        R.modify rfl (.inl rfl)
      exact K1.settle R1 (by simp) (by simp) [.received t info .schedule] rfl (signo_received hi)
        (by simp) (fun _ => rfl)
    · rename_i sigact hin
      obtain ⟨hb, hpl, htcb, hhead⟩ := allocAction_books false mem s
      have hq : (sigAllocatependingsigaction false mem s).2 ≠ none := hk (by rw [hin]; simp)
      cases ha : sigAllocatependingsigaction false mem s with
      | mk s1 r =>
        rw [ha] at he hb hpl htcb hhead hq
        cases r with
        | none => exact absurd rfl hq
        | some m =>
          cases he
          have K1 : Kept s1 fun _ _ => 0 := K.same hb (by rw [hpl]; exact K.nodes)
          have R1 : Ready s1 (.received t info .allocAction) below := by
            dsimp only at hhead htcb
            refine ⟨?_, ?_, ?_⟩
            · rw [hhead, hb.tasks]
              exact R.head
            · rw [hhead, htcb]
              exact R.runs
            · rw [hhead, htcb]
              exact R.frames
          exact K1.advance R1 hi (by simp) (by simp) (by simp) (by simp) rfl
  | addAction sigact m =>
    cases he
    have K1 := K.addAction (t := t) (j := info) (n := m) (a := sigact)
    have R0 : Ready { s with sigq := Function.update s.sigq m { s.sigq m with
        act := ⟨sigact.sigaction, info⟩
        mask := sigact.saMask } } (.received t info (.addAction sigact m)) below :=
      ⟨R.head, R.runs, R.frames⟩
    have R1 : Ready (Sig.addAction t info sigact m s) (.received t info (.addAction sigact m)) below :=
      R0.modify rfl (.inl rfl)
    exact K1.settle R1 (by simp) (by simp) [.received t info .schedule] rfl (signo_received hi)
      (by simp) (fun _ => rfl)
  | schedule =>
    have hwake : ∀ {s1 : State}, Kept s1 (fun _ _ => 0) →
        Ready s1 (.received t info .schedule) below →
          Kept (s1.frames (.received t info .wake :: below)) fun _ _ => 0 := by
      intro s1 K1 R1
      apply K1.goOn R1 [.received t info .wake] rfl (signo_received hi) (by simp)
      intro v x
      rfl
    simp only [receivedStep] at he
    split at he
    · cases he
      exact hwake K R
    · split at he
      · cases he
        apply K.goOn R [enterDeliver (s.tcb t), .received t info .wake] rfl
        · intro g hg u i q hp
          rcases List.mem_cons.mp hg with rfl | hg
          · cases hp
          · exact signo_received hi g hg u i q hp
        · simp [enterDeliver]
        · intro v x
          rfl
      · cases he
        exact hwake K.flag (R.modify rfl (.inl rfl))
  | wake =>
    cases he
    have K1 := K.wakeOther (j := info) ht hk
    have R1 : Ready (wakeWaiter t info s) (.received t info .wake) below := by
      unfold wakeWaiter
      split
      · exact R.modify rfl (.inr rfl)
      · exact R
    exact K1.goOn R1 [] rfl signo_nil (by simp) fun _ _ => rfl

/-- The activations of the running task change together with what the ledger does not see. -/
theorem Kept.afterFrames (K : Kept (s.frames fs) d) {s1 : State} (htcb : s1.tcb = s.tcb)
    (htasks : s1.tasks = s.tasks) (hpend : s1.sigpend = s.sigpend)
    (h1 : s1.gSigpendingsignal = s.gSigpendingsignal)
    (h2 : s1.gSigpendingirqsignal = s.gSigpendingirqsignal)
    (hf : (g (s.tcb s.head)).frames = fs)
    (hq : (g (s.tcb s.head)).sigpendingq = (s.tcb s.head).sigpendingq)
    (hw : (g (s.tcb s.head)).waitSig = (s.tcb s.head).waitSig)
    (hm : (g (s.tcb s.head)).sigwaitmask = (s.tcb s.head).sigwaitmask)
    (hu : (g (s.tcb s.head)).sigunbinfo = (s.tcb s.head).sigunbinfo)
    (hb : (g (s.tcb s.head)).history.booked = (s.tcb s.head).history.booked)
    (ha : (g (s.tcb s.head)).history.accepted = (s.tcb s.head).history.accepted) :
    Kept (s1.modify s.head g) d := by
  have hfield : ∀ {β : Type} (p : Tcb → β),
      p (g (s.tcb s.head)) = p { s.tcb s.head with frames := fs } →
        ∀ v, p ((s1.modify s.head g).tcb v) = p ((s.frames fs).tcb v) := by
    intro β p hp v
    unfold State.frames
    by_cases hv : v = s.head
    · subst hv
      rw [modify_tcb_same, modify_tcb_same, htcb]
      exact hp
    · rw [modify_tcb_of_ne hv, modify_tcb_of_ne hv, htcb]
  have hsame : SameBooks (s.frames fs) (s1.modify s.head g) :=
    ⟨htasks, hfield Tcb.frames hf, hfield Tcb.sigpendingq hq, fun n => by
      show (s1.sigpend n).info = (s.sigpend n).info
      rw [hpend], hfield Tcb.waitSig hw, hfield Tcb.sigwaitmask hm, hfield Tcb.sigunbinfo hu,
      hfield (fun c => c.history.booked) hb, hfield (fun c => c.history.accepted) ha⟩
  apply K.same hsame
  rw [hsame.places h1 h2]
  exact K.nodes

theorem Kept.deliver {sigq next : Option Nat} {save entry : Sigset} {pc : DeliverPc}
    (K : Kept s fun _ _ => 0) (R : Ready s (.deliver sigq next save entry pc) below) :
    Kept (deliverStep sigq next save entry below s pc) fun _ _ => 0 := by
  have hgo : ∀ (sigq' next' : Option Nat) (save' : Sigset) (pc' : DeliverPc),
      Kept (s.frames (.deliver sigq' next' save' entry pc' :: below)) fun _ _ => 0 := by
    intro sigq' next' save' pc'
    apply K.goOn R [.deliver sigq' next' save' entry pc'] rfl
    · intro f hf u i q hp
      rw [List.mem_singleton.mp hf] at hp
      cases hp
    · simp
    · intro v x
      rfl
  cases pc with
  | fetch =>
    cases sigq with
    | none =>
      apply K.goOn R [] rfl signo_nil (by simp)
      intro v x
      rfl
    | some n => exact hgo _ _ _ _
  | dequeue =>
    cases sigq with
    | none => exact K
    | some n =>
      simp only [deliverStep]
      apply (hgo (some n) next save .call).afterFrames <;> rfl
  | call =>
    cases sigq with
    | none => exact K
    | some n =>
      simp only [deliverStep]
      apply (hgo (some n) next (s.tcb s.head).sigprocmask .handler).afterFrames <;> rfl
  | handler =>
    have K1 : Kept (s.frames ([.unmaskStart, .deliver sigq next save entry .finish] ++ below))
        fun _ _ => 0 := by
      apply K.goOn R [.unmaskStart, .deliver sigq next save entry .finish] rfl
      · intro f hf u i q hp
        rcases List.mem_cons.mp hf with rfl | hf
        · cases hp
        · rw [List.mem_singleton.mp hf] at hp
          cases hp
      · simp
      · intro v x
        rfl
    simp only [deliverStep]
    apply K1.afterFrames <;> rfl
  | finish =>
    cases sigq with
    | none => exact K
    | some n =>
      simp only [deliverStep]
      apply (hgo (some n) next save .release).afterFrames <;> rfl
  | release =>
    cases sigq with
    | none => exact K
    | some n =>
      obtain ⟨h1, h2, h3, h4, h5, h6⟩ : (sigReleasependingsigaction n s).tcb = s.tcb ∧
          (sigReleasependingsigaction n s).tasks = s.tasks ∧
          (sigReleasependingsigaction n s).sigpend = s.sigpend ∧
          (sigReleasependingsigaction n s).gSigpendingsignal = s.gSigpendingsignal ∧
          (sigReleasependingsigaction n s).gSigpendingirqsignal = s.gSigpendingirqsignal ∧
          (sigReleasependingsigaction n s).head = s.head := by
        unfold sigReleasependingsigaction
        split <;> exact ⟨rfl, rfl, rfl, rfl, rfl, rfl⟩
      simp only [deliverStep]
      apply (hgo next none save .fetch).afterFrames h1 h2 h3 h4 h5 <;> rfl

theorem release_frames : (sigReleasependingsignal n s).frames fs =
    sigReleasependingsignal n (s.frames fs) := by
  have h : ((s.frames fs).sigpend n).type = (s.sigpend n).type := rfl
  unfold sigReleasependingsignal
  rw [h]
  cases (s.sigpend n).type <;> rfl

theorem Kept.unmask {set : Sigset} {pendingsig : Option Nat} (K : Kept s fun _ _ => 0)
    (R : Ready s (.unmask set pendingsig) below) :
    Kept (unmaskStep set below s pendingsig) fun _ _ => 0 := by
  have hsigno : ∀ (set : Sigset) (p : Option Nat), ∀ f ∈ ([.unmask set p] : List Frame), ∀ u i q,
      f = .received u i q → i.siSigno ≤ maxSigno := by
    intro set p f hf u i q hp
    rw [List.mem_singleton.mp hf] at hp
    cases hp
  cases pendingsig with
  | some n =>
    simp only [unmaskStep]
    rw [release_frames]
    have hless := K.heldLess (n := n) (l := [.unmask set none] ++ below) (by
      rw [R.frames]
      rfl)
    have K1 : Kept (s.frames ([.unmask set none] ++ below)) fun _ _ => 0 :=
      K.replace R [.unmask set none] hless.1 (hsigno _ _) (by simp) fun _ _ => rfl
    exact K1.releaseSignal hless.2
  | none =>
    simp only [unmaskStep]
    split
    · exact K.goOn R [] rfl signo_nil (by simp) fun _ _ => rfl
    · rename_i signo hl
      cases hr : sigRemovependingsignal s.head signo s with
      | mk s1 r =>
        cases r with
        | none =>
          have hs : s1 = s := by
            unfold sigRemovependingsignal at hr
            split at hr <;> cases hr
            rfl
          subst hs
          exact K.goOn R [.unmask (sigdelset set signo) none] rfl (hsigno _ _) (by simp)
            fun _ _ => rfl
        | some n =>
          obtain ⟨K1, hno, -, hmax, hpend, hs⟩ := K.removePending hr
          have R1 : Ready s1 (.unmask set none) below := by
            rw [hs]
            exact R.modify rfl (.inl rfl)
          have hhead : s1.head = s.head := by
            rw [hs]
            rfl
          dsimp only
          rw [hpend]
          apply K1.replace R1
            [.received s1.head (s.sigpend n).info .start, .unmask (sigdelset set signo) (some n)]
          · apply K1.heldMore hno
            rw [R1.frames]
            rfl
          · intro f hf u i q hp
            rcases List.mem_cons.mp hf with rfl | hf
            · cases hp
              exact hmax
            · exact hsigno _ _ f hf u i q hp
          · simp
          · intro v x
            rw [List.flatMap_cons, List.count_append, Int.natCast_add,
              inFlight_received (by simp) (by simp), hhead]
            show (0 : Int) = 0 - single s.head (s.sigpend n).info v x +
              (single s.head (s.sigpend n).info v x + ((0 : Nat) : Int)) - ((0 : Nat) : Int)
            omega

theorem Kept.frame {mem : Option Nat} (I : Inv s) (K : Kept s fun _ _ => 0) (R : Ready s f below)
    (hmem : ∀ m ∈ mem, m ∉ s.signalNodes) (hk : f.keeps mem s)
    (he : frameStep mem f below s = some s') : Kept s' fun _ _ => 0 := by
  have hstart : ∀ u i q, ∀ g ∈ ([.unmaskStart] : List Frame), g = Frame.received u i q →
      i.siSigno ≤ maxSigno := by
    intro u i q g hg hp
    rw [List.mem_singleton.mp hg] at hp
    cases hp
  unfold frameStep at he
  cases f with
  | received t info pc =>
    have ht : t ∈ s.tasks := by
      apply I.targets s.head I.head (.received t info pc) _ t info pc rfl
      rw [R.frames]
      exact List.mem_cons_self
    exact K.received R ht hmem hk he
  | deliver sigq next save entry pc =>
    cases he
    exact K.deliver R
  | unmaskStart =>
    cases he
    apply K.goOn R [.unmask _ none] rfl
    · intro g hg u i q hp
      rw [List.mem_singleton.mp hg] at hp
      cases hp
    · simp
    · exact fun _ _ => rfl
  | unmask set pendingsig =>
    cases he
    exact K.unmask R
  | suspend saved =>
    cases he
    have K1 : Kept (s.frames ([.unmaskStart] ++ below)) fun _ _ => 0 :=
      K.goOn R [.unmaskStart] rfl (fun g hg u i q hp => hstart u i q g hg hp) (by simp)
        fun _ _ => rfl
    exact K1.afterFrames rfl rfl rfl rfl rfl rfl rfl rfl rfl rfl rfl rfl
  | timedwait =>
    cases he
    exact K.timedwaitReturn R.head R.runs R.frames

theorem accept_tcb {j : Siginfo} (v : Nat) : ((accept t j s).tcb v).frames = (s.tcb v).frames ∧
    ((accept t j s).tcb v).waitSig = (s.tcb v).waitSig ∧
    ((accept t j s).tcb v).sigwaitmask = (s.tcb v).sigwaitmask ∧
    ((accept t j s).tcb v).sigpendingq = (s.tcb v).sigpendingq ∧
    ((accept t j s).tcb v).sigprocmask = (s.tcb v).sigprocmask ∧
    ((accept t j s).tcb v).sigactionq = (s.tcb v).sigactionq :=
  ⟨modify_field Tcb.frames rfl v, modify_field Tcb.waitSig rfl v,
    modify_field Tcb.sigwaitmask rfl v, modify_field Tcb.sigpendingq rfl v,
    modify_field Tcb.sigprocmask rfl v, modify_field Tcb.sigactionq rfl v⟩

theorem Kept.addPendingIrq (K : Kept s fun v x => 0 - single t info v x) (ht : t ∈ s.tasks)
    (hi : info.siSigno ≤ maxSigno) (he : sigAddpendingsignalIrq t info s = some s') :
    Kept s' fun _ _ => 0 := by
  unfold sigAddpendingsignalIrq at he
  split at he
  · rename_i n hfind
    cases he
    obtain ⟨hm, hno⟩ := find_pending hfind
    exact (K.copyPending hm hno).congr fun v x => by omega
  · rename_i hfind
    cases ha : sigAllocatependingsignal true none s with
    | mk s1 r =>
      rw [ha] at he
      cases r with
      | none => cases he
      | some n =>
        cases he
        obtain ⟨K1, hno, htcb, htasks, -, hinfo⟩ :=
          K.allocSignal (fun m hm => (by cases hm)) ha
        have K2 := K1.addPending (t := t) (by rw [htasks]; exact ht) hno hi (by
          intro m hm
          rw [htcb] at hm
          rw [hinfo]
          exact find_none_signo hfind m hm)
        exact K2.congr fun v x => by omega

theorem Kept.queueIrq (K : Kept s fun v x => 0 - single t info v x)
    (hq : canQueue true none t info s) : Kept (sigQueueactionIrq t info s) fun _ _ => 0 := by
  unfold sigQueueactionIrq
  split
  · exact (K.ignore t info).congr fun v x => by omega
  · rename_i sigact hin
    obtain ⟨hb, hpl, -, -⟩ := allocAction_books true none s
    have hq' : (sigAllocatependingsigaction true none s).2 ≠ none := hq (by rw [hin]; simp)
    cases ha : sigAllocatependingsigaction true none s with
    | mk s1 r =>
      rw [ha] at hb hpl hq'
      cases r with
      | none => exact absurd rfl hq'
      | some n =>
        have K1 : Kept s1 _ := K.same hb (by rw [hpl]; exact K.nodes)
        exact K1.addAction.congr fun v x => by omega

theorem queueIrq_tcb {j : Siginfo} (v : Nat) :
    ((sigQueueactionIrq t j s).tcb v).frames = (s.tcb v).frames ∧
      ((sigQueueactionIrq t j s).tcb v).waitSig = (s.tcb v).waitSig ∧
        (sigQueueactionIrq t j s).tasks = s.tasks := by
  unfold sigQueueactionIrq
  split
  · exact ⟨modify_field Tcb.frames rfl v, modify_field Tcb.waitSig rfl v, rfl⟩
  · rename_i sigact hin
    obtain ⟨hb, -, htcb, -⟩ := allocAction_books true none s
    cases ha : sigAllocatependingsigaction true none s with
    | mk s1 r =>
      rw [ha] at hb htcb
      dsimp only at htcb
      cases r with
      | none => exact ⟨by rw [htcb], by rw [htcb], hb.tasks⟩
      | some n =>
        refine ⟨?_, ?_, hb.tasks⟩
        · refine (modify_field (s := { s1 with sigq := _ }) Tcb.frames rfl v).trans ?_
          rw [htcb]
        · refine (modify_field (s := { s1 with sigq := _ }) Tcb.waitSig rfl v).trans ?_
          rw [htcb]

theorem canQueue_accept (irq : Bool) (mem : Option Nat) (h : canQueue irq mem t info s) :
    canQueue irq mem t info (accept t info s) := by
  have hin : installed t info (accept t info s) = installed t info s := by
    unfold installed sigFindaction
    rw [(accept_tcb t).2.2.2.2.2]
  have ha : (sigAllocatependingsigaction irq mem (accept t info s)).2 =
      (sigAllocatependingsigaction irq mem s).2 := by
    unfold sigAllocatependingsigaction
    have h1 : (accept t info s).gSigpendingaction = s.gSigpendingaction := rfl
    have h2 : (accept t info s).gSigpendingirqaction = s.gSigpendingirqaction := rfl
    rw [h1, h2]
    cases s.gSigpendingaction with
    | cons n l => rfl
    | nil =>
      cases irq with
      | true => cases s.gSigpendingirqaction <;> rfl
      | false => cases mem <;> rfl
  unfold canQueue
  rw [hin, ha]
  exact h

theorem Kept.interrupt (K : Kept s fun _ _ => 0) (ht : t ∈ s.tasks) (hi : info.siSigno ≤ maxSigno)
    (hk : (Op.interrupt t info).keeps s) (he : sigReceivedIrq t info s = some s') :
    Kept s' fun _ _ => 0 := by
  have K1 := K.accept t info
  obtain ⟨hframes, hwaitSig, hwaitmask, -, hmask, -⟩ := accept_tcb (s := s) (t := t) (j := info) t
  unfold sigReceivedIrq at he
  dsimp only at he
  split at he
  · split at he
    · rename_i hw
      cases he
      exact (K1.wakeWaiting ht hw.1 hw.2 hi).congr fun v x => by omega
    · exact K1.addPendingIrq ht hi he
  · rename_i hun
    cases he
    rw [hmask] at hun
    obtain ⟨hnone, hq⟩ := hk (Bool.eq_false_iff.mpr hun)
    have K2 := (K1.queueIrq (canQueue_accept true none hq)).flag (t := t)
    obtain ⟨q1, q2, q3⟩ := queueIrq_tcb (s := Sig.accept t info s) (t := t) (j := info) t
    apply K2.wakeOther
    · show t ∈ (sigQueueactionIrq t info (Sig.accept t info s)).tasks
      rw [q3]
      exact ht
    · intro hw
      have h1 : ((flagSigaction t (sigQueueactionIrq t info (Sig.accept t info s))).tcb t).waitSig =
          (s.tcb t).waitSig := (modify_field Tcb.waitSig rfl t).trans (q2.trans hwaitSig)
      have h2 : ((flagSigaction t (sigQueueactionIrq t info (Sig.accept t info s))).tcb t).frames =
          (s.tcb t).frames := (modify_field Tcb.frames rfl t).trans (q1.trans hframes)
      rw [h1] at hw
      rw [h2]
      exact hnone hw

theorem Kept.push (K : Kept s d) (hh : s.head ∈ s.tasks) (hw : (s.tcb s.head).waitSig = false)
    (f : Frame) (hnode : f.signalNode = [])
    (hsig : ∀ u i q, f = .received u i q → i.siSigno ≤ maxSigno) (htw : f ≠ .timedwait)
    (hd : ∀ t x, z t x = d t x + (f.inFlight t).count x) :
    Kept (s.frames (f :: (s.tcb s.head).frames)) z := by
  have h := K.frames (l := f :: (s.tcb s.head).frames) hh hw
    (by
      apply K.heldSame
      rw [List.flatMap_cons, hnode]
      rfl)
    (by
      intro g hg u i q hp
      rcases List.mem_cons.mp hg with rfl | hg
      · exact hsig u i q hp
      · exact K.signo s.head g hg u i q hp)
    (List.count_cons_of_ne htw)
  apply h.congr
  intro v x
  rw [hd, List.flatMap_cons, List.count_append, Int.natCast_add]
  omega

theorem Kept.sigtimedwait {set : Sigset} {wdog : Bool} (K : Kept s fun _ _ => 0)
    (hh : s.head ∈ s.tasks) (hk : (Op.sigtimedwait set wdog).keeps s)
    (he : sigtimedwait set wdog s = some s') : Kept s' fun _ _ => 0 := by
  unfold Sig.sigtimedwait at he
  split at he
  · cases hr : sigRemovependingsignal s.head _ s with
    | mk s1 r =>
      rw [hr] at he
      cases r with
      | none => cases he
      | some n =>
        cases he
        obtain ⟨K1, hno, -, -, hpend, hs⟩ := K.removePending hr
        have hhead : s1.head = s.head := by
          rw [hs]
          rfl
        have K2 := K1.log (t := s.head)
          (g := fun h => { h with returned := h.returned ++ [(s1.sigpend n).info] })
          (z := fun x => (([(s1.sigpend n).info] : List Siginfo).count x : Int)) fun h x => by
            unfold History.booked
            simp only [List.count_append]
            push_cast
            omega
        rw [hhead]
        have hplaces : (s1.modify s.head fun c => c.log fun h =>
            { h with returned := h.returned ++ [(s1.sigpend n).info] }).places = s1.places := by
          have hw : SameWaits s1 (s1.modify s.head fun c => c.log fun h =>
              { h with returned := h.returned ++ [(s1.sigpend n).info] }) :=
            sameWaits_modify rfl rfl rfl rfl
          exact hw.places (modify_field Tcb.sigpendingq rfl) rfl rfl
        have K3 := K2.releaseSignal (n := n) (by
          rw [hplaces]
          exact hno)
        apply K3.congr
        intro v x
        rw [hpend, count_singleton_self (s.sigpend n).info x s.head]
        unfold single
        by_cases hv : v = s.head
        · rw [if_pos hv]
          simp only [hv, true_and]
          omega
        · simp [hv]
  · rename_i hl
    cases he
    obtain ⟨rfl, hno⟩ := hk hl
    exact K.timedwait hh hno

theorem Kept.step {i : Op} (I : Inv s) (K : Kept s fun _ _ => 0) (hv : i.valid s) (hk : i.keeps s)
    (he : i.exec s = some s') : Kept s' fun _ _ => 0 := by
  have hruns : s.runs = true → (s.tcb s.head).waitSig = false := by
    intro h
    unfold State.runs at h
    simp only [Bool.and_eq_true, Bool.not_eq_true'] at h
    exact h.1
  cases i with
  | step mem =>
    simp only [Op.exec, stepHead] at he
    cases hf : (s.tcb s.head).frames with
    | nil =>
      rw [hf] at he
      cases he
    | cons f below =>
      rw [hf] at he
      have R : Ready s f below := ⟨I.head, hruns hv.1, hf⟩
      apply K.frame I R (fun m hm => (hv.2.1 m hm).2) _ he
      apply hk
      rw [hf]
      rfl
  | kill t info =>
    cases he
    have K1 := K.accept t info
    have hframes : ((Sig.accept t info s).tcb s.head).frames = (s.tcb s.head).frames :=
      (accept_tcb s.head).1
    have hw : ((Sig.accept t info s).tcb s.head).waitSig = false :=
      (accept_tcb s.head).2.1.trans (hruns hv.1)
    rw [← hframes]
    apply K1.push I.head hw (.received t info .start) rfl
    · intro u j q hp
      cases hp
      exact hv.2.2.2.1
    · simp
    · intro v x
      rw [inFlight_received (by simp) (by simp)]
      omega
  | sigprocmask how set =>
    cases he
    cases set with
    | none => exact K
    | some set =>
      have K1 : Kept (s.frames (.unmaskStart :: (s.tcb s.head).frames)) fun _ _ => 0 :=
        K.push I.head (hruns hv.1) .unmaskStart rfl (fun u j q hp => (by cases hp)) (by simp)
          fun _ _ => rfl
      unfold Sig.sigprocmask
      apply K1.afterFrames <;> rfl
  | sigaction signo act =>
    cases he
    unfold sigaction
    cases act with
    | none => exact K
    | some a =>
      dsimp only
      split
      · have hb : ∀ q : Tcb → List Sigact, SameBooks s (s.modify s.head fun c =>
            { c with sigactionq := q c }) := fun q =>
          ⟨rfl, modify_field Tcb.frames rfl, modify_field Tcb.sigpendingq rfl, fun _ => rfl,
            modify_field Tcb.waitSig rfl, modify_field Tcb.sigwaitmask rfl,
            modify_field Tcb.sigunbinfo rfl, modify_field (fun c => c.history.booked) rfl,
            modify_field (fun c => c.history.accepted) rfl⟩
        apply K.same (hb _)
        rw [(hb _).places rfl rfl]
        exact K.nodes
      · exact K
  | sigsuspend set =>
    simp only [Op.exec, sigsuspend] at he
    rw [show sigLowest (~~~set &&& sigPendingset s.head s) = none from hk] at he
    cases he
    exact K.suspend I.head (hruns hv.1)
  | sigtimedwait set wdog => exact K.sigtimedwait I.head hk he
  | sigdeliver =>
    cases he
    have K1 : Kept (s.frames (enterDeliver (s.tcb s.head) :: (s.tcb s.head).frames))
        fun _ _ => 0 :=
      K.push I.head hv.1 _ rfl (fun u j q hp => (by cases hp)) (by simp [enterDeliver])
        fun _ _ => rfl
    unfold upSigdeliver
    apply K1.afterFrames <;> rfl
  | switch t =>
    cases he
    have hplaces : ({ s with head := t } : State).places = s.places := by
      funext a
      cases a <;> rfl
    refine ⟨K.tasks, ?_, K.outside, K.signo, K.pendsigno, K.numbers, K.wait, K.one, K.ledger⟩
    rw [hplaces]
    exact K.nodes
  | interrupt t info => exact K.interrupt hv.1 hv.2.1 hk he
  | timeout t =>
    cases he
    exact K.timeout hv.1 hv.2.1 hv.2.2.1

end

theorem started_apart {b : Blocks} (hb : b.Disjoint) {tasks : List Nat} {head : Nat}
    {masks : Nat → Sigset} : Apart (started b tasks head masks).places := by
  have hempty : ∀ p : Place, p ≠ .fixed → p ≠ .irq →
      (started b tasks head masks).places p = [] := by
    intro p h1 h2
    cases p with
    | fixed => exact absurd rfl h1
    | irq => exact absurd rfl h2
    | pend t => rfl
    | held t => rfl
  have hnone : ∀ p : Place, p ≠ .fixed → p ≠ .irq → ∀ n,
      n ∉ (started b tasks head masks).places p := by
    intro p h1 h2 n hn
    rw [hempty p h1 h2] at hn
    exact absurd hn List.not_mem_nil
  constructor
  · intro p
    by_cases h1 : p = .fixed
    · rw [h1]
      exact block_nodup _ _
    · by_cases h2 : p = .irq
      · rw [h2]
        exact block_nodup _ _
      · rw [hempty p h1 h2]
        exact List.nodup_nil
  · intro p q n hp hq
    by_contra hne
    have hcase : ∀ p : Place, n ∈ (started b tasks head masks).places p → p = .fixed ∨ p = .irq := by
      intro p hp
      by_contra h
      rw [not_or] at h
      exact hnone p h.1 h.2 n hp
    rcases hcase p hp with rfl | rfl <;> rcases hcase q hq with rfl | rfl
    · exact hne rfl
    · exact List.disjoint_left.mp hb.signals hp hq
    · exact List.disjoint_left.mp hb.signals hq hp
    · exact hne rfl

theorem Initial.kept {s : State} (h : Initial s) : Kept s fun _ _ => 0 := by
  obtain ⟨b, hb, tasks, htasks, head, hhead, masks, rfl⟩ := h
  have hflight : ∀ (l : List Nat) (t : Nat), owned l (fun u =>
      ((started b tasks head masks).tcb u).frames.flatMap (Frame.inFlight t)) = [] := by
    intro l t
    induction l with
    | nil => rfl
    | cons u l ih => exact ih
  refine ⟨htasks, started_apart hb, fun t _ => ⟨rfl, rfl⟩, ?_, ?_, fun t => List.nodup_nil, ?_,
    fun t => Nat.zero_le _, ?_⟩
  · intro t f hf
    exact absurd hf List.not_mem_nil
  · intro t n hn
    exact absurd hn List.not_mem_nil
  · intro t hw
    cases hw
  · intro t _ x
    unfold State.inFlight
    rw [hflight]
    rfl

theorem Kept.balanced {s : State} (K : Kept s fun _ _ => 0) {t : Nat} (ht : t ∈ s.tasks) :
    ((s.tcb t).history.booked ++ (s.tcb t).woken ++ s.pending t ++ s.inFlight t).Perm
      (s.tcb t).history.accepted := by
  refine List.perm_iff_count.mpr fun x => ?_
  have hl := K.ledger t ht x
  simp only [List.count_append]
  omega

end NuttxAvr32.Sig
