import NuttxAvr32.Sig.OnWay

/-! # The signal functions and a signal on its way

Each step of `sig_received`, `sig_unmaskpendingsignal`, `sig_deliver`, and of what
`sigsuspend` and `sigtimedwait` do when they go on, hands the signal on.
-/

namespace NuttxAvr32.Sig

open Owners Apart Runs

section

variable {s s' : State} {m : Mark} {t n signo : Nat} {info : Siginfo} {g : Tcb → Tcb}
  {f : Frame} {base below : List Frame} {mem : Option Nat}

theorem sameFrames_wakeWith : SameFrames s (wakeWith t info s) := (quiet_wakeWith t info s).same

theorem InQueue.goOn {k : Nat} {pre rest rest' : List Frame} {f' : Frame}
    (hq : InQueue s t signo k pre rest f)
    (hgrow : Grow s s') (hd : (s'.tcb t).history.delivered = (s.tcb t).history.delivered)
    {pre' : List Frame} (hf : (s'.tcb t).frames = pre' ++ f' :: rest')
    (hg : f'.Gets k (s.tcb t).history.delivered.length) :
    InQueue s' t signo k pre' rest' f' := by
  obtain ⟨a, ha, hs⟩ := hq.action
  obtain ⟨r, hr⟩ := hgrow.queued t
  refine ⟨hf, ⟨a, ?_, hs⟩, ?_, .inl ?_⟩
  · rw [← hr, List.getElem?_append_left (List.getElem?_eq_some_iff.mp ha).1]
    exact ha
  · rw [hd]
    exact hq.waits
  · rw [hd]
    exact hg

/-- An activation of `sig_deliver` that begins when the others have no action left gets to
all that are queued. -/
theorem enter_gets (I : Inv s) (hset : ∀ f ∈ (s.tcb s.head).frames, f.settled = true) {k : Nat}
    {pre rest : List Frame} (hq : InQueue s s.head signo k pre rest f) :
    (enterDeliver (s.tcb s.head)).Gets k (s.tcb s.head).history.delivered.length := by
  have horder := I.actionsOnce.in_order s.head I.head
  have htaken : (s.tcb s.head).taken = [] := by
    unfold Tcb.taken
    exact List.flatMap_eq_nil_iff.mpr fun x hx => View.taken_settled (hset x hx)
  obtain ⟨a, ha, -⟩ := hq.action
  have hlt := (List.getElem?_eq_some_iff.mp ha).1
  have hwaits := hq.waits
  rw [horder, htaken, List.length_append, List.length_map, List.nil_append] at hlt
  unfold enterDeliver
  cases hpend : (s.tcb s.head).sigpendactionq with
  | nil =>
    rw [hpend] at hlt
    simp at hlt
    omega
  | cons q l => trivial

/-- A step within `sig_received` that leaves the bookkeeping of signals alone. -/
theorem Turn.inReceived {u : Nat} {pc : RecvPc} {s1 : State} (new : List Frame)
    (hold : (s.tcb s.head).frames = .received u info pc :: below) (hc : Calm s s1)
    (hs : SameFrames s s1) (hnew : new = [] ∨ ∃ q, new = [.received u info q])
    (flying : t = s.head → ∀ i q, Frame.received u info pc = .received t i q →
      Flying s t signo [] below i q → base <:+ below →
        OnWay m t signo base (s1.frames (new ++ below)))
    (inQueue : t = s.head → ∀ k, InQueue s t signo k [] below (.received u info pc) →
      m.delivered ≤ k → base <:+ below → OnWay m t signo base (s1.frames (new ++ below))) :
    Turn m t signo base s (s1.frames (new ++ below)) (.received u info pc) below new := by
  refine .ofCalm new hc hs hold (fun x => ?_) (fun pre set p rest h => ?_) (fun _ ho _ => ?_)
    flying inQueue
  · rcases hnew with rfl | ⟨q, rfl⟩ <;> rfl
  · rcases hnew with rfl | ⟨q, rfl⟩
    · cases pre <;> cases h
    · rcases cons_eq_append h with ⟨-, hx, -⟩ | ⟨pre', -, hb⟩
      · cases hx
      · cases pre' <;> cases hb
  · rcases ho.takes with h | ⟨set, p, h, -⟩ <;> cases h

theorem received_turn {u : Nat} {pc : RecvPc} (I : Inv s) (K : Kept s fun _ _ => 0)
    (R : Ready s (.received u info pc) below) (hruns : (s.tcb s.head).sigdeliver = false)
    (hpast : m.Past (s.tcb t)) (hset : pc = .schedule → u = s.head →
      ∀ f ∈ (s.tcb s.head).frames, f.settled = true)
    (hk : (Frame.received u info pc).keeps mem s) (hmem : ∀ m ∈ mem, m ∉ s.signalNodes)
    (he : receivedStep mem u info below s pc = some s') :
    ∃ new, Turn m t signo base s s' (.received u info pc) below new := by
  have hnone : ∀ (x : Frame) (pre : List Frame) (set : Sigset) (p : Option Nat) (rest : List Frame),
      (∀ set p, x ≠ .unmask set p) → [x] ≠ pre ++ .unmask set p :: rest := by
    intro x pre set p rest hx h
    rcases cons_eq_append h with ⟨-, hx', -⟩ | ⟨pre', -, hb⟩
    · exact hx set p hx'
    · cases pre' <;> cases hb
  have howed : ∀ {s'' : State}, t = s.head → Owed s t signo [] base (.received u info pc) →
      below = base → OnWay m t signo base s'' := by
    intro s'' _ ho _
    rcases ho.takes with h | ⟨set, p, h, -⟩ <;> cases h
  have hflying : ∀ {s'' : State}, pc ≠ .start → pc ≠ .allocAction →
      (∀ sigact n, pc ≠ .addAction sigact n) → t = s.head → ∀ i q,
        Frame.received u info pc = .received t i q → Flying s t signo [] below i q →
          base <:+ below → OnWay m t signo base s'' := by
    intro s'' h1 h2 h3 _ i q hx hfl _
    cases hx
    rcases hfl.pc with ⟨h, -⟩ | h | ⟨sigact, n, h⟩
    · exact absurd h h1
    · exact absurd h h2
    · exact absurd h (h3 sigact n)
  have hqueue : ∀ {s'' : State}, pc ≠ .schedule → t = s.head → ∀ k,
      InQueue s t signo k [] below (.received u info pc) → m.delivered ≤ k → base <:+ below →
        OnWay m t signo base s'' := by
    intro s'' h1 _ k hq _ _
    rcases hq.gets with h | ⟨-, i, h⟩
    · exact absurd h (by simp [Frame.Gets])
    · cases h
      exact absurd rfl h1
  cases pc with
  | start =>
    simp only [receivedStep] at he
    split at he
    · rename_i hmask
      have hblocked : ∀ {s'' : State}, t = s.head → ∀ i q,
          Frame.received u info .start = .received t i q → Flying s t signo [] below i q →
            base <:+ below → OnWay m t signo base s'' := by
        intro s'' _ i q hx hfl _
        cases hx
        rcases hfl.pc with ⟨-, h⟩ | h | ⟨sigact, n, h⟩
        · rw [← hfl.number] at h
          have h' : sigismember (s.tcb t).sigprocmask info.siSigno = false := h
          rw [hmask] at h'
          cases h'
        · cases h
        · cases h
      split at he
      · cases he
        exact ⟨_, .inReceived [] R.frames calm_wakeWith sameFrames_wakeWith (.inl rfl) hblocked
          (hqueue (by simp))⟩
      · cases he
        exact ⟨_, .inReceived [.received u info .find] R.frames .refl .refl (.inr ⟨_, rfl⟩)
          hblocked (hqueue (by simp))⟩
    · cases he
      refine ⟨_, .inReceived [.received u info .allocAction] R.frames .refl .refl (.inr ⟨_, rfl⟩)
        ?_ (hqueue (by simp))⟩
      intro ht i q hx hfl hb
      cases hx
      refine .flying [] below info .allocAction ⟨?_, hfl.number, .inr (.inl rfl)⟩ hb
      rw [ht]
      unfold State.frames
      rw [modify_tcb_same]
      rfl
  | find =>
    simp only [receivedStep] at he
    split at he
    · cases he
      exact ⟨_, .inReceived [.received u info (.copy _)] R.frames .refl .refl (.inr ⟨_, rfl⟩)
        (hflying (by simp) (by simp) (by simp)) (hqueue (by simp))⟩
    · cases he
      exact ⟨_, .inReceived [.received u info .allocSignal] R.frames .refl .refl (.inr ⟨_, rfl⟩)
        (hflying (by simp) (by simp) (by simp)) (hqueue (by simp))⟩
  | copy a =>
    cases he
    exact ⟨_, .inReceived [] R.frames (calm_copyPending hk.2) (quiet_copyPending u info a s).same
      (.inl rfl) (hflying (by simp) (by simp) (by simp)) (hqueue (by simp))⟩
  | allocSignal =>
    simp only [receivedStep] at he
    have hq := (quiet_allocatependingsignal false mem s).same
    cases ha : sigAllocatependingsignal false mem s with
    | mk s1 r =>
      rw [ha] at he hq
      cases r with
      | none => cases he
      | some a =>
        cases he
        obtain ⟨-, -, htcb, -, -, hinfo⟩ := K.allocSignal hmem ha
        exact ⟨_, .inReceived [.received u info (.addSignal a)] R.frames
          (calm_tcb htcb fun m => by rw [hinfo]) hq (.inr ⟨_, rfl⟩)
          (hflying (by simp) (by simp) (by simp)) (hqueue (by simp))⟩
  | addSignal a =>
    cases he
    have hheld : a ∈ s.places (.held s.head) := by
      show a ∈ (s.tcb s.head).frames.flatMap Frame.signalNode
      rw [R.frames]
      exact List.mem_cons_self
    have hnot : ∀ v, a ∉ (s.tcb v).sigpendingq := by
      intro v hv
      have h := K.nodes.unique (.pend v) (.held s.head) a hv hheld
      cases h
    exact ⟨_, .inReceived [] R.frames (calm_addPending hnot) (quiet_addPending u info a s).same
      (.inl rfl) (hflying (by simp) (by simp) (by simp)) (hqueue (by simp))⟩
  | allocAction =>
    simp only [receivedStep] at he
    split at he
    · cases he
      refine ⟨_, .inReceived [.received u info .schedule] R.frames calm_ignore
        (quiet_ignore u info s).same (.inr ⟨_, rfl⟩) ?_ (hqueue (by simp))⟩
      intro ht i q hx hfl hb
      cases hx
      apply OnWay.passed
      right
      left
      have hi : (((ignore t info s).frames
          ([Frame.received t info .schedule] ++ below)).tcb t).history.ignored =
            (s.tcb t).history.ignored ++ [info] := by
        refine (modify_field (s := ignore t info s) (fun c => c.history.ignored) rfl t).trans ?_
        unfold ignore
        rw [modify_tcb_same]
        rfl
      rw [hi]
      exact after_append hpast.ignored hfl.number
    · rename_i sigact hin
      obtain ⟨hb, hpl, htcb, hhead⟩ := allocAction_books false mem s
      have hq := (allocAction_spec false mem s).1
      have hq' : (sigAllocatependingsigaction false mem s).2 ≠ none := hk (by rw [hin]; simp)
      cases ha : sigAllocatependingsigaction false mem s with
      | mk s1 r =>
        rw [ha] at he hb htcb hq hq'
        cases r with
        | none => exact absurd rfl hq'
        | some a =>
          cases he
          refine ⟨_, .inReceived [.received u info (.addAction sigact a)] R.frames
            (calm_tcb htcb fun m => by rw [hb.infos]) hq (.inr ⟨_, rfl⟩) ?_ (hqueue (by simp))⟩
          intro ht i q hx hfl hb
          cases hx
          refine .flying [] below info (.addAction sigact a)
            ⟨?_, hfl.number, .inr (.inr ⟨_, _, rfl⟩)⟩ hb
          rw [ht, ← hq.head]
          unfold State.frames
          rw [modify_tcb_same]
          rfl
  | addAction sigact a =>
    cases he
    refine ⟨_, .inReceived [.received u info .schedule] R.frames calm_addAction
      (sameFrames_addAction u info sigact a s) (.inr ⟨_, rfl⟩) ?_ (hqueue (by simp))⟩
    intro ht i q hx hfl hb
    cases hx
    have horder := I.actionsOnce.in_order t (ht ▸ I.head)
    have hlen : (s.tcb t).history.delivered.length ≤ (s.tcb t).history.queued.length := by
      rw [horder, List.length_append]
      omega
    have hqueued : (((addAction t info sigact a s).frames
        ([Frame.received t info .schedule] ++ below)).tcb t).history.queued =
          (s.tcb t).history.queued ++ [Action.mk sigact.sigaction info] := by
      refine (modify_field (s := addAction t info sigact a s) (fun c => c.history.queued)
        rfl t).trans ?_
      unfold addAction
      rw [modify_tcb_same]
      rfl
    have hdel : (((addAction t info sigact a s).frames
        ([Frame.received t info .schedule] ++ below)).tcb t).history.delivered =
          (s.tcb t).history.delivered := (calm_addAction.trans calm_frames).delivered t
    refine .inQueue (s.tcb t).history.queued.length [] below (.received t info .schedule)
      ⟨?_, ⟨Action.mk sigact.sigaction info, ?_, hfl.number⟩, ?_, .inr ⟨rfl, info, rfl⟩⟩
      (Nat.le_trans hpast.delivered hlen) hb
    · rw [ht]
      unfold State.frames
      show ((State.modify _ s.head _).tcb s.head).frames = _
      rw [modify_tcb_same]
      rfl
    · rw [hqueued]
      simp
    · rw [hdel]
      exact hlen
  | schedule =>
    simp only [receivedStep] at he
    have hsched : ∀ {s'' : State}, (t = s.head → u ≠ t) → t = s.head → ∀ k,
        InQueue s t signo k [] below (.received u info .schedule) → m.delivered ≤ k →
          base <:+ below → OnWay m t signo base s'' := by
      intro s'' hut ht k hq _ _
      rcases hq.gets with h | ⟨-, i, h⟩
      · exact absurd h (by simp [Frame.Gets])
      · cases h
        exact absurd rfl (hut ht)
    split at he
    · rename_i hflag
      cases he
      refine ⟨_, .inReceived [.received u info .wake] R.frames .refl .refl (.inr ⟨_, rfl⟩)
        (hflying (by simp) (by simp) (by simp)) (hsched ?_)⟩
      rintro ht rfl
      rw [ht, hruns] at hflag
      cases hflag
    · split at he
      · rename_i hu
        cases he
        refine ⟨_, Turn.ofCalm [enterDeliver (s.tcb u), .received u info .wake] .refl .refl R.frames
          (fun _ => rfl) ?_ howed (hflying (by simp) (by simp) (by simp)) ?_⟩
        · intro pre set p rest h
          rcases cons_eq_append h with ⟨-, hx, -⟩ | ⟨pre', -, hb⟩
          · cases hx
          · exact absurd hb (hnone _ pre' set p rest (by simp))
        · intro ht k hq hk hb
          have hsettled := hset rfl hu
          subst ht
          have hframes : ((s.frames ([enterDeliver (s.tcb u), .received u info .wake] ++
              below)).tcb s.head).frames =
                [enterDeliver (s.tcb u), .received u info .wake] ++ below := by
            unfold State.frames
            rw [modify_tcb_same]
          refine .inQueue k [] (.received u info .wake :: below) (enterDeliver (s.tcb u))
            (hq.goOn calm_frames.grow (calm_frames.delivered _) hframes ?_) hk
            (hb.trans (List.suffix_cons _ _))
          rw [hu]
          exact enter_gets I hsettled hq
      · rename_i hu
        cases he
        refine ⟨_, .inReceived [.received u info .wake] R.frames calm_flag
          (sameFrames_modify rfl rfl) (.inr ⟨_, rfl⟩)
          (hflying (by simp) (by simp) (by simp)) (hsched ?_)⟩
        rintro ht rfl
        exact hu ht
  | wake =>
    cases he
    exact ⟨_, .inReceived [] R.frames calm_wakeWaiter (quiet_wakeWaiter u info s).same (.inl rfl)
      (hflying (by simp) (by simp) (by simp)) (hqueue (by simp))⟩

theorem ismember_signo2set {a b : Nat} (ha : a ≤ maxSigno) :
    sigismember (signo2set a) b = decide (a = b) := by
  unfold sigismember signo2set
  rw [BitVec.getLsbD_shiftLeft]
  unfold maxSigno at ha
  by_cases h : a = b
  · subst h
    simp
    omega
  · have hne : b - a ≠ 0 ∨ b < a := by omega
    rcases hne with h' | h'
    · simp [h, BitVec.getLsbD_one, h']
    · simp [h, h']

theorem ismember_or (set set' : Sigset) (signo : Nat) :
    sigismember (set ||| set') signo = (sigismember set signo || sigismember set' signo) := by
  unfold sigismember
  exact BitVec.getLsbD_or

theorem ismember_delset {set : Sigset} {a b : Nat} (ha : a ≤ maxSigno) :
    sigismember (sigdelset set a) b = (sigismember set b && !decide (a = b)) := by
  by_cases hb : b < 32
  · rw [← ismember_signo2set ha]
    unfold sigdelset sigismember
    rw [BitVec.getLsbD_and, BitVec.getLsbD_not]
    simp [hb]
  · have hout : ∀ x : Sigset, sigismember x b = false := fun x => BitVec.getLsbD_of_ge x b (by omega)
    rw [hout, hout, Bool.false_and]

theorem ismember_unmasked {mask set : Sigset} {signo : Nat} (h : signo ≤ maxSigno) :
    sigismember (~~~mask &&& set) signo = (!sigismember mask signo && sigismember set signo) := by
  unfold sigismember
  unfold maxSigno at h
  rw [BitVec.getLsbD_and, BitVec.getLsbD_not]
  have hlt : signo < 32 := by omega
  simp [hlt]

theorem ismember_pendingset (hp : s.Pends t signo) (hs : ∀ n ∈ (s.tcb t).sigpendingq,
    (s.sigpend n).info.siSigno ≤ maxSigno) : sigismember (sigPendingset t s) signo = true := by
  obtain ⟨n, hn, rfl⟩ := hp
  unfold sigPendingset
  generalize (s.tcb t).sigpendingq = q at hn hs
  have hgrow : ∀ (q : List Nat) (set : Sigset),
      sigismember set (s.sigpend n).info.siSigno = true →
        sigismember (q.foldl (fun set n => set ||| signo2set (s.sigpend n).info.siSigno) set)
          (s.sigpend n).info.siSigno = true := by
    intro q
    induction q with
    | nil => exact fun _ h => h
    | cons m q ih =>
      intro set h
      apply ih
      rw [ismember_or, h, Bool.true_or]
  generalize nullSignalSet = set
  induction q generalizing set with
  | nil => exact absurd hn List.not_mem_nil
  | cons m q ih =>
    rcases List.mem_cons.mp hn with rfl | hn
    · refine hgrow q _ ?_
      rw [ismember_or, ismember_signo2set (hs _ List.mem_cons_self)]
      simp
    · exact ih hn (fun k hk => hs k (List.mem_cons_of_mem _ hk)) _

theorem lowest_none {set : Sigset} (h : sigLowest set = none) (hm : signo ≤ maxSigno) :
    sigismember set signo = false := by
  have := List.find?_eq_none.mp h signo (List.mem_range.mpr (by omega))
  simpa using this

theorem lowest_some {set : Sigset} (h : sigLowest set = some n) :
    sigismember set n = true ∧ n ≤ maxSigno := by
  refine ⟨List.find?_some h, ?_⟩
  have := List.mem_range.mp (List.mem_of_find?_eq_some h)
  omega

theorem unmaskStart_turn (K : Kept s fun _ _ => 0) (R : Ready s .unmaskStart below) {set : Sigset}
    (hset : set = ~~~(s.tcb s.head).sigprocmask &&& sigPendingset s.head s) :
    Turn m t signo base s (s.frames ([.unmask set none] ++ below)) .unmaskStart below
      [.unmask set none] := by
  apply Turn.ofCalm [.unmask set none] .refl .refl R.frames
  · exact fun _ => rfl
  · intro pre set' p rest h n hn
    rcases cons_eq_append h with ⟨rfl, hx, -⟩ | ⟨pre', -, hb⟩
    · cases hx
      show sigismember (s.tcb s.head).sigprocmask n = false
      rw [hset] at hn
      unfold sigismember at hn ⊢
      rw [BitVec.getLsbD_and, BitVec.getLsbD_not] at hn
      revert hn
      cases (s.tcb s.head).sigprocmask.getLsbD n <;> simp
    · cases pre' <;> cases hb
  · intro ht ho hb
    subst hb
    refine .owed [] (.unmask set none) ⟨?_, calm_frames.pends t signo ho.pends, ?_,
      .inr ⟨set, none, rfl, ?_⟩⟩
    · rw [ht]
      unfold State.frames
      rw [modify_tcb_same]
      rfl
    · have h := ho.unblocked
      have hmask : ((s.frames ([.unmask set none] ++ below)).tcb t).sigprocmask =
          (s.tcb t).sigprocmask := modify_field Tcb.sigprocmask rfl t
      rw [hmask]
      exact h
    · have hmax : signo ≤ maxSigno := by
        obtain ⟨n, hn, hs⟩ := ho.pends
        exact hs ▸ K.pendsigno t n hn
      have hpend := ismember_pendingset ho.pends (K.pendsigno t)
      have hun : sigismember (s.tcb t).sigprocmask signo = false := ho.unblocked
      rw [hset, ismember_unmasked hmax, ← ht, hun, hpend]
      rfl
  · intro _ info pc h
    cases h
  · intro _ k hq
    rcases hq.gets with h | ⟨-, i, h⟩
    · exact absurd h (fun h => h)
    · cases h

theorem singleton_unmask {x y : Frame} {pre rest : List Frame} (h : [x] = pre ++ y :: rest) :
    pre = [] ∧ x = y := by
  rcases cons_eq_append h with ⟨rfl, hx, -⟩ | ⟨pre', -, hb⟩
  · exact ⟨rfl, hx⟩
  · cases pre' <;> cases hb

theorem unmask_ofCalm {set rest : Sigset} {p q : Option Nat} {s1 : State}
    (R : Ready s (.unmask set p) below) (hu : Unblocked s) (hc : Calm s s1) (hs : SameFrames s s1)
    (hsub : ∀ n, sigismember rest n = true → sigismember set n = true)
    (hkeep : s.Pends t signo → sigismember set signo = true → t = s.head →
      sigismember rest signo = true) :
    Turn m t signo base s (s1.frames ([.unmask rest q] ++ below)) (.unmask set p) below
      [.unmask rest q] := by
  apply Turn.ofCalm [.unmask rest q] hc hs R.frames
  · exact fun _ => rfl
  · intro pre set' p' r h n hn
    obtain ⟨rfl, hx⟩ := singleton_unmask h
    cases hx
    exact hu s.head [] set p below R.frames n (hsub n hn)
  · intro ht ho hb
    subst hb
    have hset : sigismember set signo = true := by
      rcases ho.takes with h | ⟨set', p', h, h'⟩
      · cases h
      · cases h
        exact h'
    refine .owed [] (.unmask rest q) ⟨?_, (hc.trans calm_frames).pends t signo ho.pends, ?_,
      .inr ⟨rest, q, rfl, hkeep ho.pends hset ht⟩⟩
    · rw [ht, ← hs.head]
      unfold State.frames
      rw [modify_tcb_same]
      rfl
    · have hmask : ((s1.frames ([.unmask rest q] ++ below)).tcb t).sigprocmask =
          (s.tcb t).sigprocmask := (modify_field Tcb.sigprocmask rfl t).trans (hs.mask t)
      rw [hmask]
      exact ho.unblocked
  · intro _ info pc h
    cases h
  · intro _ k hq
    rcases hq.gets with h | ⟨-, i, h⟩
    · exact absurd h (fun h => h)
    · cases h

theorem sameFrames_releaseSignal : SameFrames s (sigReleasependingsignal n s) := by
  unfold sigReleasependingsignal
  split <;> exact ⟨rfl, rfl, rfl, fun _ => rfl, fun _ => rfl⟩

theorem unmask_take {set : Sigset} {a : Nat} {s1 : State} (K : Kept s fun _ _ => 0)
    (R : Ready s (.unmask set none) below) (hu : Unblocked s) (hl : sigLowest set = some a)
    (hr : sigRemovependingsignal s.head a s = (s1, some n)) :
    Turn m t signo base s (s1.frames ([.received s.head (s.sigpend n).info .start,
      .unmask (sigdelset set a) (some n)] ++ below)) (.unmask set none) below
        [.received s.head (s.sigpend n).info .start, .unmask (sigdelset set a) (some n)] := by
  obtain ⟨-, -, hno, -, hpend, hs⟩ := K.removePending hr
  obtain ⟨hmem, hmax⟩ := lowest_some hl
  have hun : ∀ b, sigismember set b = true → sigismember (s.tcb s.head).sigprocmask b = false :=
    fun b hb => hu s.head [] set none below R.frames b hb
  have hs1 : SameFrames s s1 := by
    rw [hs]
    exact sameFrames_modify rfl rfl
  have hgrow : Grow s s1 := by
    rw [hs]
    apply grow_modify <;> exact List.prefix_rfl
  have hdel : ∀ u, (s1.tcb u).history.delivered = (s.tcb u).history.delivered := by
    rw [hs]
    exact modify_field (fun c => c.history.delivered) rfl
  let fs : List Frame := [.received s.head (s.sigpend n).info .start,
    .unmask (sigdelset set a) (some n)] ++ below
  have hframes : ((s1.frames fs).tcb s.head).frames = fs := by
    rw [← hs1.head]
    unfold State.frames
    rw [modify_tcb_same]
  have hmask : ∀ u, ((s1.frames fs).tcb u).sigprocmask = (s.tcb u).sigprocmask :=
    fun u => (modify_field Tcb.sigprocmask rfl u).trans (hs1.mask u)
  -- what else is pending stays so
  have hpends : ∀ u b, s.Pends u b → ¬(u = s.head ∧ b = a) → (s1.frames fs).Pends u b := by
    intro u b hp hne
    apply calm_frames.pends
    obtain ⟨k, hk, hb⟩ := hp
    refine ⟨k, ?_, by rw [hpend]; exact hb⟩
    rw [hs]
    by_cases hu' : u = s.head
    · subst hu'
      rw [modify_tcb_same]
      have hkn : k ≠ n := by
        rintro rfl
        exact hne ⟨rfl, hb.symm.trans hno⟩
      exact (List.mem_erase_of_ne hkn).mpr hk
    · rw [modify_tcb_of_ne hu']
      exact hk
  have hflying : t = s.head → signo = a → base <:+ below →
      OnWay m t signo base (s1.frames fs) := by
    intro ht ha hb
    refine .flying [] (.unmask (sigdelset set a) (some n) :: below) (s.sigpend n).info .start
      ⟨?_, hno.trans ha.symm, .inl ⟨rfl, ?_⟩⟩ (hb.trans (List.suffix_cons _ _))
    · rw [ht, hframes]
      rfl
    · show sigismember ((s1.frames fs).tcb t).sigprocmask signo = false
      rw [hmask, ht, ha]
      exact hun a hmem
  refine ⟨hgrow.trans calm_frames.grow, fun v hv => ⟨?_, hmask v, ?_, fun b hp =>
    hpends v b hp fun h => hv h.1⟩, R.frames, hframes, ?_, ?_, .inl ?_, ?_, ?_, ?_, ?_⟩
  · have hne : v ≠ s1.head := by
      rw [hs1.head]
      exact hv
    unfold State.frames
    rw [modify_tcb_of_ne hne]
    exact hs1.frames v
  · exact (calm_frames.delivered v).trans (hdel v)
  · rw [hmask]
    rfl
  · intro ht hp
    by_cases ha : signo = a
    · exact .inr (hflying ht ha)
    · exact .inl (hpends t signo hp fun h => ha h.2)
  · exact (calm_frames.delivered _).trans (hdel _)
  · intro pre set' p rest h b hb
    rcases cons_eq_append h with ⟨-, hx, -⟩ | ⟨pre', rfl, hrest⟩
    · cases hx
    · obtain ⟨rfl, hx⟩ := singleton_unmask hrest
      cases hx
      show sigismember ((s1.frames fs).tcb s.head).sigprocmask b = false
      rw [hmask]
      rw [ismember_delset hmax, Bool.and_eq_true] at hb
      exact hun b hb.1
  · intro ht ho hb
    have hset : sigismember set signo = true := by
      rcases ho.takes with h | ⟨set', p', h, h'⟩
      · cases h
      · cases h
        exact h'
    by_cases ha : signo = a
    · exact hflying ht ha (hb ▸ List.suffix_rfl)
    · refine .owed [.received s.head (s.sigpend n).info .start]
        (.unmask (sigdelset set a) (some n)) ⟨?_, hpends t signo ho.pends fun h => ha h.2, ?_,
          .inr ⟨_, _, rfl, ?_⟩⟩
      · rw [ht, hframes, ← hb]
        rfl
      · rw [hmask]
        exact ho.unblocked
      · rw [ismember_delset hmax, hset]
        simp [Ne.symm ha]
  · intro _ info pc h
    cases h
  · intro _ k hq
    rcases hq.gets with h | ⟨-, i, h⟩
    · exact absurd h (fun h => h)
    · cases h

theorem unmask_turn {set : Sigset} {p : Option Nat} (K : Kept s fun _ _ => 0)
    (R : Ready s (.unmask set p) below) (hu : Unblocked s) :
    ∃ new, Turn m t signo base s (unmaskStep set below s p) (.unmask set p) below new := by
  cases p with
  | some n =>
    exact ⟨_, unmask_ofCalm R hu calm_release sameFrames_releaseSignal (fun _ h => h)
      fun _ h _ => h⟩
  | none =>
    simp only [unmaskStep]
    split
    · rename_i hl
      refine ⟨[], Turn.ofCalm [] .refl .refl R.frames (fun _ => rfl) ?_ ?_ ?_ ?_⟩
      · intro pre set' p rest h
        cases pre <;> cases h
      · intro _ ho _
        have hmax : signo ≤ maxSigno := by
          obtain ⟨n, hn, hs⟩ := ho.pends
          exact hs ▸ K.pendsigno t n hn
        rcases ho.takes with h | ⟨set', p', h, h'⟩
        · cases h
        · cases h
          rw [lowest_none hl hmax] at h'
          cases h'
      · intro _ info pc h
        cases h
      · intro _ k hq
        rcases hq.gets with h | ⟨-, i, h⟩
        · exact absurd h (fun h => h)
        · cases h
    · rename_i a hl
      obtain ⟨hmem, hmax⟩ := lowest_some hl
      cases hr : sigRemovependingsignal s.head a s with
      | mk s1 r =>
        cases r with
        | none =>
          have hnone : s1 = s ∧ sigFindpendingsignal s.head a s = none := by
            unfold sigRemovependingsignal at hr
            split at hr
            · cases hr
            · rename_i hfind
              cases hr
              exact ⟨rfl, hfind⟩
          obtain ⟨rfl, hfind⟩ := hnone
          refine ⟨_, unmask_ofCalm R hu .refl .refl ?_ ?_⟩
          · intro b hb
            rw [ismember_delset hmax, Bool.and_eq_true] at hb
            exact hb.1
          · intro hp hset ht
            rw [ismember_delset hmax, hset]
            have hne : a ≠ signo := by
              rintro rfl
              obtain ⟨k, hk, hs⟩ := hp
              rw [ht] at hk
              have := List.find?_eq_none.mp hfind k hk
              exact this (by simpa using hs)
            simp [hne]
        | some n =>
          have h : Turn m t signo base s _ _ below _ := unmask_take K R hu hl hr
          obtain ⟨-, -, -, -, hpend, hs⟩ := K.removePending hr
          have hhead : s1.head = s.head := by
            rw [hs]
            rfl
          dsimp only
          rw [hpend, hhead]
          exact ⟨_, h⟩

theorem not_gets_of_settled {k l : Nat} (h : f.settled = true) : ¬f.Gets k l := by
  intro hg
  cases f with
  | deliver sigq next save entry pc =>
    cases sigq <;> cases next <;> cases pc <;> simp_all [Frame.Gets, Frame.settled]
  | _ => exact hg

theorem modify_head_frames {fs : List Frame} : (s.modify s.head fun c => { g c with frames := fs }) =
    (s.modify s.head g).frames fs := by
  show s.modify s.head _ = (s.modify s.head g).modify s.head _
  unfold State.modify
  simp only [Function.update_idem, Function.update_self]

theorem Inv.ahead (I : Inv s) (hf : (s.tcb s.head).frames = f :: below)
    (hd : f.isDeliver = true) :
    (∀ x ∈ below, x.settled = true) ∧ f.Refs (s.tcb s.head).sigpendactionq ∧
      (s.tcb s.head).history.queued = (s.tcb s.head).history.delivered ++
        (f.taken ++ (s.tcb s.head).sigpendactionq).map fun n => (s.sigq n).act := by
  have hact : (s.core.view s.head).active = f :: below.filter Frame.active := by
    show (s.tcb s.head).frames.filter Frame.active = _
    rw [hf]
    cases f with
    | deliver sigq next save entry pc => rfl
    | _ => cases hd
  have hok : (s.core.view s.head).Ok s.core.act := I.core.task s.head I.head
  have hset : ∀ x ∈ below.filter Frame.active, x.settled = true := by
    have h := hok.settled
    rw [hact] at h
    exact fun x hx => (List.pairwise_cons.mp h).1 x hx hd
  refine ⟨fun x hx => ?_, hok.refs f (by rw [hact]; exact List.mem_cons_self), ?_⟩
  · cases ha : x.active with
    | true => exact hset x (List.mem_filter.mpr ⟨hx, ha⟩)
    | false =>
      cases x with
      | deliver sigq next save entry pc => cases ha
      | _ => rfl
  · have h := hok.queued
    rw [hact, List.flatMap_cons, List.flatMap_eq_nil_iff.mpr fun x hx =>
      View.taken_settled (hset x hx), List.append_nil] at h
    exact h

theorem deliver_ofCalm {sigq next : Option Nat} {save entry : Sigset} {pc : DeliverPc} {s1 : State}
    {new : List Frame} (R : Ready s (.deliver sigq next save entry pc) below) (hpc : pc ≠ .handler)
    (hc : Calm s s1) (hs : SameFrames s s1) (hlevel : ∀ x, levelMask new x = x)
    (hnew : ∀ f ∈ new, f.isDeliver = true)
    (hget : ∀ k, InQueue s t signo k [] below (.deliver sigq next save entry pc) → t = s.head →
      Frame.Gets k (s.tcb t).history.delivered.length (.deliver sigq next save entry pc) →
        ∃ f', new = [f'] ∧ f'.Gets k (s.tcb t).history.delivered.length) :
    Turn m t signo base s (s1.frames (new ++ below)) (.deliver sigq next save entry pc) below
      new := by
  apply Turn.ofCalm new hc hs R.frames
  · intro x
    rw [hlevel]
    cases pc with
    | handler => exact absurd rfl hpc
    | _ => rfl
  · intro pre set p rest h
    have := hnew (.unmask set p) (by rw [h]; exact List.mem_append_right _ List.mem_cons_self)
    cases this
  · intro _ ho _
    rcases ho.takes with h | ⟨set, p, h, -⟩ <;> cases h
  · intro _ info pc h
    cases h
  · intro ht k hq hk hb
    rcases hq.gets with hg | ⟨-, i, h⟩
    · obtain ⟨f', rfl, hg'⟩ := hget k hq ht hg
      have hc' : Calm s (s1.frames ([f'] ++ below)) := hc.trans calm_frames
      refine .inQueue k [] below f' (hq.goOn hc'.grow (hc'.delivered t) ?_ hg') hk hb
      rw [ht, ← hs.head]
      unfold State.frames
      rw [modify_tcb_same]
      rfl
    · cases h

theorem deliver_fetch {next : Option Nat} {save entry : Sigset} {sigq : Option Nat} (I : Inv s)
    (R : Ready s (.deliver sigq next save entry .fetch) below) :
    ∃ new, Turn m t signo base s (deliverStep sigq next save entry below s .fetch)
      (.deliver sigq next save entry .fetch) below new := by
  obtain ⟨-, hrefs, hqueued⟩ := I.ahead R.frames rfl
  cases sigq with
  | none =>
    have hT : Turn m t signo base s (s.frames ([] ++ below)) (.deliver none next save entry .fetch)
        below [] := by
      apply deliver_ofCalm R (by simp) .refl .refl (fun _ => rfl)
      · exact fun _ h => absurd h List.not_mem_nil
      · exact fun k _ _ hg => absurd hg (fun h => h)
    exact ⟨_, hT⟩
  | some n =>
    have hT : ∀ next', next' = (s.tcb s.head).sigpendactionq[
        (s.tcb s.head).sigpendactionq.idxOf n + 1]? →
          Turn m t signo base s
            (s.frames ([.deliver (some n) next' save entry .dequeue] ++ below))
            (.deliver (some n) next save entry .fetch) below
              [.deliver (some n) next' save entry .dequeue] := by
      intro next' hnext
      apply deliver_ofCalm R (by simp) .refl .refl (fun _ => rfl)
      · intro f hf
        rw [List.mem_singleton.mp hf]
        rfl
      intro k hq ht _
      refine ⟨_, rfl, fun hnone => ?_⟩
      rw [hnone] at hnext
      obtain ⟨a, ha, -⟩ := hq.action
      have hlt := (List.getElem?_eq_some_iff.mp ha).1
      have hhead : (s.tcb s.head).sigpendactionq.head? = some n := hrefs
      rw [ht, hqueued, List.length_append, List.length_map] at hlt
      rw [ht]
      cases hq : (s.tcb s.head).sigpendactionq with
      | nil =>
        rw [hq] at hhead
        cases hhead
      | cons n' q =>
        rw [hq] at hhead hnext hlt
        cases hhead
        rw [List.idxOf_cons_self] at hnext
        cases q with
        | nil =>
          simp [Frame.taken] at hlt
          omega
        | cons n'' q => cases hnext
    exact ⟨_, hT _ rfl⟩

theorem deliver_dequeue {next : Option Nat} {save entry : Sigset} {n : Nat} (I : Inv s)
    (R : Ready s (.deliver (some n) next save entry .dequeue) below) :
    ∃ new, Turn m t signo base s (deliverStep (some n) next save entry below s .dequeue)
      (.deliver (some n) next save entry .dequeue) below new := by
  obtain ⟨-, hrefs, -⟩ := I.ahead R.frames rfl
  have hmem : n ∈ (s.tcb s.head).sigpendactionq := List.mem_of_mem_head? hrefs.1
  let g : Tcb → Tcb := fun c =>
    { c with
      sigpendactionq := c.sigpendactionq.erase n
      sigpostedq := c.sigpostedq ++ [n] }
  have heq : deliverStep (some n) next save entry below s .dequeue =
      (s.modify s.head g).frames ([.deliver (some n) next save entry .call] ++ below) := by
    rw [← modify_head_frames]
    unfold deliverStep
    dsimp only
    rw [show (s.broken || decide (n ∉ (s.tcb s.head).sigpendactionq)) = s.broken by simp [hmem]]
    rfl
  have hc : Calm s (s.modify s.head g) :=
    calm_modify List.prefix_rfl rfl List.prefix_rfl List.prefix_rfl fun _ h => h
  rw [heq]
  refine ⟨_, deliver_ofCalm R (by simp) hc (sameFrames_modify rfl rfl) (fun _ => rfl) ?_ ?_⟩
  · intro f hf
    rw [List.mem_singleton.mp hf]
    rfl
  · exact fun k _ _ hg => ⟨_, rfl, hg⟩

theorem calm_releaseAction : Calm s (sigReleasependingsigaction n s) := by
  have h : (sigReleasependingsigaction n s).tcb = s.tcb ∧
      (sigReleasependingsigaction n s).sigpend = s.sigpend := by
    unfold sigReleasependingsigaction
    cases (s.sigq n).type <;> exact ⟨rfl, rfl⟩
  exact calm_tcb h.1 fun m => by rw [h.2]

theorem deliver_finish {next : Option Nat} {save entry : Sigset} {n : Nat}
    (R : Ready s (.deliver (some n) next save entry .finish) below) :
    ∃ new, Turn m t signo base s (deliverStep (some n) next save entry below s .finish)
      (.deliver (some n) next save entry .finish) below new := by
  let g : Tcb → Tcb := fun c => { c with sigpostedq := c.sigpostedq.erase n }
  have heq : deliverStep (some n) next save entry below s .finish =
      (s.modify s.head g).frames ([.deliver (some n) next save entry .release] ++ below) := by
    rw [← modify_head_frames]
    rfl
  have hc : Calm s (s.modify s.head g) :=
    calm_modify List.prefix_rfl rfl List.prefix_rfl List.prefix_rfl fun _ h => h
  rw [heq]
  refine ⟨_, deliver_ofCalm R (by simp) hc (sameFrames_modify rfl rfl) (fun _ => rfl) ?_ ?_⟩
  · intro f hf
    rw [List.mem_singleton.mp hf]
    rfl
  · exact fun k _ _ hg => ⟨_, rfl, hg⟩

theorem deliver_release {next : Option Nat} {save entry : Sigset} {n : Nat}
    (R : Ready s (.deliver (some n) next save entry .release) below) :
    ∃ new, Turn m t signo base s (deliverStep (some n) next save entry below s .release)
      (.deliver (some n) next save entry .release) below new := by
  let s1 := sigReleasependingsigaction n s
  have hs1 : SameFrames s s1 := sameFrames_release n s
  let g : Tcb → Tcb := fun c =>
    c.log fun h => { h with released := h.released ++ [(s.sigq n).act] }
  have heq : deliverStep (some n) next save entry below s .release =
      (s1.modify s1.head g).frames ([.deliver next none save entry .fetch] ++ below) := by
    rw [← modify_head_frames, hs1.head]
    rfl
  have hc : Calm s (s1.modify s1.head g) := calm_releaseAction.trans
    (calm_modify List.prefix_rfl rfl List.prefix_rfl List.prefix_rfl fun _ h => h)
  rw [heq]
  refine ⟨_, deliver_ofCalm R (by simp) hc (hs1.trans (sameFrames_modify rfl rfl)) (fun _ => rfl)
    ?_ ?_⟩
  · intro f hf
    rw [List.mem_singleton.mp hf]
    rfl
  · intro k _ _ hg
    refine ⟨_, rfl, ?_⟩
    have hnext : next ≠ none := hg
    cases next with
    | none => exact absurd rfl hnext
    | some x => trivial

/-- The step changes the running task only, and the activation is none that has the signal
unless it delivers. -/
theorem Turn.ofModify {new : List Frame} (hold : (s.tcb s.head).frames = f :: below)
    (hplain : f ≠ .unmaskStart ∧ (∀ set p, f ≠ .unmask set p) ∧ ∀ u i q, f ≠ .received u i q)
    (hgrow : Grow s (s.modify s.head g)) (hp : ∀ v n, s.Pends v n → (s.modify s.head g).Pends v n)
    (hf : (g (s.tcb s.head)).frames = new ++ below)
    (hlevel : levelMask new (g (s.tcb s.head)).sigprocmask =
      levelMask [f] (s.tcb s.head).sigprocmask)
    (hd : (g (s.tcb s.head)).history.delivered = (s.tcb s.head).history.delivered ∨
      ∀ x ∈ below, ∀ k l, ¬x.Gets k l)
    (hnew : ∀ set p, Frame.unmask set p ∉ new)
    (hget : t = s.head → ∀ k, InQueue s t signo k [] below f →
      m.delivered ≤ k → base <:+ below → f.Gets k (s.tcb t).history.delivered.length →
        OnWay m t signo base (s.modify s.head g)) :
    Turn m t signo base s (s.modify s.head g) f below new := by
  refine ⟨hgrow, fun v hv => ?_, hold, ?_, ?_, fun _ h => .inl (hp t signo h), ?_, ?_, ?_, ?_, ?_⟩
  · rw [modify_tcb_of_ne hv]
    exact ⟨rfl, rfl, rfl, hp v⟩
  · rw [modify_tcb_same]
    exact hf
  · rw [modify_tcb_same]
    exact hlevel
  · rw [modify_tcb_same]
    exact hd
  · intro pre set p rest h
    exact absurd (by rw [h]; exact List.mem_append_right _ List.mem_cons_self) (hnew set p)
  · intro _ ho _
    rcases ho.takes with h | ⟨set, p, h, -⟩
    · exact absurd h hplain.1
    · exact absurd h (hplain.2.1 set p)
  · intro _ info pc h
    exact absurd h (hplain.2.2 _ _ _)
  · intro ht k hq hk hb
    rcases hq.gets with hg | ⟨-, i, h⟩
    · exact hget ht k hq hk hb hg
    · exact absurd h (hplain.2.2 _ _ _)

theorem deliver_handler {sigq next : Option Nat} {save entry : Sigset} (I : Inv s)
    (R : Ready s (.deliver sigq next save entry .handler) below) :
    ∃ new, Turn m t signo base s (deliverStep sigq next save entry below s .handler)
      (.deliver sigq next save entry .handler) below new := by
  have hmask : save = entry := by
    have h := I.masks s.head I.head
    rw [R.frames] at h
    exact h.1
  let g : Tcb → Tcb := fun c =>
    { c with
      sigprocmask := save
      frames := .unmaskStart :: .deliver sigq next save entry .finish :: below }
  have hT : Turn m t signo base s (s.modify s.head g) (.deliver sigq next save entry .handler) below
      [.unmaskStart, .deliver sigq next save entry .finish] := by
    refine Turn.ofModify R.frames (by simp) ?_ ?_ rfl hmask (.inl rfl) (by simp) ?_
    · apply grow_modify <;> exact List.prefix_rfl
    · intro v b h
      have hc : Calm s (s.modify s.head g) :=
        calm_modify List.prefix_rfl rfl List.prefix_rfl List.prefix_rfl fun _ h => h
      exact hc.pends v b h
    · intro ht k hq hk hb hg
      subst ht
      refine .inQueue k [.unmaskStart] below (.deliver sigq next save entry .finish)
        (hq.goOn ?_ ?_ ?_ ?_) hk hb
      · apply grow_modify <;> exact List.prefix_rfl
      · rw [modify_tcb_same]
      · rw [modify_tcb_same]
        rfl
      · cases sigq with
        | none => exact absurd hg (fun h => h)
        | some n => exact hg
  exact ⟨_, hT⟩

theorem deliver_call {next : Option Nat} {save entry : Sigset} {n : Nat} (I : Inv s)
    (R : Ready s (.deliver (some n) next save entry .call) below) (hpast : m.Past (s.tcb t)) :
    ∃ new, Turn m t signo base s (deliverStep (some n) next save entry below s .call)
      (.deliver (some n) next save entry .call) below new := by
  obtain ⟨hset, -, hqueued⟩ := I.ahead R.frames rfl
  have hmask : (s.tcb s.head).sigprocmask = entry := by
    have h := I.masks s.head I.head
    rw [R.frames] at h
    exact h.1
  let g : Tcb → Tcb := fun c =>
    { c with
      sigprocmask := c.sigprocmask ||| (s.sigq n).mask ||| signo2set (s.sigq n).act.info.siSigno
      frames := .deliver (some n) next c.sigprocmask entry .handler :: below }.log fun h =>
      { h with delivered := h.delivered ++ [(s.sigq n).act] }
  have hgrow : Grow s (s.modify s.head g) := by
    apply grow_modify
    · exact List.prefix_rfl
    · exact List.prefix_append _ _
    · exact List.prefix_rfl
    · exact List.prefix_rfl
  have hT : Turn m t signo base s (s.modify s.head g) (.deliver (some n) next save entry .call) below
      [.deliver (some n) next (s.tcb s.head).sigprocmask entry .handler] := by
    refine Turn.ofModify R.frames (by simp) hgrow ?_ rfl hmask.symm
      (.inr fun x hx k l => not_gets_of_settled (hset x hx)) (by simp) ?_
    · intro v b h
      obtain ⟨j, hj, hb⟩ := h
      refine ⟨j, ?_, hb⟩
      rw [modify_field Tcb.sigpendingq rfl]
      exact hj
    · intro ht k hq hk hb hg
      subst ht
      obtain ⟨a, ha, hs⟩ := hq.action
      by_cases hkl : k = (s.tcb s.head).history.delivered.length
      · -- it is the one whose handler is called
        apply OnWay.passed
        left
        rw [modify_tcb_same]
        refine after_append hpast.delivered ?_
        rw [hqueued, hkl, List.getElem?_append_right (Nat.le_refl _), Nat.sub_self] at ha
        cases ha
        exact hs
      · have hlt := Nat.lt_of_le_of_ne hq.waits (Ne.symm hkl)
        refine .inQueue k [] below
          (.deliver (some n) next (s.tcb s.head).sigprocmask entry .handler)
          ⟨?_, ⟨a, ?_, hs⟩, ?_, .inl ?_⟩ hk hb
        · rw [modify_tcb_same]
          rfl
        · rw [modify_tcb_same]
          exact ha
        · rw [modify_tcb_same]
          show ((s.tcb s.head).history.delivered ++ [_]).length ≤ k
          rw [List.length_append]
          exact hlt
        · intro hnone
          have := hg hnone
          omega
  exact ⟨_, hT⟩

theorem deliver_turn {sigq next : Option Nat} {save entry : Sigset} {pc : DeliverPc} (I : Inv s)
    (R : Ready s (.deliver sigq next save entry pc) below) (hpast : m.Past (s.tcb t)) :
    ∃ new, Turn m t signo base s (deliverStep sigq next save entry below s pc)
      (.deliver sigq next save entry pc) below new := by
  cases pc with
  | fetch => exact deliver_fetch I R
  | handler => exact deliver_handler I R
  | dequeue =>
    cases sigq with
    | none => exact absurd (I.ahead R.frames rfl).2.1 (fun h => h)
    | some n => exact deliver_dequeue I R
  | call =>
    cases sigq with
    | none => exact absurd (I.ahead R.frames rfl).2.1 (fun h => h)
    | some n => exact deliver_call I R hpast
  | finish =>
    cases sigq with
    | none => exact absurd (I.ahead R.frames rfl).2.1 (fun h => h)
    | some n => exact deliver_finish R
  | release =>
    cases sigq with
    | none => exact absurd (I.ahead R.frames rfl).2.1 (fun h => h)
    | some n => exact deliver_release R

theorem suspend_turn {saved : Sigset} (R : Ready s (.suspend saved) below) :
    Turn m t signo base s (s.modify s.head fun c =>
      { c with
        sigprocmask := saved
        frames := .unmaskStart :: below }) (.suspend saved) below [.unmaskStart] := by
  have hc : Calm s (s.modify s.head fun c =>
      { c with
        sigprocmask := saved
        frames := .unmaskStart :: below }) :=
    calm_modify List.prefix_rfl rfl List.prefix_rfl List.prefix_rfl fun _ h => h
  refine Turn.ofModify R.frames (by simp) hc.grow hc.pends rfl rfl (.inl rfl) (by simp) ?_
  exact fun _ k _ _ _ hg => absurd hg (fun h => h)

theorem timedwait_turn (R : Ready s .timedwait below) :
    Turn m t signo base s (timedwaitReturn below s) .timedwait below [] := by
  let g : Tcb → Tcb := fun c =>
    { c with
      sigwaitmask := nullSignalSet
      frames := below }.log fun h =>
      if c.sigunbinfo.siSigno ≤ maxSigno then
        { h with returned := h.returned ++ [c.sigunbinfo] }
      else h
  have hhist : ∀ {α : Type} (p : History → List α), (∀ h : History, ∀ l,
      p h <+: p { h with returned := h.returned ++ l }) →
        p (s.tcb s.head).history <+: p (g (s.tcb s.head)).history := by
    intro α p hp
    show _ <+: p (if _ then _ else _)
    split
    · exact hp _ _
    · exact List.prefix_rfl
  have hc : Calm s (s.modify s.head g) := by
    apply calm_modify
    · exact hhist History.queued fun _ _ => List.prefix_rfl
    · show (if _ then _ else _ : History).delivered = _
      split <;> rfl
    · exact hhist History.ignored fun _ _ => List.prefix_rfl
    · exact hhist History.returned fun _ _ => List.prefix_append _ _
    · exact fun _ h => h
  have hd : (g (s.tcb s.head)).history.delivered = (s.tcb s.head).history.delivered := by
    show (if _ then _ else _ : History).delivered = _
    split <;> rfl
  show Turn m t signo base s (s.modify s.head g) .timedwait below []
  refine Turn.ofModify R.frames (by simp) hc.grow hc.pends rfl rfl (.inl hd) (by simp) ?_
  exact fun _ k _ _ _ hg => absurd hg (fun h => h)

theorem frame_turn (I : Inv s) (K : Kept s fun _ _ => 0) (hu : Unblocked s)
    (hpast : m.Past (s.tcb t)) (R : Ready s f below) (hruns : (s.tcb s.head).sigdeliver = false)
    (hset : ∀ info, f = .received s.head info .schedule →
      ∀ g ∈ (s.tcb s.head).frames, g.settled = true)
    (hk : f.keeps mem s) (hmem : ∀ m ∈ mem, m ∉ s.signalNodes)
    (he : frameStep mem f below s = some s') : ∃ new, Turn m t signo base s s' f below new := by
  unfold frameStep at he
  cases f with
  | received u info pc =>
    refine received_turn I K R hruns hpast ?_ hk hmem he
    intro hpc hu'
    subst hpc hu'
    exact hset info rfl
  | deliver sigq next save entry pc =>
    cases he
    exact deliver_turn I R hpast
  | unmaskStart =>
    cases he
    exact ⟨_, unmaskStart_turn K R rfl⟩
  | unmask set pendingsig =>
    cases he
    exact unmask_turn K R hu
  | suspend saved =>
    cases he
    exact ⟨_, suspend_turn R⟩
  | timedwait =>
    cases he
    exact ⟨_, timedwait_turn R⟩

end

end NuttxAvr32.Sig
