import NuttxAvr32.Sig.Booking

/-! # A signal on its way

From the time a signal is unblocked it is in one place after the other: an activation of
`sig_unmaskpendingsignal` is going to take it, `sig_received` has it, or its action is in
the queue and the delivery gets to it. What one step of the running task may do to it.
-/

namespace NuttxAvr32.Sig

open Owners Apart Runs

/-- The mask with which the task goes on when it has returned from the given activations. -/
def levelMask : List Frame → Sigset → Sigset
  | [], m => m
  | .deliver _ _ _ entry .handler :: fs, _ => levelMask fs entry
  | .suspend saved :: fs, _ => levelMask fs saved
  | _ :: fs, m => levelMask fs m

theorem levelMask_append (fs gs : List Frame) (m : Sigset) :
    levelMask (fs ++ gs) m = levelMask gs (levelMask fs m) := by
  induction fs generalizing m with
  | nil => rfl
  | cons f fs ih =>
    cases f with
    | deliver sigq next save entry pc => cases pc <;> exact ih _
    | _ => exact ih _

def State.Pends (s : State) (t signo : Nat) : Prop :=
  ∃ n ∈ (s.tcb t).sigpendingq, (s.sigpend n).info.siSigno = signo

structure Grow (s s' : State) : Prop where
  queued : ∀ t, (s.tcb t).history.queued <+: (s'.tcb t).history.queued
  delivered : ∀ t, (s.tcb t).history.delivered <+: (s'.tcb t).history.delivered
  ignored : ∀ t, (s.tcb t).history.ignored <+: (s'.tcb t).history.ignored
  returned : ∀ t, (s.tcb t).history.returned <+: (s'.tcb t).history.returned

/-- The histories grow, no handler is called and no pending signal is taken. -/
structure Calm (s s' : State) : Prop where
  grow : Grow s s'
  delivered : ∀ t, (s'.tcb t).history.delivered = (s.tcb t).history.delivered
  pends : ∀ t signo, s.Pends t signo → s'.Pends t signo

section

variable {s s' s'' : State} {t n : Nat} {info : Siginfo} {g : Tcb → Tcb} {fs : List Frame}

theorem prefix_of_eq {α : Type} {l l' : List α} (h : l = l') : l <+: l' := h ▸ List.prefix_rfl

theorem Grow.refl : Grow s s :=
  ⟨fun _ => List.prefix_rfl, fun _ => List.prefix_rfl, fun _ => List.prefix_rfl,
    fun _ => List.prefix_rfl⟩

theorem Grow.trans (h : Grow s s') (h' : Grow s' s'') : Grow s s'' :=
  ⟨fun t => (h.queued t).trans (h'.queued t), fun t => (h.delivered t).trans (h'.delivered t),
    fun t => (h.ignored t).trans (h'.ignored t), fun t => (h.returned t).trans (h'.returned t)⟩

theorem Calm.refl : Calm s s := ⟨.refl, fun _ => rfl, fun _ _ h => h⟩

theorem Calm.trans (h : Calm s s') (h' : Calm s' s'') : Calm s s'' :=
  ⟨h.grow.trans h'.grow, fun t => (h'.delivered t).trans (h.delivered t),
    fun t signo hp => h'.pends t signo (h.pends t signo hp)⟩

theorem grow_modify (h1 : (s.tcb t).history.queued <+: (g (s.tcb t)).history.queued)
    (h2 : (s.tcb t).history.delivered <+: (g (s.tcb t)).history.delivered)
    (h3 : (s.tcb t).history.ignored <+: (g (s.tcb t)).history.ignored)
    (h4 : (s.tcb t).history.returned <+: (g (s.tcb t)).history.returned) :
    Grow s (s.modify t g) := by
  have hall : ∀ {α : Type} (p : History → List α), p (s.tcb t).history <+: p (g (s.tcb t)).history →
      ∀ u, p (s.tcb u).history <+: p ((s.modify t g).tcb u).history := by
    intro α p hp u
    by_cases hu : u = t
    · subst hu
      rw [modify_tcb_same]
      exact hp
    · exact prefix_of_eq (by rw [modify_tcb_of_ne hu])
  exact ⟨hall History.queued h1, hall History.delivered h2, hall History.ignored h3,
    hall History.returned h4⟩

theorem calm_modify (h1 : (s.tcb t).history.queued <+: (g (s.tcb t)).history.queued)
    (h2 : (g (s.tcb t)).history.delivered = (s.tcb t).history.delivered)
    (h3 : (s.tcb t).history.ignored <+: (g (s.tcb t)).history.ignored)
    (h4 : (s.tcb t).history.returned <+: (g (s.tcb t)).history.returned)
    (h5 : (s.tcb t).sigpendingq ⊆ (g (s.tcb t)).sigpendingq) : Calm s (s.modify t g) := by
  refine ⟨grow_modify h1 (prefix_of_eq h2.symm) h3 h4,
    modify_field (fun c => c.history.delivered) h2, fun u signo hp => ?_⟩
  obtain ⟨m, hm, hs⟩ := hp
  refine ⟨m, ?_, hs⟩
  by_cases hu : u = t
  · subst hu
    rw [modify_tcb_same]
    exact h5 hm
  · rw [modify_tcb_of_ne hu]
    exact hm

theorem calm_tcb {s1 : State} (htcb : s1.tcb = s.tcb)
    (hinfo : ∀ m, (s1.sigpend m).info.siSigno = (s.sigpend m).info.siSigno) : Calm s s1 := by
  have hall : ∀ {α : Type} (p : History → List α) (u : Nat),
      p (s.tcb u).history <+: p (s1.tcb u).history := by
    exact fun p u => prefix_of_eq (by rw [htcb])
  refine ⟨⟨hall History.queued, hall History.delivered, hall History.ignored,
    hall History.returned⟩, fun t => by rw [htcb], fun t signo hp => ?_⟩
  obtain ⟨m, hm, hs⟩ := hp
  exact ⟨m, by rw [htcb]; exact hm, (hinfo m).trans hs⟩

theorem calm_frames : Calm s (s.frames fs) := by
  unfold State.frames
  apply calm_modify <;> first | exact List.prefix_rfl | rfl | exact fun _ h => h

theorem calm_accept : Calm s (accept t info s) := by
  unfold accept
  apply calm_modify <;> first | exact List.prefix_rfl | rfl | exact fun _ h => h

theorem calm_ignore : Calm s (ignore t info s) := by
  unfold ignore
  apply calm_modify
  · exact List.prefix_rfl
  · rfl
  · exact List.prefix_append _ _
  · exact List.prefix_rfl
  · exact fun _ h => h

theorem calm_wakeWith : Calm s (wakeWith t info s) := by
  unfold wakeWith
  apply calm_modify <;> first | exact List.prefix_rfl | rfl | exact fun _ h => h

theorem calm_wakeWaiter : Calm s (wakeWaiter t info s) := by
  unfold wakeWaiter
  split
  · exact calm_wakeWith
  · exact .refl

theorem calm_flag : Calm s (flagSigaction t s) := by
  unfold flagSigaction
  apply calm_modify <;> first | exact List.prefix_rfl | rfl | exact fun _ h => h

theorem calm_addAction {sigact : Sigact} : Calm s (addAction t info sigact n s) := by
  have h1 : Calm s { s with sigq := Function.update s.sigq n { s.sigq n with
      act := ⟨sigact.sigaction, info⟩
      mask := sigact.saMask } } := calm_tcb rfl fun _ => rfl
  apply h1.trans
  apply calm_modify
  · exact List.prefix_append _ _
  · rfl
  · exact List.prefix_rfl
  · exact List.prefix_rfl
  · exact fun _ h => h

theorem calm_copyPending (hno : (s.sigpend n).info.siSigno = info.siSigno) :
    Calm s (copyPending t info n s) := by
  have h1 : Calm s { s with sigpend := Function.update s.sigpend n { s.sigpend n with info } } := by
    apply calm_tcb
    · rfl
    intro m
    show (Function.update s.sigpend n { s.sigpend n with info } m).info.siSigno = _
    by_cases hm : m = n
    · subst hm
      rw [Function.update_self]
      exact hno.symm
    · rw [Function.update_of_ne hm]
  apply h1.trans
  apply calm_modify
  · exact List.prefix_rfl
  · rfl
  · exact List.prefix_rfl
  · exact List.prefix_rfl
  · exact fun _ h => h

theorem calm_addPending (hn : ∀ u, n ∉ (s.tcb u).sigpendingq) : Calm s (addPending t info n s) := by
  let s1 : State := { s with sigpend := Function.update s.sigpend n { s.sigpend n with info } }
  let g : Tcb → Tcb := fun c => { c with sigpendingq := c.sigpendingq ++ [n] }
  have h1 : Grow s s1 :=
    ⟨fun _ => List.prefix_rfl, fun _ => List.prefix_rfl, fun _ => List.prefix_rfl,
      fun _ => List.prefix_rfl⟩
  have hg : Grow s (s1.modify t g) := by
    apply h1.trans
    apply grow_modify <;> exact List.prefix_rfl
  refine ⟨hg, fun u => modify_field (s := s1) (fun c => c.history.delivered) rfl u,
    fun u signo hp => ?_⟩
  obtain ⟨m, hm, hs⟩ := hp
  have hmn : m ≠ n := fun h => hn u (h ▸ hm)
  refine ⟨m, ?_, ?_⟩
  · show m ∈ ((s1.modify t g).tcb u).sigpendingq
    by_cases hu : u = t
    · subst hu
      rw [modify_tcb_same]
      exact List.mem_append_left _ hm
    · rw [modify_tcb_of_ne hu]
      exact hm
  · show (Function.update s.sigpend n { s.sigpend n with info } m).info.siSigno = signo
    rw [Function.update_of_ne hmn]
    exact hs

theorem release_tcb : (sigReleasependingsignal n s).tcb = s.tcb ∧
    (sigReleasependingsignal n s).tasks = s.tasks ∧ (sigReleasependingsignal n s).head = s.head ∧
      (sigReleasependingsignal n s).sigpend = s.sigpend := by
  unfold sigReleasependingsignal
  split <;> exact ⟨rfl, rfl, rfl, rfl⟩

theorem calm_release : Calm s (sigReleasependingsignal n s) :=
  calm_tcb release_tcb.1 fun m => by rw [release_tcb.2.2.2]

end

/-- From this activation of `sig_deliver` the loop gets to the action with number `k` of those
that were ever queued, when `l` have been delivered. -/
def Frame.Gets (k l : Nat) : Frame → Prop
  | .deliver (some _) _ _ _ .fetch => True
  | .deliver (some _) next _ _ .dequeue => next = none → k ≤ l
  | .deliver (some _) next _ _ .call => next = none → k ≤ l
  | .deliver (some _) next _ _ _ => next ≠ none
  | _ => False

/-- A signal of this number comes after the first `m` of the list. -/
def After {α : Type} (key : α → Nat) (signo m : Nat) (l : List α) : Prop :=
  ∃ k, m ≤ k ∧ ∃ a, l[k]? = some a ∧ key a = signo

structure Mark where
  delivered : Nat
  ignored : Nat
  returned : Nat

def Tcb.mark (c : Tcb) : Mark :=
  ⟨c.history.delivered.length, c.history.ignored.length, c.history.returned.length⟩

/-- Since the mark the handler for a signal of this number has run, or there was no handler,
or `sigtimedwait` has returned the signal. -/
def Passed (k : Mark) (signo : Nat) (c : Tcb) : Prop :=
  After (fun a => a.info.siSigno) signo k.delivered c.history.delivered ∨
    After Siginfo.siSigno signo k.ignored c.history.ignored ∨
      After Siginfo.siSigno signo k.returned c.history.returned

/-- The activation of `sig_unmaskpendingsignal` above `base` is going to take the signal. -/
structure Owed (s : State) (t signo : Nat) (pre base : List Frame) (f : Frame) : Prop where
  frames : (s.tcb t).frames = pre ++ f :: base
  pends : s.Pends t signo
  unblocked : sigismember (levelMask pre (s.tcb t).sigprocmask) signo = false
  takes : f = .unmaskStart ∨ ∃ set p, f = .unmask set p ∧ sigismember set signo = true

structure Flying (s : State) (t signo : Nat) (pre rest : List Frame) (info : Siginfo) (pc : RecvPc) :
    Prop where
  frames : (s.tcb t).frames = pre ++ .received t info pc :: rest
  number : info.siSigno = signo
  pc : pc = .start ∧ sigismember (levelMask pre (s.tcb t).sigprocmask) signo = false ∨
    pc = .allocAction ∨ ∃ sigact n, pc = .addAction sigact n

/-- The action with number `k` is in the queue, and the activation `f` is going to schedule
its delivery or gets to it. -/
structure InQueue (s : State) (t signo k : Nat) (pre rest : List Frame) (f : Frame) : Prop where
  frames : (s.tcb t).frames = pre ++ f :: rest
  action : ∃ a, (s.tcb t).history.queued[k]? = some a ∧ a.info.siSigno = signo
  waits : (s.tcb t).history.delivered.length ≤ k
  gets : f.Gets k (s.tcb t).history.delivered.length ∨
    pre = [] ∧ ∃ info, f = .received t info .schedule

/-- What becomes of a signal between the mark and the return to `base`. -/
inductive OnWay (m : Mark) (t signo : Nat) (base : List Frame) (s : State) : Prop
  | passed : Passed m signo (s.tcb t) → OnWay m t signo base s
  | owed (pre : List Frame) (f : Frame) : Owed s t signo pre base f → OnWay m t signo base s
  | flying (pre rest : List Frame) (info : Siginfo) (pc : RecvPc) :
      Flying s t signo pre rest info pc → base <:+ rest → OnWay m t signo base s
  | inQueue (k : Nat) (pre rest : List Frame) (f : Frame) :
      InQueue s t signo k pre rest f → m.delivered ≤ k → base <:+ rest → OnWay m t signo base s

structure Mark.Past (m : Mark) (c : Tcb) : Prop where
  delivered : m.delivered ≤ c.history.delivered.length
  ignored : m.ignored ≤ c.history.ignored.length
  returned : m.returned ≤ c.history.returned.length

/-- No activation of `sig_unmaskpendingsignal` is going to take a blocked signal. -/
def Unblocked (s : State) : Prop :=
  ∀ t pre set p rest, (s.tcb t).frames = pre ++ .unmask set p :: rest →
    ∀ signo, sigismember set signo = true →
      sigismember (levelMask pre (s.tcb t).sigprocmask) signo = false

section

variable {s s' : State} {m : Mark} {t n k signo : Nat} {info : Siginfo} {g : Tcb → Tcb}
  {f : Frame} {fs pre rest base below new : List Frame} {pc : RecvPc}

theorem After.mono {α : Type} {key : α → Nat} {signo m : Nat} {l l' : List α}
    (h : After key signo m l) (hp : l <+: l') : After key signo m l' := by
  obtain ⟨k, hk, a, ha, hs⟩ := h
  obtain ⟨r, rfl⟩ := hp
  have hlt := (List.getElem?_eq_some_iff.mp ha).1
  exact ⟨k, hk, a, by rw [List.getElem?_append_left hlt]; exact ha, hs⟩

theorem after_append {α : Type} {key : α → Nat} {signo m : Nat} {l : List α} {a : α}
    (hm : m ≤ l.length) (ha : key a = signo) : After key signo m (l ++ [a]) :=
  ⟨l.length, hm, a, by simp, ha⟩

theorem Passed.mono (h : Passed m signo (s.tcb t)) (hg : Grow s s') : Passed m signo (s'.tcb t) := by
  rcases h with h | h | h
  · exact .inl (h.mono (hg.delivered t))
  · exact .inr (.inl (h.mono (hg.ignored t)))
  · exact .inr (.inr (h.mono (hg.returned t)))

theorem Mark.Past.mono (h : m.Past (s.tcb t)) (hg : Grow s s') : m.Past (s'.tcb t) :=
  ⟨Nat.le_trans h.delivered (hg.delivered t).length_le,
    Nat.le_trans h.ignored (hg.ignored t).length_le,
    Nat.le_trans h.returned (hg.returned t).length_le⟩

theorem OnWay.calm (h : OnWay m t signo base s) (hg : Grow s s')
    (hd : (s'.tcb t).history.delivered = (s.tcb t).history.delivered)
    (hp : s.Pends t signo → s'.Pends t signo ∨ Passed m signo (s'.tcb t))
    (hf : (s'.tcb t).frames = (s.tcb t).frames)
    (hm : (s'.tcb t).sigprocmask = (s.tcb t).sigprocmask) : OnWay m t signo base s' := by
  cases h with
  | passed h => exact .passed (h.mono hg)
  | owed pre f ho =>
    rcases hp ho.pends with hp | hp
    · refine .owed pre f ⟨hf.trans ho.frames, hp, ?_, ho.takes⟩
      rw [hm]
      exact ho.unblocked
    · exact .passed hp
  | flying pre rest info pc hfl hb =>
    refine .flying pre rest info pc ⟨hf.trans hfl.frames, hfl.number, ?_⟩ hb
    rw [hm]
    exact hfl.pc
  | inQueue k pre rest f hq hk hb =>
    obtain ⟨a, ha, hs⟩ := hq.action
    obtain ⟨r, hr⟩ := hg.queued t
    refine .inQueue k pre rest f ⟨hf.trans hq.frames, ⟨a, ?_, hs⟩, ?_, ?_⟩ hk hb
    · rw [← hr, List.getElem?_append_left (List.getElem?_eq_some_iff.mp ha).1]
      exact ha
    · rw [hd]
      exact hq.waits
    · rw [hd]
      exact hq.gets

theorem cons_eq_append {f : Frame} {below pre rest : List Frame} {x : Frame}
    (h : f :: below = pre ++ x :: rest) :
    pre = [] ∧ f = x ∧ below = rest ∨ ∃ pre', pre = f :: pre' ∧ below = pre' ++ x :: rest := by
  cases pre with
  | nil =>
    cases h
    exact .inl ⟨rfl, rfl, rfl⟩
  | cons y pre' =>
    cases h
    exact .inr ⟨pre', rfl, rfl⟩

theorem levelMask_swap {m m' : Sigset} (h : levelMask new m' = levelMask [f] m) (pre : List Frame) :
    levelMask (new ++ pre) m' = levelMask (f :: pre) m := by
  rw [levelMask_append, h, ← levelMask_append]
  rfl

/-- What a step of the innermost activation `f` of the running task does, with what becomes
of the signal when `f` has it. -/
structure Turn (m : Mark) (t signo : Nat) (base : List Frame) (s s' : State) (f : Frame)
    (below new : List Frame) : Prop where
  grow : Grow s s'
  other : ∀ v, v ≠ s.head → (s'.tcb v).frames = (s.tcb v).frames ∧
    (s'.tcb v).sigprocmask = (s.tcb v).sigprocmask ∧
    (s'.tcb v).history.delivered = (s.tcb v).history.delivered ∧
    ∀ n, s.Pends v n → s'.Pends v n
  old : (s.tcb s.head).frames = f :: below
  frames : (s'.tcb s.head).frames = new ++ below
  level : levelMask new (s'.tcb s.head).sigprocmask = levelMask [f] (s.tcb s.head).sigprocmask
  pends : t = s.head → s.Pends t signo → s'.Pends t signo ∨
    (base <:+ below → OnWay m t signo base s')
  delivered : (s'.tcb s.head).history.delivered = (s.tcb s.head).history.delivered ∨
    ∀ x ∈ below, ∀ k l, ¬x.Gets k l
  unmasks : ∀ pre set p rest, new = pre ++ .unmask set p :: rest → ∀ n, sigismember set n = true →
    sigismember (levelMask pre (s'.tcb s.head).sigprocmask) n = false
  owed : t = s.head → Owed s t signo [] base f → below = base → OnWay m t signo base s'
  flying : t = s.head → ∀ info pc, f = .received t info pc → Flying s t signo [] below info pc →
    base <:+ below → OnWay m t signo base s'
  inQueue : t = s.head → ∀ k, InQueue s t signo k [] below f → m.delivered ≤ k →
    base <:+ below → OnWay m t signo base s'

theorem suffix_of_eq {fs pre rest : List Frame} {x : Frame} (h : fs = pre ++ x :: rest) :
    rest <:+ fs := ⟨pre ++ [x], by rw [h, List.append_assoc]; rfl⟩

theorem Turn.onWay (T : Turn m t signo base s s' f below new) (h : OnWay m t signo base s) :
    OnWay m t signo base s' := by
  by_cases ht : t = s.head
  · have hframes : (s.tcb t).frames = f :: below := ht ▸ T.old
    have hframes' : (s'.tcb t).frames = new ++ below := ht ▸ T.frames
    have hlevel : levelMask new (s'.tcb t).sigprocmask = levelMask [f] (s.tcb t).sigprocmask :=
      ht ▸ T.level
    cases h with
    | passed hp => exact .passed (hp.mono T.grow)
    | owed pre x ho =>
      rcases cons_eq_append (hframes.symm.trans ho.frames) with ⟨rfl, rfl, hb⟩ | ⟨pre', rfl, hb⟩
      · exact T.owed ht ho hb
      · rcases T.pends ht ho.pends with hp | hp
        · refine .owed (new ++ pre') x ⟨?_, hp, ?_, ho.takes⟩
          · rw [hframes', hb, List.append_assoc]
          · rw [levelMask_swap hlevel]
            exact ho.unblocked
        · exact hp (suffix_of_eq hb)
    | flying pre rest info pc hfl hbase =>
      rcases cons_eq_append (hframes.symm.trans hfl.frames) with ⟨rfl, hx, hb⟩ | ⟨pre', rfl, hb⟩
      · subst hb
        exact T.flying ht info pc hx hfl hbase
      · refine .flying (new ++ pre') rest info pc ⟨?_, hfl.number, ?_⟩ hbase
        · rw [hframes', hb, List.append_assoc]
        · rw [levelMask_swap hlevel]
          exact hfl.pc
    | inQueue k pre rest x hq hk hbase =>
      rcases cons_eq_append (hframes.symm.trans hq.frames) with ⟨rfl, hx, hb⟩ | ⟨pre', rfl, hb⟩
      · subst hb hx
        exact T.inQueue ht k hq hk hbase
      · have hgets : x.Gets k (s.tcb t).history.delivered.length := by
          rcases hq.gets with hg | ⟨hnil, -⟩
          · exact hg
          · cases hnil
        have hd : (s'.tcb t).history.delivered = (s.tcb t).history.delivered := by
          rcases T.delivered with hd | hd
          · exact ht ▸ hd
          · have hmem : x ∈ below := by
              rw [hb]
              exact List.mem_append_right _ List.mem_cons_self
            exact absurd hgets (hd x hmem _ _)
        obtain ⟨a, ha, hs⟩ := hq.action
        obtain ⟨r, hr⟩ := T.grow.queued t
        refine .inQueue k (new ++ pre') rest x ⟨?_, ⟨a, ?_, hs⟩, ?_, .inl ?_⟩ hk hbase
        · rw [hframes', hb, List.append_assoc]
        · rw [← hr, List.getElem?_append_left (List.getElem?_eq_some_iff.mp ha).1]
          exact ha
        · rw [hd]
          exact hq.waits
        · rw [hd]
          exact hgets
  · obtain ⟨h1, h2, h3, h4⟩ := T.other t ht
    exact h.calm T.grow h3 (fun hp => .inl (h4 signo hp)) h1 h2

theorem append_eq_append_cons {new below pre rest : List Frame} {x : Frame}
    (h : new ++ below = pre ++ x :: rest) : (∃ r, new = pre ++ x :: r) ∨
      ∃ pre', pre = new ++ pre' ∧ below = pre' ++ x :: rest := by
  rcases List.append_eq_append_iff.mp h with ⟨q, rfl, hq⟩ | ⟨q, rfl, hq⟩
  · exact .inr ⟨q, rfl, hq⟩
  · cases q with
    | nil => exact .inr ⟨[], by simp, hq.symm⟩
    | cons y q =>
      cases hq
      exact .inl ⟨q, rfl⟩

theorem Turn.keepsUnblocked (T : Turn m t signo base s s' f below new) (hu : Unblocked s) :
    Unblocked s' := by
  intro v pre set p rest hv n hn
  by_cases hh : v = s.head
  · subst hh
    rw [T.frames] at hv
    rcases append_eq_append_cons hv with ⟨r, hnew⟩ | ⟨pre', rfl, hb⟩
    · exact T.unmasks pre set p r hnew n hn
    · rw [levelMask_swap T.level]
      apply hu s.head (f :: pre') set p rest _ n hn
      rw [T.old, hb]
      rfl
  · obtain ⟨h1, h2, -, -⟩ := T.other v hh
    rw [h1] at hv
    rw [h2]
    exact hu v pre set p rest hv n hn

theorem Turn.ofCalm (new : List Frame) {s1 : State} (hc : Calm s s1) (hs : SameFrames s s1)
    (hold : (s.tcb s.head).frames = f :: below) (hlevel : ∀ x, levelMask new x = levelMask [f] x)
    (hun : ∀ pre set p rest, new = pre ++ .unmask set p :: rest → ∀ n, sigismember set n = true →
      sigismember (levelMask pre (s.tcb s.head).sigprocmask) n = false)
    (owed : t = s.head → Owed s t signo [] base f → below = base →
      OnWay m t signo base (s1.frames (new ++ below)))
    (flying : t = s.head → ∀ info pc, f = .received t info pc →
      Flying s t signo [] below info pc → base <:+ below →
        OnWay m t signo base (s1.frames (new ++ below)))
    (inQueue : t = s.head → ∀ k, InQueue s t signo k [] below f → m.delivered ≤ k →
      base <:+ below → OnWay m t signo base (s1.frames (new ++ below))) :
    Turn m t signo base s (s1.frames (new ++ below)) f below new := by
  have hc' : Calm s (s1.frames (new ++ below)) := hc.trans calm_frames
  have hmask : ((s1.frames (new ++ below)).tcb s.head).sigprocmask =
      (s.tcb s.head).sigprocmask :=
    (modify_field Tcb.sigprocmask rfl s.head).trans (hs.mask s.head)
  refine ⟨hc'.grow, fun v hv => ⟨?_, ?_, hc'.delivered v, hc'.pends v⟩, hold, ?_, ?_,
    fun _ hp => .inl (hc'.pends t signo hp), .inl (hc'.delivered _), ?_, owed, flying, inQueue⟩
  · have hne : v ≠ s1.head := by
      rw [hs.head]
      exact hv
    unfold State.frames
    rw [modify_tcb_of_ne hne]
    exact hs.frames v
  · exact (modify_field Tcb.sigprocmask rfl v).trans (hs.mask v)
  · unfold State.frames
    rw [hs.head, modify_tcb_same]
  · rw [hmask]
    exact hlevel _
  · rw [hmask]
    exact hun

/-- A function begins on the running task: one that its own code or a handler calls, or
`up_sigdeliver`. -/
structure Push (m : Mark) (t signo : Nat) (base : List Frame) (s s' : State) (x : Frame) : Prop where
  grow : Grow s s'
  other : ∀ v, v ≠ s.head → (s'.tcb v).frames = (s.tcb v).frames ∧
    (s'.tcb v).sigprocmask = (s.tcb v).sigprocmask
  delivered : ∀ v, (s'.tcb v).history.delivered = (s.tcb v).history.delivered
  pends : ∀ v n, s.Pends v n → s'.Pends v n
  frames : (s'.tcb s.head).frames = x :: (s.tcb s.head).frames
  level : ∀ pre y rest, (s.tcb s.head).frames = pre ++ y :: rest → y.inHandler = false →
    levelMask (x :: pre) (s'.tcb s.head).sigprocmask = levelMask pre (s.tcb s.head).sigprocmask
  unmask : ∀ set p, x ≠ .unmask set p
  schedule : t = s.head → ∀ k info rest, InQueue s t signo k [] rest (.received t info .schedule) →
    m.delivered ≤ k → base <:+ rest → OnWay m t signo base s'

theorem Push.onWay {x : Frame} (T : Push m t signo base s s' x) (h : OnWay m t signo base s) :
    OnWay m t signo base s' := by
  by_cases ht : t = s.head
  · have hframes' : (s'.tcb t).frames = x :: (s.tcb t).frames := by
      rw [ht]
      exact T.frames
    have hlevel : ∀ pre y rest, (s.tcb t).frames = pre ++ y :: rest → y.inHandler = false →
        levelMask (x :: pre) (s'.tcb t).sigprocmask = levelMask pre (s.tcb t).sigprocmask := by
      rw [ht]
      exact T.level
    cases h with
    | passed hp => exact .passed (hp.mono T.grow)
    | owed pre f ho =>
      refine .owed (x :: pre) f ⟨?_, T.pends t signo ho.pends, ?_, ho.takes⟩
      · rw [hframes', ho.frames]
        rfl
      · rw [hlevel pre f base ho.frames]
        · exact ho.unblocked
        · rcases ho.takes with rfl | ⟨set, p, rfl, -⟩ <;> rfl
    | flying pre rest info pc hfl hb =>
      refine .flying (x :: pre) rest info pc ⟨?_, hfl.number, ?_⟩ hb
      · rw [hframes', hfl.frames]
        rfl
      · rw [hlevel pre _ rest hfl.frames rfl]
        exact hfl.pc
    | inQueue k pre rest f hq hk hb =>
      rcases hq.gets with hg | ⟨rfl, info, rfl⟩
      · obtain ⟨a, ha, hs⟩ := hq.action
        obtain ⟨r, hr⟩ := T.grow.queued t
        refine .inQueue k (x :: pre) rest f ⟨?_, ⟨a, ?_, hs⟩, ?_, .inl ?_⟩ hk hb
        · rw [hframes', hq.frames]
          rfl
        · rw [← hr, List.getElem?_append_left (List.getElem?_eq_some_iff.mp ha).1]
          exact ha
        · rw [T.delivered]
          exact hq.waits
        · rw [T.delivered]
          exact hg
      · exact T.schedule ht k info rest hq hk hb
  · obtain ⟨h1, h2⟩ := T.other t ht
    exact h.calm T.grow (T.delivered t) (fun hp => .inl (T.pends t signo hp)) h1 h2

theorem Push.keepsUnblocked {x : Frame} (T : Push m t signo base s s' x) (hu : Unblocked s) :
    Unblocked s' := by
  intro v pre set p rest hv n hn
  by_cases hh : v = s.head
  · subst hh
    rw [T.frames] at hv
    rcases cons_eq_append hv with ⟨-, hx, -⟩ | ⟨pre', rfl, hb⟩
    · exact absurd hx (T.unmask set p)
    · rw [T.level pre' _ rest hb rfl]
      exact hu s.head pre' set p rest hb n hn
  · obtain ⟨h1, h2⟩ := T.other v hh
    rw [h1] at hv
    rw [h2]
    exact hu v pre set p rest hv n hn

theorem level_user (hu : (s.tcb s.head).inUser = true) {x : Frame}
    (hx : ∀ mask pre, levelMask (x :: pre) mask = levelMask pre (levelMask [x] mask))
    (mask : Sigset) : ∀ pre y rest, (s.tcb s.head).frames = pre ++ y :: rest →
      y.inHandler = false →
        levelMask (x :: pre) mask = levelMask pre (s.tcb s.head).sigprocmask := by
  intro pre y rest hf hy
  unfold Tcb.inUser at hu
  rw [hf] at hu
  cases pre with
  | nil =>
    have h : y.inHandler = true := by simpa using hu
    rw [hy] at h
    cases h
  | cons z pre =>
    have h : z.inHandler = true := by simpa using hu
    rw [hx]
    cases z with
    | deliver sigq next save entry pc =>
      cases pc with
      | handler => rfl
      | _ => cases h
    | _ => cases h

theorem not_schedule_user (hu : (s.tcb s.head).inUser = true) {k : Nat} {rest : List Frame}
    (hq : InQueue s s.head signo k [] rest (.received s.head info .schedule)) : False := by
  unfold Tcb.inUser at hu
  rw [hq.frames] at hu
  cases hu

end

end NuttxAvr32.Sig
