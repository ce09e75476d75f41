import NuttxAvr32.Sig.Actions

/-! # Signal actions run exactly once

The steps of the signal functions keep the invariant of the action queues as long as no
activation of `sig_deliver` begins while another one on the same task still has an
action to deliver.
-/

namespace NuttxAvr32.Sig

open Owners Runs
open Function (update update_self update_of_ne update_eq_self)

/-- With these activations and this mask, each `sig_deliver` returns with the mask with
which it was entered. -/
def MaskOk : List Frame → Sigset → Prop
  | [], _ => True
  | .deliver _ _ save entry .handler :: fs, _ => save = entry ∧ MaskOk fs entry
  | .deliver _ _ _ entry _ :: fs, m => m = entry ∧ MaskOk fs m
  | .suspend saved :: fs, _ => MaskOk fs saved
  | _ :: fs, m => MaskOk fs m

theorem MaskOk.inUser {c : Tcb} {m m' : Sigset} (h : MaskOk c.frames m) (hu : c.inUser = true) :
    MaskOk c.frames m' := by
  cases hf : c.frames with
  | nil => trivial
  | cons f fs =>
    rw [hf] at h
    have hh : f.inHandler = true := by
      unfold Tcb.inUser at hu
      rw [hf] at hu
      simpa using hu
    cases f with
    | deliver sigq next save entry pc => cases pc <;> simp_all [Frame.inHandler, MaskOk]
    | _ => simp [Frame.inHandler] at hh

structure SameFrames (s s' : State) : Prop where
  tasks : s'.tasks = s.tasks
  head : s'.head = s.head
  broken : s'.broken = s.broken
  frames : ∀ t, (s'.tcb t).frames = (s.tcb t).frames
  mask : ∀ t, (s'.tcb t).sigprocmask = (s.tcb t).sigprocmask

section

variable {s s' s'' : State} {t : Nat} {f : Tcb → Tcb} {fs : List Frame}

theorem SameFrames.refl : SameFrames s s := ⟨rfl, rfl, rfl, fun _ => rfl, fun _ => rfl⟩

theorem SameFrames.trans (h : SameFrames s s') (h' : SameFrames s' s'') : SameFrames s s'' :=
  ⟨h'.tasks.trans h.tasks, h'.head.trans h.head, h'.broken.trans h.broken,
    fun t => (h'.frames t).trans (h.frames t), fun t => (h'.mask t).trans (h.mask t)⟩

theorem modify_tcb_same : (s.modify t f).tcb t = f (s.tcb t) := update_self ..

theorem modify_tcb_of_ne {u : Nat} (h : u ≠ t) : (s.modify t f).tcb u = s.tcb u :=
  update_of_ne h ..

theorem sameFrames_modify (hf : (f (s.tcb t)).frames = (s.tcb t).frames)
    (hm : (f (s.tcb t)).sigprocmask = (s.tcb t).sigprocmask) : SameFrames s (s.modify t f) := by
  constructor
  · rfl
  · rfl
  · rfl
  · intro u
    by_cases h : u = t
    · subst h
      rw [modify_tcb_same]
      exact hf
    · rw [modify_tcb_of_ne h]
  · intro u
    by_cases h : u = t
    · subst h
      rw [modify_tcb_same]
      exact hm
    · rw [modify_tcb_of_ne h]

theorem core_modify : (s.modify t f).core =
    s.core.setView t (f (s.tcb t)).view s.core.free := by
  show Core.mk _ _ _ _ = Core.mk _ _ _ _
  congr 1
  funext u
  by_cases h : u = t
  · subst h
    rw [modify_tcb_same, update_self]
  · rw [modify_tcb_of_ne h, update_of_ne h]
    rfl

theorem setView_self (c : Core) : c.setView t (c.view t) c.free = c := by
  unfold Core.setView
  rw [update_eq_self]

theorem core_modify_same (h : (f (s.tcb t)).view = (s.tcb t).view) :
    (s.modify t f).core = s.core := by
  rw [core_modify, h]
  exact setView_self s.core

theorem core_frames : (s.frames fs).core = s.core.setView s.head
    { s.core.view s.head with active := fs.filter Frame.active } s.core.free := core_modify

/-- A step leaves the action queues and the activations as they are. -/
structure Quiet (s s' : State) : Prop where
  same : SameFrames s s'
  core : s'.core = s.core

theorem Quiet.refl : Quiet s s := ⟨.refl, rfl⟩

theorem Quiet.trans (h : Quiet s s') (h' : Quiet s' s'') : Quiet s s'' :=
  ⟨h.same.trans h'.same, h'.core.trans h.core⟩

theorem quiet_modify (hf : (f (s.tcb t)).frames = (s.tcb t).frames)
    (hm : (f (s.tcb t)).sigprocmask = (s.tcb t).sigprocmask)
    (hv : (f (s.tcb t)).view = (s.tcb t).view) : Quiet s (s.modify t f) :=
  ⟨sameFrames_modify hf hm, core_modify_same hv⟩

theorem quiet_accept (t : Nat) (info : Siginfo) (s : State) : Quiet s (accept t info s) :=
  quiet_modify rfl rfl rfl

theorem quiet_ignore (t : Nat) (info : Siginfo) (s : State) : Quiet s (ignore t info s) :=
  quiet_modify rfl rfl rfl

theorem quiet_wakeWith (t : Nat) (info : Siginfo) (s : State) : Quiet s (wakeWith t info s) :=
  quiet_modify rfl rfl rfl

theorem quiet_wakeWaiter (t : Nat) (info : Siginfo) (s : State) :
    Quiet s (wakeWaiter t info s) := by
  unfold wakeWaiter
  split
  · exact quiet_wakeWith t info s
  · exact .refl

theorem quiet_sigpend (g : Nat → Sigpendq) : Quiet s { s with sigpend := g } :=
  ⟨⟨rfl, rfl, rfl, fun _ => rfl, fun _ => rfl⟩, rfl⟩

theorem quiet_copyPending (t : Nat) (info : Siginfo) (n : Nat) (s : State) :
    Quiet s (copyPending t info n s) := by
  apply Quiet.trans (quiet_sigpend _)
  apply quiet_modify
  · rfl
  · rfl
  · rfl

theorem quiet_addPending (t : Nat) (info : Siginfo) (n : Nat) (s : State) :
    Quiet s (addPending t info n s) := by
  apply Quiet.trans (quiet_sigpend _)
  apply quiet_modify
  · rfl
  · rfl
  · rfl

theorem quiet_pools (l l' : List Nat) (g : Nat → Sigpendq) :
    Quiet s { s with gSigpendingsignal := l, gSigpendingirqsignal := l', sigpend := g } :=
  ⟨⟨rfl, rfl, rfl, fun _ => rfl, fun _ => rfl⟩, rfl⟩

theorem quiet_allocatependingsignal (irq : Bool) (mem : Option Nat) (s : State) :
    Quiet s (sigAllocatependingsignal irq mem s).1 := by
  unfold sigAllocatependingsignal
  split
  · exact quiet_pools _ _ _
  · split
    · exact quiet_pools _ _ _
    · split
      · exact quiet_pools _ _ _
      · exact .refl

theorem quiet_releasependingsignal (n : Nat) (s : State) :
    Quiet s (sigReleasependingsignal n s) := by
  unfold sigReleasependingsignal
  split
  · exact quiet_pools _ _ _
  · exact quiet_pools _ _ _
  · exact .refl

theorem quiet_removependingsignal (t signo : Nat) (s : State) :
    Quiet s (sigRemovependingsignal t signo s).1 := by
  unfold sigRemovependingsignal
  split
  · dsimp only
    apply quiet_modify
    · rfl
    · rfl
    · rfl
  · exact .refl

end

structure Inv (s : State) : Prop where
  core : s.core.Inv
  head : s.head ∈ s.tasks
  targets : ∀ t ∈ s.tasks, ∀ f ∈ (s.tcb t).frames, ∀ u info pc, f = .received u info pc → u ∈ s.tasks
  masks : ∀ t ∈ s.tasks, MaskOk (s.tcb t).frames (s.tcb t).sigprocmask
  broken : s.broken = false

section

variable {s s' : State} {t : Nat} {f : Frame} {fs gs below : List Frame}

structure Inv.Next (s : State) (fs : List Frame) (m : Sigset) : Prop where
  targets : ∀ f ∈ fs, ∀ u info pc, f = .received u info pc → u ∈ s.tasks
  mask : MaskOk fs m

theorem Inv.quiet (I : Inv s) (h : Quiet s s') : Inv s' := by
  constructor
  · rw [h.core]
    exact I.core
  · rw [h.same.head, h.same.tasks]
    exact I.head
  · intro t ht f hf
    rw [h.same.tasks] at ht ⊢
    rw [h.same.frames] at hf
    exact I.targets t ht f hf
  · intro t ht
    rw [h.same.tasks] at ht
    rw [h.same.frames, h.same.mask]
    exact I.masks t ht
  · exact h.same.broken.trans I.broken

theorem Inv.targets_below (I : Inv s) (hf : (s.tcb s.head).frames = f :: below) :
    ∀ g ∈ below, ∀ u info pc, g = .received u info pc → u ∈ s.tasks := by
  intro g hg
  apply I.targets s.head I.head g
  rw [hf]
  exact List.mem_cons_of_mem _ hg

/-- After a step that kept the activations, the running task is given other ones and
another mask, with queues for which the invariant is known. -/
theorem Inv.modifyFrom (I : Inv s) (hs : SameFrames s s') {g : Tcb → Tcb}
    (hc : (s'.modify s.head g).core.Inv)
    (hn : Inv.Next s (g (s'.tcb s.head)).frames (g (s'.tcb s.head)).sigprocmask) :
    Inv (s'.modify s.head g) := by
  have htasks : (s'.modify s.head g).tasks = s.tasks := hs.tasks
  constructor
  · exact hc
  · rw [htasks]
    show s'.head ∈ s.tasks
    rw [hs.head]
    exact I.head
  · rw [htasks]
    intro t ht f hf
    by_cases h : t = s.head
    · subst h
      rw [modify_tcb_same] at hf
      exact hn.targets f hf
    · rw [modify_tcb_of_ne h, hs.frames] at hf
      exact I.targets t ht f hf
  · rw [htasks]
    intro t ht
    by_cases h : t = s.head
    · subst h
      rw [modify_tcb_same]
      exact hn.mask
    · rw [modify_tcb_of_ne h, hs.frames, hs.mask]
      exact I.masks t ht
  · exact hs.broken.trans I.broken

theorem Inv.modifyHead (I : Inv s) {g : Tcb → Tcb} (hc : (s.modify s.head g).core.Inv)
    (hn : Inv.Next s (g (s.tcb s.head)).frames (g (s.tcb s.head)).sigprocmask) :
    Inv (s.modify s.head g) := I.modifyFrom .refl hc hn

theorem Inv.reframe (I : Inv s) {g : Tcb → Tcb} (hv : (g (s.tcb s.head)).view = (s.tcb s.head).view)
    (hn : Inv.Next s (g (s.tcb s.head)).frames (g (s.tcb s.head)).sigprocmask) :
    Inv (s.modify s.head g) :=
  I.modifyHead (by rw [core_modify_same hv]; exact I.core) hn

theorem Inv.goOn (I : Inv s) (hs : SameFrames s s') (hc : (s'.frames fs).core.Inv)
    (hn : Inv.Next s fs (s.tcb s.head).sigprocmask) : Inv (s'.frames fs) := by
  unfold State.frames at hc ⊢
  rw [hs.head] at hc ⊢
  apply I.modifyFrom hs hc
  refine ⟨hn.targets, ?_⟩
  show MaskOk fs (s'.tcb s.head).sigprocmask
  rw [hs.mask]
  exact hn.mask

theorem Inv.quietFrames (I : Inv s) (hq : Quiet s s')
    (hv : fs.filter Frame.active = (s.tcb s.head).frames.filter Frame.active)
    (hn : Inv.Next s fs (s.tcb s.head).sigprocmask) : Inv (s'.frames fs) := by
  apply I.goOn hq.same _ hn
  rw [core_frames, hq.core, hq.same.head, hv]
  have hs : ({ s.core.view s.head with
      active := (s.tcb s.head).frames.filter Frame.active } : View) = s.core.view s.head := rfl
  rw [hs, setView_self]
  exact I.core

theorem allocAction_spec (irq : Bool) (mem : Option Nat) (s : State) :
    SameFrames s (sigAllocatependingsigaction irq mem s).1 ∧
      (sigAllocatependingsigaction irq mem s).1.core =
        { s.core with free := (sigAllocatependingsigaction irq mem s).1.freeActions } ∧
      ((sigAllocatependingsigaction irq mem s).2 = none →
        (sigAllocatependingsigaction irq mem s).1 = s) ∧
      ∀ n, (sigAllocatependingsigaction irq mem s).2 = some n →
        (n :: (sigAllocatependingsigaction irq mem s).1.freeActions).Perm s.freeActions ∨
          (irq = false ∧ mem = some n ∧
            (sigAllocatependingsigaction irq mem s).1.freeActions = s.freeActions) := by
  unfold sigAllocatependingsigaction
  cases h : s.gSigpendingaction with
  | cons a rest =>
    refine ⟨⟨rfl, rfl, rfl, fun _ => rfl, fun _ => rfl⟩, rfl, fun h' => absurd h' (by simp), ?_⟩
    intro n hn
    left
    have ha : a = n := by simpa using hn
    unfold State.freeActions
    rw [h, ha]
    exact .refl _
  | nil =>
    cases irq with
    | true =>
      cases h' : s.gSigpendingirqaction with
      | cons a rest =>
        refine ⟨⟨rfl, rfl, rfl, fun _ => rfl, fun _ => rfl⟩, rfl,
          fun h' => absurd h' (by simp), ?_⟩
        intro n hn
        left
        have ha : a = n := by simpa using hn
        unfold State.freeActions
        simp only [h, h', ha]
        exact .refl _
      | nil =>
        refine ⟨.refl, rfl, fun _ => rfl, ?_⟩
        intro n hn
        exact absurd hn (by simp)
    | false =>
      cases mem with
      | none =>
        refine ⟨.refl, rfl, fun _ => rfl, ?_⟩
        intro n hn
        exact absurd hn (by simp)
      | some a =>
        refine ⟨⟨rfl, rfl, rfl, fun _ => rfl, fun _ => rfl⟩, ?_,
          fun h' => absurd h' (by simp), ?_⟩
        · unfold State.core
          congr 1
          funext n
          by_cases hn : n = a
          · subst hn
            dsimp only [Bool.false_eq_true, if_false]
            rw [if_neg (by simp)]
            simp
          · simp [hn]
        · intro n hn
          right
          have ha : a = n := by simpa using hn
          refine ⟨rfl, by rw [ha], ?_⟩
          unfold State.freeActions
          rw [h]
          rfl

theorem core_frames_of {free : List Nat} (hs : SameFrames s s')
    (hc : s'.core = { s.core with free }) : (s'.frames fs).core =
      s.core.setView s.head { s.core.view s.head with active := fs.filter Frame.active } free := by
  rw [core_frames, hc, hs.head]
  rfl

theorem Inv.next_below (I : Inv s) (hf : (s.tcb s.head).frames = f :: below)
    (hm : MaskOk (f :: below) (s.tcb s.head).sigprocmask → MaskOk below (s.tcb s.head).sigprocmask) :
    Inv.Next s below (s.tcb s.head).sigprocmask := by
  refine ⟨I.targets_below hf, hm ?_⟩
  rw [← hf]
  exact I.masks s.head I.head

theorem Inv.Next.received {m : Sigset} {t : Nat} (h : Inv.Next s below m) (ht : t ∈ s.tasks)
    (info : Siginfo) (pc : RecvPc) : Inv.Next s (.received t info pc :: below) m := by
  refine ⟨?_, h.mask⟩
  intro f hf u info' pc' he
  rcases List.mem_cons.mp hf with hf | hf
  · rw [hf] at he
    cases he
    exact ht
  · exact h.targets f hf u info' pc' he

theorem Inv.Next.plain {m : Sigset}
    (h : ∀ g ∈ below, ∀ u info pc, g = .received u info pc → u ∈ s.tasks)
    (hf : ∀ u info pc, f ≠ .received u info pc) (hm : MaskOk (f :: below) m) :
    Inv.Next s (f :: below) m := by
  refine ⟨?_, hm⟩
  intro g hg u info pc he
  rcases List.mem_cons.mp hg with hg | hg
  · exact absurd (hg.symm.trans he) (hf u info pc)
  · exact h g hg u info pc he

section

variable {info : Siginfo} {pc : RecvPc} {mem : Option Nat}

theorem Inv.hold (I : Inv s) (hf : (s.tcb s.head).frames = .received t info .allocAction :: below)
    (hmem : ∀ n ∈ mem, n ∉ s.actionNodes) {sigact : Sigact} {n : Nat}
    (hn : (sigAllocatependingsigaction false mem s).2 = some n)
    (hnext : Inv.Next s (.received t info (.addAction sigact n) :: below)
      (s.tcb s.head).sigprocmask) :
    Inv ((sigAllocatependingsigaction false mem s).1.frames
      (.received t info (.addAction sigact n) :: below)) := by
  obtain ⟨hsame, hcore, -, hfree⟩ := allocAction_spec false mem s
  apply I.goOn hsame _ hnext
  rw [core_frames_of hsame hcore]
  have hact : (s.core.view s.head).active = [] ++ below.filter Frame.active := by
    show (s.tcb s.head).frames.filter Frame.active = _
    rw [hf]
    rfl
  show (s.core.setView s.head { s.core.view s.head with
    active := [.received t info (.addAction sigact n)] ++ below.filter Frame.active } _).Inv
  rcases hfree n hn with hp | ⟨-, hmem', hp⟩
  · apply I.core.received (e := []) I.head hact
    · simp
    · simp [Frame.isDeliver]
    · exact I.core.nodes
    · apply List.Perm.subperm
      show (_ ++ [n]).Perm ([] ++ s.freeActions ++ [])
      rw [List.append_nil, List.nil_append]
      exact (List.perm_append_singleton n _).trans hp
    · intro u info' h
      exact absurd h (by simp)
  · apply I.core.received (e := [n]) I.head hact
    · simp
    · simp [Frame.isDeliver]
    · apply List.nodup_cons.mpr
      refine ⟨?_, I.core.nodes⟩
      show n ∉ s.core.nodes
      rw [core_nodes]
      exact hmem n hmem'
    · apply List.Perm.subperm
      show (_ ++ [n]).Perm ([n] ++ s.freeActions ++ [])
      rw [List.append_nil, hp]
      exact List.perm_append_singleton n _
    · intro u info' h
      exact absurd h (by simp)

theorem Inv.toSchedule (I : Inv s) (hf : (s.tcb s.head).frames = .received t info pc :: below)
    (hpc : pc ≠ .schedule) : ((s.frames (.received t info .schedule :: below)).core).Inv := by
  have hact : (s.core.view s.head).active =
      [Frame.received t info pc].filter Frame.active ++ below.filter Frame.active := by
    show (s.tcb s.head).frames.filter Frame.active = _
    rw [hf, ← List.filter_append]
    rfl
  rw [core_frames]
  show (s.core.setView s.head { s.core.view s.head with
    active := [.received t info .schedule] ++ below.filter Frame.active } _).Inv
  apply I.core.received (e := []) I.head hact
  · intro f hf
    rw [List.mem_singleton.mp (List.mem_filter.mp hf).1]
    rfl
  · simp [Frame.isDeliver]
  · exact I.core.nodes
  · show (s.freeActions ++ []).Subperm ([] ++ s.freeActions ++ _)
    rw [List.append_nil, List.nil_append]
    exact (List.sublist_append_left _ _).subperm
  · intro u info' h
    have hr := List.mem_singleton.mp (List.mem_filter.mp h).1
    cases hr
    exact absurd rfl hpc

theorem core_addAction (t : Nat) (sigact : Sigact) (n : Nat) :
    ((addAction t info sigact n s).frames fs).core =
      { (s.frames fs).core with
        act := update (s.frames fs).core.act n ⟨sigact.sigaction, info⟩
        view := update (s.frames fs).core.view t
          { (s.frames fs).core.view t with
            pend := ((s.frames fs).core.view t).pend ++ [n]
            queued := ((s.frames fs).core.view t).queued ++ [⟨sigact.sigaction, info⟩]
            flagged := ((s.frames fs).core.view t).flagged } } := by
  show Core.mk _ _ _ _ = Core.mk _ _ _ _
  congr 1
  · funext m
    by_cases h : m = n
    · subst h
      simp [State.frames, State.modify, addAction]
    · simp [State.frames, State.modify, addAction, State.core, h]
  · funext u
    by_cases h : u = t
    · subst h
      rw [update_self]
      by_cases hh : u = s.head
      · subst hh
        simp [State.frames, State.modify, addAction, State.core, Tcb.view, Tcb.log]
      · simp [State.frames, State.modify, addAction, State.core, Tcb.view, Tcb.log, hh]
    · rw [update_of_ne h]
      by_cases hh : u = s.head
      · subst hh
        simp [State.frames, State.modify, addAction, State.core, Tcb.view, h]
      · simp [State.frames, State.modify, addAction, State.core, Tcb.view, h, hh]

theorem sameFrames_addAction (t : Nat) (info : Siginfo) (sigact : Sigact) (n : Nat) (s : State) :
    SameFrames s (addAction t info sigact n s) := by
  have hfill : SameFrames s { s with
      sigq := update s.sigq n
        { s.sigq n with
          act := ⟨sigact.sigaction, info⟩
          mask := sigact.saMask } } := ⟨rfl, rfl, rfl, fun _ => rfl, fun _ => rfl⟩
  apply hfill.trans
  apply sameFrames_modify
  · rfl
  · rfl

theorem Inv.queue (I : Inv s) {sigact : Sigact} {n : Nat}
    (hf : (s.tcb s.head).frames = .received t info (.addAction sigact n) :: below)
    (hnext : Inv.Next s (.received t info .schedule :: below) (s.tcb s.head).sigprocmask)
    (ht : t ∈ s.tasks) :
    Inv ((addAction t info sigact n s).frames (.received t info .schedule :: below)) := by
  apply I.goOn (sameFrames_addAction t info sigact n s) _ hnext
  rw [core_addAction]
  have hc := I.toSchedule hf (by simp)
  apply hc.append ht
  · -- the node was in the variable of the activation, and nowhere else
    have hp : s.core.nodes.Perm
        (n :: (s.frames (.received t info .schedule :: below)).core.nodes) := by
      rw [core_frames]
      have h1 := nodes_perm (c := s.core) I.head
      have h2 := @setView_nodes_perm s.core s.head
        { s.core.view s.head with
          active := (Frame.received t info .schedule :: below).filter Frame.active }
        s.core.free I.core.tasks I.head
      have hv : (s.core.view s.head).nodes.Perm (n :: View.nodes
          { s.core.view s.head with
            active := (Frame.received t info .schedule :: below).filter Frame.active }) := by
        show ((s.tcb s.head).sigpendactionq ++ (s.tcb s.head).sigpostedq ++
          ((s.tcb s.head).frames.filter Frame.active).flatMap Frame.actionNode).Perm _
        rw [hf]
        exact List.perm_middle
      refine h1.trans (List.Perm.trans ?_ (h2.symm.cons n))
      rw [← List.cons_append]
      apply List.Perm.append_right
      exact (hv.append_left _).trans List.perm_middle
    exact (List.nodup_cons.mp (hp.nodup_iff.mp I.core.nodes)).1
  · exact fun h => h
  · right
    refine ⟨s.head, I.head, info, ?_⟩
    rw [core_frames, setView_same]
    exact List.mem_cons_self

theorem quiet_core_frames (hq : Quiet s s') : (s'.frames fs).core = (s.frames fs).core := by
  rw [core_frames, hq.core, hq.same.head, core_frames]

theorem Inv.unschedule (I : Inv s) (hf : (s.tcb s.head).frames = .received t info .schedule :: below)
    (hd : (s.core.view t).flagged = true) :
    (s.frames (.received t info .wake :: below)).core.Inv := by
  have hact : (s.core.view s.head).active =
      [Frame.received t info .schedule] ++ below.filter Frame.active := by
    show (s.tcb s.head).frames.filter Frame.active = _
    rw [hf]
    rfl
  rw [core_frames]
  show (s.core.setView s.head { s.core.view s.head with
    active := [] ++ below.filter Frame.active } _).Inv
  apply I.core.received (e := []) I.head hact
  · simp [Frame.isDeliver]
  · simp
  · exact I.core.nodes
  · exact List.Subperm.refl _
  · intro u info' h
    have hu : u = t := by
      have := List.mem_singleton.mp h
      cases this
      rfl
    rw [hu]
    exact .inl hd

theorem enterDeliver_nodes (c : Tcb) (l : List Frame) :
    (enterDeliver c :: l).flatMap Frame.actionNode = l.flatMap Frame.actionNode := by
  unfold enterDeliver
  cases c.sigpendactionq.head? <;> rfl

theorem Inv.enterSelf (I : Inv s)
    (hf : (s.tcb s.head).frames = .received s.head info .schedule :: below)
    (hset : ∀ f ∈ (s.tcb s.head).frames, f.settled = true) :
    (s.frames (enterDeliver (s.tcb s.head) :: .received s.head info .wake :: below)).core.Inv := by
  have hact : (s.core.view s.head).active =
      [Frame.received s.head info .schedule] ++ below.filter Frame.active := by
    show (s.tcb s.head).frames.filter Frame.active = _
    rw [hf]
    rfl
  have hnone : ∀ f ∈ ([] : List Frame), f.isDeliver = false := by simp
  have hok := (I.core.task s.head I.head).received hact (by simp [Frame.isDeliver]) hnone
  have hset' : ∀ f ∈ below.filter Frame.active, f.settled = true := by
    intro f hm
    apply hset
    rw [hf]
    exact List.mem_cons_of_mem _ (List.mem_filter.mp hm).1
  rw [core_frames]
  show (s.core.setView s.head { s.core.view s.head with
    active := enterDeliver (s.tcb s.head) :: below.filter Frame.active } _).Inv
  apply I.core.setView I.head
  · apply I.core.nodup_setView (e := []) I.head I.core.nodes
    apply List.Perm.subperm
    show (s.core.free ++ View.nodes _).Perm (s.core.free ++ View.nodes _)
    unfold View.nodes
    rw [hact]
    dsimp only
    rw [enterDeliver_nodes]
    exact .refl _
  · exact hok.enter hset' _ _
  · refine .inl ?_
    rw [setView_same]
    exact View.Going.enter (v := { s.core.view s.head with active := below.filter Frame.active })
      _ _ (s.core.view s.head).flagged
  · intro u info' hu h
    rw [hact] at h
    rcases List.mem_append.mp h with h | h
    · have := List.mem_singleton.mp h
      cases this
      exact absurd rfl hu
    · exact .inr (List.mem_cons_of_mem _ h)

theorem Inv.flag (I : Inv s) (ht : t ∈ s.tasks) : (flagSigaction t s).core.Inv := by
  unfold flagSigaction
  rw [core_modify]
  exact I.core.flag ht

theorem Inv.flagged (I : Inv s) (ht : t ∈ s.tasks) : Inv (flagSigaction t s) := by
  have hs : SameFrames s (flagSigaction t s) := sameFrames_modify rfl rfl
  constructor
  · exact I.flag ht
  · exact I.head
  · intro u hu f hf
    rw [hs.frames] at hf
    exact I.targets u hu f hf
  · intro u hu
    rw [hs.frames, hs.mask]
    exact I.masks u hu
  · exact I.broken

theorem Inv.received (I : Inv s) (hf : (s.tcb s.head).frames = .received t info pc :: below)
    (hmem : ∀ n ∈ mem, n ∉ s.actionNodes)
    (hok : pc = .schedule → t = s.head → (s.tcb t).sigdeliver = false →
      ∀ f ∈ (s.tcb s.head).frames, f.settled = true)
    (he : receivedStep mem t info below s pc = some s') : Inv s' := by
  have hb : Inv.Next s below (s.tcb s.head).sigprocmask := I.next_below hf fun h => h
  have ht : t ∈ s.tasks := by
    apply I.targets s.head I.head (.received t info pc) _ t info pc rfl
    rw [hf]
    exact List.mem_cons_self
  have hr := hb.received ht info
  unfold receivedStep at he
  cases pc with
  | start =>
    dsimp only at he
    split at he
    · split at he
      · cases he
        exact I.quietFrames (quiet_wakeWith t info s) (by rw [hf]; rfl) hb
      · cases he
        exact I.quietFrames .refl (by rw [hf]; rfl) (hr .find)
    · cases he
      exact I.quietFrames .refl (by rw [hf]; rfl) (hr .allocAction)
  | find =>
    dsimp only at he
    split at he
    · cases he
      exact I.quietFrames .refl (by rw [hf]; rfl) (hr _)
    · cases he
      exact I.quietFrames .refl (by rw [hf]; rfl) (hr _)
  | copy n =>
    cases he
    exact I.quietFrames (quiet_copyPending t info n s) (by rw [hf]; rfl) hb
  | allocSignal =>
    dsimp only at he
    have hq := quiet_allocatependingsignal false mem s
    cases ha : sigAllocatependingsignal false mem s with
    | mk s1 r =>
      rw [ha] at he hq
      cases r with
      | none => cases he
      | some n =>
        cases he
        exact I.quietFrames hq (by rw [hf]; rfl) (hr _)
  | addSignal n =>
    cases he
    exact I.quietFrames (quiet_addPending t info n s) (by rw [hf]; rfl) hb
  | allocAction =>
    dsimp only at he
    have hsch := I.toSchedule hf (by simp)
    cases hi : installed t info s with
    | none =>
      rw [hi] at he
      cases he
      apply I.goOn (quiet_ignore t info s).same _ (hr _)
      rw [quiet_core_frames (quiet_ignore t info s)]
      exact hsch
    | some sigact =>
      rw [hi] at he
      dsimp only at he
      have hn := (allocAction_spec false mem s).2.2.1
      have hh := fun n => @Inv.hold s t below info mem I hf hmem sigact n
      cases ha : sigAllocatependingsigaction false mem s with
      | mk s1 r =>
        rw [ha] at he hn hh
        cases r with
        | none =>
          cases he
          have hs1 : s1 = s := hn rfl
          subst hs1
          exact I.goOn .refl hsch (hr _)
        | some n =>
          cases he
          exact hh n rfl (hr _)
  | addAction sigact n =>
    cases he
    exact I.queue hf (hr _) ht
  | schedule =>
    dsimp only at he
    split at he
    · rename_i hd
      cases he
      exact I.goOn .refl (I.unschedule hf hd) (hr _)
    · split at he
      · rename_i hd hh
        cases he
        subst hh
        apply I.goOn .refl (I.enterSelf hf (hok rfl rfl (by simpa using hd)))
        apply Inv.Next.plain (hr .wake).targets
        · intro u info' pc h
          cases h
        · exact ⟨rfl, hb.mask⟩
      · rename_i hd hh
        cases he
        have I' := I.flagged ht
        have hne : s.head ≠ t := fun h => hh h.symm
        have hf' : ((flagSigaction t s).tcb (flagSigaction t s).head).frames =
            .received t info .schedule :: below := by
          rw [show (flagSigaction t s).tcb (flagSigaction t s).head = s.tcb s.head from
            modify_tcb_of_ne hne]
          exact hf
        have hfl : ((flagSigaction t s).core.view t).flagged = true := by
          unfold flagSigaction
          rw [core_modify, setView_same]
          rfl
        have hsame : SameFrames s (flagSigaction t s) := sameFrames_modify rfl rfl
        apply I.goOn hsame _ (hr _)
        exact I'.unschedule hf' hfl
  | wake =>
    cases he
    exact I.quietFrames (quiet_wakeWaiter t info s) (by rw [hf]; rfl) hb

end

section

variable {n : Nat} {sigq next : Option Nat} {save entry : Sigset} {pc : DeliverPc}

theorem Inv.deliverView (I : Inv s) {v : View} {free : List Nat}
    (hf : (s.tcb s.head).frames = .deliver sigq next save entry pc :: below)
    (hn : (free ++ v.nodes).Subperm (s.core.free ++ (s.core.view s.head).nodes))
    (hv : v.Ok s.core.act) (hg : (s.core.view s.head).Going → v.Going)
    (hs : ∀ u info, Frame.received u info .schedule ∈ below → Frame.received u info .schedule ∈ v.active) :
    (s.core.setView s.head v free).Inv := by
  have hs' : ∀ u info, Frame.received u info .schedule ∈ (s.core.view s.head).active →
      Frame.received u info .schedule ∈ v.active := by
    intro u info h
    apply hs
    have hm : Frame.received u info .schedule ∈ (s.tcb s.head).frames := (List.mem_filter.mp h).1
    rw [hf] at hm
    rcases List.mem_cons.mp hm with hm | hm
    · cases hm
    · exact hm
  apply I.core.setView I.head
  · exact I.core.nodup_setView (e := []) I.head I.core.nodes hn
  · exact hv
  · rcases I.core.due s.head I.head with hd | ⟨w, hw, info, hd⟩
    · refine .inl ?_
      rw [setView_same]
      exact hg hd
    · by_cases he : w = s.head
      · subst he
        exact .inr ⟨s.head, I.head, info, by rw [setView_same]; exact hs' _ info hd⟩
      · exact .inr ⟨w, hw, info, by rw [setView_of_ne he]; exact hd⟩
  · exact fun u info _ h => .inr (hs' u info h)

theorem schedule_mem {u : Nat} {info : Siginfo} (g : Frame)
    (h : Frame.received u info .schedule ∈ below) :
    Frame.received u info .schedule ∈ g :: below.filter Frame.active :=
  List.mem_cons_of_mem _ (List.mem_filter.mpr ⟨h, rfl⟩)

theorem free_release (n : Nat) (s : State) :
    (sigReleasependingsigaction n s).freeActions.Subperm (s.freeActions ++ [n]) := by
  unfold sigReleasependingsigaction State.freeActions
  cases (s.sigq n).type with
  | fixed =>
    apply List.Perm.subperm
    rw [List.append_assoc, List.append_assoc]
    exact List.perm_append_comm.append_left _
  | irq =>
    apply List.Perm.subperm
    rw [List.append_assoc]
  | dyn => exact (List.sublist_append_left _ _).subperm

theorem core_release (n : Nat) (s : State) : (sigReleasependingsigaction n s).core =
    { s.core with free := (sigReleasependingsigaction n s).freeActions } := by
  unfold sigReleasependingsigaction
  cases (s.sigq n).type <;> rfl

theorem sameFrames_release (n : Nat) (s : State) :
    SameFrames s (sigReleasependingsigaction n s) := by
  unfold sigReleasependingsigaction
  cases (s.sigq n).type <;> exact ⟨rfl, rfl, rfl, fun _ => rfl, fun _ => rfl⟩

theorem Inv.Next.deliver (htb : ∀ g ∈ below, ∀ u info pc, g = .received u info pc → u ∈ s.tasks)
    {pc : DeliverPc} {m : Sigset} (hm : MaskOk (.deliver sigq next save entry pc :: below) m) :
    Inv.Next s (.deliver sigq next save entry pc :: below) m := by
  apply Inv.Next.plain htb
  · intro u info pc h
    cases h
  · exact hm

theorem View.dequeue_nodes {v : View} {fs : List Frame} (hpend : v.pend = n :: v.pend.tail)
    (hact : v.active = .deliver (some n) next save entry .dequeue :: fs) :
    (View.nodes { v with
      pend := v.pend.erase n
      posted := v.posted ++ [n]
      active := .deliver (some n) next save entry .call :: fs }).Perm v.nodes := by
  unfold View.nodes
  rw [hact]
  dsimp only
  rw [show v.pend.erase n = v.pend.tail by
    rw [hpend]
    exact List.erase_cons_head ..]
  have hp : (v.pend.tail ++ (v.posted ++ [n])).Perm (v.pend ++ v.posted) := by
    nth_rewrite 2 [hpend]
    rw [← List.append_assoc]
    exact List.perm_append_singleton n _
  exact hp.append_right _

theorem View.finish_nodes {v : View} {fs : List Frame} (hmem : n ∈ v.posted)
    (hact : v.active = .deliver (some n) next save entry .finish :: fs) :
    (View.nodes { v with
      posted := v.posted.erase n
      active := .deliver (some n) next save entry .release :: fs }).Perm v.nodes := by
  unfold View.nodes
  rw [hact]
  dsimp only
  show (v.pend ++ v.posted.erase n ++ (n :: fs.flatMap Frame.actionNode)).Perm
    (v.pend ++ v.posted ++ fs.flatMap Frame.actionNode)
  rw [List.append_assoc, List.append_assoc]
  apply List.Perm.append_left
  exact List.perm_middle.trans ((List.perm_cons_erase hmem).symm.append_right _)

theorem View.release_nodes {v : View} {a : Action} {fs : List Frame} {free free' : List Nat}
    (hfree : free'.Subperm (free ++ [n]))
    (hact : v.active = .deliver (some n) next save entry .release :: fs) :
    (free' ++ View.nodes { v with
      released := v.released ++ [a]
      active := .deliver next none save entry .fetch :: fs }).Subperm (free ++ v.nodes) := by
  unfold View.nodes
  rw [hact]
  dsimp only
  show (_ ++ (v.pend ++ v.posted ++ (Frame.actionNode (.deliver next none save entry .fetch) ++
    fs.flatMap Frame.actionNode))).Subperm
      (free ++ (v.pend ++ v.posted ++ (n :: fs.flatMap Frame.actionNode)))
  rw [show Frame.actionNode (.deliver next none save entry .fetch) = [] by cases next <;> rfl,
    List.nil_append]
  refine List.Subperm.trans ((List.subperm_append_right _).mpr hfree) ?_
  apply List.Perm.subperm
  rw [List.append_assoc, List.singleton_append]
  apply List.Perm.append_left
  exact List.perm_middle.symm

theorem Inv.deliver (I : Inv s)
    (hf : (s.tcb s.head).frames = .deliver sigq next save entry pc :: below) :
    Inv (deliverStep sigq next save entry below s pc) := by
  have hact : (s.core.view s.head).active =
      .deliver sigq next save entry pc :: below.filter Frame.active := by
    show (s.tcb s.head).frames.filter Frame.active = _
    rw [hf]
    rfl
  have hok : (s.core.view s.head).Ok s.core.act := I.core.task s.head I.head
  have hm := I.masks s.head I.head
  have htb := I.targets_below hf
  have hnod : (s.core.view s.head).nodes.Nodup := by
    have h := (nodes_perm (c := s.core) I.head).nodup_iff.mp I.core.nodes
    exact (List.nodup_append.mp (List.nodup_append.mp h).1).2.1
  rw [hf] at hm
  have hsame : ∀ (v : View), v.pend = (s.core.view s.head).pend →
      v.posted = (s.core.view s.head).posted →
      v.active.flatMap Frame.actionNode = (s.core.view s.head).active.flatMap Frame.actionNode →
      (s.core.free ++ v.nodes).Subperm (s.core.free ++ (s.core.view s.head).nodes) := by
    intro v h1 h2 h3
    unfold View.nodes
    rw [h1, h2, h3]
  unfold deliverStep
  cases pc with
  | fetch =>
    cases sigq with
    | none =>
      show Inv (s.frames below)
      apply I.goOn .refl _ ⟨htb, hm.2⟩
      rw [core_frames]
      apply I.deliverView hf
      · apply hsame
        · rfl
        · rfl
        · rw [hact]
          rfl
      · exact hok.leave hact
      · exact View.Going.leave hok hact
      · exact fun u info h => List.mem_filter.mpr ⟨h, rfl⟩
    | some n =>
      dsimp only
      have hnext : (s.tcb s.head).sigpendactionq[(s.tcb s.head).sigpendactionq.idxOf n + 1]? =
          (s.tcb s.head).sigpendactionq.tail.head? := hok.next_eq hact
      rw [hnext]
      apply I.goOn .refl
      · rw [core_frames]
        apply I.deliverView hf
        · apply hsame
          · rfl
          · rfl
          · rw [hact]
            rfl
        · exact hok.fetch hact
        · exact View.Going.fetch hok hact
        · exact fun u info h => schedule_mem _ h
      · exact Inv.Next.deliver htb hm
  | dequeue =>
    cases sigq with
    | none =>
      exact absurd (hok.refs (.deliver none next save entry .dequeue)
        (by rw [hact]; exact List.mem_cons_self)) (fun h => h)
    | some n =>
      have hpend : (s.core.view s.head).pend = n :: (s.core.view s.head).pend.tail :=
        (hok.pend_eq hact).1
      have hmem : n ∈ (s.tcb s.head).sigpendactionq := by
        show n ∈ (s.core.view s.head).pend
        rw [hpend]
        exact List.mem_cons_self
      dsimp only
      rw [show (s.broken || decide (n ∉ (s.tcb s.head).sigpendactionq)) = s.broken by
        simp [hmem]]
      apply I.modifyHead
      · rw [core_modify]
        apply I.deliverView hf (v := { s.core.view s.head with
          pend := (s.core.view s.head).pend.erase n
          posted := (s.core.view s.head).posted ++ [n]
          active := .deliver (some n) next save entry .call :: below.filter Frame.active })
        · apply List.Perm.subperm
          apply List.Perm.append_left
          exact View.dequeue_nodes hpend hact
        · exact hok.dequeue hact
        · exact View.Going.dequeue hok hact
        · exact fun u info h => schedule_mem _ h
      · exact Inv.Next.deliver htb hm
  | call =>
    cases sigq with
    | none =>
      exact absurd (hok.refs (.deliver none next save entry .call)
        (by rw [hact]; exact List.mem_cons_self)) (fun h => h)
    | some n =>
      dsimp only
      apply I.modifyHead
      · rw [core_modify]
        apply I.deliverView hf (v := { s.core.view s.head with
          delivered := (s.core.view s.head).delivered ++ [s.core.act n]
          active := .deliver (some n) next (s.tcb s.head).sigprocmask entry .handler ::
            below.filter Frame.active })
        · apply hsame
          · rfl
          · rfl
          · rw [hact]
            rfl
        · exact hok.call hact
        · exact View.Going.advance hok hact rfl rfl rfl rfl fun h => h
        · exact fun u info h => schedule_mem _ h
      · exact Inv.Next.deliver htb ⟨hm.1, by rw [← hm.1]; exact hm.2⟩
  | handler =>
    cases sigq with
    | none =>
      exact absurd (hok.refs (.deliver none next save entry .handler)
        (by rw [hact]; exact List.mem_cons_self)) (fun h => h)
    | some n =>
      dsimp only
      apply I.modifyHead
      · rw [core_modify]
        apply I.deliverView hf (v := { s.core.view s.head with
          active := .deliver (some n) next save entry .finish :: below.filter Frame.active })
        · apply hsame
          · rfl
          · rfl
          · rw [hact]
            rfl
        · exact hok.finish hact
        · exact View.Going.advance hok hact rfl rfl rfl rfl fun h => h
        · exact fun u info h => schedule_mem _ h
      · have hfin : Inv.Next s (.deliver (some n) next save entry .finish :: below) save := by
          exact Inv.Next.deliver htb ⟨hm.1, by rw [hm.1]; exact hm.2⟩
        apply Inv.Next.plain hfin.targets
        · intro u info pc h
          cases h
        · exact hfin.mask
  | finish =>
    cases sigq with
    | none =>
      exact absurd (hok.refs (.deliver none next save entry .finish)
        (by rw [hact]; exact List.mem_cons_self)) (fun h => h)
    | some n =>
      have hposted : (s.core.view s.head).posted.Nodup := by
        unfold View.nodes at hnod
        exact (List.nodup_append.mp (List.nodup_append.mp hnod).1).2.1
      have hmem : n ∈ (s.core.view s.head).posted := by
        rw [hok.posted, hact]
        simp [Frame.posted]
      dsimp only
      apply I.modifyHead
      · rw [core_modify]
        apply I.deliverView hf (v := { s.core.view s.head with
          posted := (s.core.view s.head).posted.erase n
          active := .deliver (some n) next save entry .release :: below.filter Frame.active })
        · apply List.Perm.subperm
          apply List.Perm.append_left
          exact View.finish_nodes hmem hact
        · exact hok.unpost hposted hact
        · exact View.Going.advance hok hact rfl rfl rfl rfl fun h => h
        · exact fun u info h => schedule_mem _ h
      · exact Inv.Next.deliver htb hm
  | release =>
    cases sigq with
    | none =>
      exact absurd (hok.refs (.deliver none next save entry .release)
        (by rw [hact]; exact List.mem_cons_self)) (fun h => h)
    | some n =>
      dsimp only
      have hsr := sameFrames_release n s
      have hcr := core_release n s
      have hfr := free_release n s
      apply I.modifyFrom hsr
      · rw [core_modify, hcr]
        show (s.core.setView s.head _ (sigReleasependingsigaction n s).freeActions).Inv
        rw [show Tcb.view _ = ({ s.core.view s.head with
          released := (s.core.view s.head).released ++ [s.core.act n]
          active := .deliver next none save entry .fetch ::
            below.filter Frame.active } : View) by
          rw [show (sigReleasependingsigaction n s).tcb = s.tcb by
            unfold sigReleasependingsigaction
            cases (s.sigq n).type <;> rfl]
          rfl]
        apply I.deliverView hf
        · exact View.release_nodes hfr hact
        · exact hok.release hact
        · apply View.Going.advance hok hact
          · rfl
          · rfl
          · rfl
          · rfl
          · intro hc
            cases next with
            | none => exact absurd rfl hc
            | some m => trivial
        · exact fun u info h => schedule_mem _ h
      · apply Inv.Next.plain htb
        · intro u info pc h
          cases h
        · show MaskOk _ ((sigReleasependingsigaction n s).tcb s.head).sigprocmask
          rw [hsr.mask]
          exact hm

end

theorem Inv.ofSame (I : Inv s) (hs : SameFrames s s') (hc : s'.core.Inv) : Inv s' := by
  constructor
  · exact hc
  · rw [hs.head, hs.tasks]
    exact I.head
  · intro t ht f hf
    rw [hs.tasks] at ht ⊢
    rw [hs.frames] at hf
    exact I.targets t ht f hf
  · intro t ht
    rw [hs.tasks] at ht
    rw [hs.frames, hs.mask]
    exact I.masks t ht
  · exact hs.broken.trans I.broken

theorem Inv.unmask (I : Inv s) {set : Sigset} {pendingsig : Option Nat}
    (hf : (s.tcb s.head).frames = .unmask set pendingsig :: below) :
    Inv (unmaskStep set below s pendingsig) := by
  have hb : Inv.Next s below (s.tcb s.head).sigprocmask := I.next_below hf fun h => h
  have hu : ∀ set' p, Inv.Next s (.unmask set' p :: below) (s.tcb s.head).sigprocmask := by
    intro set' p
    apply Inv.Next.plain hb.targets
    · intro u info pc h
      cases h
    · exact hb.mask
  unfold unmaskStep
  cases pendingsig with
  | some n => exact I.quietFrames (quiet_releasependingsignal n s) (by rw [hf]; rfl) (hu _ _)
  | none =>
    cases sigLowest set with
    | none => exact I.quietFrames .refl (by rw [hf]; rfl) hb
    | some signo =>
      dsimp only
      have hq := quiet_removependingsignal s.head signo s
      cases hr : sigRemovependingsignal s.head signo s with
      | mk s1 r =>
        rw [hr] at hq
        cases r with
        | none => exact I.quietFrames hq (by rw [hf]; rfl) (hu _ _)
        | some n =>
          apply I.quietFrames hq
          · rw [hf]
            rfl
          · apply (hu _ _).received
            rw [hq.same.head]
            exact I.head

theorem Inv.frame (I : Inv s) {mem : Option Nat} (hf : (s.tcb s.head).frames = f :: below)
    (hmem : ∀ n ∈ mem, n ∉ s.actionNodes)
    (hok : ∀ info, f = .received s.head info .schedule → (s.tcb s.head).sigdeliver = false →
      ∀ g ∈ (s.tcb s.head).frames, g.settled = true)
    (he : frameStep mem f below s = some s') : Inv s' := by
  have hunmask : ∀ m, MaskOk below m → (∀ g ∈ below, ∀ u info pc, g = .received u info pc → u ∈ s.tasks) →
      Inv.Next s (.unmaskStart :: below) m := by
    intro m hm hb
    apply Inv.Next.plain hb
    · intro u info pc h
      cases h
    · exact hm
  have hm := I.masks s.head I.head
  have htb := I.targets_below hf
  rw [hf] at hm
  unfold frameStep at he
  cases f with
  | received t info pc =>
    apply I.received hf hmem _ he
    intro hpc ht hd
    subst hpc ht
    exact hok info rfl hd
  | deliver sigq next save entry pc =>
    cases he
    exact I.deliver hf
  | unmaskStart =>
    cases he
    apply I.quietFrames .refl
    · rw [hf]
      rfl
    · apply Inv.Next.plain htb
      · intro u info pc h
        cases h
      · exact hm
  | unmask set pendingsig =>
    cases he
    exact I.unmask hf
  | suspend saved =>
    cases he
    apply I.reframe
    · unfold Tcb.view
      rw [hf]
      rfl
    · exact hunmask saved hm htb
  | timedwait =>
    cases he
    unfold timedwaitReturn
    apply I.reframe
    · unfold Tcb.view Tcb.log
      rw [hf]
      dsimp only
      split <;> rfl
    · exact ⟨htb, hm⟩

theorem core_queued (t : Nat) (info : Siginfo) (sigact : Sigact) (n : Nat) (s : State) :
    (flagSigaction t (addAction t info sigact n s)).core =
      { s.core with
        act := update s.core.act n ⟨sigact.sigaction, info⟩
        view := update s.core.view t
          { s.core.view t with
            pend := (s.core.view t).pend ++ [n]
            queued := (s.core.view t).queued ++ [⟨sigact.sigaction, info⟩]
            flagged := true } } := by
  show Core.mk _ _ _ _ = Core.mk _ _ _ _
  congr 1
  · funext m
    by_cases h : m = n
    · subst h
      simp [flagSigaction, State.modify, addAction]
    · simp [flagSigaction, State.modify, addAction, State.core, h]
  · funext u
    by_cases h : u = t
    · subst h
      simp [flagSigaction, State.modify, addAction, State.core, Tcb.view, Tcb.log]
    · simp [flagSigaction, State.modify, addAction, State.core, h]

theorem Inv.queueIrq (I : Inv s) (ht : t ∈ s.tasks) (info : Siginfo) :
    Inv (flagSigaction t (sigQueueactionIrq t info s)) := by
  unfold sigQueueactionIrq
  cases installed t info s with
  | none => exact (I.quiet (quiet_ignore t info s)).flagged ht
  | some sigact =>
    dsimp only
    obtain ⟨hsame, hcore, hnone, hfree⟩ := allocAction_spec true none s
    cases ha : sigAllocatependingsigaction true none s with
    | mk s1 r =>
      rw [ha] at hsame hcore hnone hfree
      cases r with
      | none =>
        have hs1 : s1 = s := hnone rfl
        rw [hs1]
        exact I.flagged ht
      | some n =>
        have hp : (n :: s1.freeActions).Perm s.core.free := by
          rcases hfree n rfl with hp | ⟨h, -⟩
          · exact hp
          · exact absurd h (by decide)
        have hnodes : (n :: s1.core.nodes).Perm s.core.nodes := by
          rw [hcore]
          exact (hp.append_right _)
        have hc : s1.core.Inv := by
          have hn := hnodes.nodup_iff.mpr I.core.nodes
          rw [hcore] at hn ⊢
          exact ⟨I.core.tasks, (List.nodup_cons.mp hn).2, I.core.task, I.core.due⟩
        have htc : t ∈ s1.core.tasks := by
          rw [hcore]
          exact ht
        have hs := hsame.trans ((sameFrames_addAction t info sigact n s1).trans
          (sameFrames_modify (t := t) (f := fun c => { c with sigdeliver := true }) rfl rfl))
        apply I.ofSame hs
        show (flagSigaction t (addAction t info sigact n s1)).core.Inv
        rw [core_queued]
        apply hc.append htc
        · exact (List.nodup_cons.mp (hnodes.nodup_iff.mpr I.core.nodes)).1
        · exact fun _ => rfl
        · exact .inl rfl

theorem Inv.interrupt (I : Inv s) (ht : t ∈ s.tasks) {info : Siginfo}
    (he : sigReceivedIrq t info s = some s') : Inv s' := by
  have I' := I.quiet (quiet_accept t info s)
  unfold sigReceivedIrq at he
  dsimp only at he
  split at he
  · split at he
    · cases he
      exact I'.quiet (quiet_wakeWith t info _)
    · unfold sigAddpendingsignalIrq at he
      split at he
      · cases he
        exact I'.quiet (quiet_copyPending t info _ _)
      · have hq := quiet_allocatependingsignal true none (accept t info s)
        cases ha : sigAllocatependingsignal true none (accept t info s) with
        | mk s1 r =>
          rw [ha] at he hq
          cases r with
          | none => cases he
          | some n =>
            cases he
            exact I'.quiet (hq.trans (quiet_addPending t info n s1))
  · cases he
    exact (I'.queueIrq ht info).quiet (quiet_wakeWaiter t info _)

theorem Inv.resume (I : Inv s) (hset : ∀ f ∈ (s.tcb s.head).frames, f.settled = true) :
    Inv (upSigdeliver s) := by
  have hset' : ∀ f ∈ (s.core.view s.head).active, f.settled = true :=
    fun f hf => hset f (List.mem_filter.mp hf).1
  unfold upSigdeliver
  apply I.modifyHead
  · rw [core_modify]
    show (s.core.setView s.head { s.core.view s.head with
      active := enterDeliver (s.tcb s.head) :: (s.core.view s.head).active
      flagged := false } _).Inv
    apply I.core.setView I.head
    · apply I.core.nodup_setView (e := []) I.head I.core.nodes
      apply List.Perm.subperm
      show (s.core.free ++ View.nodes _).Perm (s.core.free ++ View.nodes _)
      unfold View.nodes
      dsimp only
      rw [enterDeliver_nodes]
    · exact ((I.core.task s.head I.head).enter hset' _ _).flag false
    · refine .inl ?_
      rw [setView_same]
      exact View.Going.enter _ _ false
    · exact fun u info _ h => .inr (List.mem_cons_of_mem _ h)
  · apply Inv.Next.plain (I.targets s.head I.head)
    · intro u info pc h
      cases h
    · exact ⟨rfl, I.masks s.head I.head⟩

def Op.entersDeliver (i : Op) (s : State) : Bool :=
  match i with
  | .sigdeliver => true
  | .step _ =>
    match (s.tcb s.head).frames with
    | .received t _ .schedule :: _ => t = s.head && !(s.tcb t).sigdeliver
    | _ => false
  | _ => false

/-- No activation of `sig_deliver` begins while another one on the same task has an
action left: one that it has fetched, one that it has taken and whose handler it has not
called, or one that follows it in the queue. -/
def Op.deliversAlone (i : Op) (s : State) : Prop :=
  i.entersDeliver s = true → ∀ f ∈ (s.tcb s.head).frames, f.settled = true

instance (i : Op) (s : State) : Decidable (i.deliversAlone s) := by
  unfold Op.deliversAlone
  infer_instance

theorem Inv.user (I : Inv s) (hu : (s.tcb s.head).inUser = true) (m : Sigset) :
    Inv.Next s (s.tcb s.head).frames m :=
  ⟨I.targets s.head I.head, (I.masks s.head I.head).inUser hu⟩

theorem Inv.step (I : Inv s) {i : Op} (hv : i.valid s) (hk : i.deliversAlone s)
    (he : i.exec s = some s') : Inv s' := by
  cases i with
  | step mem =>
    simp only [Op.exec, stepHead] at he
    cases hf : (s.tcb s.head).frames with
    | nil =>
      rw [hf] at he
      cases he
    | cons f below =>
      rw [hf] at he
      apply I.frame hf (fun n hn => (hv.2.1 n hn).1) _ he
      intro info hi hd
      apply hk
      simp only [Op.entersDeliver, hf, hi]
      simp [hd]
  | kill t info =>
    cases he
    apply I.quietFrames (quiet_accept t info s)
    · rfl
    · exact (I.user hv.2.1 _).received hv.2.2.1 info .start
  | sigprocmask how set =>
    cases he
    cases set with
    | none => exact I
    | some set =>
      unfold Sig.sigprocmask
      apply I.reframe
      · rfl
      · apply Inv.Next.plain (I.targets s.head I.head)
        · intro u info pc h
          cases h
        · exact (I.user hv.2.1 _).mask
  | sigaction signo act =>
    cases he
    unfold sigaction
    cases act with
    | none => exact I
    | some a =>
      dsimp only
      split
      · apply I.quiet
        apply quiet_modify
        · rfl
        · rfl
        · rfl
      · exact I
  | sigsuspend set =>
    simp only [Op.exec, sigsuspend] at he
    cases hl : sigLowest (~~~set &&& sigPendingset s.head s) with
    | some signo =>
      rw [hl] at he
      dsimp only at he
      have hq := quiet_removependingsignal s.head signo s
      cases hr : sigRemovependingsignal s.head signo s with
      | mk s1 r =>
        rw [hr] at he hq
        cases r with
        | none => cases he
        | some n =>
          cases he
          exact I.quiet (hq.trans (quiet_releasependingsignal n s1))
    | none =>
      rw [hl] at he
      cases he
      apply I.reframe
      · rfl
      · apply Inv.Next.plain (I.targets s.head I.head)
        · intro u info pc h
          cases h
        · exact I.masks s.head I.head
  | sigtimedwait set wdog =>
    simp only [Op.exec, sigtimedwait] at he
    cases hl : sigLowest (set &&& sigPendingset s.head s) with
    | some signo =>
      rw [hl] at he
      dsimp only at he
      have hq := quiet_removependingsignal s.head signo s
      cases hr : sigRemovependingsignal s.head signo s with
      | mk s1 r =>
        rw [hr] at he hq
        cases r with
        | none => cases he
        | some n =>
          cases he
          apply I.quiet
          apply hq.trans
          apply Quiet.trans _ (quiet_releasependingsignal n _)
          apply quiet_modify
          · rfl
          · rfl
          · rfl
    | none =>
      rw [hl] at he
      cases he
      apply I.reframe
      · rfl
      · apply Inv.Next.plain (I.targets s.head I.head)
        · intro u info pc h
          cases h
        · exact I.masks s.head I.head
  | sigdeliver =>
    cases he
    exact I.resume (hk rfl)
  | switch t =>
    cases he
    exact ⟨I.core, hv.2.1, I.targets, I.masks, I.broken⟩
  | interrupt t info => exact I.interrupt hv.1 he
  | timeout t =>
    cases he
    unfold sigTimeout
    split
    · apply I.quiet
      apply quiet_modify
      · rfl
      · rfl
      · rfl
    · exact I

end

theorem started_view (b : Blocks) (tasks : List Nat) (head : Nat) (masks : Nat → Sigset) (t : Nat) :
    (started b tasks head masks).core.view t = ⟨[], [], [], [], [], [], false⟩ := rfl

theorem block_nodup (base n : Nat) : (block base n).Nodup := List.nodup_range'

theorem Initial.inv {s : State} (h : Initial s) : Inv s := by
  obtain ⟨b, hb, tasks, htasks, head, hhead, masks, rfl⟩ := h
  have howned : ∀ l : List Nat, owned l (fun t =>
      ((started b tasks head masks).core.view t).nodes) = [] := by
    intro l
    induction l with
    | nil => rfl
    | cons t l ih => exact ih
  constructor
  · constructor
    · exact htasks
    · unfold Core.nodes
      rw [howned, List.append_nil]
      show (block b.actions numPendingActions ++ block b.irqactions numPendingIntActions ++ []).Nodup
      rw [List.append_nil]
      exact (block_nodup _ _).append (block_nodup _ _) hb.actions
    · intro t _
      rw [started_view]
      exact ⟨rfl, List.Pairwise.nil, fun f hf => absurd hf List.not_mem_nil, rfl, .refl _⟩
    · intro t _
      left
      rw [started_view]
      exact .inl rfl
  · exact hhead
  · intro t _ f hf
    exact absurd hf List.not_mem_nil
  · intro t _
    trivial
  · rfl

/-- The nodes whose handlers have been announced by moving them to `sigpostedq`, and
not called yet. -/
def Tcb.taken (c : Tcb) : List Nat := c.frames.flatMap Frame.taken

def Tcb.releasing (c : Tcb) : List Nat := c.frames.flatMap Frame.releasing

/-- Each action that was ever queued has been delivered, in the order of the queue, or
waits for its delivery, which is under way; each delivered action has been released, or
is about to be. -/
structure ActionsOnce (s : State) : Prop where
  in_order : ∀ t ∈ s.tasks, (s.tcb t).history.queued = (s.tcb t).history.delivered ++
    ((s.tcb t).taken ++ (s.tcb t).sigpendactionq).map fun n => (s.sigq n).act
  released : ∀ t ∈ s.tasks, ((s.tcb t).history.released ++
      ((s.tcb t).sigpostedq ++ (s.tcb t).releasing).map fun n => (s.sigq n).act).Perm
    ((s.tcb t).history.delivered ++ (s.tcb t).taken.map fun n => (s.sigq n).act)
  under_way : ∀ t ∈ s.tasks, (s.tcb t).sigpendactionq ≠ [] →
    (s.tcb t).sigdeliver = true ∨ (∃ f ∈ (s.tcb t).frames, f.settled = false) ∨
      ∃ u ∈ s.tasks, ∃ info, Frame.received t info .schedule ∈ (s.tcb u).frames
  one_place : s.actionNodes.Nodup
  mask : ∀ t ∈ s.tasks, ∀ next save entry below,
    (s.tcb t).frames = .deliver none next save entry .fetch :: below →
      (s.tcb t).sigprocmask = entry

theorem unsettled_of_covers {q : List Nat} {f : Frame} (h : f.Covers q) (hr : f.Refs q) :
    f.settled = false := by
  cases hs : f.settled with
  | false => rfl
  | true => exact absurd h (View.not_covers_of_settled hs hr)

theorem Inv.actionsOnce {s : State} (I : Inv s) : ActionsOnce s := by
  have htaken : ∀ t, (s.core.view t).active.flatMap Frame.taken = (s.tcb t).taken :=
    fun t => flatMap_filter_active _ taken_inactive _
  have hrel : ∀ t, (s.core.view t).active.flatMap Frame.releasing = (s.tcb t).releasing :=
    fun t => flatMap_filter_active _ releasing_inactive _
  constructor
  · intro t ht
    have h := (I.core.task t ht).queued
    rw [htaken] at h
    exact h
  · intro t ht
    have h := (I.core.task t ht).released
    rw [htaken, hrel] at h
    exact h
  · intro t ht hq
    rcases I.core.due t ht with hd | ⟨u, hu, info, hf⟩
    · rcases hd with hd | hd | ⟨f, hf, hc⟩
      · exact absurd hd hq
      · exact .inl hd
      · right
        left
        refine ⟨f, (List.mem_filter.mp hf).1, ?_⟩
        exact unsettled_of_covers hc ((I.core.task t ht).refs f hf)
    · exact .inr (.inr ⟨u, hu, info, (List.mem_filter.mp hf).1⟩)
  · rw [← core_nodes]
    exact I.core.nodes
  · intro t ht next save entry below hf
    have h := I.masks t ht
    rw [hf] at h
    exact h.1

/-- Whatever tasks, handlers and interrupt handlers do, signal actions run exactly once
and in order as long as the activations of `sig_deliver` on a task do not overlap. -/
theorem actions_once {s : State} (h : Reach sigMachine Initial (fun s i => i.deliversAlone s) s) :
    ActionsOnce s := by
  have I : Inv s := by
    apply Reach.invariant (I := Inv) _ _ h
    · exact fun s hs => hs.inv
    · exact fun s i s' I hv hk he => I.step hv hk he
  exact I.actionsOnce

def sigTwo : State := started ⟨100, 200, 300, 400⟩ [1, 2] 1 fun _ => 0

theorem sigTwo_initial : Initial sigTwo :=
  ⟨⟨100, 200, 300, 400⟩,
    ⟨List.disjoint_left.mpr (by decide), List.disjoint_left.mpr (by decide)⟩, [1, 2],
    by decide, 1, by decide, fun _ => 0, rfl⟩

/-- A task installs two handlers and is interrupted by both signals; it goes on inside
the first handler. -/
def interrupted : List Op :=
  [.sigaction 1 (some (7, 0)), .sigaction 2 (some (8, 0)), .interrupt 1 ⟨1, 0, 0⟩,
    .interrupt 1 ⟨2, 0, 0⟩, .sigdeliver, .step none, .step none, .step none]

/-- The first handler returns, its node is released and the second one is called. -/
theorem actions_once_run : ∃ s, Reach sigMachine Initial (fun s i => i.deliversAlone s) s ∧
    (s.tcb 1).history.delivered.map Action.sighandler = [7, 8] ∧ ActionsOnce s := by
  have hr : ((runAll sigMachine (fun s i => i.deliversAlone s) sigTwo
      (interrupted ++ List.replicate 8 (.step none))).any fun s =>
        decide ((s.tcb 1).history.delivered.map Action.sighandler = [7, 8])) = true := by
    decide +kernel
  obtain ⟨s, hs, hd⟩ := (Option.any_eq_true _ _).mp hr
  have h := Reach.runAll (.init sigTwo_initial) hs
  exact ⟨s, h, of_decide_eq_true hd, actions_once h⟩

/-- From inside the first handler the task sends itself the second signal again: the
nested `sig_deliver` delivers the node that the outer one has saved as the next, and the
outer one delivers it again. -/
theorem delivered_twice : ¬∀ s, Reachable sigMachine Initial s → ActionsOnce s := by
  intro hall
  have hr : ((runAll sigMachine (fun _ _ => True) sigTwo
      (interrupted ++ [.kill 1 ⟨2, 0, 5⟩] ++ List.replicate 30 (.step none))).any fun s =>
        decide ((s.tcb 1).history.queued.length < (s.tcb 1).history.delivered.length ∧
          1 ∈ s.tasks)) = true := by
    decide +kernel
  obtain ⟨s, hs, hd⟩ := (Option.any_eq_true _ _).mp hr
  obtain ⟨hlt, ht⟩ := of_decide_eq_true hd
  have h := congrArg List.length ((hall s (Reach.runAll (.init sigTwo_initial) hs)).in_order 1 ht)
  rw [List.length_append] at h
  omega

end NuttxAvr32.Sig
