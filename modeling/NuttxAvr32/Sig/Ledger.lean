import NuttxAvr32.Sig.Deliver
import NuttxAvr32.Lib.Apart

/-! # The ledger of signals

What has become of each signal that `sig_received` has accepted: its action was queued, no
handler was installed, `sigwaitinfo` returned it, a later signal of its number replaced it,
or it is still pending or on its way. Each node of a pending signal is in one place.
-/

namespace NuttxAvr32.Sig

open Owners Apart Runs
open Function (update update_idem update_self update_of_ne)

/-- The signal for a task that an activation of `sig_received` has still to settle. -/
def Frame.inFlight (t : Nat) : Frame → List Siginfo
  | .received _ _ .schedule => []
  | .received _ _ .wake => []
  | .received u info _ => if u = t then [info] else []
  | _ => []

def History.booked (h : History) : List Siginfo :=
  h.queued.map Action.info ++ h.ignored ++ h.coalesced ++ h.returned

def Tcb.waiting (c : Tcb) : Bool := c.waitSig && decide (c.frames.head? = some .timedwait)

/-- The signal with which `sigtimedwait` is about to return. -/
def Tcb.woken (c : Tcb) : List Siginfo :=
  if .timedwait ∈ c.frames ∧ c.waiting = false ∧ c.sigunbinfo.siSigno ≤ maxSigno then
    [c.sigunbinfo]
  else []

def State.pending (s : State) (t : Nat) : List Siginfo :=
  (s.tcb t).sigpendingq.map fun n => (s.sigpend n).info

def State.inFlight (s : State) (t : Nat) : List Siginfo :=
  owned s.tasks fun u => (s.tcb u).frames.flatMap (Frame.inFlight t)

inductive Place
  | fixed
  | irq
  | pend (t : Nat)
  | held (t : Nat)

def State.places (s : State) : Place → List Nat
  | .fixed => s.gSigpendingsignal
  | .irq => s.gSigpendingirqsignal
  | .pend t => (s.tcb t).sigpendingq
  | .held t => (s.tcb t).frames.flatMap Frame.signalNode

/-- What the invariant says of the number of times a signal is booked, `d` apart: between the
parts of a step the two sides differ. -/
structure Kept (s : State) (d : Nat → Siginfo → Int) : Prop where
  tasks : s.tasks.Nodup
  nodes : Apart s.places
  outside : ∀ t, t ∉ s.tasks → (s.tcb t).frames = [] ∧ (s.tcb t).sigpendingq = []
  signo : ∀ t, ∀ f ∈ (s.tcb t).frames, ∀ u info pc, f = .received u info pc →
    info.siSigno ≤ maxSigno
  pendsigno : ∀ t, ∀ n ∈ (s.tcb t).sigpendingq, (s.sigpend n).info.siSigno ≤ maxSigno
  numbers : ∀ t, ((s.pending t).map Siginfo.siSigno).Nodup
  wait : ∀ t, (s.tcb t).waitSig = true → (s.tcb t).frames.head? = some .timedwait ∨
    (∃ m, (s.tcb t).frames.head? = some (.suspend m)) ∧ (s.tcb t).sigwaitmask = nullSignalSet
  one : ∀ t, (s.tcb t).frames.count .timedwait ≤ 1
  ledger : ∀ t ∈ s.tasks, ∀ x, ((s.tcb t).history.booked.count x : Int) +
    (s.tcb t).woken.count x + (s.pending t).count x + (s.inFlight t).count x =
      (s.tcb t).history.accepted.count x + d t x

def single (t : Nat) (info : Siginfo) (u : Nat) (x : Siginfo) : Int :=
  if u = t ∧ x = info then 1 else 0

theorem count_singleton_self (info x : Siginfo) (t : Nat) :
    (([info] : List Siginfo).count x : Int) = single t info t x := by
  unfold single
  by_cases h : x = info
  · subst h
    simp
  · simp [h, Ne.symm h]

theorem single_of_ne {t u : Nat} (h : u ≠ t) (info x : Siginfo) : single t info u x = 0 := by
  unfold single
  rw [if_neg fun h' => h h'.1]

structure SameBooks (s s' : State) : Prop where
  tasks : s'.tasks = s.tasks
  frames : ∀ t, (s'.tcb t).frames = (s.tcb t).frames
  pendq : ∀ t, (s'.tcb t).sigpendingq = (s.tcb t).sigpendingq
  infos : ∀ n, (s'.sigpend n).info = (s.sigpend n).info
  waitSig : ∀ t, (s'.tcb t).waitSig = (s.tcb t).waitSig
  waitmask : ∀ t, (s'.tcb t).sigwaitmask = (s.tcb t).sigwaitmask
  unbinfo : ∀ t, (s'.tcb t).sigunbinfo = (s.tcb t).sigunbinfo
  booked : ∀ t, (s'.tcb t).history.booked = (s.tcb t).history.booked
  accepted : ∀ t, (s'.tcb t).history.accepted = (s.tcb t).history.accepted

section

variable {s s' : State} {d z : Nat → Siginfo → Int} {t u n : Nat} {info x : Siginfo}
  {f : Tcb → Tcb} {fs below : List Frame}

theorem Kept.congr (K : Kept s d) (hd : ∀ t x, z t x = d t x) : Kept s z := by
  have h : z = d := by
    funext t x
    exact hd t x
  rw [h]
  exact K

theorem modify_field {β : Type} (p : Tcb → β) (h : p (f (s.tcb t)) = p (s.tcb t)) (u : Nat) :
    p ((s.modify t f).tcb u) = p (s.tcb u) := by
  by_cases hu : u = t
  · subst hu
    rw [modify_tcb_same]
    exact h
  · rw [modify_tcb_of_ne hu]

theorem SameBooks.pending (h : SameBooks s s') (t : Nat) : s'.pending t = s.pending t := by
  unfold State.pending
  rw [h.pendq]
  apply List.map_congr_left
  intro n _
  exact h.infos n

theorem SameBooks.inFlight (h : SameBooks s s') (t : Nat) : s'.inFlight t = s.inFlight t := by
  unfold State.inFlight
  rw [h.tasks]
  apply owned_congr
  intro u _
  rw [h.frames]

theorem SameBooks.woken (h : SameBooks s s') (t : Nat) : (s'.tcb t).woken = (s.tcb t).woken := by
  unfold Tcb.woken Tcb.waiting
  rw [h.frames, h.waitSig, h.unbinfo]

theorem Kept.same (K : Kept s d) (h : SameBooks s s') (hn : Apart s'.places) : Kept s' d := by
  refine ⟨?_, hn, fun t ht => ?_, fun t => ?_, fun t n hm => ?_, fun t => ?_, fun t ht => ?_,
    fun t => ?_, fun t ht x => ?_⟩
  · rw [h.tasks]
    exact K.tasks
  · rw [h.tasks] at ht
    rw [h.frames, h.pendq]
    exact K.outside t ht
  · rw [h.frames]
    exact K.signo t
  · rw [h.pendq] at hm
    rw [h.infos]
    exact K.pendsigno t n hm
  · rw [h.pending]
    exact K.numbers t
  · rw [h.waitSig] at ht
    rw [h.frames, h.waitmask]
    exact K.wait t ht
  · rw [h.frames]
    exact K.one t
  · rw [h.tasks] at ht
    rw [h.booked, h.woken, h.pending, h.inFlight, h.accepted]
    exact K.ledger t ht x

theorem SameBooks.places (h : SameBooks s s') (h1 : s'.gSigpendingsignal = s.gSigpendingsignal)
    (h2 : s'.gSigpendingirqsignal = s.gSigpendingirqsignal) : s'.places = s.places := by
  funext a
  cases a with
  | fixed => exact h1
  | irq => exact h2
  | pend t => exact h.pendq t
  | held t =>
      show (s'.tcb t).frames.flatMap _ = (s.tcb t).frames.flatMap _
      rw [h.frames]

theorem SameBooks.refl : SameBooks s s :=
  ⟨rfl, fun _ => rfl, fun _ => rfl, fun _ => rfl, fun _ => rfl, fun _ => rfl, fun _ => rfl,
    fun _ => rfl, fun _ => rfl⟩

theorem Kept.frames {l : List Frame} (K : Kept s d) (hh : s.head ∈ s.tasks) (hw : (s.tcb s.head).waitSig = false)
    (hn : Apart (s.frames l).places)
    (hsig : ∀ f ∈ l, ∀ u info pc, f = .received u info pc → info.siSigno ≤ maxSigno)
    (htw : l.count .timedwait = (s.tcb s.head).frames.count .timedwait) :
    Kept (s.frames l) fun t x => d t x + (l.flatMap (Frame.inFlight t)).count x -
      ((s.tcb s.head).frames.flatMap (Frame.inFlight t)).count x := by
  have hframes : ∀ v, ((s.frames l).tcb v).frames = if v = s.head then l else (s.tcb v).frames := by
    intro v
    by_cases hv : v = s.head
    · rw [if_pos hv, hv]
      unfold State.frames
      rw [modify_tcb_same]
    · rw [if_neg hv]
      unfold State.frames
      rw [modify_tcb_of_ne hv]
  have hfield : ∀ {β : Type} (p : Tcb → β), (∀ c : Tcb, p { c with frames := l } = p c) →
      ∀ v, p ((s.frames l).tcb v) = p (s.tcb v) :=
    fun p hp v => modify_field p (hp _) v
  have hmem : ∀ v, .timedwait ∈ ((s.frames l).tcb v).frames ↔ .timedwait ∈ (s.tcb v).frames := by
    intro v
    rw [hframes]
    split
    · rename_i hv
      rw [hv, ← List.count_pos_iff, ← List.count_pos_iff, htw]
    · rfl
  have hwoken : ∀ v, ((s.frames l).tcb v).woken = (s.tcb v).woken := by
    intro v
    have hwaiting : ((s.frames l).tcb v).waiting = (s.tcb v).waiting := by
      unfold Tcb.waiting
      rw [hfield Tcb.waitSig (fun _ => rfl), hframes]
      split
      · rename_i hv
        rw [hv, hw]
        rfl
      · rfl
    unfold Tcb.woken
    rw [hfield Tcb.sigunbinfo (fun _ => rfl), hwaiting]
    simp only [hmem]
  refine ⟨K.tasks, hn, fun v hv => ?_, fun v g hg u info pc hp => ?_, fun v m hm => ?_, fun v => ?_,
    fun v hv => ?_, fun v => ?_, fun v hv x => ?_⟩
  · have hne : v ≠ s.head := by
      rintro rfl
      exact hv hh
    rw [hframes, if_neg hne, hfield Tcb.sigpendingq (fun _ => rfl)]
    exact K.outside v hv
  · rw [hframes] at hg
    split at hg
    · exact hsig g hg u info pc hp
    · exact K.signo v g hg u info pc hp
  · rw [hfield Tcb.sigpendingq (fun _ => rfl)] at hm
    exact K.pendsigno v m hm
  · unfold State.pending
    rw [hfield Tcb.sigpendingq (fun _ => rfl)]
    exact K.numbers v
  · rw [hfield Tcb.waitSig (fun _ => rfl)] at hv
    rw [hframes, hfield Tcb.sigwaitmask (fun _ => rfl)]
    split
    · rename_i h
      rw [h, hw] at hv
      cases hv
    · exact K.wait v hv
  · rw [hframes]
    split
    · rename_i h
      rw [htw, ← h]
      exact K.one v
    · exact K.one v
  · have hflight : ((s.frames l).inFlight v).count x +
        ((s.tcb s.head).frames.flatMap (Frame.inFlight v)).count x =
          (s.inFlight v).count x + (l.flatMap (Frame.inFlight v)).count x := by
      have hupdate : (s.frames l).inFlight v = owned s.tasks (update
          (fun u => (s.tcb u).frames.flatMap (Frame.inFlight v)) s.head
            (l.flatMap (Frame.inFlight v))) := by
        apply owned_congr
        intro u _
        rw [hframes]
        by_cases hu : u = s.head
        · subst hu
          rw [if_pos rfl, update_self]
        · rw [if_neg hu, update_of_ne hu]
      have h1 := (owned_update_perm (f := fun u => (s.tcb u).frames.flatMap (Frame.inFlight v))
        (l := l.flatMap (Frame.inFlight v)) K.tasks hh).count_eq x
      have h2 := (owned_perm (f := fun u => (s.tcb u).frames.flatMap (Frame.inFlight v)) hh).count_eq x
      rw [List.count_append] at h1 h2
      rw [hupdate, h1]
      unfold State.inFlight
      rw [h2]
      omega
    have hl := K.ledger v hv x
    unfold State.pending
    rw [hfield Tcb.history (fun _ => rfl), hwoken, hfield Tcb.sigpendingq (fun _ => rfl)]
    unfold State.pending at hl
    show _ + _ + (((s.tcb v).sigpendingq.map fun n => (s.sigpend n).info).count x : Int) + _ = _
    omega

structure SameWaits (s s' : State) : Prop where
  tasks : s'.tasks = s.tasks
  frames : ∀ v, (s'.tcb v).frames = (s.tcb v).frames
  waitSig : ∀ v, (s'.tcb v).waitSig = (s.tcb v).waitSig
  waitmask : ∀ v, (s'.tcb v).sigwaitmask = (s.tcb v).sigwaitmask
  unbinfo : ∀ v, (s'.tcb v).sigunbinfo = (s.tcb v).sigunbinfo

theorem SameWaits.woken (h : SameWaits s s') (v : Nat) : (s'.tcb v).woken = (s.tcb v).woken := by
  unfold Tcb.woken Tcb.waiting
  rw [h.frames, h.waitSig, h.unbinfo]

theorem SameWaits.inFlight (h : SameWaits s s') (v : Nat) : s'.inFlight v = s.inFlight v := by
  unfold State.inFlight
  rw [h.tasks]
  apply owned_congr
  intro u _
  rw [h.frames]

theorem Kept.change (K : Kept s d) (h : SameWaits s s') (hn : Apart s'.places)
    (hout : ∀ v, v ∉ s.tasks → (s'.tcb v).sigpendingq = [])
    (hsig : ∀ v, ∀ n ∈ (s'.tcb v).sigpendingq, (s'.sigpend n).info.siSigno ≤ maxSigno)
    (hnum : ∀ v, ((s'.pending v).map Siginfo.siSigno).Nodup)
    (hd : ∀ v x, ((s'.tcb v).history.booked.count x : Int) + (s'.pending v).count x -
        (s'.tcb v).history.accepted.count x =
      (s.tcb v).history.booked.count x + (s.pending v).count x -
        (s.tcb v).history.accepted.count x + z v x) :
    Kept s' fun v x => d v x + z v x := by
  refine ⟨?_, hn, fun v hv => ?_, fun v => ?_, hsig, hnum, fun v hv => ?_, fun v => ?_,
    fun v hv x => ?_⟩
  · rw [h.tasks]
    exact K.tasks
  · rw [h.tasks] at hv
    rw [h.frames]
    exact ⟨(K.outside v hv).1, hout v hv⟩
  · rw [h.frames]
    exact K.signo v
  · rw [h.waitSig] at hv
    rw [h.frames, h.waitmask]
    exact K.wait v hv
  · rw [h.frames]
    exact K.one v
  · rw [h.tasks] at hv
    have hl := K.ledger v hv x
    have hx := hd v x
    rw [h.woken, h.inFlight]
    omega

theorem SameWaits.places (h : SameWaits s s') (hp : ∀ v, (s'.tcb v).sigpendingq = (s.tcb v).sigpendingq)
    (h1 : s'.gSigpendingsignal = s.gSigpendingsignal)
    (h2 : s'.gSigpendingirqsignal = s.gSigpendingirqsignal) : s'.places = s.places := by
  funext a
  cases a with
  | fixed => exact h1
  | irq => exact h2
  | pend t => exact hp t
  | held t =>
      show (s'.tcb t).frames.flatMap _ = (s.tcb t).frames.flatMap _
      rw [h.frames]

theorem sameWaits_modify (h1 : (f (s.tcb t)).frames = (s.tcb t).frames)
    (h2 : (f (s.tcb t)).waitSig = (s.tcb t).waitSig)
    (h3 : (f (s.tcb t)).sigwaitmask = (s.tcb t).sigwaitmask)
    (h4 : (f (s.tcb t)).sigunbinfo = (s.tcb t).sigunbinfo) : SameWaits s (s.modify t f) :=
  ⟨rfl, modify_field Tcb.frames h1, modify_field Tcb.waitSig h2, modify_field Tcb.sigwaitmask h3,
    modify_field Tcb.sigunbinfo h4⟩

theorem Kept.log {g : History → History} {z : Siginfo → Int} (K : Kept s d)
    (hg : ∀ h x, ((g h).booked.count x : Int) - (g h).accepted.count x =
      h.booked.count x - h.accepted.count x + z x) :
    Kept (s.modify t fun c => c.log g) fun v x => d v x + if v = t then z x else 0 := by
  have hw : SameWaits s (s.modify t fun c => c.log g) := sameWaits_modify rfl rfl rfl rfl
  have hp : ∀ v, ((s.modify t fun c => c.log g).tcb v).sigpendingq = (s.tcb v).sigpendingq :=
    modify_field Tcb.sigpendingq rfl
  have hpending : ∀ v, (s.modify t fun c => c.log g).pending v = s.pending v := by
    intro v
    unfold State.pending
    rw [hp]
    rfl
  apply K.change hw
  · rw [hw.places hp rfl rfl]
    exact K.nodes
  · intro v hv
    rw [hp]
    exact (K.outside v hv).2
  · intro v n hn
    rw [hp] at hn
    exact K.pendsigno v n hn
  · intro v
    rw [hpending]
    exact K.numbers v
  · intro v x
    rw [hpending]
    by_cases hv : v = t
    · subst hv
      have hx := hg (s.tcb v).history x
      rw [modify_tcb_same, if_pos rfl]
      show ((g (s.tcb v).history).booked.count x : Int) + _ - (g (s.tcb v).history).accepted.count x = _
      omega
    · rw [modify_tcb_of_ne hv, if_neg hv]
      omega

theorem Kept.accept (K : Kept s d) (t : Nat) (info : Siginfo) :
    Kept (accept t info s) fun v x => d v x - single t info v x := by
  have h := K.log (t := t) (g := fun h => { h with accepted := h.accepted ++ [info] })
    (z := fun x => -(([info] : List Siginfo).count x : Int)) fun h x => by
      have hb : ({ h with accepted := h.accepted ++ [info] } : History).booked = h.booked := rfl
      rw [hb]
      simp only [List.count_append]
      push_cast
      omega
  apply h.congr
  intro v x
  rw [count_singleton_self info x t]
  unfold single
  by_cases hv : v = t
  · rw [if_pos hv]
    simp [hv]
    omega
  · simp [hv]

theorem Kept.ignore (K : Kept s d) (t : Nat) (info : Siginfo) :
    Kept (ignore t info s) fun v x => d v x + single t info v x := by
  have h := K.log (t := t) (g := fun h => { h with ignored := h.ignored ++ [info] })
    (z := fun x => (([info] : List Siginfo).count x : Int)) fun h x => by
      unfold History.booked
      simp only [List.count_append]
      push_cast
      omega
  apply h.congr
  intro v x
  rw [count_singleton_self info x t]
  unfold single
  by_cases hv : v = t
  · rw [if_pos hv]
    simp [hv]
  · simp [hv]

theorem count_map_update {g : Nat → Siginfo} {l : List Nat} {i : Siginfo} (hn : l.Nodup) (hm : n ∈ l)
    (x : Siginfo) : ((l.map (update g n i)).count x : Int) =
      (l.map g).count x + ([i] : List Siginfo).count x - ([g n] : List Siginfo).count x := by
  have hp := List.perm_cons_erase hm
  have hrest : (l.erase n).map (update g n i) = (l.erase n).map g := by
    apply List.map_congr_left
    intro m hm'
    apply update_of_ne
    rintro rfl
    exact (hn.mem_erase_iff.mp hm').1 rfl
  have h1 := (hp.map (update g n i)).count_eq x
  have h2 := (hp.map g).count_eq x
  rw [List.map_cons, hrest, update_self] at h1
  rw [List.map_cons] at h2
  rw [← List.singleton_append, List.count_append] at h1 h2
  omega

theorem info_update (g : Nat → Sigpendq) (n : Nat) (i : Siginfo) :
    (fun m => (update g n { g n with info := i } m).info) =
      update (fun m => (g m).info) n i := by
  funext m
  by_cases hm : m = n
  · subst hm
    simp
  · simp [hm]

theorem map_info_update {g : Nat → Sigpendq} {l : List Nat} {i : Siginfo} (hn : n ∉ l) :
    (l.map fun m => (update g n { g n with info := i } m).info) =
      l.map fun m => (g m).info := by
  apply List.map_congr_left
  intro m hm
  have hne : m ≠ n := fun h => hn (h ▸ hm)
  rw [update_of_ne hne]

theorem Kept.copyPending (K : Kept s d) (hm : n ∈ (s.tcb t).sigpendingq)
    (hno : (s.sigpend n).info.siSigno = info.siSigno) :
    Kept (copyPending t info n s) fun v x => d v x + single t info v x := by
  let g : Tcb → Tcb := fun c =>
    c.log fun h => { h with coalesced := h.coalesced ++ [(s.sigpend n).info] }
  let s1 : State :=
    { s with sigpend := update s.sigpend n { s.sigpend n with info } }
  have hs : Sig.copyPending t info n s = s1.modify t g := rfl
  have hw : SameWaits s (s1.modify t g) :=
    ⟨rfl, modify_field (s := s1) Tcb.frames rfl, modify_field (s := s1) Tcb.waitSig rfl,
      modify_field (s := s1) Tcb.sigwaitmask rfl, modify_field (s := s1) Tcb.sigunbinfo rfl⟩
  have hp : ∀ v, ((s1.modify t g).tcb v).sigpendingq = (s.tcb v).sigpendingq :=
    modify_field (s := s1) Tcb.sigpendingq rfl
  have hsigno : ∀ m, ((s1.modify t g).sigpend m).info.siSigno = (s.sigpend m).info.siSigno := by
    intro m
    show (update s.sigpend n { s.sigpend n with info } m).info.siSigno = _
    by_cases hmn : m = n
    · subst hmn
      rw [update_self]
      exact hno.symm
    · rw [update_of_ne hmn]
  have hpending : ∀ v, v ≠ t → (s1.modify t g).pending v = s.pending v := by
    intro v hv
    unfold State.pending
    rw [hp]
    apply map_info_update
    intro hn
    have h := K.nodes.unique (.pend v) (.pend t) n hn hm
    cases h
    exact hv rfl
  rw [hs]
  apply K.change hw
  · rw [hw.places hp rfl rfl]
    exact K.nodes
  · intro v hv
    rw [hp]
    exact (K.outside v hv).2
  · intro v m hm'
    rw [hp] at hm'
    rw [hsigno]
    exact K.pendsigno v m hm'
  · intro v
    have heq : ((s1.modify t g).pending v).map Siginfo.siSigno = (s.pending v).map Siginfo.siSigno := by
      unfold State.pending
      rw [hp, List.map_map, List.map_map]
      apply List.map_congr_left
      intro m _
      exact hsigno m
    rw [heq]
    exact K.numbers v
  · intro v x
    by_cases hv : v = t
    · subst hv
      have hcount : (((s1.modify v g).pending v).count x : Int) = (s.pending v).count x +
          ([info] : List Siginfo).count x - ([(s.sigpend n).info] : List Siginfo).count x := by
        unfold State.pending
        rw [hp]
        show ((((s.tcb v).sigpendingq).map fun m =>
          (update s.sigpend n { s.sigpend n with info } m).info).count x : Int) = _
        rw [info_update]
        exact count_map_update (K.nodes.nodup (.pend v)) hm x
      rw [hcount, modify_tcb_same, ← count_singleton_self]
      show ((g (s.tcb v)).history.booked.count x : Int) + _ - (s.tcb v).history.accepted.count x = _
      unfold History.booked
      show (((s.tcb v).history.queued.map Action.info ++ (s.tcb v).history.ignored ++
        ((s.tcb v).history.coalesced ++ [(s.sigpend n).info]) ++
          (s.tcb v).history.returned).count x : Int) + _ - _ = _
      simp only [List.count_append]
      push_cast
      omega
    · rw [hpending v hv, modify_tcb_of_ne hv, single_of_ne hv]
      show ((s.tcb v).history.booked.count x : Int) + _ - (s.tcb v).history.accepted.count x = _
      omega

theorem Kept.addPending (K : Kept s d) (ht : t ∈ s.tasks) (hn : ∀ a, n ∉ s.places a)
    (hi : info.siSigno ≤ maxSigno)
    (hno : ∀ m ∈ (s.tcb t).sigpendingq, (s.sigpend m).info.siSigno ≠ info.siSigno) :
    Kept (addPending t info n s) fun v x => d v x + single t info v x := by
  let g : Tcb → Tcb := fun c => { c with sigpendingq := c.sigpendingq ++ [n] }
  let s1 : State :=
    { s with sigpend := update s.sigpend n { s.sigpend n with info } }
  have hs : Sig.addPending t info n s = s1.modify t g := rfl
  have hw : SameWaits s (s1.modify t g) :=
    ⟨rfl, modify_field (s := s1) Tcb.frames rfl, modify_field (s := s1) Tcb.waitSig rfl,
      modify_field (s := s1) Tcb.sigwaitmask rfl, modify_field (s := s1) Tcb.sigunbinfo rfl⟩
  have hself : ((s1.modify t g).tcb t).sigpendingq = (s.tcb t).sigpendingq ++ [n] := by
    rw [modify_tcb_same]
  have hother : ∀ v, v ≠ t → ((s1.modify t g).tcb v).sigpendingq = (s.tcb v).sigpendingq := by
    intro v hv
    rw [modify_tcb_of_ne hv]
  have hpending : ∀ v, v ≠ t → (s1.modify t g).pending v = s.pending v := by
    intro v hv
    unfold State.pending
    rw [hother v hv]
    exact map_info_update (hn (.pend v))
  have hpendself : (s1.modify t g).pending t = s.pending t ++ [info] := by
    unfold State.pending
    rw [hself, List.map_append]
    have h := map_info_update (g := s.sigpend) (i := info) (hn (.pend t))
    apply congrArg₂ _ h
    show [(update s.sigpend n { s.sigpend n with info } n).info] = [info]
    rw [update_self]
  rw [hs]
  apply K.change hw
  · apply K.nodes.put hn (a := .pend t)
    · show ((s1.modify t g).tcb t).sigpendingq.Perm _
      rw [hself]
      exact List.perm_append_singleton n _
    · intro a ha
      cases a with
      | fixed => rfl
      | irq => rfl
      | pend v =>
          have hv : v ≠ t := fun h => ha (by rw [h])
          exact hother v hv
      | held v =>
          show ((s1.modify t g).tcb v).frames.flatMap _ = (s.tcb v).frames.flatMap _
          rw [hw.frames]
  · intro v hv
    have hvt : v ≠ t := fun h => hv (h ▸ ht)
    rw [hother v hvt]
    exact (K.outside v hv).2
  · intro v m hm
    show (update s.sigpend n { s.sigpend n with info } m).info.siSigno ≤ maxSigno
    by_cases hmn : m = n
    · subst hmn
      rw [update_self]
      exact hi
    · rw [update_of_ne hmn]
      by_cases hv : v = t
      · subst hv
        rw [hself] at hm
        rcases List.mem_append.mp hm with hm | hm
        · exact K.pendsigno v m hm
        · exact absurd (List.mem_singleton.mp hm) hmn
      · rw [hother v hv] at hm
        exact K.pendsigno v m hm
  · intro v
    by_cases hv : v = t
    · subst hv
      rw [hpendself, List.map_append]
      apply (K.numbers v).append (List.nodup_singleton _)
      apply List.disjoint_singleton.mpr
      intro hmem
      obtain ⟨i, hi', hie⟩ := List.mem_map.mp hmem
      obtain ⟨m, hm, rfl⟩ := List.mem_map.mp hi'
      exact hno m hm hie
    · rw [hpending v hv]
      exact K.numbers v
  · intro v x
    by_cases hv : v = t
    · subst hv
      rw [hpendself, modify_tcb_same, ← count_singleton_self, List.count_append]
      show ((s.tcb v).history.booked.count x : Int) + _ - (s.tcb v).history.accepted.count x = _
      push_cast
      omega
    · rw [hpending v hv, modify_tcb_of_ne hv, single_of_ne hv]
      show ((s.tcb v).history.booked.count x : Int) + _ - (s.tcb v).history.accepted.count x = _
      omega

theorem find_pending {signo : Nat} (h : sigFindpendingsignal t signo s = some n) :
    n ∈ (s.tcb t).sigpendingq ∧ (s.sigpend n).info.siSigno = signo := by
  unfold sigFindpendingsignal at h
  have hp := List.find?_some h
  exact ⟨List.mem_of_find?_eq_some h, of_decide_eq_true hp⟩

theorem Kept.removePending (K : Kept s d) {signo : Nat}
    (hr : sigRemovependingsignal t signo s = (s', some n)) :
    (Kept s' fun v x => d v x - single t (s.sigpend n).info v x) ∧ (∀ a, n ∉ s'.places a) ∧
      (s.sigpend n).info.siSigno = signo ∧ (s.sigpend n).info.siSigno ≤ maxSigno ∧
        s'.sigpend = s.sigpend ∧ s' = s.modify t fun c =>
          { c with sigpendingq := c.sigpendingq.erase n } := by
  unfold sigRemovependingsignal at hr
  split at hr
  · rename_i m hfind
    cases hr
    obtain ⟨hm, hno⟩ := find_pending hfind
    let g : Tcb → Tcb := fun c => { c with sigpendingq := c.sigpendingq.erase n }
    have hw : SameWaits s (s.modify t g) := sameWaits_modify rfl rfl rfl rfl
    have hself : ((s.modify t g).tcb t).sigpendingq = (s.tcb t).sigpendingq.erase n := by
      rw [modify_tcb_same]
    have hother : ∀ v, v ≠ t → ((s.modify t g).tcb v).sigpendingq = (s.tcb v).sigpendingq := by
      intro v hv
      rw [modify_tcb_of_ne hv]
    have hsub : ∀ v, ((s.modify t g).tcb v).sigpendingq.Sublist (s.tcb v).sigpendingq := by
      intro v
      by_cases hv : v = t
      · subst hv
        rw [hself]
        exact List.erase_sublist
      · rw [hother v hv]
    have htake := K.nodes.take (a := .pend t) (x := n) (g := (s.modify t g).places)
      (by
        show (s.tcb t).sigpendingq.Perm (n :: ((s.modify t g).tcb t).sigpendingq)
        rw [hself]
        exact List.perm_cons_erase hm)
      (by
        intro a ha
        cases a with
        | fixed => rfl
        | irq => rfl
        | pend v =>
            have hv : v ≠ t := fun h => ha (by rw [h])
            exact hother v hv
        | held v =>
            show ((s.modify t g).tcb v).frames.flatMap _ = (s.tcb v).frames.flatMap _
            rw [hw.frames])
    refine ⟨?_, htake.2, hno, K.pendsigno t n hm, rfl, rfl⟩
    have hc := K.change (z := fun v x => -single t (s.sigpend n).info v x) hw htake.1
      (fun v hv => List.sublist_nil.mp ((K.outside v hv).2 ▸ hsub v))
      (fun v m hm' => K.pendsigno v m ((hsub v).subset hm'))
      (fun v => (K.numbers v).sublist (((hsub v).map _).map _))
      (fun v x => by
        by_cases hv : v = t
        · subst hv
          have hcount := ((List.perm_cons_erase hm).map fun m => (s.sigpend m).info).count_eq x
          rw [List.map_cons, ← List.singleton_append, List.count_append] at hcount
          have hp : (s.modify v g).pending v =
              ((s.tcb v).sigpendingq.erase n).map fun m => (s.sigpend m).info := by
            unfold State.pending
            rw [hself]
            rfl
          rw [hp, modify_tcb_same, ← count_singleton_self]
          unfold State.pending
          show ((s.tcb v).history.booked.count x : Int) + _ - (s.tcb v).history.accepted.count x = _
          omega
        · have hp : (s.modify t g).pending v = s.pending v := by
            unfold State.pending
            rw [hother v hv]
            rfl
          rw [hp, modify_tcb_of_ne hv, single_of_ne hv]
          omega)
    exact hc.congr fun v x => by omega
  · cases hr

theorem Kept.reframe {z : Siginfo → Int} (K : Kept s d) (ht : t ∈ s.tasks)
    (hflight : ∀ v, (f (s.tcb t)).frames.flatMap (Frame.inFlight v) =
      (s.tcb t).frames.flatMap (Frame.inFlight v))
    (hnode : (f (s.tcb t)).frames.flatMap Frame.signalNode =
      (s.tcb t).frames.flatMap Frame.signalNode)
    (hsig : ∀ g ∈ (f (s.tcb t)).frames, ∀ u info pc, g = .received u info pc →
      info.siSigno ≤ maxSigno)
    (hpend : (f (s.tcb t)).sigpendingq = (s.tcb t).sigpendingq)
    (hwait : (f (s.tcb t)).waitSig = true → (f (s.tcb t)).frames.head? = some .timedwait ∨
      (∃ m, (f (s.tcb t)).frames.head? = some (.suspend m)) ∧
        (f (s.tcb t)).sigwaitmask = nullSignalSet)
    (hone : (f (s.tcb t)).frames.count .timedwait ≤ 1)
    (hacc : (f (s.tcb t)).history.accepted = (s.tcb t).history.accepted)
    (hd : ∀ x, ((f (s.tcb t)).history.booked.count x : Int) + (f (s.tcb t)).woken.count x =
      (s.tcb t).history.booked.count x + (s.tcb t).woken.count x + z x) :
    Kept (s.modify t f) fun v x => d v x + if v = t then z x else 0 := by
  have hp : ∀ v, ((s.modify t f).tcb v).sigpendingq = (s.tcb v).sigpendingq :=
    modify_field Tcb.sigpendingq hpend
  have hpending : ∀ v, (s.modify t f).pending v = s.pending v := by
    intro v
    unfold State.pending
    rw [hp]
    rfl
  have hplaces : (s.modify t f).places = s.places := by
    funext a
    cases a with
    | fixed => rfl
    | irq => rfl
    | pend v => exact hp v
    | held v => exact modify_field (fun c => c.frames.flatMap Frame.signalNode) hnode v
  refine ⟨K.tasks, ?_, fun v hv => ?_, fun v => ?_, fun v m hm => ?_, fun v => ?_, fun v => ?_,
    fun v => ?_, fun v hv x => ?_⟩
  · rw [hplaces]
    exact K.nodes
  · have hne : v ≠ t := by
      rintro rfl
      exact hv ht
    rw [modify_tcb_of_ne hne]
    exact K.outside v hv
  · by_cases hv : v = t
    · subst hv
      rw [modify_tcb_same]
      exact hsig
    · rw [modify_tcb_of_ne hv]
      exact K.signo v
  · rw [hp] at hm
    exact K.pendsigno v m hm
  · rw [hpending]
    exact K.numbers v
  · by_cases hv : v = t
    · subst hv
      rw [modify_tcb_same]
      exact hwait
    · rw [modify_tcb_of_ne hv]
      exact K.wait v
  · by_cases hv : v = t
    · subst hv
      rw [modify_tcb_same]
      exact hone
    · rw [modify_tcb_of_ne hv]
      exact K.one v
  · have hl := K.ledger v hv x
    have hfl : (s.modify t f).inFlight v = s.inFlight v := by
      unfold State.inFlight
      apply owned_congr
      intro u _
      exact modify_field (fun c => c.frames.flatMap (Frame.inFlight v)) (hflight v) u
    rw [hpending, hfl]
    by_cases hvt : v = t
    · subst hvt
      have hx := hd x
      rw [modify_tcb_same, hacc, if_pos rfl]
      omega
    · rw [modify_tcb_of_ne hvt, if_neg hvt]
      omega

theorem woken_eq_nil {c : Tcb} (h : Frame.timedwait ∉ c.frames) : c.woken = [] := by
  unfold Tcb.woken
  rw [if_neg fun h' => h h'.1]

theorem Kept.wakeWaiting (K : Kept s d) (ht : t ∈ s.tasks) (hw : (s.tcb t).waitSig = true)
    (hm : sigismember (s.tcb t).sigwaitmask info.siSigno = true) (hi : info.siSigno ≤ maxSigno) :
    Kept (wakeWith t info s) fun v x => d v x + single t info v x := by
  have hhead : (s.tcb t).frames.head? = some .timedwait := by
    rcases K.wait t hw with h | ⟨-, h⟩
    · exact h
    · rw [h] at hm
      simp [sigismember] at hm
  have hmem : Frame.timedwait ∈ (s.tcb t).frames := List.mem_of_mem_head? hhead
  have h := K.reframe (z := fun x => (([info] : List Siginfo).count x : Int)) (f := fun c =>
    { c with
      sigunbinfo := info
      sigwaitmask := nullSignalSet
      waitSig := false }) ht (fun _ => rfl) rfl (K.signo t) rfl (fun h => (by cases h)) (K.one t) rfl
    (fun x => by
      have h1 : (s.tcb t).woken = [] := by
        unfold Tcb.woken Tcb.waiting
        rw [hw, hhead]
        simp
      have h2 : ({ s.tcb t with
          sigunbinfo := info
          sigwaitmask := nullSignalSet
          waitSig := false } : Tcb).woken = [info] := by
        unfold Tcb.woken Tcb.waiting
        rw [if_pos ⟨hmem, rfl, hi⟩]
      rw [h1, h2]
      simp)
  apply h.congr
  intro v x
  rw [count_singleton_self info x t]
  unfold single
  by_cases hv : v = t
  · simp [hv]
  · simp [hv]

theorem Kept.wakeOther {j : Siginfo} (K : Kept s d) (ht : t ∈ s.tasks)
    (hno : (s.tcb t).waitSig = true → Frame.timedwait ∉ (s.tcb t).frames) :
    Kept (wakeWaiter t j s) d := by
  unfold wakeWaiter
  split
  · rename_i hw
    have hn := hno hw
    have h := K.reframe (z := fun _ => 0) (f := fun c =>
      { c with
        sigunbinfo := j
        sigwaitmask := nullSignalSet
        waitSig := false }) ht (fun _ => rfl) rfl (K.signo t) rfl (fun h => (by cases h)) (K.one t)
      rfl (fun x => by
        rw [woken_eq_nil hn, woken_eq_nil (c := { s.tcb t with
          sigunbinfo := j
          sigwaitmask := nullSignalSet
          waitSig := false }) hn]
        simp)
    apply h.congr
    intro v x
    simp
  · exact K

theorem Kept.timeout (K : Kept s d) (ht : t ∈ s.tasks) (hw : (s.tcb t).waitSig = true)
    (hhead : (s.tcb t).frames.head? = some .timedwait) : Kept (sigTimeout t s) d := by
  unfold sigTimeout
  rw [if_pos hw]
  have h := K.reframe (z := fun _ => 0) (f := fun c =>
    { c with
      sigunbinfo := ⟨errorSigno, siTimer, 0⟩
      waitSig := false }) ht (fun _ => rfl) rfl (K.signo t) rfl (fun h => (by cases h)) (K.one t)
    rfl (fun x => by
      have h1 : (s.tcb t).woken = [] := by
        unfold Tcb.woken Tcb.waiting
        rw [hw, hhead]
        simp
      have h2 : ({ s.tcb t with
          sigunbinfo := ⟨errorSigno, siTimer, 0⟩
          waitSig := false } : Tcb).woken = [] := by
        unfold Tcb.woken
        rw [if_neg]
        rintro ⟨-, -, h⟩
        have h' : errorSigno ≤ maxSigno := h
        exact absurd h' (by decide)
      rw [h1, h2]
      simp)
  apply h.congr
  intro v x
  simp

theorem Kept.timedwaitReturn (K : Kept s d) (hh : s.head ∈ s.tasks)
    (hw : (s.tcb s.head).waitSig = false) (hf : (s.tcb s.head).frames = .timedwait :: below) :
    Kept (timedwaitReturn below s) d := by
  have hone := K.one s.head
  rw [hf, List.count_cons_self] at hone
  have hbelow : Frame.timedwait ∉ below := List.count_eq_zero.mp (by omega)
  have hwoken : (s.tcb s.head).woken =
      if (s.tcb s.head).sigunbinfo.siSigno ≤ maxSigno then [(s.tcb s.head).sigunbinfo] else [] := by
    unfold Tcb.woken Tcb.waiting
    rw [hf, hw]
    simp
  have h := K.reframe (z := fun _ => 0) (f := fun c =>
    ({ c with
      sigwaitmask := nullSignalSet
      frames := below } : Tcb).log fun h =>
      if c.sigunbinfo.siSigno ≤ maxSigno then
        { h with returned := h.returned ++ [c.sigunbinfo] }
      else h) hh
    (fun v => by
      rw [hf]
      rfl)
    (by
      rw [hf]
      rfl)
    (fun g hg => K.signo s.head g (by
      rw [hf]
      exact List.mem_cons_of_mem _ hg))
    rfl
    (fun h => by
      rw [show _ = _ from hw] at h
      cases h)
    (by
      show below.count .timedwait ≤ 1
      rw [List.count_eq_zero.mpr hbelow]
      omega)
    (by
      show (if _ then _ else _ : History).accepted = _
      split <;> rfl)
    (fun x => by
      rw [woken_eq_nil (show Frame.timedwait ∉ below from hbelow), hwoken]
      show ((if (s.tcb s.head).sigunbinfo.siSigno ≤ maxSigno then _ else _ : History).booked.count x : Int)
        + _ = _
      split
      · unfold History.booked
        simp only [List.count_append, List.count_nil]
        push_cast
        omega
      · simp)
  apply h.congr
  intro v x
  simp

theorem Kept.timedwait (K : Kept s d) (hh : s.head ∈ s.tasks) {set : Sigset}
    (hno : Frame.timedwait ∉ (s.tcb s.head).frames) :
    Kept (s.modify s.head fun c =>
      { c with
        sigwaitmask := set
        waitSig := true
        frames := .timedwait :: c.frames }) d := by
  have h := K.reframe (z := fun _ => 0) (f := fun c =>
    { c with
      sigwaitmask := set
      waitSig := true
      frames := .timedwait :: c.frames }) hh (fun _ => rfl) rfl
    (fun g hg u info pc hp => by
      rcases List.mem_cons.mp hg with rfl | hg
      · cases hp
      · exact K.signo s.head g hg u info pc hp)
    rfl (fun _ => .inl rfl)
    (by
      have hone : (Frame.timedwait :: (s.tcb s.head).frames).count .timedwait = 1 := by
        rw [List.count_cons_self, List.count_eq_zero.mpr hno]
      exact Nat.le_of_eq hone)
    rfl
    (fun x => by
      rw [woken_eq_nil hno]
      have h2 : ({ s.tcb s.head with
          sigwaitmask := set
          waitSig := true
          frames := .timedwait :: (s.tcb s.head).frames } : Tcb).woken = [] := by
        unfold Tcb.woken Tcb.waiting
        simp
      rw [h2]
      simp)
  apply h.congr
  intro v x
  simp

theorem Kept.suspend (K : Kept s d) (hh : s.head ∈ s.tasks)
    (hw : (s.tcb s.head).waitSig = false) {set : Sigset} :
    Kept (s.modify s.head fun c =>
      { c with
        sigprocmask := set
        sigwaitmask := nullSignalSet
        waitSig := true
        frames := .suspend c.sigprocmask :: c.frames }) d := by
  have h := K.reframe (z := fun _ => 0) (f := fun c =>
    { c with
      sigprocmask := set
      sigwaitmask := nullSignalSet
      waitSig := true
      frames := .suspend c.sigprocmask :: c.frames }) hh (fun _ => rfl) rfl
    (fun g hg u info pc hp => by
      rcases List.mem_cons.mp hg with rfl | hg
      · cases hp
      · exact K.signo s.head g hg u info pc hp)
    rfl (fun _ => .inr ⟨⟨_, rfl⟩, rfl⟩)
    (by
      show (Frame.suspend _ :: (s.tcb s.head).frames).count .timedwait ≤ 1
      rw [List.count_cons_of_ne (by simp)]
      exact K.one s.head)
    rfl
    (fun x => by
      have h2 : ({ s.tcb s.head with
          sigprocmask := set
          sigwaitmask := nullSignalSet
          waitSig := true
          frames := .suspend (s.tcb s.head).sigprocmask :: (s.tcb s.head).frames } : Tcb).woken =
            (s.tcb s.head).woken := by
        unfold Tcb.woken Tcb.waiting
        rw [hw]
        simp
      rw [h2]
      simp)
  apply h.congr
  intro v x
  simp

theorem Kept.nowhere (K : Kept s d) (hn : n ∉ s.signalNodes) (a : Place) : n ∉ s.places a := by
  unfold State.signalNodes State.freeSignals at hn
  simp only [List.mem_append, not_or] at hn
  have hout : ∀ t, n ∉ (s.tcb t).signalNodes := by
    intro t hm
    by_cases ht : t ∈ s.tasks
    · exact hn.2 (mem_owned.mpr ⟨t, ht, hm⟩)
    · unfold Tcb.signalNodes at hm
      rw [(K.outside t ht).1, (K.outside t ht).2] at hm
      cases hm
  cases a with
  | fixed => exact hn.1.1
  | irq => exact hn.1.2
  | pend t => exact fun hm => hout t (List.mem_append_left _ hm)
  | held t => exact fun hm => hout t (List.mem_append_right _ hm)

theorem Kept.allocSignal (K : Kept s d) {irq : Bool} {mem : Option Nat}
    (hmem : ∀ m ∈ mem, m ∉ s.signalNodes)
    (ha : sigAllocatependingsignal irq mem s = (s', some n)) :
    Kept s' d ∧ (∀ a, n ∉ s'.places a) ∧ s'.tcb = s.tcb ∧ s'.tasks = s.tasks ∧ s'.head = s.head ∧
      ∀ m, (s'.sigpend m).info = (s.sigpend m).info := by
  unfold sigAllocatependingsignal at ha
  split at ha
  · obtain ⟨hs, hhead⟩ := Prod.mk.inj ha
    subst hs
    obtain ⟨rest, hl⟩ : ∃ rest, s.gSigpendingirqsignal = n :: rest :=
      List.head?_eq_some_iff.mp hhead
    have hsub : ∀ a, (({ s with
        gSigpendingsignal := s.gSigpendingsignal.tail
        gSigpendingirqsignal := s.gSigpendingirqsignal.tail } : State).places a).Sublist
          (s.places a) := by
      intro a
      cases a with
      | fixed => exact List.tail_sublist _
      | irq => exact List.tail_sublist _
      | pend t => exact List.Sublist.refl _
      | held t => exact List.Sublist.refl _
    refine ⟨K.same ⟨rfl, fun _ => rfl, fun _ => rfl, fun _ => rfl, fun _ => rfl, fun _ => rfl,
      fun _ => rfl, fun _ => rfl, fun _ => rfl⟩ (K.nodes.sublist hsub), fun a hm => ?_, rfl, rfl,
      rfl, fun _ => rfl⟩
    have hin : n ∈ s.places .irq := by
      show n ∈ s.gSigpendingirqsignal
      rw [hl]
      exact List.mem_cons_self
    have ha := K.nodes.unique a .irq n ((hsub a).subset hm) hin
    subst ha
    have hnd := K.nodes.nodup .irq
    have hm' : n ∈ s.gSigpendingirqsignal.tail := hm
    have hnd' : s.gSigpendingirqsignal.Nodup := hnd
    rw [hl] at hm' hnd'
    exact (List.nodup_cons.mp hnd').1 hm'
  · split at ha
    · rename_i m rest hl
      cases ha
      have htake := K.nodes.take (a := .fixed) (x := n)
        (g := ({ s with gSigpendingsignal := rest } : State).places)
        (by
          show s.gSigpendingsignal.Perm (n :: rest)
          rw [hl])
        (by
          intro a ha
          cases a with
          | fixed => exact absurd rfl ha
          | _ => rfl)
      exact ⟨K.same ⟨rfl, fun _ => rfl, fun _ => rfl, fun _ => rfl, fun _ => rfl, fun _ => rfl,
        fun _ => rfl, fun _ => rfl, fun _ => rfl⟩ htake.1, htake.2, rfl, rfl, rfl, fun _ => rfl⟩
    · split at ha
      · rename_i m
        cases ha
        have hinfo : ∀ m, (update s.sigpend n { s.sigpend n with type := .dyn } m).info =
            (s.sigpend m).info := by
          intro m
          by_cases hm : m = n
          · subst hm
            simp
          · rw [update_of_ne hm]
        exact ⟨K.same ⟨rfl, fun _ => rfl, fun _ => rfl, hinfo, fun _ => rfl, fun _ => rfl,
          fun _ => rfl, fun _ => rfl, fun _ => rfl⟩ K.nodes, K.nowhere (hmem n rfl), rfl, rfl, rfl,
          hinfo⟩
      · cases ha

theorem Kept.releaseSignal (K : Kept s d) (hn : ∀ a, n ∉ s.places a) :
    Kept (sigReleasependingsignal n s) d := by
  have hb : ∀ l l' : List Nat, SameBooks s { s with
      gSigpendingsignal := l
      gSigpendingirqsignal := l' } := fun l l' =>
    ⟨rfl, fun _ => rfl, fun _ => rfl, fun _ => rfl, fun _ => rfl, fun _ => rfl,
      fun _ => rfl, fun _ => rfl, fun _ => rfl⟩
  unfold sigReleasependingsignal
  split
  · apply K.same (hb _ _)
    apply K.nodes.put hn (a := .fixed)
    · exact List.perm_append_singleton n _
    · intro a ha
      cases a with
      | fixed => exact absurd rfl ha
      | _ => rfl
  · apply K.same (hb _ _)
    apply K.nodes.put hn (a := .irq)
    · exact List.perm_append_singleton n _
    · intro a ha
      cases a with
      | irq => exact absurd rfl ha
      | _ => rfl
  · exact K

theorem places_frames (a : Place) (ha : a ≠ .held s.head) : (s.frames fs).places a = s.places a := by
  cases a with
  | fixed => rfl
  | irq => rfl
  | pend v => exact modify_field Tcb.sigpendingq rfl v
  | held v =>
      have hv : v ≠ s.head := fun h => ha (by rw [h])
      show ((s.frames fs).tcb v).frames.flatMap _ = (s.tcb v).frames.flatMap _
      unfold State.frames
      rw [modify_tcb_of_ne hv]

theorem places_held : (s.frames fs).places (.held s.head) = fs.flatMap Frame.signalNode := by
  show ((s.frames fs).tcb s.head).frames.flatMap _ = _
  unfold State.frames
  rw [modify_tcb_same]

theorem Kept.heldSame (K : Kept s d)
    (h : fs.flatMap Frame.signalNode = (s.tcb s.head).frames.flatMap Frame.signalNode) :
    Apart (s.frames fs).places := by
  apply K.nodes.perm
  intro a
  by_cases ha : a = .held s.head
  · rw [ha, places_held, h]
    exact List.Perm.refl _
  · rw [places_frames a ha]

theorem Kept.heldMore (K : Kept s d) (hn : ∀ a, n ∉ s.places a)
    (h : fs.flatMap Frame.signalNode = n :: (s.tcb s.head).frames.flatMap Frame.signalNode) :
    Apart (s.frames fs).places := by
  apply K.nodes.put hn (a := .held s.head)
  · rw [places_held, h]
    exact List.Perm.refl _
  · exact fun a ha => places_frames a ha

theorem Kept.heldLess {l : List Frame} (K : Kept s d)
    (h : (s.tcb s.head).frames.flatMap Frame.signalNode = n :: l.flatMap Frame.signalNode) :
    Apart (s.frames l).places ∧ ∀ a, n ∉ (s.frames l).places a := by
  apply K.nodes.take (a := .held s.head)
  · rw [places_held]
    show ((s.tcb s.head).frames.flatMap Frame.signalNode).Perm _
    rw [h]
  · exact fun a ha => places_frames a ha

theorem Kept.addAction {j : Siginfo} {a : Sigact} (K : Kept s d) :
    Kept (addAction t j a n s) fun v x => d v x + single t j v x := by
  let s1 : State := { s with
    sigq := update s.sigq n
      { s.sigq n with
        act := ⟨a.sigaction, j⟩
        mask := a.saMask } }
  let s2 : State := s1.modify t fun c => { c with sigpendactionq := c.sigpendactionq ++ [n] }
  have hb : SameBooks s s2 :=
    ⟨rfl, modify_field (s := s1) Tcb.frames rfl, modify_field (s := s1) Tcb.sigpendingq rfl,
      fun _ => rfl, modify_field (s := s1) Tcb.waitSig rfl,
      modify_field (s := s1) Tcb.sigwaitmask rfl, modify_field (s := s1) Tcb.sigunbinfo rfl,
      modify_field (s := s1) (fun c => c.history.booked) rfl,
      modify_field (s := s1) (fun c => c.history.accepted) rfl⟩
  have K2 : Kept s2 d := K.same hb (by
    rw [hb.places rfl rfl]
    exact K.nodes)
  have h := K2.log (t := t)
    (g := fun h => { h with queued := h.queued ++ [Action.mk a.sigaction j] })
    (z := fun x => (([j] : List Siginfo).count x : Int)) fun h x => by
      unfold History.booked
      simp only [List.map_append, List.map_cons, List.map_nil, List.count_append]
      push_cast
      omega
  have heq : Sig.addAction t j a n s = s2.modify t fun c => c.log fun h =>
      { h with queued := h.queued ++ [Action.mk a.sigaction j] } := by
    unfold Sig.addAction
    show s1.modify t _ = s2.modify t _
    unfold s2 State.modify
    simp only [update_idem, update_self]
  rw [heq]
  apply h.congr
  intro v x
  rw [count_singleton_self j x t]
  unfold single
  by_cases hv : v = t
  · simp [hv]
  · simp [hv]

end

end NuttxAvr32.Sig
