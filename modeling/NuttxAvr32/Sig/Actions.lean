import NuttxAvr32.Sig.Runs
import Mathlib.Data.List.Perm.Subperm

/-! # Queued actions and the activations of `sig_deliver`

What decides in which order the actions of a task are delivered: the two queues of
action nodes, the activations that refer to them and the history. Everything else of
the state is left out, so the steps that touch nothing of this leave it as it is.
-/

namespace NuttxAvr32.Sig

open Owners
open Function (update update_self update_of_ne)

/-- The activation holds or refers to an action, or is about to schedule its delivery. -/
def Frame.active : Frame → Bool
  | .received _ _ (.addAction _ _) => true
  | .received _ _ .schedule => true
  | .deliver _ _ _ _ _ => true
  | _ => false

def Frame.isDeliver : Frame → Bool
  | .deliver _ _ _ _ _ => true
  | _ => false

/-- The node that the activation has put into `sigpostedq`. -/
def Frame.posted : Frame → List Nat
  | .deliver (some n) _ _ _ .call => [n]
  | .deliver (some n) _ _ _ .handler => [n]
  | .deliver (some n) _ _ _ .finish => [n]
  | _ => []

/-- The node that the activation has taken and whose handler it has not called yet. -/
def Frame.taken : Frame → List Nat
  | .deliver (some n) _ _ _ .call => [n]
  | _ => []

def Frame.releasing : Frame → List Nat
  | .deliver (some n) _ _ _ .release => [n]
  | _ => []

/-- No action is left for the activation to deliver: it has called the handler of the
node that it took, and there was no node after it. -/
def Frame.settled : Frame → Bool
  | .deliver none _ _ _ .fetch => true
  | .deliver (some _) none _ _ .handler => true
  | .deliver (some _) none _ _ .finish => true
  | .deliver (some _) none _ _ .release => true
  | .deliver _ _ _ _ _ => false
  | _ => true

def Frame.Refs (q : List Nat) : Frame → Prop
  | .deliver none _ _ _ .fetch => True
  | .deliver (some n) _ _ _ .fetch => q.head? = some n
  | .deliver (some n) next _ _ .dequeue => q.head? = some n ∧ ∀ m ∈ next, q.tail.head? = some m
  | .deliver (some _) next _ _ _ => ∀ m ∈ next, q.head? = some m
  | .deliver none _ _ _ _ => False
  | _ => True

def Frame.Covers (q : List Nat) : Frame → Prop
  | .deliver (some _) _ _ _ .fetch => True
  | .deliver (some _) next _ _ .dequeue => next = q.tail.head?
  | .deliver (some _) next _ _ _ => next ≠ none
  | _ => False

theorem Frame.Refs.of_settled {q r : List Nat} {f : Frame} (h : f.Refs q) (hs : f.settled) :
    f.Refs r := by
  cases f with
  | deliver sigq next save entry pc => cases sigq <;> cases next <;> cases pc <;> simp_all [Refs, settled]
  | _ => trivial

theorem Frame.Refs.append {q : List Nat} {f : Frame} (n : Nat) (h : f.Refs q) :
    f.Refs (q ++ [n]) := by
  have hhead : ∀ m, q.head? = some m → (q ++ [n]).head? = some m := by
    intro m hm
    rw [List.head?_append, hm]
    rfl
  cases f with
  | deliver sigq next save entry pc =>
    cases sigq with
    | none => cases pc <;> exact h
    | some a =>
      cases pc with
      | fetch => exact hhead a h
      | dequeue =>
        cases q with
        | nil => exact absurd h.1 (by simp)
        | cons b q =>
          refine ⟨h.1, fun m hm => ?_⟩
          have hq : q.head? = some m := h.2 m hm
          show (q ++ [n]).head? = some m
          rw [List.head?_append, hq]
          rfl
      | _ => exact fun m hm => hhead m (h m hm)
  | _ => trivial

structure View where
  pend : List Nat
  posted : List Nat
  active : List Frame
  queued : List Action
  delivered : List Action
  released : List Action
  flagged : Bool

def Tcb.view (c : Tcb) : View where
  pend := c.sigpendactionq
  posted := c.sigpostedq
  active := c.frames.filter Frame.active
  queued := c.history.queued
  delivered := c.history.delivered
  released := c.history.released
  flagged := c.sigdeliver

structure Core where
  tasks : List Nat
  free : List Nat
  act : Nat → Action
  view : Nat → View

def State.core (s : State) : Core where
  tasks := s.tasks
  free := s.freeActions
  act n := (s.sigq n).act
  view t := (s.tcb t).view

def View.nodes (v : View) : List Nat := v.pend ++ v.posted ++ v.active.flatMap Frame.actionNode

def Core.nodes (c : Core) : List Nat := c.free ++ owned c.tasks fun t => (c.view t).nodes

theorem flatMap_filter_active {α : Type} (g : Frame → List α)
    (hg : ∀ f : Frame, f.active = false → g f = []) (fs : List Frame) :
    (fs.filter Frame.active).flatMap g = fs.flatMap g := by
  induction fs with
  | nil => rfl
  | cons f fs ih =>
    rw [List.filter_cons]
    split
    · rw [List.flatMap_cons, ih, List.flatMap_cons]
    · rename_i h
      rw [ih, List.flatMap_cons, hg f (by simpa using h)]
      rfl

theorem actionNode_inactive (f : Frame) (h : f.active = false) : f.actionNode = [] := by
  cases f with
  | received t info pc => cases pc <;> simp_all [Frame.active, Frame.actionNode]
  | deliver sigq next save entry pc => simp [Frame.active] at h
  | _ => rfl

theorem taken_inactive (f : Frame) (h : f.active = false) : f.taken = [] := by
  cases f <;> simp_all [Frame.active, Frame.taken]

theorem releasing_inactive (f : Frame) (h : f.active = false) : f.releasing = [] := by
  cases f <;> simp_all [Frame.active, Frame.releasing]

theorem core_nodes (s : State) : s.core.nodes = s.actionNodes := by
  unfold Core.nodes State.actionNodes
  congr 1
  apply owned_congr
  intro t _
  show _ ++ (s.tcb t).view.active.flatMap Frame.actionNode = _
  rw [show (s.tcb t).view.active = (s.tcb t).frames.filter Frame.active from rfl,
    flatMap_filter_active _ actionNode_inactive]
  rfl

structure View.Ok (act : Nat → Action) (v : View) : Prop where
  posted : v.posted = (v.active.flatMap Frame.posted).reverse
  settled : v.active.Pairwise fun a b => a.isDeliver = true → b.settled = true
  refs : ∀ f ∈ v.active, f.Refs v.pend
  queued : v.queued = v.delivered ++ (v.active.flatMap Frame.taken ++ v.pend).map act
  released : (v.released ++ (v.posted ++ v.active.flatMap Frame.releasing).map act).Perm
    (v.delivered ++ (v.active.flatMap Frame.taken).map act)

def Core.Scheduling (c : Core) (t : Nat) : Prop :=
  ∃ u ∈ c.tasks, ∃ info, Frame.received t info .schedule ∈ (c.view u).active

def View.Going (v : View) : Prop :=
  v.pend = [] ∨ v.flagged = true ∨ ∃ f ∈ v.active, f.Covers v.pend

def Core.Due (c : Core) (t : Nat) : Prop := (c.view t).Going ∨ c.Scheduling t

structure Core.Inv (c : Core) : Prop where
  tasks : c.tasks.Nodup
  nodes : c.nodes.Nodup
  task : ∀ t ∈ c.tasks, (c.view t).Ok c.act
  due : ∀ t ∈ c.tasks, c.Due t

def Core.setView (c : Core) (t : Nat) (v : View) (free : List Nat) : Core :=
  { c with
    free
    view := update c.view t v }

section

variable {c : Core} {t : Nat} {v : View} {free e : List Nat}

@[simp] theorem setView_same : (c.setView t v free).view t = v := update_self ..

theorem setView_of_ne {u : Nat} (h : u ≠ t) : (c.setView t v free).view u = c.view u :=
  update_of_ne h ..

theorem owned_nodes_update : (fun u => ((c.setView t v free).view u).nodes) =
    update (fun u => (c.view u).nodes) t v.nodes := by
  funext u
  by_cases h : u = t
  · subst h
    rw [setView_same, update_self]
  · rw [setView_of_ne h, update_of_ne h]

theorem nodes_perm (ht : t ∈ c.tasks) : c.nodes.Perm
    (c.free ++ (c.view t).nodes ++ owned (c.tasks.erase t) fun u => (c.view u).nodes) := by
  unfold Core.nodes
  rw [List.append_assoc]
  exact (owned_perm ht).append_left _

theorem setView_nodes_perm (hn : c.tasks.Nodup) (ht : t ∈ c.tasks) :
    (c.setView t v free).nodes.Perm
      (free ++ v.nodes ++ owned (c.tasks.erase t) fun u => (c.view u).nodes) := by
  unfold Core.nodes
  rw [owned_nodes_update, List.append_assoc]
  exact (owned_update_perm hn ht).append_left _

theorem Core.Inv.nodup_setView (I : c.Inv) (ht : t ∈ c.tasks)
    (hf : (e ++ c.nodes).Nodup)
    (hs : (free ++ v.nodes).Subperm (e ++ (c.free ++ (c.view t).nodes))) :
    (c.setView t v free).nodes.Nodup := by
  rw [(setView_nodes_perm I.tasks ht).nodup_iff]
  have hp : (e ++ c.nodes).Perm (e ++ (c.free ++ (c.view t).nodes) ++
      owned (c.tasks.erase t) fun u => (c.view u).nodes) := by
    rw [List.append_assoc]
    exact (nodes_perm ht).append_left _
  have hn := hp.nodup_iff.mp hf
  obtain ⟨l, hl, hsub⟩ := hs
  have h1 : (l ++ owned (c.tasks.erase t) fun u => (c.view u).nodes).Nodup :=
    hn.sublist (hsub.append_right _)
  exact (hl.append_right _).nodup_iff.mp h1

/-- The delivery that is due to a task does not depend on the other tasks, unless one of
these was to schedule it. -/
theorem Core.Due.of_setView (ht : t ∈ c.tasks) {u : Nat} (h : c.Due u) (hu : u ≠ t)
    (hs : ∀ info, Frame.received u info .schedule ∈ (c.view t).active →
      (c.view u).flagged = true ∨ Frame.received u info .schedule ∈ v.active) :
    (c.setView t v free).Due u := by
  unfold Core.Due
  rw [setView_of_ne hu]
  rcases h with h | ⟨w, hw, info, hf⟩
  · exact .inl h
  · by_cases he : w = t
    · subst he
      rcases hs info hf with h' | h'
      · exact .inl (.inr (.inl h'))
      · exact .inr ⟨w, ht, info, by rw [setView_same]; exact h'⟩
    · exact .inr ⟨w, hw, info, by rw [setView_of_ne he]; exact hf⟩

theorem Core.Inv.setView (I : c.Inv) (ht : t ∈ c.tasks) (hn : (c.setView t v free).nodes.Nodup)
    (hv : v.Ok c.act) (hd : (c.setView t v free).Due t)
    (hs : ∀ u info, u ≠ t → Frame.received u info .schedule ∈ (c.view t).active →
      (c.view u).flagged = true ∨ Frame.received u info .schedule ∈ v.active) :
    (c.setView t v free).Inv := by
  constructor
  · exact I.tasks
  · exact hn
  · intro u hu
    by_cases h : u = t
    · subst h
      rw [setView_same]
      exact hv
    · rw [setView_of_ne h]
      exact I.task u hu
  · intro u hu
    by_cases h : u = t
    · subst h
      exact hd
    · exact (I.due u hu).of_setView ht h (hs u · h)

end

namespace View

variable {act act' : Nat → Action} {v : View} {fs gs rest : List Frame} {n : Nat}
  {sigq next : Option Nat} {save save' entry : Sigset}

theorem taken_mem_posted (f : Frame) (h : n ∈ f.taken) : n ∈ f.posted := by
  cases f with
  | deliver sigq next save entry pc => cases sigq <;> cases pc <;> simp_all [Frame.taken, Frame.posted]
  | _ => simp [Frame.taken] at h

theorem releasing_mem_actionNode (f : Frame) (h : n ∈ f.releasing) : n ∈ f.actionNode := by
  cases f with
  | deliver sigq next save entry pc =>
    cases sigq <;> cases pc <;> simp_all [Frame.releasing, Frame.actionNode]
  | _ => simp [Frame.releasing] at h

theorem Ok.taken_nodes (h : v.Ok act) (hn : n ∈ v.active.flatMap Frame.taken) : n ∈ v.posted := by
  rw [h.posted, List.mem_reverse, List.mem_flatMap]
  obtain ⟨f, hf, hn⟩ := List.mem_flatMap.mp hn
  exact ⟨f, hf, taken_mem_posted f hn⟩

theorem Ok.congr (h : v.Ok act) (ha : ∀ n ∈ v.nodes, act' n = act n) : v.Ok act' := by
  have hpend : ∀ n ∈ v.pend, act' n = act n := fun n hn => ha n (by simp [nodes, hn])
  have hposted : ∀ n ∈ v.posted, act' n = act n := fun n hn => ha n (by simp [nodes, hn])
  have htaken : ∀ n ∈ v.active.flatMap Frame.taken, act' n = act n :=
    fun n hn => hposted n (h.taken_nodes hn)
  have hrel : ∀ n ∈ v.active.flatMap Frame.releasing, act' n = act n := by
    intro n hn
    obtain ⟨f, hf, hn⟩ := List.mem_flatMap.mp hn
    apply ha
    exact List.mem_append_right _ (List.mem_flatMap.mpr ⟨f, hf, releasing_mem_actionNode f hn⟩)
  constructor
  · exact h.posted
  · exact h.settled
  · exact h.refs
  · rw [h.queued, List.map_append, List.map_append, List.map_congr_left htaken,
      List.map_congr_left hpend]
  · rw [List.map_append, List.map_congr_left hposted, List.map_congr_left hrel,
      List.map_congr_left htaken, ← List.map_append]
    exact h.released

theorem flatMap_received {α : Type} (g : Frame → List α)
    (hg : ∀ f : Frame, f.isDeliver = false → g f = []) (h : ∀ f ∈ fs, f.isDeliver = false) :
    (fs ++ rest).flatMap g = rest.flatMap g := by
  have hnil : fs.flatMap g = [] := List.flatMap_eq_nil_iff.mpr fun f hf => hg f (h f hf)
  rw [List.flatMap_append, hnil]
  rfl

theorem posted_received (f : Frame) (h : f.isDeliver = false) : f.posted = [] := by
  cases f <;> simp_all [Frame.isDeliver, Frame.posted]

theorem taken_received (f : Frame) (h : f.isDeliver = false) : f.taken = [] := by
  cases f <;> simp_all [Frame.isDeliver, Frame.taken]

theorem releasing_received (f : Frame) (h : f.isDeliver = false) : f.releasing = [] := by
  cases f <;> simp_all [Frame.isDeliver, Frame.releasing]

theorem refs_received {q : List Nat} (f : Frame) (h : f.isDeliver = false) : f.Refs q := by
  cases f <;> simp_all [Frame.isDeliver, Frame.Refs]

theorem Ok.received (h : v.Ok act) (hv : v.active = fs ++ rest)
    (hf : ∀ f ∈ fs, f.isDeliver = false) (hg : ∀ f ∈ gs, f.isDeliver = false) :
    ({ v with active := gs ++ rest } : View).Ok act := by
  have hp := h.posted
  have hs := h.settled
  have hr := h.refs
  have hq := h.queued
  have hl := h.released
  rw [hv, flatMap_received _ posted_received hf] at hp
  rw [hv] at hs hr
  rw [hv, flatMap_received _ taken_received hf] at hq
  rw [hv, flatMap_received _ taken_received hf, flatMap_received _ releasing_received hf] at hl
  constructor
  · show v.posted = ((gs ++ rest).flatMap Frame.posted).reverse
    rw [flatMap_received _ posted_received hg]
    exact hp
  · apply List.pairwise_append.mpr
    refine ⟨?_, (List.pairwise_append.mp hs).2.1, ?_⟩
    · apply List.Pairwise.imp_of_mem (R := fun _ _ => True)
      · intro a b ha _ _ hd
        rw [hg a ha] at hd
        exact absurd hd (by decide)
      · exact List.pairwise_of_forall fun _ _ => trivial
    · intro a ha b _ hd
      rw [hg a ha] at hd
      exact absurd hd (by decide)
  · intro f hf'
    rcases List.mem_append.mp hf' with hf' | hf'
    · exact refs_received f (hg f hf')
    · exact hr f (List.mem_append_right _ hf')
  · show v.queued = _ ++ ((gs ++ rest).flatMap Frame.taken ++ v.pend).map act
    rw [flatMap_received _ taken_received hg]
    exact hq
  · show (_ ++ (v.posted ++ (gs ++ rest).flatMap Frame.releasing).map act).Perm
      (_ ++ ((gs ++ rest).flatMap Frame.taken).map act)
    rw [flatMap_received _ taken_received hg, flatMap_received _ releasing_received hg]
    exact hl

theorem Ok.flag (h : v.Ok act) (b : Bool) : ({ v with flagged := b } : View).Ok act :=
  ⟨h.posted, h.settled, h.refs, h.queued, h.released⟩

theorem Ok.top {f g : Frame} (h : v.Ok act) (hv : v.active = f :: rest) (hd : f.isDeliver = true)
    {w : View} (hw : w.active = g :: rest) (hg : g.Refs w.pend)
    (hp : w.posted = ((g :: rest).flatMap Frame.posted).reverse)
    (hq : w.queued = w.delivered ++ ((g :: rest).flatMap Frame.taken ++ w.pend).map act)
    (hl : (w.released ++ (w.posted ++ (g :: rest).flatMap Frame.releasing).map act).Perm
      (w.delivered ++ ((g :: rest).flatMap Frame.taken).map act)) : w.Ok act := by
  have hs := h.settled
  have hr := h.refs
  rw [hv] at hs hr
  have hs := List.pairwise_cons.mp hs
  constructor
  · rw [hw]
    exact hp
  · rw [hw]
    exact List.pairwise_cons.mpr ⟨fun b hb _ => hs.1 b hb hd, hs.2⟩
  · rw [hw]
    intro a ha
    rcases List.mem_cons.mp ha with ha | ha
    · rw [ha]
      exact hg
    · exact (hr a (List.mem_cons_of_mem _ ha)).of_settled (hs.1 a ha hd)
  · rw [hw]
    exact hq
  · rw [hw]
    exact hl

theorem taken_settled {f : Frame} (h : f.settled = true) : f.taken = [] := by
  cases f with
  | deliver sigq next save entry pc =>
    cases sigq <;> cases next <;> cases pc <;> simp_all [Frame.settled, Frame.taken]
  | _ => rfl

theorem Ok.rest_taken {f : Frame} (h : v.Ok act) (hv : v.active = f :: rest)
    (hd : f.isDeliver = true) : rest.flatMap Frame.taken = [] := by
  have hs := h.settled
  rw [hv] at hs
  have hs := List.pairwise_cons.mp hs
  apply List.flatMap_eq_nil_iff.mpr
  intro b hb
  exact taken_settled (hs.1 b hb hd)

theorem Ok.enter (h : v.Ok act) (hs : ∀ f ∈ v.active, f.settled = true) (m m' : Sigset) :
    ({ v with active := .deliver v.pend.head? none m m' .fetch :: v.active } : View).Ok act := by
  have hflat : ∀ {α : Type} (g : Frame → List α),
      g (.deliver v.pend.head? none m m' .fetch) = [] →
        (Frame.deliver v.pend.head? none m m' .fetch :: v.active).flatMap g =
          v.active.flatMap g := by
    intro α g hg
    rw [List.flatMap_cons, hg]
    rfl
  constructor
  · show v.posted = _
    rw [hflat]
    · exact h.posted
    · cases v.pend.head? <;> rfl
  · exact List.pairwise_cons.mpr ⟨fun b hb _ => hs b hb, h.settled⟩
  · intro f hf
    rcases List.mem_cons.mp hf with hf | hf
    · rw [hf]
      show Frame.Refs v.pend (.deliver v.pend.head? none m m' .fetch)
      cases hp : v.pend.head? with
      | none => trivial
      | some n => exact hp
    · exact h.refs f hf
  · show v.queued = _
    rw [hflat]
    · exact h.queued
    · cases v.pend.head? <;> rfl
  · show (_ ++ (v.posted ++ _).map act).Perm _
    rw [hflat, hflat]
    · exact h.released
    · cases v.pend.head? <;> rfl
    · cases v.pend.head? <;> rfl

theorem Going.enter (m m' : Sigset) (b : Bool) :
    ({ v with
        active := .deliver v.pend.head? none m m' .fetch :: v.active
        flagged := b } : View).Going := by
  cases hp : v.pend with
  | nil => exact .inl rfl
  | cons n q => exact .inr (.inr ⟨_, List.mem_cons_self, trivial⟩)

theorem Ok.leave (h : v.Ok act) (hv : v.active = .deliver none next save entry .fetch :: rest) :
    ({ v with active := rest } : View).Ok act := by
  have hp := h.posted
  have hs := h.settled
  have hr := h.refs
  have hq := h.queued
  have hl := h.released
  rw [hv] at hp hs hr hq hl
  exact ⟨hp, (List.pairwise_cons.mp hs).2, fun f hf => hr f (List.mem_cons_of_mem _ hf), hq, hl⟩

theorem not_covers_of_settled {q : List Nat} {f : Frame} (h : f.settled = true)
    (hr : f.Refs q) : ¬f.Covers q := by
  cases f with
  | deliver sigq next save entry pc =>
    cases sigq <;> cases next <;> cases pc <;>
      simp_all [Frame.settled, Frame.Covers, Frame.Refs]
  | _ => exact fun hc => hc

theorem Ok.going {f : Frame} (h : v.Ok act) (hv : v.active = f :: rest)
    (hd : f.isDeliver = true) (hg : v.Going) :
    v.pend = [] ∨ v.flagged = true ∨ f.Covers v.pend := by
  have hs := h.settled
  have hr := h.refs
  rw [hv] at hs hr
  have hs := List.pairwise_cons.mp hs
  rcases hg with hg | hg | ⟨a, ha, hc⟩
  · exact .inl hg
  · exact .inr (.inl hg)
  · rw [hv] at ha
    rcases List.mem_cons.mp ha with ha | ha
    · rw [← ha]
      exact .inr (.inr hc)
    · have hset := hs.1 a ha hd
      exact absurd hc (not_covers_of_settled hset (hr a (List.mem_cons_of_mem _ ha)))

theorem Going.leave (h : v.Ok act) (hv : v.active = .deliver none next save entry .fetch :: rest)
    (hg : v.Going) : ({ v with active := rest } : View).Going := by
  rcases h.going hv rfl hg with hg | hg | hg
  · exact .inl hg
  · exact .inr (.inl hg)
  · exact absurd hg (fun hc => hc)

theorem Ok.next_eq (h : v.Ok act) (hv : v.active = .deliver (some n) next save entry .fetch :: rest) :
    v.pend[v.pend.idxOf n + 1]? = v.pend.tail.head? := by
  have hr : v.pend.head? = some n := by
    apply h.refs (.deliver (some n) next save entry .fetch)
    rw [hv]
    exact List.mem_cons_self
  cases hp : v.pend with
  | nil =>
    rw [hp] at hr
    exact absurd hr (by simp)
  | cons a q =>
    rw [hp] at hr
    have ha : a = n := by simpa using hr
    rw [ha]
    simp [List.head?_eq_getElem?]

theorem Ok.fetch (h : v.Ok act)
    (hv : v.active = .deliver (some n) next save entry .fetch :: rest) :
    ({ v with
        active := .deliver (some n) v.pend.tail.head? save entry .dequeue :: rest } : View).Ok
      act := by
  have hr : v.pend.head? = some n := by
    apply h.refs (.deliver (some n) next save entry .fetch)
    rw [hv]
    exact List.mem_cons_self
  have hp := h.posted
  have hq := h.queued
  have hl := h.released
  rw [hv] at hp hq hl
  exact h.top hv rfl rfl ⟨hr, fun m hm => hm⟩ hp hq hl

theorem Going.fetch (h : v.Ok act)
    (hv : v.active = .deliver (some n) next save entry .fetch :: rest) (hg : v.Going) :
    ({ v with
        active := .deliver (some n) v.pend.tail.head? save entry .dequeue :: rest } : View).Going := by
  rcases h.going hv rfl hg with hg | hg | hg
  · exact .inl hg
  · exact .inr (.inl hg)
  · exact .inr (.inr ⟨_, List.mem_cons_self, rfl⟩)

theorem Ok.pend_eq (h : v.Ok act)
    (hv : v.active = .deliver (some n) next save entry .dequeue :: rest) :
    v.pend = n :: v.pend.tail ∧ ∀ m ∈ next, v.pend.tail.head? = some m := by
  have hr : v.pend.head? = some n ∧ ∀ m ∈ next, v.pend.tail.head? = some m := by
    apply h.refs (.deliver (some n) next save entry .dequeue)
    rw [hv]
    exact List.mem_cons_self
  exact ⟨List.eq_cons_of_mem_head? hr.1, hr.2⟩

theorem Ok.dequeue (h : v.Ok act)
    (hv : v.active = .deliver (some n) next save entry .dequeue :: rest) :
    ({ v with
        pend := v.pend.erase n
        posted := v.posted ++ [n]
        active := .deliver (some n) next save entry .call :: rest } : View).Ok act := by
  obtain ⟨hpend, hnext⟩ := h.pend_eq hv
  have ht := h.rest_taken hv rfl
  have hp := h.posted
  have hq := h.queued
  have hl := h.released
  rw [hv] at hp hq hl
  have herase : v.pend.erase n = v.pend.tail := by
    rw [hpend, List.erase_cons_head]
    rfl
  simp only [List.flatMap_cons, ht] at hq hl
  rw [herase]
  apply h.top hv rfl rfl
  · exact hnext
  · show v.posted ++ [n] = _
    rw [hp]
    simp [Frame.posted]
  · show v.queued = _
    rw [List.flatMap_cons, ht, hq, hpend]
    rfl
  · simp only [List.flatMap_cons, ht]
    have hl' : (v.released ++ (v.posted ++ rest.flatMap Frame.releasing).map act).Perm
        v.delivered := by simpa [Frame.taken, Frame.releasing] using hl
    show (v.released ++ (v.posted ++ [n] ++ rest.flatMap Frame.releasing).map act).Perm
      (v.delivered ++ [act n])
    have hmove : (v.released ++ (v.posted ++ [n] ++ rest.flatMap Frame.releasing).map act).Perm
        (v.released ++ (v.posted ++ rest.flatMap Frame.releasing).map act ++ [act n]) := by
      rw [List.append_assoc, List.append_assoc]
      apply List.Perm.append_left
      rw [List.map_append, List.map_append, List.map_append, List.append_assoc]
      exact List.perm_append_comm.append_left _
    exact hmove.trans (hl'.append_right _)

theorem Going.dequeue (h : v.Ok act)
    (hv : v.active = .deliver (some n) next save entry .dequeue :: rest) (hg : v.Going) :
    ({ v with
        pend := v.pend.erase n
        posted := v.posted ++ [n]
        active := .deliver (some n) next save entry .call :: rest } : View).Going := by
  have hpend := (h.pend_eq hv).1
  have herase : v.pend.erase n = v.pend.tail := by
    rw [hpend, List.erase_cons_head]
    rfl
  rw [herase]
  rcases h.going hv rfl hg with hg | hg | hg
  · rw [hg] at hpend
    exact absurd hpend (by simp)
  · exact .inr (.inl hg)
  · have hnext : next = v.pend.tail.head? := hg
    cases ht : v.pend.tail with
    | nil => exact .inl rfl
    | cons m q =>
      refine .inr (.inr ⟨_, List.mem_cons_self, ?_⟩)
      show next ≠ none
      rw [hnext, ht]
      simp

theorem Ok.call (h : v.Ok act)
    (hv : v.active = .deliver (some n) next save entry .call :: rest) :
    ({ v with
        delivered := v.delivered ++ [act n]
        active := .deliver (some n) next save' entry .handler :: rest } : View).Ok act := by
  have hr : ∀ m ∈ next, v.pend.head? = some m := by
    apply h.refs (.deliver (some n) next save entry .call)
    rw [hv]
    exact List.mem_cons_self
  have ht := h.rest_taken hv rfl
  have hp := h.posted
  have hq := h.queued
  have hl := h.released
  rw [hv] at hp hq hl
  simp only [List.flatMap_cons, ht] at hq hl
  apply h.top hv rfl rfl
  · exact hr
  · exact hp
  · rw [List.flatMap_cons, ht]
    show v.queued = _
    rw [hq]
    simp [Frame.taken]
  · simp only [List.flatMap_cons, ht]
    simpa [Frame.taken, Frame.releasing] using hl

theorem Ok.finish (h : v.Ok act)
    (hv : v.active = .deliver (some n) next save entry .handler :: rest) :
    ({ v with active := .deliver (some n) next save entry .finish :: rest } : View).Ok act := by
  have hr : ∀ m ∈ next, v.pend.head? = some m := by
    apply h.refs (.deliver (some n) next save entry .handler)
    rw [hv]
    exact List.mem_cons_self
  have hp := h.posted
  have hq := h.queued
  have hl := h.released
  rw [hv] at hp hq hl
  exact h.top hv rfl rfl hr hp hq hl

theorem Ok.unpost (h : v.Ok act) (hn : v.posted.Nodup)
    (hv : v.active = .deliver (some n) next save entry .finish :: rest) :
    ({ v with
        posted := v.posted.erase n
        active := .deliver (some n) next save entry .release :: rest } : View).Ok act := by
  have hr : ∀ m ∈ next, v.pend.head? = some m := by
    apply h.refs (.deliver (some n) next save entry .finish)
    rw [hv]
    exact List.mem_cons_self
  have hp := h.posted
  have hq := h.queued
  have hl := h.released
  rw [hv] at hp hq hl
  have hlast : v.posted = (rest.flatMap Frame.posted).reverse ++ [n] := by
    rw [hp]
    simp [Frame.posted]
  have herase : v.posted.erase n = (rest.flatMap Frame.posted).reverse := by
    rw [hlast] at hn ⊢
    have hni : n ∉ (rest.flatMap Frame.posted).reverse := fun hm =>
      (List.nodup_append.mp hn).2.2 n hm n List.mem_cons_self rfl
    rw [List.erase_append_right _ hni, List.erase_cons_head, List.append_nil]
  apply h.top hv rfl rfl
  · exact hr
  · show v.posted.erase n = _
    rw [herase]
    rfl
  · exact hq
  · show (v.released ++ (v.posted.erase n ++ ([n] ++ rest.flatMap Frame.releasing)).map act).Perm _
    rw [herase, ← List.append_assoc, ← hlast]
    exact hl

theorem Ok.release (h : v.Ok act)
    (hv : v.active = .deliver (some n) next save entry .release :: rest) :
    ({ v with
        released := v.released ++ [act n]
        active := .deliver next none save entry .fetch :: rest } : View).Ok act := by
  have hr : ∀ m ∈ next, v.pend.head? = some m := by
    apply h.refs (.deliver (some n) next save entry .release)
    rw [hv]
    exact List.mem_cons_self
  have hp := h.posted
  have hq := h.queued
  have hl := h.released
  rw [hv] at hp hq hl
  apply h.top hv rfl rfl
  · cases next with
    | none => trivial
    | some m => exact hr m rfl
  · cases next <;> exact hp
  · cases next <;> exact hq
  · have hl' : (v.released ++ [act n] ++ (v.posted ++ rest.flatMap Frame.releasing).map act).Perm
        (v.delivered ++ (rest.flatMap Frame.taken).map act) := by
      refine List.Perm.trans ?_ hl
      show (v.released ++ [act n] ++ (v.posted ++ rest.flatMap Frame.releasing).map act).Perm
        (v.released ++ (v.posted ++ ([n] ++ rest.flatMap Frame.releasing)).map act)
      rw [List.append_assoc]
      apply List.Perm.append_left
      rw [List.map_append, List.map_append, List.map_append]
      exact (List.perm_append_comm_assoc _ _ _)
    cases next <;> exact hl'

/-- The steps from the call of a handler to the release of its node leave the rest of
the loop as it is. -/
theorem Going.advance {f g : Frame} (h : v.Ok act) (hv : v.active = f :: rest)
    (hd : f.isDeliver = true) {w : View} (hw : w.active = g :: rest) (hp : w.pend = v.pend)
    (hf : w.flagged = v.flagged) (hc : f.Covers v.pend → g.Covers v.pend) (hg : v.Going) :
    w.Going := by
  unfold View.Going
  rw [hp, hf]
  rcases h.going hv hd hg with hg | hg | hg
  · exact .inl hg
  · exact .inr (.inl hg)
  · refine .inr (.inr ⟨g, ?_, hc hg⟩)
    rw [hw]
    exact List.mem_cons_self

theorem Ok.append (h : v.Ok act) (hn : n ∉ v.nodes) (a : Action) :
    ({ v with
        pend := v.pend ++ [n]
        queued := v.queued ++ [a] } : View).Ok (update act n a) := by
  have hc : v.Ok (update act n a) := by
    apply h.congr
    intro m hm
    apply update_of_ne
    intro he
    exact hn (he ▸ hm)
  constructor
  · exact hc.posted
  · exact hc.settled
  · exact fun f hf => (hc.refs f hf).append n
  · show v.queued ++ [a] = _
    rw [hc.queued]
    simp
  · exact hc.released

end View

namespace Core.Inv

variable {c : Core} {t n : Nat} {v : View} {fs gs rest : List Frame} {free e : List Nat}

theorem flag (I : c.Inv) (ht : t ∈ c.tasks) :
    (c.setView t { c.view t with flagged := true } c.free).Inv := by
  apply I.setView ht
  · exact I.nodup_setView (e := []) ht I.nodes (List.Subperm.refl _)
  · exact (I.task t ht).flag true
  · refine .inl ?_
    rw [setView_same]
    exact .inr (.inl rfl)
  · exact fun u info _ h => .inr h

theorem not_covers_received {q : List Nat} {f : Frame} (h : f.isDeliver = false) : ¬f.Covers q := by
  cases f <;> simp_all [Frame.isDeliver, Frame.Covers]

/-- Activations of `sig_received` come and go. What one of them was to schedule is
flagged or still to be scheduled. -/
theorem received (I : c.Inv) (ht : t ∈ c.tasks) (hv : (c.view t).active = fs ++ rest)
    (hf : ∀ f ∈ fs, f.isDeliver = false) (hg : ∀ f ∈ gs, f.isDeliver = false)
    (hfresh : (e ++ c.nodes).Nodup)
    (hn : (free ++ gs.flatMap Frame.actionNode).Subperm
      (e ++ c.free ++ fs.flatMap Frame.actionNode))
    (hs : ∀ u info, Frame.received u info .schedule ∈ fs →
      (c.view u).flagged = true ∨ Frame.received u info .schedule ∈ gs ++ rest) :
    (c.setView t { c.view t with active := gs ++ rest } free).Inv := by
  have hs' : ∀ u info, Frame.received u info .schedule ∈ (c.view t).active →
      (c.view u).flagged = true ∨ Frame.received u info .schedule ∈ gs ++ rest := by
    intro u info h
    rw [hv] at h
    rcases List.mem_append.mp h with h | h
    · exact hs u info h
    · exact .inr (List.mem_append_right _ h)
  apply I.setView ht
  · apply I.nodup_setView ht hfresh
    show (free ++ ((c.view t).pend ++ (c.view t).posted ++
      (gs ++ rest).flatMap Frame.actionNode)).Subperm _
    unfold View.nodes
    rw [hv, List.flatMap_append, List.flatMap_append]
    have hp : (free ++ ((c.view t).pend ++ (c.view t).posted ++
        (gs.flatMap Frame.actionNode ++ rest.flatMap Frame.actionNode))).Perm
        (free ++ gs.flatMap Frame.actionNode ++
          ((c.view t).pend ++ (c.view t).posted ++ rest.flatMap Frame.actionNode)) := by
      rw [List.append_assoc free]
      exact (List.perm_append_comm_assoc _ _ _).append_left _
    have hq : (e ++ (c.free ++ ((c.view t).pend ++ (c.view t).posted ++
        (fs.flatMap Frame.actionNode ++ rest.flatMap Frame.actionNode)))).Perm
        (e ++ c.free ++ fs.flatMap Frame.actionNode ++
          ((c.view t).pend ++ (c.view t).posted ++ rest.flatMap Frame.actionNode)) := by
      rw [List.append_assoc (e ++ c.free), List.append_assoc e]
      exact ((List.perm_append_comm_assoc _ _ _).append_left _).append_left _
    exact hp.subperm.trans (((List.subperm_append_right _).mpr hn).trans hq.symm.subperm)
  · exact (I.task t ht).received hv hf hg
  · have hd := I.due t ht
    unfold Core.Due
    rw [setView_same]
    rcases hd with hd | ⟨w, hw, info, hd⟩
    · rcases hd with hd | hd | ⟨f, hfm, hc⟩
      · exact .inl (.inl hd)
      · exact .inl (.inr (.inl hd))
      · rw [hv] at hfm
        rcases List.mem_append.mp hfm with hfm | hfm
        · exact absurd hc (not_covers_received (hf f hfm))
        · exact .inl (.inr (.inr ⟨f, List.mem_append_right _ hfm, hc⟩))
    · by_cases he : w = t
      · subst he
        rcases hs' _ info hd with h | h
        · exact .inl (.inr (.inl h))
        · exact .inr ⟨w, ht, info, by rw [setView_same]; exact h⟩
      · exact .inr ⟨w, hw, info, by rw [setView_of_ne he]; exact hd⟩
  · exact fun u info _ h => hs' u info h

theorem append (I : c.Inv) (ht : t ∈ c.tasks) (hn : n ∉ c.nodes) (a : Action) (b : Bool)
    (hb : (c.view t).flagged = true → b = true) (hd : b = true ∨ c.Scheduling t) :
    Core.Inv
      { c with
        act := update c.act n a
        view := update c.view t
          { c.view t with
            pend := (c.view t).pend ++ [n]
            queued := (c.view t).queued ++ [a]
            flagged := b } } := by
  have hnt : ∀ u ∈ c.tasks, n ∉ (c.view u).nodes := by
    intro u hu hm
    exact hn (List.mem_append_right _ (mem_owned.mpr ⟨u, hu, hm⟩))
  have hnodes : (c.setView t
      { c.view t with
        pend := (c.view t).pend ++ [n]
        queued := (c.view t).queued ++ [a]
        flagged := b } c.free).nodes.Nodup := by
    apply I.nodup_setView (e := [n]) ht
    · exact List.nodup_cons.mpr ⟨hn, I.nodes⟩
    · apply List.Perm.subperm
      show (c.free ++ ((c.view t).pend ++ [n] ++ (c.view t).posted ++ _)).Perm
        (n :: (c.free ++ ((c.view t).pend ++ (c.view t).posted ++ _)))
      simp only [List.append_assoc, List.singleton_append]
      exact (List.perm_middle.append_left _).trans List.perm_middle
  have hview : ∀ u, u ≠ t → update c.view t
      { c.view t with
        pend := (c.view t).pend ++ [n]
        queued := (c.view t).queued ++ [a]
        flagged := b } u = c.view u := fun u hu => update_of_ne hu ..
  constructor
  · exact I.tasks
  · exact hnodes
  · intro u hu
    show (update c.view t _ u).Ok _
    by_cases h : u = t
    · subst h
      rw [update_self]
      exact ((I.task u hu).append (hnt u hu) a).flag b
    · rw [hview u h]
      apply (I.task u hu).congr
      intro m hm
      apply update_of_ne
      intro he
      exact hnt u hu (he ▸ hm)
  · have hsched : ∀ u, c.Scheduling u → ∃ w ∈ c.tasks, ∃ info, Frame.received u info .schedule ∈
        (update c.view t
          { c.view t with
            pend := (c.view t).pend ++ [n]
            queued := (c.view t).queued ++ [a]
            flagged := b } w).active := by
      intro u ⟨w, hw, info, h⟩
      refine ⟨w, hw, info, ?_⟩
      by_cases he : w = t
      · subst he
        rw [update_self]
        exact h
      · rw [hview w he]
        exact h
    intro u hu
    by_cases h : u = t
    · subst h
      rcases hd with hd | hd
      · refine .inl (.inr (.inl ?_))
        show (update c.view u _ u).flagged = true
        rw [update_self]
        exact hd
      · exact .inr (hsched u hd)
    · rcases I.due u hu with hdu | hdu
      · refine .inl ?_
        show (update c.view t _ u).Going
        rw [hview u h]
        exact hdu
      · exact .inr (hsched u hdu)

end Core.Inv

end NuttxAvr32.Sig
