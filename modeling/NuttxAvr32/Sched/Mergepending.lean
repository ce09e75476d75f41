import NuttxAvr32.Lib.Linked
import NuttxAvr32.Sched.Moves

/-! # Merging the pending tasks into the ready list

`sched_mergepending` and `sched_addprioritized` on the links of the TCBs. The cursor
of the merge never goes back: what lies before it is at least as high as all that
is still pending, so one pass gives the stable merge of the two queues.
-/

namespace NuttxAvr32.Sched

open Keyed Linked
open Function (update update_self update_of_ne)

structure Dq where
  head : Option Nat
  tail : Option Nat
deriving DecidableEq, Repr

/-- The TCBs with their links, and the two queues of tasks that can run. -/
structure Queues extends Tasks where
  flink : Nat → Option Nat
  blink : Nat → Option Nat
  gReadytorun : Dq
  gPendingtasks : Dq

namespace Queues

variable (m : Queues)

def setState (t : Nat) (s : TaskState) : Queues :=
  { m with tcb := update m.tcb t { m.tcb t with taskState := s } }

/-- The links of `tcb` are set, and those of its neighbours are turned to it. -/
def linkBetween (prev next : Option Nat) (tcb : Nat) : Queues :=
  let flink := update m.flink tcb next
  let blink := update m.blink tcb prev
  { m with
    flink := match prev with
      | some p => update flink p (some tcb)
      | none => flink
    blink := match next with
      | some n => update blink n (some tcb)
      | none => blink }

/-- `for (; p && priority <= p->sched_priority; p = p->flink);` takes at most the given
number of tests. -/
def skipAbove (priority : Nat) : Nat → Option Nat → Option (Option Nat)
  | 0, _ => none
  | _ + 1, none => some none
  | n + 1, some p =>
    if priority ≤ m.prio p then skipAbove priority n (m.flink p) else some (some p)

/-- Returns the queue and whether the task is now at its head. -/
def schedAddprioritized (fuel tcb : Nat) (list : Dq) : Option (Queues × Dq × Bool) :=
  if schedPriorityMin ≤ m.prio tcb then
    match m.skipAbove (m.prio tcb) fuel list.head with
    | none => none
    | some none =>
      match list.tail with
      | none => some (m.linkBetween none none tcb, ⟨some tcb, some tcb⟩, true)
      | some prev => some (m.linkBetween (some prev) none tcb, ⟨list.head, some tcb⟩, false)
    | some (some next) =>
      match m.blink next with
      | none => some (m.linkBetween none (some next) tcb, ⟨some tcb, list.tail⟩, true)
      | some prev => some (m.linkBetween (some prev) (some next) tcb, list, false)
  else none

/-- The body of the loop of `sched_mergepending`: where the list has no task below the
pending one it panics. Returns whether the head has changed. -/
def mergeOne (fuel pndtcb : Nat) (rtrtcb : Option Nat) : Option (Queues × Bool) :=
  match m.skipAbove (m.prio pndtcb) fuel rtrtcb with
  | none => none
  | some none => none
  | some (some rtrtcb) =>
    match m.blink rtrtcb with
    | none =>
      let m := m.linkBetween none (some rtrtcb) pndtcb
      let m := { m with gReadytorun := ⟨some pndtcb, m.gReadytorun.tail⟩ }
      some ((m.setState rtrtcb .readytorun).setState pndtcb .running, true)
    | some rtrprev =>
      some ((m.linkBetween (some rtrprev) (some rtrtcb) pndtcb).setState pndtcb .readytorun,
        false)

def mergeLoop (fuel : Nat) : Nat → Option Nat → Option Nat → Bool → Queues →
    Option (Queues × Bool)
  | 0, _, _, _, _ => none
  | _ + 1, none, _, ret, m => some (m, ret)
  | n + 1, some pndtcb, rtrtcb, ret, m =>
    let pndnext := m.flink pndtcb
    match m.mergeOne fuel pndtcb rtrtcb with
    | none => none
    | some (m, head) => mergeLoop fuel n pndnext (some pndtcb) (ret || head) m

def schedMergepending (fuel : Nat) : Option (Queues × Bool) :=
  match mergeLoop fuel fuel m.gPendingtasks.head m.gReadytorun.head false m with
  | none => none
  | some (m, ret) => some ({ m with gPendingtasks := ⟨none, none⟩ }, ret)

def addEach (fuel : Nat) : List Nat → Queues → Option Queues
  | [], m => some m
  | tcb :: rest, m =>
    match m.schedAddprioritized fuel tcb m.gReadytorun with
    | none => none
    | some (m, list, _) => addEach fuel rest { m with gReadytorun := list }

end Queues

/-- The queue `q` holds the tasks of `l` in their order. -/
structure IsQueue (m : Queues) (q : Dq) (l : List Nat) : Prop where
  head : q.head = l.head?
  tail : q.tail = l.getLast?
  ends : Ends m.flink m.blink l

namespace Queues

variable {m : Queues} {q : Dq} {l l₁ l₂ pnd : List Nat} {t u : Nat} {priority fuel : Nat}

@[simp] theorem setState_tcb_same {s : TaskState} :
    (m.setState t s).tcb t = { m.tcb t with taskState := s } := update_self _ _ _

theorem setState_tcb_of_ne {s : TaskState} (h : u ≠ t) : (m.setState t s).tcb u = m.tcb u :=
  update_of_ne h _ _

end Queues

def Tasks.restate (k : Tasks) (f : Nat → TaskState) : Tasks :=
  { k with tcb := fun t => { k.tcb t with taskState := f t } }

@[simp] theorem Tasks.restate_taskState (k : Tasks) (f : Nat → TaskState) (t : Nat) :
    ((k.restate f).tcb t).taskState = f t := rfl

@[simp] theorem Tasks.restate_restate (k : Tasks) (f g : Nat → TaskState) :
    (k.restate f).restate g = k.restate g := rfl

namespace Queues

variable {m : Queues} {q : Dq} {l l₁ l₂ pnd : List Nat} {t u : Nat} {priority fuel : Nat}

theorem setState_toTasks (s : TaskState) : (m.setState t s).toTasks =
    m.toTasks.restate fun u => if u = t then s else (m.tcb u).taskState := by
  have htcb : (m.setState t s).tcb = fun u =>
      { m.tcb u with taskState := if u = t then s else (m.tcb u).taskState } := by
    funext u
    by_cases h : u = t
    · subst h
      rw [setState_tcb_same, if_pos rfl]
    · rw [setState_tcb_of_ne h, if_neg h]
  show Tasks.mk (m.setState t s).tcb _ _ = _
  rw [htcb]
  rfl

theorem skipAbove_eq {p : Option Nat} (h : Seg m.flink m.blink p (l₁ ++ l₂) none)
    (hge : ∀ y ∈ l₁, priority ≤ m.prio y) (hlt : ∀ y ∈ l₂.head?, m.prio y < priority)
    (hfuel : l₁.length < fuel) :
    m.skipAbove priority fuel (l₁ ++ l₂).head? = some l₂.head? := by
  induction l₁ generalizing p fuel with
  | nil =>
    obtain ⟨n, rfl⟩ := Nat.exists_eq_add_of_lt hfuel
    rw [List.nil_append]
    cases l₂ with
    | nil => rfl
    | cons y l₂ =>
      have hy := hlt y rfl
      simp only [List.head?_cons, List.length_nil, Nat.zero_add, skipAbove,
        if_neg (Nat.not_le.mpr hy)]
  | cons y l₁ ih =>
    cases fuel with
    | zero => cases hfuel
    | succ fuel =>
      obtain ⟨-, hnext, hseg⟩ := h
      have hlen : l₁.length < fuel := by simpa using hfuel
      have hflink : m.flink y = (l₁ ++ l₂).head? := by simpa using hnext
      have hyge := hge y List.mem_cons_self
      simp only [List.cons_append, List.head?_cons, skipAbove, if_pos hyge, hflink]
      exact ih hseg (fun z hz => hge z (List.mem_cons_of_mem _ hz)) hlen

theorem linkBetween_flink (prev next : Option Nat) (h : u ≠ t) :
    (m.linkBetween prev next t).flink u = if prev = some u then some t else m.flink u := by
  cases prev with
  | none =>
    rw [if_neg (by simp)]
    exact update_of_ne h _ _
  | some p =>
    show update (update m.flink t next) p (some t) u = _
    by_cases hp : u = p
    · subst hp
      rw [update_self, if_pos rfl]
    · rw [update_of_ne hp, update_of_ne h,
        if_neg fun he => hp (Option.some.inj he).symm]

theorem linkBetween_blink (prev next : Option Nat) (h : u ≠ t) :
    (m.linkBetween prev next t).blink u = if next = some u then some t else m.blink u := by
  cases next with
  | none =>
    rw [if_neg (by simp)]
    exact update_of_ne h _ _
  | some n =>
    show update (update m.blink t prev) n (some t) u = _
    by_cases hn : u = n
    · subst hn
      rw [update_self, if_pos rfl]
    · rw [update_of_ne hn, update_of_ne h,
        if_neg fun he => hn (Option.some.inj he).symm]

theorem linkBetween_self (prev next : Option Nat) (hp : prev ≠ some t) (hn : next ≠ some t) :
    (m.linkBetween prev next t).flink t = next ∧ (m.linkBetween prev next t).blink t = prev := by
  constructor
  · cases prev with
    | none => exact update_self _ _ _
    | some p =>
      show update (update m.flink t next) p (some t) t = _
      rw [update_of_ne fun he => hp (congrArg some he.symm), update_self]
  · cases next with
    | none => exact update_self _ _ _
    | some n =>
      show update (update m.blink t prev) n (some t) t = _
      rw [update_of_ne fun he => hn (congrArg some he.symm), update_self]

/-- The links of the tasks outside `l` are those of `m`. -/
def LinksOutside (l : List Nat) (m m' : Queues) : Prop :=
  ∀ u, u ∉ l → m'.flink u = m.flink u ∧ m'.blink u = m.blink u

theorem LinksOutside.trans {m₁ m₂ : Queues} (h : LinksOutside l m m₁)
    (h' : LinksOutside l m₁ m₂) : LinksOutside l m m₂ :=
  fun u hu => ⟨(h' u hu).1.trans (h u hu).1, (h' u hu).2.trans (h u hu).2⟩

theorem linksOutside_linkBetween {prev next : Option Nat} (ht : t ∈ l) (hp : ∀ p ∈ prev, p ∈ l)
    (hn : ∀ n ∈ next, n ∈ l) : LinksOutside l m (m.linkBetween prev next t) := by
  intro u hu
  have hne : u ≠ t := by
    rintro rfl
    exact hu ht
  have hpu : prev ≠ some u := fun he => hu (hp u he)
  have hnu : next ≠ some u := fun he => hu (hn u he)
  rw [linkBetween_flink _ _ hne, linkBetween_blink _ _ hne, if_neg hpu, if_neg hnu]
  exact ⟨rfl, rfl⟩

theorem ends_linkBetween (h : Ends m.flink m.blink (l₁ ++ l₂)) (hd : (l₁ ++ t :: l₂).Nodup) :
    Ends (m.linkBetween l₁.getLast? l₂.head? t).flink (m.linkBetween l₁.getLast? l₂.head? t).blink
      (l₁ ++ t :: l₂) := by
  have hnot : t ∉ l₁ ++ l₂ := (List.nodup_cons.mp (List.perm_middle.nodup_iff.mp hd)).1
  have hne : ∀ y ∈ l₁ ++ l₂, y ≠ t := by
    rintro y hy rfl
    exact hnot hy
  have hself := linkBetween_self (m := m) (t := t) l₁.getLast? l₂.head?
    (fun he => hnot (List.mem_append_left _ (List.mem_of_getLast? he)))
    (fun he => hnot (List.mem_append_right _ (List.mem_of_head? he)))
  exact h.insert hd (fun y hy => linkBetween_flink _ _ (hne y hy))
    (fun y hy => linkBetween_blink _ _ (hne y hy)) hself.1 hself.2

theorem isQueue_linkBetween (l₁ l₂ : List Nat) (Q : IsQueue m q (l₁ ++ l₂))
    (hd : (l₁ ++ t :: l₂).Nodup) :
    IsQueue (m.linkBetween l₁.getLast? l₂.head? t)
      ⟨if l₁ = [] then some t else q.head, if l₂ = [] then some t else q.tail⟩
      (l₁ ++ t :: l₂) := by
  refine ⟨?_, ?_, ends_linkBetween Q.ends hd⟩
  · cases l₁ with
    | nil => rfl
    | cons y l₁ =>
      have hq := Q.head
      simpa using hq
  · cases l₂ with
    | nil => simp
    | cons y l₂ =>
      have hq := Q.tail
      simpa [List.getLast?_append, List.getLast?_cons] using hq

theorem addprioritized_spec (Q : IsQueue m q l) (hmin : schedPriorityMin ≤ m.prio t) (ht : t ∉ l)
    (hfuel : l.length < fuel) : ∃ m' q', m.schedAddprioritized fuel t q =
        some (m', q', decide ((insertKeyed m.prio t l).head? = some t)) ∧
      IsQueue m' q' (insertKeyed m.prio t l) ∧ m'.toTasks = m.toTasks ∧
      LinksOutside (t :: l) m m' := by
  obtain ⟨l₁, l₂, rfl, hins, hge, hlt⟩ := insertKeyed_split m.prio t l
  have hout : ∀ prev next : Option Nat, (∀ p ∈ prev, p ∈ l₁ ++ l₂) → (∀ n ∈ next, n ∈ l₁ ++ l₂) →
      LinksOutside (t :: (l₁ ++ l₂)) m (m.linkBetween prev next t) := fun prev next hp hn =>
    linksOutside_linkBetween List.mem_cons_self (fun p hm => List.mem_cons_of_mem _ (hp p hm))
      fun n hm => List.mem_cons_of_mem _ (hn n hm)
  have hd : (l₁ ++ t :: l₂).Nodup :=
    List.perm_middle.nodup_iff.mpr (List.nodup_cons.mpr ⟨ht, Q.ends.nodup⟩)
  have hlen : l₁.length < fuel := by
    rw [List.length_append] at hfuel
    omega
  have hskip := skipAbove_eq Q.ends hge hlt hlen
  rw [← Q.head] at hskip
  have hQ := isQueue_linkBetween l₁ l₂ Q hd
  have hne : ∀ y ∈ l₁, y ≠ t := by
    rintro y hy rfl
    exact ht (List.mem_append_left _ hy)
  rw [hins]
  unfold schedAddprioritized
  rw [if_pos hmin, hskip]
  cases l₂ with
  | nil =>
    have htail : q.tail = l₁.getLast? := by simpa using Q.tail
    cases hl : l₁.getLast? with
    | none =>
      have hnil : l₁ = [] := List.getLast?_eq_none_iff.mp hl
      subst hnil
      exact ⟨m.linkBetween none none t, _, by simp [htail], hQ, rfl,
        hout _ _ (fun _ hp => (by cases hp)) fun _ hn => (by cases hn)⟩
    | some prev =>
      have hnil : l₁ ≠ [] := by
        rintro rfl
        cases hl
      rw [hl, if_neg hnil, if_pos rfl] at hQ
      obtain ⟨y, r, rfl⟩ := List.exists_cons_of_ne_nil hnil
      have hmem : prev ∈ (y :: r) ++ [] := by
        rw [List.append_nil]
        exact List.mem_of_getLast? hl
      refine ⟨m.linkBetween (some prev) none t, _, ?_, hQ, rfl,
        hout _ _ (fun p hp => Option.some.inj hp ▸ hmem) fun _ hn => (by cases hn)⟩
      simp [htail, hl, hne y List.mem_cons_self]
  | cons next l₂ =>
    have hblink := Q.ends.neighbours.1
    cases hl : l₁.getLast? with
    | none =>
      have hnil : l₁ = [] := List.getLast?_eq_none_iff.mp hl
      subst hnil
      exact ⟨m.linkBetween none (some next) t, _, by simp [hblink], hQ, rfl,
        hout _ _ (fun _ hp => (by cases hp)) fun n hn => Option.some.inj hn ▸ by simp⟩
    | some prev =>
      have hnil : l₁ ≠ [] := by
        rintro rfl
        cases hl
      rw [hl, if_neg hnil, if_neg (by simp)] at hQ
      obtain ⟨y, r, rfl⟩ := List.exists_cons_of_ne_nil hnil
      have hmem : prev ∈ (y :: r) ++ next :: l₂ :=
        List.mem_append_left _ (List.mem_of_getLast? hl)
      refine ⟨m.linkBetween (some prev) (some next) t, _, ?_, hQ, rfl,
        hout _ _ (fun p hp => Option.some.inj hp ▸ hmem) fun n hn =>
          Option.some.inj hn ▸ by simp⟩
      simp [hblink, hl, hne y List.mem_cons_self]

theorem addEach_spec (Q : IsQueue m m.gReadytorun l)
    (hmin : ∀ x ∈ pnd, schedPriorityMin ≤ m.prio x) (hd : (pnd ++ l).Nodup)
    (hfuel : l.length + pnd.length < fuel) : ∃ m', addEach fuel pnd m = some m' ∧
      IsQueue m' m'.gReadytorun (mergeKeyed m.prio l pnd) := by
  induction pnd generalizing m l with
  | nil => exact ⟨m, rfl, Q⟩
  | cons t pnd ih =>
    obtain ⟨hnot, hd'⟩ := List.nodup_cons.mp hd
    have ht : t ∉ l := fun h => hnot (List.mem_append_right _ h)
    have hlen : l.length < fuel := by omega
    obtain ⟨m₁, q₁, he, Q₁, htasks, -⟩ :=
      addprioritized_spec Q (hmin t List.mem_cons_self) ht hlen
    have hprio : m₁.prio = m.prio := by
      funext u
      show (m₁.toTasks.tcb u).schedPriority = _
      rw [htasks]
    have hperm := insertKeyed_perm m.prio t l
    have hd₁ : (pnd ++ insertKeyed m.prio t l).Nodup :=
      ((hperm.append_left pnd).trans List.perm_middle).nodup_iff.mpr hd
    have hlen₁ : (insertKeyed m.prio t l).length + pnd.length < fuel := by
      rw [hperm.length_eq, List.length_cons]
      rw [List.length_cons] at hfuel
      omega
    have Q₁' : IsQueue { m₁ with gReadytorun := q₁ } q₁ (insertKeyed m.prio t l) :=
      ⟨Q₁.head, Q₁.tail, Q₁.ends⟩
    obtain ⟨m', hm', Q'⟩ := ih (m := { m₁ with gReadytorun := q₁ }) Q₁'
      (fun x hx => by
        show schedPriorityMin ≤ m₁.prio x
        rw [hprio]
        exact hmin x (List.mem_cons_of_mem _ hx)) hd₁ hlen₁
    refine ⟨m', ?_, ?_⟩
    · simp only [addEach, he]
      exact hm'
    · rw [mergeKeyed_cons, ← hprio]
      rw [← hprio] at Q'
      exact Q'

section

variable {pre a b rest : List Nat} {ret : Bool} {n : Nat}

theorem mergeOne_skip (pre : List Nat) (Q : IsQueue m q (pre ++ (a ++ b)))
    (hge : ∀ y ∈ a, m.prio t ≤ m.prio y) (hlt : ∀ y ∈ b.head?, m.prio y < m.prio t)
    (hfuel : a.length < fuel) :
    m.skipAbove (m.prio t) fuel (a ++ b).head? = some b.head? :=
  skipAbove_eq (seg_append.mp Q.ends).2 hge hlt hfuel

theorem mergeOne_behind {y : Nat} (Q : IsQueue m q (pre ++ (a ++ y :: b)))
    (hge : ∀ y ∈ a, m.prio t ≤ m.prio y) (hlt : m.prio y < m.prio t) (hpos : pre ++ a ≠ [])
    (hfuel : a.length < fuel) : m.mergeOne fuel t (a ++ y :: b).head? =
      some ((m.linkBetween (pre ++ a).getLast? (some y) t).setState t .readytorun, false) := by
  have hskip := mergeOne_skip pre Q hge (b := y :: b) (by simpa using hlt) hfuel
  have hends := Q.ends
  rw [← List.append_assoc] at hends
  have hblink := hends.neighbours.1
  cases hl : (pre ++ a).getLast? with
  | none => exact absurd (List.getLast?_eq_none_iff.mp hl) hpos
  | some prev =>
    rw [hl] at hblink
    simp only [mergeOne, hskip, List.head?_cons, hblink]

theorem mergeOne_top {y : Nat} (Q : IsQueue m q (y :: b)) (hlt : m.prio y < m.prio t)
    (hfuel : 0 < fuel) : m.mergeOne fuel t (some y) =
      some ((({ m.linkBetween none (some y) t with
        gReadytorun := ⟨some t, m.gReadytorun.tail⟩ } : Queues).setState y .readytorun).setState t
          .running, true) := by
  have hskip := mergeOne_skip [] (a := []) (b := y :: b) Q (by simp)
    (by simpa using hlt) hfuel
  have hblink : m.blink y = none := Q.ends.1
  simp only [List.nil_append, List.head?_cons] at hskip
  simp only [mergeOne, hskip, hblink]
  rfl

theorem split_below {key : Nat → Nat} {c z : Nat} (hz : l.getLast? = some z) (hc : key z < c) :
    ∃ a y b, l = a ++ y :: b ∧ (∀ x ∈ a, c ≤ key x) ∧ key y < c ∧
      (y :: b).getLast? = some z := by
  induction l with
  | nil => cases hz
  | cons x l ih =>
    by_cases hx : key x < c
    · exact ⟨[], x, l, rfl, by simp, hx, hz⟩
    · have hz' : l.getLast? = some z := by
        cases l with
        | nil =>
          cases hz
          exact absurd hc hx
        | cons w l => exact hz
      obtain ⟨a, y, b, rfl, ha, hy, hlast⟩ := ih hz'
      refine ⟨x :: a, y, b, rfl, ?_, hy, hlast⟩
      intro w hw
      rcases List.mem_cons.mp hw with rfl | hw
      · omega
      · exact ha w hw

/-- The part of the ready list before the cursor, the part from it on, and what is still
pending. -/
structure Cursor (m : Queues) (pre suf pnd : List Nat) (idle : Nat) : Prop where
  ready : IsQueue m m.gReadytorun (pre ++ suf)
  pending : ∃ p, Seg m.flink m.blink p pnd none
  nodup : (pre ++ suf ++ pnd).Nodup
  sorted : Descending m.prio pnd
  passed : ∀ y ∈ pre, ∀ x ∈ pnd, m.prio x ≤ m.prio y
  last : suf.getLast? = some idle
  above : ∀ x ∈ pnd, m.prio idle < m.prio x

variable {suf : List Nat} {idle : Nat}

theorem Cursor.frame {y : Nat} (prev : Option Nat) (C : Cursor m pre suf (t :: rest) idle)
    (hprev : ∀ z ∈ prev, z ∈ pre ++ suf) (hy : y ∈ pre ++ suf) :
    ∃ p, Seg (m.linkBetween prev (some y) t).flink (m.linkBetween prev (some y) t).blink p rest
      none := by
  obtain ⟨p, hp⟩ := C.pending
  have hd := List.nodup_append.mp C.nodup
  have hne : ∀ u ∈ rest, u ≠ t := by
    rintro u hu rfl
    exact (List.nodup_cons.mp hd.2.1).1 hu
  refine ⟨some t, hp.2.2.congr ?_ ?_⟩
  · intro u hu
    rw [linkBetween_flink _ _ (hne u hu), if_neg]
    intro he
    exact hd.2.2 u (hprev u he) u (List.mem_cons_of_mem _ hu) rfl
  · intro u hu
    rw [linkBetween_blink _ _ (hne u hu), if_neg]
    intro he
    cases he
    exact hd.2.2 y hy y (List.mem_cons_of_mem _ hu) rfl

theorem Cursor.flink (C : Cursor m pre suf (t :: rest) idle) : m.flink t = rest.head? := by
  obtain ⟨p, hp⟩ := C.pending
  simpa using hp.2.1

theorem Cursor.behind {y : Nat} (C : Cursor m pre (a ++ y :: b) (t :: rest) idle)
    (hge : ∀ x ∈ a, m.prio t ≤ m.prio x) (hpos : pre ++ a ≠ [])
    (hlast : (y :: b).getLast? = some idle) :
    Cursor ((m.linkBetween (pre ++ a).getLast? (some y) t).setState t .readytorun) (pre ++ a)
      (t :: y :: b) rest idle := by
  obtain ⟨hle, hrest⟩ := List.pairwise_cons.mp C.sorted
  have hprio : ((m.linkBetween (pre ++ a).getLast? (some y) t).setState t .readytorun).prio =
      m.prio := by
    funext u
    show (((m.linkBetween (pre ++ a).getLast? (some y) t).setState t
      .readytorun).toTasks.tcb u).schedPriority = _
    rw [setState_toTasks]
    rfl
  have hperm : (pre ++ a ++ (t :: y :: b) ++ rest).Perm (pre ++ (a ++ y :: b) ++ (t :: rest)) := by
    have h : (t :: (pre ++ a ++ y :: b) ++ rest).Perm (pre ++ a ++ y :: b ++ t :: rest) :=
      List.perm_middle.symm
    have h' : (pre ++ a ++ t :: y :: b ++ rest).Perm (t :: (pre ++ a ++ y :: b) ++ rest) :=
      List.perm_middle.append_right rest
    rw [← List.append_assoc pre a]
    exact h'.trans h
  have hd := hperm.nodup_iff.mpr C.nodup
  have hQ := C.ready
  rw [← List.append_assoc] at hQ
  have hQ' := isQueue_linkBetween (pre ++ a) (y :: b) hQ (List.nodup_append.mp hd).1
  rw [if_neg hpos, if_neg (by simp)] at hQ'
  have hmem : y ∈ pre ++ (a ++ y :: b) := by simp
  refine ⟨⟨hQ'.head, hQ'.tail, hQ'.ends⟩, ?_, hd, by rwa [hprio], ?_, ?_, ?_⟩
  · refine C.frame _ (fun z hz => ?_) hmem
    have hz' := List.mem_of_getLast? hz
    rw [← List.append_assoc]
    exact List.mem_append_left _ hz'
  · rw [hprio]
    intro z hz x hx
    rcases List.mem_append.mp hz with hz | hz
    · exact C.passed z hz x (List.mem_cons_of_mem _ hx)
    · exact (hle x hx).trans (hge z hz)
  · rw [List.getLast?_cons, hlast]
    rfl
  · rw [hprio]
    exact fun x hx => C.above x (List.mem_cons_of_mem _ hx)

theorem mergeLoop_behind (ret : Bool) (C : Cursor m pre suf pnd idle)
    (htop : ∀ y ∈ (pre ++ suf).head?, ∀ x ∈ pnd, m.prio x ≤ m.prio y)
    (hfuel : suf.length + pnd.length < fuel) (hn : pnd.length < n) :
    ∃ m', mergeLoop fuel n pnd.head? suf.head? ret m = some (m', ret) ∧
      IsQueue m' m'.gReadytorun (pre ++ stableMerge m.prio suf pnd) ∧
      (m'.toTasks = m.toTasks.restate fun u =>
        if u ∈ pnd then .readytorun else (m.tcb u).taskState) ∧
      LinksOutside (pre ++ suf ++ pnd) m m' := by
  induction pnd generalizing m pre suf n with
  | nil =>
    obtain ⟨n, rfl⟩ := Nat.exists_eq_add_of_lt hn
    refine ⟨m, by simp [mergeLoop], ?_, ?_, fun u _ => ⟨rfl, rfl⟩⟩
    · have hq := C.ready
      simpa using hq
    · simp only [List.not_mem_nil, if_false]
      rfl
  | cons t rest ih =>
    cases n with
    | zero => cases hn
    | succ n =>
      obtain ⟨a, y, b, rfl, hge, hlt, hlast⟩ :=
        split_below C.last (C.above t List.mem_cons_self)
      have hpos : pre ++ a ≠ [] := by
        intro hnil
        obtain ⟨rfl, rfl⟩ := List.append_eq_nil_iff.mp hnil
        have := htop y rfl t List.mem_cons_self
        omega
      have hlen : a.length < fuel := by
        simp only [List.length_append, List.length_cons] at hfuel
        omega
      have hone := mergeOne_behind C.ready hge hlt hpos hlen
      have C₁ := C.behind hge hpos hlast
      have hout : LinksOutside (pre ++ (a ++ y :: b) ++ t :: rest) m
          ((m.linkBetween (pre ++ a).getLast? (some y) t).setState t .readytorun) := by
        refine linksOutside_linkBetween (by simp) (fun p hp => ?_) fun n hn => ?_
        · have hp' := List.mem_append.mp (List.mem_of_getLast? hp)
          rcases hp' with hp' | hp'
          · simp [hp']
          · simp [hp']
        · cases hn
          simp
      have htasks : ((m.linkBetween (pre ++ a).getLast? (some y) t).setState t
          .readytorun).toTasks = m.toTasks.restate fun u =>
            if u = t then .readytorun else (m.tcb u).taskState := setState_toTasks _
      generalize (m.linkBetween (pre ++ a).getLast? (some y) t).setState t .readytorun = m₁
        at hone C₁ hout htasks
      have hprio : m₁.prio = m.prio := by
        funext u
        show (m₁.toTasks.tcb u).schedPriority = _
        rw [htasks]
        rfl
      have htop₁ : ∀ z ∈ (pre ++ a ++ (t :: y :: b)).head?, ∀ x ∈ rest,
          m₁.prio x ≤ m₁.prio z := by
        rw [hprio]
        intro z hz x hx
        obtain ⟨w, r, hw⟩ := List.exists_cons_of_ne_nil hpos
        rw [hw] at hz
        refine htop z ?_ x (List.mem_cons_of_mem _ hx)
        rw [← List.append_assoc, hw]
        exact hz
      have hfuel₁ : (t :: y :: b).length + rest.length < fuel := by
        simp only [List.length_append, List.length_cons] at hfuel ⊢
        omega
      obtain ⟨m', hloop, hready, hstates, hlinks⟩ := ih C₁ htop₁ hfuel₁ (by simpa using hn)
      refine ⟨m', ?_, ?_, ?_, hout.trans fun u hu => hlinks u fun hm => hu ?_⟩
      · simp only [List.head?_cons, mergeLoop, hone, C.flink, Bool.or_false]
        exact hloop
      · obtain ⟨hle, -⟩ := List.pairwise_cons.mp C.sorted
        have hge' : ∀ z ∈ a, ∀ x ∈ t :: rest, m.prio x ≤ m.prio z := by
          intro z hz x hx
          rcases List.mem_cons.mp hx with rfl | hx
          · exact hge z hz
          · exact (hle x hx).trans (hge z hz)
        have hskip : stableMerge m.prio (t :: y :: b) rest =
            t :: stableMerge m.prio (y :: b) rest :=
          stableMerge_cons_left hle
        have hmerge : stableMerge m.prio (a ++ y :: b) (t :: rest) =
            a ++ stableMerge m.prio (t :: y :: b) rest := by
          rw [stableMerge_append hge', stableMerge_cons_right (by simpa using hlt), hskip]
        rw [hmerge, ← List.append_assoc, ← hprio]
        exact hready
      · rw [hstates, htasks, Tasks.restate_restate]
        congr 1
        funext u
        simp only [Tasks.restate_taskState, List.mem_cons]
        by_cases hut : u = t
        · simp [hut]
        · simp [hut]
      · simp only [List.mem_append, List.mem_cons] at hm ⊢
        rcases hm with ((hm | hm) | hm | hm | hm) | hm
        all_goals simp [hm]

theorem Cursor.top {y : Nat} (C : Cursor m [] (y :: b) (t :: rest) idle) :
    Cursor ((({ m.linkBetween none (some y) t with
        gReadytorun := ⟨some t, m.gReadytorun.tail⟩ } : Queues).setState y .readytorun).setState t
          .running) [] (t :: y :: b) rest idle := by
  have hprio : ((({ m.linkBetween none (some y) t with
      gReadytorun := ⟨some t, m.gReadytorun.tail⟩ } : Queues).setState y .readytorun).setState t
        .running).prio = m.prio := by
    funext u
    show (((({ m.linkBetween none (some y) t with
      gReadytorun := ⟨some t, m.gReadytorun.tail⟩ } : Queues).setState y .readytorun).setState t
        .running).toTasks.tcb u).schedPriority = _
    rw [setState_toTasks]
    show ((({ m.linkBetween none (some y) t with
      gReadytorun := ⟨some t, m.gReadytorun.tail⟩ } : Queues).setState y
        .readytorun).toTasks.tcb u).schedPriority = _
    rw [setState_toTasks]
    rfl
  have hperm : (t :: (y :: b) ++ rest).Perm (y :: b ++ t :: rest) := List.perm_middle.symm
  have hd : (t :: (y :: b) ++ rest).Nodup := hperm.nodup_iff.mpr C.nodup
  have hQ' := isQueue_linkBetween [] (y :: b) C.ready
    (List.nodup_append.mp hd).1
  rw [if_pos rfl, if_neg (by simp)] at hQ'
  have hseg := C.frame (y := y) none (by simp) (by simp)
  refine ⟨⟨hQ'.head, hQ'.tail, hQ'.ends⟩, hseg, hd, ?_, by simp, ?_, ?_⟩
  · rw [hprio]
    exact (List.pairwise_cons.mp C.sorted).2
  · have hlast := C.last
    rw [List.getLast?_cons, hlast]
    rfl
  · rw [hprio]
    exact fun x hx => C.above x (List.mem_cons_of_mem _ hx)

end

/-- The states after the merge: the head runs, whoever had run before it is ready, and so
is every task that was pending. -/
def mergedState (m : Queues) (rtr pnd : List Nat) (t : Nat) : TaskState :=
  let merged := stableMerge m.prio rtr pnd
  if t ∈ pnd then if merged.head? = some t then .running else .readytorun
  else if merged.head? ≠ rtr.head? ∧ rtr.head? = some t then .readytorun
  else (m.tcb t).taskState

/-- The ready list ends with the idle task, and every pending task is above it. -/
structure Mergeable (m : Queues) (rtr pnd : List Nat) : Prop where
  ready : IsQueue m m.gReadytorun rtr
  pending : IsQueue m m.gPendingtasks pnd
  readySorted : Descending m.prio rtr
  pendingSorted : Descending m.prio pnd
  pendingMin : ∀ t ∈ pnd, schedPriorityMin ≤ m.prio t
  idle : ∃ idle, rtr.getLast? = some idle ∧ m.prio idle = schedPriorityIdle

variable {rtr : List Nat}

theorem Mergeable.nodup (M : Mergeable m rtr pnd) : (rtr ++ pnd).Nodup := by
  refine List.nodup_append.mpr ⟨M.ready.ends.nodup, M.pending.ends.nodup, ?_⟩
  rintro x hx _ hy rfl
  obtain ⟨idle, hlast, hprio⟩ := M.idle
  have hend := M.ready.ends.getLast?_eq_of_mem M.pending.ends hx hy
  rw [hlast] at hend
  have hmin := M.pendingMin idle (List.mem_of_getLast? hend.symm)
  rw [hprio] at hmin
  exact absurd hmin (by decide)

theorem Mergeable.cursor (M : Mergeable m rtr pnd) : ∃ idle, Cursor m [] rtr pnd idle := by
  obtain ⟨idle, hlast, hprio⟩ := M.idle
  refine ⟨idle, M.ready, ⟨none, M.pending.ends⟩, M.nodup, M.pendingSorted, by simp, hlast, ?_⟩
  intro x hx
  rw [hprio]
  exact M.pendingMin x hx

theorem mergepending_behind {y : Nat} {r : List Nat} (M : Mergeable m (y :: r) pnd)
    (htop : ∀ x ∈ pnd, m.prio x ≤ m.prio y) (hfuel : (y :: r).length + pnd.length < fuel) :
    ∃ m', m.schedMergepending fuel =
        some (m', decide ((stableMerge m.prio (y :: r) pnd).head? ≠ (y :: r).head?)) ∧
      IsQueue m' m'.gReadytorun (stableMerge m.prio (y :: r) pnd) ∧
      m'.gPendingtasks = ⟨none, none⟩ ∧
      m'.toTasks = m.toTasks.restate (m.mergedState (y :: r) pnd) ∧
      LinksOutside ((y :: r) ++ pnd) m m' := by
  obtain ⟨idle, C⟩ := M.cursor
  have hd := List.nodup_append.mp M.nodup
  unfold schedMergepending
  rw [M.pending.head, M.ready.head]
  have hhead : (stableMerge m.prio (y :: r) pnd).head? = some y := by
    have h : stableMerge m.prio (y :: r) pnd = y :: stableMerge m.prio r pnd :=
      stableMerge_cons_left htop
    rw [h]
    rfl
  obtain ⟨m', hloop, hready, hstates, hlinks⟩ := mergeLoop_behind false C
    (by simpa using htop) hfuel (show pnd.length < fuel by omega)
  refine ⟨{ m' with gPendingtasks := ⟨none, none⟩ }, ?_, ?_, rfl, ?_, hlinks⟩
  · rw [hloop]
    simp [hhead]
  · exact ⟨hready.head, hready.tail, hready.ends⟩
  · refine hstates.trans (congrArg _ ?_)
    funext u
    simp only [mergedState, hhead, List.head?_cons, ne_eq, not_true, false_and, if_false]
    by_cases hu : u ∈ pnd
    · have hne : some y ≠ some u := by
        rintro ⟨⟩
        exact hd.2.2 y List.mem_cons_self y hu rfl
      rw [if_pos hu, if_pos hu, if_neg hne]
    · rw [if_neg hu, if_neg hu]

/-- A first pending task above the running one takes its place, and the others are behind it. -/
theorem mergepending_top {y t : Nat} {r rest : List Nat} (M : Mergeable m (y :: r) (t :: rest))
    (hlt : m.prio y < m.prio t) (hfuel : (y :: r).length + (t :: rest).length < fuel) :
    ∃ m', m.schedMergepending fuel =
        some (m', decide ((stableMerge m.prio (y :: r) (t :: rest)).head? ≠ (y :: r).head?)) ∧
      IsQueue m' m'.gReadytorun (stableMerge m.prio (y :: r) (t :: rest)) ∧
      m'.gPendingtasks = ⟨none, none⟩ ∧
      m'.toTasks = m.toTasks.restate (m.mergedState (y :: r) (t :: rest)) ∧
      LinksOutside ((y :: r) ++ t :: rest) m m' := by
  obtain ⟨idle, C⟩ := M.cursor
  have hd := List.nodup_append.mp M.nodup
  obtain ⟨hle, -⟩ := List.pairwise_cons.mp M.pendingSorted
  unfold schedMergepending
  rw [M.pending.head, M.ready.head]
  have hskip : stableMerge m.prio (t :: y :: r) rest =
      t :: stableMerge m.prio (y :: r) rest :=
    stableMerge_cons_left hle
  have hmerge : stableMerge m.prio (y :: r) (t :: rest) =
      stableMerge m.prio (t :: y :: r) rest := by
    rw [hskip, stableMerge_cons_right (by simpa using hlt)]
  have hty : t ≠ y := by
    rintro rfl
    omega
  obtain ⟨fuel, rfl⟩ := Nat.exists_eq_add_of_lt hfuel
  have hone := mergeOne_top (q := m.gReadytorun) C.ready hlt
    (show 0 < (y :: r).length + (t :: rest).length + fuel + 1 by omega)
  have C₁ := C.top
  have hprev : ∀ p ∈ (none : Option Nat), p ∈ (y :: r) ++ t :: rest := by simp
  have hnext : ∀ n ∈ some y, n ∈ (y :: r) ++ t :: rest := by simp
  have hout : LinksOutside ((y :: r) ++ t :: rest) m
      ((({ m.linkBetween none (some y) t with
        gReadytorun := ⟨some t, m.gReadytorun.tail⟩ } : Queues).setState y .readytorun).setState t
          .running) :=
    linksOutside_linkBetween (by simp) hprev hnext
  have hstate : ((({ m.linkBetween none (some y) t with
      gReadytorun := ⟨some t, m.gReadytorun.tail⟩ } : Queues).setState y
        .readytorun).setState t .running).toTasks = m.toTasks.restate fun u =>
          if u = t then .running else if u = y then .readytorun
          else (m.tcb u).taskState := by
    rw [setState_toTasks]
    exact congrArg (fun k : Tasks => k.restate fun u => if u = t then .running
      else (k.tcb u).taskState) (setState_toTasks (m := { m.linkBetween none (some y) t with
        gReadytorun := ⟨some t, m.gReadytorun.tail⟩ }) (t := y) .readytorun)
  generalize (({ m.linkBetween none (some y) t with
    gReadytorun := ⟨some t, m.gReadytorun.tail⟩ } : Queues).setState y .readytorun).setState t
      .running = m₁ at hone C₁ hout hstate
  have hprio : m₁.prio = m.prio := by
    funext u
    show (m₁.toTasks.tcb u).schedPriority = _
    rw [hstate]
    rfl
  have htop₁ : ∀ z ∈ ([] ++ (t :: y :: r)).head?, ∀ x ∈ rest, m₁.prio x ≤ m₁.prio z := by
    rw [hprio]
    simpa using hle
  have hfuel₁ : (t :: y :: r).length + rest.length <
      (y :: r).length + (t :: rest).length + fuel + 1 := by
    simp only [List.length_cons]
    omega
  have hn : rest.length < (y :: r).length + (t :: rest).length + fuel := by
    simp only [List.length_cons]
    omega
  obtain ⟨m', hloop, hready, hstates, hlinks⟩ := mergeLoop_behind true C₁ htop₁ hfuel₁ hn
  refine ⟨{ m' with gPendingtasks := ⟨none, none⟩ }, ?_, ?_, rfl, ?_,
    hout.trans fun u hu => hlinks u fun hm => hu ?_⟩
  · have hflink := C.flink
    simp only [List.head?_cons, mergeLoop, hone, hflink, Bool.false_or] at hloop ⊢
    rw [hloop, hmerge, hskip]
    simp [hty]
  · rw [hmerge, ← hprio]
    exact ⟨hready.head, hready.tail, hready.ends⟩
  · refine hstates.trans ?_
    rw [hstate, Tasks.restate_restate]
    congr 1
    funext u
    have hmem : y ∉ t :: rest := fun hy => hd.2.2 y List.mem_cons_self y hy rfl
    have htr : t ∉ rest := (List.nodup_cons.mp hd.2.1).1
    simp only [Tasks.restate_taskState, mergedState, hmerge, hskip, List.head?_cons,
      List.mem_cons, Option.some.injEq]
    by_cases hut : u = t
    · subst hut
      rw [if_neg htr, if_pos rfl, if_pos (Or.inl rfl), if_pos rfl]
    · by_cases hur : u ∈ rest
      · rw [if_pos hur, if_pos (Or.inr hur), if_neg (Ne.symm hut)]
      · rw [if_neg hur, if_neg hut]
        simp only [hut, hur, or_self, if_false]
        by_cases huy : u = y
        · subst huy
          simp [hty]
        · simp [huy, Ne.symm huy]
  · simp only [List.nil_append, List.mem_append, List.mem_cons] at hm ⊢
    rcases hm with (hm | hm | hm) | hm
    all_goals simp [hm]

theorem mergepending_spec (M : Mergeable m rtr pnd) (hfuel : rtr.length + pnd.length < fuel) :
    ∃ m', m.schedMergepending fuel =
        some (m', decide ((stableMerge m.prio rtr pnd).head? ≠ rtr.head?)) ∧
      IsQueue m' m'.gReadytorun (stableMerge m.prio rtr pnd) ∧ m'.gPendingtasks = ⟨none, none⟩ ∧
      m'.toTasks = m.toTasks.restate (m.mergedState rtr pnd) ∧
      LinksOutside (rtr ++ pnd) m m' := by
  obtain ⟨y, r, rfl⟩ : ∃ y r, rtr = y :: r := by
    obtain ⟨_, hlast, _⟩ := M.idle
    cases rtr with
    | nil => cases hlast
    | cons y r => exact ⟨y, r, rfl⟩
  by_cases htop : ∀ x ∈ pnd, m.prio x ≤ m.prio y
  · exact mergepending_behind M htop hfuel
  · cases pnd with
    | nil => exact absurd (by simp) htop
    | cons t rest =>
      obtain ⟨hle, -⟩ := List.pairwise_cons.mp M.pendingSorted
      have hlt : m.prio y < m.prio t := by
        by_contra hge
        apply htop
        intro x hx
        rcases List.mem_cons.mp hx with rfl | hx
        · omega
        · have := hle x hx
          omega
      exact mergepending_top M hlt hfuel

end Queues

section

variable {k : Kernel} {m : Queues} {fuel : Nat}

structure Represents (m : Queues) (k : Kernel) : Prop where
  tasks : m.toTasks = k.toTasks
  ready : IsQueue m m.gReadytorun k.ready
  pending : IsQueue m m.gPendingtasks k.pending

theorem Represents.mergeable (R : Represents m k) (W : Wf k) :
    m.Mergeable k.ready k.pending := by
  have hprio : m.prio = k.prio := congrArg (fun k : Tasks => k.prio) R.tasks
  refine ⟨R.ready, R.pending, ?_, ?_, ?_, ⟨gIdletcb, W.idle, ?_⟩⟩
  · rw [hprio]
    exact W.sorted .readytorun rfl
  · rw [hprio]
    exact W.sorted .pendingtasks rfl
  · rw [hprio]
    intro t ht
    have hpos := W.pending_pos ht
    rw [W.idlePrio] at hpos
    exact hpos
  · rw [hprio]
    exact W.idlePrio

theorem Represents.mergepending (R : Represents m k) (W : Wf k)
    (hfuel : k.ready.length + k.pending.length < fuel) :
    ∃ m', m.schedMergepending fuel = some (m', (schedMergepending k).2) ∧
      Represents m' (schedMergepending k).1 ∧ Queues.LinksOutside (k.ready ++ k.pending) m m' := by
  have hprio : m.prio = k.prio := congrArg (fun k : Tasks => k.prio) R.tasks
  have hmerge : stableMerge m.prio k.ready k.pending = mergedReady k := by
    rw [hprio]
    exact (mergeKeyed_eq_stableMerge (W.sorted .readytorun rfl)
      (W.sorted .pendingtasks rfl)).symm
  obtain ⟨m', he, hready, hpending, htasks, hlinks⟩ :=
    Queues.mergepending_spec (R.mergeable W) hfuel
  refine ⟨m', ?_, ⟨?_, ?_, ?_⟩, hlinks⟩
  · rw [he, hmerge]
    rfl
  · rw [htasks, R.tasks]
    unfold Tasks.restate schedMergepending
    have hmerge' : stableMerge k.prio k.ready k.pending = mergedReady k := hprio ▸ hmerge
    simp only [Queues.mergedState, R.tasks, hmerge']
    congr 1
    funext t
    simp [and_comm]
  · rw [mergepending_ready, ← hmerge]
    exact hready
  · rw [mergepending_pending, hpending]
    exact ⟨rfl, rfl, trivial⟩

end

namespace Queues

variable {m m' : Queues} {rtr pnd : List Nat} {fuel : Nat}

/-- What `sched_mergepending` is for: one queue in the order of the priorities, in which
ready tasks go before pending ones of their priority. -/
structure Merged (m : Queues) (rtr pnd : List Nat) (m' : Queues) (ret : Bool) : Prop where
  emptied : m'.gPendingtasks = ⟨none, none⟩
  ready : IsQueue m' m'.gReadytorun (stableMerge m.prio rtr pnd)
  headChanged : ret = true ↔ m'.gReadytorun.head ≠ m.gReadytorun.head
  states : m'.toTasks = m.toTasks.restate (m.mergedState rtr pnd)

/-- No task but the old and the new head has another state than before. -/
def OnlyHeadsChange (m m' : Queues) : Prop :=
  ∀ t, (m'.tcb t).taskState ≠ (m.tcb t).taskState →
    m'.gReadytorun.head = some t ∨ m.gReadytorun.head = some t

/-- The merge never panics and yields the queue that one call of `sched_addprioritized` for
each pending task would yield. -/
theorem mergepending_stable (M : Mergeable m rtr pnd)
    (hfuel : rtr.length + pnd.length < fuel) :
    ∃ m' ret m₂, m.schedMergepending fuel = some (m', ret) ∧ Merged m rtr pnd m' ret ∧
      addEach fuel pnd m = some m₂ ∧
        IsQueue m₂ m₂.gReadytorun (stableMerge m.prio rtr pnd) := by
  obtain ⟨m', he, hready, hpending, htasks, -⟩ := mergepending_spec M hfuel
  have hd : (pnd ++ rtr).Nodup := List.perm_append_comm.nodup_iff.mpr M.nodup
  obtain ⟨m₂, hadd, hQ⟩ := addEach_spec M.ready M.pendingMin hd hfuel
  rw [mergeKeyed_eq_stableMerge M.readySorted M.pendingSorted] at hQ
  refine ⟨m', _, m₂, he, ⟨hpending, hready, ?_, htasks⟩, hadd, hQ⟩
  rw [hready.head, M.ready.head, decide_eq_true_eq]

def sample : Queues where
  tcb := fun t =>
    if t = 5 then { Tcb.zero with schedPriority := 10, taskState := .running }
    else if t = 7 then { Tcb.zero with schedPriority := 20, taskState := .pending }
    else if t = 8 then { Tcb.zero with schedPriority := 3, taskState := .pending }
    else Tcb.zero
  gPidhash := fun _ => ⟨0, 0⟩
  gLastpid := 0
  flink := fun t => if t = 5 then some 1 else if t = 7 then some 8 else none
  blink := fun t => if t = 1 then some 5 else if t = 8 then some 7 else none
  gReadytorun := ⟨some 5, some 1⟩
  gPendingtasks := ⟨some 7, some 8⟩

theorem sample_mergeable : Mergeable sample [5, 1] [7, 8] := by
  refine ⟨⟨rfl, rfl, rfl, rfl, rfl, rfl, trivial⟩, ⟨rfl, rfl, rfl, rfl, rfl, rfl, trivial⟩, ?_, ?_,
    ?_, 1, rfl, rfl⟩
  · decide
  · decide
  · decide

theorem sample_merges : Mergeable sample [5, 1] [7, 8] ∧
    ∃ m' ret m₂, sample.schedMergepending 5 = some (m', ret) ∧
      Merged sample [5, 1] [7, 8] m' ret ∧ addEach 5 [7, 8] sample = some m₂ ∧
        IsQueue m₂ m₂.gReadytorun (stableMerge sample.prio [5, 1] [7, 8]) :=
  ⟨sample_mergeable, mergepending_stable sample_mergeable (by decide)⟩

/-- A pending task that is merged behind the head becomes ready too. -/
theorem merged_states_not_only_heads : ¬ ∀ (m : Queues) (rtr pnd : List Nat) (fuel : Nat),
    Mergeable m rtr pnd → rtr.length + pnd.length < fuel →
      ∃ m' ret, m.schedMergepending fuel = some (m', ret) ∧ OnlyHeadsChange m m' := by
  intro h
  obtain ⟨m', ret, he, honly⟩ := h sample [5, 1] [7, 8] 5 sample_mergeable (by decide)
  have hstate : (sample.schedMergepending 5).map (fun r => ((r.1.tcb 8).taskState,
      r.1.gReadytorun.head)) = some (.readytorun, some 7) := by decide
  rw [he] at hstate
  obtain ⟨hready, hhead⟩ := Prod.mk.inj (Option.some.inj hstate)
  have hchanged : (m'.tcb 8).taskState ≠ (sample.tcb 8).taskState := by
    rw [hready]
    decide
  rcases honly 8 hchanged with h8 | h8
  · rw [hhead] at h8
    cases h8
  · cases h8

end Queues

end NuttxAvr32.Sched
