import NuttxAvr32.Lib.Linked

/-! # Intrusive queues

The functions of `sq_*.c` and `dq_*.c` on a heap that holds the links of all nodes and all queues.
They give no result where the source goes through a `NULL` pointer or a search takes more than
`fuel` steps.
-/

namespace NuttxAvr32.Queue

open Linked
open Function (update update_self update_apply update_of_ne update_eq_self)

structure Header where
  head : Option Nat
  tail : Option Nat

/-- Nodes and queues by their addresses; `none` is `NULL`. -/
structure Heap where
  flink : Nat → Option Nat
  blink : Nat → Option Nat
  queue : Nat → Header

namespace Heap

variable (m : Heap)

@[simp] def setFlink (x : Nat) (v : Option Nat) : Heap :=
  { m with flink := update m.flink x v }

@[simp] def setBlink (x : Nat) (v : Option Nat) : Heap :=
  { m with blink := update m.blink x v }

@[simp] def setHead (q : Nat) (v : Option Nat) : Heap :=
  { m with queue := update m.queue q { m.queue q with head := v } }

@[simp] def setTail (q : Nat) (v : Option Nat) : Heap :=
  { m with queue := update m.queue q { m.queue q with tail := v } }

def sqAddfirst (node q : Nat) : Heap :=
  let m := m.setFlink node (m.queue q).head
  let m := if (m.queue q).head = none then m.setTail q (some node) else m
  m.setHead q (some node)

def sqAddlast (node q : Nat) : Option Heap :=
  let m := m.setFlink node none
  if (m.queue q).head = none then some ((m.setHead q (some node)).setTail q (some node))
  else (m.queue q).tail.map fun tail => (m.setFlink tail (some node)).setTail q (some node)

def sqAddafter (prev node q : Nat) : Option Heap :=
  if (m.queue q).head = none ∨ (m.queue q).tail = some prev then m.sqAddlast node q
  else some ((m.setFlink node (m.flink prev)).setFlink prev (some node))

def sqRemafter (node q : Nat) : Heap × Option Nat :=
  match m.flink node with
  | none => (m, none)
  | some ret =>
    if (m.queue q).head = none then (m, some ret)
    else
      let m := if (m.queue q).tail = some ret then (m.setTail q (some node)).setFlink node none
        else m.setFlink node (m.flink ret)
      (m.setFlink ret none, some ret)

/-- The search of `sq_rem` and `sq_remlast` for the node in front of `node`. -/
def searchPrev (node : Nat) : Nat → Option Nat → Option (Option Nat)
  | 0, _ => none
  | _ + 1, none => some none
  | fuel + 1, some prev =>
    if m.flink prev = some node then some (some prev) else searchPrev node fuel (m.flink prev)

def sqRem (fuel : Nat) (node : Option Nat) (q : Nat) : Option Heap :=
  match (m.queue q).head, node with
  | some head, some node =>
    if node = head then
      let m := m.setHead q (m.flink node)
      some (if (m.queue q).tail = some node then m.setTail q none else m)
    else (m.searchPrev node fuel (some head)).map fun
      | some prev => (m.sqRemafter prev q).1
      | none => m
  | _, _ => some m

def sqRemfirst (q : Nat) : Heap × Option Nat :=
  match (m.queue q).head with
  | none => (m, none)
  | some ret =>
    let m := m.setHead q (m.flink ret)
    let m := if (m.queue q).head = none then m.setTail q none else m
    (m.setFlink ret none, some ret)

def sqRemlast (fuel q : Nat) : Option (Heap × Option Nat) :=
  match (m.queue q).tail with
  | none => some (m, none)
  | some ret =>
    if (m.queue q).head = some ret then
      some (((m.setHead q none).setTail q none).setFlink ret none, some ret)
    else (m.searchPrev ret fuel (m.queue q).head).map fun prev =>
      let m := match prev with
        | some prev => (m.setFlink prev none).setTail q (some prev)
        | none => m
      (m.setFlink ret none, some ret)

def dqAddfirst (node q : Nat) : Heap :=
  let m := (m.setBlink node none).setFlink node (m.queue q).head
  match (m.queue q).head with
  | none => (m.setHead q (some node)).setTail q (some node)
  | some head => (m.setBlink head (some node)).setHead q (some node)

def dqAddlast (node q : Nat) : Option Heap :=
  let m := (m.setFlink node none).setBlink node (m.queue q).tail
  if (m.queue q).head = none then some ((m.setHead q (some node)).setTail q (some node))
  else (m.queue q).tail.map fun tail => (m.setFlink tail (some node)).setTail q (some node)

def dqAddafter (prev node q : Nat) : Option Heap :=
  if (m.queue q).head = none ∨ (m.queue q).tail = some prev then m.dqAddlast node q
  else (m.flink prev).map fun next =>
    ((((m.setBlink node (some prev)).setFlink node (some next)).setBlink next (some node)).setFlink
      prev (some node))

def dqAddbefore (next node q : Nat) : Option Heap :=
  if (m.queue q).head = none ∨ (m.queue q).head = some next then some (m.dqAddfirst node q)
  else (m.blink next).map fun prev =>
    ((((m.setFlink node (some next)).setBlink node (some prev)).setFlink prev (some node)).setBlink
      next (some node))

def dqRem (node q : Nat) : Heap :=
  let prev := m.blink node
  let next := m.flink node
  let m := match prev with
    | none => m.setHead q next
    | some prev => m.setFlink prev next
  let m := match next with
    | none => m.setTail q prev
    | some next => m.setBlink next prev
  (m.setFlink node none).setBlink node none

def dqRemfirst (q : Nat) : Heap × Option Nat :=
  match (m.queue q).head with
  | none => (m, none)
  | some ret =>
    let m := match m.flink ret with
      | none => (m.setHead q none).setTail q none
      | some next => (m.setHead q (some next)).setBlink next none
    ((m.setFlink ret none).setBlink ret none, some ret)

def dqRemlast (q : Nat) : Heap × Option Nat :=
  match (m.queue q).tail with
  | none => (m, none)
  | some ret =>
    let m := match m.blink ret with
      | none => (m.setHead q none).setTail q none
      | some prev => (m.setTail q (some prev)).setFlink prev none
    ((m.setFlink ret none).setBlink ret none, some ret)

end Heap

inductive Op
  | sqAddfirst (node q : Nat)
  | sqAddlast (node q : Nat)
  | sqAddafter (prev node q : Nat)
  | sqRem (node q : Nat)
  | sqRemafter (node q : Nat)
  | sqRemfirst (q : Nat)
  | sqRemlast (q : Nat)
  | dqAddfirst (node q : Nat)
  | dqAddlast (node q : Nat)
  | dqAddafter (prev node q : Nat)
  | dqAddbefore (next node q : Nat)
  | dqRem (node q : Nat)
  | dqRemfirst (q : Nat)
  | dqRemlast (q : Nat)

def Op.exec (fuel : Nat) (m : Heap) : Op → Option (Heap × Option Nat)
  | .sqAddfirst node q => some (m.sqAddfirst node q, none)
  | .sqAddlast node q => (m.sqAddlast node q).map (·, none)
  | .sqAddafter prev node q => (m.sqAddafter prev node q).map (·, none)
  | .sqRem node q => (m.sqRem fuel (some node) q).map (·, none)
  | .sqRemafter node q => some (m.sqRemafter node q)
  | .sqRemfirst q => some (m.sqRemfirst q)
  | .sqRemlast q => m.sqRemlast fuel q
  | .dqAddfirst node q => some (m.dqAddfirst node q, none)
  | .dqAddlast node q => (m.dqAddlast node q).map (·, none)
  | .dqAddafter prev node q => (m.dqAddafter prev node q).map (·, none)
  | .dqAddbefore next node q => (m.dqAddbefore next node q).map (·, none)
  | .dqRem node q => some (m.dqRem node q, none)
  | .dqRemfirst q => some (m.dqRemfirst q)
  | .dqRemlast q => some (m.dqRemlast q)

def insertAfter (p x : Nat) (l : List Nat) : List Nat :=
  l.flatMap fun y => if y = p then [y, x] else [y]

def insertBefore (p x : Nat) (l : List Nat) : List Nat :=
  l.flatMap fun y => if y = p then [x, y] else [y]

def successor (p : Nat) (l : List Nat) : Option Nat := (l.dropWhile (· ≠ p)).tail.head?

def Op.spec (l : List Nat) : Op → List Nat × Option Nat
  | .sqAddfirst node _ | .dqAddfirst node _ => (node :: l, none)
  | .sqAddlast node _ | .dqAddlast node _ => (l ++ [node], none)
  | .sqAddafter prev node _ | .dqAddafter prev node _ => (insertAfter prev node l, none)
  | .dqAddbefore next node _ => (insertBefore next node l, none)
  | .sqRem node _ | .dqRem node _ => (l.erase node, none)
  | .sqRemafter node _ => ((successor node l).elim l l.erase, successor node l)
  | .sqRemfirst _ | .dqRemfirst _ => (l.tail, l.head?)
  | .sqRemlast _ | .dqRemlast _ => (l.dropLast, l.getLast?)

def Op.queue : Op → Nat
  | .sqAddfirst _ q | .sqAddlast _ q | .sqAddafter _ _ q | .sqRem _ q | .sqRemafter _ q
  | .sqRemfirst q | .sqRemlast q | .dqAddfirst _ q | .dqAddlast _ q | .dqAddafter _ _ q
  | .dqAddbefore _ _ q | .dqRem _ q | .dqRemfirst q | .dqRemlast q => q

/-- Whether the operation is one of the `dq` library. -/
def Op.dq : Op → Bool
  | .sqAddfirst _ _ | .sqAddlast _ _ | .sqAddafter _ _ _ | .sqRem _ _ | .sqRemafter _ _
  | .sqRemfirst _ | .sqRemlast _ => false
  | _ => true

/-- An added node is in no queue; a node at which a queue is changed is a member of it. -/
def Op.Valid (A : Nat → List Nat) : Op → Prop
  | .sqAddfirst node _ | .sqAddlast node _ | .dqAddfirst node _ | .dqAddlast node _ =>
    ∀ r, node ∉ A r
  | .sqAddafter p node q | .dqAddafter p node q | .dqAddbefore p node q =>
    p ∈ A q ∧ ∀ r, node ∉ A r
  | .sqRem node q | .sqRemafter node q | .dqRem node q => node ∈ A q
  | .sqRemfirst _ | .sqRemlast _ | .dqRemfirst _ | .dqRemlast _ => True

/-- The queue holds the nodes of the list in order, with back links if it is a `dq`. -/
structure WellFormed (dq : Bool) (m : Heap) (q : Nat) (l : List Nat) : Prop where
  nodup : l.Nodup
  head : (m.queue q).head = l.head?
  tail : (m.queue q).tail = l.getLast?
  flink : ∀ l₁ x l₂, l = l₁ ++ x :: l₂ → m.flink x = l₂.head?
  blink : dq = true → ∀ l₁ x l₂, l = l₁ ++ x :: l₂ → m.blink x = l₁.getLast?

/-- Disjoint queues with their lists; `dq` tells which of them are doubly linked. -/
structure Holds (dq : Nat → Bool) (m : Heap) (A : Nat → List Nat) : Prop where
  queue : ∀ q, WellFormed (dq q) m q (A q)
  apart : ∀ q r x, x ∈ A q → x ∈ A r → q = r

/-- The queue goes from one list to another, and nothing else changes. -/
structure Changed (dq : Bool) (m m' : Heap) (q : Nat) (l l' : List Nat) : Prop where
  well : WellFormed dq m' q l'
  flink : ∀ y, y ∉ l → y ∉ l' → m'.flink y = m.flink y
  blink : ∀ y, y ∉ l → y ∉ l' → m'.blink y = m.blink y
  queue : ∀ r, r ≠ q → m'.queue r = m.queue r

section

variable {dq : Bool} {m m' : Heap} {q x : Nat} {l l' a b : List Nat}

/-- A singly linked queue is doubly linked by back links that are not in the heap. -/
theorem WellFormed.ends (W : WellFormed dq m q l) :
    ∃ bwd, (dq = true → bwd = m.blink) ∧ Linked.Ends m.flink bwd l := by
  cases dq with
  | true =>
    exact ⟨m.blink, fun _ => rfl, Seg.of_splits fun l₁ x l₂ h => by
      rw [Option.or_none, Option.or_none]
      exact ⟨W.blink rfl l₁ x l₂ h, W.flink l₁ x l₂ h⟩⟩
  | false =>
    refine ⟨fun x => (l.takeWhile (· ≠ x)).getLast?, fun h => absurd h Bool.false_ne_true,
      Seg.of_splits fun l₁ x l₂ h => ?_⟩
    have hx : x ∉ l₁ := by
      have hn := W.nodup
      rw [h] at hn
      exact fun hx => (List.nodup_append.mp hn).2.2 x hx x List.mem_cons_self rfl
    rw [Option.or_none, Option.or_none, h]
    refine ⟨?_, W.flink l₁ x l₂ h⟩
    rw [List.takeWhile_append_of_pos, List.takeWhile_cons_of_neg (by simp), List.append_nil]
    intro y hy
    exact decide_eq_true fun he => hx (he ▸ hy)

theorem WellFormed.of_ends (bwd : Nat → Option Nat) (hn : l.Nodup) (hh : (m.queue q).head = l.head?)
    (ht : (m.queue q).tail = l.getLast?) (he : Linked.Ends m.flink bwd l)
    (hb : dq = true → bwd = m.blink) : WellFormed dq m q l := by
  refine ⟨hn, hh, ht, fun l₁ x l₂ h => ?_, fun hd l₁ x l₂ h => ?_⟩
  · rw [h] at he
    exact he.neighbours.2
  · rw [h, hb hd] at he
    exact he.neighbours.1

theorem WellFormed.queue_eq (W : WellFormed dq m q l) : m.queue q = ⟨l.head?, l.getLast?⟩ := by
  rw [← W.head, ← W.tail]

theorem WellFormed.same_queue (W : WellFormed dq m q l) (hh : l'.head? = l.head?)
    (ht : l'.getLast? = l.getLast?) :
    m.queue = update m.queue q ⟨l'.head?, l'.getLast?⟩ := by
  rw [hh, ht, ← W.queue_eq]
  exact (update_eq_self q m.queue).symm

theorem WellFormed.tail_ne (W : WellFormed dq m q (a ++ x :: b)) (hb : b ≠ []) :
    (m.queue q).tail ≠ some x := by
  obtain ⟨c, z, rfl⟩ := (List.eq_nil_or_concat' b).resolve_left hb
  have hz : x ∉ c ++ [z] := (List.nodup_cons.mp (List.nodup_append.mp W.nodup).2.1).1
  have ht : (a ++ x :: (c ++ [z])).getLast? = some z := by
    rw [← List.cons_append, ← List.append_assoc, List.getLast?_concat]
  rw [W.tail, ht]
  exact fun h => hz (Option.some.inj h ▸ List.mem_append_right c List.mem_cons_self)

theorem notMem_ends {y : Nat} (h : y ∉ a ++ x :: b) :
    y ≠ x ∧ a.getLast? ≠ some y ∧ b.head? ≠ some y := by
  rw [List.mem_append, List.mem_cons, not_or, not_or] at h
  exact ⟨h.2.1, fun he => h.1 (List.mem_of_getLast? he), fun he => h.2.2 (List.mem_of_head? he)⟩

/-- What an operation writes that links a node in between `a` and `b`. -/
theorem Changed.insert (W : WellFormed dq m q l) (hx : x ∉ l) (hl : l = a ++ b)
    (hl' : l' = a ++ x :: b) (hfx : m'.flink x = b.head?)
    (hf : ∀ y, y ≠ x → m'.flink y = if some y = a.getLast? then some x else m.flink y)
    (hbx : dq = true → m'.blink x = a.getLast?)
    (hb : ∀ y, dq = false ∨ y ≠ x → m'.blink y =
      if dq = true ∧ some y = b.head? then some x else m.blink y)
    (hq : m'.queue = update m.queue q ⟨l'.head?, l'.getLast?⟩) :
    Changed dq m m' q l l' := by
  subst hl hl'
  obtain ⟨bwd, hbwd, he⟩ := W.ends
  have hne : ∀ y ∈ a ++ b, y ≠ x := fun y hy h => hx (h ▸ hy)
  have hn : (a ++ x :: b).Nodup := List.nodup_middle.mpr (List.nodup_cons.mpr ⟨hx, W.nodup⟩)
  refine ⟨.of_ends (fun y => if y = x then a.getLast? else
      if b.head? = some y then some x else bwd y) hn (by rw [hq, update_self])
    (by rw [hq, update_self]) (he.insert hn (fun y hy => ?_) (fun y hy => ?_) hfx ?_)
    fun hd => funext fun y => ?_, fun y _ hy => ?_, fun y _ hy => ?_, fun r hr => ?_⟩
  · rw [hf y (hne y hy)]
    exact if_congr eq_comm rfl rfl
  · exact if_neg (hne y hy)
  · exact if_pos rfl
  · split
    · rename_i h
      rw [h, hbx hd]
    · rename_i h
      simp [hb y (.inr h), hd, hbwd hd, eq_comm]
  · obtain ⟨h1, h2, -⟩ := notMem_ends hy
    rw [hf y h1, if_neg (Ne.symm h2)]
  · obtain ⟨h1, -, h3⟩ := notMem_ends hy
    rw [hb y (.inr h1), if_neg fun h => h3 h.2.symm]
  · rw [hq, update_of_ne hr]

/-- What an operation writes that unlinks the node between `a` and `b`. -/
theorem Changed.remove (W : WellFormed dq m q l) (hl : l = a ++ x :: b) (hl' : l' = a ++ b)
    (hf : ∀ y, y ≠ x → m'.flink y = if some y = a.getLast? then b.head? else m.flink y)
    (hb : ∀ y, y ≠ x → m'.blink y =
      if dq = true ∧ some y = b.head? then a.getLast? else m.blink y)
    (hq : m'.queue = update m.queue q ⟨l'.head?, l'.getLast?⟩) :
    Changed dq m m' q l l' := by
  subst hl hl'
  obtain ⟨bwd, hbwd, he⟩ := W.ends
  have hn := List.nodup_cons.mp (List.nodup_middle.mp W.nodup)
  have hne : ∀ y ∈ a ++ b, y ≠ x := fun y hy h => hn.1 (h ▸ hy)
  have hrem : Linked.Ends m'.flink (fun y => if b.head? = some y then a.getLast? else bwd y)
      (a ++ b) := by
    refine he.remove W.nodup (fun y hy => ?_) fun _ _ => rfl
    rw [hf y (hne y hy)]
    exact if_congr eq_comm rfl rfl
  refine ⟨.of_ends (if dq then m'.blink else fun y => if b.head? = some y then a.getLast?
      else bwd y) hn.2 (by rw [hq, update_self]) (by rw [hq, update_self]) ?_
    fun hd => if_pos hd, fun y hy _ => ?_, fun y hy _ => ?_, fun r hr => ?_⟩
  · cases dq with
    | false => exact hrem
    | true =>
      refine hrem.congr (fun _ _ => rfl) fun y hy => ?_
      simp [hb y (hne y hy), hbwd, eq_comm]
  · obtain ⟨h1, h2, -⟩ := notMem_ends hy
    rw [hf y h1, if_neg (Ne.symm h2)]
  · obtain ⟨h1, -, h3⟩ := notMem_ends hy
    rw [hb y h1, if_neg fun h => h3 h.2.symm]
  · rw [hq, update_of_ne hr]

end

section

variable {m : Heap} {q x p fuel : Nat} {l a b s : List Nat}

theorem searchPrev_found (W : WellFormed false m q l) {c d : List Nat}
    (hl : l = d ++ (c ++ p :: x :: b)) (hx : x ∉ c ++ [p])
    (hf : (c ++ p :: x :: b).length ≤ fuel) :
    m.searchPrev x fuel (c ++ p :: x :: b).head? = some (some p) := by
  induction c generalizing d fuel with
  | nil =>
    cases fuel with
    | zero => exact absurd hf (by simp)
    | succ fuel => exact if_pos (W.flink d p (x :: b) hl)
  | cons y c ih =>
    cases fuel with
    | zero => exact absurd hf (by simp)
    | succ fuel =>
      have hy : m.flink y = (c ++ p :: x :: b).head? := W.flink d y _ hl
      have hne : m.flink y ≠ some x := by
        have hh : (c ++ p :: x :: b).head? = (c ++ [p]).head? := by cases c <;> rfl
        rw [hy, hh]
        exact fun h => hx (List.mem_cons_of_mem _ (List.mem_of_head? h))
      refine (if_neg hne).trans ?_
      rw [hy]
      exact ih (d := d ++ [y]) (by simp [hl]) (fun h => hx (List.mem_cons_of_mem _ h))
        (by simpa using hf)

theorem searchPrev_missed (W : WellFormed false m q l) {d : List Nat} (hl : l = d ++ s)
    (hx : x ∉ s) (hf : s.length < fuel) : m.searchPrev x fuel s.head? = some none := by
  induction s generalizing d fuel with
  | nil =>
    cases fuel with
    | zero => exact absurd hf (by simp)
    | succ fuel => rfl
  | cons y s ih =>
    cases fuel with
    | zero => exact absurd hf (by simp)
    | succ fuel =>
      have hy : m.flink y = s.head? := W.flink d y s hl
      have hne : m.flink y ≠ some x := fun h =>
        hx (List.mem_cons_of_mem _ (List.mem_of_head? (hy.symm.trans h)))
      refine (if_neg hne).trans ?_
      rw [hy]
      exact ih (d := d ++ [y]) (by simp [hl]) (fun h => hx (List.mem_cons_of_mem _ h))
        (by simpa using hf)

theorem sqAddfirst_changed (W : WellFormed false m q l) (hx : x ∉ l) :
    Changed false m (m.sqAddfirst x q) q l (x :: l) := by
  have hhead := W.head
  have htail := W.tail
  refine Changed.insert (a := []) W hx rfl rfl ?_ ?_ ?_ ?_ ?_
  all_goals cases l <;> simp_all [Heap.sqAddfirst]

theorem sqAddlast_changed (W : WellFormed false m q l) (hx : x ∉ l) :
    ∃ m', m.sqAddlast x q = some m' ∧ Changed false m m' q l (l ++ [x]) := by
  have hhead := W.head
  have htail := W.tail
  rcases List.eq_nil_or_concat' l with rfl | ⟨c, z, rfl⟩
  · refine ⟨((m.setFlink x none).setHead q (some x)).setTail q (some x), ?_,
      Changed.insert (a := []) W hx rfl rfl ?_ ?_ ?_ ?_ ?_⟩
    all_goals simp_all [Heap.sqAddlast]
  · refine ⟨((m.setFlink x none).setFlink z (some x)).setTail q (some x), ?_,
      Changed.insert (b := []) W hx (by simp) rfl ?_ ?_ ?_ ?_ ?_⟩
    all_goals simp_all [Heap.sqAddlast, update_apply]

theorem sqAddafter_changed (W : WellFormed false m q (a ++ p :: b)) (hx : x ∉ a ++ p :: b) :
    ∃ m', m.sqAddafter p x q = some m' ∧ Changed false m m' q (a ++ p :: b) (a ++ p :: x :: b) := by
  have hhead := W.head
  have hp := W.flink a p b rfl
  cases b with
  | nil =>
    have htail := W.tail
    obtain ⟨m', hm, hc⟩ := sqAddlast_changed W hx
    exact ⟨m', by simp_all [Heap.sqAddafter], by simpa using hc⟩
  | cons z b =>
    have htail := W.tail_ne (List.cons_ne_nil z b)
    refine ⟨(m.setFlink x (some z)).setFlink p (some x), ?_,
      Changed.insert (a := a ++ [p]) (b := z :: b) W hx (by simp) (by simp) ?_ ?_ ?_ ?_
        (W.same_queue (by cases a <;> rfl) (by simp))⟩
    all_goals simp_all [Heap.sqAddafter, update_apply]

theorem sqRemafter_changed (W : WellFormed false m q (a ++ p :: x :: b)) :
    ∃ m', m.sqRemafter p q = (m', some x) ∧
      Changed false m m' q (a ++ p :: x :: b) (a ++ p :: b) := by
  have hhead := W.head
  have hp := W.flink a p (x :: b) rfl
  have hx := W.flink (a ++ [p]) x b (by simp)
  cases b with
  | nil =>
    have htail := W.tail
    refine ⟨((m.setTail q (some p)).setFlink p none).setFlink x none, ?_,
      Changed.remove (a := a ++ [p]) (x := x) (b := []) W (by simp) (by simp) ?_ ?_ ?_⟩
    all_goals simp_all [Heap.sqRemafter, update_apply]
  | cons z b =>
    have htail := WellFormed.tail_ne (a := a ++ [p]) (by simpa using W) (List.cons_ne_nil z b)
    refine ⟨(m.setFlink p (some z)).setFlink x none, ?_,
      Changed.remove (a := a ++ [p]) (x := x) (b := z :: b) W (by simp) (by simp) ?_ ?_
        (W.same_queue (by cases a <;> rfl) (by simp))⟩
    all_goals simp_all [Heap.sqRemafter, update_apply]

theorem sqRem_changed (W : WellFormed false m q (a ++ x :: b)) (hf : (a ++ x :: b).length < fuel) :
    ∃ m', m.sqRem fuel (some x) q = some m' ∧ Changed false m m' q (a ++ x :: b) (a ++ b) := by
  have hhead := W.head
  have hx := W.flink a x b rfl
  rcases List.eq_nil_or_concat' a with rfl | ⟨a, p, rfl⟩
  · cases b with
    | nil =>
      have htail := W.tail
      refine ⟨(m.setHead q none).setTail q none, ?_,
        Changed.remove (a := []) (x := x) (b := []) W rfl rfl ?_ ?_ ?_⟩
      all_goals simp_all [Heap.sqRem]
    | cons z b =>
      have ht := W.tail
      have htail := WellFormed.tail_ne (a := []) W (List.cons_ne_nil z b)
      refine ⟨m.setHead q (some z), ?_,
        Changed.remove (a := []) (x := x) (b := z :: b) W rfl rfl ?_ ?_ ?_⟩
      all_goals simp_all [Heap.sqRem]
  · have hs : x ∉ a ++ [p] := fun h =>
      (List.nodup_append.mp W.nodup).2.2 x h x List.mem_cons_self rfl
    rw [List.append_assoc, List.singleton_append] at W hhead hf
    obtain ⟨m', hm, hc⟩ := sqRemafter_changed W
    have hsearch := searchPrev_found W (d := []) rfl hs (Nat.le_of_lt hf)
    refine ⟨m', ?_, by simpa using hc⟩
    cases a <;> simp_all [Heap.sqRem]

theorem sqRem_missed (W : WellFormed false m q l) {node : Option Nat} (hx : ∀ x ∈ node, x ∉ l)
    (hf : l.length < fuel) : m.sqRem fuel node q = some m := by
  have hhead := W.head
  cases node with
  | none => cases l <;> simp_all [Heap.sqRem]
  | some x =>
    have hs := searchPrev_missed W (d := []) rfl (hx x rfl) hf
    cases l <;> simp_all [Heap.sqRem]

theorem sqRemfirst_changed (W : WellFormed false m q (x :: b)) :
    ∃ m', m.sqRemfirst q = (m', some x) ∧ Changed false m m' q (x :: b) b := by
  have hhead := W.head
  have htail := W.tail
  have hx := W.flink [] x b rfl
  cases b with
  | nil =>
    refine ⟨((m.setHead q none).setTail q none).setFlink x none, ?_,
      Changed.remove (a := []) W rfl rfl ?_ ?_ ?_⟩
    all_goals simp_all [Heap.sqRemfirst]
  | cons z b =>
    refine ⟨(m.setHead q (some z)).setFlink x none, ?_,
      Changed.remove (a := []) W rfl rfl ?_ ?_ ?_⟩
    all_goals simp_all [Heap.sqRemfirst]

theorem sqRemlast_changed (W : WellFormed false m q (a ++ [x])) (hf : (a ++ [x]).length < fuel) :
    ∃ m', m.sqRemlast fuel q = some (m', some x) ∧ Changed false m m' q (a ++ [x]) a := by
  have hhead := W.head
  have htail : (m.queue q).tail = some x := W.tail.trans List.getLast?_concat
  rcases List.eq_nil_or_concat' a with rfl | ⟨a, p, rfl⟩
  · refine ⟨((m.setHead q none).setTail q none).setFlink x none, ?_,
      Changed.remove (a := []) (b := []) W rfl rfl ?_ ?_ ?_⟩
    all_goals simp_all [Heap.sqRemlast]
  · have hs : x ∉ a ++ [p] := fun h =>
      (List.nodup_append.mp W.nodup).2.2 x h x List.mem_cons_self rfl
    have hsearch := searchPrev_found (d := []) (c := a) (p := p) (b := []) W (by simp) hs
      (by simpa using Nat.le_of_lt hf)
    have hne : (a ++ [p]).head? ≠ some x := fun h => hs (List.mem_of_head? h)
    refine ⟨((m.setFlink p none).setTail q (some p)).setFlink x none, ?_,
      Changed.remove (b := []) W rfl (by simp) ?_ ?_ ?_⟩
    · cases a <;> simp_all [Heap.sqRemlast]
    all_goals simp_all [update_apply]

theorem dqAddfirst_changed (W : WellFormed true m q l) (hx : x ∉ l) :
    Changed true m (m.dqAddfirst x q) q l (x :: l) := by
  have hhead := W.head
  have htail := W.tail
  refine Changed.insert (a := []) W hx rfl rfl ?_ ?_ ?_ ?_ ?_
  all_goals cases l <;> simp_all [Heap.dqAddfirst, update_apply]

theorem dqAddlast_changed (W : WellFormed true m q l) (hx : x ∉ l) :
    ∃ m', m.dqAddlast x q = some m' ∧ Changed true m m' q l (l ++ [x]) := by
  have hhead := W.head
  have htail := W.tail
  rcases List.eq_nil_or_concat' l with rfl | ⟨c, z, rfl⟩
  · refine ⟨(((m.setFlink x none).setBlink x none).setHead q (some x)).setTail q (some x), ?_,
      Changed.insert (a := []) W hx rfl rfl ?_ ?_ ?_ ?_ ?_⟩
    all_goals simp_all [Heap.dqAddlast]
  · refine ⟨(((m.setFlink x none).setBlink x (some z)).setFlink z (some x)).setTail q (some x), ?_,
      Changed.insert (b := []) W hx (by simp) rfl ?_ ?_ ?_ ?_ ?_⟩
    all_goals simp_all [Heap.dqAddlast, update_apply]

theorem dqAddafter_changed (W : WellFormed true m q (a ++ p :: b)) (hx : x ∉ a ++ p :: b) :
    ∃ m', m.dqAddafter p x q = some m' ∧ Changed true m m' q (a ++ p :: b) (a ++ p :: x :: b) := by
  have hhead := W.head
  have hp := W.flink a p b rfl
  cases b with
  | nil =>
    have htail := W.tail
    obtain ⟨m', hm, hc⟩ := dqAddlast_changed W hx
    exact ⟨m', by simp_all [Heap.dqAddafter], by simpa using hc⟩
  | cons z b =>
    have htail := W.tail_ne (List.cons_ne_nil z b)
    refine ⟨(((m.setBlink x (some p)).setFlink x (some z)).setBlink z (some x)).setFlink p
      (some x), ?_, Changed.insert (a := a ++ [p]) (b := z :: b) W hx (by simp) (by simp)
        ?_ ?_ ?_ ?_ (W.same_queue (by cases a <;> rfl) (by simp))⟩
    all_goals simp_all [Heap.dqAddafter, update_apply]

theorem dqAddbefore_changed (W : WellFormed true m q (a ++ p :: b)) (hx : x ∉ a ++ p :: b) :
    ∃ m', m.dqAddbefore p x q = some m' ∧
      Changed true m m' q (a ++ p :: b) (a ++ x :: p :: b) := by
  have hhead := W.head
  have hp := W.blink rfl a p b rfl
  rcases List.eq_nil_or_concat' a with rfl | ⟨a, z, rfl⟩
  · exact ⟨_, if_pos (.inr hhead), dqAddfirst_changed W hx⟩
  · have hne : (a ++ [z]).head? ≠ some p := fun h =>
      (List.nodup_append.mp W.nodup).2.2 p (List.mem_of_head? h) p List.mem_cons_self rfl
    refine ⟨(((m.setFlink x (some p)).setBlink x (some z)).setFlink z (some x)).setBlink p (some x),
      ?_, Changed.insert (a := a ++ [z]) (b := p :: b) W hx rfl rfl ?_ ?_ ?_ ?_
        (W.same_queue (by cases a <;> rfl) (by simp))⟩
    all_goals simp_all [Heap.dqAddbefore, update_apply]

theorem dqRem_changed (W : WellFormed true m q (a ++ x :: b)) :
    Changed true m (m.dqRem x q) q (a ++ x :: b) (a ++ b) := by
  have hq := W.queue_eq
  have hf := W.flink a x b rfl
  have hb := W.blink rfl a x b rfl
  refine Changed.remove W rfl rfl ?_ ?_ ?_
  all_goals
    rcases List.eq_nil_or_concat' a with rfl | ⟨a, z, rfl⟩ <;> cases b <;>
      simp_all [Heap.dqRem, update_apply]

theorem dqRemfirst_eq (W : WellFormed true m q (x :: b)) :
    m.dqRemfirst q = (m.dqRem x q, some x) := by
  have hhead := W.head
  have hf := W.flink [] x b rfl
  have hb := W.blink rfl [] x b rfl
  cases b <;> simp_all [Heap.dqRemfirst, Heap.dqRem]

theorem dqRemlast_eq (W : WellFormed true m q (a ++ [x])) :
    m.dqRemlast q = (m.dqRem x q, some x) := by
  have htail := W.tail
  have hf := W.flink a x [] rfl
  have hb := W.blink rfl a x [] rfl
  rcases List.eq_nil_or_concat' a with rfl | ⟨a, z, rfl⟩ <;>
    simp_all [Heap.dqRemlast, Heap.dqRem]

end

section

variable {p x : Nat} {a b : List Nat}

theorem split_notMem (hn : (a ++ p :: b).Nodup) : p ∉ a ∧ p ∉ b := by
  have hp := (List.nodup_cons.mp (List.nodup_middle.mp hn)).1
  exact not_or.mp (List.mem_append.not.mp hp)

theorem flatMap_split {f : Nat → List Nat} (hf : ∀ y, y ≠ p → f y = [y])
    (hn : (a ++ p :: b).Nodup) : (a ++ p :: b).flatMap f = a ++ (f p ++ b) := by
  have hid : ∀ l : List Nat, p ∉ l → l.flatMap f = l := fun l hl =>
    (List.flatMap_congr fun y hy => hf y fun h => hl (h ▸ hy)).trans (List.flatMap_singleton' l)
  obtain ⟨ha, hb⟩ := split_notMem hn
  rw [List.flatMap_append, List.flatMap_cons, hid a ha, hid b hb]

theorem insertAfter_split (hn : (a ++ p :: b).Nodup) :
    insertAfter p x (a ++ p :: b) = a ++ p :: x :: b :=
  (flatMap_split (fun _ hy => if_neg hy) hn).trans (by rw [if_pos rfl]; rfl)

theorem insertBefore_split (hn : (a ++ p :: b).Nodup) :
    insertBefore p x (a ++ p :: b) = a ++ x :: p :: b :=
  (flatMap_split (fun _ hy => if_neg hy) hn).trans (by rw [if_pos rfl]; rfl)

theorem successor_split (hn : (a ++ p :: b).Nodup) : successor p (a ++ p :: b) = b.head? := by
  have ha := (split_notMem hn).1
  rw [successor, List.dropWhile_append_of_pos, List.dropWhile_cons_of_neg (by simp), List.tail_cons]
  exact fun y hy => decide_eq_true fun he => ha (he ▸ hy)

theorem erase_split (hn : (a ++ p :: b).Nodup) : (a ++ p :: b).erase p = a ++ b := by
  rw [List.erase_append_right _ (split_notMem hn).1, List.erase_cons_head]

end

section

variable {dq : Nat → Bool} {m m' : Heap} {A : Nat → List Nat} {q : Nat} {l : List Nat}

theorem Changed.refl {d : Bool} (W : WellFormed d m q l) : Changed d m m q l l :=
  ⟨W, fun _ _ _ => rfl, fun _ _ _ => rfl, fun _ _ => rfl⟩

theorem Changed.keeps {d : Bool} {r : Nat} {l' k : List Nat} (hc : Changed d m m' q l l')
    (hr : r ≠ q) (hl : ∀ x ∈ k, x ∉ l ∧ x ∉ l') {e : Bool} (W : WellFormed e m r k) :
    WellFormed e m' r k := by
  have hk : ∀ l₁ x l₂, k = l₁ ++ x :: l₂ → x ∉ l ∧ x ∉ l' := fun l₁ x l₂ h =>
    hl x (h ▸ List.mem_append_right l₁ List.mem_cons_self)
  refine ⟨W.nodup, ?_, ?_, fun l₁ x l₂ h => ?_, fun he l₁ x l₂ h => ?_⟩
  · rw [hc.queue r hr, W.head]
  · rw [hc.queue r hr, W.tail]
  · rw [hc.flink x (hk l₁ x l₂ h).1 (hk l₁ x l₂ h).2, W.flink l₁ x l₂ h]
  · rw [hc.blink x (hk l₁ x l₂ h).1 (hk l₁ x l₂ h).2, W.blink he l₁ x l₂ h]

/-- An operation changes its own queue to the list of the specification. -/
theorem exec_changed {i : Op} {fuel : Nat} (hl : A i.queue = l) (W : WellFormed i.dq m i.queue l)
    (hv : i.Valid A) (hf : l.length < fuel) :
    ∃ m', i.exec fuel m = some (m', (i.spec l).2) ∧
      Changed i.dq m m' i.queue l (i.spec l).1 := by
  have hn := W.nodup
  cases i with
  | sqAddfirst node q => exact ⟨_, rfl, sqAddfirst_changed W (hl ▸ hv q)⟩
  | sqAddlast node q =>
    obtain ⟨m', hm, hc⟩ := sqAddlast_changed W (hl ▸ hv q)
    exact ⟨m', congrArg (Option.map _) hm, hc⟩
  | sqAddafter prev node q =>
    have hnode : node ∉ l := hl ▸ hv.2 q
    obtain ⟨a, b, rfl⟩ := List.append_of_mem (hl ▸ hv.1)
    obtain ⟨m', hm, hc⟩ := sqAddafter_changed W hnode
    exact ⟨m', congrArg (Option.map _) hm, by rwa [Op.spec, insertAfter_split hn]⟩
  | sqRem node q =>
    obtain ⟨a, b, rfl⟩ := List.append_of_mem (hl ▸ (id hv : node ∈ A q))
    obtain ⟨m', hm, hc⟩ := sqRem_changed W hf
    exact ⟨m', congrArg (Option.map _) hm, by rwa [Op.spec, erase_split hn]⟩
  | sqRemafter node q =>
    obtain ⟨a, b, rfl⟩ := List.append_of_mem (hl ▸ (id hv : node ∈ A q))
    rw [Op.spec, successor_split hn]
    cases b with
    | nil => exact ⟨m, by simp [Op.exec, Heap.sqRemafter, W.flink a node [] rfl], .refl W⟩
    | cons y b =>
      obtain ⟨m', hm, hc⟩ := sqRemafter_changed W
      have he : (a ++ node :: y :: b).erase y = a ++ node :: b := by
        simpa using erase_split (a := a ++ [node]) (p := y) (b := b) (by simpa using hn)
      exact ⟨m', congrArg some hm, (congrArg (Changed false m m' q _) he).mpr hc⟩
  | sqRemfirst q =>
    cases l with
    | nil =>
      have hq : (m.queue q).head = none := W.head
      exact ⟨m, by simp [Op.exec, Op.spec, Heap.sqRemfirst, hq], .refl W⟩
    | cons x b =>
      obtain ⟨m', hm, hc⟩ := sqRemfirst_changed W
      exact ⟨m', congrArg some hm, hc⟩
  | sqRemlast q =>
    rcases List.eq_nil_or_concat' l with rfl | ⟨a, x, rfl⟩
    · have hq : (m.queue q).tail = none := W.tail
      exact ⟨m, by simp [Op.exec, Op.spec, Heap.sqRemlast, hq], .refl W⟩
    · obtain ⟨m', hm, hc⟩ := sqRemlast_changed W hf
      refine ⟨m', hm.trans ?_, ?_⟩
      · rw [Op.spec, List.getLast?_concat]
      · rwa [Op.spec, List.dropLast_concat]
  | dqAddfirst node q => exact ⟨_, rfl, dqAddfirst_changed W (hl ▸ hv q)⟩
  | dqAddlast node q =>
    obtain ⟨m', hm, hc⟩ := dqAddlast_changed W (hl ▸ hv q)
    exact ⟨m', congrArg (Option.map _) hm, hc⟩
  | dqAddafter prev node q =>
    have hnode : node ∉ l := hl ▸ hv.2 q
    obtain ⟨a, b, rfl⟩ := List.append_of_mem (hl ▸ hv.1)
    obtain ⟨m', hm, hc⟩ := dqAddafter_changed W hnode
    exact ⟨m', congrArg (Option.map _) hm, by rwa [Op.spec, insertAfter_split hn]⟩
  | dqAddbefore next node q =>
    have hnode : node ∉ l := hl ▸ hv.2 q
    obtain ⟨a, b, rfl⟩ := List.append_of_mem (hl ▸ hv.1)
    obtain ⟨m', hm, hc⟩ := dqAddbefore_changed W hnode
    exact ⟨m', congrArg (Option.map _) hm, by rwa [Op.spec, insertBefore_split hn]⟩
  | dqRem node q =>
    obtain ⟨a, b, rfl⟩ := List.append_of_mem (hl ▸ (id hv : node ∈ A q))
    exact ⟨_, rfl, by rw [Op.spec, erase_split hn]; exact dqRem_changed W⟩
  | dqRemfirst q =>
    cases l with
    | nil =>
      have hq : (m.queue q).head = none := W.head
      exact ⟨m, by simp [Op.exec, Op.spec, Heap.dqRemfirst, hq], .refl W⟩
    | cons x b => exact ⟨_, congrArg some (dqRemfirst_eq W), dqRem_changed (a := []) W⟩
  | dqRemlast q =>
    rcases List.eq_nil_or_concat' l with rfl | ⟨a, x, rfl⟩
    · have hq : (m.queue q).tail = none := W.tail
      exact ⟨m, by simp [Op.exec, Op.spec, Heap.dqRemlast, hq], .refl W⟩
    · have hc := dqRem_changed W
      rw [List.append_nil] at hc
      refine ⟨m.dqRem x q, (congrArg some (dqRemlast_eq W)).trans ?_, ?_⟩
      · rw [Op.spec, List.getLast?_concat]
        rfl
      · rwa [Op.spec, List.dropLast_concat]

/-- Only an added node comes into a list, and it is in no other. -/
theorem mem_spec {i : Op} {x : Nat} (hv : i.Valid A) (hx : x ∈ (i.spec (A i.queue)).1) :
    x ∈ A i.queue ∨ ∀ r, x ∉ A r := by
  cases i with
  | sqAddfirst node q | dqAddfirst node q =>
    rcases List.mem_cons.mp hx with rfl | hx
    · exact .inr hv
    · exact .inl hx
  | sqAddlast node q | dqAddlast node q =>
    rcases List.mem_append.mp hx with hx | hx
    · exact .inl hx
    · exact .inr (List.mem_singleton.mp hx ▸ hv)
  | sqAddafter p node q | dqAddafter p node q | dqAddbefore p node q =>
    obtain ⟨y, hy, hx⟩ := List.mem_flatMap.mp hx
    have hxy : x = y ∨ x = node := by
      split at hx <;> simp_all [or_comm]
    rcases hxy with rfl | rfl
    · exact .inl hy
    · exact .inr hv.2
  | sqRem node q | dqRem node q => exact .inl (List.mem_of_mem_erase hx)
  | sqRemafter node q =>
    rw [Op.spec] at hx
    cases hs : successor node (A q) with
    | none => exact .inl (by rwa [Op.queue, hs] at hx)
    | some y => exact .inl (List.mem_of_mem_erase (b := y) (by rwa [Op.queue, hs] at hx))
  | sqRemfirst q | dqRemfirst q => exact .inl (List.mem_of_mem_tail hx)
  | sqRemlast q | dqRemlast q => exact .inl (List.dropLast_subset _ hx)

def Op.apply (A : Nat → List Nat) (i : Op) : Nat → List Nat :=
  update A i.queue (i.spec (A i.queue)).1

theorem exec_holds {i : Op} {fuel : Nat} (H : Holds dq m A) (hd : dq i.queue = i.dq)
    (hv : i.Valid A) (hf : (A i.queue).length < fuel) :
    ∃ m', i.exec fuel m = some (m', (i.spec (A i.queue)).2) ∧ Holds dq m' (i.apply A) ∧
      ∀ r, r ≠ i.queue → m'.queue r = m.queue r ∧
        ∀ x ∈ A r, m'.flink x = m.flink x ∧ m'.blink x = m.blink x := by
  unfold Op.apply
  obtain ⟨m', hm, hc⟩ := exec_changed rfl (hd ▸ H.queue i.queue) hv hf
  have hout : ∀ r, r ≠ i.queue → ∀ x ∈ A r, x ∉ A i.queue ∧ x ∉ (i.spec (A i.queue)).1 := by
    intro r hr x hx
    have hq : x ∉ A i.queue := fun h => hr (H.apart r i.queue x hx h)
    exact ⟨hq, fun h => (mem_spec hv h).elim hq fun h => h r hx⟩
  refine ⟨m', hm, ⟨fun r => ?_, fun r₁ r₂ x h₁ h₂ => ?_⟩, fun r hr => ⟨hc.queue r hr, fun x hx =>
    ⟨hc.flink x (hout r hr x hx).1 (hout r hr x hx).2,
      hc.blink x (hout r hr x hx).1 (hout r hr x hx).2⟩⟩⟩
  · by_cases hr : r = i.queue
    · rw [hr, update_self, hd]
      exact hc.well
    · rw [update_of_ne hr]
      exact hc.keeps hr (hout r hr) (H.queue r)
  · by_cases hr₁ : r₁ = i.queue
    · by_cases hr₂ : r₂ = i.queue
      · rw [hr₁, hr₂]
      · rw [hr₁, update_self] at h₁
        rw [update_of_ne hr₂] at h₂
        exact absurd h₁ (hout r₂ hr₂ x h₂).2
    · rw [update_of_ne hr₁] at h₁
      by_cases hr₂ : r₂ = i.queue
      · rw [hr₂, update_self] at h₂
        exact absurd h₂ (hout r₁ hr₁ x h₁).2
      · rw [update_of_ne hr₂] at h₂
        exact H.apart r₁ r₂ x h₁ h₂

/-- Every operation on a queue is the operation on its list and leaves the other queues alone, and
`sq_rem` of a node that is not in the queue changes nothing. -/
theorem queues_refine (H : Holds dq m A) :
    (∀ (i : Op) fuel, dq i.queue = i.dq → i.Valid A → (A i.queue).length < fuel →
      ∃ m', i.exec fuel m = some (m', (i.spec (A i.queue)).2) ∧ Holds dq m' (i.apply A) ∧
        ∀ r, r ≠ i.queue → m'.queue r = m.queue r ∧
          ∀ x ∈ A r, m'.flink x = m.flink x ∧ m'.blink x = m.blink x) ∧
    ∀ node q fuel, dq q = false → (∀ x ∈ node, x ∉ A q) → (A q).length < fuel →
      m.sqRem fuel node q = some m :=
  ⟨fun _ _ hd hv hf => exec_holds H hd hv hf, fun _ q _ hd hx hf =>
    sqRem_missed (l := A q) (hd ▸ H.queue q) hx hf⟩

/-- Each operation is allowed on the lists that those before it have left. -/
def Allowed (dq : Nat → Bool) (fuel : Nat) : (Nat → List Nat) → List Op → Prop
  | _, [] => True
  | A, i :: is =>
    (dq i.queue = i.dq ∧ i.Valid A ∧ (A i.queue).length < fuel) ∧ Allowed dq fuel (i.apply A) is

def runOps (fuel : Nat) : List Op → Heap → Option (Heap × List (Option Nat))
  | [], m => some (m, [])
  | i :: is, m => do
    let (m, r) ← i.exec fuel m
    let (m, rs) ← runOps fuel is m
    some (m, r :: rs)

def specOps : List Op → (Nat → List Nat) → (Nat → List Nat) × List (Option Nat)
  | [], A => (A, [])
  | i :: is, A =>
    let r := specOps is (i.apply A)
    (r.1, (i.spec (A i.queue)).2 :: r.2)

/-- Programs on queues do to the lists what their operations specify, and get their results. -/
theorem runs_refine {is : List Op} {fuel : Nat} (H : Holds dq m A) (ha : Allowed dq fuel A is) :
    ∃ m', runOps fuel is m = some (m', (specOps is A).2) ∧ Holds dq m' (specOps is A).1 := by
  induction is generalizing m A with
  | nil => exact ⟨m, rfl, H⟩
  | cons i is ih =>
    obtain ⟨⟨hd, hv, hf⟩, ha⟩ := ha
    obtain ⟨m₁, he, H₁, -⟩ := exec_holds H hd hv hf
    obtain ⟨m', hm, H'⟩ := ih H₁ ha
    refine ⟨m', ?_, H'⟩
    rw [runOps, he]
    change (runOps fuel is m₁).bind _ = _
    rw [hm]
    rfl

/-- A singly linked queue of two nodes and a doubly linked one of two nodes. -/
def twoLists (q : Nat) : List Nat := if q = 0 then [1, 2] else if q = 1 then [3, 4] else []

def twoQueues : Heap where
  flink x := if x = 1 then some 2 else if x = 3 then some 4 else none
  blink x := if x = 4 then some 3 else none
  queue q := ⟨(twoLists q).head?, (twoLists q).getLast?⟩

theorem twoQueues_holds : Holds (· == 1) twoQueues twoLists := by
  refine ⟨fun q => ?_, fun q r x hq hr => ?_⟩
  · refine .of_ends (if q = 1 then twoQueues.blink else fun x => if x = 2 then some 1 else none)
      ?_ rfl rfl ?_ fun h => if_pos (eq_of_beq h)
    · unfold twoLists
      split_ifs <;> decide
    · by_cases h0 : q = 0
      · subst h0
        simp [twoLists, twoQueues, Linked.Ends, Seg]
      · by_cases h1 : q = 1 <;> simp [twoLists, twoQueues, Linked.Ends, Seg, h0, h1]
  · unfold twoLists at hq hr
    split_ifs at hq hr <;> simp_all
    all_goals omega

/-- A node goes in before the second node of the doubly linked queue, and the singly linked one has
no such node to remove. -/
theorem queues_refine_two :
    (∃ m', (Op.dqAddbefore 4 6 1).exec 3 twoQueues = some (m', none) ∧
      Holds (· == 1) m' (update twoLists 1 [3, 6, 4]) ∧
      ∀ r, r ≠ 1 → m'.queue r = twoQueues.queue r ∧
        ∀ x ∈ twoLists r, m'.flink x = twoQueues.flink x ∧ m'.blink x = twoQueues.blink x) ∧
    twoQueues.sqRem 3 (some 6) 0 = some twoQueues := by
  refine ⟨(queues_refine twoQueues_holds).1 (.dqAddbefore 4 6 1) 3 rfl ⟨by decide, fun r => ?_⟩
    (by decide), (queues_refine twoQueues_holds).2 (some 6) 0 3 rfl ?_ (by decide)⟩
  · unfold twoLists
    split_ifs <;> decide
  · intro x hx
    cases hx
    decide

theorem runs_refine_two :
    let is := [Op.dqAddlast 6 1, .dqRemfirst 1, .sqRemlast 0]
    ∃ m', runOps 4 is twoQueues = some (m', [none, some 3, some 2]) ∧
      Holds (· == 1) m' (specOps is twoLists).1 := by
  refine runs_refine twoQueues_holds ⟨⟨rfl, fun r => ?_, by decide⟩, ⟨rfl, trivial, by decide⟩,
    ⟨rfl, trivial, by decide⟩, trivial⟩
  unfold twoLists
  split_ifs <;> decide

end

end NuttxAvr32.Queue
