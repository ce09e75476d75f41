import NuttxAvr32.Mm.Allocator
import NuttxAvr32.Lib.Linked
import Mathlib.Data.List.Pairwise
import Mathlib.Data.List.TakeWhile
import Mathlib.Data.List.Perm.Subperm

/-! # The free-node list

The doubly linked list that starts at `g_nodelist[0]` holds the bin headers,
recognised by size zero, and the free chunks. `NodeList g m ns` says that it
links exactly the nodes of `ns`, each with its address and size, in the order
of the bins and, inside a bin, of the sizes.
-/

namespace NuttxAvr32.Mm

open ByteMemory Linked

def ptr (a : Nat) : Option Nat := if a = 0 then none else some a

abbrev fwd (m : Memory) (a : Nat) : Option Nat := ptr (flink m a)
abbrev bwd (m : Memory) (a : Nat) : Option Nat := ptr (blink m a)

/-- The place of a node in the list: a chunk counts by its size, the header of
bin `i` just before the smallest chunk of that bin. -/
def rank (g : Nat) (n : Nat × Nat) : Nat :=
  if n.2 = 0 then 32 * 2 ^ ((n.1 - g) / 16) - 1 else 2 * n.2

def NodesApart (x y : Nat × Nat) : Prop := x.1 + 16 ≤ y.1 ∨ y.1 + 16 ≤ x.1

instance : Std.Symm NodesApart := ⟨fun _ _ h => h.symm⟩

structure NodeList (g : Nat) (m : Memory) (ns : List (Nat × Nat)) : Prop where
  apart : ns.Pairwise NodesApart
  range : ∀ n ∈ ns, 0 < n.1 ∧ n.1 + 16 ≤ 2 ^ 32
  sizes : ∀ n ∈ ns, nodeSize m n.1 = n.2
  links : Ends (fwd m) (bwd m) (ns.map Prod.fst)
  sorted : ns.Pairwise fun x y => rank g x ≤ rank g y
  heads : ∀ i < 19, (nodeAt g i, 0) ∈ ns
  zero : ∀ n ∈ ns, n.2 = 0 → ∃ i < 19, n = (nodeAt g i, 0)
  chunk : ∀ n ∈ ns, n.2 ≠ 0 → 16 ≤ n.2 ∧ n.2 < 2 ^ 31

@[simp] theorem ptr_zero : ptr 0 = none := rfl

theorem ptr_of_pos {a : Nat} (h : 0 < a) : ptr a = some a := by
  rw [ptr, if_neg (by omega)]

theorem ptr_eq_some {a b : Nat} : ptr a = some b ↔ a = b ∧ b ≠ 0 := by
  unfold ptr
  split
  · rename_i h
    subst h
    constructor
    · intro hn
      cases hn
    · rintro ⟨rfl, hb⟩
      exact absurd rfl hb
  · rename_i h
    constructor
    · intro hs
      cases hs
      exact ⟨rfl, h⟩
    · rintro ⟨rfl, _⟩
      rfl

theorem ptr_eq_none {a : Nat} : ptr a = none ↔ a = 0 := by
  unfold ptr
  split <;> simp_all

theorem rank_head (g i : Nat) : rank g (nodeAt g i, 0) = 32 * 2 ^ i - 1 := by
  have h : (nodeAt g i - g) / 16 = i := by
    simp only [nodeAt, sizeofMmFreenode]
    omega
  rw [rank, if_pos rfl]
  dsimp only
  rw [h]

theorem rank_chunk {g a s : Nat} (h : s ≠ 0) : rank g (a, s) = 2 * s := if_neg h

/-- The words of a node that the list depends on: its size and its links. -/
def inNode (a x : Nat) : Prop := (a ≤ x ∧ x < a + 4) ∨ (a + 8 ≤ x ∧ x < a + 16)

def inLinks (a x : Nat) : Prop := a + 8 ≤ x ∧ x < a + 16

section

variable {g : Nat} {m m' : Memory} {ns : List (Nat × Nat)}

theorem flink_congr {a : Nat} (h : ∀ x, inLinks a x → m' x = m x) : flink m' a = flink m a :=
  loadWord_congr fun x _ _ => h x ⟨by omega, by omega⟩

theorem blink_congr {a : Nat} (h : ∀ x, inLinks a x → m' x = m x) : blink m' a = blink m a :=
  loadWord_congr fun x _ _ => h x ⟨by omega, by omega⟩

theorem NodeList.congr (h : NodeList g m ns)
    (hs : ∀ n ∈ ns, ∀ x, inNode n.1 x → m' x = m x) : NodeList g m' ns where
  apart := h.apart
  range := h.range
  sizes n hn := by
    rw [← h.sizes n hn]
    exact loadWord_congr fun x h1 h2 => hs n hn x (.inl ⟨h1, h2⟩)
  links := by
    refine h.links.congr (fun a ha => ?_) (fun a ha => ?_)
    all_goals obtain ⟨n, hn, rfl⟩ := List.mem_map.mp ha
    · exact congrArg ptr (flink_congr fun x hx => hs n hn x (.inr hx))
    · exact congrArg ptr (blink_congr fun x hx => hs n hn x (.inr hx))
  sorted := h.sorted
  heads := h.heads
  zero := h.zero
  chunk := h.chunk

theorem NodeList.nodup (h : NodeList g m ns) : (ns.map Prod.fst).Nodup := by
  refine List.pairwise_map.mpr (h.apart.imp fun {x y} hxy => ?_)
  unfold NodesApart at hxy
  omega

theorem NodeList.length_lt (h : NodeList g m ns) : ns.length < loopBound := by
  have hsub : (0 :: ns.map Prod.fst).Subperm (List.range (2 ^ 32)) := by
    refine List.subperm_of_subset (List.nodup_cons.mpr ⟨?_, h.nodup⟩) ?_
    · intro h0
      obtain ⟨n, hn, he⟩ := List.mem_map.mp h0
      have := (h.range n hn).1
      omega
    · intro a ha
      rcases List.mem_cons.mp ha with rfl | ha
      · simp
      · obtain ⟨n, hn, rfl⟩ := List.mem_map.mp ha
        have := (h.range n hn).2
        exact List.mem_range.mpr (by omega)
  have hl := hsub.length_le
  simp only [List.length_cons, List.length_map, List.length_range] at hl
  exact hl

end

section

variable {m : Memory} {a b v : Nat}

theorem flink_lt (m : Memory) (a : Nat) : flink m a < 2 ^ 32 := loadWord_lt m _

theorem flink_setFlink (h : a = b ∨ a + 16 ≤ b ∨ b + 16 ≤ a) (hv : v < 2 ^ 32) :
    flink (setFlink m a v) b = if b = a then v else flink m b := by
  by_cases hb : b = a
  · subst hb
    rw [if_pos rfl]
    exact loadWord_storeWord hv
  · rw [if_neg hb]
    exact loadWord_storeWord_of_disjoint (by omega)

theorem blink_setBlink (h : a = b ∨ a + 16 ≤ b ∨ b + 16 ≤ a) (hv : v < 2 ^ 32) :
    blink (setBlink m a v) b = if b = a then v else blink m b := by
  by_cases hb : b = a
  · subst hb
    rw [if_pos rfl]
    exact loadWord_storeWord hv
  · rw [if_neg hb]
    exact loadWord_storeWord_of_disjoint (by omega)

theorem flink_setBlink (h : a = b ∨ a + 16 ≤ b ∨ b + 16 ≤ a) :
    flink (setBlink m a v) b = flink m b := loadWord_storeWord_of_disjoint (by omega)

theorem blink_setFlink (h : a = b ∨ a + 16 ≤ b ∨ b + 16 ≤ a) :
    blink (setFlink m a v) b = blink m b := loadWord_storeWord_of_disjoint (by omega)

theorem setFlink_of_outside {x : Nat} (h : ¬ inLinks a x) : setFlink m a v x = m x :=
  storeWord_of_outside (by unfold inLinks at h; omega)

theorem setBlink_of_outside {x : Nat} (h : ¬ inLinks a x) : setBlink m a v x = m x :=
  storeWord_of_outside (by unfold inLinks at h; omega)

end

theorem nodeSize_congr {m m' : Memory} {a : Nat} (h : ∀ x, a ≤ x → x < a + 4 → m' x = m x) :
    nodeSize m' a = nodeSize m a := loadWord_congr h

section

variable {g : Nat} {m : Memory} {l₁ l₂ : List (Nat × Nat)} {n : Nat × Nat}

theorem NodeList.pred_exists (h : NodeList g m (l₁ ++ n :: l₂)) (hn : n.2 ≠ 0) :
    ∃ l p, l₁ = l ++ [p] := by
  rcases List.eq_nil_or_concat l₁ with rfl | ⟨l, p, rfl⟩
  · have hk := h.heads 0 (by decide)
    have hc := (h.chunk n (by simp) hn).1
    have hs := (List.pairwise_cons.mp h.sorted).1
    simp only [List.nil_append, List.mem_cons] at hk
    rcases hk with hk | hk
    · exact absurd (congrArg Prod.snd hk).symm hn
    · have hr := hs _ hk
      rw [rank_head, rank, if_neg hn] at hr
      omega
  · exact ⟨l, p, List.concat_eq_append⟩

theorem NodeList.apart_of_mem {ns : List (Nat × Nat)} (h : NodeList g m ns) {x y : Nat × Nat}
    (hx : x ∈ ns) (hy : y ∈ ns) : x.1 = y.1 ∨ x.1 + 16 ≤ y.1 ∨ y.1 + 16 ≤ x.1 := by
  by_cases he : x = y
  · exact .inl (by rw [he])
  · exact .inr (h.apart.forall hx hy he)

theorem NodeList.unlink_eq {p : Nat × Nat} (h : NodeList g m (l₁ ++ [p] ++ n :: l₂)) :
    unlink m n.1 = (match l₂ with
      | [] => setFlink m p.1 0
      | q :: _ => setBlink (setFlink m p.1 q.1) q.1 p.1) := by
  have hl := h.links
  rw [List.map_append, List.map_cons] at hl
  obtain ⟨hb, hf⟩ := hl.neighbours
  have hmem : ∀ k ∈ [p, n] ++ l₂, k ∈ l₁ ++ [p] ++ n :: l₂ := by
    intro k hk
    simp only [List.mem_append, List.mem_cons, List.not_mem_nil, or_false] at hk ⊢
    tauto
  have hb' : blink m n.1 = p.1 := by
    simp only [List.map_append, List.map_cons, List.map_nil, List.getLast?_append,
      List.getLast?_singleton, Option.some_or] at hb
    exact (ptr_eq_some.mp hb).1
  have hpn : p.1 = n.1 ∨ p.1 + 16 ≤ n.1 ∨ n.1 + 16 ≤ p.1 :=
    h.apart_of_mem (hmem p (by simp)) (hmem n (by simp))
  have hne : p.1 ≠ n.1 := by
    intro he
    have hd := h.nodup
    simp [he, List.nodup_append] at hd
  have hf' : flink (setFlink m p.1 (flink m n.1)) n.1 = flink m n.1 := by
    rw [flink_setFlink hpn (flink_lt m _), if_neg (Ne.symm hne)]
  have hbb : blink (setFlink m p.1 (flink m n.1)) n.1 = p.1 := by
    rw [blink_setFlink hpn, hb']
  cases l₂ with
  | nil =>
    have h0 : flink m n.1 = 0 := ptr_eq_none.mp hf
    rw [h0] at hf'
    simp only [unlink, hb', h0, hf', ne_eq, not_true_eq_false, if_false]
  | cons q l₂ =>
    have hq : flink m n.1 = q.1 := (ptr_eq_some.mp hf).1
    have hq0 : q.1 ≠ 0 := (ptr_eq_some.mp hf).2
    rw [hq] at hf' hbb
    simp only [unlink, hb', hq, hf', hbb, hq0, ne_eq, not_false_eq_true, if_true]

theorem NodeList.unlink (h : NodeList g m (l₁ ++ n :: l₂)) (hn : n.2 ≠ 0) :
    NodeList g (unlink m n.1) (l₁ ++ l₂) ∧
      ∀ x, (∀ k ∈ l₁ ++ l₂, ¬ inLinks k.1 x) → Mm.unlink m n.1 x = m x := by
  obtain ⟨l, p, rfl⟩ := h.pred_exists hn
  have he := h.unlink_eq
  have hmem : ∀ k ∈ l ++ [p] ++ l₂, k ∈ l ++ [p] ++ n :: l₂ := by
    intro k hk
    simp only [List.mem_append, List.mem_cons] at hk ⊢
    tauto
  have hap : ∀ k ∈ l ++ [p] ++ l₂, ∀ k' ∈ l ++ [p] ++ l₂,
      k.1 = k'.1 ∨ k.1 + 16 ≤ k'.1 ∨ k'.1 + 16 ≤ k.1 := fun k hk k' hk' =>
    h.apart_of_mem (hmem k hk) (hmem k' hk')
  have hout : ∀ x, (∀ k ∈ l ++ [p] ++ l₂, ¬ inLinks k.1 x) → Mm.unlink m n.1 x = m x := by
    intro x hx
    have hp := hx p (by simp)
    rw [he]
    cases l₂ with
    | nil => exact setFlink_of_outside hp
    | cons q l₂ =>
      dsimp only
      rw [setBlink_of_outside (hx q (by simp)), setFlink_of_outside hp]
  have hpw : (l ++ [p] ++ l₂).Sublist (l ++ [p] ++ n :: l₂) :=
    (List.Sublist.refl _).append (List.sublist_cons_self _ _)
  refine ⟨⟨h.apart.sublist hpw, fun k hk => h.range k (hmem k hk), ?_, ?_,
    h.sorted.sublist hpw, ?_, fun k hk => h.zero k (hmem k hk),
    fun k hk => h.chunk k (hmem k hk)⟩, hout⟩
  · intro k hk
    rw [← h.sizes k (hmem k hk)]
    refine nodeSize_congr fun x h1 h2 => hout x fun k' hk' => ?_
    have := hap k hk k' hk'
    unfold inLinks
    omega
  · have hl := h.links
    have hd := h.nodup
    rw [List.map_append, List.map_cons] at hl hd
    have hp32 := (h.range p (by simp)).2
    rw [List.map_append]
    refine hl.remove hd (fun y hy => ?_) (fun y hy => ?_)
    all_goals
      rw [← List.map_append] at hy
      obtain ⟨k, hk, rfl⟩ := List.mem_map.mp hy
      have hkp := hap p (by simp) k hk
      rw [he]
    · have hlast : ((l ++ [p]).map Prod.fst).getLast? = some p.1 := by simp
      rw [hlast]
      cases l₂ with
      | nil =>
        simp only [fwd, flink_setFlink hkp (Nat.two_pow_pos 32), Option.some.injEq, eq_comm]
        split <;> rfl
      | cons q l₂ =>
        have hqk := hap q (by simp) k hk
        have hq := h.range q (by simp)
        simp only [fwd, flink_setBlink hqk, flink_setFlink hkp (by omega : q.1 < 2 ^ 32),
          Option.some.injEq, eq_comm]
        split
        · simp [ptr_of_pos hq.1]
        · rfl
    · have hlast : ((l ++ [p]).map Prod.fst).getLast? = some p.1 := by simp
      rw [hlast]
      cases l₂ with
      | nil =>
        simp only [bwd, blink_setFlink hkp, List.map_nil, List.head?_nil, reduceCtorEq, if_false]
      | cons q l₂ =>
        have hqk := hap q (by simp) k hk
        have hp := h.range p (by simp)
        simp only [bwd, blink_setBlink hqk (by omega : p.1 < 2 ^ 32), blink_setFlink hkp,
          List.map_cons, List.head?_cons, Option.some.injEq, eq_comm]
        split
        · simp [ptr_of_pos hp.1]
        · rfl
  · intro i hi
    have := h.heads i hi
    simp only [List.mem_append, List.mem_cons] at this ⊢
    rcases this with hk | hk | hk
    · exact .inl hk
    · exact absurd (congrArg Prod.snd hk).symm hn
    · exact .inr hk

end

/-- The address of the first node, `NULL` for an empty list. -/
def headAddr : List (Nat × Nat) → Nat
  | [] => 0
  | n :: _ => n.1

@[simp] theorem headAddr_nil : headAddr [] = 0 := rfl

@[simp] theorem headAddr_cons (n : Nat × Nat) (l : List (Nat × Nat)) :
    headAddr (n :: l) = n.1 := rfl

section

variable {g : Nat} {m : Memory} {l₁ l₂ : List (Nat × Nat)} {n : Nat × Nat}

theorem NodeList.flink_eq (h : NodeList g m (l₁ ++ n :: l₂)) : flink m n.1 = headAddr l₂ := by
  have hl := h.links
  rw [List.map_append, List.map_cons] at hl
  have hf := hl.neighbours.2
  cases l₂ with
  | nil => exact ptr_eq_none.mp hf
  | cons q l₂ => exact (ptr_eq_some.mp hf).1

/-- The test of the loop in `mm_addfreechunk` on a node that is not `NULL`. -/
def goesBefore (size : Nat) (n : Nat × Nat) : Bool := decide (n.2 ≠ 0 ∧ n.2 < size)

theorem NodeList.searchBin_eq (h : NodeList g m (l₁ ++ n :: l₂)) (size : Nat) {fuel : Nat}
    (hl : l₂.length < fuel) :
    searchBin m size fuel n.1 (headAddr l₂) =
      some (((l₂.takeWhile (goesBefore size)).getLast?.getD n).1,
        headAddr (l₂.dropWhile (goesBefore size))) := by
  induction l₂ generalizing l₁ n fuel with
  | nil =>
    cases fuel with
    | zero => omega
    | succ fuel => simp [searchBin, headAddr]
  | cons q l₂ ih =>
    cases fuel with
    | zero => omega
    | succ fuel =>
      have hq : NodeList g m (l₁ ++ [n] ++ q :: l₂) := by simpa using h
      have hq0 : q.1 ≠ 0 := by
        have := (h.range q (by simp)).1
        omega
      have hqs := h.sizes q (by simp)
      simp only [searchBin, headAddr_cons, List.takeWhile_cons, List.dropWhile_cons, hqs]
      by_cases hc : goesBefore size q = true
      · have hc' := of_decide_eq_true hc
        rw [if_pos ⟨hq0, hc'⟩, hq.flink_eq, ih hq (by simpa using hl)]
        simp only [hc, if_true, List.getLast?_cons, Option.getD_some]
      · have hc' : ¬ (q.1 ≠ 0 ∧ q.2 ≠ 0 ∧ q.2 < size) := fun hk =>
          hc (decide_eq_true hk.2)
        rw [if_neg hc']
        simp [hc]

theorem NodeList.searchFit_eq (h : NodeList g m (l₁ ++ l₂)) (size : Nat) {fuel : Nat}
    (hl : l₂.length < fuel) :
    searchFit m size fuel (headAddr l₂) =
      some (headAddr (l₂.dropWhile fun n => decide (n.2 < size))) := by
  induction l₂ generalizing l₁ fuel with
  | nil =>
    cases fuel with
    | zero => omega
    | succ fuel => simp [searchFit, headAddr]
  | cons q l₂ ih =>
    cases fuel with
    | zero => omega
    | succ fuel =>
      have hq : NodeList g m (l₁ ++ [q] ++ l₂) := by simpa using h
      have hq0 : q.1 ≠ 0 := by
        have := (h.range q (by simp)).1
        omega
      have hqs := h.sizes q (by simp)
      simp only [searchFit, headAddr_cons, List.dropWhile_cons, hqs]
      by_cases hc : q.2 < size
      · rw [if_pos ⟨hq0, hc⟩, h.flink_eq, ih hq (by simpa using hl)]
        simp [hc]
      · rw [if_neg fun hk => hc hk.2]
        simp [hc]

end

section

variable {g : Nat} {m : Memory} {l₁ l₂ : List (Nat × Nat)} {p : Nat × Nat} {a s : Nat}

/-- Nodes that are equal or whose sixteen bytes do not meet. -/
def EqOrApart (x y : Nat) : Prop := x = y ∨ x + 16 ≤ y ∨ y + 16 ≤ x

/-- The stores that link `a` in between `prev` and `next`. -/
def linkIn (m : Memory) (prev a next : Nat) : Memory :=
  let m := setFlink m prev a
  let m := setBlink m a prev
  let m := setFlink m a next
  if next ≠ 0 then setBlink m next a else m

theorem linkIn_of_outside {prev next x : Nat} (hp : ¬ inLinks prev x) (ha : ¬ inLinks a x)
    (hn : next ≠ 0 → ¬ inLinks next x) : linkIn m prev a next x = m x := by
  have h : setFlink (setBlink (setFlink m prev a) a prev) a next x = m x := by
    rw [setFlink_of_outside ha, setBlink_of_outside ha, setFlink_of_outside hp]
  unfold linkIn
  split
  · rename_i h0
    rw [setBlink_of_outside (hn h0), h]
  · exact h

theorem linkIn_flink {prev next b : Nat} (hp : EqOrApart prev b) (ha : EqOrApart a b)
    (hn : next ≠ 0 → EqOrApart next b) (ha32 : a < 2 ^ 32) (hn32 : next < 2 ^ 32) :
    flink (linkIn m prev a next) b =
      if b = a then next else if b = prev then a else flink m b := by
  have h : flink (setFlink (setBlink (setFlink m prev a) a prev) a next) b =
      if b = a then next else if b = prev then a else flink m b := by
    rw [flink_setFlink ha hn32, flink_setBlink ha, flink_setFlink hp ha32]
  unfold linkIn
  dsimp only
  split
  · rename_i h0
    rw [flink_setBlink (hn h0), h]
  · exact h

theorem linkIn_blink {prev next b : Nat} (hp : EqOrApart prev b) (ha : EqOrApart a b)
    (hn : next ≠ 0 → EqOrApart next b) (ha32 : a < 2 ^ 32) (hp32 : prev < 2 ^ 32) :
    blink (linkIn m prev a next) b =
      if next ≠ 0 ∧ b = next then a else if b = a then prev else blink m b := by
  have h : blink (setFlink (setBlink (setFlink m prev a) a prev) a next) b =
      if b = a then prev else blink m b := by
    rw [blink_setFlink ha, blink_setBlink ha hp32, blink_setFlink hp]
  unfold linkIn
  dsimp only
  split
  · rename_i h0
    rw [blink_setBlink (hn h0) ha32, h]
    simp [h0]
  · rename_i h0
    rw [h]
    simp [h0]

/-- What `mm_addfreechunk` relies on: a chunk header at `a`, apart from every
node already linked. -/
structure Addable (m : Memory) (ns : List (Nat × Nat)) (a s : Nat) : Prop where
  size : nodeSize m a = s
  low : 16 ≤ s
  high : s < 2 ^ 31
  pos : 0 < a
  stop : a + 16 ≤ 2 ^ 32
  apart : ∀ k ∈ ns, k.1 + 16 ≤ a ∨ a + 16 ≤ k.1

theorem headAddr_mem {l : List (Nat × Nat)} (h : headAddr l ≠ 0) : ∃ k ∈ l, k.1 = headAddr l := by
  cases l with
  | nil => exact absurd rfl h
  | cons k l => exact ⟨k, by simp, rfl⟩

theorem linkIn_of_nodes {l : List (Nat × Nat)} {x : Nat}
    (hx : ∀ k ∈ l ++ p :: l₂, ¬ inLinks k.1 x)
    (hax : ¬ inLinks a x) : linkIn m p.1 a (headAddr l₂) x = m x := by
  refine linkIn_of_outside (hx p (by simp)) hax fun h0 => ?_
  obtain ⟨k, hk, he⟩ := headAddr_mem h0
  rw [← he]
  exact hx k (by simp [hk])

theorem linkIn_size {b : Nat} (hb : ∀ k ∈ l₁ ++ p :: l₂, EqOrApart b k.1)
    (hba : EqOrApart b a) : nodeSize (linkIn m p.1 a (headAddr l₂)) b = nodeSize m b := by
  refine nodeSize_congr fun x h1 h2 => linkIn_of_nodes (l := l₁) (fun k hk => ?_) ?_
  · have := hb k hk
    unfold EqOrApart at this
    unfold inLinks
    omega
  · unfold EqOrApart at hba
    unfold inLinks
    omega

theorem NodeList.linkIn_links (h : NodeList g m (l₁ ++ p :: l₂))
    (ha : Addable m (l₁ ++ p :: l₂) a s) :
    Ends (fwd (linkIn m p.1 a (headAddr l₂))) (bwd (linkIn m p.1 a (headAddr l₂)))
      ((l₁ ++ p :: (a, s) :: l₂).map Prod.fst) := by
  have hap : ∀ k ∈ l₁ ++ p :: l₂, ∀ k' ∈ l₁ ++ p :: l₂, EqOrApart k.1 k'.1 :=
    fun k hk k' hk' => h.apart_of_mem hk hk'
  have hpm : p ∈ l₁ ++ p :: l₂ := by simp
  have hp := h.range p hpm
  have ha32 : a < 2 ^ 32 := by
    have := ha.stop
    omega
  have hn32 : headAddr l₂ < 2 ^ 32 := by
    rw [← h.flink_eq]
    exact flink_lt m _
  have hka : ∀ k ∈ l₁ ++ p :: l₂, EqOrApart a k.1 ∧ k.1 ≠ a := by
    intro k hk
    have := ha.apart k hk
    unfold EqOrApart
    omega
  have hnk : ∀ b, EqOrApart a b ∧ b ≠ a ∨ b = a → (∀ k ∈ l₁ ++ p :: l₂, EqOrApart k.1 b) →
      headAddr l₂ ≠ 0 → EqOrApart (headAddr l₂) b := by
    intro b _ hb h0
    obtain ⟨k, hk, he⟩ := headAddr_mem h0
    rw [← he]
    exact hb k (by simp [hk])
  have hna : headAddr l₂ ≠ 0 → EqOrApart (headAddr l₂) a := by
    intro h0
    obtain ⟨k, hk, he⟩ := headAddr_mem h0
    have := ha.apart k (by simp [hk])
    rw [← he]
    unfold EqOrApart
    omega
  have hpa : EqOrApart p.1 a := by
    have := ha.apart p hpm
    unfold EqOrApart
    omega
  have hd : (l₁.map Prod.fst ++ [p.1] ++ a :: l₂.map Prod.fst).Nodup := by
    have hna : a ∉ (l₁ ++ p :: l₂).map Prod.fst := by
      intro hk
      obtain ⟨k, hk, he⟩ := List.mem_map.mp hk
      exact (hka k hk).2 he
    have hperm : (l₁.map Prod.fst ++ [p.1] ++ a :: l₂.map Prod.fst).Perm
        (a :: (l₁ ++ p :: l₂).map Prod.fst) := by
      exact List.perm_middle.trans (by simp)
    exact hperm.nodup_iff.mpr (List.nodup_cons.mpr ⟨hna, h.nodup⟩)
  have hl : Ends (fwd m) (bwd m) (l₁.map Prod.fst ++ [p.1] ++ l₂.map Prod.fst) := by
    simpa using h.links
  have hlast : (l₁.map Prod.fst ++ [p.1]).getLast? = some p.1 := by simp
  have hhead : (l₂.map Prod.fst).head? = ptr (headAddr l₂) := by
    cases l₂ with
    | nil => rfl
    | cons q l₂ => exact (ptr_of_pos (h.range q (by simp)).1).symm
  have hmem : ∀ y ∈ l₁.map Prod.fst ++ [p.1] ++ l₂.map Prod.fst, ∃ k ∈ l₁ ++ p :: l₂, k.1 = y := by
    intro y hy
    have he : l₁.map Prod.fst ++ [p.1] ++ l₂.map Prod.fst = (l₁ ++ p :: l₂).map Prod.fst := by simp
    rw [he] at hy
    exact List.mem_map.mp hy
  have hgoal : (l₁ ++ p :: (a, s) :: l₂).map Prod.fst =
      l₁.map Prod.fst ++ [p.1] ++ a :: l₂.map Prod.fst := by simp
  rw [hgoal]
  refine hl.insert hd (fun y hy => ?_) (fun y hy => ?_) ?_ ?_
  · obtain ⟨k, hk, rfl⟩ := hmem y hy
    have hk' := hka k hk
    rw [fwd, linkIn_flink (hap p hpm k hk) hk'.1
      (hnk k.1 (.inl hk') fun k' hk' => hap k' hk' k hk) ha32 hn32, if_neg hk'.2, hlast]
    simp only [Option.some.injEq, eq_comm (a := p.1)]
    split
    · exact ptr_of_pos ha.pos
    · rfl
  · obtain ⟨k, hk, rfl⟩ := hmem y hy
    have hk' := hka k hk
    rw [bwd, linkIn_blink (hap p hpm k hk) hk'.1
      (hnk k.1 (.inl hk') fun k' hk' => hap k' hk' k hk) ha32 (by omega), if_neg hk'.2, hhead]
    have hiff : ptr (headAddr l₂) = some k.1 ↔ headAddr l₂ ≠ 0 ∧ k.1 = headAddr l₂ := by
      have := (h.range k hk).1
      rw [ptr_eq_some]
      omega
    simp only [hiff]
    split
    · exact ptr_of_pos ha.pos
    · rfl
  · rw [fwd, linkIn_flink hpa (.inl rfl) hna ha32 hn32, if_pos rfl, hhead]
  · have hne : ¬ (headAddr l₂ ≠ 0 ∧ a = headAddr l₂) := by
      rintro ⟨h0, he⟩
      obtain ⟨k, hk, hek⟩ := headAddr_mem h0
      exact (hka k (by simp [hk])).2 (hek.trans he.symm)
    rw [bwd, linkIn_blink hpa (.inl rfl) hna ha32 (by omega), if_neg hne, if_pos rfl, hlast]
    exact ptr_of_pos hp.1

theorem NodeList.linkIn (h : NodeList g m (l₁ ++ p :: l₂)) (ha : Addable m (l₁ ++ p :: l₂) a s)
    (hlo : ∀ x ∈ l₁ ++ [p], rank g x ≤ 2 * s) (hhi : ∀ y ∈ l₂, 2 * s ≤ rank g y) :
    NodeList g (Mm.linkIn m p.1 a (headAddr l₂)) (l₁ ++ p :: (a, s) :: l₂) := by
  have hs0 : s ≠ 0 := by
    have := ha.low
    omega
  have hra : rank g (a, s) = 2 * s := rank_chunk hs0
  have hmem : ∀ k, k ∈ l₁ ++ p :: (a, s) :: l₂ ↔ k = (a, s) ∨ k ∈ l₁ ++ p :: l₂ := by
    intro k
    simp only [List.mem_append, List.mem_cons]
    tauto
  have hpair : ∀ {R : Nat × Nat → Nat × Nat → Prop}, (l₁ ++ p :: l₂).Pairwise R →
      (∀ k ∈ l₁ ++ [p], R k (a, s)) → (∀ k ∈ l₂, R (a, s) k) →
      (l₁ ++ p :: (a, s) :: l₂).Pairwise R := by
    intro R hR h1 h2
    rw [List.append_cons] at hR ⊢
    obtain ⟨ha, hb, hab⟩ := List.pairwise_append.mp hR
    refine List.pairwise_append.mpr ⟨ha, List.pairwise_cons.mpr ⟨h2, hb⟩, fun x hx y hy => ?_⟩
    rcases List.mem_cons.mp hy with rfl | hy
    · exact h1 x hx
    · exact hab x hx y hy
  refine ⟨hpair h.apart ?_ ?_, ?_, ?_, h.linkIn_links ha, hpair h.sorted ?_ ?_, ?_, ?_, ?_⟩
  · exact fun k hk => ha.apart k (by simp only [List.mem_append, List.mem_cons] at hk ⊢; tauto)
  · exact fun k hk => (ha.apart k (by simp [hk])).symm
  · intro k hk
    rcases (hmem k).mp hk with rfl | hk
    · exact ⟨ha.pos, ha.stop⟩
    · exact h.range k hk
  · intro k hk
    rcases (hmem k).mp hk with rfl | hk
    · rw [← ha.size]
      exact linkIn_size (fun k hk => .inr (ha.apart k hk).symm) (.inl rfl)
    · rw [← h.sizes k hk]
      exact linkIn_size (fun k' hk' => h.apart_of_mem hk hk') (.inr (ha.apart k hk))
  · exact fun k hk => hra.symm ▸ hlo k hk
  · exact fun k hk => hra.symm ▸ hhi k hk
  · exact fun i hi => (hmem _).mpr (.inr (h.heads i hi))
  · intro k hk h0
    rcases (hmem k).mp hk with rfl | hk
    · exact absurd h0 hs0
    · exact h.zero k hk h0
  · intro k hk h0
    rcases (hmem k).mp hk with rfl | hk
    · exact ⟨ha.low, ha.high⟩
    · exact h.chunk k hk h0

end

section

variable {g : Nat} {m : Memory} {ns l₁ l₂ : List (Nat × Nat)} {a s : Nat}

theorem mmSize2ndx_le {s : Nat} (h16 : 16 ≤ s) :
    mmSize2ndx s ≤ 18 ∧ 16 * 2 ^ mmSize2ndx s ≤ s ∧
      (mmSize2ndx s < 18 → s < 16 * 2 ^ (mmSize2ndx s + 1)) := by
  by_cases hmax : s < 2 ^ 22
  · obtain ⟨h1, h2, h3⟩ := mmSize2ndx_bounds h16 hmax
    exact ⟨by omega, h2, fun _ => h3⟩
  · have h18 := mmSize2ndx_max (Nat.le_of_not_lt hmax)
    rw [h18]
    omega

theorem NodeList.header_split (h : NodeList g m ns) (h16 : 16 ≤ s) :
    ∃ l r, ns = l ++ (nodeAt g (mmSize2ndx s), 0) :: r :=
  List.append_of_mem (h.heads _ (Nat.lt_succ_of_le (mmSize2ndx_le h16).1))

theorem NodeList.rank_before (h : NodeList g m (l₁ ++ (nodeAt g (mmSize2ndx s), 0) :: l₂))
    (h16 : 16 ≤ s) {x : Nat × Nat} (hx : x ∈ l₁ ++ [(nodeAt g (mmSize2ndx s), 0)]) :
    rank g x < 2 * s := by
  obtain ⟨_, hlo, _⟩ := mmSize2ndx_le h16
  have hh : rank g (nodeAt g (mmSize2ndx s), 0) < 2 * s := by
    rw [rank_head]
    omega
  rcases List.mem_append.mp hx with hx | hx
  · have := (List.pairwise_append.mp h.sorted).2.2 x hx _ List.mem_cons_self
    omega
  · rw [List.mem_singleton.mp hx]
    exact hh

theorem NodeList.rank_header_after
    (h : NodeList g m (l₁ ++ (nodeAt g (mmSize2ndx s), 0) :: l₂)) (h16 : 16 ≤ s)
    {y : Nat × Nat} (hy : y ∈ l₂) (h0 : y.2 = 0) : 2 * s ≤ rank g y := by
  obtain ⟨j, hj, rfl⟩ := h.zero y (by simp [hy]) h0
  obtain ⟨_, _, hhi⟩ := mmSize2ndx_le h16
  have hc := List.pairwise_cons.mp (List.pairwise_append.mp h.sorted).2.1
  have ha := List.pairwise_cons.mp (List.pairwise_append.mp h.apart).2.1
  have hr := hc.1 _ hy
  have hd := ha.1 _ hy
  rw [rank_head, rank_head] at hr
  simp only [NodesApart, nodeAt, sizeofMmFreenode] at hd
  have hlt : mmSize2ndx s < j := by
    by_contra hge
    have hpow : 2 ^ j < 2 ^ mmSize2ndx s := Nat.pow_lt_pow_right (by decide) (by omega)
    omega
  have hpow : 2 ^ (mmSize2ndx s + 1) ≤ 2 ^ j := Nat.pow_le_pow_right (by decide) (by omega)
  have := hhi (by omega)
  rw [rank_head]
  omega

theorem rank_le_of_goesBefore {n : Nat × Nat} (h : goesBefore s n = true) : rank g n ≤ 2 * s := by
  obtain ⟨h0, hs⟩ := of_decide_eq_true h
  rw [rank, if_neg h0]
  omega

theorem NodeList.bin_split (h : NodeList g m ns) (h16 : 16 ≤ s) :
    ∃ l p r, ns = l ++ p :: r ∧
      searchBin m s loopBound (nodeAt g (mmSize2ndx s)) (flink m (nodeAt g (mmSize2ndx s))) =
        some (p.1, headAddr r) ∧
      (∀ x ∈ l ++ [p], rank g x ≤ 2 * s) ∧ ∀ y ∈ r, 2 * s ≤ rank g y := by
  obtain ⟨l, r, rfl⟩ := h.header_split h16
  have hlen := h.length_lt
  simp only [List.length_append, List.length_cons] at hlen
  let c := goesBefore s
  let hd : Nat × Nat := (nodeAt g (mmSize2ndx s), 0)
  have htw : r.takeWhile c ++ r.dropWhile c = r := List.takeWhile_append_dropWhile
  have hlast : (hd :: r.takeWhile c).getLast (by simp) = (r.takeWhile c).getLast?.getD hd := by
    rw [List.getLast_eq_iff_getLast?_eq_some, List.getLast?_cons]
  have hsplit := List.dropLast_append_getLast (l := hd :: r.takeWhile c) (by simp)
  have hall : (l ++ (hd :: r.takeWhile c).dropLast) ++ [(r.takeWhile c).getLast?.getD hd] =
      l ++ hd :: r.takeWhile c := by
    rw [← hlast, List.append_assoc, hsplit]
  refine ⟨l ++ (hd :: r.takeWhile c).dropLast, (r.takeWhile c).getLast?.getD hd,
    r.dropWhile c, ?_, ?_, ?_, ?_⟩
  · rw [List.append_cons (l ++ _), hall, List.append_assoc, List.cons_append, htw]
  · have hlt : r.length < loopBound := by omega
    have he := h.searchBin_eq s hlt
    rw [h.flink_eq]
    exact he
  · intro x hx
    rw [hall] at hx
    rcases List.mem_append.mp hx with hx | hx
    · exact Nat.le_of_lt (h.rank_before h16 (List.mem_append_left _ hx))
    · rcases List.mem_cons.mp hx with rfl | hx
      · exact Nat.le_of_lt (h.rank_before h16 (by simp [hd]))
      · exact rank_le_of_goesBefore (List.mem_takeWhile_imp hx)
  · intro y hy
    have hsub : (r.dropWhile c).Sublist r := List.dropWhile_sublist _
    cases hdw : r.dropWhile c with
    | nil => simp [hdw] at hy
    | cons d ds =>
      have hdr : d ∈ r := hsub.subset (by simp [hdw])
      have hsorted : (d :: ds).Pairwise fun x y => rank g x ≤ rank g y := by
        rw [← hdw]
        exact ((List.pairwise_cons.mp (List.pairwise_append.mp h.sorted).2.1).2).sublist hsub
      have hd2 : 2 * s ≤ rank g d := by
        have hc : c d = false := by
          have := List.head_dropWhile_not c (l := r) (by simp [hdw])
          simpa [hdw] using this
        by_cases h0 : d.2 = 0
        · exact h.rank_header_after h16 hdr h0
        · have hge : ¬ d.2 < s := fun hlt => of_decide_eq_false hc ⟨h0, hlt⟩
          rw [rank, if_neg h0]
          omega
      rw [hdw] at hy
      rcases List.mem_cons.mp hy with rfl | hy
      · exact hd2
      · exact Nat.le_trans hd2 ((List.pairwise_cons.mp hsorted).1 y hy)

theorem NodeList.mmAddfreechunk (h : NodeList g m ns) (ha : Addable m ns a s) :
    ∃ m' ns', Mm.mmAddfreechunk g m a = some m' ∧ NodeList g m' ns' ∧
      (∀ k, k ∈ ns' ↔ k = (a, s) ∨ k ∈ ns) ∧
      ∀ x, (∀ k ∈ ns, ¬ inLinks k.1 x) → ¬ inLinks a x → m' x = m x := by
  obtain ⟨l, p, r, rfl, hs, hlo, hhi⟩ := h.bin_split ha.low
  refine ⟨Mm.linkIn m p.1 a (headAddr r), l ++ p :: (a, s) :: r, ?_, h.linkIn ha hlo hhi, ?_,
    fun x hx hax => linkIn_of_nodes hx hax⟩
  · simp only [Mm.mmAddfreechunk, ha.size, hs, Option.bind_eq_bind, Option.bind_some, Mm.linkIn]
  · intro k
    simp only [List.mem_append, List.mem_cons]
    tauto

/-- What the search of `malloc` finds: a smallest chunk that fits, or the fact
that none does. -/
inductive Fit (ns : List (Nat × Nat)) (size : Nat) : Nat → Prop
  | none (h : ∀ n ∈ ns, n.2 < size) : Fit ns size 0
  | some (n : Nat × Nat) (hn : n ∈ ns) (hs : size ≤ n.2)
      (hmin : ∀ k ∈ ns, size ≤ k.2 → n.2 ≤ k.2) : Fit ns size n.1

theorem malloc_ndx (s : Nat) :
    (if s ≥ mmMaxChunk then mmNnodes - 1 else mmSize2ndx s) = mmSize2ndx s := by
  by_cases h : s ≥ mmMaxChunk
  · rw [if_pos h]
    exact (mmSize2ndx_max (by simpa using h)).symm
  · rw [if_neg h]

theorem NodeList.size_lt_of_before
    (h : NodeList g m (l₁ ++ (nodeAt g (mmSize2ndx s), 0) :: l₂)) (h16 : 16 ≤ s)
    {x : Nat × Nat} (hx : x ∈ l₁ ++ [(nodeAt g (mmSize2ndx s), 0)]) : x.2 < s := by
  have hr := h.rank_before h16 hx
  by_cases h0 : x.2 = 0
  · omega
  · rw [rank, if_neg h0] at hr
    omega

theorem NodeList.searchFit (h : NodeList g m ns) (h16 : 16 ≤ s) :
    ∃ node, Mm.searchFit m s loopBound (flink m (nodeAt g (mmSize2ndx s))) = some node ∧
      Fit ns s node := by
  obtain ⟨l, r, rfl⟩ := h.header_split h16
  have hlen := h.length_lt
  simp only [List.length_append, List.length_cons] at hlen
  let c : Nat × Nat → Bool := fun n => decide (n.2 < s)
  have hlt : r.length < loopBound := by omega
  have hr : NodeList g m (l ++ [(nodeAt g (mmSize2ndx s), 0)] ++ r) := by simpa using h
  rw [h.flink_eq, hr.searchFit_eq s hlt]
  refine ⟨_, rfl, ?_⟩
  have hbefore : ∀ x ∈ l ++ [(nodeAt g (mmSize2ndx s), 0)] ++ r.takeWhile c, x.2 < s := by
    intro x hx
    rcases List.mem_append.mp hx with hx | hx
    · exact h.size_lt_of_before h16 hx
    · have hc : c x = true := List.mem_takeWhile_imp hx
      exact of_decide_eq_true hc
  have hns : l ++ (nodeAt g (mmSize2ndx s), 0) :: r =
      l ++ [(nodeAt g (mmSize2ndx s), 0)] ++ r.takeWhile c ++ r.dropWhile c := by
    rw [List.append_assoc, List.takeWhile_append_dropWhile, ← List.append_cons]
  cases hdw : r.dropWhile c with
  | nil =>
    rw [hdw, List.append_nil] at hns
    exact .none fun n hn => hbefore n (hns ▸ hn)
  | cons d ds =>
    rw [hdw] at hns
    have hfit : s ≤ d.2 := by
      have hc := List.head_dropWhile_not c (l := r) (by simp [hdw])
      simp only [hdw, List.head_cons] at hc
      exact Nat.le_of_not_lt (of_decide_eq_false hc)
    have hsorted := h.sorted
    rw [hns] at hsorted
    have hds := List.pairwise_cons.mp (List.pairwise_append.mp hsorted).2.1
    refine .some d (by simp [hns]) hfit fun k hk hks => ?_
    rw [hns] at hk
    rcases List.mem_append.mp hk with hk | hk
    · exact absurd (hbefore k hk) (Nat.not_lt.mpr hks)
    · rcases List.mem_cons.mp hk with rfl | hk
      · exact Nat.le_refl _
      · have hr := hds.1 k hk
        rw [rank, if_neg (by omega), rank, if_neg (by omega)] at hr
        omega

end

end NuttxAvr32.Mm
