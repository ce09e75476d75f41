import Mathlib.Data.List.Range
import Mathlib.Data.List.Sort

/-! # Lists ordered by a key

A list whose keys do not decrease falls into its classes, one for each key; a
class that holds an element strictly below the others starts with it. A list
whose keys do not increase is a priority queue: an element is inserted behind all
elements whose key is at least its own.
-/

namespace Keyed

universe u

variable {α : Type u} {key : α → Nat} {l : List α}

theorem filter_lt_append (h : l.Pairwise fun x y => key x ≤ key y) (n : Nat) :
    l.filter (fun x => key x < n) ++ l.filter (fun x => key x = n) =
      l.filter (fun x => key x < n + 1) := by
  induction l with
  | nil => rfl
  | cons x l ih =>
    obtain ⟨hx, hl⟩ := List.pairwise_cons.mp h
    by_cases hlt : key x < n
    · rw [List.filter_cons_of_pos (by simpa using hlt),
        List.filter_cons_of_neg (by simpa using Nat.ne_of_lt hlt),
        List.filter_cons_of_pos (by simpa using Nat.lt_succ_of_lt hlt), List.cons_append, ih hl]
    · have hnone : l.filter (fun y => key y < n) = [] := by
        rw [List.filter_eq_nil_iff]
        intro y hy
        have := hx y hy
        simp only [decide_eq_true_eq]
        omega
      have hsame : l.filter (fun y => key y = n) = l.filter (fun y => key y < n + 1) := by
        apply List.filter_congr
        intro y hy
        have := hx y hy
        simp only [decide_eq_decide]
        omega
      rw [List.filter_cons_of_neg (by simpa using hlt), hnone, List.nil_append]
      by_cases he : key x = n
      · rw [List.filter_cons_of_pos (by simpa using he),
          List.filter_cons_of_pos (by simp; omega), hsame]
      · rw [List.filter_cons_of_neg (by simpa using he),
          List.filter_cons_of_neg (by simp; omega), hsame]

theorem flatMap_classes (h : l.Pairwise fun x y => key x ≤ key y) (n : Nat) :
    (List.range n).flatMap (fun i => l.filter fun x => key x = i) =
      l.filter fun x => key x < n := by
  induction n with
  | zero =>
    symm
    rw [List.range_zero, List.flatMap_nil, List.filter_eq_nil_iff]
    intro x _
    simp
  | succ n ih =>
    rw [List.range_succ, List.flatMap_append, ih, List.flatMap_cons, List.flatMap_nil,
      List.append_nil, filter_lt_append h]

theorem eq_cons_of_least {rank : α → Nat} {x : α} (h : l.Pairwise fun x y => rank x ≤ rank y)
    (hx : x ∈ l) (hmin : ∀ y ∈ l, y ≠ x → rank x < rank y) : ∃ t, l = x :: t := by
  cases l with
  | nil => cases hx
  | cons y t =>
    by_cases he : y = x
    · exact ⟨t, by rw [he]⟩
    · have hlt := hmin y List.mem_cons_self he
      rcases List.mem_cons.mp hx with hxy | hxt
      · exact absurd hxy.symm he
      · have := List.rel_of_pairwise_cons h hxt
        omega

section

variable {key' : α → Nat} {x y : α} {xs : List α}

abbrev Descending (key : α → Nat) (l : List α) : Prop := l.Pairwise fun x y => key y ≤ key x

def insertKeyed (key : α → Nat) (x : α) (l : List α) : List α :=
  l.orderedInsert (fun x y => key y < key x) x

@[simp] theorem insertKeyed_nil : insertKeyed key x [] = [x] := rfl

theorem insertKeyed_cons : insertKeyed key x (y :: l) =
    if key y < key x then x :: y :: l else y :: insertKeyed key x l := rfl

@[simp] theorem mem_insertKeyed : y ∈ insertKeyed key x l ↔ y = x ∨ y ∈ l :=
  List.mem_orderedInsert _

theorem insertKeyed_perm (key : α → Nat) (x : α) (l : List α) :
    (insertKeyed key x l).Perm (x :: l) := List.perm_orderedInsert _ x l

theorem insertKeyed_nodup (h : l.Nodup) (hx : x ∉ l) : (insertKeyed key x l).Nodup :=
  (insertKeyed_perm key x l).nodup_iff.mpr (List.nodup_cons.mpr ⟨hx, h⟩)

theorem insertKeyed_split (key : α → Nat) (x : α) (l : List α) : ∃ l₁ l₂, l = l₁ ++ l₂ ∧
    insertKeyed key x l = l₁ ++ x :: l₂ ∧ (∀ y ∈ l₁, key x ≤ key y) ∧
      ∀ y ∈ l₂.head?, key y < key x := by
  induction l with
  | nil => exact ⟨[], [], rfl, rfl, by simp, by simp⟩
  | cons y l ih =>
    by_cases h : key y < key x
    · exact ⟨[], y :: l, rfl, by rw [insertKeyed_cons, if_pos h]; rfl, by simp, by simpa using h⟩
    · obtain ⟨l₁, l₂, hl, hins, h1, h2⟩ := ih
      refine ⟨y :: l₁, l₂, by rw [hl]; rfl, by rw [insertKeyed_cons, if_neg h, hins]; rfl, ?_, h2⟩
      intro z hz
      rcases List.mem_cons.mp hz with rfl | hz
      · omega
      · exact h1 z hz

theorem insertKeyed_descending (h : Descending key l) : Descending key (insertKeyed key x l) := by
  induction l with
  | nil => exact List.pairwise_singleton _ _
  | cons y l ih =>
    obtain ⟨hy, hl⟩ := List.pairwise_cons.mp h
    rw [insertKeyed_cons]
    split
    · refine List.pairwise_cons.mpr ⟨fun z hz => ?_, h⟩
      rcases List.mem_cons.mp hz with rfl | hz
      · omega
      · have := hy z hz
        omega
    · refine List.pairwise_cons.mpr ⟨fun z hz => ?_, ih hl⟩
      rcases mem_insertKeyed.mp hz with rfl | hz
      · omega
      · exact hy z hz

theorem head?_insertKeyed_of_lt (h : ∀ y ∈ l.head?, key y < key x) :
    insertKeyed key x l = x :: l := by
  cases l with
  | nil => rfl
  | cons y l => rw [insertKeyed_cons, if_pos (h y rfl)]

theorem head?_insertKeyed_of_le (hy : l.head? = some y) (h : key x ≤ key y) :
    (insertKeyed key x l).head? = some y := by
  cases l with
  | nil => cases hy
  | cons z l =>
    cases hy
    rw [insertKeyed_cons, if_neg (by omega)]
    rfl

theorem getLast?_insertKeyed (hy : l.getLast? = some y) (h : key y < key x) :
    (insertKeyed key x l).getLast? = some y := by
  obtain ⟨l₁, l₂, rfl, hins, h1, _⟩ := insertKeyed_split key x l
  rw [hins, List.getLast?_append, List.getLast?_cons]
  rw [List.getLast?_append] at hy
  cases hl : l₂.getLast? with
  | none =>
    rw [hl] at hy
    have hmem := List.mem_of_getLast? (l := l₁) hy
    have := h1 y hmem
    omega
  | some z =>
    rw [hl] at hy
    cases hy
    rfl

/-- Insertion of all elements of `xs`, one after the other. -/
def mergeKeyed (key : α → Nat) (l xs : List α) : List α :=
  xs.foldl (fun l x => insertKeyed key x l) l

@[simp] theorem mergeKeyed_nil : mergeKeyed key l [] = l := rfl

@[simp] theorem mergeKeyed_cons :
    mergeKeyed key l (x :: xs) = mergeKeyed key (insertKeyed key x l) xs := rfl

theorem mergeKeyed_perm : (mergeKeyed key l xs).Perm (xs ++ l) := by
  induction xs generalizing l with
  | nil => exact .refl _
  | cons x xs ih =>
    refine ih.trans ?_
    exact ((insertKeyed_perm key x l).append_left xs).trans List.perm_middle

@[simp] theorem mem_mergeKeyed : y ∈ mergeKeyed key l xs ↔ y ∈ xs ∨ y ∈ l := by
  rw [mergeKeyed_perm.mem_iff, List.mem_append]

theorem mergeKeyed_descending (h : Descending key l) : Descending key (mergeKeyed key l xs) := by
  induction xs generalizing l with
  | nil => exact h
  | cons x xs ih => exact ih (insertKeyed_descending h)

theorem getLast?_mergeKeyed (hy : l.getLast? = some y) (h : ∀ x ∈ xs, key y < key x) :
    (mergeKeyed key l xs).getLast? = some y := by
  induction xs generalizing l with
  | nil => exact hy
  | cons x xs ih =>
    exact ih (getLast?_insertKeyed hy (h x List.mem_cons_self))
      fun z hz => h z (List.mem_cons_of_mem _ hz)

theorem head?_mergeKeyed (hy : l.head? = some y) (h : Descending key xs) :
    (mergeKeyed key l xs).head? =
      some (match xs.head? with
        | some x => if key y < key x then x else y
        | none => y) := by
  induction xs generalizing l y with
  | nil => exact hy
  | cons x xs ih =>
    obtain ⟨hx, hxs⟩ := List.pairwise_cons.mp h
    have hnext : ∀ {z : α}, key x ≤ key z → (insertKeyed key x l).head? = some z →
        (mergeKeyed key l (x :: xs)).head? = some z := by
      intro z hz hhead
      rw [mergeKeyed_cons, ih hhead hxs]
      cases hh : xs.head? with
      | none => rfl
      | some w =>
        have := hx w (List.mem_of_mem_head? hh)
        exact congrArg some (if_neg (by omega))
    by_cases hlt : key y < key x
    · refine (hnext (z := x) (Nat.le_refl _) ?_).trans (congrArg some (if_pos hlt).symm)
      rw [head?_insertKeyed_of_lt]
      · rfl
      · rw [hy]
        rintro z ⟨⟩
        exact hlt
    · refine (hnext (z := y) (by omega) ?_).trans (congrArg some (if_neg hlt).symm)
      exact head?_insertKeyed_of_le hy (by omega)

/-- The merge of two queues in which `l` goes first among equal keys. -/
abbrev stableMerge (key : α → Nat) (l xs : List α) : List α :=
  l.merge xs fun y x => decide (key x ≤ key y)

variable {l₁ l₂ : List α}

theorem stableMerge_append (h : ∀ y ∈ l₁, ∀ x ∈ xs, key x ≤ key y) :
    stableMerge key (l₁ ++ l₂) xs = l₁ ++ stableMerge key l₂ xs := by
  induction l₁ with
  | nil => rfl
  | cons y l₁ ih =>
    have hrest := ih fun z hz => h z (List.mem_cons_of_mem _ hz)
    cases xs with
    | nil => simp
    | cons x xs =>
      have hle := h y List.mem_cons_self x List.mem_cons_self
      rw [List.cons_append, stableMerge, List.cons_merge_cons_pos _ _ _ (by simpa using hle)]
      exact congrArg (y :: ·) hrest

theorem stableMerge_cons_left (h : ∀ x ∈ xs, key x ≤ key y) :
    stableMerge key (y :: l) xs = y :: stableMerge key l xs := by
  have happ : stableMerge key ([y] ++ l) xs = [y] ++ stableMerge key l xs :=
    stableMerge_append (by simpa using h)
  exact happ

theorem stableMerge_cons_right (h : ∀ y ∈ l.head?, key y < key x) :
    stableMerge key l (x :: xs) = x :: stableMerge key l xs := by
  cases l with
  | nil => simp
  | cons y l =>
    have hlt := h y rfl
    rw [stableMerge, List.cons_merge_cons_neg _ _ _ (by simpa using hlt)]

theorem mergeKeyed_eq_stableMerge (hl : Descending key l) (hx : Descending key xs) :
    mergeKeyed key l xs = stableMerge key l xs := by
  induction xs generalizing l with
  | nil => simp
  | cons x xs ih =>
    obtain ⟨hle, hxs⟩ := List.pairwise_cons.mp hx
    rw [mergeKeyed_cons, ih (insertKeyed_descending hl) hxs]
    obtain ⟨l₁, l₂, rfl, hins, h1, h2⟩ := insertKeyed_split key x l
    have hall : ∀ y ∈ l₁, ∀ z ∈ x :: xs, key z ≤ key y := by
      intro y hy z hz
      have hxy := h1 y hy
      rcases List.mem_cons.mp hz with rfl | hz
      · exact hxy
      · exact (hle z hz).trans hxy
    have hsame : stableMerge key (x :: l₂) xs = x :: stableMerge key l₂ xs :=
      stableMerge_cons_left hle
    rw [hins, stableMerge_append fun y hy z hz => hall y hy z (List.mem_cons_of_mem _ hz),
      stableMerge_append hall, stableMerge_cons_right h2, hsame]

end

section

variable {stamp stamp' : α → Nat} {key' : α → Nat} {x y : α}

/-- An element that goes before another: its key is higher, or it came first. -/
def Ahead (key stamp : α → Nat) (x y : α) : Prop :=
  key y < key x ∨ key y = key x ∧ stamp x < stamp y

theorem Ahead.key_le (h : Ahead key stamp x y) : key y ≤ key x := by
  rcases h with h | ⟨h, -⟩
  · exact Nat.le_of_lt h
  · exact Nat.le_of_eq h

theorem pairwise_ahead_congr (hk : ∀ y ∈ l, key' y = key y) (hs : ∀ y ∈ l, stamp' y = stamp y)
    (h : l.Pairwise (Ahead key stamp)) : l.Pairwise (Ahead key' stamp') := by
  apply h.imp_of_mem
  intro a b ha hb hab
  unfold Ahead at *
  rwa [hk a ha, hk b hb, hs a ha, hs b hb]

theorem insertKeyed_ahead (h : l.Pairwise (Ahead key stamp)) (hx : ∀ y ∈ l, stamp y < stamp x) :
    (insertKeyed key x l).Pairwise (Ahead key stamp) := by
  induction l with
  | nil => exact List.pairwise_singleton _ _
  | cons y l ih =>
    obtain ⟨hy, hl⟩ := List.pairwise_cons.mp h
    rw [insertKeyed_cons]
    split
    · rename_i hlt
      apply List.pairwise_cons.mpr
      constructor
      · intro z hz
        left
        rcases List.mem_cons.mp hz with rfl | hz
        · exact hlt
        · exact lt_of_le_of_lt (hy z hz).key_le hlt
      · exact h
    · rename_i hle
      apply List.pairwise_cons.mpr
      constructor
      · intro z hz
        rcases mem_insertKeyed.mp hz with rfl | hz
        · rcases Nat.lt_or_eq_of_le (Nat.le_of_not_lt hle) with h' | h'
          · exact .inl h'
          · exact .inr ⟨h', hx y List.mem_cons_self⟩
        · exact hy z hz
      · exact ih hl fun z hz => hx z (List.mem_cons_of_mem _ hz)

end

end Keyed
