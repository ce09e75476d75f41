import Mathlib.Data.List.Basic

/-! # Ring buffers

`contents size head tail buf` lists the cells from `head` up to `tail`, the oldest first.
One cell stays empty, so equal indices mean an empty buffer.
-/

namespace Ring

universe u

variable {α : Type u} {size head tail : Nat} {buf : Nat → α}

def next (size i : Nat) : Nat := if size ≤ i + 1 then 0 else i + 1

def cell (size head i : Nat) : Nat := if head + i < size then head + i else head + i - size

def count (size head tail : Nat) : Nat := if head ≤ tail then tail - head else tail + size - head

def contents (size head tail : Nat) (buf : Nat → α) : List α :=
  (List.range (count size head tail)).map fun i => buf (cell size head i)

@[simp] theorem length_contents : (contents size head tail buf).length = count size head tail := by
  simp [contents]

theorem next_lt (h : 0 < size) (i : Nat) : next size i < size := by
  unfold next
  split
  · exact h
  · omega

theorem count_lt (hh : head < size) (ht : tail < size) : count size head tail < size := by
  unfold count
  split
  · omega
  · omega

theorem contents_eq_nil (hh : head < size) :
    contents size head tail buf = [] ↔ head = tail := by
  rw [← List.length_eq_zero_iff, length_contents, count]
  split
  · omega
  · omega

@[simp] theorem contents_self : contents size head head buf = [] := by
  simp [contents, count]

theorem contents_pop (hh : head < size) (ht : tail < size) (h : head ≠ tail) :
    contents size head tail buf = buf head :: contents size (next size head) tail buf := by
  have hc : count size head tail = count size (next size head) tail + 1 := by
    simp only [count, next]
    split_ifs
    all_goals omega
  have h0 : cell size head 0 = head := by simp [cell, hh]
  have hs : ∀ i, i < count size (next size head) tail →
      cell size head (i + 1) = cell size (next size head) i := by
    intro i hi
    have hl := count_lt hh ht
    simp only [cell, next]
    split_ifs
    all_goals omega
  rw [contents, hc, List.range_succ_eq_map, List.map_cons, h0, List.map_map, contents]
  congr 1
  apply List.map_congr_left
  intro i hi
  simp only [Function.comp_apply, Nat.succ_eq_add_one, hs i (List.mem_range.mp hi)]

theorem contents_push (hh : head < size) (ht : tail < size) (h : next size tail ≠ head) (a : α) :
    contents size head (next size tail) (Function.update buf tail a) =
      contents size head tail buf ++ [a] := by
  have hc : count size head (next size tail) = count size head tail + 1 := by
    simp only [next] at h
    simp only [count, next]
    split_ifs at h ⊢
    all_goals omega
  have hlast : cell size head (count size head tail) = tail := by
    simp only [cell, count]
    split_ifs
    all_goals omega
  have hne : ∀ i, i < count size head tail → cell size head i ≠ tail := by
    intro i hi
    have hl := count_lt hh ht
    rw [← hlast]
    simp only [cell]
    split_ifs
    all_goals omega
  rw [contents, hc, List.range_succ, List.map_append, List.map_singleton, hlast,
    Function.update_self]
  congr 1
  apply List.map_congr_left
  intro i hi
  exact Function.update_of_ne (hne i (List.mem_range.mp hi)) _ _

/-- At most `n` cells are taken, the oldest first. Returns them and the new head. -/
def drain (size : Nat) (buf : Nat → α) (tail : Nat) : Nat → Nat → List α × Nat
  | 0, head => ([], head)
  | n + 1, head =>
    if head ≠ tail then
      let r := drain size buf tail n (next size head)
      (buf head :: r.1, r.2)
    else ([], head)

/-- As many of the values as there is room for are put into the buffer. Returns what
went in, the buffer and the new tail. -/
def fill (size head : Nat) : List α → (Nat → α) → Nat → List α × (Nat → α) × Nat
  | [], buf, tail => ([], buf, tail)
  | a :: as, buf, tail =>
    if next size tail ≠ head then
      let r := fill size head as (Function.update buf tail a) (next size tail)
      (a :: r.1, r.2)
    else ([], buf, tail)

theorem drain_spec (buf : Nat → α) (hh : head < size) (ht : tail < size) (n : Nat) :
    (drain size buf tail n head).2 < size ∧
      contents size head tail buf = (drain size buf tail n head).1 ++
        contents size (drain size buf tail n head).2 tail buf := by
  induction n generalizing head with
  | zero => exact ⟨hh, rfl⟩
  | succ n ih =>
    by_cases h : head ≠ tail
    · obtain ⟨h1, h2⟩ := ih (next_lt (by omega) head)
      rw [drain, if_pos h]
      refine ⟨h1, ?_⟩
      rw [contents_pop hh ht h, h2]
      rfl
    · rw [drain, if_neg h]
      exact ⟨hh, rfl⟩

theorem drain_nil {n : Nat} (h : (drain size buf tail n head).1 = []) :
    (drain size buf tail n head).2 = head := by
  cases n with
  | zero => rfl
  | succ n =>
    rw [drain] at h ⊢
    split at h
    · cases h
    · rename_i hn
      rw [if_neg hn]

theorem fill_spec (buf : Nat → α) (hh : head < size) (ht : tail < size) (as : List α) :
    (fill size head as buf tail).2.2 < size ∧
      contents size head (fill size head as buf tail).2.2 (fill size head as buf tail).2.1 =
        contents size head tail buf ++ (fill size head as buf tail).1 := by
  induction as generalizing buf tail with
  | nil => exact ⟨ht, (List.append_nil _).symm⟩
  | cons a as ih =>
    by_cases h : next size tail ≠ head
    · obtain ⟨h1, h2⟩ := @ih (next size tail) (Function.update buf tail a) (next_lt (by omega) tail)
      rw [fill, if_pos h]
      refine ⟨h1, ?_⟩
      rw [h2, contents_push hh ht h, List.append_assoc]
      rfl
    · rw [fill, if_neg h]
      exact ⟨ht, (List.append_nil _).symm⟩

theorem fill_nil {as : List α} (h : (fill size head as buf tail).1 = []) :
    (fill size head as buf tail).2 = (buf, tail) := by
  cases as with
  | nil => rfl
  | cons a as =>
    rw [fill] at h ⊢
    split at h
    · cases h
    · rename_i hn
      rw [if_neg hn]

end Ring
