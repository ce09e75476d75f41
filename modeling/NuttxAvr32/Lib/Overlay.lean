import Mathlib.Data.List.Basic

/-! # Writing a list over a function

`overlay base data f` is the storage `f` after `data` was written from position `base` on,
and `window f base n` is what a read of `n` positions returns.
-/

namespace Overlay

universe u

variable {α : Type u} {f g : Nat → α} {base n : Nat} {data xs ys : List α}

def overlay (base : Nat) (data : List α) (f : Nat → α) : Nat → α :=
  fun a => if base ≤ a then (data[a - base]?).getD (f a) else f a

def window (f : Nat → α) (base n : Nat) : List α := (List.range n).map fun i => f (base + i)

@[simp] theorem length_window : (window f base n).length = n := by
  simp [window]

theorem overlay_of_outside {a : Nat} (h : a < base ∨ base + data.length ≤ a) :
    overlay base data f a = f a := by
  unfold overlay
  split
  · have hl : data.length ≤ a - base := by omega
    rw [List.getElem?_eq_none hl]
    rfl
  · rfl

theorem overlay_of_mem {i : Nat} (h : i < data.length) :
    overlay base data f (base + i) = data[i] := by
  have hi : base + i - base = i := by omega
  simp only [overlay, if_pos (Nat.le_add_right base i), hi, List.getElem?_eq_getElem h,
    Option.getD_some]

@[simp] theorem overlay_nil : overlay base [] f = f := by
  funext a
  exact overlay_of_outside (by simp only [List.length_nil]; omega)

theorem overlay_eq_of (hin : ∀ i (h : i < data.length), g (base + i) = data[i])
    (hout : ∀ a, a < base ∨ base + data.length ≤ a → g a = f a) : overlay base data f = g := by
  funext a
  by_cases h : a < base ∨ base + data.length ≤ a
  · rw [overlay_of_outside h, hout a h]
  · obtain ⟨i, rfl⟩ := Nat.exists_eq_add_of_le (show base ≤ a by omega)
    have hi : i < data.length := by omega
    rw [overlay_of_mem hi, hin i hi]

theorem overlay_append :
    overlay (base + xs.length) ys (overlay base xs f) = overlay base (xs ++ ys) f := by
  symm
  apply overlay_eq_of
  · intro i hi
    by_cases hx : i < xs.length
    · rw [overlay_of_outside (by omega), overlay_of_mem hx, List.getElem_append_left hx]
    · have hi' : i - xs.length < ys.length := by
        rw [List.length_append] at hi
        omega
      have he : base + i = base + xs.length + (i - xs.length) := by omega
      rw [he, overlay_of_mem hi', List.getElem_append_right (by omega)]
  · intro a ha
    rw [List.length_append] at ha
    rw [overlay_of_outside (by omega), overlay_of_outside (by omega)]

theorem overlay_take_drop (n : Nat) :
    overlay (base + n) (data.drop n) (overlay base (data.take n) f) = overlay base data f := by
  by_cases h : n ≤ data.length
  · have hl : (data.take n).length = n := List.length_take_of_le h
    have ha : overlay (base + (data.take n).length) (data.drop n)
        (overlay base (data.take n) f) = overlay base (data.take n ++ data.drop n) f :=
      overlay_append
    rw [hl, List.take_append_drop] at ha
    exact ha
  · rw [List.drop_eq_nil_of_le (by omega), List.take_of_length_le (by omega), overlay_nil]

theorem overlay_hides (hl : xs.length = ys.length) :
    overlay base ys (overlay base xs f) = overlay base ys f := by
  apply overlay_eq_of
  · intro i hi
    rw [overlay_of_mem hi]
  · intro a ha
    rw [overlay_of_outside ha, overlay_of_outside (by omega)]

theorem window_overlay (hl : data.length = n) : window (overlay base data f) base n = data := by
  apply List.ext_getElem
  · rw [length_window, hl]
  · intro i _ hi
    simp only [window, List.getElem_map, List.getElem_range]
    exact overlay_of_mem hi

theorem window_append {m : Nat} :
    window f base (n + m) = window f base n ++ window f (base + n) m := by
  rw [window, List.range_add, List.map_append, List.map_map, window, window]
  congr 1
  apply List.map_congr_left
  intro i _
  simp only [Function.comp_apply, Nat.add_assoc]

theorem window_overlay_append :
    window (overlay (base + n) data f) base (n + data.length) = window f base n ++ data := by
  apply List.ext_getElem
  · simp
  · intro i hi _
    rw [length_window] at hi
    simp only [window, List.getElem_map, List.getElem_range]
    by_cases h : i < n
    · rw [overlay_of_outside (by omega), List.getElem_append_left (by simpa using h)]
      simp
    · have he : base + i = base + n + (i - n) := by omega
      rw [he, overlay_of_mem (show i - n < data.length by omega),
        List.getElem_append_right (by simpa using h)]
      simp

theorem overlay_window_patch {off : Nat} (h : off + data.length ≤ n) :
    overlay base ((window f base n).take off ++ data ++
      (window f base n).drop (off + data.length)) f = overlay (base + off) data f := by
  have hlen : ((window f base n).take off ++ data ++
      (window f base n).drop (off + data.length)).length = n := by
    simp only [List.length_append, List.length_take, List.length_drop, length_window]
    omega
  have hoff : ((window f base n).take off).length = off := by
    rw [List.length_take, length_window]
    omega
  apply overlay_eq_of
  · intro i hi
    rw [hlen] at hi
    rcases Nat.lt_or_ge i off with h1 | h1
    · rw [overlay_of_outside (by omega), List.getElem_append_left (by
        rw [List.length_append, hoff]
        omega), List.getElem_append_left (by omega)]
      simp [window]
    · rcases Nat.lt_or_ge i (off + data.length) with h2 | h2
      · have he : base + i = base + off + (i - off) := by omega
        have hd : i - off < data.length := by omega
        rw [he, overlay_of_mem hd, List.getElem_append_left (by
          rw [List.length_append, hoff]
          omega), List.getElem_append_right (by omega)]
        simp only [hoff]
      · rw [overlay_of_outside (by omega), List.getElem_append_right (by
          rw [List.length_append, hoff]
          omega)]
        have he : off + data.length +
            (i - ((window f base n).take off ++ data).length) = i := by
          rw [List.length_append, hoff]
          omega
        simp only [List.getElem_drop, he]
        simp only [window, List.getElem_map, List.getElem_range]
  · intro a ha
    rw [hlen] at ha
    exact overlay_of_outside (by omega)

theorem overlay_window_overlay {off : Nat} (h : off + data.length ≤ n) :
    overlay base (window (overlay off data g) 0 n) f =
      overlay (base + off) data (overlay base (window g 0 n) f) := by
  apply overlay_eq_of
  · intro i hi
    rw [length_window] at hi
    simp only [window, List.getElem_map, List.getElem_range, Nat.zero_add]
    by_cases hd : i < off ∨ off + data.length ≤ i
    · rw [overlay_of_outside (by omega), overlay_of_outside hd, overlay_of_mem (by simpa using hi)]
      simp
    · obtain ⟨j, rfl⟩ := Nat.exists_eq_add_of_le (show off ≤ i by omega)
      have hj : j < data.length := by omega
      rw [← Nat.add_assoc, overlay_of_mem hj, overlay_of_mem hj]
  · intro a ha
    rw [length_window] at ha
    rw [overlay_of_outside (by omega), overlay_of_outside (by rw [length_window]; exact ha)]

theorem overlay_window_of (h : ∀ i < n, g i = f (base + i)) :
    overlay base (window g 0 n) f = f := by
  apply overlay_eq_of
  · intro i hi
    rw [length_window] at hi
    simp only [window, List.getElem_map, List.getElem_range, Nat.zero_add]
    exact (h i hi).symm
  · exact fun _ _ => rfl

theorem overlay_window_apply {c i : Nat} (h : i < n) : overlay 0 (window f c n) g i = f (c + i) := by
  have hw : overlay 0 (window f c n) g (0 + i) = (window f c n).get ⟨i, by simpa using h⟩ :=
    overlay_of_mem (by simpa using h)
  rw [Nat.zero_add] at hw
  rw [hw]
  simp [window]

theorem window_congr {c : Nat} (h : ∀ i < n, f (base + i) = g (c + i)) :
    window f base n = window g c n := by
  apply List.map_congr_left
  intro i hi
  exact h i (List.mem_range.mp hi)

end Overlay
