import Mathlib.Data.List.Nodup

/-! # Counting in a list

How a count changes when a property changes at one element.
-/

namespace Counting

universe u

variable {α : Type u} {l : List α} {p q : α → Bool} {x : α}

theorem countP_lose (hl : l.Nodup) (hx : x ∈ l) (hp : p x = true) (hq : q x = false)
    (h : ∀ y ∈ l, y ≠ x → q y = p y) : l.countP q + 1 = l.countP p := by
  induction l with
  | nil => cases hx
  | cons y l ih =>
      obtain ⟨hy, hl⟩ := List.nodup_cons.mp hl
      rw [List.countP_cons, List.countP_cons]
      by_cases hyx : y = x
      · have hrest : l.countP q = l.countP p := by
          refine List.countP_congr fun z hz => ?_
          have hzx : z ≠ x := by
            intro hzx
            exact hy (hyx ▸ hzx ▸ hz)
          rw [h z (List.mem_cons_of_mem y hz) hzx]
        rw [hyx, hp, hq, hrest]
        rfl
      · have hsame := h y List.mem_cons_self hyx
        have hmem : x ∈ l := (List.mem_cons.mp hx).resolve_left (Ne.symm hyx)
        have hless := ih hl hmem fun z hz => h z (List.mem_cons_of_mem y hz)
        rw [hsame]
        omega

end Counting
