import Mathlib.Logic.Equiv.Basic
import Mathlib.Tactic.Common

/-! # Rearranging a range of an array

An array is the function of its cells. A program that only exchanges cells of a range rearranges
that range, and whatever holds of all its cells still does.
-/

namespace NuttxAvr32

variable {α : Type} {a b c : Nat → α} {lo hi i j n : Nat}

def swap (a : Nat → α) (i j : Nat) : Nat → α := a ∘ Equiv.swap i j

theorem swap_apply (a : Nat → α) (i j k : Nat) :
    swap a i j k = if k = i then a j else if k = j then a i else a k := by
  unfold swap
  rw [Function.comp_apply, Equiv.swap_apply_def]
  split_ifs <;> rfl

theorem swap_other (a : Nat → α) {k : Nat} (hi : k ≠ i) (hj : k ≠ j) : swap a i j k = a k := by
  rw [swap_apply, if_neg hi, if_neg hj]

/-- The cells `lo ≤ k < hi` of `a` in another order, with all other cells unchanged. -/
def Rearranged (a b : Nat → α) (lo hi : Nat) : Prop :=
  ∃ p : Equiv.Perm Nat, (∀ k, k < lo ∨ hi ≤ k → p k = k) ∧ b = a ∘ p

namespace Rearranged

theorem refl (a : Nat → α) (lo hi : Nat) : Rearranged a a lo hi :=
  ⟨.refl _, fun _ _ => rfl, rfl⟩

theorem trans (h : Rearranged a b lo hi) (h' : Rearranged b c lo hi) : Rearranged a c lo hi := by
  obtain ⟨p, hp, rfl⟩ := h
  obtain ⟨q, hq, rfl⟩ := h'
  refine ⟨q.trans p, fun k hk => ?_, rfl⟩
  rw [Equiv.trans_apply, hq k hk, hp k hk]

theorem mono {lo' hi' : Nat} (h : Rearranged a b lo hi) (hlo : lo' ≤ lo) (hhi : hi ≤ hi') :
    Rearranged a b lo' hi' := by
  obtain ⟨p, hp, rfl⟩ := h
  exact ⟨p, fun k hk => hp k (by omega), rfl⟩

theorem swap (a : Nat → α) (hi₁ : lo ≤ i) (hi₂ : i < hi) (hj₁ : lo ≤ j) (hj₂ : j < hi) :
    Rearranged a (swap a i j) lo hi := by
  refine ⟨Equiv.swap i j, fun k hk => ?_, rfl⟩
  exact Equiv.swap_apply_of_ne_of_ne (by omega) (by omega)

theorem outside (h : Rearranged a b lo hi) {k : Nat} (hk : k < lo ∨ hi ≤ k) : b k = a k := by
  obtain ⟨p, hp, rfl⟩ := h
  rw [Function.comp_apply, hp k hk]

/-- The permutation fixes every cell outside, so it maps the range to itself. -/
theorem forall_inside (h : Rearranged a b lo hi) {P : α → Prop}
    (ha : ∀ k, lo ≤ k → k < hi → P (a k)) : ∀ k, lo ≤ k → k < hi → P (b k) := by
  obtain ⟨p, hp, rfl⟩ := h
  intro k hk hk'
  have hin : lo ≤ p k ∧ p k < hi := by
    by_contra hout
    have hfix := p.injective (hp (p k) (by omega))
    omega
  exact ha (p k) hin.1 hin.2

end Rearranged

end NuttxAvr32
