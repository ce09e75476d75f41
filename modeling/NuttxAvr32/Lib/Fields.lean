import Mathlib.Algebra.Ring.Nat

/-! # Fields of a number

`field n lo w` is what the `w` bits of `n` from bit `lo` on stand for.
-/

namespace Fields

def field (n lo w : Nat) : Nat := n / 2 ^ lo % 2 ^ w

variable {n l w s k m x y : Nat}

theorem field_lt : field n l w < 2 ^ w := Nat.mod_lt _ (Nat.two_pow_pos w)

theorem field_field (h : s + k ≤ w) : field (field n l w) s k = field n (l + s) k := by
  have hw : 2 ^ w = 2 ^ s * 2 ^ (w - s) := by rw [← Nat.pow_add, Nat.add_sub_cancel' (by omega)]
  have hdvd : 2 ^ k ∣ 2 ^ (w - s) := Nat.pow_dvd_pow 2 (by omega)
  unfold field
  rw [hw, Nat.mod_mul_right_div_self, Nat.mod_mod_of_dvd _ hdvd, Nat.div_div_eq_div_mul,
    ← Nat.pow_add]

theorem field_append : field n l (m + k) = field n (l + m) k * 2 ^ m + field n l m := by
  unfold field
  rw [Nat.pow_add, Nat.mod_mul, Nat.div_div_eq_div_mul, ← Nat.pow_add, Nat.add_comm,
    Nat.mul_comm]

theorem shiftRight_and : x >>> s &&& (2 ^ k - 1) = field x s k := by
  rw [Nat.shiftRight_eq_div_pow, Nat.and_two_pow_sub_one_eq_mod]
  rfl

theorem field_shiftRight : field n l (s + k) >>> s = field n (l + s) k := by
  have hlt : field n l (s + k) / 2 ^ s < 2 ^ k := by
    rw [Nat.div_lt_iff_lt_mul (Nat.two_pow_pos s), Nat.mul_comm, ← Nat.pow_add]
    exact field_lt
  rw [Nat.shiftRight_eq_div_pow, ← field_field (Nat.le_refl (s + k))]
  exact (Nat.mod_eq_of_lt hlt).symm

theorem shiftLeft_or (h : y < 2 ^ m) : x <<< m ||| y = x * 2 ^ m + y := by
  rw [← Nat.shiftLeft_add_eq_or_of_lt h, Nat.shiftLeft_eq]

end Fields
