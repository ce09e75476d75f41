import Mathlib.Tactic.Ring

/-! # Little-endian numbers in a storage of bytes

`value n p i` is the number that the `n` bytes of the storage `p` from position `i` on spell,
least significant byte first.
-/

namespace LittleEndian

variable {n i v w : Nat} {p p' : Nat → UInt8}

def value : Nat → (Nat → UInt8) → Nat → Nat
  | 0, _, _ => 0
  | n + 1, p, i => (p i).toNat + 256 * value n p (i + 1)

def Spells (n : Nat) (p : Nat → UInt8) (i v : Nat) : Prop :=
  v < 256 ^ n ∧ ∀ j < n, (p (i + j)).toNat = v / 256 ^ j % 256

theorem spells_zero_iff : Spells 0 p i v ↔ v = 0 := by
  unfold Spells
  constructor
  · intro h
    have := h.1
    rw [pow_zero] at this
    omega
  · rintro rfl
    exact ⟨Nat.one_pos, fun j hj => absurd hj (Nat.not_lt_zero j)⟩

theorem spells_succ_iff :
    Spells (n + 1) p i v ↔ (p i).toNat = v % 256 ∧ Spells n p (i + 1) (v / 256) := by
  unfold Spells
  constructor
  · intro ⟨hlt, h⟩
    refine ⟨by simpa using h 0 (Nat.succ_pos n), ?_, fun j hj => ?_⟩
    · rw [pow_succ] at hlt
      exact Nat.div_lt_of_lt_mul (by rwa [Nat.mul_comm])
    · have hj' := h (j + 1) (Nat.succ_lt_succ hj)
      rw [show i + (j + 1) = i + 1 + j by omega, pow_succ', ← Nat.div_div_eq_div_mul] at hj'
      exact hj'
  · intro ⟨h0, hlt, h⟩
    refine ⟨?_, fun j hj => ?_⟩
    · rw [pow_succ]
      exact (Nat.div_lt_iff_lt_mul (by decide)).mp hlt
    · cases j with
      | zero => simpa using h0
      | succ j =>
        have hj' := h j (Nat.lt_of_succ_lt_succ hj)
        rw [show i + 1 + j = i + (j + 1) by omega] at hj'
        rw [hj', pow_succ', Nat.div_div_eq_div_mul]

theorem spells_iff : Spells n p i v ↔ v = value n p i := by
  induction n generalizing i v with
  | zero => exact spells_zero_iff
  | succ n ih =>
    have hb := (p i).toNat_lt
    rw [spells_succ_iff, ih, value]
    omega

theorem value_congr (h : ∀ j < n, p' (i + j) = p (i + j)) : value n p' i = value n p i := by
  induction n generalizing i with
  | zero => rfl
  | succ n ih =>
    have h0 := h 0 (Nat.succ_pos n)
    have hrest : value n p' (i + 1) = value n p (i + 1) := by
      refine ih fun j hj => ?_
      have hj' := h (j + 1) (Nat.succ_lt_succ hj)
      rwa [← Nat.add_assoc, Nat.add_right_comm] at hj'
    rw [value, value, hrest]
    exact congrArg (fun b => UInt8.toNat b + _) h0

end LittleEndian
