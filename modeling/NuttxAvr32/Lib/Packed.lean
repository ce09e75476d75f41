import Mathlib.Algebra.Ring.Nat
import Mathlib.Logic.Function.Basic

/-! # Packed elements of 12 bits

Two elements lie in three bytes, the low bits first: the byte in the middle holds the high half
of the first and the low half of the second.
-/

namespace Packed

def start (i : Nat) : Nat := i * 3 / 2

/-- The element in the 16 bits of its two bytes. -/
def pick (i n : Nat) : Nat := if i % 2 ≠ 0 then n / 2 ^ 4 else n % 2 ^ 12

def get (b : Nat → UInt8) (i : Nat) : Nat :=
  pick i ((b (start i)).toNat + (b (start i + 1)).toNat * 2 ^ 8)

theorem get_lt (b : Nat → UInt8) (i : Nat) : get b i < 2 ^ 12 := by
  have h0 := (b (start i)).toNat_lt
  have h1 := (b (start i + 1)).toNat_lt
  unfold get pick
  split <;> omega

/-- The byte with the low bits of an element, from the byte that was there. -/
def low (i v b : Nat) : Nat := if i % 2 ≠ 0 then b % 2 ^ 4 + v * 2 ^ 4 else v

def high (i v b : Nat) : Nat := if i % 2 ≠ 0 then v / 2 ^ 4 else b / 2 ^ 4 * 2 ^ 4 + v / 2 ^ 8 % 2 ^ 4

/-- The bytes after an element was put, as far as its two bytes tell. -/
structure Put (b b' : Nat → UInt8) (i v : Nat) : Prop where
  low : (b' (start i)).toNat = low i v (b (start i)).toNat % 2 ^ 8
  high : (b' (start i + 1)).toNat = high i v (b (start i + 1)).toNat % 2 ^ 8

variable {b b' : Nat → UInt8} {i j v : Nat}

theorem get_put_self (h : Put b b' i v) : get b' i = v % 2 ^ 12 := by
  have hlow := h.low
  have hhigh := h.high
  have hb := (b (start i)).toNat_lt
  unfold get
  rw [hlow, hhigh]
  unfold pick Packed.low Packed.high
  by_cases hi : i % 2 ≠ 0
  · simp only [if_pos hi]
    omega
  · simp only [if_neg hi]
    omega

theorem get_put_of_ne (h : Put b b' i v) (hne : j ≠ i)
    (hsame : ∀ k, k ≠ start i → k ≠ start i + 1 → (k = start j ∨ k = start j + 1) → b' k = b k) :
    get b' j = get b j := by
  have hlow := h.low
  have hhigh := h.high
  have hj := hsame (start j)
  have hj' := hsame (start j + 1)
  have hb := (b (start i)).toNat_lt
  have hb' := (b (start i + 1)).toNat_lt
  unfold get
  by_cases hij : start j = start i + 1
  · -- the second of two that share a byte
    have hparity : ¬ i % 2 ≠ 0 ∧ j % 2 ≠ 0 := by
      unfold start at hij
      omega
    have hnext := hj' (by omega) (by omega) (.inr rfl)
    rw [hnext, hij, hhigh]
    unfold pick Packed.high
    rw [if_pos hparity.2, if_pos hparity.2, if_neg hparity.1]
    omega
  · by_cases hji : start j + 1 = start i
    · have hparity : i % 2 ≠ 0 ∧ ¬ j % 2 ≠ 0 := by
        unfold start at hji
        omega
      have hfirst := hj (by omega) (by omega) (.inl rfl)
      rw [hfirst, hji, hlow]
      unfold pick Packed.low
      rw [if_neg hparity.2, if_neg hparity.2, if_pos hparity.1]
      omega
    · have hapart : start j ≠ start i := by
        unfold start at hij hji ⊢
        omega
      rw [hj hapart hij (.inl rfl), hj' hji (by omega) (.inr rfl)]

end Packed
