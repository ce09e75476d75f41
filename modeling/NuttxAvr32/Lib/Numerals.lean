import Mathlib.Data.Nat.Digits.Defs

/-! # Numerals

The text of a number in a base, the most significant digit first and zero as one digit, and the
three ways in which programs get at it: digit by digit from the end, from a number of digits
that is given with the leading zeros left out, and back from the text.
-/

namespace NuttxAvr32.Numerals

variable {α : Type} {b n k : Nat} {dig : Nat → α}

def numeral (dig : Nat → α) (b n : Nat) : List α :=
  if n = 0 then [dig 0] else (b.digits n).reverse.map dig

theorem numeral_ne_nil (dig : Nat → α) (b n : Nat) : numeral dig b n ≠ [] := by
  unfold numeral
  split
  · exact List.cons_ne_nil _ _
  · rename_i h
    intro he
    have hd : b.digits n = [] := by simpa using he
    exact h (Nat.digits_eq_nil_iff_eq_zero.mp hd)

theorem numeral_of_lt (h : n < b) : numeral dig b n = [dig n] := by
  unfold numeral
  split
  · rename_i h0
    rw [h0]
  · rename_i h0
    rw [Nat.digits_of_lt b n h0 h]
    rfl

theorem numeral_step (hb : 1 < b) (h : b ≤ n) :
    numeral dig b n = numeral dig b (n / b) ++ [dig (n % b)] := by
  have hdiv : n / b ≠ 0 := by
    have := Nat.div_pos h (by omega)
    omega
  unfold numeral
  rw [if_neg (by omega), if_neg hdiv, Nat.digits_def' hb (by omega), List.reverse_cons,
    List.map_append]
  rfl

theorem numeral_mem (hb : 1 < b) {x : α} (h : x ∈ numeral dig b n) : ∃ d < b, x = dig d := by
  unfold numeral at h
  split at h
  · exact ⟨0, by omega, List.mem_singleton.mp h⟩
  · obtain ⟨d, hd, rfl⟩ := List.mem_map.mp h
    exact ⟨d, Nat.digits_lt_base hb (List.mem_reverse.mp hd), rfl⟩

/-- The digits of the remainder by a power, from the highest on, without the leading zeros until
`nonzero`. -/
def scan (dig : Nat → α) (b n : Nat) : Nat → Bool → List α
  | 0, nonzero => if nonzero then [] else [dig 0]
  | k + 1, nonzero =>
    let d := n / b ^ k % b
    if d ≠ 0 ∨ nonzero then dig d :: scan dig b n k true else scan dig b n k false

def padded (dig : Nat → α) (b n : Nat) : Nat → List α
  | 0 => []
  | k + 1 => dig (n / b ^ k % b) :: padded dig b n k

theorem scan_true (dig : Nat → α) (b n k : Nat) : scan dig b n k true = padded dig b n k := by
  induction k with
  | zero => rfl
  | succ k ih =>
    unfold scan padded
    rw [if_pos (.inr rfl), ih]

theorem padded_step (dig : Nat → α) (b n k : Nat) :
    padded dig b n (k + 1) = padded dig b (n / b) k ++ [dig (n % b)] := by
  induction k with
  | zero =>
    unfold padded
    rw [pow_zero, Nat.div_one]
    rfl
  | succ k ih =>
    rw [padded, ih, padded, pow_succ', Nat.div_div_eq_div_mul]
    rfl

theorem numeral_padded (hb : 1 < b) (h : b ^ k ≤ n) (h' : n < b ^ (k + 1)) :
    numeral dig b n = padded dig b n (k + 1) := by
  induction k generalizing n with
  | zero =>
    rw [numeral_of_lt (by simpa using h')]
    unfold padded
    rw [pow_zero, Nat.div_one, Nat.mod_eq_of_lt (by simpa using h')]
    rfl
  | succ k ih =>
    have hbk : b ≤ n := (Nat.le_self_pow (by omega) b).trans h
    rw [numeral_step hb hbk, padded_step]
    rw [ih ((Nat.le_div_iff_mul_le (by omega)).mpr (by rw [← pow_succ]; exact h))]
    rw [Nat.div_lt_iff_lt_mul (by omega), ← pow_succ]
    exact h'

theorem scan_false (hb : 1 < b) (h : n < b ^ k) : scan dig b n k false = numeral dig b n := by
  induction k with
  | zero =>
    have h0 : n = 0 := by simpa using h
    rw [h0]
    rfl
  | succ k ih =>
    unfold scan
    have hlt : n / b ^ k < b := by
      rw [Nat.div_lt_iff_lt_mul (Nat.pow_pos (by omega)), ← pow_succ']
      exact h
    by_cases hk : n < b ^ k
    · have hd : n / b ^ k % b = 0 := by rw [Nat.div_eq_of_lt hk, Nat.zero_mod]
      rw [if_neg (by simp [hd]), ih hk]
    · have hpos : 0 < n / b ^ k := Nat.div_pos (by omega) (Nat.pow_pos (by omega))
      have hd : n / b ^ k % b ≠ 0 := by
        rw [Nat.mod_eq_of_lt hlt]
        omega
      rw [if_pos (.inl hd), numeral_padded hb (by omega) h, scan_true]
      rfl

def value (val : α → Nat) (b : Nat) (l : List α) : Nat := l.foldl (fun acc x => acc * b + val x) 0

theorem value_concat (val : α → Nat) (b : Nat) (l : List α) (x : α) :
    value val b (l ++ [x]) = value val b l * b + val x := by
  unfold value
  rw [List.foldl_append]
  rfl

theorem value_numeral {val : α → Nat} (hb : 1 < b) (hval : ∀ d < b, val (dig d) = d) (n : Nat) :
    value val b (numeral dig b n) = n := by
  induction n using Nat.strong_induction_on with
  | _ n ih =>
    by_cases h : n < b
    · rw [numeral_of_lt h]
      show 0 * b + val (dig n) = n
      rw [hval n h]
      omega
    · rw [numeral_step hb (by omega), value_concat, ih (n / b) (Nat.div_lt_self (by omega) hb),
        hval _ (Nat.mod_lt _ (by omega))]
      exact Nat.div_add_mod' n b

end NuttxAvr32.Numerals
