import Mathlib.Tactic.DeriveFintype

/-! # The civil calendar

Dates of the Gregorian calendar from 1970 on, and their day numbers. Months and days count
from one.
-/

namespace Civil

def isLeap (year : ℕ) : Bool := year % 4 == 0 && (year % 100 != 0 || year % 400 == 0)

def monthLength (leap : Bool) (month : ℕ) : ℕ :=
  match month with
  | 2 => if leap then 29 else 28
  | 4 | 6 | 9 | 11 => 30
  | _ => 31

def beforeMonth (leap : Bool) : ℕ → ℕ
  | 0 => 0
  | months + 1 => beforeMonth leap months + monthLength leap (months + 1)

def beforeYear : ℕ → ℕ
  | 0 => 0
  | years + 1 => beforeYear years + beforeMonth (isLeap (1970 + years)) 12

structure Date where
  year : ℕ
  month : ℕ
  day : ℕ
  epoch : 1970 ≤ year
  month_mem : 1 ≤ month ∧ month ≤ 12
  day_mem : 1 ≤ day ∧ day ≤ monthLength (isLeap year) month

def Date.number (c : Date) : ℕ :=
  beforeYear (c.year - 1970) + beforeMonth (isLeap c.year) (c.month - 1) + (c.day - 1)

variable {month : ℕ}

theorem isLeap_eq_true_iff (year : ℕ) :
    isLeap year = true ↔ year % 4 = 0 ∧ (year % 100 ≠ 0 ∨ year % 400 = 0) := by
  simp [isLeap]

theorem beforeMonth_twelve (leap : Bool) : beforeMonth leap 12 = 365 + leap.toNat := by
  cases leap <;> rfl

theorem isLeap_count (year : ℕ) :
    (isLeap (year + 1)).toNat + (year + 1) / 100 + year / 4 + year / 400 =
      year / 100 + (year + 1) / 4 + (year + 1) / 400 := by
  have hleap := isLeap_eq_true_iff (year + 1)
  simp only [Nat.succ_div]
  cases h : isLeap (year + 1) with
  | true =>
      have hyear := hleap.mp h
      rw [Bool.toNat_true]
      split_ifs <;> omega
  | false =>
      have hyear := mt hleap.mpr (by simp [h])
      rw [Bool.toNat_false]
      split_ifs <;> omega

theorem beforeYear_eq (years : ℕ) :
    beforeYear years + (1969 + years) / 100 + 477 =
      365 * years + (1969 + years) / 4 + (1969 + years) / 400 := by
  induction years with
  | zero => rfl
  | succ years ih =>
      have hyear : 1970 + years = 1969 + years + 1 := Nat.add_right_comm 1969 1 years
      have hcount := isLeap_count (1969 + years)
      rw [beforeYear, beforeMonth_twelve, hyear, ← Nat.add_assoc 1969]
      generalize (isLeap (1969 + years + 1)).toNat = extra at hcount ⊢
      generalize beforeYear years = before at ih ⊢
      omega

theorem le_beforeYear (years : ℕ) : 365 * years ≤ beforeYear years := by
  induction years with
  | zero => rfl
  | succ years ih =>
      rw [beforeYear, beforeMonth_twelve]
      omega

theorem beforeMonth_add_lt (leap : Bool) (h1 : 1 ≤ month) (h12 : month ≤ 12) :
    beforeMonth leap (month - 1) + monthLength leap month ≤ beforeMonth leap 12 := by
  have hall : ∀ leap : Bool, ∀ month < 13, 1 ≤ month →
      beforeMonth leap (month - 1) + monthLength leap month ≤ beforeMonth leap 12 := by decide
  exact hall leap month (by omega) h1

theorem Date.number_lt (c : Date) :
    beforeMonth (isLeap c.year) (c.month - 1) + (c.day - 1) < beforeMonth (isLeap c.year) 12 := by
  have hle := beforeMonth_add_lt (isLeap c.year) c.month_mem.1 c.month_mem.2
  have hday := c.day_mem
  omega

end Civil
