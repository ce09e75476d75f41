import Mathlib.Algebra.Order.Field.Basic
import Mathlib.Tactic.FieldSimp
import Mathlib.Tactic.Linarith
import Mathlib.Tactic.Ring

/-! # Fixed-point arithmetic

The functions that stand in for 64-bit arithmetic on numbers with 16 fraction bits. The signed ones
take absolute values, go through the unsigned ones, and put the sign back.
-/

namespace NuttxAvr32.Fixedmath

def b16MAX : Int := 2 ^ 31 - 1

def b16MIN : Int := -2 ^ 31

def ub16MAX : Nat := 2 ^ 32 - 1

def b16HALF : Nat := 2 ^ 15

def toB16 (n : Nat) : Int := if n < 2 ^ 31 then n else n - 2 ^ 32

def toUb16 (a : Int) : Nat := (a % 2 ^ 32).toNat

def neg (a : Int) : Int := toB16 (toUb16 (-a))

def fixsign (arg1 arg2 : Int) : Int × Int × Bool :=
  let r1 := if arg1 < 0 then (neg arg1, true) else (arg1, false)
  let r2 := if arg2 < 0 then (neg arg2, !r1.2) else (arg2, r1.2)
  (r1.1, r2.1, r2.2)

def adjustsign (result : Int) (negate : Bool) : Int :=
  if result < 0 then
    if result ≠ 0 then b16MIN else b16MAX
  else if negate then neg result
  else result

def ub16mulub16 (m1 m2 : Nat) : Nat :=
  let m1i := m1 / 2 ^ 16
  let m2i := m1 / 2 ^ 16
  let m1f := m1 % 2 ^ 16
  let m2f := m2 % 2 ^ 16
  (m1i * m2i * 2 ^ 16 + m1i * m2f + m2i * m1f + (m1f * m2f + b16HALF) % 2 ^ 32 / 2 ^ 16) % 2 ^ 32

def b16mulb16 (m1 m2 : Int) : Int :=
  let r := fixsign m1 m2
  let product := toB16 (ub16mulub16 (toUb16 r.1) (toUb16 r.2.1))
  adjustsign product r.2.2

def ub16sqr (a : Nat) : Nat :=
  let mi := a / 2 ^ 16
  let mf := a % 2 ^ 16
  (mi * mi * 2 ^ 16 + mi * mf * 2 + (mf * mf + b16HALF) % 2 ^ 32 / 2 ^ 16) % 2 ^ 32

def b16sqr (a : Int) : Int :=
  let a := if a < 0 then neg a else a
  let sq := toB16 (ub16sqr (toUb16 a))
  if sq < 0 then b16MAX else sq

/-- The numerator without its fraction bits is divided first, and then what is left of it. -/
def ub16divub16 (num denom : Nat) : Nat :=
  let term1 := num / 2 ^ 16 * 2 ^ 16 / denom
  if 2 ^ 16 ≤ term1 then ub16MAX
  else
    let numf := num - term1 * denom
    let product := (term1 * 2 ^ 16 + (numf + denom / 2) % 2 ^ 32 / denom) % 2 ^ 32
    if product < term1 * 2 ^ 16 then ub16MAX else product

def b16divb16 (num denom : Int) : Int :=
  let r := fixsign num denom
  let quotient := toB16 (ub16divub16 (toUb16 r.1) (toUb16 r.2.1))
  adjustsign quotient r.2.2

inductive Op
  | ub16mulub16
  | b16mulb16
  | ub16sqr
  | b16sqr
  | ub16divub16
  | b16divb16
deriving DecidableEq

def Op.least : Op → Int
  | .ub16mulub16 | .ub16sqr | .ub16divub16 => 0
  | .b16mulb16 | .b16sqr | .b16divb16 => b16MIN

def Op.greatest : Op → Int
  | .ub16mulub16 | .ub16sqr | .ub16divub16 => ub16MAX
  | .b16mulb16 | .b16sqr | .b16divb16 => b16MAX

def Op.run : Op → Int → Int → Int
  | .ub16mulub16, x, y => Fixedmath.ub16mulub16 x.toNat y.toNat
  | .b16mulb16, x, y => Fixedmath.b16mulb16 x y
  | .ub16sqr, x, _ => Fixedmath.ub16sqr x.toNat
  | .b16sqr, x, _ => Fixedmath.b16sqr x
  | .ub16divub16, x, y => Fixedmath.ub16divub16 x.toNat y.toNat
  | .b16divb16, x, y => Fixedmath.b16divb16 x y

def number (a : Int) : ℚ := a / 2 ^ 16

def Op.exact : Op → Int → Int → ℚ
  | .ub16mulub16, x, y | .b16mulb16, x, y => number x * number y
  | .ub16sqr, x, _ | .b16sqr, x, _ => number x * number x
  | .ub16divub16, x, y | .b16divb16, x, y => number x / number y

/-- A product is rounded to nearest; a quotient is less exact. -/
def Op.error : Op → ℚ
  | .ub16mulub16 | .b16mulb16 | .ub16sqr | .b16sqr => 1 / 2 ^ 17
  | .ub16divub16 | .b16divb16 => 1 / 2 ^ 16

/-- A result in range is returned with its sign and up to the error; one that is out of range is
reported by its sign. -/
def Right (op : Op) (x y r : Int) : Prop :=
  if number op.least ≤ op.exact x y ∧ op.exact x y ≤ number op.greatest then
    |number r - op.exact x y| ≤ op.error ∧ (0 ≤ op.exact x y → 0 ≤ r) ∧
      (op.exact x y ≤ 0 → r ≤ 0)
  else r = if op.exact x y < 0 then op.least else op.greatest

/-- The operands of a function; a quotient has a divisor that is not zero. -/
def Operands (op : Op) (x y : Int) : Prop :=
  (op.least ≤ x ∧ x ≤ op.greatest) ∧ (op.least ≤ y ∧ y ≤ op.greatest) ∧
    ((op = .ub16divub16 ∨ op = .b16divb16) → y ≠ 0)

/-- What the wrong integer part adds to a product: the product of the difference of the integer
parts and the first factor. -/
def slip (m1 m2 : Int) : Int := (m1 / 2 ^ 16 - m2 / 2 ^ 16) * m1

/-- A product of 32-bit numbers with its last 16 bits rounded off. -/
def rounded (p : Int) : Int := (p + 2 ^ 15) / 2 ^ 16

/-- What is added to the product is lost in 32 bits, or rounds a half the other way. -/
def Harmless (p d : Int) : Prop :=
  2 ^ 32 ∣ d ∨ (p % 2 ^ 16 = 2 ^ 15 ∧ 2 ^ 32 ∣ d + 1)

/-- The quotient is an integer `k`, or less than 2^-16 above it, and the fraction bits of the
numerator do not count. -/
def Whole (num denom : Int) : Prop :=
  ∃ k : Int, k * denom ≤ num / 2 ^ 16 * 2 ^ 16 ∧ 2 ^ 16 * (num - k * denom) ≤ denom

def Meets : Op → Int → Int → Prop
  | .ub16mulub16, x, y =>
    if x * y ≤ ub16MAX * 2 ^ 16 then Harmless (x * y) (slip x y)
    else 2 ^ 32 ∣ rounded (x * y) + slip x y + 1
  | .b16mulb16, x, y =>
    let p := |x| * |y|
    let d := slip |x| |y|
    if x * y < 0 then
      if p < 2 ^ 47 - 2 ^ 15 then Harmless p d
      else 2 ^ 31 ≤ (rounded p + d) % 2 ^ 32 ∨ (p = 2 ^ 47 - 2 ^ 15 ∧ 2 ^ 32 ∣ d + 1)
    else if p ≤ b16MAX * 2 ^ 16 then Harmless p d
    else 2 ^ 32 ∣ rounded p + d - b16MAX
  | .ub16sqr, x, _ => x * x ≤ ub16MAX * 2 ^ 16 ∨ 2 ^ 32 ∣ rounded (x * x) + 1
  | .b16sqr, x, _ => x * x ≤ b16MAX * 2 ^ 16 ∨ b16MAX ≤ rounded (x * x) % 2 ^ 32
  | .ub16divub16, x, y => x * 2 ^ 16 ≤ ub16MAX * y → Whole x y
  | .b16divb16, x, y =>
    if x * y < 0 then
      if |x| * 2 ^ 16 ≤ 2 ^ 31 * |y| then Whole |x| |y|
      else 2 ^ 15 * |y| ≤ |x| / 2 ^ 16 * 2 ^ 16
    else |x| * 2 ^ 16 ≤ b16MAX * |y| ∧ Whole |x| |y|

section

variable {op : Op} {x y p r d : Int}

theorem right_product {lo hi : Int} (hlo : op.least = lo) (hhi : op.greatest = hi) (hl : lo ≤ 0)
    (hh : 0 ≤ hi) (he : op.exact x y = p / 2 ^ 32) (herr : op.error = 1 / 2 ^ 17) :
    Right op x y r ↔
      (lo * 2 ^ 16 ≤ p ∧ p ≤ hi * 2 ^ 16 ∧ -2 ^ 15 ≤ r * 2 ^ 16 - p ∧ r * 2 ^ 16 - p ≤ 2 ^ 15) ∨
        (p < lo * 2 ^ 16 ∧ r = lo) ∨ (hi * 2 ^ 16 < p ∧ r = hi) := by
  have hle : ∀ a : Int, number a ≤ op.exact x y ↔ a * 2 ^ 16 ≤ p := by
    intro a
    rw [he, number, div_le_div_iff₀ (by norm_num) (by norm_num)]
    have hcast : (a : ℚ) * 2 ^ 32 ≤ p * 2 ^ 16 ↔ a * 2 ^ 32 ≤ p * 2 ^ 16 := by exact_mod_cast Iff.rfl
    rw [hcast]
    omega
  have hge : ∀ a : Int, op.exact x y ≤ number a ↔ p ≤ a * 2 ^ 16 := by
    intro a
    rw [he, number, div_le_div_iff₀ (by norm_num) (by norm_num)]
    have hcast : (p : ℚ) * 2 ^ 16 ≤ a * 2 ^ 32 ↔ p * 2 ^ 16 ≤ a * 2 ^ 32 := by exact_mod_cast Iff.rfl
    rw [hcast]
    omega
  have hzero : number 0 = 0 := by
    unfold number
    norm_num
  have hpos : 0 ≤ op.exact x y ↔ 0 ≤ p := by
    rw [← hzero, hle]
    omega
  have hneg : op.exact x y ≤ 0 ↔ p ≤ 0 := by
    rw [← hzero, hge]
    omega
  have hdiff : number r - op.exact x y = ((r * 2 ^ 16 - p : Int) : ℚ) / 2 ^ 32 := by
    rw [he, number]
    push_cast
    ring
  have herror : |number r - op.exact x y| ≤ op.error ↔ |r * 2 ^ 16 - p| ≤ 2 ^ 15 := by
    rw [hdiff, herr, abs_div, div_le_div_iff₀ (by positivity) (by norm_num)]
    rw [abs_of_pos (show (0 : ℚ) < 2 ^ 32 by norm_num), ← Int.cast_abs]
    have hcast : ((|r * 2 ^ 16 - p| : Int) : ℚ) * 2 ^ 17 ≤ 1 * 2 ^ 32 ↔
        |r * 2 ^ 16 - p| * 2 ^ 17 ≤ 1 * 2 ^ 32 := by exact_mod_cast Iff.rfl
    rw [hcast]
    omega
  have hlt : op.exact x y < 0 ↔ p < 0 := by rw [← not_le, hpos, not_le]
  simp only [Right, hle, hge, herror, hpos, hneg, hlt, hlo, hhi, abs_le]
  split
  · omega
  · split <;> omega

theorem right_quotient {lo hi : Int} (hlo : op.least = lo) (hhi : op.greatest = hi) (hl : lo ≤ 0)
    (hh : 0 ≤ hi) (hd : 0 < d) (he : op.exact x y = p / d) (herr : op.error = 1 / 2 ^ 16) :
    Right op x y r ↔
      (lo * d ≤ p * 2 ^ 16 ∧ p * 2 ^ 16 ≤ hi * d ∧ -d ≤ r * d - p * 2 ^ 16 ∧
          r * d - p * 2 ^ 16 ≤ d ∧ (0 ≤ p → 0 ≤ r) ∧ (p ≤ 0 → r ≤ 0)) ∨
        (p * 2 ^ 16 < lo * d ∧ r = lo) ∨ (hi * d < p * 2 ^ 16 ∧ r = hi) := by
  have hdq : (0 : ℚ) < d := by exact_mod_cast hd
  have hle : ∀ a : Int, number a ≤ op.exact x y ↔ a * d ≤ p * 2 ^ 16 := by
    intro a
    rw [he, number, div_le_div_iff₀ (by norm_num) hdq]
    exact_mod_cast Iff.rfl
  have hge : ∀ a : Int, op.exact x y ≤ number a ↔ p * 2 ^ 16 ≤ a * d := by
    intro a
    rw [he, number, div_le_div_iff₀ hdq (by norm_num)]
    exact_mod_cast Iff.rfl
  have hpos : 0 ≤ op.exact x y ↔ 0 ≤ p := by
    rw [he, le_div_iff₀ hdq, zero_mul]
    exact_mod_cast Iff.rfl
  have hneg : op.exact x y ≤ 0 ↔ p ≤ 0 := by
    rw [he, div_le_iff₀ hdq, zero_mul]
    exact_mod_cast Iff.rfl
  have hdiff : number r - op.exact x y = ((r * d - p * 2 ^ 16 : Int) : ℚ) / (2 ^ 16 * d) := by
    rw [he, number]
    push_cast
    field_simp
    ring
  have herror : |number r - op.exact x y| ≤ op.error ↔ |r * d - p * 2 ^ 16| ≤ d := by
    rw [hdiff, herr, abs_div, abs_of_pos (show (0 : ℚ) < 2 ^ 16 * d by positivity), ← Int.cast_abs,
      div_le_div_iff₀ (by positivity) (by norm_num), mul_comm, one_mul,
      mul_le_mul_iff_right₀ (by norm_num)]
    exact_mod_cast Iff.rfl
  have hlt : op.exact x y < 0 ↔ p < 0 := by rw [← not_le, hpos, not_le]
  simp only [Right, hle, hge, herror, hpos, hneg, hlt, hlo, hhi, abs_le]
  have hld : lo * d ≤ 0 := mul_nonpos_of_nonpos_of_nonneg hl hd.le
  have hhd : 0 ≤ hi * d := mul_nonneg hh hd.le
  generalize lo * d = ld at hld
  generalize hi * d = hd' at hhd
  split
  · omega
  · split <;> omega

end

section

variable {x y : Int} {m n : Nat}

theorem toUb16_abs (hx : b16MIN ≤ x ∧ x ≤ b16MAX) :
    toUb16 (if x < 0 then neg x else x) = x.natAbs := by
  unfold neg toB16 toUb16
  unfold b16MIN b16MAX at hx
  split
  · split <;> omega
  · omega

theorem fixsign_eq (x y : Int) :
    fixsign x y = (if x < 0 then neg x else x, if y < 0 then neg y else y,
      decide (x < 0) != decide (y < 0)) := by
  unfold fixsign
  by_cases hx : x < 0 <;> by_cases hy : y < 0 <;> simp [hx, hy]

theorem adjustsign_toB16 (hn : n < 2 ^ 32) (negate : Bool) :
    adjustsign (toB16 n) negate =
      if 2 ^ 31 ≤ n then b16MIN else if negate then -(n : Int) else n := by
  have hneg : n < 2 ^ 31 → neg n = -n := by
    intro h
    unfold neg toB16 toUb16
    split <;> omega
  unfold adjustsign
  by_cases h : n < 2 ^ 31
  · have hval : toB16 n = n := if_pos h
    have hpos : ¬ (n : Int) < 0 := by omega
    rw [hval, if_neg hpos, if_neg (not_le.mpr h), hneg h]
  · have hval : toB16 n = n - 2 ^ 32 := if_neg h
    rw [hval, if_pos (by omega), if_pos (by omega), if_pos (by omega)]

theorem halves (n : Nat) : ∃ i f : Nat, n / 2 ^ 16 = i ∧ n % 2 ^ 16 = f ∧
    (n : Int) = i * 2 ^ 16 + f ∧ (n : Int) / 2 ^ 16 = i ∧ f ≤ 2 ^ 16 - 1 :=
  ⟨_, _, rfl, rfl, by omega, by omega, by omega⟩

theorem fractions_round {f g : Nat} (hf : f ≤ 2 ^ 16 - 1) (hg : g ≤ 2 ^ 16 - 1) (whole : Int) :
    rounded (whole * 2 ^ 16 + f * g) =
      whole + ((f * g + b16HALF) % 2 ^ 32 / 2 ^ 16 : Nat) := by
  have hle : f * g ≤ (2 ^ 16 - 1) * (2 ^ 16 - 1) := Nat.mul_le_mul hf hg
  have hhalf : b16HALF = 2 ^ 15 := rfl
  unfold rounded
  rw [hhalf, ← Nat.cast_mul]
  generalize f * g = p at hle
  omega

theorem ub16mulub16_eq (m n : Nat) :
    (ub16mulub16 m n : Int) = (rounded (m * n) + slip m n) % 2 ^ 32 := by
  obtain ⟨a, f, ha, hf, hm, hmi, hf'⟩ := halves m
  obtain ⟨c, g, hc, hg, hn, hni, hg'⟩ := halves n
  have hprod : (m : Int) * n = (a * c * 2 ^ 16 + a * g + c * f : Int) * 2 ^ 16 + f * g := by
    rw [hm, hn]
    ring
  have hslip : slip m n = (a - c) * (a * 2 ^ 16 + f) := by
    unfold slip
    rw [hmi, hni, hm]
  unfold ub16mulub16
  dsimp only
  rw [ha, hf, hg, hprod, hslip, fractions_round hf' hg', Int.natCast_mod]
  refine congrArg (· % (2 : Int) ^ 32) ?_
  push_cast
  ring

theorem ub16sqr_eq (m : Nat) : (ub16sqr m : Int) = rounded (m * m) % 2 ^ 32 := by
  obtain ⟨a, f, ha, hf, hm, -, hf'⟩ := halves m
  have hprod : (m : Int) * m = (a * a * 2 ^ 16 + a * f * 2 : Int) * 2 ^ 16 + f * f := by
    rw [hm]
    ring
  unfold ub16sqr
  dsimp only
  rw [ha, hf, hprod, fractions_round hf' hf', Int.natCast_mod]
  push_cast
  rfl

theorem ub16MAX_cast : (ub16MAX : Int) = 2 ^ 32 - 1 := by
  unfold ub16MAX
  norm_num

theorem exact_mul (x y : Int) : number x * number y = ((x * y : Int) : ℚ) / 2 ^ 32 := by
  unfold number
  push_cast
  ring

theorem number_div (x y : Int) : number x / number y = (x : ℚ) / y := by
  unfold number
  exact div_div_div_cancel_right₀ (by norm_num) _ _

theorem ub16mulub16_right (h : Operands .ub16mulub16 x y) :
    Right .ub16mulub16 x y (Op.run .ub16mulub16 x y) ↔ Meets .ub16mulub16 x y := by
  obtain ⟨⟨hx, hx'⟩, ⟨hy, hy'⟩, -⟩ := h
  have hrun : Op.run .ub16mulub16 x y = (rounded (x * y) + slip x y) % 2 ^ 32 := by
    show (Fixedmath.ub16mulub16 x.toNat y.toNat : Int) = _
    rw [ub16mulub16_eq, Int.toNat_of_nonneg hx, Int.toNat_of_nonneg hy]
  have hp : 0 ≤ x * y := mul_nonneg hx hy
  have hexact : Op.exact .ub16mulub16 x y = ((x * y : Int) : ℚ) / 2 ^ 32 := exact_mul x y
  have hleast : Op.least .ub16mulub16 = 0 := rfl
  have hgreatest : Op.greatest .ub16mulub16 = 2 ^ 32 - 1 := ub16MAX_cast
  rw [right_product hleast hgreatest (le_refl 0) (by decide) hexact rfl, hrun]
  show _ ↔ if x * y ≤ ub16MAX * 2 ^ 16 then _ else _
  have hmax := ub16MAX_cast
  unfold Harmless rounded
  generalize x * y = p at hp
  generalize slip x y = d
  by_cases h : p ≤ ub16MAX * 2 ^ 16
  · rw [if_pos h]
    omega
  · rw [if_neg h]
    omega

theorem ub16sqr_right (h : Operands .ub16sqr x y) :
    Right .ub16sqr x y (Op.run .ub16sqr x y) ↔ Meets .ub16sqr x y := by
  have hrun : Op.run .ub16sqr x y = rounded (x * x) % 2 ^ 32 := by
    show (Fixedmath.ub16sqr x.toNat : Int) = _
    rw [ub16sqr_eq, Int.toNat_of_nonneg h.1.1]
  have hp : 0 ≤ x * x := mul_self_nonneg x
  have hexact : Op.exact .ub16sqr x y = ((x * x : Int) : ℚ) / 2 ^ 32 := exact_mul x x
  have hleast : Op.least .ub16sqr = 0 := rfl
  have hgreatest : Op.greatest .ub16sqr = 2 ^ 32 - 1 := ub16MAX_cast
  rw [right_product hleast hgreatest (le_refl 0) (by decide) hexact rfl, hrun]
  show _ ↔ x * x ≤ ub16MAX * 2 ^ 16 ∨ _
  have hmax := ub16MAX_cast
  unfold rounded
  generalize x * x = p at hp
  omega

theorem b16sqr_right (h : Operands .b16sqr x y) :
    Right .b16sqr x y (Op.run .b16sqr x y) ↔ Meets .b16sqr x y := by
  have habs : ((x.natAbs : Nat) : Int) * x.natAbs = x * x := Int.natAbs_mul_self' x
  have hrun : Op.run .b16sqr x y =
      if 2 ^ 31 ≤ rounded (x * x) % 2 ^ 32 then b16MAX else rounded (x * x) % 2 ^ 32 := by
    show Fixedmath.b16sqr x = _
    unfold Fixedmath.b16sqr
    dsimp only
    have hval := ub16sqr_eq x.natAbs
    rw [habs] at hval
    rw [toUb16_abs h.1, ← hval]
    unfold toB16
    split <;> split <;> split <;> omega
  have hp : 0 ≤ x * x := mul_self_nonneg x
  have hexact : Op.exact .b16sqr x y = ((x * x : Int) : ℚ) / 2 ^ 32 := exact_mul x x
  have hleast : Op.least .b16sqr = -2 ^ 31 := rfl
  have hgreatest : Op.greatest .b16sqr = 2 ^ 31 - 1 := rfl
  rw [right_product hleast hgreatest (by decide) (by decide) hexact rfl, hrun]
  show _ ↔ x * x ≤ b16MAX * 2 ^ 16 ∨ b16MAX ≤ _
  unfold rounded b16MAX
  generalize x * x = p at hp
  split <;> omega

theorem b16mulb16_right (h : Operands .b16mulb16 x y) :
    Right .b16mulb16 x y (Op.run .b16mulb16 x y) ↔ Meets .b16mulb16 x y := by
  have hrun : Op.run .b16mulb16 x y =
      if 2 ^ 31 ≤ (rounded (|x| * |y|) + slip |x| |y|) % 2 ^ 32 then b16MIN
      else if decide (x < 0) != decide (y < 0) then
        -((rounded (|x| * |y|) + slip |x| |y|) % 2 ^ 32)
      else (rounded (|x| * |y|) + slip |x| |y|) % 2 ^ 32 := by
    have hval := ub16mulub16_eq x.natAbs y.natAbs
    rw [Int.natCast_natAbs, Int.natCast_natAbs] at hval
    have hlt : Fixedmath.ub16mulub16 x.natAbs y.natAbs < 2 ^ 32 := by omega
    show Fixedmath.b16mulb16 x y = _
    unfold Fixedmath.b16mulb16
    rw [fixsign_eq]
    dsimp only
    rw [toUb16_abs h.1, toUb16_abs h.2.1, adjustsign_toB16 hlt, ← hval]
    split <;> split <;> first | rfl | omega
  have hp : 0 ≤ |x| * |y| := mul_nonneg (abs_nonneg x) (abs_nonneg y)
  have hexact : Op.exact .b16mulb16 x y = ((x * y : Int) : ℚ) / 2 ^ 32 := exact_mul x y
  have hleast : Op.least .b16mulb16 = -2 ^ 31 := rfl
  have hgreatest : Op.greatest .b16mulb16 = 2 ^ 31 - 1 := rfl
  rw [right_product hleast hgreatest (by decide) (by decide) hexact rfl, hrun]
  show _ ↔ if x * y < 0 then if _ < _ then _ else _ else if _ then _ else _
  have hsigned : x * y = if decide (x < 0) != decide (y < 0) then -(|x| * |y|) else |x| * |y| := by
    by_cases hx : x < 0 <;> by_cases hy : y < 0 <;>
      simp [hx, hy, abs_of_neg, abs_of_nonneg, not_lt.mp]
  generalize (decide (x < 0) != decide (y < 0)) = negate at hsigned
  rw [hsigned]
  unfold Harmless rounded b16MIN b16MAX
  generalize |x| * |y| = p at hp
  generalize slip |x| |y| = d
  cases negate with
  | false =>
    have hpos : ¬ p < 0 := not_lt.mpr hp
    simp only [Bool.false_eq_true, if_false, if_neg hpos]
    split <;> split <;> omega
  | true =>
    simp only [if_true]
    split <;> split <;> split <;> omega

end

section

variable {x y : Int}

/-- The two parts of a quotient: the integer that the numerator without its fraction bits gives,
and what the rest of the numerator, not scaled, adds to it. -/
structure Parts (n d t q : Int) : Prop where
  whole_nonneg : 0 ≤ t
  rest_nonneg : 0 ≤ q
  whole_le : t * d ≤ n / 2 ^ 16 * 2 ^ 16
  lt_whole : n / 2 ^ 16 * 2 ^ 16 < t * d + d
  rest_lt : q < 2 ^ 16
  rest_le : q * d ≤ n - t * d + d / 2
  rest_zero : n - t * d + d / 2 < d → q = 0

theorem ub16divub16_eq (num denom : Nat) (hd : 0 < denom) (hn : num < 2 ^ 32) :
    ∃ t q : Int, Parts num denom t q ∧
      (ub16divub16 num denom : Int) = if 2 ^ 16 ≤ t then 2 ^ 32 - 1 else t * 2 ^ 16 + q := by
  have ht := Nat.div_mul_le_self (num / 2 ^ 16 * 2 ^ 16) denom
  have ht' := Nat.lt_div_mul_add (a := num / 2 ^ 16 * 2 ^ 16) hd
  unfold ub16divub16
  dsimp only
  generalize num / 2 ^ 16 * 2 ^ 16 / denom = t at ht ht'
  have hq := Nat.div_mul_le_self ((num - t * denom + denom / 2) % 2 ^ 32) denom
  have hq0 : num - t * denom + denom / 2 < denom →
      (num - t * denom + denom / 2) % 2 ^ 32 / denom = 0 := by
    intro h
    exact Nat.div_eq_of_lt ((Nat.mod_le _ _).trans_lt h)
  generalize (num - t * denom + denom / 2) % 2 ^ 32 / denom = q at hq hq0
  have hle : q * denom ≤ num - t * denom + denom / 2 := hq.trans (Nat.mod_le _ _)
  have hsmall : q < 2 ^ 16 := by
    by_contra hbig
    have hmul : 2 ^ 16 * denom ≤ q * denom := Nat.mul_le_mul_right denom (not_lt.mp hbig)
    generalize q * denom = v at hle hmul
    rcases Nat.eq_or_lt_of_le hd with h1 | h1
    · subst h1
      omega
    · generalize t * denom = u at ht ht' hle
      omega
  have hval : ((if 2 ^ 16 ≤ t then ub16MAX
      else if (t * 2 ^ 16 + q) % 2 ^ 32 < t * 2 ^ 16 then ub16MAX
        else (t * 2 ^ 16 + q) % 2 ^ 32 : Nat) : Int) =
      if (2 : Int) ^ 16 ≤ t then 2 ^ 32 - 1 else (t : Int) * 2 ^ 16 + q := by
    have hmax := ub16MAX_cast
    split <;> split <;> omega
  have hint : ((num / 2 ^ 16 * 2 ^ 16 : Nat) : Int) = (num : Int) / 2 ^ 16 * 2 ^ 16 := by
    push_cast
    rfl
  have hcast : ((t * denom : Nat) : Int) = (t : Int) * denom := Nat.cast_mul _ _
  have hcastq : ((q * denom : Nat) : Int) = (q : Int) * denom := Nat.cast_mul _ _
  refine ⟨t, q, ⟨Int.natCast_nonneg _, Int.natCast_nonneg _, ?_, ?_, by omega, ?_, ?_⟩, hval⟩
  · rw [← hcast, ← hint]
    exact_mod_cast ht
  · rw [← hcast, ← hint]
    exact_mod_cast ht'
  · rw [← hcast, ← hcastq]
    omega
  · rw [← hcast]
    omega

section

variable {n d t q : Int}

/-- The integer that the numerator without its fraction bits gives is the one that counts. -/
theorem Parts.whole_iff (P : Parts n d t q) (hd : 0 < d) :
    Whole n d ↔ 2 ^ 16 * (n - t * d) ≤ d := by
  constructor
  · rintro ⟨k, hk, hle⟩
    have hlt := P.lt_whole
    have hkt : k ≤ t := by
      by_contra h
      have hmul : (t + 1) * d ≤ k * d := mul_le_mul_of_nonneg_right (not_le.mp h) hd.le
      rw [add_mul, one_mul] at hmul
      omega
    have hmul : k * d ≤ t * d := mul_le_mul_of_nonneg_right hkt hd.le
    omega
  · exact fun h => ⟨t, P.whole_le, h⟩

theorem Parts.close_iff (P : Parts n d t q) (hd : 0 < d) :
    (-d ≤ (t * 2 ^ 16 + q) * d - n * 2 ^ 16 ∧ (t * 2 ^ 16 + q) * d - n * 2 ^ 16 ≤ d) ↔
      Whole n d := by
  have hsum : (t * 2 ^ 16 + q) * d = t * d * 2 ^ 16 + q * d := by ring
  have hone : q = 0 ∨ d ≤ q * d := by
    rcases P.rest_nonneg.eq_or_lt with h | h
    · exact .inl h.symm
    · exact .inr (le_mul_of_one_le_left hd.le h)
  have ht := P.whole_le
  have hle := P.rest_le
  have h0 := P.rest_zero
  rw [P.whole_iff hd, hsum]
  rcases hone with rfl | hone
  · rw [zero_mul] at hle ⊢
    omega
  · generalize t * d = u at *
    generalize q * d = v at *
    omega

theorem Parts.zero (P : Parts n d t q) (hd : 0 < d) (hn : n = 0) : t = 0 ∧ q = 0 := by
  subst hn
  have ht := P.whole_le
  have h0 := P.rest_zero
  have htz : t = 0 := by
    rcases P.whole_nonneg.eq_or_lt with h | h
    · exact h.symm
    · have hmul : d ≤ t * d := le_mul_of_one_le_left hd.le h
      omega
  rw [htz, zero_mul] at h0
  exact ⟨htz, h0 (by omega)⟩

theorem Parts.whole_lt (P : Parts n d t q) (hd : 0 < d) {b : Int}
    (h : n * 2 ^ 16 < b * 2 ^ 16 * d) : t < b := by
  by_contra hge
  have hmul : b * d ≤ t * d := mul_le_mul_of_nonneg_right (not_lt.mp hge) hd.le
  have ht := P.whole_le
  rw [mul_right_comm] at h
  omega

/-- A numerator without its fraction bits that is at least `b` times the denominator has a whole
part that is at least `b`. -/
theorem Parts.le_whole_iff (P : Parts n d t q) (hd : 0 < d) (b : Int) :
    b ≤ t ↔ b * d ≤ n / 2 ^ 16 * 2 ^ 16 := by
  constructor
  · exact fun h => (mul_le_mul_of_nonneg_right h hd.le).trans P.whole_le
  · intro h
    by_contra hsmall
    have hmul : (t + 1) * d ≤ b * d := mul_le_mul_of_nonneg_right (not_le.mp hsmall) hd.le
    have hlt := P.lt_whole
    rw [add_mul, one_mul] at hmul
    omega

theorem Parts.positive_iff (P : Parts n d t q) (hd : 0 < d) (hn : 0 ≤ n) {r : Int}
    (hr : r = if 2 ^ 15 ≤ t then -2 ^ 31 else t * 2 ^ 16 + q) :
    ((-2 ^ 31 * d ≤ n * 2 ^ 16 ∧ n * 2 ^ 16 ≤ (2 ^ 31 - 1) * d ∧ -d ≤ r * d - n * 2 ^ 16 ∧
          r * d - n * 2 ^ 16 ≤ d ∧ (0 ≤ n → 0 ≤ r) ∧ (n ≤ 0 → r ≤ 0)) ∨
        (n * 2 ^ 16 < -2 ^ 31 * d ∧ r = -2 ^ 31) ∨
        ((2 ^ 31 - 1) * d < n * 2 ^ 16 ∧ r = 2 ^ 31 - 1)) ↔
      n * 2 ^ 16 ≤ (2 ^ 31 - 1) * d ∧ Whole n d := by
  have hclose := P.close_iff hd
  have hq0 := P.rest_nonneg
  have ht0 := P.whole_nonneg
  have hlow : -2 ^ 31 * d ≤ n * 2 ^ 16 := by omega
  by_cases hin : n * 2 ^ 16 ≤ (2 ^ 31 - 1) * d
  · have hlt : ¬ 2 ^ 15 ≤ t := not_le.mpr (P.whole_lt hd (by omega))
    rw [if_neg hlt] at hr
    subst hr
    constructor
    · rintro (⟨-, -, h1, h2, -⟩ | ⟨h, -⟩ | ⟨h, -⟩)
      · exact ⟨hin, hclose.mp ⟨h1, h2⟩⟩
      · exact absurd hlow (not_le.mpr h)
      · exact absurd hin (not_le.mpr h)
    · rintro ⟨-, hw⟩
      obtain ⟨h1, h2⟩ := hclose.mpr hw
      refine .inl ⟨hlow, hin, h1, h2, fun _ => by omega, fun hle0 => ?_⟩
      obtain ⟨rfl, rfl⟩ := P.zero hd (le_antisymm hle0 hn)
      exact le_refl 0
  · -- the greatest number is never the quotient
    refine iff_of_false ?_ fun h => hin h.1
    have ht := P.whole_le
    have hle := P.rest_le
    have hqlt := P.rest_lt
    rintro (⟨-, h, -⟩ | ⟨h, -⟩ | ⟨-, h⟩)
    · exact hin h
    · exact absurd hlow (not_le.mpr h)
    · rw [hr] at h
      by_cases hbig : 2 ^ 15 ≤ t
      · rw [if_pos hbig] at h
        exact absurd h (by decide)
      · rw [if_neg hbig] at h
        have htop : t = 2 ^ 15 - 1 := by omega
        have hqtop : q = 2 ^ 16 - 1 := by omega
        subst htop hqtop
        have hlt := P.lt_whole
        omega

theorem Parts.negative_iff (P : Parts n d t q) (hd : 0 < d) (hn : 0 < n) {r : Int}
    (hr : r = if 2 ^ 15 ≤ t then -2 ^ 31 else -(t * 2 ^ 16 + q)) :
    ((-2 ^ 31 * d ≤ -n * 2 ^ 16 ∧ -n * 2 ^ 16 ≤ (2 ^ 31 - 1) * d ∧ -d ≤ r * d - -n * 2 ^ 16 ∧
          r * d - -n * 2 ^ 16 ≤ d ∧ (0 ≤ -n → 0 ≤ r) ∧ (-n ≤ 0 → r ≤ 0)) ∨
        (-n * 2 ^ 16 < -2 ^ 31 * d ∧ r = -2 ^ 31) ∨
        ((2 ^ 31 - 1) * d < -n * 2 ^ 16 ∧ r = 2 ^ 31 - 1)) ↔
      if n * 2 ^ 16 ≤ 2 ^ 31 * d then Whole n d else 2 ^ 15 * d ≤ n / 2 ^ 16 * 2 ^ 16 := by
  have hq0 := P.rest_nonneg
  have ht0 := P.whole_nonneg
  have hqlt := P.rest_lt
  have ht := P.whole_le
  have hhigh : ¬ (2 ^ 31 - 1) * d < -n * 2 ^ 16 := by omega
  by_cases hin : n * 2 ^ 16 ≤ 2 ^ 31 * d
  · rw [if_pos hin]
    by_cases hbig : 2 ^ 15 ≤ t
    · -- only the least number itself
      have hmul : 2 ^ 15 * d ≤ t * d := mul_le_mul_of_nonneg_right hbig hd.le
      rw [if_pos hbig] at hr
      rw [hr, P.whole_iff hd]
      omega
    · rw [if_neg hbig] at hr
      rw [hr, ← P.close_iff hd, neg_mul (t * 2 ^ 16 + q) d]
      generalize (t * 2 ^ 16 + q) * d = w
      omega
  · rw [if_neg hin, ← P.le_whole_iff hd (2 ^ 15), hr]
    by_cases hbig : 2 ^ 15 ≤ t
    · rw [if_pos hbig]
      omega
    · rw [if_neg hbig]
      omega

end

theorem ub16divub16_right (h : Operands .ub16divub16 x y) :
    Right .ub16divub16 x y (Op.run .ub16divub16 x y) ↔ Meets .ub16divub16 x y := by
  obtain ⟨⟨hx, hx'⟩, ⟨hy, hy'⟩, hne⟩ := h
  have hx0 : 0 ≤ x := hx
  have hy0 : 0 ≤ y := hy
  have hne := hne (.inl rfl)
  have hmax := ub16MAX_cast
  have hx32 : x ≤ ub16MAX := hx'
  have hd : 0 < y := by omega
  obtain ⟨t, q, P, hval⟩ := ub16divub16_eq x.toNat y.toNat (by omega) (by omega)
  rw [Int.toNat_of_nonneg hx0, Int.toNat_of_nonneg hy0] at P
  have hrun : Op.run .ub16divub16 x y = if 2 ^ 16 ≤ t then 2 ^ 32 - 1 else t * 2 ^ 16 + q := hval
  have hexact : Op.exact .ub16divub16 x y = (x : ℚ) / y := number_div x y
  have hleast : Op.least .ub16divub16 = 0 := rfl
  have hgreatest : Op.greatest .ub16divub16 = 2 ^ 32 - 1 := ub16MAX_cast
  have hclose := P.close_iff hd
  have hq0 := P.rest_nonneg
  have ht0 := P.whole_nonneg
  rw [right_quotient hleast hgreatest (le_refl 0) (by decide) hd hexact rfl, hrun]
  show _ ↔ (x * 2 ^ 16 ≤ ub16MAX * y → Whole x y)
  rw [hmax]
  by_cases hin : x * 2 ^ 16 ≤ (2 ^ 32 - 1) * y
  · -- in range the integer part of the quotient has 16 bits
    have hlt : t < 2 ^ 16 := P.whole_lt hd (by omega)
    rw [if_neg (not_le.mpr hlt)]
    constructor
    · rintro (⟨-, -, h1, h2, -⟩ | ⟨h, -⟩ | ⟨h, -⟩) _
      · exact hclose.mp ⟨h1, h2⟩
      · rw [zero_mul] at h
        omega
      · exact absurd hin (not_le.mpr h)
    · intro hw
      obtain ⟨h1, h2⟩ := hclose.mpr (hw hin)
      refine .inl ⟨by omega, hin, h1, h2, fun _ => by omega, fun hle0 => ?_⟩
      obtain ⟨rfl, rfl⟩ := P.zero hd (le_antisymm hle0 hx0)
      exact le_refl 0
  · -- every overflow is found
    have hbig : 2 ^ 16 ≤ t := (P.le_whole_iff hd _).mpr (by omega)
    rw [if_pos hbig]
    exact ⟨fun _ h => absurd h hin, fun _ => .inr (.inr ⟨not_le.mp hin, rfl⟩)⟩

theorem b16divb16_right (h : Operands .b16divb16 x y) :
    Right .b16divb16 x y (Op.run .b16divb16 x y) ↔ Meets .b16divb16 x y := by
  obtain ⟨hx, hy, hne⟩ := h
  have hne := hne (.inr rfl)
  have hd : 0 < |y| := abs_pos.mpr hne
  have hn : 0 ≤ |x| := abs_nonneg x
  have hx31 : |x| ≤ 2 ^ 31 := abs_le.mpr ⟨hx.1, hx.2.trans (by decide)⟩
  have hy31 : |y| ≤ 2 ^ 31 := abs_le.mpr ⟨hy.1, hy.2.trans (by decide)⟩
  have hnat : ((x.natAbs : Nat) : Int) = |x| := Int.natCast_natAbs x
  have hnaty : ((y.natAbs : Nat) : Int) = |y| := Int.natCast_natAbs y
  obtain ⟨t, q, P, hval⟩ := ub16divub16_eq x.natAbs y.natAbs (by omega) (by omega)
  rw [hnat, hnaty] at P
  have hq0 := P.rest_nonneg
  have ht0 := P.whole_nonneg
  have hqlt := P.rest_lt
  have hrun : Op.run .b16divb16 x y =
      if 2 ^ 15 ≤ t then -2 ^ 31
      else if decide (x < 0) != decide (y < 0) then -(t * 2 ^ 16 + q) else t * 2 ^ 16 + q := by
    have hlt : Fixedmath.ub16divub16 x.natAbs y.natAbs < 2 ^ 32 := by
      split at hval <;> omega
    show Fixedmath.b16divb16 x y = _
    unfold Fixedmath.b16divb16
    rw [fixsign_eq]
    dsimp only
    rw [toUb16_abs hx, toUb16_abs hy, adjustsign_toB16 hlt, hval]
    have hmin : b16MIN = -2 ^ 31 := rfl
    by_cases hbig : 2 ^ 15 ≤ t
    · rw [if_pos hbig, if_pos (by split at hval <;> omega), hmin]
    · have h16 : ¬ 2 ^ 16 ≤ t := fun h => hbig (by omega)
      rw [if_neg hbig, if_neg (by split at hval <;> omega), if_neg h16]
  have hexact : Op.exact .b16divb16 x y =
      ((if decide (x < 0) != decide (y < 0) then -|x| else |x| : Int) : ℚ) / (|y| : Int) := by
    refine (number_div x y).trans ?_
    by_cases hx0 : x < 0 <;> by_cases hy0 : y < 0
    · rw [abs_of_neg hx0, abs_of_neg hy0]
      simp [hx0, hy0]
    · rw [abs_of_neg hx0, abs_of_nonneg (not_lt.mp hy0)]
      simp [hx0, hy0]
    · rw [abs_of_nonneg (not_lt.mp hx0), abs_of_neg hy0]
      simp [hx0, hy0, div_neg, neg_div]
    · rw [abs_of_nonneg (not_lt.mp hx0), abs_of_nonneg (not_lt.mp hy0)]
      simp [hx0, hy0]
  have hnegative : x * y < 0 ↔ (decide (x < 0) != decide (y < 0)) = true ∧ 0 < |x| := by
    rw [mul_neg_iff, abs_pos]
    by_cases hx0 : x < 0 <;> by_cases hy0 : y < 0 <;> simp [hx0, hy0] <;> omega
  have hleast : Op.least .b16divb16 = -2 ^ 31 := rfl
  have hgreatest : Op.greatest .b16divb16 = 2 ^ 31 - 1 := rfl
  rw [right_quotient hleast hgreatest (by decide) (by decide) hd hexact rfl, hrun]
  show _ ↔ if x * y < 0 then if _ then _ else _ else _
  generalize (decide (x < 0) != decide (y < 0)) = negate at hnegative
  cases negate with
  | false =>
    have hno : ¬ x * y < 0 := fun h => absurd (hnegative.mp h).1 (by decide)
    rw [if_neg hno]
    simp only [Bool.false_eq_true, if_false]
    exact P.positive_iff hd hn rfl
  | true =>
    simp only [if_true]
    rcases hn.eq_or_lt with h0 | hpos
    · obtain ⟨rfl, rfl⟩ := P.zero hd h0.symm
      have hno : ¬ x * y < 0 := fun h => absurd (hnegative.mp h).2 (by omega)
      rw [← h0] at P
      rw [if_neg hno, ← h0, neg_zero]
      exact P.positive_iff hd (le_refl 0) (by decide)
    · rw [if_pos (hnegative.mpr ⟨rfl, hpos⟩)]
      exact P.negative_iff hd hpos rfl

end

/-- A function is right exactly when it meets its condition. -/
theorem fixed_right_iff {op : Op} {x y : Int} (h : Operands op x y) :
    Right op x y (op.run x y) ↔ Meets op x y := by
  cases op with
  | ub16mulub16 => exact ub16mulub16_right h
  | b16mulb16 => exact b16mulb16_right h
  | ub16sqr => exact ub16sqr_right h
  | b16sqr => exact b16sqr_right h
  | ub16divub16 => exact ub16divub16_right h
  | b16divb16 => exact b16divb16_right h

/-- The square of -1.5. -/
theorem fixed_right_square :
    Right .b16sqr (-98304) 0 (Op.run .b16sqr (-98304) 0) ↔ Meets .b16sqr (-98304) 0 :=
  fixed_right_iff ⟨by decide, by decide, by decide⟩

/-- The product of 1 and 2 is 1, and the quotient of 3 and 2 is a little more than 1. -/
theorem fixed_wrong :
    (Operands .ub16mulub16 65536 131072 ∧
      Op.run .ub16mulub16 65536 131072 = 65536 ∧
      ¬ Right .ub16mulub16 65536 131072 (Op.run .ub16mulub16 65536 131072)) ∧
      Operands .ub16divub16 196608 131072 ∧
      Op.run .ub16divub16 196608 131072 = 65537 ∧
      ¬ Right .ub16divub16 196608 131072 (Op.run .ub16divub16 196608 131072) := by
  have h1 : Op.run .ub16mulub16 65536 131072 = 65536 := by decide
  have h2 : Op.run .ub16divub16 196608 131072 = 65537 := by decide
  rw [h1, h2]
  refine ⟨⟨⟨by decide, by decide, by decide⟩, rfl, ?_⟩,
    ⟨by decide, by decide, by decide⟩, rfl, ?_⟩
  · have hexact : Op.exact .ub16mulub16 65536 131072 = ((65536 * 131072 : Int) : ℚ) / 2 ^ 32 :=
      exact_mul _ _
    have hleast : Op.least .ub16mulub16 = 0 := rfl
    have hgreatest : Op.greatest .ub16mulub16 = 2 ^ 32 - 1 := ub16MAX_cast
    rw [right_product hleast hgreatest (le_refl 0) (by decide) hexact rfl]
    decide
  · have hexact : Op.exact .ub16divub16 196608 131072 = ((196608 : Int) : ℚ) / (131072 : Int) :=
      number_div _ _
    have hleast : Op.least .ub16divub16 = 0 := rfl
    have hgreatest : Op.greatest .ub16divub16 = 2 ^ 32 - 1 := ub16MAX_cast
    rw [right_quotient hleast hgreatest (le_refl 0) (by decide) (by decide) hexact rfl]
    decide

end NuttxAvr32.Fixedmath
