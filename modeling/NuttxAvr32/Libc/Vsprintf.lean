import NuttxAvr32.Lib.Numerals
import Mathlib.Data.Int.DivMod

/-! # Formatted output

`lib_vsprintf` goes through its format once and puts characters into a stream. The number that a
conversion puts is sized by a run into a null stream; justification puts the sign and the padding
around it, in front of a prefix as well.
-/

namespace NuttxAvr32.Vsprintf

open Numerals

abbrev ch (c : Char) : Nat := c.toNat

def digitChar (a d : Nat) : Nat := if d < 10 then d + ch '0' else d + a - 10

/-- The recursion of `utodec`, `utooct` and `utobin`. -/
def utoBase (base : Nat) (n : Nat) : List Nat :=
  if h : base ≤ 1 ∨ n / base = 0 then [n % base + ch '0']
  else utoBase base (n / base) ++ [n % base + ch '0']
termination_by n
decreasing_by
  have h' : ¬ base ≤ 1 ∧ n / base ≠ 0 := not_or.mp h
  have hn : n ≠ 0 := fun h0 => h'.2 (by rw [h0, Nat.zero_div])
  exact Nat.div_lt_self (by omega) (by omega)

def utodec (n : Nat) : List Nat := utoBase 10 n

def utooct (n : Nat) : List Nat := utoBase 8 n

def utobin (n : Nat) : List Nat := utoBase 2 n

/-- The loop over the nibbles of an integer with `bits` bits. -/
def utohex (bits a n : Nat) : List Nat := scan (digitChar a) 16 n (bits / 4) false

inductive Conv
  | d
  | i
  | u
  | x
  | X
  | p
  | o
  | b
deriving DecidableEq

inductive Fmt
  | rjust
  | ljust
  | rjust0
deriving DecidableEq

structure Flags where
  showplus : Bool
  altform : Bool
  hasdot : Bool
  hasasteriskwidth : Bool
  hasasterisktrunc : Bool
  longprecision : Bool
  longlongprecision : Bool
  negate : Bool

def Flags.signed (f : Flags) : Bool := f.showplus || f.negate

/-- `utoascii`, and its copies for other sizes, which have no pointers. -/
def utoascii (bits : Nat) (conv : Conv) (flags : Flags) (n : Nat) : List Nat :=
  match conv with
  | .d | .i | .u => utodec n
  | .x => (if flags.altform then [ch '0', ch 'x'] else []) ++ utohex bits (ch 'a') n
  | .X => (if flags.altform then [ch '0', ch 'x'] else []) ++ utohex bits (ch 'A') n
  | .p =>
    if bits = 32 then (if flags.altform then [ch '0', ch 'x'] else []) ++ utohex bits (ch 'a') n
    else []
  | .o => (if flags.altform then [ch '0'] else []) ++ utooct n
  | .b => utobin n

def wrap (bits : Nat) (v : Int) : Int := v.bmod (2 ^ bits)

def fixup (bits : Nat) (conv : Conv) (flags : Flags) (n : Int) : Flags × Int :=
  match conv with
  | .d | .i =>
    if n < 0 then
      ({ flags with
        negate := true
        showplus := false }, wrap bits (-n))
    else (flags, n)
  | .u => (flags, n)
  | .p | .x | .X | .o | .b =>
    ({ flags with
      negate := false
      showplus := false }, n)

/-- The number of characters that are put in `for (i = fieldwidth - numwidth; i > 0; i--)`. -/
def padding (fieldwidth numwidth : Int) : Nat := (wrap 32 (fieldwidth - numwidth)).toNat

def signChars (flags : Flags) : List Nat :=
  if flags.negate then [ch '-'] else if flags.showplus then [ch '+'] else []

def prejustify (fmt : Fmt) (flags : Flags) (fieldwidth numwidth : Int) : List Nat :=
  match fmt with
  | .rjust =>
    let numwidth := if flags.signed then numwidth + 1 else numwidth
    List.replicate (padding fieldwidth numwidth) (ch ' ') ++ signChars flags
  | .rjust0 =>
    let numwidth := if flags.signed then numwidth + 1 else numwidth
    signChars flags ++ List.replicate (padding fieldwidth numwidth) (ch '0')
  | .ljust => signChars flags

def postjustify (fmt : Fmt) (flags : Flags) (fieldwidth numwidth : Int) : List Nat :=
  match fmt with
  | .rjust | .rjust0 => []
  | .ljust =>
    let numwidth := if flags.signed then numwidth + 1 else numwidth
    List.replicate (padding fieldwidth numwidth) (ch ' ')

/-- One integer conversion, for a size of `bits`. -/
def convert (bits : Nat) (conv : Conv) (fmt : Fmt) (flags : Flags) (width v : Int) : List Nat :=
  let r := fixup bits conv flags v
  let n := (r.2 % 2 ^ bits).toNat
  let size := (utoascii bits conv r.1 n).length
  prejustify fmt r.1 width size ++ utoascii bits conv r.1 n ++ postjustify fmt r.1 width size

/-- An argument in a `va_list`. A string is what its pointer is at. -/
inductive Arg
  | int (v : Int)
  | longlong (v : Int)
  | string (s : Option (List Nat))

/-- `va_arg` for an `int`, a `long` or a `char`; what it reads of an argument of another kind, or
behind the last one, is not told. -/
def vaInt : List Arg → Int × List Arg
  | .int v :: args => (v, args)
  | _ :: args => (0, args)
  | [] => (0, [])

def vaLongLong : List Arg → Int × List Arg
  | .longlong v :: args => (v, args)
  | _ :: args => (0, args)
  | [] => (0, [])

def nullString : List Nat := "(null)".toList.map ch

def vaString : List Arg → List Nat × List Arg
  | .string s :: args => (s.getD nullString, args)
  | _ :: args => (nullString, args)
  | [] => (nullString, [])

structure Spec where
  flags : Flags
  fmt : Fmt
  width : Int
  trunc : Int

def initial : Spec := ⟨⟨false, false, false, false, false, false, false, false⟩, .rjust, 0, 0⟩

/-- Where `lib_vsprintf` is in the format: outside a specification, among its qualifiers, in the
digits of a width, or behind `l` or `L`. -/
inductive Mode
  | text
  | spec (q : Spec)
  | digits (n : Int) (q : Spec)
  | long (q : Spec)
  | longlong (q : Spec)

def convOf (c : Nat) : Option Conv :=
  if c = ch 'd' then some .d
  else if c = ch 'i' then some .i
  else if c = ch 'u' then some .u
  else if c = ch 'x' then some .x
  else if c = ch 'X' then some .X
  else if c = ch 'p' then some .p
  else if c = ch 'o' then some .o
  else if c = ch 'b' then some .b
  else none

/-- The end of a specification; without floating point, nothing is done for the other
conversions. -/
def finish (q : Spec) (c : Nat) (args : List Arg) : List Nat × Mode × List Arg :=
  match convOf c with
  | none => ([], .text, args)
  | some conv =>
    if q.flags.longlongprecision ∧ conv ≠ .p then
      let r := vaLongLong args
      (convert 64 conv q.fmt q.flags q.width r.1, .text, r.2)
    else
      let r := vaInt args
      (convert 32 conv q.fmt q.flags q.width r.1, .text, r.2)

def Spec.setNumber (q : Spec) (n : Int) : Spec :=
  if q.flags.hasdot then { q with trunc := n } else { q with width := n }

def qualifier (q : Spec) (c : Nat) (args : List Arg) : List Nat × Mode × List Arg :=
  if c ∈ "diuxXpobeEfgGlLsc%".toList.map ch then
    if c = ch '%' then ([ch '%'], .text, args)
    else if c = ch 's' then
      let r := vaString args
      (r.1, .text, r.2)
    else if c = ch 'c' then
      let r := vaInt args
      ([(r.1 % 256).toNat], .text, r.2)
    else if c = ch 'L' then
      ([], .longlong { q with flags := { q.flags with longlongprecision := true } }, args)
    else if c = ch 'l' then
      ([], .long { q with flags := { q.flags with longprecision := true } }, args)
    else finish q c args
  else if c = ch '-' then ([], .spec { q with fmt := .ljust }, args)
  else if c = ch '0' then ([], .spec { q with fmt := .rjust0 }, args)
  else if c = ch '*' then
    let r := vaInt args
    let q := q.setNumber r.1
    if q.flags.hasdot then
      ([], .spec { q with flags := { q.flags with hasasterisktrunc := true } }, r.2)
    else ([], .spec { q with flags := { q.flags with hasasteriskwidth := true } }, r.2)
  else if ch '1' ≤ c ∧ c ≤ ch '9' then ([], .digits (c - ch '0') q, args)
  else if c = ch '.' then ([], .spec { q with flags := { q.flags with hasdot := true } }, args)
  else if c = ch '+' then ([], .spec { q with flags := { q.flags with showplus := true } }, args)
  else if c = ch '#' then ([], .spec { q with flags := { q.flags with altform := true } }, args)
  else ([], .spec q, args)

def step (m : Mode) (c : Nat) (args : List Arg) : List Nat × Mode × List Arg :=
  match m with
  | .text => if c ≠ ch '%' then ([c], .text, args) else ([], .spec initial, args)
  | .spec q => qualifier q c args
  | .digits n q =>
    if ch '0' ≤ c ∧ c ≤ ch '9' then ([], .digits (wrap 32 (10 * n + (c - ch '0'))) q, args)
    else qualifier (q.setNumber n) c args
  | .long q =>
    if c = ch 'l' then
      ([], .longlong { q with flags := { q.flags with longlongprecision := true } }, args)
    else finish q c args
  | .longlong q => finish q c args

/-- The characters that are put for the rest of a format, and whether it ends inside a
specification: then `src` is moved past its terminator. -/
def emit : List Nat → Mode → List Arg → List Nat × Bool
  | [], .text, _ => ([], false)
  | [], _, _ => ([], true)
  | c :: src, m, args =>
    let r := step m c args
    let rest := emit src r.2.1 r.2.2
    (r.1 ++ rest.1, rest.2)

structure Outstream where
  chars : List Nat
  nput : Nat
deriving DecidableEq

def Outstream.put (obj : Outstream) (c : Nat) : Outstream := ⟨obj.chars ++ [c], obj.nput + 1⟩

/-- `lib_vsprintf` into any stream; `none` if it reads past the end of the format. -/
def libVsprintf {σ : Type} (put : σ → Nat → σ) (obj : σ) (src : List Nat) (args : List Arg) :
    Option σ :=
  let r := emit src .text args
  if r.2 then none else some (r.1.foldl put obj)

section

variable {bits n : Nat} {conv : Conv} {flags : Flags} {v : Int}

theorem utoBase_eq {base : Nat} (hb : 1 < base) (n : Nat) :
    utoBase base n = numeral (fun d => d + ch '0') base n := by
  induction n using Nat.strong_induction_on with
  | _ n ih =>
    rw [utoBase]
    by_cases hn : n < base
    · rw [dif_pos (.inr (Nat.div_eq_of_lt hn)), numeral_of_lt hn, Nat.mod_eq_of_lt hn]
    · have hdiv : n / base ≠ 0 := by
        have := Nat.div_pos (Nat.le_of_not_lt hn) (by omega)
        omega
      rw [dif_neg (by omega), numeral_step hb (by omega),
        ih _ (Nat.div_lt_self (by omega) hb)]

def Size (bits : Nat) : Prop := bits = 32 ∨ bits = 64

theorem utohex_eq (hb : Size bits) (a : Nat) (hn : n < 2 ^ bits) :
    utohex bits a n = numeral (digitChar a) 16 n := by
  unfold utohex
  refine scan_false (by decide) ?_
  rcases hb with rfl | rfl
  · exact hn
  · exact hn

theorem wrap_of_mem {v : Int} (hl : -2 ^ (bits - 1) ≤ v) (hu : v < 2 ^ (bits - 1))
    (hb : Size bits) : wrap bits v = v := by
  unfold wrap
  rcases hb with rfl | rfl
  · refine Int.bmod_eq_of_le ?_ ?_ <;> norm_num at hl hu ⊢ <;> omega
  · refine Int.bmod_eq_of_le ?_ ?_ <;> norm_num at hl hu ⊢ <;> omega

theorem wrap_emod (bits : Nat) (v : Int) : wrap bits v % 2 ^ bits = v % 2 ^ bits := by
  have h : Int.bmod v (2 ^ bits) % ((2 ^ bits : Nat) : Int) = v % ((2 ^ bits : Nat) : Int) :=
    Int.bmod_emod
  rw [Nat.cast_pow] at h
  exact h

theorem wrap_congr {x y : Int} (h : x % 2 ^ 32 = y % 2 ^ 32) : wrap 32 x = wrap 32 y := by
  have h' : x % ((2 ^ 32 : Nat) : Int) = y % ((2 ^ 32 : Nat) : Int) := by
    norm_num at h ⊢
    exact h
  unfold wrap
  rw [Int.bmod_def, Int.bmod_def, h']

def InRange (bits : Nat) (v : Int) : Prop := -2 ^ (bits - 1) ≤ v ∧ v < 2 ^ (bits - 1)

def magnitude (bits : Nat) (conv : Conv) (v : Int) : Nat :=
  match conv with
  | .d | .i => v.natAbs
  | _ => (v % 2 ^ bits).toNat

theorem magnitude_lt (hb : Size bits) (conv : Conv) (hv : InRange bits v) :
    magnitude bits conv v < 2 ^ bits := by
  obtain ⟨hl, hu⟩ := hv
  unfold magnitude
  rcases hb with rfl | rfl
  · cases conv <;> norm_num at hl hu ⊢ <;> omega
  · cases conv <;> norm_num at hl hu ⊢ <;> omega

theorem fixup_magnitude (hb : Size bits) (hv : InRange bits v) (flags : Flags) :
    ((fixup bits conv flags v).2 % 2 ^ bits).toNat = magnitude bits conv v := by
  obtain ⟨hl, hu⟩ := hv
  have hneg : v < 0 → (wrap bits (-v) % 2 ^ bits).toNat = v.natAbs := by
    intro h
    rw [wrap_emod]
    rcases hb with rfl | rfl <;> norm_num at hl hu ⊢ <;> omega
  have hpos : ¬ v < 0 → (v % 2 ^ bits).toNat = v.natAbs := by
    intro h
    rcases hb with rfl | rfl <;> norm_num at hl hu ⊢ <;> omega
  unfold fixup magnitude
  cases conv with
  | d | i =>
    dsimp only
    split
    · rename_i h
      exact hneg h
    · rename_i h
      exact hpos h
  | u | x | X | p | o | b => rfl

end

/-- The layouts of a sign, a prefix and digits in a field. In the layout with zeros, the code
puts them in front of the prefix. -/
inductive Layout
  | right
  | zeros
  | zerosFirst
  | left
deriving DecidableEq

def Layout.text (k : Nat) (sign pre digits : List Nat) : Layout → List Nat
  | .right => List.replicate k (ch ' ') ++ (sign ++ (pre ++ digits))
  | .zeros => sign ++ (pre ++ (List.replicate k (ch '0') ++ digits))
  | .zerosFirst => sign ++ (List.replicate k (ch '0') ++ (pre ++ digits))
  | .left => sign ++ (pre ++ digits) ++ List.replicate k (ch ' ')

def Fmt.layout : Fmt → Layout
  | .rjust => .right
  | .ljust => .left
  | .rjust0 => .zerosFirst

def convDigits (conv : Conv) (n : Nat) : List Nat :=
  match conv with
  | .d | .i | .u => numeral (digitChar (ch 'a')) 10 n
  | .x | .p => numeral (digitChar (ch 'a')) 16 n
  | .X => numeral (digitChar (ch 'A')) 16 n
  | .o => numeral (digitChar (ch 'a')) 8 n
  | .b => numeral (digitChar (ch 'a')) 2 n

def codePrefix (conv : Conv) (alt : Bool) : List Nat :=
  match conv with
  | .x | .X | .p => if alt then [ch '0', ch 'x'] else []
  | .o => if alt then [ch '0'] else []
  | _ => []

def codeSign (conv : Conv) (plus : Bool) (v : Int) : List Nat :=
  match conv with
  | .d | .i => if v < 0 then [ch '-'] else if plus then [ch '+'] else []
  | .u => if plus then [ch '+'] else []
  | _ => []

section

variable {bits n : Nat} {conv : Conv} {flags : Flags} {v : Int}

theorem numeral_digitChar {base : Nat} (hb : 1 < base) (h10 : base ≤ 10) (a n : Nat) :
    numeral (fun d => d + ch '0') base n = numeral (digitChar a) base n := by
  have hd : ∀ d < base, (fun d => d + ch '0') d = digitChar a d := by
    intro d hd
    unfold digitChar
    rw [if_pos (by omega)]
  unfold numeral
  split
  · rw [hd 0 (by omega)]
  · refine List.map_congr_left fun d hm => hd d ?_
    exact Nat.digits_lt_base hb (List.mem_reverse.mp hm)

theorem utoascii_eq (hb : Size bits) (hn : n < 2 ^ bits) (hp : conv = .p → bits = 32)
    (flags : Flags) :
    utoascii bits conv flags n = codePrefix conv flags.altform ++ convDigits conv n := by
  have hbase : ∀ base : Nat, 1 < base → base ≤ 10 →
      utoBase base n = numeral (digitChar (ch 'a')) base n := fun base h1 h10 =>
    (utoBase_eq h1 n).trans (numeral_digitChar h1 h10 _ n)
  cases conv with
  | d | i | u => exact hbase 10 (by decide) (by decide)
  | x => exact congrArg _ (utohex_eq hb _ hn)
  | X => exact congrArg _ (utohex_eq hb _ hn)
  | p => exact (if_pos (hp rfl)).trans (congrArg _ (utohex_eq hb _ hn))
  | o => exact congrArg _ (hbase 8 (by decide) (by decide))
  | b => exact hbase 2 (by decide) (by decide)

theorem fixup_altform (bits : Nat) (conv : Conv) (flags : Flags) (v : Int) :
    (fixup bits conv flags v).1.altform = flags.altform := by
  unfold fixup
  cases conv with
  | d | i =>
    dsimp only
    split <;> rfl
  | u | x | X | p | o | b => rfl

theorem signChars_fixup (bits : Nat) (conv : Conv) (hn : flags.negate = false) (v : Int) :
    signChars (fixup bits conv flags v).1 = codeSign conv flags.showplus v := by
  unfold fixup codeSign signChars
  cases conv with
  | d | i =>
    dsimp only
    by_cases hv : v < 0
    · rw [if_pos hv, if_pos hv]
      rfl
    · rw [if_neg hv, if_neg hv, hn]
      rfl
  | u =>
    dsimp only
    rw [hn]
    rfl
  | x | X | p | o | b => rfl

theorem signed_length (f : Flags) (size : Int) :
    (if f.signed then size + 1 else size) = size + (signChars f).length := by
  unfold Flags.signed signChars
  cases f.negate <;> cases f.showplus <;> simp

theorem convert_eq (hb : Size bits) (conv : Conv) (hv : InRange bits v)
    (hp : conv = .p → bits = 32) (hn : flags.negate = false) (fmt : Fmt) (width : Int) :
    let sign := codeSign conv flags.showplus v
    let pre := codePrefix conv flags.altform
    let digits := convDigits conv (magnitude bits conv v)
    convert bits conv fmt flags width v =
      fmt.layout.text (padding width (sign ++ (pre ++ digits)).length) sign pre digits := by
  dsimp only
  unfold convert
  dsimp only
  rw [fixup_magnitude hb hv, utoascii_eq hb (magnitude_lt hb conv hv) hp, fixup_altform]
  unfold prejustify postjustify
  dsimp only
  rw [signed_length, signChars_fixup bits conv hn]
  have hlen : ((codePrefix conv flags.altform ++ convDigits conv (magnitude bits conv v)).length :
      Int) + (codeSign conv flags.showplus v).length =
        (((codeSign conv flags.showplus v).length + (codePrefix conv flags.altform ++
          convDigits conv (magnitude bits conv v)).length : Nat) : Int) := by
    rw [Nat.cast_add, Int.add_comm]
  rw [hlen, ← List.length_append]
  cases fmt with
  | rjust => simp only [Fmt.layout, Layout.text, List.append_assoc, List.append_nil]
  | rjust0 => simp only [Fmt.layout, Layout.text, List.append_assoc, List.append_nil]
  | ljust => simp only [Fmt.layout, Layout.text, List.append_assoc]

end

end NuttxAvr32.Vsprintf
