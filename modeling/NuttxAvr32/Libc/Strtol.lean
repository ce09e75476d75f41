import NuttxAvr32.Libc.StandardFormats
import Mathlib.Data.List.TakeWhile

/-! # Integer parsing

`strtol` takes white space and a sign and calls `strtoul`, which takes white space and the prefix
of a base, and then digits. Both set `endptr` behind what they have taken, also when there was
no digit.
-/

namespace NuttxAvr32.Strtol

open Numerals Vsprintf

/-- The strings that are parsed; behind the last character is the terminator. -/
abbrev Text := List Nat

/-- Space, tab, line feed, carriage return, form feed and vertical tab. -/
def isspace (c : Nat) : Bool :=
  c = ch ' ' ∨ c = 9 ∨ c = 10 ∨ c = 13 ∨ c = 12 ∨ c = 11

def libSkipspace (s : Text) : Text := s.dropWhile isspace

def libIsbasedigit (base : Nat) (c : Nat) : Option Nat :=
  if base ≤ 10 then
    if ch '0' ≤ c ∧ c ≤ base + ch '0' - 1 then some (c - ch '0') else none
  else if base ≤ 36 then
    if ch '0' ≤ c ∧ c ≤ ch '9' then some (c - ch '0')
    else if ch 'a' ≤ c ∧ c ≤ ch 'a' + base - 11 then some (c - ch 'a' + 10)
    else if ch 'A' ≤ c ∧ c ≤ ch 'A' + base - 11 then some (c - ch 'A' + 10)
    else none
  else none

/-- The base, and the string behind the prefix that tells it. -/
def libCheckbase (base : Nat) (s : Text) : Nat × Text :=
  if base = 0 then
    match s with
    | 48 :: x :: h :: rest =>
      if (x = ch 'X' ∨ x = ch 'x') ∧ (libIsbasedigit 16 h).isSome then (16, h :: rest)
      else (8, x :: h :: rest)
    | 48 :: rest => (8, rest)
    | _ => (10, s)
  else if base = 16 then
    match s with
    | 48 :: x :: rest => if x = ch 'X' ∨ x = ch 'x' then (16, rest) else (16, s)
    | _ => (16, s)
  else (base, s)

def digitLoop (base : Nat) : Nat → Text → Nat × Text
  | accum, [] => (accum, [])
  | accum, c :: s =>
    match libIsbasedigit base c with
    | some value => digitLoop base ((accum * base + value) % 2 ^ 32) s
    | none => (accum, c :: s)

def strtoul (s : Text) (base : Nat) : Nat × Text :=
  let r := libCheckbase base (libSkipspace s)
  digitLoop r.1 0 r.2

def strtol (s : Text) (base : Nat) : Int × Text :=
  match libSkipspace s with
  | c :: rest =>
    if c = ch '-' then
      let r := strtoul rest base
      (wrap 32 (-wrap 32 r.1), r.2)
    else if c = ch '+' then
      let r := strtoul rest base
      (wrap 32 r.1, r.2)
    else
      let r := strtoul (c :: rest) base
      (wrap 32 r.1, r.2)
  | [] =>
    let r := strtoul [] base
    (wrap 32 r.1, r.2)

/-- The prefixes and the bases that they tell. Without a prefix and with base 0, a leading zero
tells base 8. -/
inductive Prefix : Nat → Text → Nat → Text → Prop
  | plain {base : Nat} {digits : Text} : base ≠ 0 → Prefix base [] base digits
  | hex {base x : Nat} {digits : Text} : base = 0 ∨ base = 16 → x = ch 'x' ∨ x = ch 'X' →
      Prefix base [ch '0', x] 16 digits
  | octal {digits : Text} : digits.head? = some (ch '0') → Prefix 0 [] 8 digits
  | decimal {digits : Text} : digits.head? ≠ some (ch '0') → Prefix 0 [] 10 digits

def Numeral (base : Nat) (p : Text) (n : Nat) : Prop :=
  ∃ pre b digits, Prefix base pre b digits ∧ p = pre ++ digits ∧ digits ≠ [] ∧
    (∀ c ∈ digits, (libIsbasedigit b c).isSome) ∧
    n = value (fun c => (libIsbasedigit b c).getD 0) b digits

inductive Sign : Text → Int → Int → Prop
  | none {n : Int} : Sign [] n n
  | plus {n : Int} : Sign [ch '+'] n n
  | minus {n : Int} : Sign [ch '-'] n (-n)

/-- `p` is `[white space][sign][0x]digits`, with the value `v`. -/
def Number (base : Nat) (p : Text) (v : Int) : Prop :=
  ∃ space sign num n, p = space ++ (sign ++ num) ∧ (∀ c ∈ space, isspace c = true) ∧
    Numeral base num n ∧ Sign sign n v

def Longest (base : Nat) (s p : Text) (v : Int) : Prop :=
  p <+: s ∧ Number base p v ∧ ∀ p' v', p' <+: s → Number base p' v' → p'.length ≤ p.length

/-- The result of a parse: the longest number, with its value if that is representable, or the
whole string again. -/
def Right (representable : Int → Prop) (s : Text) (base : Nat) (r : Int × Text) : Prop :=
  (∃ p v, Longest base s p v ∧ s = p ++ r.2 ∧ (representable v → r.1 = v)) ∨
    ((∀ p v, p <+: s → ¬ Number base p v) ∧ r = (0, s))

def IsLong (v : Int) : Prop := InRange 32 v

def IsUnsignedLong (v : Int) : Prop := 0 ≤ v ∧ v < 2 ^ 32

def StartsNumeral (base : Nat) (s : Text) : Prop := ∃ p n, p <+: s ∧ Numeral base p n

/-- With base 16, a `0x` that no hexadecimal digit follows. -/
def BarePrefix (base : Nat) (s : Text) : Prop :=
  base = 16 ∧ ∃ x rest, s = ch '0' :: x :: rest ∧ (x = ch 'x' ∨ x = ch 'X') ∧
    ∀ c, rest.head? = some c → libIsbasedigit 16 c = none

def StartsSign (s : Text) : Prop := s.head? = some (ch '+') ∨ s.head? = some (ch '-')

instance decidableStartsSign (s : Text) : Decidable (StartsSign s) :=
  inferInstanceAs (Decidable (_ ∨ _))

def behindSign (s : Text) : Text := if StartsSign s then s.tail else s

/-- A numeral without a sign, or nothing at all to be taken. -/
def StrtoulMeets (s : Text) (base : Nat) : Prop :=
  (StartsNumeral base (libSkipspace s) ∧ ¬ BarePrefix base (libSkipspace s)) ∨
    ((∀ c, s.head? = some c → isspace c = false) ∧ ¬ StartsNumeral base (behindSign s))

/-- A numeral right behind the sign, or neither white space nor a sign nor a numeral. -/
def StrtolMeets (s : Text) (base : Nat) : Prop :=
  (StartsNumeral base (behindSign (libSkipspace s)) ∧
      ¬ BarePrefix base (behindSign (libSkipspace s))) ∨
    ((∀ c, s.head? = some c → isspace c = false) ∧ ¬ StartsSign s ∧ ¬ StartsNumeral base s)

section

variable {base b c n : Nat} {s t : Text}

def isDigit (b c : Nat) : Bool := (libIsbasedigit b c).isSome

theorem digit_range (h : isDigit b c = true) :
    (ch '0' ≤ c ∧ c ≤ ch '9') ∨ (ch 'a' ≤ c ∧ c < ch 'a' + 26) ∨ (ch 'A' ≤ c ∧ c < ch 'A' + 26) := by
  have hn : ∀ x : Char, x.toNat = ch x := fun _ => rfl
  unfold isDigit libIsbasedigit at h
  split at h
  · rename_i h10
    split at h
    · rename_i hc
      refine .inl ⟨hc.1, hc.2.trans ?_⟩
      show b + 48 - 1 ≤ 57
      omega
    · cases h
  · split at h
    · rename_i h36
      split at h
      · rename_i hc
        exact .inl hc
      · split at h
        · rename_i hc
          refine .inr (.inl ⟨hc.1, hc.2.trans_lt ?_⟩)
          show 97 + b - 11 < 97 + 26
          omega
        · split at h
          · rename_i hc
            refine .inr (.inr ⟨hc.1, hc.2.trans_lt ?_⟩)
            show 65 + b - 11 < 65 + 26
            omega
          · cases h
    · cases h

theorem digit_not_space (h : isDigit b c = true) : isspace c = false := by
  have hr := digit_range h
  unfold isspace
  simp [ch] at hr ⊢
  omega

theorem digit_not_sign (h : isDigit b c = true) : c ≠ ch '+' ∧ c ≠ ch '-' := by
  have hr := digit_range h
  simp [ch] at hr ⊢
  omega

theorem x_not_digit {x : Nat} (hx : x = ch 'x' ∨ x = ch 'X') (hb : b = 8 ∨ b = 10 ∨ b = 16) :
    isDigit b x = false := by
  rcases hx with rfl | rfl <;> rcases hb with rfl | rfl | rfl <;> rfl

theorem digitLoop_eq (b : Nat) (s : Text) (a : Nat) (ha : a < 2 ^ 32) :
    digitLoop b a s =
      ((s.takeWhile (isDigit b)).foldl (fun acc c => acc * b + (libIsbasedigit b c).getD 0) a %
        2 ^ 32, s.dropWhile (isDigit b)) := by
  have hfold : ∀ (l : Text) (x y : Nat), x % 2 ^ 32 = y % 2 ^ 32 →
      l.foldl (fun acc c => acc * b + (libIsbasedigit b c).getD 0) x % 2 ^ 32 =
        l.foldl (fun acc c => acc * b + (libIsbasedigit b c).getD 0) y % 2 ^ 32 := by
    intro l
    induction l with
    | nil => exact fun x y h => h
    | cons c l ih =>
      intro x y h
      refine ih _ _ ?_
      rw [Nat.add_mod, Nat.mul_mod, h, ← Nat.mul_mod, ← Nat.add_mod]
  induction s generalizing a with
  | nil => exact congrArg (·, []) (Nat.mod_eq_of_lt ha).symm
  | cons c s ih =>
    unfold digitLoop
    cases hc : libIsbasedigit b c with
    | none =>
      have hd : isDigit b c = false := by rw [isDigit, hc]; rfl
      simp only [List.takeWhile_cons, List.dropWhile_cons, hd, Bool.false_eq_true, if_false,
        List.foldl_nil]
      rw [Nat.mod_eq_of_lt ha]
    | some v =>
      have hd : isDigit b c = true := by rw [isDigit, hc]; rfl
      simp only [List.takeWhile_cons, List.dropWhile_cons, hd, if_true, List.foldl_cons, hc,
        Option.getD_some]
      rw [ih _ (Nat.mod_lt _ (by decide))]
      exact congrArg (·, s.dropWhile (isDigit b)) (hfold _ _ _ (Nat.mod_mod _ _))

theorem prefix_takeWhile {p : Nat → Bool} {l t : Text} (h : l <+: t) (hl : ∀ c ∈ l, p c = true) :
    l.length ≤ (t.takeWhile p).length := by
  obtain ⟨r, rfl⟩ := h
  induction l with
  | nil => exact Nat.zero_le _
  | cons c l ih =>
    have hc := hl c List.mem_cons_self
    have hrest := ih fun d hd => hl d (List.mem_cons_of_mem _ hd)
    rw [List.cons_append, List.takeWhile_cons, if_pos hc]
    simp only [List.length_cons]
    omega

end

section

variable {base b c n : Nat} {s t p : Text}

def HexPrefixed (base : Nat) (t : Text) : Prop :=
  (base = 0 ∨ base = 16) ∧ ∃ x h rest, t = ch '0' :: x :: h :: rest ∧
    (x = ch 'x' ∨ x = ch 'X') ∧ isDigit 16 h = true

/-- The base that a string tells, and the number of characters of its prefix. -/
inductive Told (base : Nat) (t : Text) : Nat → Nat → Prop
  | hex : HexPrefixed base t → Told base t 16 2
  | octal : base = 0 → ¬ HexPrefixed base t → t.head? = some (ch '0') → Told base t 8 0
  | decimal : base = 0 → t.head? ≠ some (ch '0') → Told base t 10 0
  | plain : base ≠ 0 → ¬ HexPrefixed base t → Told base t base 0

theorem exists_told (base : Nat) (t : Text) : ∃ b k, Told base t b k := by
  by_cases hh : HexPrefixed base t
  · exact ⟨_, _, .hex hh⟩
  by_cases h0 : base = 0
  · by_cases ht : t.head? = some (ch '0')
    · exact ⟨_, _, .octal h0 hh ht⟩
    · exact ⟨_, _, .decimal h0 ht⟩
  · exact ⟨_, _, .plain h0 hh⟩

def leading (b k : Nat) (t : Text) : Text := (t.drop k).takeWhile (isDigit b)

/-- A string that starts with a numeral has leading digits, and the numeral ends with them at
the latest. -/
theorem Told.numeral_le {k : Nat} (T : Told base t b k) (hp : p <+: t) (hn : Numeral base p n) :
    leading b k t ≠ [] ∧ p.length ≤ k + (leading b k t).length := by
  obtain ⟨pre, b', digits, hpre, rfl, hne, hd, -⟩ := hn
  obtain ⟨c, rest, rfl⟩ := List.exists_cons_of_ne_nil hne
  have hc : isDigit b' c = true := hd c List.mem_cons_self
  -- digits without a prefix are at the start of the string
  have hdirect : pre = [] → b' = b → k = 0 →
      leading b k t ≠ [] ∧ (pre ++ c :: rest).length ≤ k + (leading b k t).length := by
    rintro rfl rfl rfl
    have hlen := prefix_takeWhile hp hd
    have hle : (c :: rest).length ≤ (leading b' 0 t).length := hlen
    refine ⟨fun h => ?_, ?_⟩
    · rw [h] at hle
      exact absurd hle (Nat.not_succ_le_zero _)
    · rw [List.nil_append]
      omega
  -- a numeral of a smaller base ends in front of the letter
  have hshort : pre = [] → (b' = 8 ∨ b' = 10 ∨ b' = 16) → HexPrefixed base t → b = 16 → k = 2 →
      leading b k t ≠ [] ∧ (pre ++ c :: rest).length ≤ k + (leading b k t).length := by
    rintro rfl hb ⟨-, x, h, tail, rfl, hx, hh⟩ rfl rfl
    have hlead : leading 16 2 (ch '0' :: x :: h :: tail) =
        h :: tail.takeWhile (isDigit 16) := by
      show (h :: tail).takeWhile (isDigit 16) = _
      rw [List.takeWhile_cons, if_pos hh]
    rw [hlead]
    refine ⟨List.cons_ne_nil _ _, ?_⟩
    cases rest with
    | nil =>
      simp only [List.nil_append, List.length_cons, List.length_nil]
      omega
    | cons d rest =>
      obtain ⟨r, hr⟩ := hp
      have hdx : d = x := (List.cons.inj (List.cons.inj hr).2).1
      have hdig := hd d (List.mem_cons_of_mem _ List.mem_cons_self)
      rw [hdx] at hdig
      have hno := x_not_digit hx hb
      rw [isDigit] at hno
      rw [hno] at hdig
      cases hdig
  cases hpre with
  | hex hbase hx =>
    obtain ⟨r, hr⟩ := hp
    have ht : t = ch '0' :: _ :: c :: (rest ++ r) := hr.symm
    have hhex : HexPrefixed base t := ⟨hbase, _, c, rest ++ r, ht, hx, hc⟩
    cases T with
    | hex _ =>
      have hlead : leading 16 2 t = (c :: (rest ++ r)).takeWhile (isDigit 16) := by
        rw [ht]
        rfl
      have hlen := prefix_takeWhile (p := isDigit 16) (l := c :: rest)
        (t := c :: (rest ++ r)) ⟨r, rfl⟩ hd
      rw [hlead]
      refine ⟨fun h => ?_, ?_⟩
      · rw [h] at hlen
        exact absurd hlen (Nat.not_succ_le_zero _)
      · show (c :: rest).length + 1 + 1 ≤ _
        omega
    | octal _ hno _ => exact absurd hhex hno
    | decimal _ hno =>
      rw [ht] at hno
      exact absurd rfl hno
    | plain _ hno => exact absurd hhex hno
  | plain h0 =>
    cases T with
    | hex hh =>
      rcases hh.1 with h | h
      · exact absurd h h0
      · exact hshort rfl (.inr (.inr h)) hh rfl rfl
    | octal h _ _ => exact absurd h h0
    | decimal h _ => exact absurd h h0
    | plain _ _ => exact hdirect rfl rfl rfl
  | octal hhead =>
    cases T with
    | hex hh => exact hshort rfl (.inl rfl) hh rfl rfl
    | octal _ _ _ => exact hdirect rfl rfl rfl
    | decimal _ hno =>
      obtain ⟨r, hr⟩ := hp
      rw [← hr] at hno
      exact absurd hhead hno
    | plain h _ => exact absurd rfl h
  | decimal hhead =>
    obtain ⟨r, hr⟩ := hp
    have ht : t.head? = some c := by
      rw [← hr]
      rfl
    cases T with
    | hex hh =>
      obtain ⟨-, x, h, tail, rfl, -, -⟩ := hh
      exact absurd ht.symm hhead
    | octal _ _ h =>
      rw [ht] at h
      exact absurd h hhead
    | decimal _ _ => exact hdirect rfl rfl rfl
    | plain h _ => exact absurd rfl h

theorem Told.numeral {k : Nat} (T : Told base t b k) (hne : leading b k t ≠ []) :
    t = t.take k ++ (leading b k t ++ (t.drop k).dropWhile (isDigit b)) ∧
      (t.take k).length = k ∧
      Numeral base (t.take k ++ leading b k t)
        (value (fun c => (libIsbasedigit b c).getD 0) b (leading b k t)) := by
  have hsplit : t = t.take k ++ (leading b k t ++ (t.drop k).dropWhile (isDigit b)) := by
    unfold leading
    rw [List.takeWhile_append_dropWhile, List.take_append_drop]
  have hdig : ∀ c ∈ leading b k t, (libIsbasedigit b c).isSome :=
    List.all_eq_true.mp List.all_takeWhile
  have hhead : k = 0 → (leading b k t).head? = t.head? := by
    rintro rfl
    obtain ⟨c, rest, hc⟩ := List.exists_cons_of_ne_nil hne
    rw [hc] at hsplit ⊢
    rw [hsplit]
    rfl
  cases T with
  | hex hh =>
    obtain ⟨hbase, x, h, tail, rfl, hx, -⟩ := hh
    exact ⟨hsplit, rfl, _, _, _, .hex hbase hx, rfl, hne, hdig, rfl⟩
  | octal h0 hno ht =>
    subst h0
    refine ⟨hsplit, rfl, _, _, _, .octal ?_, rfl, hne, hdig, rfl⟩
    rw [hhead rfl, ht]
  | decimal h0 ht =>
    subst h0
    refine ⟨hsplit, rfl, _, _, _, .decimal ?_, rfl, hne, hdig, rfl⟩
    rw [hhead rfl]
    exact ht
  | plain h0 hno => exact ⟨hsplit, rfl, _, _, _, .plain h0, rfl, hne, hdig, rfl⟩

theorem Told.starts_iff {k : Nat} (T : Told base t b k) :
    StartsNumeral base t ↔ leading b k t ≠ [] := by
  constructor
  · rintro ⟨p, n, hp, hn⟩
    exact (T.numeral_le hp hn).1
  · intro h
    obtain ⟨hs, -, hn⟩ := T.numeral h
    refine ⟨_, _, ⟨(t.drop k).dropWhile (isDigit b), ?_⟩, hn⟩
    rw [List.append_assoc]
    exact hs.symm

end

section

variable {base b k n : Nat} {s t p : Text} {v : Int}

theorem skip_split (s : Text) : s.takeWhile isspace ++ libSkipspace s = s :=
  List.takeWhile_append_dropWhile

theorem skip_head (s : Text) : ∀ c, (libSkipspace s).head? = some c → isspace c = false := by
  intro c hc
  have h := List.head?_dropWhile_not isspace s
  unfold libSkipspace at hc
  rw [hc] at h
  simpa using h

theorem skip_self (h : ∀ c, s.head? = some c → isspace c = false) : libSkipspace s = s := by
  cases s with
  | nil => rfl
  | cons c s =>
    unfold libSkipspace
    rw [List.dropWhile_cons, if_neg]
    rw [h c rfl]
    decide

def signPart (t : Text) : Text := if StartsSign t then t.take 1 else []

theorem sign_split (t : Text) : signPart t ++ behindSign t = t := by
  unfold signPart behindSign
  split
  · cases t <;> rfl
  · rfl

def signed (t : Text) (n : Nat) : Int := if t.head? = some (ch '-') then -n else n

theorem signPart_sign (t : Text) (n : Nat) : Sign (signPart t) n (signed t n) := by
  unfold signPart signed
  by_cases hm : t.head? = some (ch '-')
  · obtain ⟨r, rfl⟩ : ∃ r, t = ch '-' :: r := by
      cases t with
      | nil => cases hm
      | cons c r => exact ⟨r, by rw [Option.some.inj hm]⟩
    rw [if_pos (.inr hm), if_pos hm]
    exact .minus
  · rw [if_neg hm]
    by_cases hp : t.head? = some (ch '+')
    · obtain ⟨r, rfl⟩ : ∃ r, t = ch '+' :: r := by
        cases t with
        | nil => cases hp
        | cons c r => exact ⟨r, by rw [Option.some.inj hp]⟩
      rw [if_pos (.inl hp)]
      exact .plus
    · have hno : ¬ StartsSign t := not_or.mpr ⟨hp, hm⟩
      rw [if_neg hno]
      exact .none

theorem Numeral.head (h : Numeral base p n) : ∃ c r b, p = c :: r ∧ isDigit b c = true := by
  obtain ⟨pre, b, digits, hpre, rfl, hne, hd, -⟩ := h
  obtain ⟨c, rest, rfl⟩ := List.exists_cons_of_ne_nil hne
  have hc := hd c List.mem_cons_self
  cases hpre with
  | hex hb hx => exact ⟨ch '0', _, 16, rfl, rfl⟩
  | plain h => exact ⟨c, rest, _, rfl, hc⟩
  | octal h => exact ⟨c, rest, _, rfl, hc⟩
  | decimal h => exact ⟨c, rest, _, rfl, hc⟩

theorem Number.split (hp : p <+: s) (hn : Number base p v) :
    ∃ num n, Numeral base num n ∧ num <+: behindSign (libSkipspace s) ∧
      p.length = (s.takeWhile isspace).length + ((signPart (libSkipspace s)).length +
        num.length) := by
  obtain ⟨space, sign, num, n, rfl, hspace, hnum, hsign⟩ := hn
  obtain ⟨r, rfl⟩ := hp
  obtain ⟨c, rest, b, rfl, hc⟩ := hnum.head
  have hcs := digit_not_space hc
  obtain ⟨hplus, hminus⟩ := digit_not_sign hc
  have htw : ∀ l : Text, (∀ d ∈ l, isspace d = true) → ∀ d m, isspace d = false →
      (l ++ d :: m).takeWhile isspace = l ∧ libSkipspace (l ++ d :: m) = d :: m := by
    intro l hl d m hd
    constructor
    · rw [List.takeWhile_append_of_pos hl, List.takeWhile_cons, if_neg (by rw [hd]; decide),
        List.append_nil]
    · unfold libSkipspace
      rw [List.dropWhile_append_of_pos hl, List.dropWhile_cons, if_neg (by rw [hd]; decide)]
  refine ⟨_, _, hnum, ?_⟩
  cases hsign with
  | none =>
    obtain ⟨h1, h2⟩ := htw space hspace c (rest ++ r) hcs
    have hs : space ++ ([] ++ c :: rest) ++ r = space ++ c :: (rest ++ r) := by simp
    have hno : ¬ StartsSign (c :: (rest ++ r)) := by
      rintro (h | h)
      · exact hplus (Option.some.inj h)
      · exact hminus (Option.some.inj h)
    rw [hs, h1, h2, behindSign, signPart, if_neg hno, if_neg hno]
    exact ⟨⟨r, rfl⟩, by simp⟩
  | plus =>
    obtain ⟨h1, h2⟩ := htw space hspace (ch '+') (c :: (rest ++ r)) rfl
    have hs : space ++ ([ch '+'] ++ c :: rest) ++ r =
        space ++ ch '+' :: (c :: (rest ++ r)) := by simp
    have hyes : StartsSign (ch '+' :: (c :: (rest ++ r))) := .inl rfl
    rw [hs, h1, h2, behindSign, signPart, if_pos hyes, if_pos hyes]
    refine ⟨⟨r, rfl⟩, ?_⟩
    simp
    omega
  | minus =>
    obtain ⟨h1, h2⟩ := htw space hspace (ch '-') (c :: (rest ++ r)) rfl
    have hs : space ++ ([ch '-'] ++ c :: rest) ++ r =
        space ++ ch '-' :: (c :: (rest ++ r)) := by simp
    have hyes : StartsSign (ch '-' :: (c :: (rest ++ r))) := .inr rfl
    rw [hs, h1, h2, behindSign, signPart, if_pos hyes, if_pos hyes]
    refine ⟨⟨r, rfl⟩, ?_⟩
    simp
    omega

def rest (b k : Nat) (s : Text) : Text :=
  ((behindSign (libSkipspace s)).drop k).dropWhile (isDigit b)

def taken (b k : Nat) (s : Text) : Text :=
  s.takeWhile isspace ++ (signPart (libSkipspace s) ++
    ((behindSign (libSkipspace s)).take k ++ leading b k (behindSign (libSkipspace s))))

def numberValue (b k : Nat) (s : Text) : Int :=
  signed (libSkipspace s) (value (fun c => (libIsbasedigit b c).getD 0) b
    (leading b k (behindSign (libSkipspace s))))

theorem taken_rest (b k : Nat) (s : Text) : taken b k s ++ rest b k s = s := by
  unfold taken rest leading
  rw [List.append_assoc, List.append_assoc, List.append_assoc,
    List.takeWhile_append_dropWhile, List.take_append_drop, sign_split, skip_split]

theorem Told.longest (T : Told base (behindSign (libSkipspace s)) b k)
    (hne : leading b k (behindSign (libSkipspace s)) ≠ []) :
    Longest base s (taken b k s) (numberValue b k s) := by
  obtain ⟨-, hk, hnum⟩ := T.numeral hne
  refine ⟨⟨_, taken_rest b k s⟩, ?_, ?_⟩
  · exact ⟨_, _, _, _, rfl, fun c hc => List.all_eq_true.mp List.all_takeWhile c hc, hnum,
      signPart_sign _ _⟩
  · intro p' v' hp' hn'
    obtain ⟨num, n, hnum', hpre, hlen⟩ := Number.split hp' hn'
    have hle := (T.numeral_le hpre hnum').2
    rw [hlen]
    unfold taken
    simp only [List.length_append]
    rw [hk]
    omega

theorem Told.no_number (T : Told base (behindSign (libSkipspace s)) b k)
    (hnil : leading b k (behindSign (libSkipspace s)) = []) :
    ∀ p v, p <+: s → ¬ Number base p v := by
  intro p v hp hn
  obtain ⟨num, n, hnum, hpre, -⟩ := Number.split hp hn
  exact (T.numeral_le hpre hnum).1 hnil

theorem Told.right_iff {representable : Int → Prop} {r : Int × Text}
    (T : Told base (behindSign (libSkipspace s)) b k)
    (hv : leading b k (behindSign (libSkipspace s)) ≠ [] → r.2 = rest b k s →
      representable (numberValue b k s) → r.1 = numberValue b k s) :
    Right representable s base r ↔
      if leading b k (behindSign (libSkipspace s)) ≠ [] then r.2 = rest b k s else r = (0, s) := by
  by_cases hne : leading b k (behindSign (libSkipspace s)) ≠ []
  · rw [if_pos hne]
    have hlong := T.longest hne
    constructor
    · rintro (⟨p, v, ⟨hp, hn, hmax⟩, hs, -⟩ | ⟨hno, -⟩)
      · have h1 := hmax _ _ hlong.1 hlong.2.1
        have h2 := hlong.2.2 _ _ hp hn
        have hs' := taken_rest b k s
        have heq : p ++ r.2 = taken b k s ++ rest b k s := hs.symm.trans hs'.symm
        exact (List.append_inj heq (Nat.le_antisymm h2 h1)).2
      · exact absurd hlong.2.1 (hno _ _ hlong.1)
    · intro h
      refine .inl ⟨_, _, hlong, ?_, hv hne h⟩
      rw [h, taken_rest]
  · rw [if_neg hne]
    have hno := T.no_number (not_not.mp hne)
    constructor
    · rintro (⟨p, v, ⟨hp, hn, -⟩, -⟩ | ⟨-, h⟩)
      · exact absurd hn (hno _ _ hp)
      · exact h
    · exact fun h => .inr ⟨hno, h⟩

end

section

variable {base b k n : Nat} {s t : Text}

/-- The prefix that the code takes is the one that tells the base, but for a bare `0x`. -/
theorem Told.strtoul (T : Told base t b k)
    (ht : ∀ c, t.head? = some c → isspace c = false) (hbare : ¬ BarePrefix base t) :
    strtoul t base =
      (value (fun c => (libIsbasedigit b c).getD 0) b (leading b k t) % 2 ^ 32,
        (t.drop k).dropWhile (isDigit b)) := by
  have hzero : (0 : Nat) < 2 ^ 32 := by decide
  unfold Strtol.strtoul
  rw [skip_self ht]
  dsimp only
  cases T with
  | hex hh =>
    obtain ⟨hbase, x, h, r, rfl, hx, hh⟩ := hh
    have hcheck : libCheckbase base (ch '0' :: x :: h :: r) = (16, h :: r) := by
      have hcond : (x = ch 'X' ∨ x = ch 'x') ∧ (libIsbasedigit 16 h).isSome := ⟨hx.symm, hh⟩
      rcases hbase with rfl | rfl
      · exact if_pos hcond
      · exact if_pos hcond.1
    rw [hcheck]
    exact digitLoop_eq 16 (h :: r) 0 hzero
  | octal h0 hno hhead =>
    subst h0
    obtain ⟨r, rfl⟩ : ∃ r, t = ch '0' :: r := by
      cases t with
      | nil => cases hhead
      | cons c r => exact ⟨r, by rw [Option.some.inj hhead]⟩
    have hcheck : libCheckbase 0 (ch '0' :: r) = (8, r) := by
      match r with
      | [] => rfl
      | [x] => rfl
      | x :: h :: r =>
        have hno' : ¬((x = ch 'X' ∨ x = ch 'x') ∧ (libIsbasedigit 16 h).isSome) :=
          fun hc => hno ⟨.inl rfl, x, h, r, rfl, hc.1.symm, hc.2⟩
        exact if_neg hno'
    have hlead : leading 8 0 (ch '0' :: r) = ch '0' :: r.takeWhile (isDigit 8) := rfl
    have hdrop : ((ch '0' :: r).drop 0).dropWhile (isDigit 8) = r.dropWhile (isDigit 8) := rfl
    rw [hcheck, hlead, hdrop]
    exact digitLoop_eq 8 r 0 hzero
  | decimal h0 hhead =>
    subst h0
    have hcheck : libCheckbase 0 t = (10, t) := by
      unfold libCheckbase
      rw [if_pos rfl]
      split
      · exact absurd rfl hhead
      · exact absurd rfl hhead
      · rfl
    rw [hcheck]
    exact digitLoop_eq 10 t 0 hzero
  | plain h0 hno =>
    have hcheck : libCheckbase base t = (base, t) := by
      unfold libCheckbase
      rw [if_neg h0]
      by_cases h16 : base = 16
      · subst h16
        rw [if_pos rfl]
        split
        · rename_i x r
          refine if_neg fun hx => ?_
          cases r with
          | nil => exact hbare ⟨rfl, x, [], rfl, hx.symm, fun c hc => nomatch hc⟩
          | cons h r =>
            cases hh : libIsbasedigit 16 h with
            | none =>
              refine hbare ⟨rfl, x, h :: r, rfl, hx.symm, fun c hc => ?_⟩
              rw [← Option.some.inj hc]
              exact hh
            | some d =>
              have hd : isDigit 16 h = true := by
                rw [isDigit, hh]
                rfl
              exact hno ⟨.inr rfl, x, h, r, rfl, hx.symm, hd⟩
        · rfl
      · rw [if_neg h16]
    rw [hcheck]
    exact digitLoop_eq base t 0 hzero

theorem bare_taken (hbare : BarePrefix base t) (T : Told base t b k) :
    leading b k t ≠ [] ∧
      (strtoul t base).2.length + 1 = ((t.drop k).dropWhile (isDigit b)).length := by
  obtain ⟨rfl, x, r, rfl, hx, hr⟩ := hbare
  have hspace : libSkipspace (ch '0' :: x :: r) = ch '0' :: x :: r := rfl
  have hnone : ∀ c, r.head? = some c → isDigit 16 c = false := fun c hc => by
    rw [isDigit, hr c hc]
    rfl
  have hloop : digitLoop 16 0 r = (0, r) := by
    cases r with
    | nil => rfl
    | cons c r =>
      unfold digitLoop
      rw [hr c rfl]
  have hcode : strtoul (ch '0' :: x :: r) 16 = (0, r) := by
    have hcheck : libCheckbase 16 (ch '0' :: x :: r) = (16, r) := if_pos hx.symm
    unfold Strtol.strtoul
    rw [hspace, hcheck]
    exact hloop
  have hxd := x_not_digit (b := 16) hx (.inr (.inr rfl))
  rw [hcode]
  cases T with
  | hex hh =>
    obtain ⟨-, y, h, r', he, -, hh⟩ := hh
    have hr' : r = h :: r' := (List.cons.inj (List.cons.inj he).2).2
    rw [hr'] at hnone
    rw [hnone h rfl] at hh
    cases hh
  | plain _ _ =>
    have h0 : isDigit 16 (ch '0') = true := rfl
    have hlead : leading 16 0 (ch '0' :: x :: r) = [ch '0'] := by
      show (ch '0' :: x :: r).takeWhile (isDigit 16) = _
      rw [List.takeWhile_cons, if_pos h0, List.takeWhile_cons, if_neg (by rw [hxd]; decide)]
    have hdrop : ((ch '0' :: x :: r).drop 0).dropWhile (isDigit 16) = x :: r := by
      show (ch '0' :: x :: r).dropWhile (isDigit 16) = _
      rw [List.dropWhile_cons, if_pos h0, List.dropWhile_cons, if_neg (by rw [hxd]; decide)]
    rw [hlead, hdrop]
    exact ⟨List.cons_ne_nil _ _, rfl⟩
  | octal h => cases h
  | decimal h => cases h

theorem strtoul_skip (s : Text) (base : Nat) : strtoul (libSkipspace s) base = strtoul s base := by
  unfold strtoul
  rw [skip_self (skip_head s)]

theorem strtol_eq (s : Text) (base : Nat) :
    strtol s base =
      (wrap 32 (signed (libSkipspace s) (strtoul (behindSign (libSkipspace s)) base).1),
        (strtoul (behindSign (libSkipspace s)) base).2) := by
  unfold strtol
  cases ht : libSkipspace s with
  | nil => rfl
  | cons c r =>
    dsimp only
    by_cases hm : c = ch '-'
    · subst hm
      rw [if_pos rfl]
      have hbehind : behindSign (ch '-' :: r) = r := if_pos (.inr rfl)
      have hsigned : ∀ n, signed (ch '-' :: r) n = -n := fun n => if_pos rfl
      rw [hbehind, hsigned]
      refine congrArg (·, (strtoul r base).2) (wrap_congr ?_)
      have hmod := wrap_emod 32 (strtoul r base).1
      omega
    · rw [if_neg hm]
      have hsigned : ∀ n, signed (c :: r) n = n :=
        fun n => if_neg fun h => hm (Option.some.inj h)
      by_cases hp : c = ch '+'
      · subst hp
        have hbehind : behindSign (ch '+' :: r) = r := if_pos (.inl rfl)
        rw [if_pos rfl, hbehind, hsigned]
      · have hbehind : behindSign (c :: r) = c :: r := if_neg (by
          rintro (h | h)
          · exact hp (Option.some.inj h)
          · exact hm (Option.some.inj h))
        rw [if_neg hp, hbehind, hsigned]

theorem checkbase_le (base : Nat) (s : Text) : (libCheckbase base s).2.length ≤ s.length := by
  unfold libCheckbase
  split
  · split
    · split
      · exact Nat.le_succ_of_le (Nat.le_succ _)
      · exact Nat.le_succ _
    · exact Nat.le_succ _
    · exact le_refl _
  · split
    · split
      · split
        · exact Nat.le_succ_of_le (Nat.le_succ _)
        · exact le_refl _
      · exact le_refl _
    · exact le_refl _

theorem strtoul_le (s : Text) (base : Nat) : (strtoul s base).2.length ≤ s.length := by
  unfold strtoul
  dsimp only
  rw [digitLoop_eq _ _ _ (by decide)]
  exact ((List.dropWhile_suffix _).length_le.trans (checkbase_le _ _)).trans
    (List.dropWhile_suffix _).length_le

theorem Told.no_digits (T : Told base t b k) (hnil : leading b k t = []) :
    (t.drop k).dropWhile (isDigit b) = t := by
  have hk : k = 0 := by
    cases T with
    | hex hh =>
      obtain ⟨-, x, h, r, rfl, -, hd⟩ := hh
      have hlead : leading 16 2 (ch '0' :: x :: h :: r) =
          (h :: r).takeWhile (isDigit 16) := rfl
      rw [hlead, List.takeWhile_cons, if_pos hd] at hnil
      cases hnil
    | octal | decimal | plain => rfl
  subst hk
  have hsplit : leading b 0 t ++ (t.drop 0).dropWhile (isDigit b) = t :=
    List.takeWhile_append_dropWhile
  rw [hnil] at hsplit
  exact hsplit

theorem Told.head_not_space (T : Told base t b k) (hne : leading b k t ≠ []) :
    ∀ c, t.head? = some c → isspace c = false ∧ c ≠ ch '+' ∧ c ≠ ch '-' := by
  obtain ⟨hs, -, hn⟩ := T.numeral hne
  obtain ⟨c, r, b', hc, hd⟩ := hn.head
  rw [← List.append_assoc, hc] at hs
  intro c' hc'
  rw [hs] at hc'
  rw [← Option.some.inj hc']
  exact ⟨digit_not_space hd, digit_not_sign hd⟩

theorem StartsSign.no_numeral (h : StartsSign t) : ¬ StartsNumeral base t := by
  obtain ⟨b, k, T⟩ := exists_told base t
  rw [T.starts_iff, not_not]
  by_contra hne
  rcases h with h | h
  · exact (T.head_not_space hne _ h).2.1 rfl
  · exact (T.head_not_space hne _ h).2.2 rfl

theorem strtoul_nothing (ht : ∀ c, t.head? = some c → isspace c = false)
    (h : ¬ StartsNumeral base t) : strtoul t base = (0, t) := by
  obtain ⟨b, k, T⟩ := exists_told base t
  have hnil : leading b k t = [] := not_not.mp fun hne => h (T.starts_iff.mpr hne)
  rw [T.strtoul ht (fun hbare => (bare_taken hbare T).1 hnil), hnil, T.no_digits hnil]
  rfl

theorem skip_iff : (∀ c, s.head? = some c → isspace c = false) ↔ libSkipspace s = s :=
  ⟨skip_self, fun h => h ▸ skip_head s⟩

end

section

variable {base : Nat} {s : Text}

theorem behindSign_of_not (h : ¬ StartsSign s) : behindSign s = s := if_neg h

theorem StartsSign.behind_length (h : StartsSign s) : (behindSign s).length + 1 = s.length := by
  unfold behindSign
  rw [if_pos h]
  cases s with
  | nil => rcases h with h | h <;> cases h
  | cons c r => rfl

/-- `strtoul` is right exactly for a numeral without a sign, or where nothing is to be taken. -/
theorem strtoul_iff (s : Text) (base : Nat) :
    Right IsUnsignedLong s base ((strtoul s base).1, (strtoul s base).2) ↔
      StrtoulMeets s base := by
  obtain ⟨b, k, T⟩ := exists_told base (behindSign (libSkipspace s))
  have hstart := T.starts_iff
  unfold StrtoulMeets
  rw [skip_iff, ← strtoul_skip s]
  by_cases hne : leading b k (behindSign (libSkipspace s)) ≠ []
  · have hmeets : ¬ (libSkipspace s = s ∧ ¬ StartsNumeral base (behindSign s)) := by
      rintro ⟨hs, hno⟩
      rw [hs] at hstart
      rw [hs] at hne
      exact hno (hstart.mpr hne)
    by_cases hsign : StartsSign (libSkipspace s)
    · -- the sign is the end of what is taken
      have hcode : strtoul (libSkipspace s) base = (0, libSkipspace s) :=
        strtoul_nothing (skip_head s) hsign.no_numeral
      have hlen := hsign.behind_length
      have hend : (strtoul (libSkipspace s) base).2 ≠ rest b k s := by
        intro h
        have hle := (List.dropWhile_suffix (isDigit b)
          (l := (behindSign (libSkipspace s)).drop k)).length_le
        have hdrop := List.length_drop (i := k) (l := behindSign (libSkipspace s))
        have heq := congrArg List.length h
        rw [hcode] at heq
        unfold rest at heq
        dsimp only at heq
        omega
      rw [T.right_iff fun _ h => absurd h hend, if_pos hne]
      exact ⟨fun h => absurd h hend,
        fun h => (h.resolve_right hmeets).1.elim fun p h => absurd ⟨p, h⟩ hsign.no_numeral⟩
    · have hbehind := behindSign_of_not hsign
      rw [hbehind] at hstart
      by_cases hbare : BarePrefix base (libSkipspace s)
      · have hend : (strtoul (libSkipspace s) base).2 ≠ rest b k s := by
          intro h
          have hlen := (bare_taken hbare (hbehind ▸ T)).2
          rw [h] at hlen
          unfold rest at hlen
          rw [hbehind] at hlen
          omega
        rw [T.right_iff fun _ h => absurd h hend, if_pos hne]
        exact ⟨fun h => absurd h hend, fun h => absurd hbare (h.resolve_right hmeets).2⟩
      · have hcode := Told.strtoul (hbehind ▸ T) (skip_head s) hbare
        have hend : (strtoul (libSkipspace s) base).2 = rest b k s := by
          unfold rest
          rw [hcode, hbehind]
        have hvalue : IsUnsignedLong (numberValue b k s) →
            ((strtoul (libSkipspace s) base).1 : Int) = numberValue b k s := by
          intro hv
          have hsigned : numberValue b k s = _ := if_neg fun h => hsign (.inr h)
          rw [hsigned, hbehind] at hv ⊢
          rw [hcode]
          refine congrArg Int.ofNat (Nat.mod_eq_of_lt ?_)
          have hlt := hv.2
          omega
        rw [T.right_iff fun _ _ => hvalue, if_pos hne]
        rw [hbehind] at hne
        exact ⟨fun _ => .inl ⟨hstart.mpr hne, hbare⟩, fun _ => hend⟩
  · have hno : ¬ StartsNumeral base (libSkipspace s) := by
      by_cases hsign : StartsSign (libSkipspace s)
      · exact hsign.no_numeral
      · rw [behindSign_of_not hsign] at hstart hne
        exact fun h => hne (hstart.mp h)
    have hcode := strtoul_nothing (skip_head s) hno
    rw [T.right_iff fun h => absurd h hne, if_neg hne, hcode]
    constructor
    · intro h
      have hs : libSkipspace s = s := congrArg Prod.snd h
      rw [hs] at hstart hne
      exact .inr ⟨hs, fun h => hne (hstart.mp h)⟩
    · rintro (⟨h, -⟩ | ⟨h, -⟩)
      · exact absurd h hno
      · rw [h]
        rfl

/-- `strtol` is right exactly for a numeral behind the sign, or where nothing is to be taken. -/
theorem strtol_iff (s : Text) (base : Nat) :
    Right IsLong s base (strtol s base) ↔ StrtolMeets s base := by
  obtain ⟨b, k, T⟩ := exists_told base (behindSign (libSkipspace s))
  have hstart := T.starts_iff
  have hcode := strtol_eq s base
  unfold StrtolMeets
  rw [skip_iff]
  by_cases hne : leading b k (behindSign (libSkipspace s)) ≠ []
  · have hmeets : ¬ (libSkipspace s = s ∧ ¬ StartsSign s ∧ ¬ StartsNumeral base s) := by
      rintro ⟨hs, hsign, hno⟩
      rw [hs, behindSign_of_not hsign] at hstart hne
      exact hno (hstart.mpr hne)
    by_cases hbare : BarePrefix base (behindSign (libSkipspace s))
    · have hend : (strtol s base).2 ≠ rest b k s := by
        intro h
        have hlen := (bare_taken hbare T).2
        rw [hcode] at h
        dsimp only at h
        rw [h] at hlen
        unfold rest at hlen
        omega
      rw [T.right_iff fun _ h => absurd h hend, if_pos hne]
      exact ⟨fun h => absurd h hend, fun h => absurd hbare (h.resolve_right hmeets).2⟩
    · have htake := T.strtoul (fun c hc => (T.head_not_space hne c hc).1) hbare
      have hend : (strtol s base).2 = rest b k s := by
        rw [hcode, htake]
        rfl
      have hvalue : IsLong (numberValue b k s) → (strtol s base).1 = numberValue b k s := by
        intro hv
        rw [hcode, htake]
        refine Eq.trans (wrap_congr ?_) (wrap_of_mem hv.1 hv.2 (.inl rfl))
        unfold numberValue signed
        dsimp only
        split <;> omega
      rw [T.right_iff fun _ _ => hvalue, if_pos hne]
      exact ⟨fun _ => .inl ⟨hstart.mpr hne, hbare⟩, fun _ => hend⟩
  · have hno : ¬ StartsNumeral base (behindSign (libSkipspace s)) := fun h => hne (hstart.mp h)
    rw [T.right_iff fun h => absurd h hne, if_neg hne]
    constructor
    · intro h
      have hend : (strtoul (behindSign (libSkipspace s)) base).2 = s := by
        rw [hcode] at h
        exact congrArg Prod.snd h
      -- whatever is taken makes the rest shorter
      have hle := strtoul_le (behindSign (libSkipspace s)) base
      have hskip : (libSkipspace s).length ≤ s.length := (List.dropWhile_suffix _).length_le
      rw [hend] at hle
      have hsign : ¬ StartsSign (libSkipspace s) := fun hs => by
        have := hs.behind_length
        omega
      rw [behindSign_of_not hsign] at hle hno
      have hs : libSkipspace s = s :=
        (List.dropWhile_suffix _).eq_of_length (Nat.le_antisymm hskip hle)
      rw [hs] at hsign hno
      exact .inr ⟨hs, hsign, hno⟩
    · rintro (⟨h, -⟩ | ⟨hs, hsign, -⟩)
      · exact absurd h hno
      · rw [hs, behindSign_of_not hsign] at hno hcode
        rw [strtoul_nothing (skip_iff.mpr hs) hno] at hcode
        rw [hcode]
        have hzero : signed s 0 = 0 := by
          unfold signed
          split <;> rfl
        rw [hzero]
        rfl

def convBase : Conv → Nat
  | .x | .X | .p => 16
  | .o => 8
  | .b => 2
  | .d | .i | .u => 10

theorem strtoul_all {b : Nat} {t : Text} (hb : b = 8 ∨ b = 10 ∨ b = 16)
    (hall : ∀ c ∈ t, isDigit b c = true) :
    strtoul t b = (value (fun c => (libIsbasedigit b c).getD 0) b t % 2 ^ 32, []) := by
  have hx : ∀ x r, t = ch '0' :: x :: r → ¬ (x = ch 'x' ∨ x = ch 'X') := by
    rintro x r rfl hx
    have hd := hall x (List.mem_cons_of_mem _ List.mem_cons_self)
    rw [x_not_digit hx hb] at hd
    cases hd
  have T : Told b t b 0 := by
    refine .plain (by omega) ?_
    rintro ⟨-, x, h, r, ht, hxX, -⟩
    exact hx x (h :: r) ht hxX
  have hspace : ∀ c, t.head? = some c → isspace c = false := by
    intro c hc
    exact digit_not_space (hall c (List.mem_of_mem_head? hc))
  have hbare : ¬ BarePrefix b t := by
    rintro ⟨-, x, r, ht, hxX, -⟩
    exact hx x r ht hxX
  have hlead : leading b 0 t = t := List.takeWhile_eq_self_iff.mpr hall
  have hrest : (t.drop 0).dropWhile (isDigit b) = [] := List.dropWhile_eq_nil_iff.mpr hall
  rw [T.strtoul hspace hbare, hlead, hrest]

theorem digit_value {b : Nat} (hb : b = 8 ∨ b = 10 ∨ b = 16) :
    ∀ d < b, libIsbasedigit b (digitChar (ch 'a') d) = some d := by
  rcases hb with rfl | rfl | rfl
  · decide
  · decide
  · decide

theorem strtoul_digits {conv : Conv} (hc : conv = .d ∨ conv = .x ∨ conv = .o) (n : Nat) :
    (∀ c ∈ convDigits conv n, isDigit (convBase conv) c = true) ∧
      strtoul (convDigits conv n) (convBase conv) = (n % 2 ^ 32, []) := by
  have hb : convBase conv = 8 ∨ convBase conv = 10 ∨ convBase conv = 16 := by
    rcases hc with rfl | rfl | rfl <;> decide
  have hconv : convDigits conv n = numeral (digitChar (ch 'a')) (convBase conv) n := by
    rcases hc with rfl | rfl | rfl <;> rfl
  have hone : 1 < convBase conv := by omega
  have hdig := digit_value hb
  have hall : ∀ c ∈ convDigits conv n, isDigit (convBase conv) c = true := by
    intro c hc
    rw [hconv] at hc
    obtain ⟨d, hd, rfl⟩ := numeral_mem hone hc
    rw [isDigit, hdig d hd]
    rfl
  refine ⟨hall, ?_⟩
  rw [strtoul_all hb hall, hconv, value_numeral hone]
  intro d hd
  rw [hdig d hd]
  rfl

/-- A sign and digits are read back, a hexadecimal or octal number of any sign included. -/
theorem strtol_printed {conv : Conv} (hc : conv = .d ∨ conv = .x ∨ conv = .o) {v : Int}
    (hv : IsLong v) :
    strtol (codeSign conv false v ++ convDigits conv (magnitude 32 conv v)) (convBase conv) =
      (v, []) := by
  obtain ⟨hall, htake⟩ := strtoul_digits hc (magnitude 32 conv v)
  have hself := wrap_of_mem hv.1 hv.2 (.inl rfl)
  by_cases hneg : conv = .d ∧ v < 0
  · obtain ⟨rfl, hneg⟩ := hneg
    have hsign : codeSign .d false v = [ch '-'] := if_pos hneg
    rw [hsign, strtol_eq]
    have hskip : libSkipspace ([ch '-'] ++ convDigits .d (magnitude 32 .d v)) =
        ch '-' :: convDigits .d (magnitude 32 .d v) := rfl
    have hbehind : behindSign (ch '-' :: convDigits .d (magnitude 32 .d v)) =
        convDigits .d (magnitude 32 .d v) := if_pos (.inr rfl)
    have hsigned : ∀ n, signed (ch '-' :: convDigits .d (magnitude 32 .d v)) n = -n :=
      fun n => if_pos rfl
    rw [hskip, hbehind, htake, hsigned]
    refine Prod.ext ((wrap_congr ?_).trans hself) rfl
    unfold magnitude
    dsimp only
    omega
  · have hsign : codeSign conv false v = [] := by
      unfold codeSign
      rcases hc with rfl | rfl | rfl
      · exact if_neg fun h => hneg ⟨rfl, h⟩
      · rfl
      · rfl
    have hhead : ∀ c, (convDigits conv (magnitude 32 conv v)).head? = some c →
        isDigit (convBase conv) c = true := fun c hc => hall c (List.mem_of_mem_head? hc)
    have hno : ¬ StartsSign (convDigits conv (magnitude 32 conv v)) := by
      rintro (h | h)
      · exact (digit_not_sign (hhead _ h)).1 rfl
      · exact (digit_not_sign (hhead _ h)).2 rfl
    have hsigned : ∀ n, signed (convDigits conv (magnitude 32 conv v)) n = n :=
      fun n => if_neg fun h => hno (.inr h)
    have hmod : ((magnitude 32 conv v % 2 ^ 32 : Nat) : Int) % 2 ^ 32 = v % 2 ^ 32 := by
      unfold magnitude
      rcases hc with rfl | rfl | rfl
      · have hpos : 0 ≤ v := not_lt.mp fun h => hneg ⟨rfl, h⟩
        dsimp only
        omega
      · dsimp only
        omega
      · dsimp only
        omega
    rw [hsign, List.nil_append, strtol_eq, skip_self fun c hc => digit_not_space (hhead c hc),
      behindSign_of_not hno, htake, hsigned]
    exact congrArg (·, []) ((wrap_congr hmod).trans hself)

theorem strtol_format {conv : Conv} (hc : conv = .d ∨ conv = .x ∨ conv = .o) {v : Int}
    (hv : IsLong v) :
    ∃ out, libVsprintf Outstream.put ⟨[], 0⟩ (format [] .none .long conv) [.int v] =
        some ⟨out, out.length⟩ ∧
      strtol out (convBase conv) = (v, []) := by
  have hp : conv ≠ .p := by
    rcases hc with rfl | rfl | rfl <;> decide
  have hout := libVsprintf_format (w := .none) [] .long hp trivial hv ⟨[], 0⟩ []
  dsimp only at hout
  have hsign : (codeSign conv false v).length ≤ 1 := by
    unfold codeSign
    rcases hc with rfl | rfl | rfl
    · dsimp only
      split <;> decide
    · exact Nat.zero_le _
    · exact Nat.zero_le _
  have hpre : codePrefix conv false = [] := by
    rcases hc with rfl | rfl | rfl <;> rfl
  have hnone : ([] : List Nat).length ≤ 2 := Nat.zero_le _
  have hlen := (parts_length (.inl rfl) (magnitude_lt (.inl rfl) conv hv) conv hsign hnone).2
  have hpad := padding_zero (w := 0) (Nat.zero_le _) (hlen.trans (by decide))
  have hflags : ∀ f : Flag, decide (f ∈ ([] : List Flag)) = false := fun _ => rfl
  have hwidth : padding (wrap 32 Width.none.value)
      (codeSign conv false v ++ ([] ++ convDigits conv (magnitude 32 conv v))).length = 0 := hpad
  rw [hflags, hflags, hpre] at hout
  have hbits : Length.long.bits = 32 := rfl
  rw [hbits, hwidth] at hout
  refine ⟨_, hout.trans ?_, strtol_printed hc hv⟩
  simp [lastFmt, Fmt.layout, Layout.text]

/-- Both functions are right exactly when they meet their conditions; and `strtol` gets the value
back from what the long conversions print. -/
theorem parse_right_iff (s : Text) (base : Nat) {conv : Conv}
    (hc : conv = .d ∨ conv = .x ∨ conv = .o) {v : Int} (hv : IsLong v) :
    (Right IsLong s base (strtol s base) ↔ StrtolMeets s base) ∧
      (Right IsUnsignedLong s base ((strtoul s base).1, (strtoul s base).2) ↔
        StrtoulMeets s base) ∧
      ∃ out, libVsprintf Outstream.put ⟨[], 0⟩ (format [] .none .long conv) [.int v] =
          some ⟨out, out.length⟩ ∧
        strtol out (convBase conv) = (v, []) :=
  ⟨strtol_iff s base, strtoul_iff s base, strtol_format hc hv⟩

/-- `12` with base 10, and `%lx` of -1. -/
theorem parse_right_minus_one :
    (Right IsLong [ch '1', ch '2'] 10 (strtol [ch '1', ch '2'] 10) ↔
        StrtolMeets [ch '1', ch '2'] 10) ∧
      (Right IsUnsignedLong [ch '1', ch '2'] 10
          ((strtoul [ch '1', ch '2'] 10).1, (strtoul [ch '1', ch '2'] 10).2) ↔
        StrtoulMeets [ch '1', ch '2'] 10) ∧
      ∃ out, libVsprintf Outstream.put ⟨[], 0⟩ (format [] .none .long .x) [.int (-1)] =
          some ⟨out, out.length⟩ ∧
        strtol out (convBase .x) = (-1, []) :=
  parse_right_iff [ch '1', ch '2'] 10 (.inr (.inl rfl)) ⟨by decide, by decide⟩

/-- White space behind the sign is taken, and the end is moved past a sign without digits. -/
theorem sign_taken :
    strtol [ch '-', ch ' ', ch '5'] 10 = (-5, []) ∧
      ¬ Right IsLong [ch '-', ch ' ', ch '5'] 10 (strtol [ch '-', ch ' ', ch '5'] 10) ∧
      strtol [ch '+'] 10 = (0, []) ∧
      ¬ Right IsLong [ch '+'] 10 (strtol [ch '+'] 10) := by
  have hspace : Told 10 [ch ' ', ch '5'] 10 0 :=
    .plain (by decide) fun h => absurd h.1 (by decide)
  have hnil : Told 10 [] 10 0 := .plain (by decide) fun h => absurd h.1 (by decide)
  refine ⟨by decide +kernel, ?_, by decide +kernel, ?_⟩
  · rw [strtol_iff]
    rintro (⟨h, -⟩ | ⟨-, h, -⟩)
    · exact absurd (hspace.starts_iff.mp h) (by decide)
    · exact h (.inr rfl)
  · rw [strtol_iff]
    rintro (⟨h, -⟩ | ⟨-, h, -⟩)
    · exact absurd (hnil.starts_iff.mp h) (by decide)
    · exact h (.inl rfl)

end

end NuttxAvr32.Strtol
