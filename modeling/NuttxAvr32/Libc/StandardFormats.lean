import NuttxAvr32.Libc.Specifications
import Mathlib.Data.Nat.Digits.Lemmas

/-! # Formats of the C standard

What the standard prescribes for an integer conversion, and when `lib_vsprintf` prints it.
-/

namespace NuttxAvr32.Vsprintf

open Numerals

section

def stdSign (flags : List Flag) (conv : Conv) (v : Int) : List Nat :=
  match conv with
  | .d | .i => if v < 0 then [ch '-'] else if Flag.plus ∈ flags then [ch '+'] else []
  | _ => []

/-- The prefix of the alternate form, for numbers other than zero. -/
def stdPrefix (flags : List Flag) (conv : Conv) (n : Nat) : List Nat :=
  if Flag.alt ∈ flags ∧ n ≠ 0 then
    match conv with
    | .x => [ch '0', ch 'x']
    | .X => [ch '0', ch 'X']
    | .o => [ch '0']
    | _ => []
  else []

/-- `-`, or a negative width, adjusts to the left; else `0` fills with zeros. -/
def stdLayout (flags : List Flag) (width : Int) : Layout :=
  if Flag.minus ∈ flags ∨ width < 0 then .left
  else if Flag.zero ∈ flags then .zeros
  else .right

def stdLength (flags : List Flag) (conv : Conv) (bits : Nat) (v : Int) : Nat :=
  (stdSign flags conv v ++ (stdPrefix flags conv (magnitude bits conv v) ++
    convDigits conv (magnitude bits conv v))).length

def stdText (flags : List Flag) (w : Width) (len : Length) (conv : Conv) (v : Int) : List Nat :=
  (stdLayout flags w.value).text (w.value.natAbs - stdLength flags conv len.bits v)
    (stdSign flags conv v) (stdPrefix flags conv (magnitude len.bits conv v))
    (convDigits conv (magnitude len.bits conv v))

/-- When the code prints what the standard says: `+` is not used for `u`, the prefix is one that
the code gets right, and if there is padding it is on the right side and of the right kind. A
width behind `2 ^ 31` still works as long as the padding itself is shorter. -/
def Meets (flags : List Flag) (w : Width) (len : Length) (conv : Conv) (v : Int) : Prop :=
  ¬(conv = .u ∧ Flag.plus ∈ flags) ∧ ¬(conv = .X ∧ Flag.alt ∈ flags) ∧
    ¬(conv = .x ∧ Flag.alt ∈ flags ∧ magnitude len.bits conv v = 0) ∧
    if conv = .o ∧ Flag.alt ∈ flags ∧ magnitude len.bits conv v = 0 then
      Flag.zero ∈ flags ∧ Flag.minus ∉ flags ∧ 2 ≤ w.value ∧ w.value < 2 ^ 31 + 2
    else
      stdLength flags conv len.bits v < w.value.natAbs →
        (w.value = -2 ^ 31 ∧ lastFmt flags .rjust = .ljust) ∨
          (0 ≤ w.value ∧ w.value < 2 ^ 31 + stdLength flags conv len.bits v ∧
            ¬(lastFmt flags .rjust = .rjust0 ∧
              (Flag.minus ∈ flags ∨ (conv = .x ∧ Flag.alt ∈ flags))))

variable {flags : List Flag} {w : Width} {len : Length} {conv : Conv} {v : Int}

theorem padding_eq (w : Int) (n : Nat) :
    padding (wrap 32 w) n = (wrap 32 (w - n)).toNat := by
  unfold padding
  congr 1
  refine wrap_congr ?_
  have h := wrap_emod 32 w
  norm_num at h ⊢
  omega

/-- The padding of the code is right for positive widths that do not overflow, and for the least
width. -/
theorem padding_right {w : Int} {n : Nat} (hl : -2 ^ 31 ≤ w) (hn : n < w.natAbs)
    (h0 : 0 < n) (hs : n < 2 ^ 31) :
    padding (wrap 32 w) n = w.natAbs - n ↔ w = -2 ^ 31 ∨ (0 ≤ w ∧ w < 2 ^ 31 + n) := by
  rw [padding_eq]
  unfold wrap
  rw [Int.bmod_def]
  norm_num at hl hs ⊢
  split <;> omega

theorem padding_zero {w : Int} {n : Nat} (hn : w.natAbs ≤ n) (hs : n ≤ 2 ^ 30) :
    padding (wrap 32 w) n = 0 := by
  rw [padding_eq]
  unfold wrap
  rw [Int.bmod_def]
  norm_num at hs ⊢
  split <;> omega

theorem digitChar_bounds {a d : Nat} (ha : a = ch 'a' ∨ a = ch 'A') (hd : d < 16) :
    ch '0' ≤ digitChar a d ∧ digitChar a d ≤ ch 'f' := by
  unfold digitChar ch
  rcases ha with rfl | rfl <;> split <;> simp [ch] <;> omega

theorem convDigits_bounds (conv : Conv) (n : Nat) :
    ∀ c ∈ convDigits conv n, ch '0' ≤ c ∧ c ≤ ch 'f' := by
  intro c hc
  have hcase : ∀ a base : Nat, (a = ch 'a' ∨ a = ch 'A') → 1 < base → base ≤ 16 →
      c ∈ numeral (digitChar a) base n → ch '0' ≤ c ∧ c ≤ ch 'f' := by
    intro a base ha h1 h16 hm
    obtain ⟨d, hd, rfl⟩ := numeral_mem h1 hm
    exact digitChar_bounds ha (by omega)
  cases conv with
  | d | i | u => exact hcase _ 10 (.inl rfl) (by decide) (by decide) hc
  | x | p => exact hcase _ 16 (.inl rfl) (by decide) (by decide) hc
  | X => exact hcase _ 16 (.inr rfl) (by decide) (by decide) hc
  | o => exact hcase _ 8 (.inl rfl) (by decide) (by decide) hc
  | b => exact hcase _ 2 (.inl rfl) (by decide) (by decide) hc

theorem convDigits_ne_nil (conv : Conv) (n : Nat) : convDigits conv n ≠ [] := by
  cases conv <;> exact numeral_ne_nil _ _ _

theorem Layout.length_text (l : Layout) (k : Nat) (sign pre digits : List Nat) :
    (l.text k sign pre digits).length = k + (sign ++ (pre ++ digits)).length := by
  cases l <;> simp only [Layout.text, List.length_append, List.length_replicate] <;> omega

theorem Layout.text_zero (l l' : Layout) (sign pre digits : List Nat) :
    l.text 0 sign pre digits = l'.text 0 sign pre digits := by
  cases l <;> cases l' <;> simp [Layout.text]

theorem Layout.text_inj {k : Nat} (hk : 0 < k) {sign pre digits : List Nat}
    (hs : ch ' ' ∉ sign ++ (pre ++ digits)) (hne : sign ++ (pre ++ digits) ≠ [])
    {l l' : Layout} (h : l.text k sign pre digits = l'.text k sign pre digits) :
    (l = .right ↔ l' = .right) ∧ (l = .left ↔ l' = .left) := by
  obtain ⟨k, rfl⟩ : ∃ j, k = j + 1 := ⟨k - 1, by omega⟩
  have hfirst : (sign ++ (pre ++ digits)).head? ≠ some (ch ' ') := fun h =>
    hs (List.mem_of_head? h)
  have hlast : (sign ++ (pre ++ digits)).getLast? ≠ some (ch ' ') := fun h =>
    hs (List.mem_of_getLast? h)
  have hzeros : ∀ l'' : Layout, l'' = .zeros ∨ l'' = .zerosFirst →
      ch ' ' ∉ l''.text (k + 1) sign pre digits := by
    simp only [List.mem_append, not_or] at hs
    rintro l'' (rfl | rfl) <;>
      simp only [Layout.text, List.mem_append, List.mem_replicate, not_or]
    · exact ⟨hs.1, hs.2.1, fun h => absurd h.2 (by decide), hs.2.2⟩
    · exact ⟨hs.1, fun h => absurd h.2 (by decide), hs.2.1, hs.2.2⟩
  have hright : ∀ l'' : Layout, (l''.text (k + 1) sign pre digits).head? = some (ch ' ') ↔
      l'' = .right := by
    intro l''
    cases l'' with
    | right => exact ⟨fun _ => rfl, fun _ => rfl⟩
    | zeros =>
      exact ⟨fun h => absurd (List.mem_of_head? h) (hzeros _ (.inl rfl)),
        fun h => absurd h (by decide)⟩
    | zerosFirst =>
      exact ⟨fun h => absurd (List.mem_of_head? h) (hzeros _ (.inr rfl)),
        fun h => absurd h (by decide)⟩
    | left =>
      refine ⟨fun h => absurd ?_ hfirst,
        fun h => absurd h (by decide)⟩
      obtain ⟨c, rest, hc⟩ := List.exists_cons_of_ne_nil hne
      have h : (sign ++ (pre ++ digits) ++ List.replicate (k + 1) (ch ' ')).head? = _ := h
      rw [hc] at h ⊢
      exact h
  have hleft : ∀ l'' : Layout, (l''.text (k + 1) sign pre digits).getLast? = some (ch ' ') ↔
      l'' = .left := by
    intro l''
    cases l'' with
    | right =>
      refine ⟨fun h => absurd ?_ hlast,
        fun h => absurd h (by decide)⟩
      have h : (List.replicate (k + 1) (ch ' ') ++ (sign ++ (pre ++ digits))).getLast? = _ := h
      rw [List.getLast?_append] at h
      cases hb : (sign ++ (pre ++ digits)).getLast? with
      | none => exact absurd (List.getLast?_eq_none_iff.mp hb) hne
      | some x =>
        rw [hb] at h
        exact h
    | zeros =>
      exact ⟨fun h => absurd (List.mem_of_getLast? h) (hzeros _ (.inl rfl)),
        fun h => absurd h (by decide)⟩
    | zerosFirst =>
      exact ⟨fun h => absurd (List.mem_of_getLast? h) (hzeros _ (.inr rfl)),
        fun h => absurd h (by decide)⟩
    | left =>
      refine ⟨fun _ => rfl, fun _ => ?_⟩
      show (sign ++ (pre ++ digits) ++ List.replicate (k + 1) (ch ' ')).getLast? = _
      rw [List.replicate_succ', ← List.append_assoc]
      exact List.getLast?_concat
  refine ⟨?_, ?_⟩
  · rw [← hright l, ← hright l', h]
  · rw [← hleft l, ← hleft l', h]

theorem Layout.mem_text {c k : Nat} {sign pre digits : List Nat} (h : c ≠ ch ' ')
    (h0 : c ≠ ch '0') (l : Layout) :
    c ∈ l.text k sign pre digits ↔ c ∈ sign ++ (pre ++ digits) := by
  cases l <;> simp [Layout.text, List.mem_replicate, h, h0]

theorem Layout.count_text (k : Nat) (sign pre digits : List Nat) (l : Layout)
    (hl : l = .right ∨ l = .left) :
    (l.text k sign pre digits).count (ch '0') = (sign ++ (pre ++ digits)).count (ch '0') := by
  have hr : (List.replicate k (ch ' ')).count (ch '0') = 0 :=
    List.count_eq_zero.mpr fun h => absurd (List.eq_of_mem_replicate h) (by decide)
  rcases hl with rfl | rfl
  · unfold Layout.text
    rw [List.count_append, hr, Nat.zero_add]
  · unfold Layout.text
    rw [List.count_append, hr, Nat.add_zero]

theorem lastFmt_ljust {flags : List Flag} {fmt : Fmt} (h : lastFmt flags fmt = .ljust) :
    Flag.minus ∈ flags ∨ fmt = .ljust := by
  induction flags generalizing fmt with
  | nil => exact .inr h
  | cons f flags ih =>
    cases f with
    | minus => exact .inl List.mem_cons_self
    | zero =>
      have h : lastFmt flags .rjust0 = .ljust := h
      exact .inl (List.mem_cons_of_mem _ ((ih h).resolve_right nofun))
    | plus | alt => exact (ih h).imp (List.mem_cons_of_mem _) id

theorem lastFmt_rjust0 {flags : List Flag} {fmt : Fmt} (h : lastFmt flags fmt = .rjust0) :
    Flag.zero ∈ flags ∨ fmt = .rjust0 := by
  induction flags generalizing fmt with
  | nil => exact .inr h
  | cons f flags ih =>
    cases f with
    | zero => exact .inl List.mem_cons_self
    | minus =>
      have h : lastFmt flags .ljust = .rjust0 := h
      exact .inl (List.mem_cons_of_mem _ ((ih h).resolve_right nofun))
    | plus | alt => exact (ih h).imp (List.mem_cons_of_mem _) id

theorem lastFmt_rjust {flags : List Flag} {fmt : Fmt} (h : lastFmt flags fmt = .rjust) :
    Flag.minus ∉ flags ∧ Flag.zero ∉ flags ∧ fmt = .rjust := by
  induction flags generalizing fmt with
  | nil => exact ⟨List.not_mem_nil, List.not_mem_nil, h⟩
  | cons f flags ih =>
    cases f with
    | minus =>
      have h : lastFmt flags .ljust = .rjust := h
      cases (ih h).2.2
    | zero =>
      have h : lastFmt flags .rjust0 = .rjust := h
      cases (ih h).2.2
    | plus | alt => simpa using ih h

theorem convDigits_length {bits : Nat} (hb : Size bits) {n : Nat} (hn : n < 2 ^ bits)
    (conv : Conv) : (convDigits conv n).length ≤ 64 := by
  have hcase : ∀ (dig : Nat → Nat) (base : Nat), 1 < base →
      (numeral dig base n).length ≤ 64 := by
    intro dig base hbase
    unfold numeral
    split
    · show 1 ≤ 64
      decide
    · rw [List.length_map, List.length_reverse]
      refine (Nat.digits_length_le_iff hbase n).mpr ?_
      have h64 : (2 : Nat) ^ 64 ≤ base ^ 64 := Nat.pow_le_pow_left hbase 64
      rcases hb with rfl | rfl
      · omega
      · omega
  cases conv <;> exact hcase _ _ (by decide)

theorem parts_length {bits : Nat} (hb : Size bits) {n : Nat} (hn : n < 2 ^ bits) (conv : Conv)
    {sign pre : List Nat} (hs : sign.length ≤ 1) (hp : pre.length ≤ 2) :
    0 < (sign ++ (pre ++ convDigits conv n)).length ∧
      (sign ++ (pre ++ convDigits conv n)).length ≤ 67 := by
  have h1 := convDigits_length hb hn conv
  have h2 := List.length_pos_iff.mpr (convDigits_ne_nil conv n)
  simp only [List.length_append]
  omega

theorem stdSign_length (flags : List Flag) (conv : Conv) (v : Int) :
    (stdSign flags conv v).length ≤ 1 := by
  unfold stdSign
  cases conv with
  | d | i => dsimp only; split_ifs <;> exact Nat.le_of_ble_eq_true rfl
  | u | x | X | p | o | b => exact Nat.zero_le _

theorem stdPrefix_length (flags : List Flag) (conv : Conv) (n : Nat) :
    (stdPrefix flags conv n).length ≤ 2 := by
  unfold stdPrefix
  split
  · cases conv <;> decide
  · decide

theorem stdSign_mem {c : Nat} (h : c ∈ stdSign flags conv v) : c = ch '-' ∨
    (c = ch '+' ∧ (conv = .d ∨ conv = .i)) := by
  unfold stdSign at h
  cases conv with
  | d | i =>
    dsimp only at h
    split at h
    · exact .inl (List.mem_singleton.mp h)
    · split at h
      · exact .inr ⟨List.mem_singleton.mp h, by simp⟩
      · cases h
  | u | x | X | p | o | b => cases h

theorem stdPrefix_mem {c n : Nat} (h : c ∈ stdPrefix flags conv n) :
    c = ch '0' ∨ (c = ch 'x' ∧ conv = .x ∧ n ≠ 0) ∨ (c = ch 'X' ∧ conv = .X) := by
  unfold stdPrefix at h
  split at h
  · rename_i hn
    cases conv <;> simp at h <;> simp [h, hn.2]
  · cases h

theorem codeSign_std (h : ¬(conv = .u ∧ Flag.plus ∈ flags)) (v : Int) :
    codeSign conv (decide (Flag.plus ∈ flags)) v = stdSign flags conv v := by
  unfold codeSign stdSign
  cases conv with
  | d | i => simp only [decide_eq_true_eq]
  | u => exact if_neg fun h' => h ⟨rfl, of_decide_eq_true h'⟩
  | x | X | p | o | b => rfl

theorem codePrefix_std {n : Nat} (hp : conv ≠ .p) (hX : ¬(conv = .X ∧ Flag.alt ∈ flags))
    (hx : ¬(conv = .x ∧ Flag.alt ∈ flags ∧ n = 0))
    (ho : ¬(conv = .o ∧ Flag.alt ∈ flags ∧ n = 0)) :
    codePrefix conv (decide (Flag.alt ∈ flags)) = stdPrefix flags conv n := by
  unfold codePrefix stdPrefix
  by_cases ha : Flag.alt ∈ flags
  · by_cases hn : n = 0
    · cases conv with
      | x => exact absurd ⟨rfl, ha, hn⟩ hx
      | X => exact absurd ⟨rfl, ha⟩ hX
      | o => exact absurd ⟨rfl, ha, hn⟩ ho
      | p => exact absurd rfl hp
      | d | i | u | b => simp
    · cases conv with
      | X => exact absurd ⟨rfl, ha⟩ hX
      | p => exact absurd rfl hp
      | d | i | u | x | o | b => simp [ha, hn]
  · cases conv <;> simp [ha]

theorem stdText_notMem {c : Nat} (hs : c ≠ ch ' ') (h0 : c ≠ ch '0')
    (hsign : c ∉ stdSign flags conv v)
    (hpre : c ∉ stdPrefix flags conv (magnitude len.bits conv v))
    (hd : c ∉ convDigits conv (magnitude len.bits conv v)) :
    c ∉ stdText flags w len conv v := by
  unfold stdText
  rw [Layout.mem_text hs h0]
  simp only [List.mem_append, not_or]
  exact ⟨hsign, hpre, hd⟩

theorem notMem_digits {c : Nat} (h : c < ch '0' ∨ ch 'f' < c) (conv : Conv) (n : Nat) :
    c ∉ convDigits conv n := by
  intro hc
  have hb := convDigits_bounds conv n c hc
  omega

/-- The plus sign of an unsigned conversion, and a prefix in the wrong case or of zero, are never
right. -/
theorem text_ne_std {sign pre : List Nat} {k : Nat} (l : Layout)
    (h : (conv = .u ∧ Flag.plus ∈ flags ∧ ch '+' ∈ sign) ∨
      (ch 'x' ∈ pre ∧ (conv = .X ∨ (conv = .x ∧ magnitude len.bits conv v = 0)))) :
    l.text k sign pre (convDigits conv (magnitude len.bits conv v)) ≠
      stdText flags w len conv v := by
  intro he
  rcases h with ⟨rfl, -, hmem⟩ | ⟨hmem, hc⟩
  · have hno : ch '+' ∉ stdText flags w len .u v := by
      refine stdText_notMem (by decide) (by decide) ?_ ?_
        (notMem_digits (.inl (by decide)) _ _)
      · exact fun h => nomatch h
      · intro h
        rcases stdPrefix_mem h with h | ⟨h, -⟩ | ⟨h, -⟩ <;> exact absurd h (by decide)
    rw [← he, Layout.mem_text (by decide) (by decide)] at hno
    exact hno (List.mem_append_left _ hmem)
  · have hno : ch 'x' ∉ stdText flags w len conv v := by
      refine stdText_notMem (by decide) (by decide) ?_ ?_
        (notMem_digits (.inr (by decide)) _ _)
      · intro h
        rcases stdSign_mem h with h | ⟨h, -⟩ <;> exact absurd h (by decide)
      · intro h
        rcases stdPrefix_mem h with h | ⟨-, hx, hn⟩ | ⟨h, -⟩
        · exact absurd h (by decide)
        · rcases hc with rfl | ⟨-, h0⟩
          · cases hx
          · exact hn h0
        · exact absurd h (by decide)
    rw [← he, Layout.mem_text (by decide) (by decide)] at hno
    exact hno (List.mem_append_right _ (List.mem_append_left _ hmem))

theorem Width.value_ge (hw : w.Valid) : -2 ^ 31 ≤ w.value := by
  cases w with
  | none => decide
  | star n => exact hw.1
  | digits d ds =>
    have hfold : ∀ (l : List Nat) (m : Int), 0 ≤ m →
        0 ≤ l.foldl (fun (n : Int) (d : Nat) => 10 * n + d) m := by
      intro l
      induction l with
      | nil => exact fun m hm => hm
      | cons e l ih =>
        intro m hm
        have hnext : 0 ≤ 10 * m + e := by omega
        exact ih _ hnext
    have h := hfold ds d (by omega)
    show -2 ^ 31 ≤ ds.foldl (fun (n : Int) (d : Nat) => 10 * n + d) (d : Int)
    omega

/-- `%#o` of zero: the code prints two zeros, the standard one, unless zeros fill the field. -/
theorem octal_zero_iff (hw : w.Valid) (hn : magnitude len.bits .o v = 0) :
    (lastFmt flags .rjust).layout.text
        (padding (wrap 32 w.value) ([] ++ ([ch '0'] ++ convDigits .o 0)).length) [] [ch '0']
        (convDigits .o 0) = stdText flags w len .o v ↔
      Flag.zero ∈ flags ∧ Flag.minus ∉ flags ∧ 2 ≤ w.value ∧ w.value < 2 ^ 31 + 2 := by
  have hge := Width.value_ge hw
  have hd : convDigits .o 0 = [ch '0'] := rfl
  have hpre : stdPrefix flags .o 0 = [] := if_neg fun h => h.2 rfl
  have hstd : stdText flags w len .o v =
      (stdLayout flags w.value).text (w.value.natAbs - 1) [] [] [ch '0'] := by
    unfold stdText stdLength
    rw [hn, hpre, hd]
    rfl
  rw [hstd, hd]
  show (lastFmt flags .rjust).layout.text (padding (wrap 32 w.value) (2 : Nat)) [] [ch '0']
    [ch '0'] = _ ↔ _
  have hpad0 := padding_zero (w := w.value) (n := 2)
  have hpad := padding_right (w := w.value) (n := 2) hge
  -- the code prints at least two zeros
  have hcount : 2 ≤ ((lastFmt flags .rjust).layout.text
      (padding (wrap 32 w.value) (2 : Nat)) [] [ch '0'] [ch '0']).count (ch '0') := by
    cases lastFmt flags .rjust with
    | rjust =>
      refine Nat.le_of_eq (Eq.symm ?_)
      exact Layout.count_text _ [] [ch '0'] [ch '0'] .right (.inl rfl)
    | ljust =>
      refine Nat.le_of_eq (Eq.symm ?_)
      exact Layout.count_text _ [] [ch '0'] [ch '0'] .left (.inr rfl)
    | rjust0 =>
      show 2 ≤ (List.replicate _ (ch '0') ++ [ch '0', ch '0']).count (ch '0')
      rw [List.count_append]
      exact Nat.le_add_left _ _
  unfold stdLayout
  by_cases hl : Flag.minus ∈ flags ∨ w.value < 0
  · rw [if_pos hl]
    constructor
    · intro h
      rw [h, Layout.count_text _ _ _ _ _ (.inr rfl)] at hcount
      exact absurd hcount (by decide)
    · rintro ⟨-, hm, h2, -⟩
      rcases hl with hl | hl
      · exact absurd hl hm
      · omega
  · obtain ⟨hm, hw0⟩ := not_or.mp hl
    rw [if_neg hl]
    by_cases hz : Flag.zero ∈ flags
    · have hlast : lastFmt flags .rjust = .rjust0 := by
        cases hc : lastFmt flags .rjust with
        | rjust0 => rfl
        | ljust => exact absurd ((lastFmt_ljust hc).resolve_right nofun) hm
        | rjust => exact absurd hz (lastFmt_rjust hc).2.1
      have hzeros : ∀ k, List.replicate k (ch '0') ++ [ch '0'] =
          List.replicate (k + 1) (ch '0') := fun k => List.replicate_succ'.symm
      rw [if_pos hz, hlast]
      show List.replicate _ (ch '0') ++ ([ch '0'] ++ [ch '0']) =
        List.replicate _ (ch '0') ++ [ch '0'] ↔ _
      rw [← List.append_assoc, hzeros, hzeros, hzeros, List.replicate_left_inj]
      norm_num at hge hpad0 hpad ⊢
      by_cases h2 : w.value.natAbs ≤ 2
      · rw [hpad0 h2]
        simp only [hz, hm, not_false_eq_true, true_and]
        omega
      · have hr := hpad (by omega)
        simp only [hz, hm, not_false_eq_true, true_and]
        omega
    · rw [if_neg hz]
      constructor
      · intro h
        rw [h, Layout.count_text _ _ _ _ _ (.inl rfl)] at hcount
        exact absurd hcount (by decide)
      · exact fun h => absurd h.1 hz

theorem zerosFirst_eq {k : Nat} {sign pre digits : List Nat} (h : pre = [] ∨ pre = [ch '0']) :
    Layout.text k sign pre digits .zerosFirst = Layout.text k sign pre digits .zeros := by
  unfold Layout.text
  rcases h with rfl | rfl
  · rfl
  · have hswap : List.replicate k (ch '0') ++ [ch '0'] = [ch '0'] ++ List.replicate k (ch '0') :=
      List.replicate_succ'.symm
    rw [← List.append_assoc (List.replicate k (ch '0')), hswap, List.append_assoc]

theorem zerosFirst_ne {k : Nat} (hk : 0 < k) {digits : List Nat} :
    Layout.text k [] [ch '0', ch 'x'] digits .zerosFirst ≠
      Layout.text k [] [ch '0', ch 'x'] digits .zeros := by
  obtain ⟨k, rfl⟩ : ∃ j, k = j + 1 := ⟨k - 1, by omega⟩
  intro h
  have h1 : List.replicate k (ch '0') ++ (ch '0' :: ch 'x' :: digits) =
      ch 'x' :: (List.replicate (k + 1) (ch '0') ++ digits) := (List.cons.inj h).2
  cases k with
  | zero => exact absurd (List.cons.inj h1).1 (by decide)
  | succ k => exact absurd (List.cons.inj h1).1 (by decide)

theorem stdPrefix_cases (hX : ¬(conv = .X ∧ Flag.alt ∈ flags)) {n : Nat}
    (hx : ¬(conv = .x ∧ Flag.alt ∈ flags ∧ n = 0)) :
    (conv = .x ∧ Flag.alt ∈ flags ∧ stdPrefix flags conv n = [ch '0', ch 'x']) ∨
      (¬(conv = .x ∧ Flag.alt ∈ flags) ∧
        (stdPrefix flags conv n = [] ∨ stdPrefix flags conv n = [ch '0'])) := by
  unfold stdPrefix
  by_cases ha : Flag.alt ∈ flags
  · cases conv with
    | x =>
      have hn : n ≠ 0 := fun h => hx ⟨rfl, ha, h⟩
      exact .inl ⟨rfl, ha, if_pos ⟨ha, hn⟩⟩
    | X => exact absurd ⟨rfl, ha⟩ hX
    | o =>
      refine .inr ⟨nofun, ?_⟩
      split
      · exact .inr rfl
      · exact .inl rfl
    | d | i | u | p | b =>
      refine .inr ⟨nofun, .inl ?_⟩
      split <;> rfl
  · exact .inr ⟨fun h => ha h.2, .inl (if_neg fun h => ha h.1)⟩

theorem padded_iff (hw : w.Valid) (hsize : Size len.bits) (hv : InRange len.bits v)
    (hX : ¬(conv = .X ∧ Flag.alt ∈ flags))
    (hx : ¬(conv = .x ∧ Flag.alt ∈ flags ∧ magnitude len.bits conv v = 0)) :
    (lastFmt flags .rjust).layout.text
        (padding (wrap 32 w.value) (stdLength flags conv len.bits v))
        (stdSign flags conv v) (stdPrefix flags conv (magnitude len.bits conv v))
        (convDigits conv (magnitude len.bits conv v)) = stdText flags w len conv v ↔
      (stdLength flags conv len.bits v < w.value.natAbs →
        (w.value = -2 ^ 31 ∧ lastFmt flags .rjust = .ljust) ∨
          (0 ≤ w.value ∧ w.value < 2 ^ 31 + stdLength flags conv len.bits v ∧
            ¬(lastFmt flags .rjust = .rjust0 ∧
              (Flag.minus ∈ flags ∨ (conv = .x ∧ Flag.alt ∈ flags))))) := by
  have hge := Width.value_ge hw
  have hparts := parts_length hsize (magnitude_lt hsize conv hv) conv
    (stdSign_length flags conv v) (stdPrefix_length flags conv (magnitude len.bits conv v))
  have hne : stdSign flags conv v ++ (stdPrefix flags conv (magnitude len.bits conv v) ++
      convDigits conv (magnitude len.bits conv v)) ≠ [] :=
    List.length_pos_iff.mp hparts.1
  have hspace : ch ' ' ∉ stdSign flags conv v ++
      (stdPrefix flags conv (magnitude len.bits conv v) ++
        convDigits conv (magnitude len.bits conv v)) := by
    simp only [List.mem_append, not_or]
    refine ⟨fun h => ?_, fun h => ?_, notMem_digits (.inl (by decide)) _ _⟩
    · rcases stdSign_mem h with h | ⟨h, -⟩ <;> exact absurd h (by decide)
    · rcases stdPrefix_mem h with h | ⟨h, -⟩ | ⟨h, -⟩ <;> exact absurd h (by decide)
  obtain ⟨hpos, hle⟩ : 0 < stdLength flags conv len.bits v ∧
      stdLength flags conv len.bits v ≤ 67 := hparts
  by_cases hneed : stdLength flags conv len.bits v < w.value.natAbs
  · have hright := padding_right hge hneed hpos (by omega)
    unfold stdText
    constructor
    · intro h _
      have hpad : padding (wrap 32 w.value) (stdLength flags conv len.bits v) =
          w.value.natAbs - stdLength flags conv len.bits v := by
        have hlen := congrArg List.length h
        rw [Layout.length_text, Layout.length_text] at hlen
        omega
      rw [hpad] at h
      obtain ⟨hr, hl⟩ := Layout.text_inj (by omega) hspace hne h
      rcases hright.mp hpad with hmin | ⟨h0, hlt⟩
      · have hleft : stdLayout flags w.value = .left := if_pos (.inr (by omega))
        have hc := hl.mpr hleft
        refine .inl ⟨hmin, ?_⟩
        cases hf : lastFmt flags .rjust with
        | ljust => rfl
        | rjust | rjust0 => rw [hf] at hc; cases hc
      · refine .inr ⟨h0, hlt, ?_⟩
        rintro ⟨hf, hbad⟩
        rw [hf] at h hr hl
        have hstd : stdLayout flags w.value = .zeros := by
          cases hs : stdLayout flags w.value with
          | zeros => rfl
          | right => cases hr.mpr hs
          | left => cases hl.mpr hs
          | zerosFirst =>
            unfold stdLayout at hs
            split_ifs at hs
        rcases hbad with hm | ⟨rfl, ha⟩
        · rw [stdLayout, if_pos (.inl hm)] at hstd
          cases hstd
        · rw [hstd] at h
          rcases stdPrefix_cases hX hx with ⟨-, -, hpre⟩ | ⟨hno, -⟩
          · rw [hpre] at h
            exact zerosFirst_ne (by omega) h
          · exact hno ⟨rfl, ha⟩
    · intro h
      rcases h hneed with ⟨hmin, hf⟩ | ⟨h0, hlt, hno⟩
      · have hleft : stdLayout flags w.value = .left := if_pos (.inr (by omega))
        rw [hright.mpr (.inl hmin), hleft, hf]
        rfl
      · rw [hright.mpr (.inr ⟨h0, hlt⟩)]
        cases hf : lastFmt flags .rjust with
        | ljust =>
          have hm := (lastFmt_ljust hf).resolve_right nofun
          have hleft : stdLayout flags w.value = .left := if_pos (.inl hm)
          rw [hleft]
          rfl
        | rjust =>
          obtain ⟨hm, hz, -⟩ := lastFmt_rjust hf
          have hstd : stdLayout flags w.value = .right := by
            unfold stdLayout
            rw [if_neg (not_or.mpr ⟨hm, by omega⟩), if_neg hz]
          rw [hstd]
          rfl
        | rjust0 =>
          have hz := (lastFmt_rjust0 hf).resolve_right nofun
          obtain ⟨hm, hxa⟩ := not_or.mp fun hb => hno ⟨hf, hb⟩
          have hstd : stdLayout flags w.value = .zeros := by
            unfold stdLayout
            rw [if_neg (not_or.mpr ⟨hm, by omega⟩), if_pos hz]
          rw [hstd]
          rcases stdPrefix_cases hX hx with ⟨hx', ha, -⟩ | ⟨-, hpre⟩
          · exact absurd ⟨hx', ha⟩ hxa
          · exact zerosFirst_eq hpre
  · have hpad := padding_zero (w := w.value) (n := stdLength flags conv len.bits v) (by omega)
      (by omega)
    unfold stdText
    rw [hpad, Nat.sub_eq_zero_of_le (by omega)]
    exact ⟨fun _ h => absurd h hneed, fun _ => Layout.text_zero _ _ _ _ _⟩

theorem foldl_put (out : List Nat) (obj : Outstream) :
    out.foldl Outstream.put obj = ⟨obj.chars ++ out, obj.nput + out.length⟩ := by
  induction out generalizing obj with
  | nil => simp
  | cons c out ih =>
    rw [List.foldl_cons, ih]
    simp only [Outstream.put, List.append_assoc, List.singleton_append, List.length_cons]
    rw [Nat.add_assoc, Nat.add_comm 1]

theorem libVsprintf_format (flags : List Flag) (len : Length) (hc : conv ≠ .p) (hw : w.Valid)
    (hv : InRange len.bits v) (obj : Outstream) (args : List Arg) :
    let sign := codeSign conv (decide (Flag.plus ∈ flags)) v
    let pre := codePrefix conv (decide (Flag.alt ∈ flags))
    let digits := convDigits conv (magnitude len.bits conv v)
    let out := (lastFmt flags .rjust).layout.text
      (padding (wrap 32 w.value) (sign ++ (pre ++ digits)).length) sign pre digits
    libVsprintf Outstream.put obj (format flags w len conv) (w.args ++ len.arg v :: args) =
      some ⟨obj.chars ++ out, obj.nput + out.length⟩ := by
  dsimp only
  unfold libVsprintf
  dsimp only
  rw [emit_format hc hw hv]
  dsimp only
  rw [foldl_put]
  rfl

/-- A value that an `int` argument has as well. -/
def SameValue (len : Length) (conv : Conv) (v v' : Int) : Prop :=
  InRange 32 v' ∧
    match conv with
    | .d | .i => v' = v
    | _ => v' % 2 ^ 32 = v % 2 ^ len.bits

theorem SameValue.parts {v' : Int} (h : SameValue len conv v v') (plus : Bool) :
    magnitude 32 conv v' = magnitude len.bits conv v ∧
      codeSign conv plus v' = codeSign conv plus v := by
  unfold magnitude codeSign
  cases conv with
  | d | i =>
    have h : v' = v := h.2
    rw [h]
    exact ⟨rfl, rfl⟩
  | u | x | X | p | o | b => exact ⟨congrArg Int.toNat h.2, rfl⟩

/-- An integer conversion puts the characters of the C standard, and counts them, exactly when it
meets the condition; and the size of the argument makes no difference to what it prints. -/
theorem format_right_iff (hc : conv ≠ .p) (hw : w.Valid) (hv : InRange len.bits v)
    (obj : Outstream) (args : List Arg) :
    (libVsprintf Outstream.put obj (format flags w len conv) (w.args ++ len.arg v :: args) =
        some ⟨obj.chars ++ stdText flags w len conv v,
          obj.nput + (stdText flags w len conv v).length⟩ ↔ Meets flags w len conv v) ∧
      ∀ v', SameValue len conv v v' →
        libVsprintf Outstream.put obj (format flags w .int conv) (w.args ++ .int v' :: args) =
          libVsprintf Outstream.put obj (format flags w len conv)
            (w.args ++ len.arg v :: args) := by
  have hsize := len.size
  have hcode := libVsprintf_format flags len hc hw hv obj args
  dsimp only at hcode
  constructor
  · rw [hcode, Option.some.injEq, Outstream.mk.injEq, List.append_cancel_left_eq]
    have hcut : ∀ a b : List Nat, a = b ∧ obj.nput + a.length = obj.nput + b.length ↔ a = b :=
      fun a b => ⟨fun h => h.1, fun h => ⟨h, by rw [h]⟩⟩
    rw [hcut]
    unfold Meets
    by_cases hu : conv = .u ∧ Flag.plus ∈ flags
    · have hmem : ch '+' ∈ codeSign conv (decide (Flag.plus ∈ flags)) v := by
        rw [hu.1, decide_eq_true hu.2]
        exact List.mem_cons_self
      exact ⟨fun h => absurd h (text_ne_std _ (.inl ⟨hu.1, hu.2, hmem⟩)),
        fun h => absurd hu h.1⟩
    by_cases hX : conv = .X ∧ Flag.alt ∈ flags
    · have hmem : ch 'x' ∈ codePrefix conv (decide (Flag.alt ∈ flags)) := by
        rw [hX.1, decide_eq_true hX.2]
        exact List.mem_cons_of_mem _ List.mem_cons_self
      exact ⟨fun h => absurd h (text_ne_std _ (.inr ⟨hmem, .inl hX.1⟩)),
        fun h => absurd hX h.2.1⟩
    by_cases hx : conv = .x ∧ Flag.alt ∈ flags ∧ magnitude len.bits conv v = 0
    · have hmem : ch 'x' ∈ codePrefix conv (decide (Flag.alt ∈ flags)) := by
        rw [hx.1, decide_eq_true hx.2.1]
        exact List.mem_cons_of_mem _ List.mem_cons_self
      exact ⟨fun h => absurd h (text_ne_std _ (.inr ⟨hmem, .inr ⟨hx.1, hx.2.2⟩⟩)),
        fun h => absurd hx h.2.2.1⟩
    simp only [hu, hX, hx, not_false_eq_true, true_and]
    by_cases ho : conv = .o ∧ Flag.alt ∈ flags ∧ magnitude len.bits conv v = 0
    · obtain ⟨rfl, ha, hn⟩ := ho
      rw [if_pos ⟨rfl, ha, hn⟩, decide_eq_true ha, hn]
      exact octal_zero_iff hw hn
    · rw [if_neg ho, codeSign_std hu, codePrefix_std hc hX hx ho]
      exact padded_iff hw hsize hv hX hx
  · intro v' hsame
    obtain ⟨hm, hs⟩ := hsame.parts (decide (Flag.plus ∈ flags))
    have hint := libVsprintf_format flags .int hc hw hsame.1 obj args
    dsimp only [Length.bits, Length.arg] at hint
    rw [hint, hcode, hm, hs]

/-- `%+5d` of 42. -/
theorem format_right_plus :
    (libVsprintf Outstream.put ⟨[], 0⟩ (format [.plus] (.digits 5 []) .int .d)
          ((Width.digits 5 []).args ++ Length.int.arg 42 :: []) =
        some ⟨[] ++ stdText [.plus] (.digits 5 []) .int .d 42,
          0 + (stdText [.plus] (.digits 5 []) .int .d 42).length⟩ ↔
        Meets [.plus] (.digits 5 []) .int .d 42) ∧
      ∀ v', SameValue .int .d 42 v' →
        libVsprintf Outstream.put ⟨[], 0⟩ (format [.plus] (.digits 5 []) .int .d)
            ((Width.digits 5 []).args ++ .int v' :: []) =
          libVsprintf Outstream.put ⟨[], 0⟩ (format [.plus] (.digits 5 []) .int .d)
            ((Width.digits 5 []).args ++ Length.int.arg 42 :: []) := by
  have hw : (Width.digits 5 []).Valid := ⟨by decide, nofun⟩
  have hv : InRange Length.int.bits 42 := ⟨by decide, by decide⟩
  exact format_right_iff (by decide) hw hv ⟨[], 0⟩ []

/-- `%#x` of 0 prints `0x0`, not `0`. -/
theorem hex_zero_prefixed :
    libVsprintf Outstream.put ⟨[], 0⟩ (format [.alt] .none .int .x) [.int 0] =
        some ⟨"0x0".toList.map ch, 3⟩ ∧
      stdText [.alt] .none .int .x 0 = "0".toList.map ch ∧
      libVsprintf Outstream.put ⟨[], 0⟩ (format [.alt] .none .int .x) [.int 0] ≠
        some ⟨[] ++ stdText [.alt] .none .int .x 0,
          0 + (stdText [.alt] .none .int .x 0).length⟩ := by
  have h1 : libVsprintf Outstream.put ⟨[], 0⟩ (format [.alt] .none .int .x) [.int 0] =
      some ⟨"0x0".toList.map ch, 3⟩ := by decide +kernel
  have h2 : stdText [.alt] .none .int .x 0 = "0".toList.map ch := by decide +kernel
  refine ⟨h1, h2, ?_⟩
  rw [h1, h2]
  decide

end

end NuttxAvr32.Vsprintf
