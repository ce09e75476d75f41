import NuttxAvr32.Libc.Vsprintf

/-! # Bounds of formatted output

The stream of `snprintf` puts a terminator behind every character that it takes, and takes none
that would come to its last two bytes. A format that ends inside a specification is read past
its terminator.
-/

namespace NuttxAvr32.Vsprintf

open Function (update update_self update_of_ne)

/-- The stream into memory, of which a buffer is the beginning. -/
structure Memoutstream where
  buffer : Nat → Nat
  nput : Nat
  buflen : Int

def Memoutstream.put (s : Memoutstream) (c : Nat) : Memoutstream :=
  if (s.nput : Int) < wrap 32 (s.buflen - 1) then
    { s with
      buffer := update (update s.buffer s.nput c) (s.nput + 1) 0
      nput := s.nput + 1 }
  else s

/-- `lib_memoutstream`: the size is taken as an `int`. -/
def libMemoutstream (bufstart : Nat → Nat) (buflen : Int) : Memoutstream :=
  ⟨bufstart, 0, wrap 32 (buflen - 1)⟩

/-- The result of `snprintf` and the memory from the buffer on. -/
def snprintf (buf : Nat → Nat) (size : Nat) (fmt : List Nat) (args : List Arg) :
    Option (Nat × (Nat → Nat)) :=
  (libVsprintf Memoutstream.put (libMemoutstream buf (wrap 32 size)) fmt args).map fun s =>
    (s.nput, s.buffer)

inductive Place
  | text
  | spec
  | long
  | longlong
deriving DecidableEq

def Place.next : Place → Nat → Place
  | .text, c => if c = ch '%' then .spec else .text
  | .spec, c =>
    if c = ch 'L' then .longlong
    else if c = ch 'l' then .long
    else if c ∈ "diuxXpobeEfgGsc%".toList.map ch then .text
    else .spec
  | .long, c => if c = ch 'l' then .longlong else .text
  | .longlong, _ => .text

/-- The format stops after `%`, a flag, a width, or `l`. -/
def EndsInside (fmt : List Nat) : Prop := fmt.foldl Place.next .text ≠ .text

def Mode.place : Mode → Place
  | .text => .text
  | .spec _ | .digits _ _ => .spec
  | .long _ => .long
  | .longlong _ => .longlong

theorem finish_text (q : Spec) (c : Nat) (args : List Arg) :
    (finish q c args).2.1 = .text := by
  unfold finish
  cases convOf c with
  | none => rfl
  | some conv =>
    dsimp only
    split <;> rfl

theorem qualifier_place (q : Spec) (c : Nat) (args : List Arg) :
    (qualifier q c args).2.1.place = Place.next .spec c := by
  have hlist : c ∈ "diuxXpobeEfgGlLsc%".toList.map ch ↔
      c = ch 'L' ∨ c = ch 'l' ∨ c ∈ "diuxXpobeEfgGsc%".toList.map ch := by
    constructor
    · have hone : ∀ c ∈ "diuxXpobeEfgGlLsc%".toList.map ch,
          c = ch 'L' ∨ c = ch 'l' ∨ c ∈ "diuxXpobeEfgGsc%".toList.map ch := by decide +kernel
      exact hone c
    · have hback : ∀ c ∈ "diuxXpobeEfgGsc%".toList.map ch,
          c ∈ "diuxXpobeEfgGlLsc%".toList.map ch := by decide +kernel
      rintro (rfl | rfl | h)
      · decide
      · decide
      · exact hback c h
  by_cases hL : c = ch 'L'
  · subst hL
    rfl
  by_cases hl : c = ch 'l'
  · subst hl
    rfl
  by_cases hm : c ∈ "diuxXpobeEfgGsc%".toList.map ch
  · have hnext : Place.next .spec c = .text := by
      show (if c = ch 'L' then _ else _) = _
      rw [if_neg hL, if_neg hl, if_pos hm]
    rw [hnext]
    unfold qualifier
    rw [if_pos (hlist.mpr (.inr (.inr hm)))]
    split
    · rfl
    split
    · rfl
    split
    · rfl
    rw [finish_text]
    rfl
  · have hout : c ∉ "diuxXpobeEfgGlLsc%".toList.map ch := fun h => by
      rcases hlist.mp h with h | h | h
      · exact hL h
      · exact hl h
      · exact hm h
    have hnext : Place.next .spec c = .spec := by
      show (if c = ch 'L' then _ else _) = _
      rw [if_neg hL, if_neg hl, if_neg hm]
    rw [hnext]
    unfold qualifier
    rw [if_neg hout]
    split
    · rfl
    split
    · rfl
    split
    · dsimp only
      split <;> rfl
    split
    · rfl
    split
    · rfl
    split
    · rfl
    split <;> rfl

theorem next_digit {c : Nat} (h : ch '0' ≤ c ∧ c ≤ ch '9') : Place.next .spec c = .spec := by
  have hl : 48 ≤ c := h.1
  have hu : c ≤ 57 := h.2
  have hcases : c = 48 ∨ c = 49 ∨ c = 50 ∨ c = 51 ∨ c = 52 ∨ c = 53 ∨ c = 54 ∨ c = 55 ∨
      c = 56 ∨ c = 57 := by omega
  rcases hcases with rfl | rfl | rfl | rfl | rfl | rfl | rfl | rfl | rfl | rfl <;> rfl

theorem step_place (m : Mode) (c : Nat) (args : List Arg) :
    (step m c args).2.1.place = m.place.next c := by
  cases m with
  | text =>
    unfold step Mode.place Place.next
    by_cases hc : c = ch '%'
    · simp [hc]
    · simp [hc]
  | spec q => exact qualifier_place q c args
  | digits n q =>
    unfold step
    dsimp only
    split
    · rename_i hd
      exact (next_digit hd).symm
    · exact qualifier_place _ c args
  | long q =>
    by_cases hc : c = ch 'l'
    · subst hc
      rfl
    · have hnext : Place.next .long c = .text := if_neg hc
      show (if c = ch 'l' then _ else finish q c args).2.1.place = Place.next .long c
      rw [hnext, if_neg hc, finish_text]
      rfl
  | longlong q =>
    unfold step
    dsimp only
    rw [finish_text]
    rfl

theorem emit_overrun (fmt : List Nat) (m : Mode) (args : List Arg) :
    (emit fmt m args).2 = true ↔ fmt.foldl Place.next m.place ≠ .text := by
  induction fmt generalizing m args with
  | nil => cases m <;> simp [emit, Mode.place]
  | cons c fmt ih =>
    rw [emit, List.foldl_cons, ← step_place m c args]
    exact ih _ _

/-- The characters that the stream takes, in front of the terminator. -/
def capacity (size : Nat) : Nat := (wrap 32 ((size : Int) - 2)).toNat

theorem capacity_buflen (buf : Nat → Nat) (size : Nat) :
    capacity size = (wrap 32 ((libMemoutstream buf (wrap 32 size)).buflen - 1)).toNat := by
  have hwrap : wrap 32 ((size : Int) - 2) = wrap 32 (wrap 32 (wrap 32 size - 1) - 1) := by
    refine wrap_congr ?_
    have ha := wrap_emod 32 (size : Int)
    have hb := wrap_emod 32 (wrap 32 (size : Int) - 1)
    norm_num at ha hb ⊢
    omega
  unfold capacity libMemoutstream
  rw [hwrap]

theorem capacity_eq {size : Nat} (h : size < 2 ^ 32) :
    capacity size = if size < 2 ^ 31 + 2 then size - 2 else 0 := by
  unfold capacity wrap
  rw [Int.bmod_def]
  norm_num at h ⊢
  split <;> split <;> omega

/-- What the stream has in memory after it was given characters: a prefix of them as long as its
capacity, with the terminator behind it if there is a character at all. -/
theorem foldl_mem (out : List Nat) (s : Memoutstream) (cap : Nat)
    (hcap : cap = (wrap 32 (s.buflen - 1)).toNat) (hn : s.nput ≤ cap) :
    (out.foldl Memoutstream.put s).nput = s.nput + min out.length (cap - s.nput) ∧
      (∀ i < s.nput, (out.foldl Memoutstream.put s).buffer i = s.buffer i) ∧
      (∀ i < min out.length (cap - s.nput),
        (out.foldl Memoutstream.put s).buffer (s.nput + i) = out.getD i 0) ∧
      (0 < min out.length (cap - s.nput) →
        (out.foldl Memoutstream.put s).buffer (s.nput + min out.length (cap - s.nput)) = 0) ∧
      (min out.length (cap - s.nput) = 0 →
        (out.foldl Memoutstream.put s).buffer s.nput = s.buffer s.nput) ∧
      ∀ i, s.nput + min out.length (cap - s.nput) < i →
        (out.foldl Memoutstream.put s).buffer i = s.buffer i := by
  induction out generalizing s with
  | nil => simp
  | cons c out ih =>
    rw [List.foldl_cons]
    by_cases hfull : s.nput = cap
    · have hput : s.put c = s := by
        unfold Memoutstream.put
        rw [if_neg (by omega)]
      have hrest := ih s hcap hn
      have hmin : ∀ l : Nat, min l (cap - s.nput) = 0 := by omega
      rw [hput]
      simp only [hmin] at hrest ⊢
      obtain ⟨h1, h2, -, h4, h5, h6⟩ := hrest
      exact ⟨h1, h2, fun i hi => absurd hi (Nat.not_lt_zero i), h4, h5, h6⟩
    · have hput : s.put c = { s with
          buffer := update (update s.buffer s.nput c) (s.nput + 1) 0
          nput := s.nput + 1 } := by
        unfold Memoutstream.put
        rw [if_pos (by omega)]
      obtain ⟨h1, h2, h3, h4, h5, h6⟩ := ih (s.put c) (by rw [hput]; exact hcap)
        (by rw [hput]; show s.nput + 1 ≤ cap; omega)
      have hnput : (s.put c).nput = s.nput + 1 := by rw [hput]
      have hmin : min (c :: out).length (cap - s.nput) =
          min out.length (cap - (s.nput + 1)) + 1 := by
        rw [List.length_cons]
        omega
      have hbuf : ∀ i, i ≠ s.nput → i ≠ s.nput + 1 → (s.put c).buffer i = s.buffer i := by
        intro i hi hi'
        rw [hput]
        show update (update s.buffer s.nput c) (s.nput + 1) 0 i = _
        rw [update_of_ne hi', update_of_ne hi]
      have hchar : (s.put c).buffer s.nput = c := by
        rw [hput]
        show update (update s.buffer s.nput c) (s.nput + 1) 0 s.nput = _
        rw [update_of_ne (by omega), update_self]
      have hzero : (s.put c).buffer (s.nput + 1) = 0 := by
        rw [hput]
        exact update_self _ _ _
      rw [hnput] at h1 h2 h3 h4 h5 h6
      rw [hmin]
      refine ⟨by omega, fun i hi => ?_, fun i hi => ?_, fun _ => ?_, fun h => by omega,
        fun i hi => ?_⟩
      · rw [h2 i (by omega), hbuf i (by omega) (by omega)]
      · cases i with
        | zero =>
          rw [Nat.add_zero, h2 _ (by omega), hchar]
          rfl
        | succ i =>
          have hidx : s.nput + (i + 1) = s.nput + 1 + i := by omega
          rw [hidx, h3 i (by omega)]
          rfl
      · rcases Nat.eq_zero_or_pos (min out.length (cap - (s.nput + 1))) with h0 | hpos
        · rw [h0, Nat.zero_add, h5 h0, hzero]
        · have hidx : s.nput + (min out.length (cap - (s.nput + 1)) + 1) =
              s.nput + 1 + min out.length (cap - (s.nput + 1)) := by omega
          rw [hidx, h4 hpos]
      · rw [h6 i (by omega), hbuf i (by omega) (by omega)]

/-- What the claims of a format and a buffer size come to: the format is not read past its end,
nothing is written behind the buffer, the longest prefix of the output that fits is there with a
terminator, and the result is the length of the output. -/
def Bounded (buf : Nat → Nat) (size : Nat) (fmt : List Nat) (args : List Arg) : Prop :=
  ∃ mem, snprintf buf size fmt args = some ((emit fmt .text args).1.length, mem) ∧
    (∀ i, size ≤ i → mem i = buf i) ∧
    (∀ i < min (emit fmt .text args).1.length (size - 1),
      mem i = (emit fmt .text args).1.getD i 0) ∧
    mem (min (emit fmt .text args).1.length (size - 1)) = 0

/-- The full output is not empty and two bytes shorter than the buffer, or it is empty and the
buffer starts with a terminator already. -/
def Fits (buf : Nat → Nat) (size length : Nat) : Prop :=
  (0 < length ∧ length + 2 ≤ size ∧ size < 2 ^ 31 + 2) ∨ (length = 0 ∧ buf 0 = 0)

theorem snprintf_bounded_iff (buf : Nat → Nat) {size : Nat} (h1 : 1 ≤ size) (h32 : size < 2 ^ 32)
    (fmt : List Nat) (args : List Arg) :
    Bounded buf size fmt args ↔
      ¬ EndsInside fmt ∧ Fits buf size (emit fmt .text args).1.length := by
  have hover := emit_overrun fmt .text args
  by_cases hend : EndsInside fmt
  · have hnone : snprintf buf size fmt args = none := by
      unfold snprintf libVsprintf
      dsimp only
      rw [if_pos (hover.mpr hend)]
      rfl
    refine ⟨?_, fun h => absurd hend h.1⟩
    rintro ⟨mem, h, -⟩
    rw [hnone] at h
    cases h
  · have hflag : ¬(emit fmt .text args).2 = true := fun h => hend (hover.mp h)
    have hsn : snprintf buf size fmt args =
        some (((emit fmt .text args).1.foldl Memoutstream.put
            (libMemoutstream buf (wrap 32 size))).nput,
          ((emit fmt .text args).1.foldl Memoutstream.put
            (libMemoutstream buf (wrap 32 size))).buffer) := by
      unfold snprintf libVsprintf
      dsimp only
      rw [if_neg hflag]
      rfl
    have hmem := foldl_mem (emit fmt .text args).1 (libMemoutstream buf (wrap 32 size))
      (capacity size) (capacity_buflen buf size) (Nat.zero_le _)
    unfold Bounded
    rw [hsn]
    generalize (emit fmt .text args).1 = out at hmem ⊢
    generalize out.foldl Memoutstream.put (libMemoutstream buf (wrap 32 size)) = t at hmem ⊢
    have hcap := capacity_eq h32
    generalize capacity size = cap at hmem hcap
    have hnput : (libMemoutstream buf (wrap 32 size)).nput = 0 := rfl
    have hbuffer : (libMemoutstream buf (wrap 32 size)).buffer = buf := rfl
    rw [hnput, hbuffer] at hmem
    simp only [Nat.zero_add, Nat.sub_zero] at hmem
    obtain ⟨m1, -, m3, m4, m5, m6⟩ := hmem
    constructor
    · rintro ⟨mem, h, -, -, hz⟩
      obtain ⟨hlen, rfl⟩ := Prod.mk.inj (Option.some.inj h)
      refine ⟨hend, ?_⟩
      rw [m1] at hlen
      rcases Nat.eq_zero_or_pos out.length with h0 | hpos
      · refine .inr ⟨h0, ?_⟩
        rw [h0, Nat.zero_min] at hz m5
        rw [← m5 rfl]
        exact hz
      · refine .inl ⟨hpos, ?_⟩
        split at hcap <;> omega
    · rintro ⟨-, hfit⟩
      have hmin : min out.length cap = out.length := by
        rcases hfit with ⟨h0, hle, hlt⟩ | ⟨h0, -⟩
        · rw [if_pos hlt] at hcap
          omega
        · omega
      have hsize : min out.length (size - 1) = out.length := by
        rcases hfit with ⟨h0, hle, hlt⟩ | ⟨h0, -⟩ <;> omega
      rw [hmin] at m1 m3 m4 m5 m6
      refine ⟨t.buffer, by rw [m1], fun i hi => m6 i ?_, ?_, ?_⟩
      · rcases hfit with ⟨h0, hle, hlt⟩ | ⟨h0, -⟩ <;> omega
      · rw [hsize]
        exact m3
      · rw [hsize]
        rcases hfit with ⟨h0, hle, hlt⟩ | ⟨h0, hb⟩
        · exact m4 h0
        · rw [h0]
          exact (m5 h0).trans hb

/-- `snprintf(buf, 16, "%d", 42)`. -/
theorem snprintf_bounded_number :
    Bounded (fun _ => 1) 16 ("%d".toList.map ch) [.int 42] ↔
      ¬ EndsInside ("%d".toList.map ch) ∧
        Fits (fun _ => 1) 16 (emit ("%d".toList.map ch) .text [.int 42]).1.length :=
  snprintf_bounded_iff _ (by decide) (by decide) _ _

/-- `snprintf(buf, 3, "ab")` stores one character of the two that fit, and returns 1. -/
theorem snprintf_short :
    (snprintf (fun _ => 1) 3 ("ab".toList.map ch) []).map Prod.fst = some 1 ∧
      ¬ Bounded (fun _ => 1) 3 ("ab".toList.map ch) [] := by
  have hlen : (emit ("ab".toList.map ch) .text []).1.length = 2 := by decide
  have h : (snprintf (fun _ => 1) 3 ("ab".toList.map ch) []).map Prod.fst = some 1 := by
    decide +kernel
  refine ⟨h, ?_⟩
  rintro ⟨mem, hs, -⟩
  rw [hs, hlen] at h
  cases h

end NuttxAvr32.Vsprintf
