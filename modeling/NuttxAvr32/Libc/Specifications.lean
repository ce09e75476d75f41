import NuttxAvr32.Libc.Vsprintf

/-! # Conversion specifications

What `lib_vsprintf` puts for `%[flags][width][length]conv`, with any flags and width.
-/

namespace NuttxAvr32.Vsprintf

open Numerals

inductive Flag
  | minus
  | zero
  | plus
  | alt
deriving DecidableEq

def Flag.char : Flag → Nat
  | .minus => ch '-'
  | .zero => ch '0'
  | .plus => ch '+'
  | .alt => ch '#'

/-- A width: digits, of which the first is not zero, or an argument. -/
inductive Width
  | none
  | digits (d : Nat) (ds : List Nat)
  | star (w : Int)

def Width.chars : Width → List Nat
  | .none => []
  | .digits d ds => (d :: ds).map fun d => d + ch '0'
  | .star _ => [ch '*']

def Width.args : Width → List Arg
  | .star w => [.int w]
  | _ => []

def Width.value : Width → Int
  | .none => 0
  | .digits d ds => ds.foldl (fun (n : Int) (d : Nat) => 10 * n + d) d
  | .star w => w

def Width.Valid : Width → Prop
  | .none => True
  | .digits d ds => (1 ≤ d ∧ d ≤ 9) ∧ ∀ d ∈ ds, d ≤ 9
  | .star w => InRange 32 w

inductive Length
  | int
  | long
  | longlong
deriving DecidableEq

def Length.chars : Length → List Nat
  | .int => []
  | .long => [ch 'l']
  | .longlong => [ch 'l', ch 'l']

def Length.bits : Length → Nat
  | .int | .long => 32
  | .longlong => 64

theorem Length.size (len : Length) : Size len.bits := by
  cases len
  · exact .inl rfl
  · exact .inl rfl
  · exact .inr rfl

def Length.arg (v : Int) : Length → Arg
  | .int | .long => .int v
  | .longlong => .longlong v

def Conv.char : Conv → Nat
  | .d => ch 'd'
  | .i => ch 'i'
  | .u => ch 'u'
  | .x => ch 'x'
  | .X => ch 'X'
  | .p => ch 'p'
  | .o => ch 'o'
  | .b => ch 'b'

def format (flags : List Flag) (w : Width) (len : Length) (conv : Conv) : List Nat :=
  ch '%' :: (flags.map Flag.char ++ (w.chars ++ (len.chars ++ [conv.char])))

/-- The format that the flags leave: the last of `-` and `0`. -/
def lastFmt : List Flag → Fmt → Fmt
  | [], fmt => fmt
  | .minus :: flags, _ => lastFmt flags .ljust
  | .zero :: flags, _ => lastFmt flags .rjust0
  | .plus :: flags, fmt | .alt :: flags, fmt => lastFmt flags fmt

section

variable {flags : List Flag} {w : Width} {len : Length} {conv : Conv} {q : Spec} {v : Int}
  {args : List Arg}

def Flag.apply (q : Spec) : Flag → Spec
  | .minus => { q with fmt := .ljust }
  | .zero => { q with fmt := .rjust0 }
  | .plus => { q with flags := { q.flags with showplus := true } }
  | .alt => { q with flags := { q.flags with altform := true } }

theorem emit_silent {m m' : Mode} {c : Nat} {args args' : List Arg}
    (h : step m c args = ([], m', args')) (src : List Nat) :
    emit (c :: src) m args = emit src m' args' := by
  rw [emit, h]
  rfl

theorem emit_last {m : Mode} {c : Nat} {args args' : List Arg} {out : List Nat}
    (h : step m c args = (out, .text, args')) : emit [c] m args = (out, false) := by
  rw [emit, h]
  show (out ++ [], false) = _
  rw [List.append_nil]

theorem emit_flags (flags : List Flag) (q : Spec) (src : List Nat) (args : List Arg) :
    emit (flags.map Flag.char ++ src) (.spec q) args =
      emit src (.spec (flags.foldl Flag.apply q)) args := by
  induction flags generalizing q with
  | nil => rfl
  | cons f flags ih =>
    have hstep : step (.spec q) f.char args = ([], .spec (f.apply q), args) := by
      cases f <;> rfl
    exact (emit_silent hstep _).trans (ih (f.apply q))

structure Applied (flags : List Flag) (q q' : Spec) : Prop where
  fmt : q'.fmt = lastFmt flags q.fmt
  plus : q'.flags.showplus = (q.flags.showplus || decide (Flag.plus ∈ flags))
  alt : q'.flags.altform = (q.flags.altform || decide (Flag.alt ∈ flags))
  negate : q'.flags.negate = q.flags.negate
  hasdot : q'.flags.hasdot = q.flags.hasdot
  longlong : q'.flags.longlongprecision = q.flags.longlongprecision
  width : q'.width = q.width

theorem foldl_applied (flags : List Flag) (q : Spec) :
    Applied flags q (flags.foldl Flag.apply q) := by
  induction flags generalizing q with
  | nil => exact ⟨rfl, by simp, by simp, rfl, rfl, rfl, rfl⟩
  | cons f flags ih =>
    obtain ⟨h1, h2, h3, h4, h5, h6, h7⟩ := ih (f.apply q)
    rw [List.foldl_cons]
    cases f with
    | minus | zero | plus | alt =>
      exact ⟨h1, h2.trans (by simp [Flag.apply]), h3.trans (by simp [Flag.apply]), h4, h5,
        h6, h7⟩

theorem emit_conv (len : Length) (hd : q.flags.longlongprecision = false) (hp : conv ≠ .p) (v : Int)
    (args : List Arg) :
    ∃ f : Flags, f.showplus = q.flags.showplus ∧ f.altform = q.flags.altform ∧
      f.negate = q.flags.negate ∧
      emit (len.chars ++ [conv.char]) (.spec q) (len.arg v :: args) =
        (convert len.bits conv q.fmt f q.width v, false) := by
  cases len with
  | int =>
    refine ⟨q.flags, rfl, rfl, rfl, ?_⟩
    have hstep : step (.spec q) conv.char (.int v :: args) =
        (convert 32 conv q.fmt q.flags q.width v, .text, args) := by
      have hf : finish q conv.char (.int v :: args) =
          (convert 32 conv q.fmt q.flags q.width v, .text, args) := by
        unfold finish
        cases conv <;> exact if_neg (by simp [hd])
      rw [← hf]
      cases conv <;> rfl
    exact emit_last hstep
  | long =>
    refine ⟨{ q.flags with longprecision := true }, rfl, rfl, rfl, ?_⟩
    have hl : step (.spec q) (ch 'l') (.int v :: args) =
        ([], .long { q with flags := { q.flags with longprecision := true } },
          .int v :: args) := rfl
    have hstep : step (.long { q with flags := { q.flags with longprecision := true } })
        conv.char (.int v :: args) =
        (convert 32 conv q.fmt { q.flags with longprecision := true } q.width v, .text,
          args) := by
      cases conv <;> exact if_neg (by simp [hd])
    exact (emit_silent hl _).trans (emit_last hstep)
  | longlong =>
    refine ⟨{ q.flags with
      longprecision := true
      longlongprecision := true }, rfl, rfl, rfl, ?_⟩
    have hl : step (.spec q) (ch 'l') (.longlong v :: args) =
        ([], .long { q with flags := { q.flags with longprecision := true } },
          .longlong v :: args) := rfl
    have hl2 : step (.long { q with flags := { q.flags with longprecision := true } }) (ch 'l')
        (.longlong v :: args) =
        ([], .longlong { q with flags := { q.flags with
          longprecision := true
          longlongprecision := true } }, .longlong v :: args) := rfl
    have hstep : step (.longlong { q with flags := { q.flags with
          longprecision := true
          longlongprecision := true } }) conv.char (.longlong v :: args) =
        (convert 64 conv q.fmt { q.flags with
          longprecision := true
          longlongprecision := true } q.width v, .text, args) := by
      cases conv with
      | p => exact absurd rfl hp
      | d | i | u | x | X | o | b => rfl
    exact (emit_silent hl _).trans ((emit_silent hl2 _).trans (emit_last hstep))

theorem emit_digits (ds : List Nat) (hds : ∀ d ∈ ds, d ≤ 9) (n : Int) (m : Int)
    (hn : n = wrap 32 m) (q : Spec) (src : List Nat) (args : List Arg) :
    emit ((ds.map fun d => d + ch '0') ++ src) (.digits n q) args =
      emit src (.digits (wrap 32 (ds.foldl (fun (n : Int) (d : Nat) => 10 * n + d) m)) q)
        args := by
  induction ds generalizing n m with
  | nil => rw [hn]; rfl
  | cons d ds ih =>
    have hd : d ≤ 9 := hds d List.mem_cons_self
    have hstep : step (.digits n q) (d + ch '0') args =
        ([], .digits (wrap 32 (10 * m + d)) q, args) := by
      have hc : ch '0' ≤ d + ch '0' ∧ d + ch '0' ≤ ch '9' := ⟨by omega, by
        show d + 48 ≤ 57
        omega⟩
      have hw : wrap 32 (10 * n + ((d + ch '0' : Nat) - ch '0')) = wrap 32 (10 * m + d) := by
        refine wrap_congr ?_
        have hmod := wrap_emod 32 m
        rw [← hn] at hmod
        norm_num at hmod ⊢
        omega
      unfold step
      dsimp only
      rw [if_pos hc, hw]
    exact (emit_silent hstep _).trans
      (ih (fun e he => hds e (List.mem_cons_of_mem _ he)) _ _ rfl)

theorem emit_stored {c : Nat} (hc : ¬(ch '0' ≤ c ∧ c ≤ ch '9')) (n : Int) (q : Spec)
    (src : List Nat) (args : List Arg) :
    emit (c :: src) (.digits n q) args = emit (c :: src) (.spec (q.setNumber n)) args := by
  have hstep : step (.digits n q) c args = step (.spec (q.setNumber n)) c args := if_neg hc
  rw [emit, emit, hstep]

theorem emit_width (hw : w.Valid) (hd : q.flags.hasdot = false) (h0 : q.width = 0) (len : Length)
    (conv : Conv) (args : List Arg) :
    ∃ q' : Spec, q'.fmt = q.fmt ∧ q'.flags.showplus = q.flags.showplus ∧
      q'.flags.altform = q.flags.altform ∧ q'.flags.negate = q.flags.negate ∧
      q'.flags.longlongprecision = q.flags.longlongprecision ∧
      q'.width = wrap 32 w.value ∧
      emit (w.chars ++ (len.chars ++ [conv.char])) (.spec q) (w.args ++ args) =
        emit (len.chars ++ [conv.char]) (.spec q') args := by
  cases w with
  | none => exact ⟨q, rfl, rfl, rfl, rfl, rfl, h0, rfl⟩
  | star n =>
    have hn : wrap 32 n = n := wrap_of_mem hw.1 hw.2 (.inl rfl)
    have hstep : step (.spec q) (ch '*') (.int n :: args) =
        ([], .spec { q with
          width := n
          flags := { q.flags with hasasteriskwidth := true } }, args) := by
      have hset : q.setNumber n = { q with width := n } := by
        unfold Spec.setNumber
        rw [hd]
        rfl
      have hdot : ¬(q.setNumber n).flags.hasdot = true := by
        rw [hset]
        simp [hd]
      refine Eq.trans (if_neg hdot) ?_
      show ([], Mode.spec { q.setNumber n with
        flags := { (q.setNumber n).flags with hasasteriskwidth := true } }, args) = _
      rw [hset]
    exact ⟨{ q with
      width := n
      flags := { q.flags with hasasteriskwidth := true } }, rfl, rfl, rfl, rfl, rfl, hn.symm,
      emit_silent hstep _⟩
  | digits d ds =>
    obtain ⟨⟨h1, h9⟩, hds⟩ := hw
    have hdigit : wrap 32 (d : Int) = d :=
      wrap_of_mem (by norm_num) (by norm_num; omega) (.inl rfl)
    have hfirst : step (.spec q) (d + ch '0') args = ([], .digits d q, args) := by
      have hcases : d = 1 ∨ d = 2 ∨ d = 3 ∨ d = 4 ∨ d = 5 ∨ d = 6 ∨ d = 7 ∨ d = 8 ∨ d = 9 := by
        omega
      rcases hcases with rfl | rfl | rfl | rfl | rfl | rfl | rfl | rfl | rfl <;> rfl
    have hset : q.setNumber (wrap 32 (Width.digits d ds).value) =
        { q with width := wrap 32 (Width.digits d ds).value } := by
      unfold Spec.setNumber
      rw [hd]
      rfl
    have htail : ∃ c src, len.chars ++ [conv.char] = c :: src ∧
        ¬(ch '0' ≤ c ∧ c ≤ ch '9') := by
      cases len with
      | int => exact ⟨_, _, rfl, by cases conv <;> decide⟩
      | long | longlong => exact ⟨_, _, rfl, by decide⟩
    obtain ⟨c, src, hsrc, hc⟩ := htail
    refine ⟨{ q with width := wrap 32 (Width.digits d ds).value }, rfl, rfl, rfl, rfl, rfl, rfl,
      ?_⟩
    refine (emit_silent hfirst _).trans ?_
    refine (emit_digits ds hds d d hdigit.symm q _ _).trans ?_
    rw [hsrc, emit_stored hc]
    exact congrArg (fun q => emit (c :: src) (.spec q) args) hset

theorem emit_format (hc : conv ≠ .p) (hw : w.Valid) (hv : InRange len.bits v)
    (args : List Arg) :
    let sign := codeSign conv (decide (Flag.plus ∈ flags)) v
    let pre := codePrefix conv (decide (Flag.alt ∈ flags))
    let digits := convDigits conv (magnitude len.bits conv v)
    emit (format flags w len conv) .text (w.args ++ len.arg v :: args) =
      ((lastFmt flags .rjust).layout.text
        (padding (wrap 32 w.value) (sign ++ (pre ++ digits)).length) sign pre digits, false) := by
  have hsize := len.size
  obtain ⟨h1, h2, h3, h4, h5, h6, h7⟩ := foldl_applied flags initial
  obtain ⟨q', g1, g2, g3, g4, g5, g6, g7⟩ := emit_width (q := flags.foldl Flag.apply initial)
    hw h5 h7 len conv (len.arg v :: args)
  obtain ⟨f, f1, f2, f3, f4⟩ := emit_conv (q := q') len (g5.trans h6) hc v args
  have hfirst : step .text (ch '%') (w.args ++ len.arg v :: args) =
      ([], .spec initial, w.args ++ len.arg v :: args) := rfl
  have hplus : f.showplus = decide (Flag.plus ∈ flags) := by
    rw [f1, g2, h2]
    rfl
  have halt : f.altform = decide (Flag.alt ∈ flags) := by
    rw [f2, g3, h3]
    rfl
  have hneg : f.negate = false := by
    rw [f3, g4, h4]
    rfl
  have hfmt : q'.fmt = lastFmt flags .rjust := g1.trans h1
  have hconv := convert_eq hsize conv hv (fun h => absurd h hc) hneg q'.fmt q'.width
  dsimp only at hconv ⊢
  refine (emit_silent hfirst _).trans ?_
  refine (emit_flags flags initial _ _).trans ?_
  rw [g7, f4, hconv, hplus, halt, hfmt, g6]

end

end NuttxAvr32.Vsprintf
