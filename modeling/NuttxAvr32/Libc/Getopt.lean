import Mathlib.Data.List.Basic
import Mathlib.Algebra.Ring.Int.Defs

/-! # Command line options

`getopt_` keeps its place in two globals, the index `optind` and the pointer `g_optptr` into an
element. An option that lacks its argument advances only the first of them.
-/

namespace NuttxAvr32.Getopt

/-- A place in `argv`: an element and the text of it from there on. -/
abbrev Place := Nat × List Char

structure State where
  optind : Int
  optptr : Option Place
  binitialized : Bool
  optarg : Option (List Char)
  optopt : Char

/-- What a call returns, `none` for `ERROR`, and the option character that it looked at. -/
structure Result where
  ret : Option Char
  place : Option Place
  state : State

/-- `argv` from an index on, up to its terminator. There is nothing to read behind that. -/
def argvFrom (argv : List (List Char)) (i : Int) : Option (List (List Char)) :=
  if 0 ≤ i ∧ i ≤ argv.length then some (argv.drop i.toNat) else none

/-- The rest of a string from the first occurrence of a character on. -/
def strchr (s : List Char) (c : Char) : Option (List Char) :=
  match s with
  | [] => none
  | d :: s => if d = c then some (d :: s) else strchr s c

/-- What follows the loop, where `g_optptr` is at the character `c` and `cs` behind it. -/
def handle (argv : List (List Char)) (noarg : Char) (opts : List Char) (e : Nat) (c : Char)
    (cs : List Char) (s : State) : Option Result :=
  if c = ':' then
    some ⟨some '?', some (e, c :: cs), { s with
      optopt := c
      optptr := some (e, cs) }⟩
  else
    match strchr opts c with
    | none =>
      some ⟨some '?', some (e, c :: cs), { s with
        optopt := c
        optptr := some (e, cs) }⟩
    | some optchar =>
      if optchar.tail.head? ≠ some ':' then
        some ⟨some c, some (e, c :: cs), { s with optptr := some (e, cs) }⟩
      else if cs ≠ [] then
        some ⟨some c, some (e, c :: cs), { s with
          optarg := some cs
          optind := s.optind + 1
          optptr := none }⟩
      else
        match argvFrom argv (s.optind + 1) with
        | none => none
        | some next =>
          match next with
          | a :: _ =>
            if a.head? ≠ some '-' then
              some ⟨some c, some (e, c :: cs), { s with
                optarg := some a
                optind := s.optind + 2
                optptr := none }⟩
            else
              some ⟨some noarg, some (e, c :: cs), { s with
                optarg := none
                optopt := c
                optind := s.optind + 1 }⟩
          | [] =>
            some ⟨some noarg, some (e, c :: cs), { s with
              optarg := none
              optopt := c
              optind := s.optind + 1 }⟩

/-- The loop from the element at `i` on. It goes on behind an element without characters, where
`g_optptr` is at the terminator, so that the case of a single `-` behind the loop never
happens. -/
def scan (argv : List (List Char)) (noarg : Char) (opts : List Char) (s : State) :
    Nat → List (List Char) → Option Result
  | i, [] =>
    some ⟨none, none, { s with
      optind := i
      optptr := none
      binitialized := false }⟩
  | i, e :: es =>
    match e with
    | '-' :: [] => scan argv noarg opts s (i + 1) es
    | '-' :: c :: cs =>
      handle argv noarg opts i c cs { s with
        optind := i
        optptr := some (i, c :: cs) }
    | e =>
      some ⟨none, none, { s with
        optind := i
        optptr := some (i, e)
        binitialized := false }⟩

/-- The value for a missing argument, and the option characters. -/
def optchars : List Char → Char × List Char
  | ':' :: opts => (':', opts)
  | opts => ('?', opts)

def initialize_ (s : State) : State :=
  if s.optind < 1 ∨ s.binitialized = false then
    { s with
      optind := 1
      optptr := none
      binitialized := true }
  else s

/-- `getopt_` with `argc` elements in front of the terminator; `none` if it reads `argv` behind
the terminator. -/
def getopt (argv : List (List Char)) (optstring : List Char) (s : State) : Option Result :=
  if argv.length ≤ 1 then some ⟨none, none, { s with binitialized := false }⟩
  else
    let s := initialize_ s
    let noarg := (optchars optstring).1
    let opts := (optchars optstring).2
    match s.optptr with
    | some (e, c :: cs) => handle argv noarg opts e c cs s
    | none =>
      match argvFrom argv s.optind with
      | none => none
      | some es => scan argv noarg opts s s.optind.toNat es
    | some (_, []) =>
      match argvFrom argv (s.optind + 1) with
      | none => none
      | some es => scan argv noarg opts s (s.optind + 1).toNat es

inductive Kind
  | unknown
  | plain
  | takesArg

def kind (opts : List Char) (c : Char) : Kind :=
  if c = ':' then .unknown
  else
    match strchr opts c with
    | none => .unknown
    | some optchar => if optchar.tail.head? = some ':' then .takesArg else .plain

inductive Report
  | unknown (place : Place) (c : Char)
  | plain (place : Place) (c : Char)
  | argument (place : Place) (c : Char) (arg : List Char)
  | missing (place : Place) (c : Char)

def Report.place : Report → Place
  | .unknown place _ | .plain place _ | .argument place _ _ | .missing place _ => place

def Report.Missing : Report → Prop
  | .missing _ _ => True
  | _ => False

/-- The reports of the characters of element `i`, and how many elements behind it are arguments.
An element that starts with `-` is no argument. -/
def charReports (opts : List Char) (i : Nat) (next : Option (List Char)) :
    List Char → List Report × Nat
  | [] => ([], 0)
  | c :: cs =>
    let rest := charReports opts i next cs
    match kind opts c with
    | .unknown => (.unknown (i, c :: cs) c :: rest.1, rest.2)
    | .plain => (.plain (i, c :: cs) c :: rest.1, rest.2)
    | .takesArg =>
      if cs ≠ [] then ([.argument (i, c :: cs) c cs], 0)
      else
        match next with
        | none => ([.missing (i, c :: cs) c], 0)
        | some a =>
          if a.head? = some '-' then ([.missing (i, c :: cs) c], 0)
          else ([.argument (i, c :: cs) c a], 1)

/-- The reports of the leading option elements from index `i` on, and the index of the first
element behind them and their arguments; `skip` elements are arguments. -/
def reports (opts : List Char) : Nat → Nat → List (List Char) → List Report × Nat
  | i, _, [] => ([], i)
  | i, skip + 1, _ :: es => reports opts (i + 1) skip es
  | i, 0, e :: es =>
    if e.head? = some '-' then
      let r := charReports opts i es.head? e.tail
      let rest := reports opts (i + 1) r.2 es
      (r.1 ++ rest.1, rest.2)
    else ([], i)

/-- The reports of `argv` behind the program name. -/
def expected (optstring : List Char) (argv : List (List Char)) : List Report × Nat :=
  match argv with
  | [] => ([], 0)
  | _ :: es => reports (optchars optstring).2 1 0 es

def Shows (noarg : Char) (r : Result) : Report → Prop
  | .unknown place c => r.ret = some '?' ∧ r.place = some place ∧ r.state.optopt = c
  | .plain place c => r.ret = some c ∧ r.place = some place
  | .argument place c arg => r.ret = some c ∧ r.place = some place ∧ r.state.optarg = some arg
  | .missing place c => r.ret = some noarg ∧ r.place = some place ∧ r.state.optopt = c

/-- A call and those after it show the reports, the last returns `ERROR`, and `optind` is as
given then. -/
def Follows (argv : List (List Char)) (optstring : List Char) (final : Nat) :
    List Report → Option Result → Prop
  | [], res => ∃ r, res = some r ∧ r.ret = none ∧ r.state.optind = final
  | p :: ps, res =>
    ∃ r, res = some r ∧ Shows (optchars optstring).1 r p ∧
      Follows argv optstring final ps (getopt argv optstring r.state)

/-- Calls until `ERROR` report every option character of the leading elements once. -/
def Right (argv : List (List Char)) (optstring : List Char) (s : State) : Prop :=
  Follows argv optstring (expected optstring argv).2 (expected optstring argv).1
    (getopt argv optstring s)

/-- There are elements behind the program name, and no option lacks its argument. -/
def Supplied (optstring : List Char) (argv : List (List Char)) : Prop :=
  1 < argv.length ∧ ∀ p ∈ (expected optstring argv).1, ¬ p.Missing

section

variable {argv : List (List Char)} {optstring opts cs : List Char} {noarg c : Char} {s : State}
  {e i j : Nat}

theorem argvFrom_le (h : j ≤ argv.length) : argvFrom argv (j : Int) = some (argv.drop j) := by
  unfold argvFrom
  rw [if_pos ⟨by omega, by omega⟩]
  rfl

theorem handle_unknown (h : kind opts c = .unknown) :
    handle argv noarg opts e c cs s =
      some ⟨some '?', some (e, c :: cs), { s with
        optopt := c
        optptr := some (e, cs) }⟩ := by
  unfold kind at h
  unfold handle
  by_cases hc : c = ':'
  · rw [if_pos hc]
  · rw [if_neg hc] at h ⊢
    cases hs : strchr opts c with
    | none => rfl
    | some optchar =>
      rw [hs] at h
      dsimp only at h
      split at h <;> cases h

theorem handle_plain (h : kind opts c = .plain) :
    handle argv noarg opts e c cs s =
      some ⟨some c, some (e, c :: cs), { s with optptr := some (e, cs) }⟩ := by
  unfold kind at h
  unfold handle
  by_cases hc : c = ':'
  · rw [if_pos hc] at h
    cases h
  · rw [if_neg hc] at h ⊢
    cases hs : strchr opts c with
    | none => rw [hs] at h; cases h
    | some optchar =>
      rw [hs] at h
      dsimp only at h ⊢
      split at h
      · cases h
      · rename_i hh
        exact if_pos hh

/-- An option with an argument: the rest of the element, else the element behind `optind`. -/
theorem handle_takesArg (h : kind opts c = .takesArg) :
    handle argv noarg opts e c cs s =
      if cs ≠ [] then
        some ⟨some c, some (e, c :: cs), { s with
          optarg := some cs
          optind := s.optind + 1
          optptr := none }⟩
      else
        (argvFrom argv (s.optind + 1)).map fun next =>
          match next.head? with
          | none =>
            ⟨some noarg, some (e, c :: cs), { s with
              optarg := none
              optopt := c
              optind := s.optind + 1 }⟩
          | some a =>
            if a.head? = some '-' then
              ⟨some noarg, some (e, c :: cs), { s with
                optarg := none
                optopt := c
                optind := s.optind + 1 }⟩
            else
              ⟨some c, some (e, c :: cs), { s with
                optarg := some a
                optind := s.optind + 2
                optptr := none }⟩ := by
  unfold kind at h
  unfold handle
  by_cases hc : c = ':'
  · rw [if_pos hc] at h
    cases h
  · rw [if_neg hc] at h ⊢
    cases hs : strchr opts c with
    | none => rw [hs] at h; cases h
    | some optchar =>
      rw [hs] at h
      dsimp only at h ⊢
      split at h
      · rename_i hh
        rw [if_neg (not_not.mpr hh)]
        split
        · rfl
        · cases argvFrom argv (s.optind + 1) with
          | none => rfl
          | some next =>
            cases next with
            | nil => rfl
            | cons a next =>
              by_cases ha : a.head? = some '-'
              · simp [ha]
              · simp [ha]
      · cases h

theorem charReports_cons (opts : List Char) (i : Nat) (next : Option (List Char)) (c : Char)
    (cs : List Char) :
    charReports opts i next (c :: cs) =
      match kind opts c with
      | .unknown =>
        (.unknown (i, c :: cs) c :: (charReports opts i next cs).1,
          (charReports opts i next cs).2)
      | .plain =>
        (.plain (i, c :: cs) c :: (charReports opts i next cs).1,
          (charReports opts i next cs).2)
      | .takesArg =>
        if cs ≠ [] then ([.argument (i, c :: cs) c cs], 0)
        else
          match next with
          | none => ([.missing (i, c :: cs) c], 0)
          | some a =>
            if a.head? = some '-' then ([.missing (i, c :: cs) c], 0)
            else ([.argument (i, c :: cs) c a], 1) := rfl

theorem reports_option (opts : List Char) (j : Nat) (cs : List Char) (es : List (List Char)) :
    reports opts j 0 (('-' :: cs) :: es) =
      ((charReports opts j es.head? cs).1 ++
          (reports opts (j + 1) (charReports opts j es.head? cs).2 es).1,
        (reports opts (j + 1) (charReports opts j es.head? cs).2 es).2) := rfl

theorem reports_stop {a : List Char} (ha : a.head? ≠ some '-') (opts : List Char) (j : Nat)
    (es : List (List Char)) : reports opts j 0 (a :: es) = ([], j) := if_neg ha

theorem scan_stop {a : List Char} (ha : a.head? ≠ some '-') (es : List (List Char)) :
    scan argv noarg opts s j (a :: es) =
      some ⟨none, none, { s with
        optind := j
        optptr := some (j, a)
        binitialized := false }⟩ := by
  unfold scan
  split
  · exact absurd rfl ha
  · exact absurd rfl ha
  · rfl

theorem getopt_inside (hl : 1 < argv.length) (hb : s.binitialized = true) (hi : 1 ≤ s.optind)
    (hp : s.optptr = some (e, c :: cs)) :
    getopt argv optstring s =
      handle argv (optchars optstring).1 (optchars optstring).2 e c cs s := by
  have hinit : initialize_ s = s := by
    unfold initialize_
    rw [if_neg]
    simp [hb]
    omega
  unfold getopt
  rw [if_neg (by omega), hinit]
  dsimp only
  rw [hp]

theorem getopt_start (hl : 1 < argv.length) (hb : s.binitialized = true) (hj : 1 ≤ j)
    (hp : (s.optptr = none ∧ s.optind = j) ∨ ∃ e, s.optptr = some (e, []) ∧ s.optind + 1 = j)
    (hi : 1 ≤ s.optind) (hle : j ≤ argv.length) :
    getopt argv optstring s =
      scan argv (optchars optstring).1 (optchars optstring).2 s j (argv.drop j) := by
  have hinit : initialize_ s = s := by
    unfold initialize_
    rw [if_neg]
    simp [hb]
    omega
  unfold getopt
  rw [if_neg (by omega), hinit]
  dsimp only
  rcases hp with ⟨hp, ho⟩ | ⟨e, hp, ho⟩
  · rw [hp]
    dsimp only
    rw [ho, argvFrom_le hle]
    rfl
  · rw [hp]
    dsimp only
    rw [ho, argvFrom_le hle]
    rfl

end

section

variable {argv : List (List Char)} {optstring opts cs : List Char} {c : Char} {s : State}
  {es : List (List Char)} {final i j : Nat} {r : Result}

theorem charReports_place (opts : List Char) (i : Nat) (next : Option (List Char))
    (cs : List Char) : ∀ p ∈ (charReports opts i next cs).1, p.place.1 = i := by
  induction cs with
  | nil => exact fun p hp => nomatch hp
  | cons c cs ih =>
    intro p hp
    unfold charReports at hp
    cases hk : kind opts c with
    | unknown | plain =>
      rw [hk] at hp
      rcases List.mem_cons.mp hp with rfl | hp
      · rfl
      · exact ih p hp
    | takesArg =>
      rw [hk] at hp
      dsimp only at hp
      split at hp
      · rw [List.mem_singleton.mp hp]
        rfl
      · split at hp
        · rw [List.mem_singleton.mp hp]
          rfl
        · split at hp <;> rw [List.mem_singleton.mp hp] <;> rfl

theorem reports_place (opts : List Char) (es : List (List Char)) (j skip : Nat) :
    ∀ p ∈ (reports opts j skip es).1, j ≤ p.place.1 := by
  induction es generalizing j skip with
  | nil =>
    intro p hp
    cases skip <;> cases hp
  | cons e es ih =>
    intro p hp
    cases skip with
    | succ skip =>
      have := ih (j + 1) skip p hp
      omega
    | zero =>
      unfold reports at hp
      split at hp
      · rcases List.mem_append.mp hp with hp | hp
        · exact Nat.le_of_eq (charReports_place opts j _ _ p hp).symm
        · have := ih (j + 1) _ p hp
          omega
      · cases hp

theorem Shows.at {noarg : Char} {p : Report} (h : Shows noarg r p) :
    r.place = some p.place ∧ r.ret ≠ none := by
  cases p with
  | plain place c =>
    obtain ⟨h1, h2⟩ := h
    exact ⟨h2, by rw [h1]; nofun⟩
  | unknown place c | argument place c arg | missing place c =>
    obtain ⟨h1, h2, -⟩ := h
    exact ⟨h2, by rw [h1]; nofun⟩

theorem handle_at {noarg : Char} {e : Nat} (h : kind opts c = .takesArg)
    (hr : handle argv noarg opts e c cs s = some r) :
    r.place = some (e, c :: cs) ∧ r.ret ≠ none := by
  rw [handle_takesArg h] at hr
  split at hr
  · cases hr
    exact ⟨rfl, nofun⟩
  · obtain ⟨next, -, rfl⟩ := Option.map_eq_some_iff.mp hr
    cases next.head? with
    | none => exact ⟨rfl, nofun⟩
    | some a =>
      dsimp only
      split <;> exact ⟨rfl, nofun⟩

/-- After an option whose argument is missing, the next call looks at the same option again. -/
theorem not_follows_again (hl : 1 < argv.length) (hb : s.binitialized = true)
    (hi : 1 ≤ s.optind) (hk : kind (optchars optstring).2 c = .takesArg)
    (hp : s.optptr = some (i, [c])) {ps : List Report} (hps : ∀ p ∈ ps, i + 1 ≤ p.place.1) :
    ¬ Follows argv optstring final ps (getopt argv optstring s) := by
  rw [getopt_inside hl hb hi hp]
  cases ps with
  | nil =>
    rintro ⟨r, hr, hret, -⟩
    exact (handle_at hk hr).2 hret
  | cons p ps =>
    rintro ⟨r, hr, hs, -⟩
    have hplace := (handle_at hk hr).1.symm.trans hs.at.1
    have hi' := hps p List.mem_cons_self
    cases Option.some.inj hplace.symm ▸ hi'
    have := congrArg Prod.fst (Option.some.inj hplace)
    dsimp only at this
    omega

def Scanned (argv : List (List Char)) (optstring : List Char) (j : Nat)
    (es : List (List Char)) : Prop :=
  ∀ s : State, s.binitialized = true →
    (Follows argv optstring (reports (optchars optstring).2 j 0 es).2
        (reports (optchars optstring).2 j 0 es).1
        (scan argv (optchars optstring).1 (optchars optstring).2 s j es) ↔
      ∀ p ∈ (reports (optchars optstring).2 j 0 es).1, ¬ p.Missing)

/-- A state from which the next call starts with the element `j`. -/
def Starts (s : State) (j : Nat) : Prop :=
  s.binitialized = true ∧ 1 ≤ s.optind ∧
    ((s.optptr = none ∧ s.optind = j) ∨ ∃ e, s.optptr = some (e, []) ∧ s.optind + 1 = j)

theorem starts_at (hb : s.binitialized = true) (hj : 1 ≤ j) (ho : s.optind = j)
    (hp : s.optptr = none) : Starts s j :=
  ⟨hb, by omega, .inl ⟨hp, ho⟩⟩

theorem starts_behind {e : Nat} (hb : s.binitialized = true) (hi : 1 ≤ i) (ho : s.optind = i)
    (hp : s.optptr = some (e, [])) : Starts s (i + 1) :=
  ⟨hb, by omega, .inr ⟨e, hp, by omega⟩⟩

theorem Scanned.call (h : Scanned argv optstring j (argv.drop j)) (hl : 1 < argv.length)
    (hj : 1 ≤ j) (hle : j ≤ argv.length) (hs : Starts s j) :
    Follows argv optstring (reports (optchars optstring).2 j 0 (argv.drop j)).2
        (reports (optchars optstring).2 j 0 (argv.drop j)).1 (getopt argv optstring s) ↔
      ∀ p ∈ (reports (optchars optstring).2 j 0 (argv.drop j)).1, ¬ p.Missing := by
  obtain ⟨hb, hi, hp⟩ := hs
  rw [getopt_start hl hb hj hp hi hle]
  exact h s hb

theorem follows_cons {p : Report} {ps : List Report} (hs : Shows (optchars optstring).1 r p)
    (hm : ¬ p.Missing)
    (h : Follows argv optstring final ps (getopt argv optstring r.state) ↔
      ∀ q ∈ ps, ¬ q.Missing) :
    Follows argv optstring final (p :: ps) (some r) ↔ ∀ q ∈ p :: ps, ¬ q.Missing := by
  constructor
  · rintro ⟨r', hr, -, hf⟩ q hq
    cases hr
    rcases List.mem_cons.mp hq with rfl | hq
    · exact hm
    · exact h.mp hf q hq
  · intro hall
    exact ⟨r, rfl, hs, h.mpr fun q hq => hall q (List.mem_cons_of_mem _ hq)⟩

theorem element_follows (hl : 1 < argv.length) (hi : 1 ≤ i) (hle : i + 1 ≤ argv.length)
    (hlater : ∀ j, i + 1 ≤ j → j ≤ argv.length → Scanned argv optstring j (argv.drop j))
    (cs : List Char) (c : Char) (s : State) (hb : s.binitialized = true) (ho : s.optind = i)
    (hp : s.optptr = some (i, c :: cs)) :
    let r := charReports (optchars optstring).2 i (argv.drop (i + 1)).head? (c :: cs)
    let rest := reports (optchars optstring).2 (i + 1) r.2 (argv.drop (i + 1))
    Follows argv optstring rest.2 (r.1 ++ rest.1)
        (handle argv (optchars optstring).1 (optchars optstring).2 i c cs s) ↔
      ∀ p ∈ r.1 ++ rest.1, ¬ p.Missing := by
  induction cs generalizing c s with
  | nil =>
    dsimp only
    rw [charReports_cons]
    have hnext := hlater (i + 1) (le_refl _) hle
    cases hk : kind (optchars optstring).2 c with
    | unknown =>
      rw [handle_unknown hk]
      refine follows_cons ⟨rfl, rfl, rfl⟩ (fun h => h) ?_
      exact hnext.call hl (by omega) hle (starts_behind hb hi ho rfl)
    | plain =>
      rw [handle_plain hk]
      refine follows_cons ⟨rfl, rfl⟩ (fun h => h) ?_
      exact hnext.call hl (by omega) hle (starts_behind hb hi ho rfl)
    | takesArg =>
      have hargv : argvFrom argv (s.optind + 1) = some (argv.drop (i + 1)) := by
        rw [ho]
        exact argvFrom_le hle
      have hi1 : 1 ≤ s.optind + 1 := by omega
      -- without its argument the option is reported again
      have hagain : ∀ s' : State, s'.binitialized = true → 1 ≤ s'.optind →
          s'.optptr = some (i, [c]) → ∀ final,
          ¬ Follows argv optstring final
            (reports (optchars optstring).2 (i + 1) 0 (argv.drop (i + 1))).1
            (getopt argv optstring s') := fun s' hb' hi' hp' final =>
        not_follows_again hl hb' hi' hk hp' (reports_place _ _ _ _)
      rw [handle_takesArg hk, hargv, if_neg (not_not.mpr rfl)]
      dsimp only [Option.map_some]
      rw [if_neg (not_not.mpr rfl)]
      cases hh : (argv.drop (i + 1)).head? with
      | none =>
        constructor
        · rintro ⟨r, hr, -, hf⟩
          cases hr
          refine absurd hf (hagain _ ?_ ?_ ?_ _)
          · exact hb
          · exact hi1
          · exact hp
        · intro hall
          exact absurd trivial (hall _ List.mem_cons_self)
      | some a =>
        dsimp only
        by_cases ha : a.head? = some '-'
        · rw [if_pos ha, if_pos ha]
          constructor
          · rintro ⟨r, hr, -, hf⟩
            cases hr
            refine absurd hf (hagain _ ?_ ?_ ?_ _)
            · exact hb
            · exact hi1
            · exact hp
          · intro hall
            exact absurd trivial (hall _ List.mem_cons_self)
        · rw [if_neg ha, if_neg ha]
          refine follows_cons ⟨rfl, rfl, rfl⟩ (fun h => h) ?_
          obtain ⟨es, hes⟩ : ∃ es, argv.drop (i + 1) = a :: es := by
            cases hd : argv.drop (i + 1) with
            | nil => rw [hd] at hh; cases hh
            | cons b es =>
              rw [hd] at hh
              exact ⟨es, by rw [Option.some.inj hh]⟩
          have hle2 : i + 2 ≤ argv.length := by
            have hlen := congrArg List.length hes
            rw [List.length_drop, List.length_cons] at hlen
            omega
          have hes2 : es = argv.drop (i + 2) := by
            have htail := congrArg List.tail hes
            rw [List.tail_drop] at htail
            exact htail.symm
          rw [hes, hes2]
          have hnext2 := hlater (i + 2) (by omega) hle2
          have ho2 : s.optind + 2 = ((i + 2 : Nat) : Int) := by omega
          exact hnext2.call hl (by omega) hle2 (starts_at hb (by omega) ho2 rfl)
  | cons d cs ih =>
    have hin : ∀ s' : State, s'.binitialized = true → s'.optind = i →
        s'.optptr = some (i, d :: cs) →
        let r := charReports (optchars optstring).2 i (argv.drop (i + 1)).head? (d :: cs)
        let rest := reports (optchars optstring).2 (i + 1) r.2 (argv.drop (i + 1))
        Follows argv optstring rest.2 (r.1 ++ rest.1) (getopt argv optstring s') ↔
          ∀ p ∈ r.1 ++ rest.1, ¬ p.Missing := by
      intro s' hb' ho' hp'
      rw [getopt_inside hl hb' (by omega) hp']
      exact ih d s' hb' ho' hp'
    dsimp only
    rw [charReports_cons]
    cases hk : kind (optchars optstring).2 c with
    | unknown =>
      rw [handle_unknown hk]
      refine follows_cons ⟨rfl, rfl, rfl⟩ (fun h => h) ?_
      exact hin _ hb ho rfl
    | plain =>
      rw [handle_plain hk]
      refine follows_cons ⟨rfl, rfl⟩ (fun h => h) ?_
      exact hin _ hb ho rfl
    | takesArg =>
      rw [handle_takesArg hk, if_pos (List.cons_ne_nil _ _)]
      dsimp only
      rw [if_pos (List.cons_ne_nil _ _)]
      refine follows_cons ⟨rfl, rfl, rfl⟩ (fun h => h) ?_
      have hnext := hlater (i + 1) (le_refl _) hle
      have ho1 : s.optind + 1 = ((i + 1 : Nat) : Int) := by omega
      exact hnext.call hl (by omega) hle (starts_at hb (by omega) ho1 rfl)

/-- The loop: an element without characters is passed, another option element is taken from its
first character on. -/
theorem all_scanned (hl : 1 < argv.length) (j : Nat) (hj : 1 ≤ j) (hle : j ≤ argv.length) :
    Scanned argv optstring j (argv.drop j) := by
  induction hn : argv.length - j using Nat.strong_induction_on generalizing j with
  | _ n ih =>
    have hlater : ∀ k, j + 1 ≤ k → k ≤ argv.length →
        Scanned argv optstring k (argv.drop k) := fun k hjk hk =>
      ih (argv.length - k) (by omega) k (by omega) hk rfl
    intro s hb
    cases hd : argv.drop j with
    | nil =>
      constructor
      · intro _ p hp
        cases hp
      · exact fun _ => ⟨_, rfl, rfl, rfl⟩
    | cons e es =>
      have hlen := congrArg List.length hd
      rw [List.length_drop, List.length_cons] at hlen
      have hes : es = argv.drop (j + 1) := by
        have htail := congrArg List.tail hd
        rw [List.tail_drop] at htail
        exact htail.symm
      by_cases he : e.head? = some '-'
      · obtain ⟨cs, rfl⟩ : ∃ cs, e = '-' :: cs := by
          cases e with
          | nil => cases he
          | cons c cs => exact ⟨cs, by rw [Option.some.inj he]⟩
        rw [reports_option, hes]
        cases cs with
        | nil => exact hlater (j + 1) (le_refl _) (by omega) s hb
        | cons c cs => exact element_follows hl hj (by omega) hlater cs c _ hb rfl rfl
      · rw [reports_stop he, scan_stop he]
        constructor
        · intro _ p hp
          cases hp
        · exact fun _ => ⟨_, rfl, rfl, rfl⟩

end

/-- `getopt_` reports the options rightly when none of them lacks its argument. With the program
name alone, or nothing at all, `optind` stays as it is. -/
theorem getopt_right_iff (argv : List (List Char)) (optstring : List Char) (s : State)
    (hs : s.optind < 1) :
    Right argv optstring s ↔ (argv = [] ∧ s.optind = 0) ∨ Supplied optstring argv := by
  by_cases hl : argv.length ≤ 1
  · have hcall : getopt argv optstring s = some ⟨none, none, { s with binitialized := false }⟩ :=
      if_pos hl
    have hsup : ¬ Supplied optstring argv := fun h => absurd h.1 (by omega)
    unfold Right
    rw [hcall]
    match argv with
    | [] =>
      constructor
      · rintro ⟨r, hr, -, hf⟩
        cases hr
        exact .inl ⟨rfl, hf⟩
      · rintro (⟨-, h0⟩ | h)
        · exact ⟨_, rfl, rfl, h0⟩
        · exact absurd h hsup
    | [e] =>
      constructor
      · rintro ⟨r, hr, -, hf⟩
        cases hr
        have hf : s.optind = 1 := hf
        omega
      · rintro (⟨h, -⟩ | h)
        · cases h
        · exact absurd h hsup
    | e :: d :: es =>
      simp at hl
  · have hinit : initialize_ s = { s with
        optind := 1
        optptr := none
        binitialized := true } := if_pos (.inl hs)
    have hcall : getopt argv optstring s =
        scan argv (optchars optstring).1 (optchars optstring).2 (initialize_ s) 1
          (argv.drop 1) := by
      unfold getopt
      rw [if_neg hl, hinit]
      dsimp only
      have h1 : argvFrom argv ((1 : Nat) : Int) = some (argv.drop 1) := argvFrom_le (by omega)
      rw [Nat.cast_one] at h1
      rw [h1]
      rfl
    obtain ⟨e, es, rfl⟩ : ∃ e es, argv = e :: es := by
      cases argv with
      | nil => simp at hl
      | cons e es => exact ⟨e, es, rfl⟩
    have hscan : Scanned (e :: es) optstring 1 ((e :: es).drop 1) :=
      all_scanned (by omega) 1 (le_refl _) (by omega)
    unfold Right
    rw [hcall]
    refine (hscan (initialize_ s) (by rw [hinit])).trans ?_
    constructor
    · exact fun h => .inr ⟨by omega, h⟩
    · rintro (⟨h, -⟩ | h)
      · cases h
      · exact h.2

/-- `prog -ab x -c val file` with the options `ab:c:`. -/
theorem getopt_right_line :
    Right ["prog".toList, "-ab".toList, "x".toList, "-cval".toList, "file".toList]
        "ab:c:".toList ⟨0, none, false, none, '?'⟩ ↔
      (["prog".toList, "-ab".toList, "x".toList, "-cval".toList, "file".toList] = [] ∧
          (⟨0, none, false, none, '?'⟩ : State).optind = 0) ∨
        Supplied "ab:c:".toList
          ["prog".toList, "-ab".toList, "x".toList, "-cval".toList, "file".toList] :=
  getopt_right_iff _ _ _ (by decide)

/-- `prog -a` with the option `a:`: the second call reads `argv` behind its terminator. -/
theorem getopt_overruns :
    (∃ r, getopt ["prog".toList, "-a".toList] "a:".toList ⟨0, none, false, none, '?'⟩ = some r ∧
        r.ret = some '?' ∧
        getopt ["prog".toList, "-a".toList] "a:".toList r.state = none) ∧
      ¬ Right ["prog".toList, "-a".toList] "a:".toList ⟨0, none, false, none, '?'⟩ := by
  have h1 : getopt ["prog".toList, "-a".toList] "a:".toList ⟨0, none, false, none, '?'⟩ =
      some ⟨some '?', some (1, ['a']), ⟨2, some (1, ['a']), true, none, 'a'⟩⟩ := by rfl
  have h2 : getopt ["prog".toList, "-a".toList] "a:".toList
      ⟨2, some (1, ['a']), true, none, 'a'⟩ = none := by rfl
  refine ⟨⟨_, h1, rfl, h2⟩, ?_⟩
  unfold Right
  rw [h1]
  rintro ⟨r, hr, -, r', hr', -⟩
  cases hr
  rw [h2] at hr'
  cases hr'

end NuttxAvr32.Getopt
