import NuttxAvr32.Libc.Strtol

/-! # Test expressions

`test` and `[` evaluate their arguments while they take them apart, from the left to the right.
-/

namespace NuttxAvr32.Nsh.Test

open Vsprintf (ch)
open Strtol (Text strtol)

def text (s : String) : Text := s.toList.map ch

inductive Value
  | testTrue
  | testFalse
  | testError
deriving DecidableEq

def Value.ofBool (b : Bool) : Value := if b then .testTrue else .testFalse

structure Stat where
  isblk : Bool
  ischr : Bool
  isdir : Bool
  isreg : Bool
  readable : Bool
  writable : Bool
  size : Int

def stringTest (op : Text) : Option (Text → Text → Bool) :=
  if op = text "=" ∨ op = text "==" then some fun a b => a = b
  else if op = text "!=" then some fun a b => a ≠ b
  else none

def numericTest (op : Text) : Option (Int → Int → Bool) :=
  if op = text "-eq" then some fun a b => a = b
  else if op = text "-ge" then some fun a b => a ≥ b
  else if op = text "-gt" then some fun a b => a > b
  else if op = text "-le" then some fun a b => a ≤ b
  else if op = text "-lt" then some fun a b => a < b
  else if op = text "-ne" then some fun a b => a ≠ b
  else none

def fileTest (op : Text) : Option (Stat → Bool) :=
  if op = text "-b" then some Stat.isblk
  else if op = text "-c" then some Stat.ischr
  else if op = text "-d" then some Stat.isdir
  else if op = text "-e" then some fun _ => true
  else if op = text "-f" then some Stat.isreg
  else if op = text "-r" then some Stat.readable
  else if op = text "-s" then some fun buf => buf.size > 0
  else if op = text "-w" then some Stat.writable
  else none

def binaryexpression (a op b : Text) : Value :=
  match stringTest op with
  | some q => .ofBool (q a b)
  | none =>
    if a = [] ∨ (strtol a 0).2 ≠ [] then .testError
    else if b = [] ∨ (strtol b 0).2 ≠ [] then .testError
    else
      match numericTest op with
      | some q => .ofBool (q (strtol a 0).1 (strtol b 0).1)
      | none => .testError

/-- The answer of `stat` is `none` if there is no full path or no such file. -/
def unaryexpression (stat : Option Stat) (op x : Text) : Value :=
  if op = text "-n" then .ofBool (x.length ≠ 0)
  else if op = text "-z" then .ofBool (x.length = 0)
  else
    match stat with
    | none => .testFalse
    | some buf =>
      match fileTest op with
      | some p => .ofBool (p buf)
      | none => .testError

section

variable (stat : List Text → Option Stat)

/-- The simple expression in front of the arguments and what is behind it, with the answer of `stat`
at this place; `none` if there are too few arguments. -/
def simple : List Text → Option (Value × List Text)
  | w :: x :: rest =>
    if w.head? = some (ch '-') then some (unaryexpression (stat (w :: x :: rest)) w x, rest)
    else
      match rest with
      | [] => none
      | b :: rest => some (binaryexpression w x b, rest)
  | _ => none

theorem simple_length {ws rest : List Text} {value : Value}
    (h : simple stat ws = some (value, rest)) : rest.length + 2 ≤ ws.length := by
  unfold simple at h
  split at h
  · split at h
    · obtain ⟨-, rfl⟩ := Prod.mk.inj (Option.some.inj h)
      exact le_rfl
    · split at h
      · exact absurd h.symm (Option.some_ne_none _)
      · obtain ⟨-, rfl⟩ := Prod.mk.inj (Option.some.inj h)
        exact Nat.le_succ _
  · exact absurd h.symm (Option.some_ne_none _)

/-- Whether the result is `TEST_TRUE` and whether a syntax error is reported; `none` if a word is
read behind the arguments where there is none. -/
def expression (behind : Option Text) : List Text → Option (Bool × Bool)
  -- one word is not enough for an expression, whatever it is
  | [] => behind.map fun _ => (false, true)
  | w :: ws =>
    if w = text "!" then
      if ws = [] then some (false, true)
      else (expression behind ws).map fun r => (!r.1, r.2)
    else
      match _ : simple stat (w :: ws) with
      | none => some (false, true)
      | some (value, []) => some (value = .testTrue, value = .testError)
      | some (value, c :: rest) =>
        if value = .testError then some (false, true)
        else if c = text "-a" then
          if value ≠ .testTrue then some (false, false) else expression behind rest
        else if c = text "-o" then
          if value = .testTrue then some (true, false) else expression behind rest
        else some (false, true)
termination_by ws => ws.length
decreasing_by
  · exact Nat.lt_succ_self _
  · next h _ _ _ =>
    have hle := simple_length stat h
    simp only [List.length_cons] at hle ⊢
    omega
  · next h _ _ _ _ =>
    have hle := simple_length stat h
    simp only [List.length_cons] at hle ⊢
    omega

def cmdTest (argv : List Text) : Option (Bool × Bool) := expression stat none argv.tail

def cmdLbracket (argv : List Text) : Option (Bool × Bool) :=
  if argv.getLast? ≠ some (text "]") then some (false, true)
  else expression stat (some (text "]")) argv.tail.dropLast

end

/-- A number, in any of the bases that a prefix may tell. -/
def Integer (s : Text) : Prop := ∃ v, Strtol.Number 0 s v

def integer (s : Text) : Int := (strtol s 0).1

/-- A simple expression with its value, and what is behind it. -/
inductive Front (stat : List Text → Option Stat) : List Text → Bool → List Text → Prop
  | nonempty {x : Text} {rest : List Text} : Front stat (text "-n" :: x :: rest) (x.length ≠ 0) rest
  | empty {x : Text} {rest : List Text} : Front stat (text "-z" :: x :: rest) (x.length = 0) rest
  | file {op x : Text} {p : Stat → Bool} {rest : List Text} : fileTest op = some p →
      Front stat (op :: x :: rest) ((stat (op :: x :: rest)).elim false p) rest
  | string {a op b : Text} {q : Text → Text → Bool} {rest : List Text} :
      stringTest op = some q → Front stat (a :: op :: b :: rest) (q a b) rest
  | numeric {a op b : Text} {q : Int → Int → Bool} {rest : List Text} :
      numericTest op = some q → Integer a → Integer b →
      Front stat (a :: op :: b :: rest) (q (integer a) (integer b)) rest

def connective (c : Text) : Option (Bool → Bool → Bool) :=
  if c = text "-a" then some and else if c = text "-o" then some or else none

/-- An expression with its value: `!`, `-a` and `-o` take everything to their right. -/
inductive Denotes (stat : List Text → Option Stat) : List Text → Bool → Prop
  | simple {ws : List Text} {v : Bool} : Front stat ws v [] → Denotes stat ws v
  | not {ws : List Text} {v : Bool} : Denotes stat ws v → Denotes stat (text "!" :: ws) (!v)
  | join {c : Text} {f : Bool → Bool → Bool} {ws rest : List Text} {v v' : Bool} :
      connective c = some f → Front stat ws v (c :: rest) → Denotes stat rest v' →
      Denotes stat ws (f v v')

inductive Command
  | test
  | lbracket

def Command.run (stat : List Text → Option Stat) (ws : List Text) : Command → Option (Bool × Bool)
  | .test => cmdTest stat (text "test" :: ws)
  | .lbracket => cmdLbracket stat (text "[" :: (ws ++ [text "]"]))

/-- Only arguments are read, true expressions are true and no other lists, and what is no expression
is reported. -/
def Right (command : Command) (stat : List Text → Option Stat) (ws : List Text) : Prop :=
  ∃ isTrue reported, command.run stat ws = some (isTrue, reported) ∧
    (isTrue = true ↔ Denotes stat ws true) ∧ ((¬∃ v, Denotes stat ws v) → reported = true)

/-- A simple expression as the commands read it: only an operator begins with a hyphen or is `!`,
and `strtol` takes all of an integer. -/
inductive ReadFront (stat : List Text → Option Stat) : List Text → Bool → List Text → Prop
  | nonempty {x : Text} {rest : List Text} :
      ReadFront stat (text "-n" :: x :: rest) (x.length ≠ 0) rest
  | empty {x : Text} {rest : List Text} :
      ReadFront stat (text "-z" :: x :: rest) (x.length = 0) rest
  | file {op x : Text} {p : Stat → Bool} {rest : List Text} : fileTest op = some p →
      ReadFront stat (op :: x :: rest) ((stat (op :: x :: rest)).elim false p) rest
  | string {a op b : Text} {q : Text → Text → Bool} {rest : List Text} :
      a ≠ text "!" → a.head? ≠ some (ch '-') → stringTest op = some q →
      ReadFront stat (a :: op :: b :: rest) (q a b) rest
  | numeric {a op b : Text} {q : Int → Int → Bool} {rest : List Text} :
      a ≠ text "!" → a.head? ≠ some (ch '-') → numericTest op = some q → Integer a → Integer b →
      a ≠ [] → b ≠ [] → (strtol a 0).2 = [] → (strtol b 0).2 = [] →
      ReadFront stat (a :: op :: b :: rest) (q (integer a) (integer b)) rest

inductive Reads (stat : List Text → Option Stat) : List Text → Bool → Prop
  | simple {ws : List Text} {v : Bool} : ReadFront stat ws v [] → Reads stat ws v
  | not {ws : List Text} {v : Bool} : Reads stat ws v → Reads stat (text "!" :: ws) (!v)
  | join {c : Text} {f : Bool → Bool → Bool} {ws rest : List Text} {v v' : Bool} :
      connective c = some f → ReadFront stat ws v (c :: rest) → Reads stat rest v' →
      Reads stat ws (f v v')

/-- The part of the list that decides is ill-formed; it stands behind an odd number of `!` or not.
An empty part is one where a word follows the arguments. -/
inductive Faulty (stat : List Text → Option Stat) (word : Bool) : List Text → Bool → Prop
  | nothing : word = true → Faulty stat word [] false
  | lone : Faulty stat word [text "!"] false
  | not {ws : List Text} {odd : Bool} : ws ≠ [] → Faulty stat word ws odd →
      Faulty stat word (text "!" :: ws) (!odd)
  | short {w : Text} {ws : List Text} : w ≠ text "!" → simple stat (w :: ws) = none →
      Faulty stat word (w :: ws) false
  | operand {w : Text} {ws rest : List Text} : w ≠ text "!" →
      simple stat (w :: ws) = some (.testError, rest) → Faulty stat word (w :: ws) false
  | trailing {w c : Text} {ws rest : List Text} {value : Value} : w ≠ text "!" →
      simple stat (w :: ws) = some (value, c :: rest) → c ≠ text "-a" → c ≠ text "-o" →
      Faulty stat word (w :: ws) false
  | and {w : Text} {ws rest : List Text} {odd : Bool} : w ≠ text "!" →
      simple stat (w :: ws) = some (.testTrue, text "-a" :: rest) → Faulty stat word rest odd →
      Faulty stat word (w :: ws) odd
  | or {w : Text} {ws rest : List Text} {odd : Bool} : w ≠ text "!" →
      simple stat (w :: ws) = some (.testFalse, text "-o" :: rest) → Faulty stat word rest odd →
      Faulty stat word (w :: ws) odd

/-- The part of the list that decides is well-formed and gives this value, whatever is behind it. -/
inductive Settled (stat : List Text → Option Stat) : List Text → Bool → Prop
  | simple {w : Text} {ws : List Text} {v : Bool} : w ≠ text "!" →
      simple stat (w :: ws) = some (.ofBool v, []) → Settled stat (w :: ws) v
  | not {ws : List Text} {v : Bool} : ws ≠ [] → Settled stat ws v → Settled stat (text "!" :: ws) (!v)
  | andFalse {w : Text} {ws rest : List Text} : w ≠ text "!" →
      simple stat (w :: ws) = some (.testFalse, text "-a" :: rest) → Settled stat (w :: ws) false
  | orTrue {w : Text} {ws rest : List Text} : w ≠ text "!" →
      simple stat (w :: ws) = some (.testTrue, text "-o" :: rest) → Settled stat (w :: ws) true
  | and {w : Text} {ws rest : List Text} {v : Bool} : w ≠ text "!" →
      simple stat (w :: ws) = some (.testTrue, text "-a" :: rest) → Settled stat rest v →
      Settled stat (w :: ws) v
  | or {w : Text} {ws rest : List Text} {v : Bool} : w ≠ text "!" →
      simple stat (w :: ws) = some (.testFalse, text "-o" :: rest) → Settled stat rest v →
      Settled stat (w :: ws) v

def Command.word : Command → Bool
  | .test => false
  | .lbracket => true

/-- The list is an expression as the command reads it; or it is ill-formed where that is noticed,
and this gives what the grammar gives; or it is an expression read in another way, with the same
value. -/
def Meets (command : Command) (stat : List Text → Option Stat) (ws : List Text) : Prop :=
  (∃ v, Reads stat ws v) ∨
    (∃ odd, Faulty stat command.word ws odd ∧ (odd = true ↔ Denotes stat ws true)) ∨
    ∃ v, Settled stat ws v ∧ (∃ v', Denotes stat ws v') ∧ (v = true ↔ Denotes stat ws true)

section

variable {op c : Text}

/-- An operator that no simple expression begins with when a command reads it. -/
structure Operator (op : Text) : Prop where
  hyphen : op.head? = some (ch '-')
  file : fileTest op = none
  nonempty : op ≠ text "-n"
  empty : op ≠ text "-z"

theorem fileTest_word {p : Stat → Bool} (h : fileTest op = some p) :
    op.head? = some (ch '-') ∧ op ≠ text "!" ∧ op ≠ text "-n" ∧ op ≠ text "-z" := by
  unfold fileTest at h
  repeat' split at h
  all_goals first
    | (subst op; decide)
    | exact absurd h.symm (Option.some_ne_none _)

theorem numericTest_operator {q : Int → Int → Bool} (h : numericTest op = some q) : Operator op := by
  unfold numericTest at h
  repeat' split at h
  all_goals first
    | (subst op; exact ⟨rfl, rfl, by decide, by decide⟩)
    | exact absurd h.symm (Option.some_ne_none _)

theorem connective_operator {f : Bool → Bool → Bool} (h : connective c = some f) : Operator c := by
  unfold connective at h
  repeat' split at h
  all_goals first
    | (subst c; exact ⟨rfl, rfl, by decide, by decide⟩)
    | exact absurd h.symm (Option.some_ne_none _)

theorem stringTest_word {q : Text → Text → Bool} (h : stringTest op = some q) :
    op.head? ≠ some (ch '-') ∧ op ≠ text "!" ∧ numericTest op = none := by
  unfold stringTest at h
  split at h
  · next hop => rcases hop with rfl | rfl <;> exact ⟨by decide, by decide, rfl⟩
  · split at h
    · subst op
      exact ⟨by decide, by decide, rfl⟩
    · exact absurd h.symm (Option.some_ne_none _)

end

section

variable {stat : List Text → Option Stat} {ws rest : List Text} {op : Text} {v v' : Bool}

theorem Operator.ne_bang (h : Operator op) : op ≠ text "!" := fun he =>
  absurd (he ▸ h.hyphen) (by decide)

theorem Operator.not_readFront (h : Operator op) : ¬ReadFront stat (op :: ws) v rest := by
  intro hr
  cases hr with
  | nonempty => exact h.nonempty rfl
  | empty => exact h.empty rfl
  | file hp => exact absurd (hp.symm.trans h.file) (Option.some_ne_none _)
  | string _ hh _ => exact hh h.hyphen
  | numeric _ hh _ _ _ _ _ _ _ => exact hh h.hyphen

theorem Operator.not_reads (h : Operator op) : ¬Reads stat (op :: ws) v := by
  intro hr
  generalize hl : op :: ws = l at hr
  cases hr with
  | simple hf => exact h.not_readFront (hl ▸ hf)
  | not _ => exact h.ne_bang (List.cons.inj hl).1
  | join _ hf _ => exact h.not_readFront (hl ▸ hf)

theorem not_reads_nil : ¬Reads stat [] v := by
  intro hr
  generalize hl : ([] : List Text) = l at hr
  cases hr with
  | simple hf => cases hf <;> exact absurd hl.symm (List.cons_ne_nil _ _)
  | not _ => exact absurd hl.symm (List.cons_ne_nil _ _)
  | join _ hf _ => cases hf <;> exact absurd hl.symm (List.cons_ne_nil _ _)

theorem not_denotes_nil : ¬Denotes stat [] v := by
  intro hr
  generalize hl : ([] : List Text) = l at hr
  cases hr with
  | simple hf => cases hf <;> exact absurd hl.symm (List.cons_ne_nil _ _)
  | not _ => exact absurd hl.symm (List.cons_ne_nil _ _)
  | join _ hf _ => cases hf <;> exact absurd hl.symm (List.cons_ne_nil _ _)

theorem reads_string {q : Text → Text → Bool} (hq : stringTest op = some q) {b : Text}
    (h : Reads stat (op :: b :: rest) v) :
    ∃ x r, rest = x :: r ∧ (r = [] ∨ ∃ c f r' v', r = c :: r' ∧ connective c = some f ∧
      Reads stat r' v') := by
  obtain ⟨hhyphen, hbang, -⟩ := stringTest_word hq
  have hfront : ∀ {v : Bool} {r : List Text}, ReadFront stat (op :: b :: rest) v r →
      ∃ x, rest = x :: r := by
    intro v r hf
    cases hf with
    | nonempty => exact absurd rfl hhyphen
    | empty => exact absurd rfl hhyphen
    | file hp => exact absurd (fileTest_word hp).1 hhyphen
    | string _ _ _ => exact ⟨_, rfl⟩
    | numeric _ _ _ _ _ _ _ _ _ => exact ⟨_, rfl⟩
  generalize hl : op :: b :: rest = l at h
  cases h with
  | simple hf =>
    obtain ⟨x, hx⟩ := hfront (hl ▸ hf)
    exact ⟨x, [], hx, .inl rfl⟩
  | not _ => exact absurd (List.cons.inj hl).1 hbang
  | join hc hf hr =>
    obtain ⟨x, hx⟩ := hfront (hl ▸ hf)
    exact ⟨x, _, hx, .inr ⟨_, _, _, _, rfl, hc, hr⟩⟩

theorem Operator.front (h : Operator op) (hf : Front stat (op :: ws) v rest) :
    ∃ o b, ws = o :: b :: rest ∧ ((∃ q, stringTest o = some q) ∨ Operator o) := by
  generalize hl : op :: ws = l at hf
  cases hf with
  | nonempty => exact absurd (List.cons.inj hl).1 h.nonempty
  | empty => exact absurd (List.cons.inj hl).1 h.empty
  | file hp =>
    rw [← (List.cons.inj hl).1, h.file] at hp
    exact absurd hp.symm (Option.some_ne_none _)
  | string hq => exact ⟨_, _, (List.cons.inj hl).2, .inl ⟨_, hq⟩⟩
  | numeric hq _ _ => exact ⟨_, _, (List.cons.inj hl).2, .inr (numericTest_operator hq)⟩

/-- Two readings do not fit that are one word apart, where each takes what is a connective for the
other one for an operand. -/
theorem no_shift {n : Nat} {c : Text} {f : Bool → Bool → Bool} (hn : ws.length ≤ n)
    (hc : connective c = some f) (hd : Denotes stat (c :: ws) v) : ¬Reads stat ws v' := by
  induction n generalizing c f ws v v' with
  | zero =>
    rw [List.length_eq_zero_iff.mp (Nat.le_zero.mp hn)]
    exact not_reads_nil
  | succ n ih =>
    intro hr
    have hop := connective_operator hc
    generalize hl : c :: ws = l at hd
    -- the first three words are a simple expression
    have hfront : ∀ {v : Bool} {r : List Text}, Front stat l v r → ∃ x r', r = x :: r' ∧
        r'.length ≤ n ∧ (r' = [] ∨ ∃ c f r'' v', r' = c :: r'' ∧ connective c = some f ∧
          Reads stat r'' v') := by
      intro v r hf
      obtain ⟨o, b, rfl, ho⟩ := hop.front (hl ▸ hf)
      rcases ho with ⟨q, hq⟩ | ho
      · obtain ⟨x, r', rfl, hr'⟩ := reads_string hq hr
        refine ⟨x, r', rfl, ?_, hr'⟩
        simp only [List.length_cons] at hn
        omega
      · exact absurd hr ho.not_reads
    cases hd with
    | simple hf =>
      obtain ⟨x, r', h, -⟩ := hfront hf
      exact absurd h.symm (List.cons_ne_nil _ _)
    | not _ => exact hop.ne_bang (List.cons.inj hl).1
    | join hc' hf hd' =>
      obtain ⟨x, r', h, hlen, hr'⟩ := hfront hf
      obtain ⟨-, rfl⟩ := List.cons.inj h
      rcases hr' with rfl | ⟨c'', f'', r'', v'', rfl, hc'', hr''⟩
      · exact not_denotes_nil hd'
      · simp only [List.length_cons] at hlen
        exact ih (by omega) hc'' hd' hr''

/-- Another reading of a simple expression takes the word behind it for its second operand. -/
theorem front_unique {rest' : List Text} (hr : ReadFront stat ws v rest)
    (hf : Front stat ws v' rest') : (v' = v ∧ rest' = rest) ∨ ∃ b, rest = b :: rest' := by
  generalize hl : ws = l at hf
  cases hr with
  | nonempty =>
    cases hf with
    | nonempty =>
      obtain ⟨-, hl⟩ := List.cons.inj hl
      obtain ⟨rfl, rfl⟩ := List.cons.inj hl
      exact .inl ⟨rfl, rfl⟩
    | empty => exact absurd (List.cons.inj hl).1 (by decide)
    | file hp => exact absurd (List.cons.inj hl).1.symm (fileTest_word hp).2.2.1
    | string _ => exact .inr ⟨_, (List.cons.inj (List.cons.inj hl).2).2⟩
    | numeric _ _ _ => exact .inr ⟨_, (List.cons.inj (List.cons.inj hl).2).2⟩
  | empty =>
    cases hf with
    | nonempty => exact absurd (List.cons.inj hl).1 (by decide)
    | empty =>
      obtain ⟨-, hl⟩ := List.cons.inj hl
      obtain ⟨rfl, rfl⟩ := List.cons.inj hl
      exact .inl ⟨rfl, rfl⟩
    | file hp => exact absurd (List.cons.inj hl).1.symm (fileTest_word hp).2.2.2
    | string _ => exact .inr ⟨_, (List.cons.inj (List.cons.inj hl).2).2⟩
    | numeric _ _ _ => exact .inr ⟨_, (List.cons.inj (List.cons.inj hl).2).2⟩
  | file hp =>
    cases hf with
    | nonempty => exact absurd (List.cons.inj hl).1 (fileTest_word hp).2.2.1
    | empty => exact absurd (List.cons.inj hl).1 (fileTest_word hp).2.2.2
    | file hp' =>
      cases hl
      obtain rfl := Option.some.inj (hp.symm.trans hp')
      exact .inl ⟨rfl, rfl⟩
    | string _ => exact .inr ⟨_, (List.cons.inj (List.cons.inj hl).2).2⟩
    | numeric _ _ _ => exact .inr ⟨_, (List.cons.inj (List.cons.inj hl).2).2⟩
  | string _ hhead hq =>
    cases hf with
    | nonempty => exact absurd ((List.cons.inj hl).1 ▸ rfl) hhead
    | empty => exact absurd ((List.cons.inj hl).1 ▸ rfl) hhead
    | file hp => exact absurd ((List.cons.inj hl).1 ▸ (fileTest_word hp).1) hhead
    | string hq' =>
      cases hl
      obtain rfl := Option.some.inj (hq.symm.trans hq')
      exact .inl ⟨rfl, rfl⟩
    | numeric hq' _ _ =>
      obtain ⟨-, hl⟩ := List.cons.inj hl
      rw [← (List.cons.inj hl).1, (stringTest_word hq).2.2] at hq'
      exact absurd hq'.symm (Option.some_ne_none _)
  | numeric _ hhead hq _ _ _ _ _ _ =>
    cases hf with
    | nonempty => exact absurd ((List.cons.inj hl).1 ▸ rfl) hhead
    | empty => exact absurd ((List.cons.inj hl).1 ▸ rfl) hhead
    | file hp => exact absurd ((List.cons.inj hl).1 ▸ (fileTest_word hp).1) hhead
    | string hq' =>
      obtain ⟨-, hl⟩ := List.cons.inj hl
      rw [(List.cons.inj hl).1, (stringTest_word hq').2.2] at hq
      exact absurd hq.symm (Option.some_ne_none _)
    | numeric hq' _ _ =>
      cases hl
      obtain rfl := Option.some.inj (hq.symm.trans hq')
      exact .inl ⟨rfl, rfl⟩

theorem readFront_ne_bang {w : Text} (h : ReadFront stat (w :: ws) v rest) : w ≠ text "!" := by
  cases h with
  | nonempty => decide
  | empty => decide
  | file hp => exact (fileTest_word hp).2.1
  | string h _ _ => exact h
  | numeric h _ _ _ _ _ _ _ _ => exact h

theorem reads_unique (hr : Reads stat ws v) (hd : Denotes stat ws v') : v' = v := by
  induction hr generalizing v' with
  | simple hr =>
    cases hd with
    | simple hf =>
      rcases front_unique hr hf with ⟨h, -⟩ | ⟨b, h⟩
      · exact h
      · exact absurd h.symm (List.cons_ne_nil _ _)
    | not _ => exact absurd rfl (readFront_ne_bang hr)
    | join _ hf _ =>
      rcases front_unique hr hf with ⟨-, h⟩ | ⟨b, h⟩
      · exact absurd h (List.cons_ne_nil _ _)
      · exact absurd h.symm (List.cons_ne_nil _ _)
  | @not ws v hr ih =>
    -- a `!` is no operand
    have hno : ∀ {v : Bool} {r : List Text}, Front stat (text "!" :: ws) v r →
        ∃ x r', r = x :: r' ∧ (r' = [] ∨ ∃ c f r'' v', r' = c :: r'' ∧ connective c = some f ∧
          Reads stat r'' v') := by
      intro v r hf
      generalize hl : text "!" :: ws = l at hf
      cases hf with
      | nonempty => exact absurd (List.cons.inj hl).1 (by decide)
      | empty => exact absurd (List.cons.inj hl).1 (by decide)
      | file hp => exact absurd (List.cons.inj hl).1.symm (fileTest_word hp).2.1
      | string hq =>
        obtain ⟨-, rfl⟩ := List.cons.inj hl
        exact reads_string hq hr
      | numeric hq _ _ =>
        obtain ⟨-, rfl⟩ := List.cons.inj hl
        exact absurd hr (numericTest_operator hq).not_reads
    generalize hl : text "!" :: ws = l at hd
    cases hd with
    | simple hf =>
      obtain ⟨x, r', h, -⟩ := hno (hl ▸ hf)
      exact absurd h.symm (List.cons_ne_nil _ _)
    | not hd =>
      obtain ⟨-, rfl⟩ := List.cons.inj hl
      rw [ih hd]
    | join hc hf hd =>
      obtain ⟨x, r', h, hr'⟩ := hno (hl ▸ hf)
      obtain ⟨-, rfl⟩ := List.cons.inj h
      rcases hr' with rfl | ⟨c, f, r'', v'', rfl, hc', hr''⟩
      · exact absurd hd not_denotes_nil
      · exact absurd hr'' (no_shift le_rfl hc' hd)
  | join hc hr hrest ih =>
    cases hd with
    | simple hf =>
      rcases front_unique hr hf with ⟨-, h⟩ | ⟨b, h⟩
      · exact absurd h.symm (List.cons_ne_nil _ _)
      · obtain ⟨-, rfl⟩ := List.cons.inj h
        exact absurd hrest not_reads_nil
    | not _ => exact absurd rfl (readFront_ne_bang hr)
    | join hc' hf hd =>
      rcases front_unique hr hf with ⟨rfl, h⟩ | ⟨b, h⟩
      · obtain ⟨rfl, rfl⟩ := List.cons.inj h
        obtain rfl := Option.some.inj (hc.symm.trans hc')
        rw [ih hd]
      · obtain ⟨-, rfl⟩ := List.cons.inj h
        exact absurd hrest (connective_operator hc').not_reads

end

section

variable {stat : List Text → Option Stat} {behind : Option Text} {w c : Text}
  {ws rest : List Text} {value : Value} {v : Bool}

theorem expression_nil : expression stat behind [] = behind.map fun _ => (false, true) := by
  rw [expression]

theorem expression_lone : expression stat behind [text "!"] = some (false, true) := by
  rw [expression, if_pos rfl, if_pos rfl]

theorem expression_not (h : ws ≠ []) : expression stat behind (text "!" :: ws) =
    (expression stat behind ws).map fun r => (!r.1, r.2) := by
  rw [expression, if_pos rfl, if_neg h]

theorem expression_short (hw : w ≠ text "!") (h : simple stat (w :: ws) = none) :
    expression stat behind (w :: ws) = some (false, true) := by
  rw [expression, if_neg hw]
  split
  · rfl
  · next h' => exact absurd (h.symm.trans h').symm (Option.some_ne_none _)
  · next h' => exact absurd (h.symm.trans h').symm (Option.some_ne_none _)

theorem expression_end (hw : w ≠ text "!") (h : simple stat (w :: ws) = some (value, [])) :
    expression stat behind (w :: ws) =
      some (decide (value = .testTrue), decide (value = .testError)) := by
  rw [expression, if_neg hw]
  split
  · next h' => exact absurd (h.symm.trans h') (Option.some_ne_none _)
  · next h' =>
    obtain ⟨rfl, -⟩ := Prod.mk.inj (Option.some.inj (h.symm.trans h'))
    rfl
  · next h' =>
    obtain ⟨-, hl⟩ := Prod.mk.inj (Option.some.inj (h.symm.trans h'))
    exact absurd hl.symm (List.cons_ne_nil _ _)

theorem expression_more (hw : w ≠ text "!")
    (h : simple stat (w :: ws) = some (value, c :: rest)) :
    expression stat behind (w :: ws) =
      if value = .testError then some (false, true)
      else if c = text "-a" then
        if value ≠ .testTrue then some (false, false) else expression stat behind rest
      else if c = text "-o" then
        if value = .testTrue then some (true, false) else expression stat behind rest
      else some (false, true) := by
  rw [expression, if_neg hw]
  split
  · next h' => exact absurd (h.symm.trans h') (Option.some_ne_none _)
  · next h' =>
    obtain ⟨-, hl⟩ := Prod.mk.inj (Option.some.inj (h.symm.trans h'))
    exact absurd hl (List.cons_ne_nil _ _)
  · next h' =>
    obtain ⟨rfl, hl⟩ := Prod.mk.inj (Option.some.inj (h.symm.trans h'))
    obtain ⟨rfl, rfl⟩ := List.cons.inj hl
    rfl

theorem Faulty.run {odd : Bool} (h : Faulty stat behind.isSome ws odd) :
    expression stat behind ws = some (odd, true) := by
  induction h with
  | nothing hb =>
    obtain ⟨w, hw⟩ := Option.isSome_iff_exists.mp hb
    rw [expression_nil, hw]
    rfl
  | lone => exact expression_lone
  | not hne _ ih =>
    rw [expression_not hne, ih]
    rfl
  | short hw h => exact expression_short hw h
  | @operand w ws rest hw h =>
    cases rest with
    | nil => exact expression_end hw h
    | cons c rest => exact (expression_more hw h).trans (if_pos rfl)
  | trailing hw h ha ho =>
    rw [expression_more hw h, if_neg ha, if_neg ho, ite_self]
  | and hw h _ ih =>
    rw [expression_more hw h, if_neg (by decide), if_pos rfl, if_neg (not_not.mpr rfl), ih]
  | or hw h _ ih =>
    rw [expression_more hw h, if_neg (by decide), if_neg (by decide), if_pos rfl,
      if_neg (by decide), ih]

theorem Settled.run (h : Settled stat ws v) : expression stat behind ws = some (v, false) := by
  induction h with
  | @simple w ws v hw h =>
    rw [expression_end hw h]
    cases v <;> rfl
  | not hne _ ih =>
    rw [expression_not hne, ih]
    rfl
  | andFalse hw h =>
    rw [expression_more hw h, if_neg (by decide), if_pos rfl, if_pos (by decide)]
  | orTrue hw h =>
    rw [expression_more hw h, if_neg (by decide), if_neg (by decide), if_pos rfl, if_pos rfl]
  | and hw h _ ih =>
    rw [expression_more hw h, if_neg (by decide), if_pos rfl, if_neg (not_not.mpr rfl), ih]
  | or hw h _ ih =>
    rw [expression_more hw h, if_neg (by decide), if_neg (by decide), if_pos rfl,
      if_neg (by decide), ih]

/-- A result is one of a part that is ill-formed, with a report, or of one that is not. -/
theorem expression_cases {n : Nat} {r : Bool × Bool} (hn : ws.length ≤ n)
    (h : expression stat behind ws = some r) :
    (r.2 = true ∧ Faulty stat behind.isSome ws r.1) ∨ (r.2 = false ∧ Settled stat ws r.1) := by
  induction n generalizing ws r with
  | zero =>
    obtain rfl := List.length_eq_zero_iff.mp (Nat.le_zero.mp hn)
    rw [expression_nil] at h
    obtain ⟨w, hw, rfl⟩ := Option.map_eq_some_iff.mp h
    exact .inl ⟨rfl, .nothing (by rw [hw]; rfl)⟩
  | succ n ih =>
    cases ws with
    | nil =>
      rw [expression_nil] at h
      obtain ⟨w, hw, rfl⟩ := Option.map_eq_some_iff.mp h
      exact .inl ⟨rfl, .nothing (by rw [hw]; rfl)⟩
    | cons w ws =>
      rw [List.length_cons] at hn
      by_cases hw : w = text "!"
      · subst hw
        by_cases hnil : ws = []
        · subst hnil
          rw [expression_lone] at h
          obtain rfl := Option.some.inj h
          exact .inl ⟨rfl, .lone⟩
        · rw [expression_not hnil] at h
          obtain ⟨q, hq, rfl⟩ := Option.map_eq_some_iff.mp h
          rcases ih (Nat.le_of_succ_le_succ hn) hq with ⟨hr, hf⟩ | ⟨hr, hs⟩
          · exact .inl ⟨hr, hf.not hnil⟩
          · exact .inr ⟨hr, hs.not hnil⟩
      · cases hsimple : simple stat (w :: ws) with
        | none =>
          rw [expression_short hw hsimple] at h
          obtain rfl := Option.some.inj h
          exact .inl ⟨rfl, .short hw hsimple⟩
        | some q =>
          obtain ⟨value, rest⟩ := q
          have hlen := simple_length stat hsimple
          rw [List.length_cons] at hlen
          cases rest with
          | nil =>
            rw [expression_end hw hsimple] at h
            obtain rfl := Option.some.inj h
            cases value with
            | testTrue => exact .inr ⟨rfl, .simple (v := true) hw hsimple⟩
            | testFalse => exact .inr ⟨rfl, .simple (v := false) hw hsimple⟩
            | testError => exact .inl ⟨rfl, .operand hw hsimple⟩
          | cons c rest =>
            rw [List.length_cons] at hlen
            rw [expression_more hw hsimple] at h
            by_cases ha : c = text "-a"
            · subst ha
              cases value with
              | testTrue =>
                rcases ih (by omega) h with ⟨hr, hf⟩ | ⟨hr, hs⟩
                · exact .inl ⟨hr, .and hw hsimple hf⟩
                · exact .inr ⟨hr, .and hw hsimple hs⟩
              | testFalse =>
                obtain rfl := Option.some.inj h
                exact .inr ⟨rfl, .andFalse hw hsimple⟩
              | testError =>
                obtain rfl := Option.some.inj h
                exact .inl ⟨rfl, .operand hw hsimple⟩
            · by_cases ho : c = text "-o"
              · subst ho
                cases value with
                | testTrue =>
                  obtain rfl := Option.some.inj h
                  exact .inr ⟨rfl, .orTrue hw hsimple⟩
                | testFalse =>
                  rcases ih (by omega) h with ⟨hr, hf⟩ | ⟨hr, hs⟩
                  · exact .inl ⟨hr, .or hw hsimple hf⟩
                  · exact .inr ⟨hr, .or hw hsimple hs⟩
                | testError =>
                  obtain rfl := Option.some.inj h
                  exact .inl ⟨rfl, .operand hw hsimple⟩
              · rw [if_neg ha, if_neg ho, ite_self] at h
                obtain rfl := Option.some.inj h
                exact .inl ⟨rfl, .trailing hw hsimple ha ho⟩

theorem simple_unary (h : w.head? = some (ch '-')) (x : Text) (rest : List Text) :
    simple stat (w :: x :: rest) = some (unaryexpression (stat (w :: x :: rest)) w x, rest) :=
  if_pos h

theorem simple_binary (h : w.head? ≠ some (ch '-')) (op b : Text) (rest : List Text) :
    simple stat (w :: op :: b :: rest) = some (binaryexpression w op b, rest) := if_neg h

theorem ReadFront.simple (h : ReadFront stat ws v rest) :
    simple stat ws = some (.ofBool v, rest) := by
  cases h with
  | nonempty => rfl
  | empty => rfl
  | @file op x p rest hp =>
    obtain ⟨hhead, -, hn, hz⟩ := fileTest_word hp
    rw [simple_unary hhead]
    unfold unaryexpression
    rw [if_neg hn, if_neg hz, hp]
    cases stat (op :: x :: rest) <;> rfl
  | string _ hhead hq =>
    rw [simple_binary hhead]
    unfold binaryexpression
    rw [hq]
  | @numeric a op b q rest _ hhead hq _ _ hane hbne ha hb =>
    have hstring : stringTest op = none := by
      by_contra hne
      obtain ⟨q', hq'⟩ := Option.ne_none_iff_exists'.mp hne
      exact absurd (hq.symm.trans (stringTest_word hq').2.2) (Option.some_ne_none _)
    rw [simple_binary hhead]
    unfold binaryexpression
    rw [hstring]
    dsimp only
    rw [if_neg (not_or.mpr ⟨hane, not_not.mpr ha⟩), if_neg (not_or.mpr ⟨hbne, not_not.mpr hb⟩), hq]
    rfl

theorem ReadFront.front (h : ReadFront stat ws v rest) : Front stat ws v rest := by
  cases h with
  | nonempty => exact .nonempty
  | empty => exact .empty
  | file hp => exact .file hp
  | string _ _ hq => exact .string hq
  | numeric _ _ hq ha hb _ _ _ _ => exact .numeric hq ha hb

theorem Reads.denotes (h : Reads stat ws v) : Denotes stat ws v := by
  induction h with
  | simple hf => exact .simple hf.front
  | not _ ih => exact .not ih
  | join hc hf _ ih => exact .join hc hf.front ih

theorem ReadFront.cons (h : ReadFront stat ws v rest) :
    ∃ w l, ws = w :: l ∧ w ≠ text "!" ∧ Test.simple stat (w :: l) = some (.ofBool v, rest) := by
  have hsimple := h.simple
  cases ws with
  | nil => exact absurd hsimple.symm (Option.some_ne_none _)
  | cons w l => exact ⟨w, l, rfl, readFront_ne_bang h, hsimple⟩

theorem Reads.settled (h : Reads stat ws v) : Settled stat ws v := by
  induction h with
  | simple hf =>
    obtain ⟨w, l, rfl, hw, hs⟩ := hf.cons
    exact .simple hw hs
  | @not ws v hr ih =>
    refine ih.not ?_
    rintro rfl
    exact not_reads_nil hr
  | @join c f ws rest v v' hc hf _ ih =>
    obtain ⟨w, l, rfl, hw, hs⟩ := hf.cons
    unfold connective at hc
    split at hc
    · next ha =>
      subst ha
      obtain rfl := Option.some.inj hc
      cases v with
      | false => exact .andFalse hw hs
      | true => exact .and hw hs ih
    · split at hc
      · next ho =>
        subst ho
        obtain rfl := Option.some.inj hc
        cases v with
        | false => exact .or hw hs ih
        | true => exact .orTrue hw hs
      · exact absurd hc.symm (Option.some_ne_none _)

theorem Command.run_eq (command : Command) (stat : List Text → Option Stat) (ws : List Text) :
    ∃ behind : Option Text, behind.isSome = command.word ∧
      command.run stat ws = expression stat behind ws := by
  cases command with
  | test => exact ⟨none, rfl, rfl⟩
  | lbracket =>
    refine ⟨some (text "]"), rfl, ?_⟩
    show cmdLbracket stat (text "[" :: (ws ++ [text "]"])) = _
    unfold cmdLbracket
    rw [← List.cons_append, List.getLast?_concat, if_neg (not_not.mpr rfl)]
    rw [List.cons_append, List.tail_cons, List.dropLast_concat]

end

/-- The result is right exactly when the condition holds. -/
theorem test_right_iff (command : Command) (stat : List Text → Option Stat) (ws : List Text) :
    Right command stat ws ↔ Meets command stat ws := by
  obtain ⟨behind, hword, hrun⟩ := command.run_eq stat ws
  unfold Right Meets
  rw [hrun, ← hword]
  constructor
  · rintro ⟨isTrue, reported, h, htrue, hreport⟩
    rcases expression_cases le_rfl h with ⟨-, hf⟩ | ⟨hr, hs⟩
    · exact .inr (.inl ⟨isTrue, hf, htrue⟩)
    · refine .inr (.inr ⟨isTrue, hs, ?_, htrue⟩)
      by_contra hno
      exact Bool.false_ne_true (hr.symm.trans (hreport hno))
  · rintro (⟨v, hr⟩ | ⟨odd, hf, htrue⟩ | ⟨v, hs, hd, htrue⟩)
    · refine ⟨v, false, hr.settled.run, ⟨fun h => h ▸ hr.denotes, fun h => ?_⟩,
        fun hno => absurd ⟨v, hr.denotes⟩ hno⟩
      exact (reads_unique hr h).symm
    · exact ⟨odd, true, hf.run, htrue, fun _ => rfl⟩
    · exact ⟨v, false, hs.run, htrue, fun hno => absurd hd hno⟩

/-- Behind a connective that ends the list, the command reads what is behind its arguments. -/
theorem test_open_connective :
    ¬Right .test (fun _ => none) [text "-n", text "x", text "-a"] := by
  rintro ⟨isTrue, reported, h, -⟩
  have hsimple : simple (fun _ => none) [text "-n", text "x", text "-a"] =
      some (.testTrue, [text "-a"]) := rfl
  have hrun : expression (fun _ => none) none [text "-n", text "x", text "-a"] = none := by
    rw [expression_more (by decide) hsimple, if_neg (by decide), if_pos rfl,
      if_neg (not_not.mpr rfl), expression_nil]
    rfl
  exact absurd (hrun.symm.trans h).symm (Option.some_ne_none _)

end NuttxAvr32.Nsh.Test
