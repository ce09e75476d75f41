import Mathlib.Logic.Function.Basic

/-! # Calls that take semaphores

A call takes semaphores and gives them back, asks its surroundings and changes its own data.
It returns, or waits for what it holds itself, or is not yet at its end. `wp p Q` says that `p`
does not wait for itself, and that `Q` holds where it returns.
-/

namespace Holding

/-- The data, the counts of the semaphores, what the call has taken of each and not given back,
and the answers to come. -/
structure World (σ S A : Type) where
  data : σ
  count : S → Int
  holds : S → Int
  answers : Nat → A

namespace World

variable {σ S A : Type} [DecidableEq S]

def took (s : S) (w : World σ S A) : World σ S A :=
  { w with
    count := Function.update w.count s (w.count s - 1)
    holds := Function.update w.holds s (w.holds s + 1) }

def gave (s : S) (w : World σ S A) : World σ S A :=
  { w with
    count := Function.update w.count s (w.count s + 1)
    holds := Function.update w.holds s (w.holds s - 1) }

@[simp] theorem gave_took (s : S) (w : World σ S A) : (w.took s).gave s = w := by
  simp [gave, took]

@[simp] theorem holds_took (s : S) (w : World σ S A) : (w.took s).holds s = w.holds s + 1 := by
  simp [took]

@[simp] theorem data_took (s : S) (w : World σ S A) : (w.took s).data = w.data := rfl

@[simp] theorem data_gave (s : S) (w : World σ S A) : (w.gave s).data = w.data := rfl

@[simp] theorem answers_took (s : S) (w : World σ S A) : (w.took s).answers = w.answers := rfl

@[simp] theorem answers_gave (s : S) (w : World σ S A) : (w.gave s).answers = w.answers := rfl

end World

inductive Ending (σ S A α : Type) where
  | returned (a : α) (w : World σ S A)
  | selfWait
  | running

def Call (σ S A α : Type) : Type := World σ S A → Ending σ S A α

variable {σ S A α β γ : Type}

namespace Call

def bind (p : Call σ S A α) (f : α → Call σ S A β) : Call σ S A β := fun w =>
  match p w with
  | .returned a w' => f a w'
  | .selfWait => .selfWait
  | .running => .running

instance : Monad (Call σ S A) where
  pure a := fun w => .returned a w
  bind := bind

def get : Call σ S A σ := fun w => .returned w.data w

def modify (f : σ → σ) : Call σ S A Unit := fun w => .returned () { w with data := f w.data }

def ask : Call σ S A A := fun w =>
  .returned (w.answers 0) { w with answers := fun n => w.answers (n + 1) }

/-- The call does not return. -/
def halt : Call σ S A α := fun _ => .running

/-- The semaphore is taken: at once, or when others give it back. -/
def take [DecidableEq S] (s : S) : Call σ S A Unit := fun w =>
  if 0 < w.holds s then .selfWait else .returned () (w.took s)

def give [DecidableEq S] (s : S) : Call σ S A Unit := fun w => .returned () (w.gave s)

def loop (body : β → Call σ S A (β ⊕ α)) : Nat → β → Call σ S A α
  | 0, _ => halt
  | turns + 1, b => (body b).bind fun r =>
    match r with
    | .inl b => loop body turns b
    | .inr a => pure a

def wp (p : Call σ S A α) (Q : α → World σ S A → Prop) (w : World σ S A) : Prop :=
  match p w with
  | .returned a w' => Q a w'
  | .selfWait => False
  | .running => True

def Returns (p : Call σ S A α) (Q : α → World σ S A → Prop) (w : World σ S A) : Prop :=
  match p w with
  | .returned a w' => Q a w'
  | .selfWait => False
  | .running => False

end Call

open Call

section

variable {w : World σ S A} {p p' : Call σ S A α} {f : α → Call σ S A β}
  {Q Q' : α → World σ S A → Prop} {R : β → World σ S A → Prop} {U : Unit → World σ S A → Prop}

@[simp] theorem wp_pure {a : α} : wp (pure a) Q w ↔ Q a w := Iff.rfl

@[simp] theorem wp_bind : wp (p >>= f) R w ↔ wp p (fun a w' => wp (f a) R w') w := by
  show wp (p.bind f) R w ↔ _
  unfold wp Call.bind
  cases p w with
  | returned a w' => exact Iff.rfl
  | selfWait => exact Iff.rfl
  | running => exact Iff.rfl

@[simp] theorem wp_get {V : σ → World σ S A → Prop} : wp get V w ↔ V w.data w := Iff.rfl

@[simp] theorem wp_modify {g : σ → σ} :
    wp (modify g) U w ↔ U () { w with data := g w.data } := Iff.rfl

@[simp] theorem wp_ask {V : A → World σ S A → Prop} : wp ask V w ↔
    V (w.answers 0) { w with answers := fun n => w.answers (n + 1) } := Iff.rfl

@[simp] theorem wp_halt : wp halt Q w := trivial

@[simp] theorem wp_ite {c : Prop} [Decidable c] :
    wp (if c then p else p') Q w ↔ if c then wp p Q w else wp p' Q w := by
  split
  · exact Iff.rfl
  · exact Iff.rfl

variable [DecidableEq S] {s : S}

@[simp] theorem wp_take : wp (take s) U w ↔ ¬ 0 < w.holds s ∧ U () (w.took s) := by
  by_cases h : 0 < w.holds s
  · simp [wp, take, h]
  · simp [wp, take, h]

@[simp] theorem wp_give : wp (give s) U w ↔ U () (w.gave s) := Iff.rfl

omit [DecidableEq S] in
theorem wp_mono (h : wp p Q w) (hq : ∀ a w', Q a w' → Q' a w') : wp p Q' w := by
  unfold wp at h ⊢
  cases hp : p w with
  | returned a w' =>
    rw [hp] at h
    exact hq a w' h
  | selfWait =>
    rw [hp] at h
    exact h
  | running => trivial

omit [DecidableEq S] in
theorem wp_congr {P : α → World σ S A → Prop} (hp : wp p P w)
    (hq : ∀ a w', P a w' → (Q a w' ↔ Q' a w')) : wp p Q w ↔ wp p Q' w := by
  unfold wp at hp ⊢
  cases h : p w with
  | returned a w' =>
    rw [h] at hp
    exact hq a w' hp
  | selfWait => exact Iff.rfl
  | running => exact Iff.rfl

omit [DecidableEq S] in
theorem wp_loop_succ {body : β → Call σ S A (β ⊕ α)} {turns : Nat} {b : β} :
    wp (loop body (turns + 1) b) Q w ↔ wp (body b) (fun r w' =>
      match r with
      | .inl b => wp (loop body turns b) Q w'
      | .inr a => Q a w') w := by
  show wp (body b >>= _) Q w ↔ _
  rw [wp_bind]
  constructor
  · intro h
    apply wp_mono h
    intro r w' hr
    cases r with
    | inl b => exact hr
    | inr a => exact hr
  · intro h
    apply wp_mono h
    intro r w' hr
    cases r with
    | inl b => exact hr
    | inr a => exact hr

omit [DecidableEq S] in
theorem wp_loop {body : β → Call σ S A (β ⊕ α)} (I : World σ S A → Prop)
    (hbody : ∀ b w, I w → wp (body b) (fun _ w' => I w') w) (turns : Nat) {b : β} (h : I w) :
    wp (loop body turns b) (fun _ w' => I w') w := by
  induction turns generalizing b w with
  | zero => trivial
  | succ turns ih =>
    show wp (body b >>= _) _ w
    rw [wp_bind]
    apply wp_mono (hbody b w h)
    intro r w' hw
    cases r with
    | inl b => exact ih hw
    | inr a => exact hw

end

section

variable {w : World σ S A} {p p' : Call σ S A α} {f : α → Call σ S A β}
  {Q Q' : α → World σ S A → Prop} {R : β → World σ S A → Prop}

theorem returns_pure {a : α} : Returns (pure a) Q w ↔ Q a w := Iff.rfl

theorem returns_bind :
    Returns (p >>= f) R w ↔ Returns p (fun a w' => Returns (f a) R w') w := by
  show Returns (p.bind f) R w ↔ _
  unfold Returns Call.bind
  cases p w with
  | returned a w' => exact Iff.rfl
  | selfWait => exact Iff.rfl
  | running => exact Iff.rfl

theorem returns_get {V : σ → World σ S A → Prop} : Returns get V w ↔ V w.data w := Iff.rfl

theorem returns_modify {g : σ → σ} {U : Unit → World σ S A → Prop} :
    Returns (modify g) U w ↔ U () { w with data := g w.data } := Iff.rfl

theorem returns_ask {V : A → World σ S A → Prop} : Returns ask V w ↔
    V (w.answers 0) { w with answers := fun n => w.answers (n + 1) } := Iff.rfl

theorem returns_ite {c : Prop} [Decidable c] :
    Returns (if c then p else p') Q w ↔ if c then Returns p Q w else Returns p' Q w := by
  split
  · exact Iff.rfl
  · exact Iff.rfl

theorem Call.Returns.mono (h : Returns p Q w) (hq : ∀ a w', Q a w' → Q' a w') : Returns p Q' w := by
  unfold Returns at h ⊢
  cases hp : p w with
  | returned a w' =>
    rw [hp] at h
    exact hq a w' h
  | selfWait =>
    rw [hp] at h
    exact h
  | running =>
    rw [hp] at h
    exact h

theorem returns_loop_succ {body : β → Call σ S A (β ⊕ α)} {turns : Nat} {b : β} :
    Returns (loop body (turns + 1) b) Q w ↔ Returns (body b) (fun r w' =>
      match r with
      | .inl b => Returns (loop body turns b) Q w'
      | .inr a => Q a w') w := by
  show Returns (body b >>= _) Q w ↔ _
  rw [returns_bind]
  constructor
  · intro h
    apply h.mono
    intro r w' hr
    cases r with
    | inl b => exact hr
    | inr a => exact hr
  · intro h
    apply h.mono
    intro r w' hr
    cases r with
    | inl b => exact hr
    | inr a => exact hr

theorem Call.Returns.exists (h : Returns p Q w) : ∃ a w', Q a w' ∧ ∀ Q', wp p Q' w ↔ Q' a w' := by
  unfold Returns at h
  cases hp : p w with
  | returned a w' =>
    rw [hp] at h
    refine ⟨a, w', h, fun Q' => ?_⟩
    unfold wp
    rw [hp]
  | selfWait =>
    rw [hp] at h
    exact h.elim
  | running =>
    rw [hp] at h
    exact h.elim

end

def SameSems (w w' : World σ S A) : Prop := w'.count = w.count ∧ w'.holds = w.holds

def Quiet (p : Call σ S A α) : Prop := ∀ w, wp p (fun _ w' => SameSems w w') w

section

variable {p p' : Call σ S A α} {f : α → Call σ S A β}

@[simp] theorem SameSems.refl (w : World σ S A) : SameSems w w := ⟨rfl, rfl⟩

theorem SameSems.trans {w w' w'' : World σ S A} (h : SameSems w w') (h' : SameSems w' w'') :
    SameSems w w'' :=
  ⟨h'.1.trans h.1, h'.2.trans h.2⟩

theorem SameSems.gave [DecidableEq S] {s : S} {w w' : World σ S A} (h : SameSems (w.took s) w') :
    SameSems w (w'.gave s) := by
  obtain ⟨h1, h2⟩ := h
  constructor
  · simp [World.gave, h1, World.took]
  · simp [World.gave, h2, World.took]

theorem SameSems.count_ne [DecidableEq S] {s : S} {w w' : World σ S A}
    (h : SameSems (w.took s) w') : w'.count ≠ w.count := by
  intro hc
  have hs := congrFun (h.1.symm.trans hc) s
  simp only [World.took, Function.update_self] at hs
  omega

theorem quiet_pure (a : α) : Quiet (pure a : Call σ S A α) := fun _ => ⟨rfl, rfl⟩

theorem quiet_get : Quiet (get : Call σ S A σ) := fun _ => ⟨rfl, rfl⟩

theorem quiet_modify (g : σ → σ) : Quiet (modify g : Call σ S A Unit) :=
  fun _ => ⟨rfl, rfl⟩

theorem quiet_ask : Quiet (ask : Call σ S A A) := fun _ => ⟨rfl, rfl⟩

theorem Quiet.bind (hp : Quiet p) (hf : ∀ a, Quiet (f a)) : Quiet (p >>= f) := by
  intro w
  rw [wp_bind]
  apply wp_mono (hp w)
  intro a w' hw
  apply wp_mono (hf a w')
  intro b w'' hw'
  exact hw.trans hw'

theorem Quiet.ite {c : Prop} [Decidable c] (hp : Quiet p) (hp' : Quiet p') :
    Quiet (if c then p else p') := by
  split
  · exact hp
  · exact hp'

theorem Quiet.loop {body : β → Call σ S A (β ⊕ α)} (hbody : ∀ b, Quiet (body b)) (turns : Nat)
    (b : β) : Quiet (loop body turns b) := by
  intro w
  apply wp_loop (SameSems w) (fun b w' hw => ?_) turns ⟨rfl, rfl⟩
  apply wp_mono (hbody b w')
  intro r w'' hw'
  exact hw.trans hw'

variable {w : World σ S A} {Q : α → World σ S A → Prop}

theorem Quiet.wp (hp : Quiet p) (hq : ∀ a w', SameSems w w' → Q a w') : wp p Q w :=
  wp_mono (hp w) hq

end

/-- A call that finds the semaphores so and holds none of them does not wait for itself, and
leaves them so where it returns. -/
def Balanced (p : Call σ S A α) (data : σ) (count : S → Int) (answers : Nat → A) : Prop :=
  wp p (fun _ w' => w'.count = count) ⟨data, count, fun _ => 0, answers⟩

end Holding
