import Mathlib.Logic.Basic

/-! # Programs that take a counter and give it back

A program is a tree of its effects: it takes or gives back one unit of a counter, asks
its surroundings something, returns or does not return. `Leaves ok p d` says that
wherever `p` returns it has given back `d` units more than it has taken, for all
answers that `ok` allows; a program that leaves nothing may be called anywhere.
-/

namespace Bracket

inductive Code (Q A α : Type) where
  | ret (a : α)
  | stop
  | lock (k : Code Q A α)
  | unlock (k : Code Q A α)
  | ask (q : Q) (k : A → Code Q A α)

namespace Code

variable {Q A α β : Type}

def bind : Code Q A α → (α → Code Q A β) → Code Q A β
  | ret a, f => f a
  | stop, _ => stop
  | lock k, f => lock (k.bind f)
  | unlock k, f => unlock (k.bind f)
  | ask q k, f => ask q fun a => (k a).bind f

instance : Monad (Code Q A) where
  pure := ret
  bind := bind

def repeatWhile (body : Code Q A Bool) : Nat → Code Q A Unit
  | 0 => stop
  | n + 1 => body.bind fun again => if again then repeatWhile body n else ret ()

def Leaves (ok : Q → A → Prop) : Code Q A α → Nat → Prop
  | ret _, d => d = 0
  | stop, _ => True
  | lock k, d => Leaves ok k (d + 1)
  | unlock _, 0 => False
  | unlock k, d + 1 => Leaves ok k d
  | ask q k, d => ∀ a, ok q a → Leaves ok (k a) d

variable {ok ok' : Q → A → Prop} {p : Code Q A α} {f : α → Code Q A β} {d e : Nat}

@[simp] theorem leaves_ret {a : α} : Leaves ok (ret a : Code Q A α) d ↔ d = 0 := Iff.rfl

@[simp] theorem leaves_stop : Leaves ok (stop : Code Q A α) d := trivial

@[simp] theorem leaves_lock {k : Code Q A α} : Leaves ok (lock k) d ↔ Leaves ok k (d + 1) := Iff.rfl

@[simp] theorem leaves_unlock {k : Code Q A α} :
    Leaves ok (unlock k) (d + 1) ↔ Leaves ok k d := Iff.rfl

@[simp] theorem leaves_ask {q : Q} {k : A → Code Q A α} :
    Leaves ok (ask q k) d ↔ ∀ a, ok q a → Leaves ok (k a) d := Iff.rfl

@[simp] theorem leaves_pure {a : α} : Leaves ok (pure a : Code Q A α) d ↔ d = 0 := Iff.rfl

theorem Leaves.bind (hp : Leaves ok p e) (hf : ∀ a, Leaves ok (f a) d) :
    Leaves ok (p.bind f) (e + d) := by
  induction p generalizing e with
  | ret a =>
    have he : e = 0 := hp
    rw [he, Nat.zero_add]
    exact hf a
  | stop => trivial
  | lock k ih =>
    have h := ih (e := e + 1) hp
    show Leaves ok (k.bind f) (e + d + 1)
    rwa [Nat.add_right_comm]
  | unlock k ih =>
    cases e with
    | zero => exact hp.elim
    | succ e =>
      have h := ih (e := e) hp
      rw [Nat.add_right_comm]
      exact h
  | ask q k ih => exact fun a ha => ih a (hp a ha)

theorem Leaves.call (hp : Leaves ok p 0) (hf : ∀ a, Leaves ok (f a) d) :
    Leaves ok (p >>= f) d := by
  have h := hp.bind hf
  rwa [Nat.zero_add] at h

theorem Leaves.repeatWhile {body : Code Q A Bool} (hb : Leaves ok body 0) (n : Nat) :
    Leaves ok (repeatWhile body n) 0 := by
  induction n with
  | zero => trivial
  | succ n ih =>
    apply hb.call
    intro again
    cases again with
    | true => exact ih
    | false => rfl

/-- The counter and the rest of the program after one effect, with the answer `a` to what
it asks; nothing where the counter would pass `limit`. -/
def step (limit : Nat) (a : A) : Code Q A α → Nat → Option (Code Q A α × Nat)
  | ret _, _ => none
  | stop, _ => none
  | lock k, c => if c < limit then some (k, c + 1) else none
  | unlock k, c => some (k, c - 1)
  | ask _ k, c => some (k a, c)

theorem Leaves.step {limit c c' base : Nat} {a : A} {p' : Code Q A α} (hp : Leaves ok p d)
    (hc : c = base + d) (ha : ∀ q k, p = ask q k → ok q a)
    (he : p.step limit a c = some (p', c')) : ∃ d', Leaves ok p' d' ∧ c' = base + d' := by
  cases p with
  | ret b => cases he
  | stop => cases he
  | lock k =>
    simp only [Code.step] at he
    split at he
    · cases he
      exact ⟨d + 1, hp, by omega⟩
    · cases he
  | unlock k =>
    cases he
    cases d with
    | zero => exact hp.elim
    | succ d => exact ⟨d, hp, by omega⟩
  | ask q k =>
    cases he
    exact ⟨d, hp a (ha q k rfl), hc⟩

end Code

end Bracket
