import Mathlib.Data.List.Basic

/-! # Runs of a machine with partial operations

A machine executes an operation on a state and may fail. `Reach M init ok s`
holds of the states reached from an initial state by valid operations each of
which also meets `ok` in the state it starts from.
-/

namespace Runs

universe u v

structure Machine (σ : Type u) (ι : Type v) where
  valid : σ → ι → Prop
  exec : σ → ι → Option σ

variable {σ : Type u} {ι : Type v}

inductive Reach (M : Machine σ ι) (init : σ → Prop) (ok : σ → ι → Prop) : σ → Prop
  | init {s : σ} : init s → Reach M init ok s
  | step {s s' : σ} {i : ι} :
      Reach M init ok s → M.valid s i → ok s i → M.exec s i = some s' → Reach M init ok s'

abbrev Reachable (M : Machine σ ι) (init : σ → Prop) : σ → Prop :=
  Reach M init fun _ _ => True

theorem Reach.invariant {M : Machine σ ι} {init : σ → Prop} {ok : σ → ι → Prop}
    {I : σ → Prop} (h0 : ∀ s, init s → I s)
    (hs : ∀ s i s', I s → M.valid s i → ok s i → M.exec s i = some s' → I s')
    {s : σ} (h : Reach M init ok s) : I s := by
  induction h with
  | init hi => exact h0 _ hi
  | step _ hv hk he ih => exact hs _ _ _ ih hv hk he

theorem Reach.mono {M : Machine σ ι} {init : σ → Prop} {ok ok' : σ → ι → Prop}
    (hk : ∀ s i, ok s i → ok' s i) {s : σ} (h : Reach M init ok s) : Reach M init ok' s := by
  induction h with
  | init hi => exact .init hi
  | step _ hv ho he ih => exact .step ih hv (hk _ _ ho) he

theorem Reach.simulated {τ : Type*} {M : Machine σ ι} {N : Machine τ ι} {init : σ → Prop}
    {init' : τ → Prop} {ok : σ → ι → Prop} {ok' : τ → ι → Prop} {R : σ → τ → Prop}
    (h0 : ∀ s, init s → ∃ t, init' t ∧ R s t)
    (hs : ∀ s t i s', R s t → Reach N init' ok' t → M.valid s i → ok s i → M.exec s i = some s' →
      ∃ t', N.valid t i ∧ ok' t i ∧ N.exec t i = some t' ∧ R s' t')
    {s : σ} (h : Reach M init ok s) : ∃ t, Reach N init' ok' t ∧ R s t := by
  induction h with
  | init hi =>
      obtain ⟨t, ht, hR⟩ := h0 _ hi
      exact ⟨t, .init ht, hR⟩
  | step _ hv hk he ih =>
      obtain ⟨t, hr, hR⟩ := ih
      obtain ⟨t', hv', hk', he', hR'⟩ := hs _ _ _ _ hR hr hv hk he
      exact ⟨t', .step hr hv' hk' he', hR'⟩

def runAll (M : Machine σ ι) (ok : σ → ι → Prop) [∀ s i, Decidable (M.valid s i)]
    [∀ s i, Decidable (ok s i)] : σ → List ι → Option σ
  | s, [] => some s
  | s, i :: is =>
      if M.valid s i ∧ ok s i then (M.exec s i).bind fun s' => runAll M ok s' is else none

theorem Reach.runAll {M : Machine σ ι} {ok : σ → ι → Prop} [∀ s i, Decidable (M.valid s i)]
    [∀ s i, Decidable (ok s i)] {init : σ → Prop} {s s' : σ} {is : List ι}
    (h : Reach M init ok s) (hr : runAll M ok s is = some s') : Reach M init ok s' := by
  induction is generalizing s with
  | nil => cases hr; exact h
  | cons i is ih =>
      simp only [Runs.runAll] at hr
      split at hr
      · rename_i hv
        obtain ⟨t, ht, hr⟩ := Option.bind_eq_some_iff.mp hr
        exact ih (.step h hv.1 hv.2 ht) hr
      · cases hr

universe w

/-- What holds of every step that a list of operations makes, with its reply; the run ends where an
operation does not return. -/
def Along {ρ : Type w} (exec : σ → ι → Option (σ × ρ)) (P : σ → ι → σ → ρ → Prop) :
    σ → List ι → Prop
  | _, [] => True
  | s, i :: is => ∀ s' r, exec s i = some (s', r) → P s i s' r ∧ Along exec P s' is

/-- Two properties that agree on every step from a state with the invariant agree on runs. -/
theorem Along.iff {ρ : Type w} {exec : σ → ι → Option (σ × ρ)} {P Q : σ → ι → σ → ρ → Prop}
    {I : σ → Prop} {valid : ι → Prop}
    (hs : ∀ s i s' r, I s → valid i → exec s i = some (s', r) → I s' ∧ (P s i s' r ↔ Q s i s' r))
    {s : σ} {is : List ι} (h : I s) (hv : ∀ i ∈ is, valid i) :
    Along exec P s is ↔ Along exec Q s is := by
  induction is generalizing s with
  | nil => exact Iff.rfl
  | cons i is ih =>
      have hvs : ∀ j ∈ is, valid j := fun j hj => hv j (List.mem_cons_of_mem _ hj)
      refine forall_congr' fun s' => forall_congr' fun r => forall_congr' fun he => ?_
      obtain ⟨hi, hpq⟩ := hs s i s' r h (hv i List.mem_cons_self) he
      exact and_congr hpq (ih hi hvs)

end Runs
