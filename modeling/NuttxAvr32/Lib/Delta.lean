import Mathlib.Data.List.Nodup
import Mathlib.Tactic.Ring

/-! # Delta lists

A queue of timers in which every entry stores only its distance to the entry in
front of it. `due lag b l` lists the entries with their absolute times when the
first distance counts from `b`.
-/

namespace Delta

variable {α : Type*}

def due (lag : α → ℤ) : ℤ → List α → List (α × ℤ)
  | _, [] => []
  | b, x :: xs => (x, b + lag x) :: due lag (b + lag x) xs

def total (lag : α → ℤ) (l : List α) : ℤ := (l.map lag).sum

variable {lag lag' : α → ℤ} {b t : ℤ} {x : α} {l l₁ l₂ : List α}

@[simp] theorem due_nil : due lag b [] = [] := rfl

@[simp] theorem due_cons : due lag b (x :: l) = (x, b + lag x) :: due lag (b + lag x) l := rfl

@[simp] theorem total_nil : total lag [] = 0 := rfl

@[simp] theorem total_cons : total lag (x :: l) = lag x + total lag l := by simp [total]

theorem total_append : total lag (l₁ ++ l₂) = total lag l₁ + total lag l₂ := by simp [total]

theorem due_append : due lag b (l₁ ++ l₂) = due lag b l₁ ++ due lag (b + total lag l₁) l₂ := by
  induction l₁ generalizing b with
  | nil => simp
  | cons x l₁ ih =>
    rw [List.cons_append, due_cons, due_cons, ih, total_cons, List.cons_append, Int.add_assoc]

theorem due_congr (h : ∀ x ∈ l, lag' x = lag x) : due lag' b l = due lag b l := by
  induction l generalizing b with
  | nil => rfl
  | cons x l ih =>
    rw [due_cons, due_cons, h x (by simp), ih fun y hy => h y (by simp [hy])]

theorem map_fst_due : (due lag b l).map Prod.fst = l := by
  induction l generalizing b with
  | nil => rfl
  | cons x l ih => rw [due_cons, List.map_cons, ih]

/-- The entry behind a prefix is due when the prefix and its own distance have passed. -/
theorem mem_due_split (h : l = l₁ ++ x :: l₂) : (x, b + total lag (l₁ ++ [x])) ∈ due lag b l := by
  subst h
  rw [due_append, due_cons]
  simp [total_append, Int.add_assoc]

theorem mem_of_mem_due (h : (x, t) ∈ due lag b l) : x ∈ l := by
  have hm : x ∈ (due lag b l).map Prod.fst := List.mem_map_of_mem h
  rwa [map_fst_due] at hm

theorem exists_mem_due (h : x ∈ l) : ∃ t, (x, t) ∈ due lag b l := by
  obtain ⟨l₁, l₂, h⟩ := List.append_of_mem h
  exact ⟨_, mem_due_split h⟩

theorem mem_due_unique (hn : l.Nodup) {t' : ℤ} (h : (x, t) ∈ due lag b l)
    (h' : (x, t') ∈ due lag b l) : t = t' := by
  induction l generalizing b with
  | nil => cases h
  | cons y l ih =>
    have hy := List.nodup_cons.mp hn
    rw [due_cons, List.mem_cons, Prod.mk.injEq] at h h'
    rcases h with ⟨rfl, rfl⟩ | h
    · rcases h' with ⟨-, rfl⟩ | h'
      · rfl
      · exact absurd (mem_of_mem_due h') hy.1
    · rcases h' with ⟨rfl, -⟩ | h'
      · exact absurd (mem_of_mem_due h) hy.1
      · exact ih hy.2 h h'

variable [DecidableEq α]

theorem due_insert (hx : x ∉ l₁ ++ l₂) (hl₂ : l₂.Nodup) (hdis : ∀ y ∈ l₁, y ∉ l₂)
    (h₁ : ∀ y ∈ l₁, lag' y = lag y) (hlag : b + total lag l₁ + lag' x = t)
    (h₂ : ∀ y ∈ l₂, lag' y = if l₂.head? = some y then lag y - lag' x else lag y) :
    due lag' b (l₁ ++ x :: l₂) =
      due lag b l₁ ++ (x, t) :: due lag (b + total lag l₁) l₂ := by
  have htot : total lag' l₁ = total lag l₁ := by
    unfold total
    rw [List.map_congr_left h₁]
  rw [due_append, due_congr h₁, due_cons, htot, hlag]
  cases l₂ with
  | nil => rfl
  | cons y l₂ =>
    have hy := List.nodup_cons.mp hl₂
    have hrest : ∀ z ∈ l₂, lag' z = lag z := by
      intro z hz
      rw [h₂ z (by simp [hz]), if_neg]
      intro he
      exact hy.1 (by simpa [Option.some.inj he] using hz)
    rw [due_cons, due_cons, due_congr hrest, h₂ y (by simp), List.head?_cons,
      if_pos rfl]
    have ht : t + (lag y - lag' x) = b + total lag l₁ + lag y := by omega
    rw [ht]

theorem due_remove (hl₂ : l₂.Nodup) (h₁ : ∀ y ∈ l₁, lag' y = lag y)
    (h₂ : ∀ y ∈ l₂, lag' y = if l₂.head? = some y then lag y + lag x else lag y) :
    due lag' b (l₁ ++ l₂) =
      due lag b l₁ ++ due lag (b + total lag (l₁ ++ [x])) l₂ := by
  have htot : total lag' l₁ = total lag l₁ := by
    unfold total
    rw [List.map_congr_left h₁]
  rw [due_append, due_congr h₁, htot]
  cases l₂ with
  | nil => rfl
  | cons y l₂ =>
    have hy := List.nodup_cons.mp hl₂
    have hrest : ∀ z ∈ l₂, lag' z = lag z := by
      intro z hz
      rw [h₂ z (by simp [hz]), if_neg]
      intro he
      exact hy.1 (by simpa [Option.some.inj he] using hz)
    rw [due_cons, due_cons, due_congr hrest, h₂ y (by simp), List.head?_cons,
      if_pos rfl, total_append, total_cons, total_nil]
    have ht : b + total lag l₁ + (lag y + lag x) = b + (total lag l₁ + (lag x + 0)) + lag y := by
      omega
    rw [ht]

end Delta
