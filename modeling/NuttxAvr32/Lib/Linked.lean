import Mathlib.Data.List.Nodup

/-! # Doubly linked lists threaded through arbitrary nodes

`Seg fwd bwd p l n` says that the nodes of `l` are linked both ways in order,
that the first one points back to `p` and that the last one points on to `n`.
A null-terminated list is `Seg fwd bwd none l none`. The two edits of an
intrusive list, linking a node in and unlinking one, are stated for any pair of
link maps that differ from the old ones exactly where the edit writes.
-/

namespace Linked

variable {α : Type*} {fwd bwd fwd' bwd' : α → Option α}

def Seg (fwd bwd : α → Option α) : Option α → List α → Option α → Prop
  | _, [], _ => True
  | p, x :: xs, n => bwd x = p ∧ fwd x = xs.head?.or n ∧ Seg fwd bwd (some x) xs n

abbrev Ends (fwd bwd : α → Option α) (l : List α) : Prop := Seg fwd bwd none l none

@[simp] theorem seg_nil (p n : Option α) : Seg fwd bwd p [] n := trivial

@[simp] theorem seg_cons {p n : Option α} {x : α} {xs : List α} :
    Seg fwd bwd p (x :: xs) n ↔
      bwd x = p ∧ fwd x = xs.head?.or n ∧ Seg fwd bwd (some x) xs n := Iff.rfl

theorem getLast?_or_cons (x : α) (xs : List α) (p : Option α) :
    (x :: xs).getLast?.or p = xs.getLast?.or (some x) := by
  simp only [List.getLast?_cons]
  cases xs.getLast? <;> rfl

theorem seg_append {p n : Option α} {xs ys : List α} :
    Seg fwd bwd p (xs ++ ys) n ↔
      Seg fwd bwd p xs (ys.head?.or n) ∧ Seg fwd bwd (xs.getLast?.or p) ys n := by
  induction xs generalizing p with
  | nil => simp
  | cons x xs ih =>
    have hh : (xs ++ ys).head?.or n = xs.head?.or (ys.head?.or n) := by
      cases xs <;> simp
    rw [List.cons_append, seg_cons, seg_cons, ih, hh, getLast?_or_cons, and_assoc, and_assoc]

theorem Seg.congr {p n : Option α} {l : List α} (h : Seg fwd bwd p l n)
    (hf : ∀ x ∈ l, fwd' x = fwd x) (hb : ∀ x ∈ l, bwd' x = bwd x) : Seg fwd' bwd' p l n := by
  induction l generalizing p with
  | nil => trivial
  | cons x xs ih =>
    obtain ⟨h1, h2, h3⟩ := h
    refine ⟨(hb x (by simp)).trans h1, (hf x (by simp)).trans h2, ih h3 ?_ ?_⟩
    · exact fun y hy => hf y (by simp [hy])
    · exact fun y hy => hb y (by simp [hy])

theorem Ends.neighbours {l₁ l₂ : List α} {x : α} (h : Ends fwd bwd (l₁ ++ x :: l₂)) :
    bwd x = l₁.getLast? ∧ fwd x = l₂.head? := by
  have hx := (seg_append.mp h).2
  exact ⟨by simpa using hx.1, by simpa using hx.2.1⟩

theorem Seg.of_splits {p n : Option α} {l : List α}
    (h : ∀ l₁ x l₂, l = l₁ ++ x :: l₂ → bwd x = l₁.getLast?.or p ∧ fwd x = l₂.head?.or n) :
    Seg fwd bwd p l n := by
  induction l generalizing p with
  | nil => trivial
  | cons x xs ih =>
    obtain ⟨hb, hf⟩ := h [] x xs rfl
    refine ⟨hb, hf, ih fun l₁ y l₂ hl => ?_⟩
    rw [← getLast?_or_cons]
    exact h (x :: l₁) y l₂ (by rw [hl, List.cons_append])

theorem Seg.tail_unique {p q : Option α} {x : α} {xs ys : List α}
    (h : Seg fwd bwd p (x :: xs) none) (h' : Seg fwd bwd' q (x :: ys) none) : xs = ys := by
  induction xs generalizing p q x ys with
  | nil =>
    have he : none = ys.head?.or none := h.2.1.symm.trans h'.2.1
    cases ys with
    | nil => rfl
    | cons y ys => cases he
  | cons z xs ih =>
    have he : some z = ys.head?.or none := h.2.1.symm.trans h'.2.1
    cases ys with
    | nil => cases he
    | cons y ys =>
      cases he
      rw [ih h.2.2 h'.2.2]

theorem Seg.nodup {p : Option α} {l : List α} (h : Seg fwd bwd p l none) : l.Nodup := by
  induction l generalizing p with
  | nil => exact List.nodup_nil
  | cons x xs ih =>
    refine List.nodup_cons.mpr ⟨fun hx => ?_, ih h.2.2⟩
    obtain ⟨a, b, rfl⟩ := List.append_of_mem hx
    have hb := (seg_append.mp h.2.2).2
    have hl := congrArg List.length (h.tail_unique hb)
    simp only [List.length_append, List.length_cons] at hl
    omega

theorem Seg.getLast?_eq_of_mem {p q : Option α} {x : α} {xs ys : List α}
    (h : Seg fwd bwd p xs none) (h' : Seg fwd bwd' q ys none) (hx : x ∈ xs) (hy : x ∈ ys) :
    xs.getLast? = ys.getLast? := by
  obtain ⟨a, b, rfl⟩ := List.append_of_mem hx
  obtain ⟨c, d, rfl⟩ := List.append_of_mem hy
  have he := (seg_append.mp h).2.tail_unique (seg_append.mp h').2
  rw [he, List.getLast?_append, List.getLast?_append, List.getLast?_cons]
  rfl

theorem Seg.of_array (f : ℕ → α) {a n : ℕ} {p s : Option α}
    (hb : ∀ i < n, bwd (f (a + i)) = if i = 0 then p else some (f (a + i - 1)))
    (hf : ∀ i < n, fwd (f (a + i)) = if i + 1 = n then s else some (f (a + i + 1))) :
    Seg fwd bwd p ((List.range' a n).map f) s := by
  induction n generalizing a p with
  | zero => trivial
  | succ n ih =>
    rw [List.range'_succ, List.map_cons, seg_cons]
    refine ⟨?_, ?_, ih (fun i hi => ?_) fun i hi => ?_⟩
    · simpa using hb 0 (by omega)
    · have h := hf 0 (by omega)
      cases n with
      | zero => simpa using h
      | succ n => simpa [List.range'_succ] using h
    · have h := hb (i + 1) (by omega)
      have he : a + (i + 1) = a + 1 + i := by omega
      rw [he] at h
      rw [h, if_neg (by omega)]
      cases i with
      | zero => simp
      | succ i => rw [if_neg (by omega)]
    · have h := hf (i + 1) (by omega)
      have he : a + (i + 1) = a + 1 + i := by omega
      rw [he] at h
      rw [h]
      simp

section

variable [DecidableEq α]

theorem Seg.set_next {p n n' : Option α} {l : List α} (h : Seg fwd bwd p l n) (hd : l.Nodup)
    (hf : ∀ x ∈ l, fwd' x = if l.getLast? = some x then n' else fwd x)
    (hb : ∀ x ∈ l, bwd' x = bwd x) : Seg fwd' bwd' p l n' := by
  induction l generalizing p with
  | nil => trivial
  | cons x xs ih =>
    obtain ⟨h1, h2, h3⟩ := h
    have hx := List.nodup_cons.mp hd
    refine ⟨(hb x (by simp)).trans h1, ?_, ?_⟩
    · rw [hf x (by simp)]
      cases xs with
      | nil => simp
      | cons y ys =>
        have hne : (x :: y :: ys).getLast? ≠ some x := by
          rw [List.getLast?_cons_cons]
          exact fun he => hx.1 (List.mem_of_getLast? he)
        rw [if_neg hne, h2]
        simp
    · refine ih h3 hx.2 (fun y hy => ?_) (fun y hy => hb y (by simp [hy]))
      rw [hf y (by simp [hy])]
      cases xs with
      | nil => simp at hy
      | cons z zs => rw [List.getLast?_cons_cons]

theorem Seg.set_prev {p p' n : Option α} {l : List α} (h : Seg fwd bwd p l n) (hd : l.Nodup)
    (hf : ∀ x ∈ l, fwd' x = fwd x)
    (hb : ∀ x ∈ l, bwd' x = if l.head? = some x then p' else bwd x) : Seg fwd' bwd' p' l n := by
  cases l with
  | nil => trivial
  | cons x xs =>
    obtain ⟨_, h2, h3⟩ := h
    have hx := List.nodup_cons.mp hd
    refine ⟨by simp [hb x], (hf x (by simp)).trans h2, h3.congr ?_ ?_⟩
    · exact fun y hy => hf y (by simp [hy])
    · intro y hy
      rw [hb y (by simp [hy]), if_neg]
      intro he
      exact hx.1 (by simpa [Option.some.inj he] using hy)

theorem Ends.insert {l₁ l₂ : List α} {x : α} (h : Ends fwd bwd (l₁ ++ l₂))
    (hd : (l₁ ++ x :: l₂).Nodup)
    (hf : ∀ y ∈ l₁ ++ l₂, fwd' y = if l₁.getLast? = some y then some x else fwd y)
    (hb : ∀ y ∈ l₁ ++ l₂, bwd' y = if l₂.head? = some y then some x else bwd y)
    (hx : fwd' x = l₂.head?) (hx' : bwd' x = l₁.getLast?) :
    Ends fwd' bwd' (l₁ ++ x :: l₂) := by
  obtain ⟨ha, hb₂⟩ := seg_append.mp h
  obtain ⟨hd1, hd2, hdis⟩ := List.nodup_append.mp hd
  have hd2' := List.nodup_cons.mp hd2
  refine seg_append.mpr ⟨ha.set_next hd1 ?_ ?_, by simp [hx'], by simp [hx], ?_⟩
  · intro y hy
    rw [hf y (by simp [hy])]
    rfl
  · intro y hy
    rw [hb y (by simp [hy]), if_neg]
    exact fun he => hdis y hy y (List.mem_cons_of_mem _ (List.mem_of_head? he)) rfl
  · refine hb₂.set_prev hd2'.2 ?_ ?_
    · intro y hy
      rw [hf y (by simp [hy]), if_neg]
      exact fun he => hdis y (List.mem_of_getLast? he) y (List.mem_cons_of_mem _ hy) rfl
    · exact fun y hy => hb y (by simp [hy])

theorem Ends.remove {l₁ l₂ : List α} {x : α} (h : Ends fwd bwd (l₁ ++ x :: l₂))
    (hd : (l₁ ++ x :: l₂).Nodup)
    (hf : ∀ y ∈ l₁ ++ l₂, fwd' y = if l₁.getLast? = some y then l₂.head? else fwd y)
    (hb : ∀ y ∈ l₁ ++ l₂, bwd' y = if l₂.head? = some y then l₁.getLast? else bwd y) :
    Ends fwd' bwd' (l₁ ++ l₂) := by
  obtain ⟨ha, hxs⟩ := seg_append.mp h
  obtain ⟨hd1, hd2, hdis⟩ := List.nodup_append.mp hd
  have hd2' := List.nodup_cons.mp hd2
  refine seg_append.mpr ⟨ha.set_next hd1 ?_ ?_, hxs.2.2.set_prev hd2'.2 ?_ ?_⟩
  · intro y hy
    rw [hf y (by simp [hy])]
    simp
  · intro y hy
    rw [hb y (by simp [hy]), if_neg]
    exact fun he => hdis y hy y (List.mem_cons_of_mem _ (List.mem_of_head? he)) rfl
  · intro y hy
    rw [hf y (by simp [hy]), if_neg]
    exact fun he => hdis y (List.mem_of_getLast? he) y (List.mem_cons_of_mem _ hy) rfl
  · intro y hy
    rw [hb y (by simp [hy])]
    simp

end

end Linked
