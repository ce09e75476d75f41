import NuttxAvr32.Lib.Runs
import Mathlib.Data.List.Nodup

/-! # Things in places

Every place holds a list. When no two places share an element and no place holds one
twice, an element may be moved from one place to another, taken out or put in.
-/

namespace Apart

variable {κ α : Type*} {f g : κ → List α} {a b : κ} {x : α}

structure Apart (f : κ → List α) : Prop where
  nodup : ∀ a, (f a).Nodup
  unique : ∀ a b x, x ∈ f a → x ∈ f b → a = b

theorem Apart.perm (h : Apart f) (hp : ∀ a, (g a).Perm (f a)) : Apart g where
  nodup a := (hp a).nodup_iff.mpr (h.nodup a)
  unique a b x ha hb := h.unique a b x ((hp a).mem_iff.mp ha) ((hp b).mem_iff.mp hb)

theorem Apart.sublist (h : Apart f) (hs : ∀ a, (g a).Sublist (f a)) : Apart g where
  nodup a := (h.nodup a).sublist (hs a)
  unique a b x ha hb := h.unique a b x ((hs a).subset ha) ((hs b).subset hb)

theorem Apart.put (h : Apart f) (hx : ∀ c, x ∉ f c) (ha : (g a).Perm (x :: f a))
    (hc : ∀ c, c ≠ a → g c = f c) : Apart g := by
  have hmem : ∀ c y, y ∈ g c → y ∈ f c ∨ c = a ∧ y = x := by
    intro c y hy
    by_cases hca : c = a
    · subst hca
      rcases List.mem_cons.mp (ha.mem_iff.mp hy) with h' | h'
      · exact .inr ⟨rfl, h'⟩
      · exact .inl h'
    · rw [hc c hca] at hy
      exact .inl hy
  constructor
  · intro c
    by_cases hca : c = a
    · subst hca
      exact ha.nodup_iff.mpr (List.nodup_cons.mpr ⟨hx c, h.nodup c⟩)
    · rw [hc c hca]
      exact h.nodup c
  · intro c d y hy hy'
    rcases hmem c y hy with h1 | ⟨rfl, rfl⟩ <;> rcases hmem d y hy' with h2 | ⟨h2, h2'⟩
    · exact h.unique c d y h1 h2
    · subst h2'
      exact absurd h1 (hx c)
    · exact absurd h2 (hx d)
    · exact h2.symm

theorem Apart.take (h : Apart f) (ha : (f a).Perm (x :: g a)) (hc : ∀ c, c ≠ a → g c = f c) :
    Apart g ∧ ∀ c, x ∉ g c := by
  have hn := List.nodup_cons.mp (ha.nodup_iff.mp (h.nodup a))
  have hmem : ∀ c y, y ∈ g c → y ∈ f c := by
    intro c y hy
    by_cases hca : c = a
    · subst hca
      exact ha.mem_iff.mpr (List.mem_cons_of_mem _ hy)
    · rwa [hc c hca] at hy
  refine ⟨⟨?_, fun c d y hy hy' => h.unique c d y (hmem c y hy) (hmem d y hy')⟩, ?_⟩
  · intro c
    by_cases hca : c = a
    · subst hca
      exact hn.2
    · rw [hc c hca]
      exact h.nodup c
  · intro c hx
    by_cases hca : c = a
    · subst hca
      exact hn.1 hx
    · exact hca (h.unique c a x (hmem c x hx) (ha.mem_iff.mpr List.mem_cons_self))

theorem Apart.move (h : Apart f) (hab : a ≠ b) (ha : (f a).Perm (x :: g a))
    (hb : (g b).Perm (x :: f b)) (hc : ∀ c, c ≠ a → c ≠ b → g c = f c) : Apart g := by
  classical
  let m : κ → List α := fun c => if c = b then f c else g c
  have hm : ∀ c, c ≠ b → m c = g c := fun c hcb => if_neg hcb
  have hmb : m b = f b := if_pos rfl
  have hma : m a = g a := hm a hab
  have ht : Apart m ∧ ∀ c, x ∉ m c := by
    apply h.take (a := a)
    · rw [hma]
      exact ha
    · intro c hca
      by_cases hcb : c = b
      · rw [hcb, hmb]
      · rw [hm c hcb]
        exact hc c hca hcb
  apply ht.1.put ht.2 (a := b)
  · rw [hmb]
    exact hb
  · intro c hcb
    exact (hm c hcb).symm

end Apart
