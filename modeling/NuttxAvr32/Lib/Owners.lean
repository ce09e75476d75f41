import Mathlib.Data.List.Perm.Basic
import Mathlib.Data.List.Nodup

/-! # Lists with owners

`owned owners f` is everything that the lists `f o` of the given owners hold. When
one of these lists changes, the whole changes by the same elements.
-/

namespace Owners

variable {ι α : Type*} {owners : List ι} {f : ι → List α} {o : ι} {x : α}
  {l : List α}

def owned (owners : List ι) (f : ι → List α) : List α := owners.flatMap f

theorem mem_owned : x ∈ owned owners f ↔ ∃ o ∈ owners, x ∈ f o := List.mem_flatMap

theorem owned_congr {g : ι → List α} (h : ∀ o ∈ owners, f o = g o) :
    owned owners f = owned owners g := by
  induction owners with
  | nil => rfl
  | cons p owners ih =>
      show f p ++ owned owners f = g p ++ owned owners g
      rw [h p List.mem_cons_self, ih fun q hq => h q (List.mem_cons_of_mem _ hq)]

variable [DecidableEq ι]

theorem owned_update_of_not_mem (h : o ∉ owners) :
    owned owners (Function.update f o l) = owned owners f := by
  apply owned_congr
  intro p hp
  apply Function.update_of_ne
  intro he
  exact h (he ▸ hp)

theorem owned_perm (h : o ∈ owners) :
    (owned owners f).Perm (f o ++ owned (owners.erase o) f) :=
  (List.perm_cons_erase h).flatMap_right f

theorem owned_update_perm (hn : owners.Nodup) (h : o ∈ owners) :
    (owned owners (Function.update f o l)).Perm (l ++ owned (owners.erase o) f) := by
  have ho : o ∉ owners.erase o := fun hm => (hn.mem_erase_iff.mp hm).1 rfl
  have hp := owned_perm (f := Function.update f o l) h
  rwa [Function.update_self, owned_update_of_not_mem ho] at hp

theorem owned_push (hn : owners.Nodup) (h : o ∈ owners) :
    (owned owners (Function.update f o (f o ++ [x]))).Perm (x :: owned owners f) := by
  have hl : (f o ++ [x] ++ owned (owners.erase o) f).Perm
      (x :: (f o ++ owned (owners.erase o) f)) := by
    rw [List.append_assoc]
    exact List.perm_middle
  exact (owned_update_perm hn h).trans (hl.trans ((owned_perm h).symm.cons x))

theorem owned_erase [DecidableEq α] (hn : owners.Nodup) (h : o ∈ owners) (hx : x ∈ f o) :
    (owned owners f).Perm (x :: owned owners (Function.update f o ((f o).erase x))) := by
  have hl : (f o ++ owned (owners.erase o) f).Perm
      (x :: ((f o).erase x ++ owned (owners.erase o) f)) :=
    (List.perm_cons_erase hx).append_right _
  exact (owned_perm h).trans (hl.trans ((owned_update_perm hn h).symm.cons x))

end Owners
