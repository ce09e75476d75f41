import NuttxAvr32.Lib.ByteMemory

/-! # Copying and moving bytes -/

namespace NuttxAvr32.Memmove

open ByteMemory

variable {m : Memory} {dest src n i : Nat}

def memcpy (m : Memory) (dest src n : Nat) : Memory := copyUp m dest src n

/-- The loop of `memmove` that begins at the end. -/
def moveDown (m : Memory) (dest src : Nat) : Nat → Memory
  | 0 => m
  | count + 1 => moveDown (storeByte m (dest + count) (m (src + count))) dest src count

def memmove (m : Memory) (dest src count : Nat) : Memory :=
  if dest ≤ src then copyUp m dest src count else moveDown m dest src count

/-- All bytes of the source as they were before. -/
def moved (m : Memory) (dest src n : Nat) : Memory :=
  fun x => if dest ≤ x ∧ x < dest + n then m (src + (x - dest)) else m x

theorem copyUp_moved (h : dest ≤ src ∨ src + n ≤ dest) :
    copyUp m dest src n = moved m dest src n := by
  funext x
  unfold moved
  split_ifs with hx
  · obtain ⟨i, rfl⟩ := Nat.exists_eq_add_of_le hx.1
    rw [copyUp_apply h (by omega), Nat.add_sub_cancel_left]
  · exact copyUp_of_outside (by omega)

theorem moveDown_moved (h : src < dest) : moveDown m dest src n = moved m dest src n := by
  induction n generalizing m with
  | zero => exact funext fun x => (if_neg (by omega)).symm
  | succ n ih =>
    rw [moveDown, ih]
    funext x
    unfold moved
    by_cases hx : x = dest + n
    · rw [if_neg (by omega), if_pos (by omega), hx, storeByte_same, Nat.add_sub_cancel_left]
    · have hiff : (dest ≤ x ∧ x < dest + n) ↔ (dest ≤ x ∧ x < dest + (n + 1)) := by omega
      simp only [storeByte_of_ne hx, hiff]
      split_ifs
      · exact storeByte_of_ne (by omega)
      · rfl

/-- A byte that the copy reads before it overwrites it. -/
theorem copyUp_early (h : src + i < dest) (hi : i < n) :
    copyUp m dest src n (dest + i) = m (src + i) := by
  induction n generalizing m dest src i with
  | zero => omega
  | succ n ih =>
    rw [copyUp]
    cases i with
    | zero => rw [copyUp_of_outside (by omega), Nat.add_zero, Nat.add_zero, storeByte_same]
    | succ i =>
      rw [show dest + (i + 1) = dest + 1 + i by omega, ih (by omega) (by omega),
        storeByte_of_ne (by omega), show src + 1 + i = src + (i + 1) by omega]

/-- `memmove` moves however the areas overlap. `memcpy` does exactly where the destination does not
begin inside the source. -/
theorem memmove_moves (dest src n : Nat) :
    (∀ m, memmove m dest src n = moved m dest src n) ∧
      ((∀ m, memcpy m dest src n = moved m dest src n) ↔ dest ≤ src ∨ src + n ≤ dest) := by
  refine ⟨fun m => ?_, fun h => ?_, fun h m => copyUp_moved h⟩
  · unfold memmove
    split_ifs with hle
    · exact copyUp_moved (.inl hle)
    · exact moveDown_moved (by omega)
  · by_contra hin
    obtain ⟨d, rfl⟩ := Nat.exists_eq_add_of_lt (show src < dest by omega)
    cases n with
    | zero => omega
    | succ n =>
      -- the byte at `dest` is overwritten with the first one before it is read
      have hat := congrFun (h fun x => if x = src then 1 else 0) (src + d + 1 + 1 + d)
      rw [memcpy, copyUp, copyUp_early (by omega) (by omega), Nat.add_right_comm src 1 d,
        storeByte_same, if_pos rfl, moved, if_pos (by omega), if_neg (by omega)] at hat
      exact absurd hat (by decide)

end NuttxAvr32.Memmove
