import Mathlib.Algebra.Ring.Nat

/-! # Byte-addressed memory with big-endian words

A memory is a total function from addresses to bytes. Words are four bytes,
most significant byte first. Every lemma about a store says what it keeps in
terms of addresses alone, so a client separates its objects by arithmetic.
-/

namespace ByteMemory

abbrev Memory := Nat → UInt8

def loadWord (m : Memory) (a : Nat) : Nat :=
  (m a).toNat * 2 ^ 24 + (m (a + 1)).toNat * 2 ^ 16 + (m (a + 2)).toNat * 2 ^ 8 +
    (m (a + 3)).toNat

def byteOf (v i : Nat) : UInt8 := UInt8.ofNat (v / 256 ^ (3 - i) % 256)

def storeWord (m : Memory) (a v : Nat) : Memory :=
  fun x => if a ≤ x ∧ x < a + 4 then byteOf v (x - a) else m x

def storeByte (m : Memory) (a : Nat) (b : UInt8) : Memory :=
  fun x => if x = a then b else m x

theorem loadWord_lt (m : Memory) (a : Nat) : loadWord m a < 2 ^ 32 := by
  have h0 := (m a).toNat_lt
  have h1 := (m (a + 1)).toNat_lt
  have h2 := (m (a + 2)).toNat_lt
  have h3 := (m (a + 3)).toNat_lt
  unfold loadWord
  omega

theorem byteOf_toNat (v i : Nat) : (byteOf v i).toNat = v / 256 ^ (3 - i) % 256 := by
  have h : v / 256 ^ (3 - i) % 256 < 256 := Nat.mod_lt _ (by decide)
  simp [byteOf, UInt8.toNat_ofNat']

theorem storeWord_of_outside {m : Memory} {a v x : Nat} (h : x < a ∨ a + 4 ≤ x) :
    storeWord m a v x = m x := by
  unfold storeWord
  rw [if_neg (by omega)]

theorem storeByte_of_ne {m : Memory} {a x : Nat} {b : UInt8} (h : x ≠ a) :
    storeByte m a b x = m x := by
  unfold storeByte
  rw [if_neg h]

@[simp] theorem storeByte_same (m : Memory) (a : Nat) (b : UInt8) : storeByte m a b a = b := by
  simp [storeByte]

theorem loadWord_storeWord_mod (m : Memory) (a v : Nat) :
    loadWord (storeWord m a v) a = v % 2 ^ 32 := by
  have e0 : storeWord m a v a = byteOf v 0 := by simp [storeWord]
  have e1 : storeWord m a v (a + 1) = byteOf v 1 := by simp [storeWord]
  have e2 : storeWord m a v (a + 2) = byteOf v 2 := by simp [storeWord]
  have e3 : storeWord m a v (a + 3) = byteOf v 3 := by simp [storeWord]
  unfold loadWord
  rw [e0, e1, e2, e3]
  simp only [byteOf_toNat]
  simp only [Nat.reduceSub, Nat.reducePow, Nat.pow_zero, Nat.div_one]
  omega

theorem loadWord_storeWord {m : Memory} {a v : Nat} (h : v < 2 ^ 32) :
    loadWord (storeWord m a v) a = v := by
  rw [loadWord_storeWord_mod, Nat.mod_eq_of_lt h]

theorem loadWord_congr {m m' : Memory} {a : Nat}
    (h : ∀ x, a ≤ x → x < a + 4 → m' x = m x) : loadWord m' a = loadWord m a := by
  unfold loadWord
  rw [h a (by omega) (by omega), h (a + 1) (by omega) (by omega),
    h (a + 2) (by omega) (by omega), h (a + 3) (by omega) (by omega)]

theorem loadWord_storeWord_of_disjoint {m : Memory} {a b v : Nat}
    (h : b + 4 ≤ a ∨ a + 4 ≤ b) : loadWord (storeWord m a v) b = loadWord m b :=
  loadWord_congr fun _ _ _ => storeWord_of_outside (by omega)

theorem storeWord_comm {m : Memory} {a b v w : Nat} (h : a + 4 ≤ b ∨ b + 4 ≤ a) :
    storeWord (storeWord m a v) b w = storeWord (storeWord m b w) a v := by
  funext x
  by_cases ha : a ≤ x ∧ x < a + 4
  · have hb : x < b ∨ b + 4 ≤ x := by omega
    rw [storeWord_of_outside hb]
    simp only [storeWord, if_pos ha]
  · have ha' : x < a ∨ a + 4 ≤ x := by omega
    rw [storeWord_of_outside ha']
    simp only [storeWord, if_neg ha]

def copyUp (m : Memory) (dest src : Nat) : Nat → Memory
  | 0 => m
  | n + 1 => copyUp (storeByte m dest (m src)) (dest + 1) (src + 1) n

theorem copyUp_of_outside {m : Memory} {dest src n x : Nat} (h : x < dest ∨ dest + n ≤ x) :
    copyUp m dest src n x = m x := by
  induction n generalizing m dest src with
  | zero => rfl
  | succ n ih =>
    rw [copyUp, ih (by omega)]
    exact storeByte_of_ne (by omega)

/-- An ascending copy is exact when the destination starts at or below the
source, or lies above its end: no byte is overwritten before it is read. -/
theorem copyUp_apply {m : Memory} {dest src n i : Nat} (h : dest ≤ src ∨ src + n ≤ dest)
    (hi : i < n) : copyUp m dest src n (dest + i) = m (src + i) := by
  induction n generalizing m dest src i with
  | zero => omega
  | succ n ih =>
    rw [copyUp]
    cases i with
    | zero =>
      rw [copyUp_of_outside (by omega)]
      simp
    | succ i =>
      have e : dest + (i + 1) = dest + 1 + i := by omega
      rw [e, ih (by omega) (by omega), storeByte_of_ne (by omega)]
      congr 1
      omega

def fillUp (m : Memory) (dest : Nat) (b : UInt8) : Nat → Memory
  | 0 => m
  | n + 1 => fillUp (storeByte m dest b) (dest + 1) b n

theorem fillUp_of_outside {m : Memory} {dest n x : Nat} {b : UInt8}
    (h : x < dest ∨ dest + n ≤ x) : fillUp m dest b n x = m x := by
  induction n generalizing m dest with
  | zero => rfl
  | succ n ih =>
    rw [fillUp, ih (by omega)]
    exact storeByte_of_ne (by omega)

theorem fillUp_apply {m : Memory} {dest n x : Nat} {b : UInt8} (h1 : dest ≤ x)
    (h2 : x < dest + n) : fillUp m dest b n x = b := by
  induction n generalizing m dest with
  | zero => omega
  | succ n ih =>
    rw [fillUp]
    by_cases he : x = dest
    · subst he
      rw [fillUp_of_outside (by omega)]
      exact storeByte_same m x b
    · exact ih (by omega) (by omega)

theorem loadWord_zero {m : Memory} {a : Nat} (h : ∀ x, a ≤ x → x < a + 4 → m x = 0) :
    loadWord m a = 0 := by
  unfold loadWord
  rw [h a (by omega) (by omega), h (a + 1) (by omega) (by omega),
    h (a + 2) (by omega) (by omega), h (a + 3) (by omega) (by omega)]
  rfl

end ByteMemory
