import NuttxAvr32.Lib.ByteMemory

/-! # Characteristics of the memory manager

The constants and macros of `mm_internal.h` in the configuration without
`CONFIG_SMALL_MEMORY`, and the node fields as words of the flat memory. A
`size_t` is a natural number below `2 ^ 32`; `NULL` is address zero.
-/

namespace NuttxAvr32.Mm

open ByteMemory

@[simp] abbrev mmMinShift : Nat := 4
@[simp] abbrev mmMaxShift : Nat := 22
@[simp] abbrev mmMinChunk : Nat := 2 ^ mmMinShift
@[simp] abbrev mmMaxChunk : Nat := 2 ^ mmMaxShift
@[simp] abbrev mmNnodes : Nat := mmMaxShift - mmMinShift + 1
@[simp] abbrev mmGranMask : Nat := mmMinChunk - 1
@[simp] abbrev sizeofMmAllocnode : Nat := 8
@[simp] abbrev sizeofMmFreenode : Nat := 16

/-- The value a `size_t` computation leaves in 32 bits. -/
def wrap (x : Nat) : Nat := x % 2 ^ 32

def andNot (x mask : Nat) : Nat := x - (x &&& mask)

def mmAlignUp (a : Nat) : Nat := andNot (wrap (a + mmGranMask)) mmGranMask

def mmAlignDown (a : Nat) : Nat := andNot a mmGranMask

/-! ## The allocation flag

`MM_ALLOC_BIT` is bit 31 of the `preceding` word. -/

def mmAllocBit : Nat := 2 ^ 31

def isAllocated (w : Nat) : Bool := decide (w / 2 ^ 31 % 2 = 1)

def clearAlloc (w : Nat) : Nat := w % 2 ^ 31

def setAlloc (w : Nat) : Nat := w % 2 ^ 31 + 2 ^ 31

def keepAlloc (n w : Nat) : Nat := if isAllocated w then setAlloc n else n

section

variable (m : Memory) (node : Nat)

def nodeSize : Nat := loadWord m node
def preceding : Nat := loadWord m (node + 4)
def flink : Nat := loadWord m (node + 8)
def blink : Nat := loadWord m (node + 12)

def setSize (v : Nat) : Memory := storeWord m node v
def setPreceding (v : Nat) : Memory := storeWord m (node + 4) v
def setFlink (v : Nat) : Memory := storeWord m (node + 8) v
def setBlink (v : Nat) : Memory := storeWord m (node + 12) v

end

/-- `&g_nodelist[ndx]` for the array at address `g`. -/
def nodeAt (g ndx : Nat) : Nat := g + sizeofMmFreenode * ndx

/-- Iterations allowed to a loop over a `NULL`-terminated list. Nodes have
distinct 32-bit addresses, so a loop that runs longer never ends. -/
def loopBound : Nat := 2 ^ 32

/-- `while (size > 1) { ndx++; size >>= 1; }`, at most once per bit. -/
def size2ndxLoop : Nat → Nat → Nat → Nat
  | 0, _, ndx => ndx
  | bits + 1, size, ndx => if size > 1 then size2ndxLoop bits (size >>> 1) (ndx + 1) else ndx

def mmSize2ndx (size : Nat) : Nat :=
  if size ≥ mmMaxChunk then mmNnodes - 1 else size2ndxLoop 32 (size >>> mmMinShift) 0

theorem andNot_two_pow (x k : Nat) : andNot x (2 ^ k - 1) = x / 2 ^ k * 2 ^ k := by
  rw [andNot, Nat.and_two_pow_sub_one_eq_mod]
  have h := Nat.div_add_mod x (2 ^ k)
  rw [Nat.mul_comm] at h
  omega

theorem mmAlignUp_eq {a : Nat} (h : a + 15 < 2 ^ 32) : mmAlignUp a = (a + 15) / 16 * 16 := by
  have hw : wrap (a + mmGranMask) = a + 15 := by
    simp only [wrap, mmGranMask, mmMinChunk, mmMinShift]
    omega
  rw [mmAlignUp, hw]
  exact andNot_two_pow (a + 15) 4

theorem mmAlignDown_eq (a : Nat) : mmAlignDown a = a / 16 * 16 := andNot_two_pow a 4

theorem isAllocated_add {p : Nat} (b : Bool) (hp : p < 2 ^ 31) :
    isAllocated (p + if b then mmAllocBit else 0) = b := by
  cases b <;> simp [isAllocated, mmAllocBit] <;> omega

theorem clearAlloc_add {p : Nat} (b : Bool) (hp : p < 2 ^ 31) :
    clearAlloc (p + if b then mmAllocBit else 0) = p := by
  cases b <;> simp [clearAlloc, mmAllocBit] <;> omega

theorem setAlloc_of_lt {p : Nat} (hp : p < 2 ^ 31) : setAlloc p = p + mmAllocBit := by
  simp only [setAlloc, mmAllocBit]
  omega

theorem keepAlloc_of_lt {n w : Nat} (hn : n < 2 ^ 31) :
    keepAlloc n w = n + if isAllocated w then mmAllocBit else 0 := by
  unfold keepAlloc
  split <;> simp [setAlloc_of_lt hn]

theorem size2ndxLoop_eq (bits size ndx : Nat) (h : size < 2 ^ bits) :
    size2ndxLoop bits size ndx = ndx + Nat.log2 size := by
  induction bits generalizing size ndx with
  | zero =>
      have : size = 0 := by simpa using h
      subst this
      simp [size2ndxLoop]
  | succ bits ih =>
      rw [size2ndxLoop, Nat.log2_def]
      by_cases hs : size > 1
      · have hh : size >>> 1 < 2 ^ bits := by
          rw [Nat.shiftRight_eq_div_pow]
          have := Nat.pow_succ 2 bits
          omega
        rw [if_pos hs, if_pos (by omega), ih _ _ hh, Nat.shiftRight_eq_div_pow]
        simp only [Nat.pow_one]
        omega
      · rw [if_neg hs, if_neg (by omega)]
        rfl

theorem mmSize2ndx_bounds {size : Nat} (h16 : 16 ≤ size) (hmax : size < 2 ^ 22) :
    mmSize2ndx size ≤ 17 ∧ 16 * 2 ^ mmSize2ndx size ≤ size ∧
      size < 16 * 2 ^ (mmSize2ndx size + 1) := by
  have hlt : size / 16 < 2 ^ 18 := by omega
  have hne : size / 16 ≠ 0 := by omega
  have he : mmSize2ndx size = Nat.log2 (size / 16) := by
    have hmin : ¬ size ≥ mmMaxChunk := by simp only [mmMaxChunk, mmMaxShift]; omega
    have hsh : size >>> mmMinShift = size / 16 := by
      simp [mmMinShift, Nat.shiftRight_eq_div_pow]
    rw [mmSize2ndx, if_neg hmin, hsh, size2ndxLoop_eq _ _ _ (by omega), Nat.zero_add]
  rw [he]
  have h1 := Nat.log2_self_le hne
  have h2 := Nat.lt_log2_self (n := size / 16)
  have h3 : Nat.log2 (size / 16) < 18 := (Nat.log2_lt hne).mpr hlt
  rw [Nat.pow_succ] at h2 ⊢
  omega

theorem mmSize2ndx_max {size : Nat} (hmax : 2 ^ 22 ≤ size) : mmSize2ndx size = 18 := by
  have h : size ≥ mmMaxChunk := by simpa [mmMaxChunk, mmMaxShift] using hmax
  rw [mmSize2ndx, if_pos h]
  rfl

end NuttxAvr32.Mm
