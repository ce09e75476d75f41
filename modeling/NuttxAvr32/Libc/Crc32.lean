import Mathlib.Data.BitVec

/-! # The CRC

`lib_crc32.c` takes eight shifts of the register at a time from a table. The register holds the
highest-order term in its lowest bit.
-/

namespace NuttxAvr32.Crc32

abbrev Byte := BitVec 8

def crc32Tab : List (BitVec 32) := [
  0x00000000, 0x77073096, 0xee0e612c, 0x990951ba, 0x076dc419, 0x706af48f, 0xe963a535, 0x9e6495a3,
  0x0edb8832, 0x79dcb8a4, 0xe0d5e91e, 0x97d2d988, 0x09b64c2b, 0x7eb17cbd, 0xe7b82d07, 0x90bf1d91,
  0x1db71064, 0x6ab020f2, 0xf3b97148, 0x84be41de, 0x1adad47d, 0x6ddde4eb, 0xf4d4b551, 0x83d385c7,
  0x136c9856, 0x646ba8c0, 0xfd62f97a, 0x8a65c9ec, 0x14015c4f, 0x63066cd9, 0xfa0f3d63, 0x8d080df5,
  0x3b6e20c8, 0x4c69105e, 0xd56041e4, 0xa2677172, 0x3c03e4d1, 0x4b04d447, 0xd20d85fd, 0xa50ab56b,
  0x35b5a8fa, 0x42b2986c, 0xdbbbc9d6, 0xacbcf940, 0x32d86ce3, 0x45df5c75, 0xdcd60dcf, 0xabd13d59,
  0x26d930ac, 0x51de003a, 0xc8d75180, 0xbfd06116, 0x21b4f4b5, 0x56b3c423, 0xcfba9599, 0xb8bda50f,
  0x2802b89e, 0x5f058808, 0xc60cd9b2, 0xb10be924, 0x2f6f7c87, 0x58684c11, 0xc1611dab, 0xb6662d3d,
  0x76dc4190, 0x01db7106, 0x98d220bc, 0xefd5102a, 0x71b18589, 0x06b6b51f, 0x9fbfe4a5, 0xe8b8d433,
  0x7807c9a2, 0x0f00f934, 0x9609a88e, 0xe10e9818, 0x7f6a0dbb, 0x086d3d2d, 0x91646c97, 0xe6635c01,
  0x6b6b51f4, 0x1c6c6162, 0x856530d8, 0xf262004e, 0x6c0695ed, 0x1b01a57b, 0x8208f4c1, 0xf50fc457,
  0x65b0d9c6, 0x12b7e950, 0x8bbeb8ea, 0xfcb9887c, 0x62dd1ddf, 0x15da2d49, 0x8cd37cf3, 0xfbd44c65,
  0x4db26158, 0x3ab551ce, 0xa3bc0074, 0xd4bb30e2, 0x4adfa541, 0x3dd895d7, 0xa4d1c46d, 0xd3d6f4fb,
  0x4369e96a, 0x346ed9fc, 0xad678846, 0xda60b8d0, 0x44042d73, 0x33031de5, 0xaa0a4c5f, 0xdd0d7cc9,
  0x5005713c, 0x270241aa, 0xbe0b1010, 0xc90c2086, 0x5768b525, 0x206f85b3, 0xb966d409, 0xce61e49f,
  0x5edef90e, 0x29d9c998, 0xb0d09822, 0xc7d7a8b4, 0x59b33d17, 0x2eb40d81, 0xb7bd5c3b, 0xc0ba6cad,
  0xedb88320, 0x9abfb3b6, 0x03b6e20c, 0x74b1d29a, 0xead54739, 0x9dd277af, 0x04db2615, 0x73dc1683,
  0xe3630b12, 0x94643b84, 0x0d6d6a3e, 0x7a6a5aa8, 0xe40ecf0b, 0x9309ff9d, 0x0a00ae27, 0x7d079eb1,
  0xf00f9344, 0x8708a3d2, 0x1e01f268, 0x6906c2fe, 0xf762575d, 0x806567cb, 0x196c3671, 0x6e6b06e7,
  0xfed41b76, 0x89d32be0, 0x10da7a5a, 0x67dd4acc, 0xf9b9df6f, 0x8ebeeff9, 0x17b7be43, 0x60b08ed5,
  0xd6d6a3e8, 0xa1d1937e, 0x38d8c2c4, 0x4fdff252, 0xd1bb67f1, 0xa6bc5767, 0x3fb506dd, 0x48b2364b,
  0xd80d2bda, 0xaf0a1b4c, 0x36034af6, 0x41047a60, 0xdf60efc3, 0xa867df55, 0x316e8eef, 0x4669be79,
  0xcb61b38c, 0xbc66831a, 0x256fd2a0, 0x5268e236, 0xcc0c7795, 0xbb0b4703, 0x220216b9, 0x5505262f,
  0xc5ba3bbe, 0xb2bd0b28, 0x2bb45a92, 0x5cb36a04, 0xc2d7ffa7, 0xb5d0cf31, 0x2cd99e8b, 0x5bdeae1d,
  0x9b64c2b0, 0xec63f226, 0x756aa39c, 0x026d930a, 0x9c0906a9, 0xeb0e363f, 0x72076785, 0x05005713,
  0x95bf4a82, 0xe2b87a14, 0x7bb12bae, 0x0cb61b38, 0x92d28e9b, 0xe5d5be0d, 0x7cdcefb7, 0x0bdbdf21,
  0x86d3d2d4, 0xf1d4e242, 0x68ddb3f8, 0x1fda836e, 0x81be16cd, 0xf6b9265b, 0x6fb077e1, 0x18b74777,
  0x88085ae6, 0xff0f6a70, 0x66063bca, 0x11010b5c, 0x8f659eff, 0xf862ae69, 0x616bffd3, 0x166ccf45,
  0xa00ae278, 0xd70dd2ee, 0x4e048354, 0x3903b3c2, 0xa7672661, 0xd06016f7, 0x4969474d, 0x3e6e77db,
  0xaed16a4a, 0xd9d65adc, 0x40df0b66, 0x37d83bf0, 0xa9bcae53, 0xdebb9ec5, 0x47b2cf7f, 0x30b5ffe9,
  0xbdbdf21c, 0xcabac28a, 0x53b39330, 0x24b4a3a6, 0xbad03605, 0xcdd70693, 0x54de5729, 0x23d967bf,
  0xb3667a2e, 0xc4614ab8, 0x5d681b02, 0x2a6f2b94, 0xb40bbe37, 0xc30c8ea1, 0x5a05df1b, 0x2d02ef8d]

def crc32part (src : List Byte) (crc32val : BitVec 32) : BitVec 32 :=
  src.foldl (fun crc32val b =>
    crc32Tab.getD ((crc32val ^^^ b.setWidth 32) &&& 0xff#32).toNat 0 ^^^ (crc32val >>> 8)) crc32val

def crc32 (src : List Byte) : BitVec 32 := crc32part src 0

/-- The shift register: the polynomial is taken off whenever a term leaves it. -/
def shift (c : BitVec 32) : BitVec 32 :=
  if c.getLsbD 0 then (c >>> 1) ^^^ 0xedb88320#32 else c >>> 1

def shifts : Nat → BitVec 32 → BitVec 32
  | 0, c => c
  | n + 1, c => shifts n (shift c)

def bitwise (src : List Byte) (c : BitVec 32) : BitVec 32 :=
  src.foldl (fun c b => shifts 8 (c ^^^ b.setWidth 32)) c

variable {c d x : BitVec 32} {n : Nat} {w w' : List Byte}

theorem getLsbD_shift (c : BitVec 32) (i : Nat) :
    (shift c).getLsbD i = (c.getLsbD (1 + i) ^^ (c.getLsbD 0 && (0xedb88320#32).getLsbD i)) := by
  unfold shift
  split_ifs with h
  · rw [BitVec.getLsbD_xor, BitVec.getLsbD_ushiftRight, h, Bool.true_and]
  · rw [BitVec.getLsbD_ushiftRight, Bool.eq_false_iff.mpr h, Bool.false_and, Bool.xor_false]

theorem shift_xor (c d : BitVec 32) : shift (c ^^^ d) = shift c ^^^ shift d := by
  refine BitVec.eq_of_getLsbD_eq fun i _ => ?_
  simp only [BitVec.getLsbD_xor, getLsbD_shift]
  cases c.getLsbD 0 <;> cases d.getLsbD 0 <;> cases (0xedb88320#32).getLsbD i <;> simp

theorem shifts_xor (n : Nat) (c d : BitVec 32) :
    shifts n (c ^^^ d) = shifts n c ^^^ shifts n d := by
  induction n generalizing c d with
  | zero => rfl
  | succ n ih => rw [shifts, shift_xor, ih, shifts, shifts]

/-- The highest bit of the polynomial is set, so it shows which term left. -/
theorem shift_injective : Function.Injective shift := by
  intro c d h
  have hbit : ∀ i, (shift c).getLsbD i = (shift d).getLsbD i := fun i => by rw [h]
  have hlow : c.getLsbD 0 = d.getLsbD 0 := by
    have htop : ∀ x : BitVec 32, (shift x).getLsbD 31 = x.getLsbD 0 := fun x => by
      rw [getLsbD_shift, BitVec.getLsbD_of_ge x _ (by decide), Bool.false_xor,
        show (0xedb88320#32).getLsbD 31 = true by decide, Bool.and_true]
    rw [← htop c, ← htop d, hbit]
  refine BitVec.eq_of_getLsbD_eq fun i _ => ?_
  cases i with
  | zero => exact hlow
  | succ i =>
    have hi := hbit i
    rw [getLsbD_shift, getLsbD_shift, hlow] at hi
    rw [Nat.add_comm]
    exact Bool.xor_left_inj.mp hi

theorem shifts_injective (n : Nat) : Function.Injective (shifts n) := by
  induction n with
  | zero => exact fun _ _ h => h
  | succ n ih => exact fun _ _ h => shift_injective (ih h)

theorem shifts_add (n k : Nat) (c : BitVec 32) : shifts (n + k) c = shifts k (shifts n c) := by
  induction n generalizing c with
  | zero => rw [Nat.zero_add, shifts]
  | succ n ih => rw [Nat.succ_add, shifts, ih, shifts]

theorem shifts_clear (h : ∀ i, i < n → c.getLsbD i = false) : shifts n c = c >>> n := by
  induction n generalizing c with
  | zero => simp [shifts]
  | succ n ih =>
    have hshift : shift c = c >>> 1 := if_neg (by rw [h 0 (by omega)]; exact Bool.false_ne_true)
    rw [shifts, hshift, ih fun i hi => ?_, ← BitVec.shiftRight_add, Nat.add_comm]
    rw [BitVec.getLsbD_ushiftRight]
    exact h _ (by omega)

/-- Eight shifts take back a move to the left that loses nothing. -/
theorem shifts_left (h : ∀ i, 24 ≤ i → c.getLsbD i = false) : shifts 8 (c <<< 8) = c := by
  rw [shifts_clear fun i hi => by rw [BitVec.getLsbD_shiftLeft]; simp [hi]]
  refine BitVec.eq_of_getLsbD_eq fun i _ => ?_
  rw [BitVec.getLsbD_ushiftRight, BitVec.getLsbD_shiftLeft, Nat.add_sub_cancel_left]
  by_cases h24 : 24 ≤ i
  · simp [h i h24]
  · simp [show 8 + i < 32 by omega]

theorem crc32Tab_eq :
    crc32Tab = (List.range 256).map fun i => shifts 8 (BitVec.ofNat 32 i) := by
  decide +kernel

theorem table_entry {i : Nat} (h : i < 256) :
    crc32Tab.getD i 0 = shifts 8 (BitVec.ofNat 32 i) := by
  rw [crc32Tab_eq, List.getD_eq_getElem?_getD, List.getElem?_map, List.getElem?_range h]
  rfl

theorem getLsbD_mask (i : Nat) : (0xff#32).getLsbD i = decide (i < 8) := by
  rw [show 0xff#32 = BitVec.ofNat 32 (2 ^ 8 - 1) from rfl, BitVec.getLsbD_ofNat,
    Nat.testBit_two_pow_sub_one, ← Bool.decide_and]
  exact decide_eq_decide.mpr (by omega)

/-- Eight shifts of a register: the table's entry for the low byte, and the rest moved down. -/
theorem shifts_eight (x : BitVec 32) :
    shifts 8 x = crc32Tab.getD (x &&& 0xff#32).toNat 0 ^^^ (x >>> 8) := by
  have hlt : (x &&& 0xff#32).toNat < 256 := by
    rw [BitVec.toNat_and]
    exact Nat.lt_of_le_of_lt Nat.and_le_right (by decide)
  have hsplit : x = (x &&& 0xff#32) ^^^ (x >>> 8 <<< 8) := by
    refine BitVec.eq_of_getLsbD_eq fun i hi => ?_
    simp only [BitVec.getLsbD_xor, BitVec.getLsbD_and, BitVec.getLsbD_shiftLeft,
      BitVec.getLsbD_ushiftRight, getLsbD_mask]
    by_cases h8 : i < 8
    · simp [h8]
    · rw [Nat.add_sub_cancel' (Nat.le_of_not_lt h8)]
      simp [h8, hi]
  have hhigh : shifts 8 (x >>> 8 <<< 8) = x >>> 8 := shifts_left fun i hi => by
    rw [BitVec.getLsbD_ushiftRight, BitVec.getLsbD_of_ge x _ (by omega)]
  have hlow := table_entry hlt
  rw [BitVec.ofNat_toNat, BitVec.setWidth_eq] at hlow
  rw [hlow, ← hhigh, ← shifts_xor, ← hsplit]

/-- The table computes the CRC of the shift register, for any bytes and any start. -/
theorem crc32part_bitwise (src : List Byte) (c : BitVec 32) : crc32part src c = bitwise src c := by
  induction src generalizing c with
  | nil => rfl
  | cons b src ih =>
    have hstep := shifts_eight (c ^^^ b.setWidth 32)
    have hbyte : (c ^^^ b.setWidth 32) >>> 8 = c >>> 8 := by
      refine BitVec.eq_of_getLsbD_eq fun i _ => ?_
      simp only [BitVec.getLsbD_ushiftRight, BitVec.getLsbD_xor, BitVec.getLsbD_setWidth]
      rw [BitVec.getLsbD_of_ge b _ (by omega), Bool.and_false, Bool.xor_false]
    rw [hbyte] at hstep
    rw [crc32part, bitwise, List.foldl_cons, List.foldl_cons, hstep]
    exact ih _

def pack : List Byte → BitVec 32
  | [] => 0
  | b :: w => b.setWidth 32 ^^^ (pack w <<< 8)

theorem pack_high (h : 8 * w.length ≤ n) : (pack w).getLsbD n = false := by
  induction w generalizing n with
  | nil => exact BitVec.getLsbD_zero
  | cons b w ih =>
    rw [List.length_cons] at h
    rw [pack, BitVec.getLsbD_xor, BitVec.getLsbD_shiftLeft, BitVec.getLsbD_setWidth,
      BitVec.getLsbD_of_ge b _ (by omega), ih (by omega), Bool.and_false, Bool.and_false,
      Bool.xor_false]

theorem bitwise_pack (h : w.length ≤ 4) (c : BitVec 32) :
    bitwise w c = shifts (8 * w.length) (c ^^^ pack w) := by
  induction w generalizing c with
  | nil => exact (BitVec.xor_zero).symm
  | cons b w ih =>
    rw [List.length_cons] at h
    have hdown : shifts 8 (pack w <<< 8) = pack w :=
      shifts_left fun i hi => pack_high (by omega)
    have hstep : bitwise (b :: w) c = bitwise w (shifts 8 (c ^^^ b.setWidth 32)) := rfl
    rw [hstep, ih (by omega), pack, List.length_cons, Nat.mul_succ, Nat.add_comm, shifts_add,
      ← BitVec.xor_assoc, shifts_xor 8 _ (pack w <<< 8), hdown]

theorem pack_injective (h : w.length ≤ 4) (hl : w.length = w'.length) (hp : pack w = pack w') :
    w = w' := by
  induction w generalizing w' with
  | nil => exact (List.length_eq_zero_iff.mp hl.symm).symm
  | cons b w ih =>
    cases w' with
    | nil => cases hl
    | cons b' w' =>
      rw [List.length_cons, List.length_cons] at hl
      rw [List.length_cons] at h
      have hbit : ∀ i, (pack (b :: w)).getLsbD i = (pack (b' :: w')).getLsbD i :=
        fun i => by rw [hp]
      simp only [pack, BitVec.getLsbD_xor, BitVec.getLsbD_shiftLeft,
        BitVec.getLsbD_setWidth] at hbit
      have hb : b = b' := BitVec.eq_of_getLsbD_eq fun i hi => by
        have := hbit i
        grind
      refine hb ▸ congrArg _ (ih (by omega) (by omega) (BitVec.eq_of_getLsbD_eq fun i hi => ?_))
      by_cases h24 : i < 24
      · have hi := hbit (i + 8)
        rw [BitVec.getLsbD_of_ge b _ (by omega), BitVec.getLsbD_of_ge b' _ (by omega)] at hi
        grind
      · rw [pack_high (by omega), pack_high (by omega)]

theorem crc32part_injective (src : List Byte) : Function.Injective (crc32part src) := by
  intro c d h
  rw [crc32part_bitwise, crc32part_bitwise] at h
  induction src generalizing c d with
  | nil => exact h
  | cons b src ih => exact (BitVec.xor_left_inj _).mp (shifts_injective 8 (ih h))

theorem crc32part_append (s t : List Byte) (c : BitVec 32) :
    crc32part (s ++ t) c = crc32part t (crc32part s c) :=
  List.foldl_append

/-- However a message is cut into parts, going on from one part to the next gives its CRC, which
is that of the shift register. -/
theorem crc32_parts (parts : List (List Byte)) :
    parts.foldl (fun c part => crc32part part c) 0 = crc32 parts.flatten ∧
      crc32 parts.flatten = bitwise parts.flatten 0 := by
  refine ⟨?_, crc32part_bitwise _ _⟩
  have hrun : ∀ c, parts.foldl (fun c part => crc32part part c) c = crc32part parts.flatten c := by
    induction parts with
    | nil => exact fun _ => rfl
    | cons part parts ih =>
      intro c
      rw [List.foldl_cons, ih, List.flatten_cons, crc32part_append]
  exact hrun 0

/-- A fault in at most four neighbouring bytes always changes the CRC. -/
theorem crc32part_burst (a b : List Byte) (c : BitVec 32) (hw : w.length ≤ 4)
    (hl : w.length = w'.length) (hne : w ≠ w') :
    crc32part (a ++ w ++ b) c ≠ crc32part (a ++ w' ++ b) c := by
  intro h
  simp only [crc32part_append] at h
  have hmid := crc32part_injective b h
  rw [crc32part_bitwise w, crc32part_bitwise w', bitwise_pack hw, bitwise_pack (hl ▸ hw),
    ← hl] at hmid
  exact hne (pack_injective hw hl ((BitVec.xor_right_inj _).mp (shifts_injective _ hmid)))

theorem crc32part_burst_byte : crc32part ([7] ++ [1] ++ [9]) 0 ≠ crc32part ([7] ++ [2] ++ [9]) 0 :=
  crc32part_burst [7] [9] 0 (by decide) rfl (by decide)

end NuttxAvr32.Crc32
