import NuttxAvr32.Lib.Fields

/-! # The capacity of a card

The card specific data of a card as the SDIO driver and the SPI driver decode them, the one from
four words and the other from sixteen bytes, with sectors of 512 bytes.
-/

namespace NuttxAvr32.Mmcsd

open Fields

def isBlock (type : Nat) : Bool := type &&& 8 ≠ 0

/-- The words of the card specific data, the most significant one first. -/
def word (csd : BitVec 128) (i : Nat) : Nat := field csd.toNat (96 - 32 * i) 32

def byte (csd : BitVec 128) (i : Nat) : Nat := field csd.toNat (120 - 8 * i) 8

structure MmcsdState where
  dsrimp : Bool
  wrprotect : Bool
  blockshift : Nat
  blocksize : Nat
  nblocks : Nat
  capacity : Nat

def mmcsdDecodeCSD (type : Nat) (csd : Nat → Nat) : MmcsdState :=
  let readbllen := csd 1 >>> 16 &&& 0x0f
  let permwriteprotect := csd 3 >>> 13 &&& 1
  let tmpwriteprotect := csd 3 >>> 12 &&& 1
  let dsrimp : Bool := csd 1 >>> 12 &&& 1 ≠ 0
  let wrprotect : Bool := permwriteprotect ≠ 0 ∨ tmpwriteprotect ≠ 0
  if isBlock type then
    let csize := (csd 1 &&& 0x3f) <<< 16 ||| csd 2 >>> 16
    let capacity := (csize + 1) <<< 19 % 2 ^ 32
    { dsrimp, wrprotect, capacity, blockshift := 9, blocksize := 1 <<< 9, nblocks := capacity >>> 9 }
  else
    let csize := (csd 1 &&& 0x03ff) <<< 2 ||| (csd 2 >>> 30 &&& 3)
    let csizemult := csd 2 >>> 15 &&& 7
    let nblocks := (csize + 1) * 1 <<< (csizemult + 2) % 2 ^ 32
    let blocksize := 1 <<< readbllen % 2 ^ 16
    let capacity := nblocks <<< readbllen % 2 ^ 32
    if 512 < blocksize then
      { dsrimp, wrprotect, capacity, blockshift := 9, blocksize := 512,
        nblocks := nblocks <<< (readbllen - 9) % 2 ^ 32 }
    else { dsrimp, wrprotect, capacity, blockshift := readbllen, blocksize, nblocks }

def csdStruct (csd : Nat → Nat) : Nat := csd 0 >>> 6

def csdReadbllen (csd : Nat → Nat) : Nat := csd 5 &&& 0x0f

def csdCsize (csd : Nat → Nat) : Nat := (csd 6 &&& 3) <<< 10 ||| (csd 7 <<< 2 ||| csd 8 >>> 6)

def csdCsizemult (csd : Nat → Nat) : Nat := (csd 9 &&& 3) <<< 1 ||| csd 10 >>> 7

def csdPermwriteprotect (csd : Nat → Nat) : Nat := csd 14 >>> 5 &&& 1

def csdTmpwriteprotect (csd : Nat → Nat) : Nat := csd 14 >>> 4 &&& 1

def sd20Readbllen : Nat := 9

def sd20Csize (csd : Nat → Nat) : Nat := (csd 7 &&& 0x3f) <<< 16 ||| (csd 8 <<< 8 ||| csd 9)

def sd20Csizemult : Nat := 10 - 2

def sectorsize : Nat := 512

def mmcsdDecodecsd (csd : Nat → Nat) : Nat :=
  let (readbllen, csizemult, csize) :=
    if csdStruct csd ≠ 0 then (sd20Readbllen, sd20Csizemult + 2, sd20Csize csd + 1)
    else (csdReadbllen csd, csdCsizemult csd + 2, csdCsize csd + 1)
  let csizemult := if 9 < readbllen then csizemult + (readbllen - 9) else csizemult
  csize <<< csizemult % 2 ^ 32

/-- Whether the SPI driver takes the card for write protected; `switch` is what the slot reports. -/
def mmcsdCheckwrprotect (switch : Bool) (csd : Nat → Nat) : Bool :=
  switch ∨ csdPermwriteprotect csd ≠ 0 ∨ csdTmpwriteprotect csd ≠ 0

section

variable (csd : BitVec 128)

def CSD_STRUCTURE : Nat := field csd.toNat 126 2

def READ_BL_LEN : Nat := field csd.toNat 80 4

def C_SIZE_MULT : Nat := field csd.toNat 47 3

def C_SIZE : Nat := field csd.toNat 62 12

def C_SIZE_2 : Nat := field csd.toNat 48 22

def PERM_WRITE_PROTECT : Nat := field csd.toNat 13 1

def TMP_WRITE_PROTECT : Nat := field csd.toNat 12 1

def capacity : Nat :=
  if CSD_STRUCTURE csd = 0 then (C_SIZE csd + 1) * 2 ^ (C_SIZE_MULT csd + 2) * 2 ^ READ_BL_LEN csd
  else (C_SIZE_2 csd + 1) * (512 * 1024)

/-- Version 1 with blocks of 512 to 2048 bytes, or version 2 with block addressing. -/
def Valid (type : Nat) : Prop :=
  (CSD_STRUCTURE csd = 0 ∧ isBlock type = false ∧ 9 ≤ READ_BL_LEN csd ∧ READ_BL_LEN csd ≤ 11) ∨
    (CSD_STRUCTURE csd = 1 ∧ isBlock type = true)

end

structure Right (type : Nat) (csd : BitVec 128) : Prop where
  sdio : (mmcsdDecodeCSD type (word csd)).nblocks * (mmcsdDecodeCSD type (word csd)).blocksize =
    capacity csd
  spi : mmcsdDecodecsd (byte csd) * sectorsize = capacity csd
  blocksize : (mmcsdDecodeCSD type (word csd)).blocksize =
    1 <<< (mmcsdDecodeCSD type (word csd)).blockshift
  wrprotect : mmcsdCheckwrprotect false (byte csd) = (mmcsdDecodeCSD type (word csd)).wrprotect

section

variable {csd : BitVec 128} {type : Nat}

theorem word_field {i s k : Nat} (h : s + k ≤ 32) :
    word csd i >>> s &&& (2 ^ k - 1) = field csd.toNat (96 - 32 * i + s) k := by
  rw [shiftRight_and]
  exact field_field h

theorem byte_field {i s k : Nat} (h : s + k ≤ 8) :
    byte csd i >>> s &&& (2 ^ k - 1) = field csd.toNat (120 - 8 * i + s) k := by
  rw [shiftRight_and]
  exact field_field h

theorem word_readbllen : word csd 1 >>> 16 &&& 0x0f = READ_BL_LEN csd :=
  word_field (s := 16) (k := 4) (by decide)

theorem word_csize : (word csd 1 &&& 0x03ff) <<< 2 ||| (word csd 2 >>> 30 &&& 3) = C_SIZE csd := by
  have hlow : word csd 2 >>> 30 &&& 3 = field csd.toNat 62 2 :=
    word_field (s := 30) (k := 2) (by decide)
  have hhigh : word csd 1 &&& 0x03ff = field csd.toNat 64 10 :=
    word_field (s := 0) (k := 10) (by decide)
  rw [hlow, hhigh, shiftLeft_or field_lt]
  exact (field_append (l := 62) (m := 2) (k := 10)).symm

theorem word_csizemult : word csd 2 >>> 15 &&& 7 = C_SIZE_MULT csd :=
  word_field (s := 15) (k := 3) (by decide)

theorem word_csize_2 : (word csd 1 &&& 0x3f) <<< 16 ||| word csd 2 >>> 16 = C_SIZE_2 csd := by
  have hlow : word csd 2 >>> 16 = field csd.toNat 48 16 :=
    field_shiftRight (l := 32) (s := 16) (k := 16)
  have hhigh : word csd 1 &&& 0x3f = field csd.toNat 64 6 :=
    word_field (s := 0) (k := 6) (by decide)
  rw [hlow, hhigh, shiftLeft_or field_lt]
  exact (field_append (l := 48) (m := 16) (k := 6)).symm

theorem byte_struct : csdStruct (byte csd) = CSD_STRUCTURE csd :=
  field_shiftRight (l := 120) (s := 6) (k := 2)

theorem byte_readbllen : csdReadbllen (byte csd) = READ_BL_LEN csd :=
  byte_field (s := 0) (k := 4) (by decide)

theorem byte_csize : csdCsize (byte csd) = C_SIZE csd := by
  have hlow : byte csd 8 >>> 6 = field csd.toNat 62 2 :=
    field_shiftRight (l := 56) (s := 6) (k := 2)
  have hhigh : byte csd 6 &&& 3 = field csd.toNat 72 2 :=
    byte_field (s := 0) (k := 2) (by decide)
  have hmid : byte csd 7 <<< 2 ||| byte csd 8 >>> 6 = field csd.toNat 62 10 := by
    rw [hlow, shiftLeft_or field_lt]
    exact (field_append (l := 62) (m := 2) (k := 8)).symm
  unfold csdCsize
  rw [hmid, hhigh, shiftLeft_or field_lt]
  exact (field_append (l := 62) (m := 10) (k := 2)).symm

theorem byte_csizemult : csdCsizemult (byte csd) = C_SIZE_MULT csd := by
  have hlow : byte csd 10 >>> 7 = field csd.toNat 47 1 :=
    field_shiftRight (l := 40) (s := 7) (k := 1)
  have hhigh : byte csd 9 &&& 3 = field csd.toNat 48 2 :=
    byte_field (s := 0) (k := 2) (by decide)
  unfold csdCsizemult
  rw [hlow, hhigh, shiftLeft_or field_lt]
  exact (field_append (l := 47) (m := 1) (k := 2)).symm

theorem byte_csize_2 : sd20Csize (byte csd) = C_SIZE_2 csd := by
  have hhigh : byte csd 7 &&& 0x3f = field csd.toNat 64 6 :=
    byte_field (s := 0) (k := 6) (by decide)
  have hlow : byte csd 8 <<< 8 ||| byte csd 9 = field csd.toNat 48 16 := by
    have hlt : byte csd 9 < 2 ^ 8 := field_lt
    rw [shiftLeft_or hlt]
    exact (field_append (l := 48) (m := 8) (k := 8)).symm
  unfold sd20Csize
  rw [hlow, hhigh, shiftLeft_or field_lt]
  exact (field_append (l := 48) (m := 16) (k := 6)).symm

theorem wrprotect_eq :
    mmcsdCheckwrprotect false (byte csd) = (mmcsdDecodeCSD type (word csd)).wrprotect := by
  have hperm : word csd 3 >>> 13 &&& 1 = PERM_WRITE_PROTECT csd :=
    word_field (s := 13) (k := 1) (by decide)
  have htmp : word csd 3 >>> 12 &&& 1 = TMP_WRITE_PROTECT csd :=
    word_field (s := 12) (k := 1) (by decide)
  have hperm' : csdPermwriteprotect (byte csd) = PERM_WRITE_PROTECT csd :=
    byte_field (s := 5) (k := 1) (by decide)
  have htmp' : csdTmpwriteprotect (byte csd) = TMP_WRITE_PROTECT csd :=
    byte_field (s := 4) (k := 1) (by decide)
  have hstate : (mmcsdDecodeCSD type (word csd)).wrprotect =
      decide (word csd 3 >>> 13 &&& 1 ≠ 0 ∨ word csd 3 >>> 12 &&& 1 ≠ 0) := by
    unfold mmcsdDecodeCSD
    dsimp only
    split
    · rfl
    · split <;> rfl
  unfold mmcsdCheckwrprotect
  rw [hstate, hperm, htmp, hperm', htmp']
  simp

end

section

variable {csd : BitVec 128} {type : Nat}

theorem blocks_lt (hl' : READ_BL_LEN csd ≤ 11) :
    (C_SIZE csd + 1) * 2 ^ (C_SIZE_MULT csd + 2) < 2 ^ 32 ∧
    (C_SIZE csd + 1) * 2 ^ (C_SIZE_MULT csd + 2) * 2 ^ (READ_BL_LEN csd - 9) < 2 ^ 32 := by
  have hc : C_SIZE csd + 1 ≤ 2 ^ 12 := field_lt (w := 12)
  have hm : C_SIZE_MULT csd < 2 ^ 3 := field_lt
  have hmult : 2 ^ (C_SIZE_MULT csd + 2) ≤ 2 ^ 9 := Nat.pow_le_pow_right (by decide) (by omega)
  have hshift : 2 ^ (READ_BL_LEN csd - 9) ≤ 2 ^ 2 := Nat.pow_le_pow_right (by decide) (by omega)
  have hblocks := Nat.mul_le_mul hc hmult
  have hall := Nat.mul_le_mul hblocks hshift
  exact ⟨Nat.lt_of_le_of_lt hblocks (by decide), Nat.lt_of_le_of_lt hall (by decide)⟩

theorem sdio_version1 (ht : isBlock type = false) (hl : 9 ≤ READ_BL_LEN csd)
    (hl' : READ_BL_LEN csd ≤ 11) :
    (mmcsdDecodeCSD type (word csd)).nblocks =
        (C_SIZE csd + 1) * 2 ^ (C_SIZE_MULT csd + 2) * 2 ^ (READ_BL_LEN csd - 9) ∧
      (mmcsdDecodeCSD type (word csd)).blocksize = 512 ∧
      (mmcsdDecodeCSD type (word csd)).blockshift = 9 := by
  obtain ⟨hn, hn'⟩ := blocks_lt hl'
  have hsize : 2 ^ READ_BL_LEN csd < 2 ^ 16 := Nat.pow_lt_pow_right (by decide) (by omega)
  have hblock : ¬ isBlock type = true := by rw [ht]; decide
  unfold mmcsdDecodeCSD
  dsimp only
  rw [if_neg hblock, word_readbllen, word_csize, word_csizemult, Nat.one_shiftLeft,
    Nat.one_shiftLeft, Nat.mod_eq_of_lt hn, Nat.mod_eq_of_lt hsize, Nat.shiftLeft_eq,
    Nat.shiftLeft_eq, Nat.mod_eq_of_lt hn']
  by_cases h9 : READ_BL_LEN csd = 9
  · rw [h9, if_neg (by decide)]
    exact ⟨(Nat.mul_one _).symm, rfl, rfl⟩
  · have hlt : 2 ^ 9 < 2 ^ READ_BL_LEN csd := Nat.pow_lt_pow_right (by decide) (by omega)
    have hlt : 512 < 2 ^ READ_BL_LEN csd := hlt
    rw [if_pos hlt]
    exact ⟨rfl, rfl, rfl⟩

theorem spi_version1 (hs : CSD_STRUCTURE csd = 0) (hl : 9 ≤ READ_BL_LEN csd)
    (hl' : READ_BL_LEN csd ≤ 11) : mmcsdDecodecsd (byte csd) =
      (C_SIZE csd + 1) * 2 ^ (C_SIZE_MULT csd + 2) * 2 ^ (READ_BL_LEN csd - 9) := by
  obtain ⟨-, hn'⟩ := blocks_lt hl'
  have hmult : (if 9 < READ_BL_LEN csd then C_SIZE_MULT csd + 2 + (READ_BL_LEN csd - 9)
      else C_SIZE_MULT csd + 2) = C_SIZE_MULT csd + 2 + (READ_BL_LEN csd - 9) := by
    split <;> omega
  unfold mmcsdDecodecsd
  rw [byte_struct, if_neg (not_not.mpr hs), byte_readbllen, byte_csizemult, byte_csize]
  dsimp only
  rw [hmult, Nat.shiftLeft_eq, Nat.pow_add, ← Nat.mul_assoc, Nat.mod_eq_of_lt hn']

theorem right_version1 (hs : CSD_STRUCTURE csd = 0) (ht : isBlock type = false)
    (hl : 9 ≤ READ_BL_LEN csd) (hl' : READ_BL_LEN csd ≤ 11) : Right type csd := by
  obtain ⟨hn, hsize, hshift⟩ := sdio_version1 ht hl hl'
  have hcap : capacity csd = (C_SIZE csd + 1) * 2 ^ (C_SIZE_MULT csd + 2) *
      2 ^ (READ_BL_LEN csd - 9) * 512 := by
    rw [Nat.mul_assoc _ _ 512, show 512 = 2 ^ 9 from rfl, ← Nat.pow_add, Nat.sub_add_cancel hl]
    exact if_pos hs
  refine ⟨?_, ?_, ?_, wrprotect_eq⟩
  · rw [hn, hsize, hcap]
  · rw [spi_version1 hs hl hl', hcap]
    rfl
  · rw [hsize, hshift]
    rfl

theorem sdio_version2 (ht : isBlock type = true) :
    (mmcsdDecodeCSD type (word csd)).nblocks = (C_SIZE_2 csd + 1) * 2 ^ 19 % 2 ^ 32 / 2 ^ 9 ∧
      (mmcsdDecodeCSD type (word csd)).blocksize = 512 ∧
      (mmcsdDecodeCSD type (word csd)).blockshift = 9 := by
  unfold mmcsdDecodeCSD
  dsimp only
  rw [if_pos ht, word_csize_2]
  refine ⟨?_, rfl, rfl⟩
  show ((C_SIZE_2 csd + 1) <<< 19 % 2 ^ 32) >>> 9 = _
  rw [Nat.shiftRight_eq_div_pow, Nat.shiftLeft_eq]

theorem spi_version2 (hs : CSD_STRUCTURE csd = 1) :
    mmcsdDecodecsd (byte csd) = (C_SIZE_2 csd + 1) * 2 ^ 10 % 2 ^ 32 := by
  have hne : CSD_STRUCTURE csd ≠ 0 := by omega
  unfold mmcsdDecodecsd
  rw [byte_struct, if_pos hne, byte_csize_2]
  dsimp only
  rw [if_neg (by decide), Nat.shiftLeft_eq]
  rfl

theorem right_version2 (hs : CSD_STRUCTURE csd = 1) (ht : isBlock type = true) :
    Right type csd ↔ C_SIZE_2 csd + 1 < 2 ^ 13 := by
  obtain ⟨hn, hsize, hshift⟩ := sdio_version2 ht
  have hne : CSD_STRUCTURE csd ≠ 0 := by omega
  have hcap : capacity csd = (C_SIZE_2 csd + 1) * (512 * 1024) := if_neg hne
  constructor
  · intro R
    have h := R.sdio
    rw [hn, hsize, hcap] at h
    omega
  · intro h
    refine ⟨?_, ?_, ?_, wrprotect_eq⟩
    · rw [hn, hsize, hcap]
      omega
    · rw [spi_version2 hs, hcap]
      unfold sectorsize
      omega
    · rw [hsize, hshift]
      rfl

/-- Both drivers decode a card right if and only if it is of version 1, or holds less than 4 GiB. -/
theorem capacity_right_iff (h : Valid csd type) :
    Right type csd ↔ (CSD_STRUCTURE csd = 1 → C_SIZE_2 csd + 1 < 2 ^ 13) := by
  rcases h with ⟨hs, ht, hl, hl'⟩ | ⟨hs, ht⟩
  · exact iff_of_true (right_version1 hs ht hl hl') fun h1 => absurd (hs.symm.trans h1) (by decide)
  · rw [right_version2 hs ht]
    exact ⟨fun h _ => h, fun h => h hs⟩

def card (csize : Nat) : BitVec 128 := BitVec.ofNat 128 (2 ^ 126 + csize * 2 ^ 48)

theorem capacity_right_two_gigabytes : Right 12 (card 4095) :=
  (capacity_right_iff (.inr ⟨by decide, by decide⟩)).mpr fun _ => by decide

/-- A card of 4 GiB has no blocks for the SDIO driver. -/
theorem capacity_lost : ¬ ∀ type csd, Valid csd type → Right type csd := by
  intro h
  have hsdio := (h 12 (card 8191) (.inr ⟨by decide, by decide⟩)).sdio
  exact absurd hsdio (by decide)

end

end NuttxAvr32.Mmcsd
