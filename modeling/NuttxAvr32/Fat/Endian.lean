import NuttxAvr32.Fat.Format
import NuttxAvr32.Lib.LittleEndian

/-! # The accessors of both configurations

With `CONFIG_ENDIAN_BIG` all fields go through `fat_getuint16` and its kin. Without it the
aligned fields are accessed as they lie in memory.
-/

namespace NuttxAvr32.Fat.Config

open LittleEndian

inductive Endian
  | little
  | big
deriving DecidableEq, Repr

def byteOf (e : Endian) (v j : Nat) : Nat :=
  match e with
  | .little => v / 2 ^ (8 * j) % 2 ^ 8
  | .big => v / 2 ^ (8 * (1 - j)) % 2 ^ 8

/-- Half word `j` of a 32-bit variable in memory; `beyond` lies behind it. -/
def halfOf (e : Endian) (beyond v j : Nat) : Nat :=
  if j ≥ 2 then beyond
  else
    match e with
    | .little => v / 2 ^ (16 * j) % 2 ^ 16
    | .big => v / 2 ^ (16 * (1 - j)) % 2 ^ 16

def fatGetuint16 (e : Endian) (p : Sector) (i : Nat) : Nat :=
  match e with
  | .big => (p i).toNat * 2 ^ 8 + (p (i + 1)).toNat
  | .little => (p (i + 1)).toNat * 2 ^ 8 + (p i).toNat

def fatGetuint32 (e : Endian) (p : Sector) (i : Nat) : Nat :=
  match e with
  | .big => fatGetuint16 e p i * 2 ^ 16 + fatGetuint16 e p (i + 2)
  | .little => fatGetuint16 e p (i + 2) * 2 ^ 16 + fatGetuint16 e p i

def fatPutuint16 (e : Endian) (p : Sector) (i v : Nat) : Sector :=
  match e with
  | .big => ubytePut (ubytePut p i (byteOf e v 1)) (i + 1) (byteOf e v 0)
  | .little => ubytePut (ubytePut p i (byteOf e v 0)) (i + 1) (byteOf e v 1)

def fatPutuint32 (e : Endian) (beyond : Nat) (p : Sector) (i v : Nat) : Sector :=
  match e with
  | .big =>
      fatPutuint16 e (fatPutuint16 e p i (halfOf e beyond v 2)) (i + 2) (halfOf e beyond v 0)
  | .little =>
      fatPutuint16 e (fatPutuint16 e p i (halfOf e beyond v 0)) (i + 2) (halfOf e beyond v 2)

/-- `UINT16_VAL` and the other direct accesses, on a little-endian target. -/
def uint16Val (p : Sector) (i : Nat) : Nat := value 2 p i

def uint32Val (p : Sector) (i : Nat) : Nat := value 4 p i

def uint16Put (p : Sector) (i v : Nat) : Sector := copy p i [v % 2 ^ 8, v / 2 ^ 8 % 2 ^ 8]

def uint32Put (p : Sector) (i v : Nat) : Sector :=
  copy p i [v % 2 ^ 8, v / 2 ^ 8 % 2 ^ 8, v / 2 ^ 16 % 2 ^ 8, v / 2 ^ 24 % 2 ^ 8]

def alignedGet16 (e : Endian) (p : Sector) (i : Nat) : Nat :=
  match e with
  | .big => fatGetuint16 e p i
  | .little => uint16Val p i

def alignedGet32 (e : Endian) (p : Sector) (i : Nat) : Nat :=
  match e with
  | .big => fatGetuint32 e p i
  | .little => uint32Val p i

def alignedPut16 (e : Endian) (p : Sector) (i v : Nat) : Sector :=
  match e with
  | .big => fatPutuint16 e p i v
  | .little => uint16Put p i v

def alignedPut32 (e : Endian) (beyond : Nat) (p : Sector) (i v : Nat) : Sector :=
  match e with
  | .big => fatPutuint32 e beyond p i v
  | .little => uint32Put p i v

section

variable (e : Endian) (p : Sector)

def mbrGetbytespersec : Nat := fatGetuint16 e p 11
def mbrGetrootentcnt : Nat := fatGetuint16 e p 17
def mbrGettotsec16 : Nat := fatGetuint16 e p 19
def mbrGetresvdseccount : Nat := alignedGet16 e p 14
def mbrGetfatsz16 : Nat := alignedGet16 e p 22
def mbrGettotsec32 : Nat := alignedGet32 e p 32
def mbrGetfatsz32 : Nat := alignedGet32 e p 36
def mbrGetrootclus : Nat := alignedGet32 e p 44
def mbrGetfsinfo : Nat := alignedGet16 e p 48
def mbrGetsignature : Nat := alignedGet16 e p 510

end

section

variable (e : Endian) (T : Target) (fmt : FatFormat) (var : FatVar)

def initmbr16 (p : Sector) : Sector :=
  let p := alignedPut16 e p 22 (var.fvNfatsects % 2 ^ 16)
  let p := ubytePut p 38 0x29
  let p := fatPutuint32 e (T.beyond 39) p 39 fmt.ffVolumeid
  let p := copy p 43 (List.ofFn fmt.ffVolumelabel)
  let p :=
    copy p 54 [0x46, 0x41, 0x54, 0x31, if fmt.ffFattype = 12 then 0x32 else 0x36, 0x20, 0x20, 0x20]
  copy p 62 var.fvBootcode

def initmbr32 (p : Sector) : Sector :=
  let p := alignedPut32 e (T.beyond 36) p 36 var.fvNfatsects
  let p := alignedPut32 e (T.beyond 44) p 44 2
  let p := alignedPut16 e p 48 1
  let p := alignedPut16 e p 50 fmt.ffBackupboot
  let p := ubytePut p 66 0x29
  let p := fatPutuint32 e (T.beyond 67) p 67 fmt.ffVolumeid
  let p := copy p 71 (List.ofFn fmt.ffVolumelabel)
  let p := copy p 82 [0x46, 0x41, 0x54, 0x33, 0x32, 0x20, 0x20, 0x20]
  copy p 62 var.fvBootcode

def initmbrHead : Sector :=
  let p : Sector := fun _ => 0
  let p := copy p 0 var.fvJump
  let p := copy p 3 [0x4e, 0x55, 0x54, 0x54, 0x58, 0x20, 0x20, 0x20, 0]
  let p := fatPutuint16 e p 11 (var.fvSectorsize % 2 ^ 16)
  let p := ubytePut p 13 (2 ^ fmt.ffClustshift % 2 ^ 8)
  let p := alignedPut16 e p 14 fmt.ffRsvdseccount
  let p := ubytePut p 16 fmt.ffNfats
  let p := fatPutuint16 e p 17 fmt.ffRootdirentries
  let p :=
    if 65536 ≤ fmt.ffNsectors then alignedPut32 e (T.beyond 32) p 32 fmt.ffNsectors
    else fatPutuint16 e p 19 fmt.ffNsectors
  let p := ubytePut p 21 0xf8
  let p := alignedPut16 e p 24 63
  let p := alignedPut16 e p 26 255
  alignedPut32 e (T.beyond 28) p 28 fmt.ffHidsec

def mkfatfsInitmbr : Sector :=
  let p := initmbrHead e T fmt var
  let p := if fmt.ffFattype ≠ 32 then initmbr16 e T fmt var p else initmbr32 e T fmt var p
  alignedPut16 e p 510 bootSignature16

end

section

variable (p : Sector) (i : Nat) {v : Nat}

theorem fatPutuint16_big : fatPutuint16 .big p i v = Fat.fatPutuint16 p i v := by
  unfold fatPutuint16 Fat.fatPutuint16 byteOf
  dsimp only
  rw [Nat.sub_self, Nat.mul_zero, Nat.pow_zero, Nat.div_one]

theorem fatPutuint32_big (beyond : Nat) (hv : v < 2 ^ 32) :
    fatPutuint32 .big beyond p i v = Fat.fatPutuint32 beyond p i v := by
  have hhigh : v / 2 ^ 16 % 2 ^ 16 = v / 2 ^ 16 := Nat.mod_eq_of_lt (by omega)
  unfold fatPutuint32 Fat.fatPutuint32
  dsimp only
  rw [fatPutuint16_big, fatPutuint16_big]
  show Fat.fatPutuint16 (Fat.fatPutuint16 p i beyond) (i + 2) (v / 2 ^ 16 % 2 ^ 16) = _
  rw [hhigh]

structure Typed (fmt : FatFormat) (var : FatVar) : Prop where
  nfats : fmt.ffNfats < 2 ^ 8
  rootdirentries : fmt.ffRootdirentries < 2 ^ 16
  rsvdseccount : fmt.ffRsvdseccount < 2 ^ 16
  nsectors : fmt.ffNsectors < 2 ^ 32
  hidsec : fmt.ffHidsec < 2 ^ 32
  volumeid : fmt.ffVolumeid < 2 ^ 32
  nfatsects : var.fvNfatsects < 2 ^ 32

theorem mkfatfsInitmbr_big {T : Target} {fmt : FatFormat} {var : FatVar} (h : Typed fmt var) :
    mkfatfsInitmbr .big T fmt var = Fat.mkfatfsInitmbr T fmt var := by
  have h16 : ∀ p, initmbr16 .big T fmt var p = Fat.initmbr16 T fmt var p := by
    intro p
    unfold initmbr16 Fat.initmbr16 alignedPut16
    dsimp only
    rw [fatPutuint16_big, fatPutuint32_big _ _ _ h.volumeid]
  have h32 : ∀ p, initmbr32 .big T fmt var p = Fat.initmbr32 T fmt var p := by
    intro p
    unfold initmbr32 Fat.initmbr32 alignedPut16 alignedPut32
    dsimp only
    rw [fatPutuint32_big _ _ _ h.volumeid, fatPutuint32_big _ _ _ h.nfatsects,
      fatPutuint32_big _ _ _ (show 2 < 2 ^ 32 by decide)]
    simp only [fatPutuint16_big]
  unfold mkfatfsInitmbr Fat.mkfatfsInitmbr initmbrHead alignedPut16 alignedPut32
  dsimp only
  simp only [h16, h32, fatPutuint16_big, fatPutuint32_big _ _ _ h.hidsec,
    fatPutuint32_big _ _ _ h.nsectors]

end

def Outside (n : Nat) (p p' : Sector) (i : Nat) : Prop := ∀ x, x < i ∨ i + n ≤ x → p' x = p x

/-- The accessors at one offset of a sector, with a value of each size to be put there. -/
structure Accesses (e : Endian) (beyond : Nat) (p : Sector) (i v₁₆ v₃₂ : Nat) : Prop where
  put16 : Spells 2 (fatPutuint16 e p i v₁₆) i v₁₆ ∧ Outside 2 p (fatPutuint16 e p i v₁₆) i
  put32 : Spells 4 (fatPutuint32 e beyond p i v₃₂) i v₃₂ ∧
    Outside 4 p (fatPutuint32 e beyond p i v₃₂) i
  get16 : Spells 2 p i (fatGetuint16 e p i)
  get32 : Spells 4 p i (fatGetuint32 e p i)
  back16 : fatGetuint16 e (fatPutuint16 e p i v₁₆) i = v₁₆
  back32 : fatGetuint32 e (fatPutuint32 e beyond p i v₃₂) i = v₃₂

/-- The fields that `fat_checkbootrecord` reads are those that `mkfatfs_initmbr` has put. -/
structure FieldsBack (e : Endian) (fmt : FatFormat) (var : FatVar) (p : Sector) : Prop where
  bytespersec : mbrGetbytespersec e p = var.fvSectorsize % 2 ^ 16
  secperclus : mbrGetsecperclus p = 2 ^ fmt.ffClustshift % 2 ^ 8
  resvdseccount : mbrGetresvdseccount e p = fmt.ffRsvdseccount
  numfats : mbrGetnumfats p = fmt.ffNfats
  rootentcnt : mbrGetrootentcnt e p = fmt.ffRootdirentries
  totsec16 : fmt.ffNsectors < 65536 → mbrGettotsec16 e p = fmt.ffNsectors
  totsec32 : 65536 ≤ fmt.ffNsectors → mbrGettotsec32 e p = fmt.ffNsectors
  fatsz16 : fmt.ffFattype ≠ 32 → mbrGetfatsz16 e p = var.fvNfatsects % 2 ^ 16
  fatsz32 : fmt.ffFattype = 32 → mbrGetfatsz32 e p = var.fvNfatsects
  rootclus : fmt.ffFattype = 32 → mbrGetrootclus e p = 2
  fsinfo : fmt.ffFattype = 32 → mbrGetfsinfo e p = 1
  signature : mbrGetsignature e p = bootSignature16

section

variable {p : Sector} {i v x n beyond : Nat}

theorem value_two (p : Sector) (i : Nat) :
    value 2 p i = (p i).toNat + 2 ^ 8 * (p (i + 1)).toNat := by
  simp only [value]
  omega

theorem value_one (p : Sector) (i : Nat) : value 1 p i = (p i).toNat := rfl

theorem value_four (p : Sector) (i : Nat) :
    value 4 p i = (p i).toNat + 2 ^ 8 * (p (i + 1)).toNat + 2 ^ 16 * (p (i + 2)).toNat +
      2 ^ 24 * (p (i + 3)).toNat := by
  simp only [value, Nat.add_assoc, Nat.reduceAdd]
  omega

theorem getuint16_little (p : Sector) (i : Nat) : fatGetuint16 .little p i = value 2 p i := by
  rw [value_two]
  unfold fatGetuint16
  dsimp only
  omega

theorem getuint32_little (p : Sector) (i : Nat) : fatGetuint32 .little p i = value 4 p i := by
  unfold fatGetuint32
  dsimp only
  rw [getuint16_little, getuint16_little, value_two, value_two, value_four, Nat.add_assoc i 2 1]
  omega

theorem putuint16_apply (e : Endian) (p : Sector) (i v x : Nat) :
    fatPutuint16 e p i v x =
      if x = i + 1 then UInt8.ofNat (v / 2 ^ 8 % 2 ^ 8)
      else if x = i then UInt8.ofNat (v % 2 ^ 8) else p x := by
  have h : fatPutuint16 e p i v =
      ubytePut (ubytePut p i (v % 2 ^ 8)) (i + 1) (v / 2 ^ 8 % 2 ^ 8) := by
    cases e with
    | little => simp [fatPutuint16, byteOf]
    | big => simp [fatPutuint16, byteOf]
  rw [h]
  unfold ubytePut
  by_cases h1 : x = i + 1
  · rw [h1, Function.update_self, if_pos rfl]
  · rw [Function.update_of_ne h1, if_neg h1]
    by_cases h0 : x = i
    · rw [h0, Function.update_self, if_pos rfl]
    · rw [Function.update_of_ne h0, if_neg h0]

theorem putuint16_outside (e : Endian) (p : Sector) (i v : Nat) :
    Outside 2 p (fatPutuint16 e p i v) i := by
  intro x hx
  rw [putuint16_apply, if_neg (by omega), if_neg (by omega)]

theorem value_putuint16 (e : Endian) (p : Sector) (i v : Nat) :
    value 2 (fatPutuint16 e p i v) i = v % 2 ^ 16 := by
  rw [value_two, putuint16_apply, putuint16_apply, if_neg (by omega), if_pos rfl, if_pos rfl,
    UInt8.toNat_ofNat', UInt8.toNat_ofNat']
  omega

theorem putuint32_outside (e : Endian) (beyond : Nat) (p : Sector) (i v : Nat) :
    Outside 4 p (fatPutuint32 e beyond p i v) i := by
  intro x hx
  have htwo : ∀ a b, fatPutuint16 e (fatPutuint16 e p i a) (i + 2) b x = p x := by
    intro a b
    rw [putuint16_outside e _ (i + 2) b x (by omega), putuint16_outside e p i a x (by omega)]
  cases e with
  | little => exact htwo _ _
  | big => exact htwo _ _

theorem value_putuint16_twice (e : Endian) (p : Sector) (i v w : Nat) :
    value 4 (fatPutuint16 e (fatPutuint16 e p i v) (i + 2) w) i =
      v % 2 ^ 16 + 2 ^ 16 * (w % 2 ^ 16) := by
  have hlow : value 2 (fatPutuint16 e (fatPutuint16 e p i v) (i + 2) w) i = v % 2 ^ 16 := by
    rw [← value_putuint16 e p i v, value_two, value_two,
      putuint16_outside _ _ (i + 2) _ i (by omega),
      putuint16_outside _ _ (i + 2) _ (i + 1) (by omega)]
  have hhigh := value_putuint16 e (fatPutuint16 e p i v) (i + 2) w
  rw [value_two] at hlow hhigh
  have hthree : i + 2 + 1 = i + 3 := rfl
  rw [hthree] at hhigh
  rw [value_four]
  omega

theorem value_putuint32_little (beyond : Nat) (p : Sector) (i v : Nat) :
    value 4 (fatPutuint32 .little beyond p i v) i = v % 2 ^ 16 + 2 ^ 16 * (beyond % 2 ^ 16) := by
  refine (value_putuint16_twice ..).trans ?_
  simp [halfOf]

theorem accesses_little_iff {v₁₆ v₃₂ : Nat} (hb : beyond < 2 ^ 16) (h16 : v₁₆ < 2 ^ 16)
    (h32 : v₃₂ < 2 ^ 32) :
    Accesses .little beyond p i v₁₆ v₃₂ ↔ beyond = v₃₂ / 2 ^ 16 := by
  have hv := value_putuint32_little beyond p i v₃₂
  constructor
  · intro A
    have hs := spells_iff.mp A.put32.1
    omega
  · intro h
    have hput : value 4 (fatPutuint32 .little beyond p i v₃₂) i = v₃₂ := by
      rw [hv]
      omega
    have hput16 : value 2 (fatPutuint16 .little p i v₁₆) i = v₁₆ := by
      rw [value_putuint16, Nat.mod_eq_of_lt h16]
    exact
      { put16 := ⟨spells_iff.mpr hput16.symm, putuint16_outside _ _ _ _⟩
        put32 := ⟨spells_iff.mpr hput.symm, putuint32_outside _ _ _ _ _⟩
        get16 := spells_iff.mpr (getuint16_little p i)
        get32 := spells_iff.mpr (getuint32_little p i)
        back16 := (getuint16_little ..).trans hput16
        back32 := (getuint32_little ..).trans hput }

end

section

variable {T : Target} {fmt : FatFormat} {var : FatVar} {p p' : Sector} {i k m n v : Nat}

theorem Outside.value_eq (h : Outside n p p' k) (hd : i + m ≤ k ∨ k + n ≤ i) :
    value m p' i = value m p i :=
  value_congr fun j hj => h (i + j) (by omega)

theorem value_ubytePut_of_apart (hd : i + m ≤ k ∨ k + 1 ≤ i) :
    value m (ubytePut p k v) i = value m p i :=
  Outside.value_eq (n := 1) (fun _ hx => ubytePut_of_ne hx) hd

theorem value_copy_of_apart {l : List Nat} (hd : i + m ≤ k ∨ k + l.length ≤ i) :
    value m (copy p k l) i = value m p i :=
  Outside.value_eq (fun _ hx => copy_of_ne hx) hd

theorem value_put16_of_apart {e : Endian} (hd : i + m ≤ k ∨ k + 2 ≤ i) :
    value m (fatPutuint16 e p k v) i = value m p i :=
  (putuint16_outside e p k v).value_eq hd

theorem value_put32_of_apart {e : Endian} {beyond : Nat} (hd : i + m ≤ k ∨ k + 4 ≤ i) :
    value m (fatPutuint32 e beyond p k v) i = value m p i :=
  (putuint32_outside e beyond p k v).value_eq hd

theorem value_aligned16_of_apart (hd : i + m ≤ k ∨ k + 2 ≤ i) :
    value m (alignedPut16 .little p k v) i = value m p i :=
  value_copy_of_apart hd

theorem value_aligned32_of_apart {beyond : Nat} (hd : i + m ≤ k ∨ k + 4 ≤ i) :
    value m (alignedPut32 .little beyond p k v) i = value m p i :=
  value_copy_of_apart hd

theorem value_ubytePut (p : Sector) (k v : Nat) : value 1 (ubytePut p k v) k = v % 2 ^ 8 := by
  rw [value_one, ubytePut, Function.update_self, UInt8.toNat_ofNat']

theorem value_aligned16 (p : Sector) (k v : Nat) :
    value 2 (alignedPut16 .little p k v) k = v % 2 ^ 16 := by
  rw [value_two]
  simp [alignedPut16, uint16Put, copy]
  omega

theorem value_aligned32 (beyond : Nat) (p : Sector) (k v : Nat) :
    value 4 (alignedPut32 .little beyond p k v) k = v % 2 ^ 32 := by
  rw [value_four]
  simp [alignedPut32, uint32Put, copy]
  omega

theorem value_initmbr (hd : i + m ≤ 22 ∨ 28 ≤ i ∧ i + m ≤ 36) :
    value m (mkfatfsInitmbr .little T fmt var) i = value m (initmbrHead .little T fmt var) i := by
  have h16 : value m (initmbr16 .little T fmt var (initmbrHead .little T fmt var)) i =
      value m (initmbrHead .little T fmt var) i := by
    unfold initmbr16
    simp (disch := omega) only [value_copy_of_apart, value_put32_of_apart,
      value_ubytePut_of_apart, value_aligned16_of_apart]
  have h32 : value m (initmbr32 .little T fmt var (initmbrHead .little T fmt var)) i =
      value m (initmbrHead .little T fmt var) i := by
    unfold initmbr32
    simp (disch := omega) only [value_copy_of_apart, value_put32_of_apart,
      value_ubytePut_of_apart, value_aligned16_of_apart, value_aligned32_of_apart]
  unfold mkfatfsInitmbr
  dsimp only
  rw [value_aligned16_of_apart (by omega)]
  split
  · exact h16
  · exact h32

theorem value_head_of_lt (hd : i + m ≤ 19) :
    value m (initmbrHead .little T fmt var) i =
      value m
        (fatPutuint16 .little
          (ubytePut
            (alignedPut16 .little
              (ubytePut
                (fatPutuint16 .little
                  (copy (copy (fun _ => 0) 0 var.fvJump) 3
                    [0x4e, 0x55, 0x54, 0x54, 0x58, 0x20, 0x20, 0x20, 0])
                  11 (var.fvSectorsize % 2 ^ 16))
                13 (2 ^ fmt.ffClustshift % 2 ^ 8))
              14 fmt.ffRsvdseccount)
            16 fmt.ffNfats)
          17 fmt.ffRootdirentries) i := by
  unfold initmbrHead
  dsimp only
  rw [value_aligned32_of_apart (by omega), value_aligned16_of_apart (by omega),
    value_aligned16_of_apart (by omega), value_ubytePut_of_apart (by omega)]
  split
  · rw [value_aligned32_of_apart (by omega)]
  · rw [value_put16_of_apart (by omega)]

theorem fieldsBack_little (h : Typed fmt var) :
    FieldsBack .little fmt var (mkfatfsInitmbr .little T fmt var) where
  bytespersec := by
    rw [mbrGetbytespersec, getuint16_little, value_initmbr (by omega), value_head_of_lt (by omega)]
    simp (disch := omega) only [value_put16_of_apart, value_ubytePut_of_apart,
      value_aligned16_of_apart, value_putuint16]
    omega
  secperclus := by
    show value 1 _ 13 = _
    rw [value_initmbr (by omega), value_head_of_lt (by omega)]
    simp (disch := omega) only [value_put16_of_apart, value_ubytePut_of_apart,
      value_aligned16_of_apart, value_ubytePut]
    omega
  resvdseccount := by
    show value 2 _ 14 = _
    have := h.rsvdseccount
    rw [value_initmbr (by omega), value_head_of_lt (by omega)]
    simp (disch := omega) only [value_put16_of_apart, value_ubytePut_of_apart, value_aligned16]
    omega
  numfats := by
    show value 1 _ 16 = _
    have := h.nfats
    rw [value_initmbr (by omega), value_head_of_lt (by omega)]
    simp (disch := omega) only [value_put16_of_apart, value_ubytePut]
    omega
  rootentcnt := by
    have := h.rootdirentries
    rw [mbrGetrootentcnt, getuint16_little, value_initmbr (by omega), value_head_of_lt (by omega),
      value_putuint16]
    omega
  totsec16 := by
    intro hn
    rw [mbrGettotsec16, getuint16_little, value_initmbr (by omega)]
    unfold initmbrHead
    simp (disch := omega) only [value_aligned32_of_apart, value_aligned16_of_apart,
      value_ubytePut_of_apart, if_neg, value_putuint16]
    omega
  totsec32 := by
    intro hn
    show value 4 _ 32 = _
    have := h.nsectors
    rw [value_initmbr (by omega)]
    unfold initmbrHead
    simp (disch := omega) only [value_aligned32_of_apart, value_aligned16_of_apart,
      value_ubytePut_of_apart, if_pos, value_aligned32]
    omega
  fatsz16 := by
    intro ht
    show value 2 _ 22 = _
    unfold mkfatfsInitmbr initmbr16
    simp (disch := omega) only [if_pos ht, value_copy_of_apart, value_put32_of_apart,
      value_ubytePut_of_apart, value_aligned16_of_apart, value_aligned16]
    omega
  fatsz32 := by
    intro ht
    show value 4 _ 36 = _
    have := h.nfatsects
    unfold mkfatfsInitmbr initmbr32
    simp (disch := omega) only [ht, not_true, ne_eq, if_false, value_copy_of_apart,
      value_put32_of_apart, value_ubytePut_of_apart, value_aligned16_of_apart,
      value_aligned32_of_apart, value_aligned32]
    omega
  rootclus := by
    intro ht
    show value 4 _ 44 = _
    unfold mkfatfsInitmbr initmbr32
    simp (disch := omega) only [ht, not_true, ne_eq, if_false, value_copy_of_apart,
      value_put32_of_apart, value_ubytePut_of_apart, value_aligned16_of_apart, value_aligned32]
    rfl
  fsinfo := by
    intro ht
    show value 2 _ 48 = _
    unfold mkfatfsInitmbr initmbr32
    simp (disch := omega) only [ht, not_true, ne_eq, if_false, value_copy_of_apart,
      value_put32_of_apart, value_ubytePut_of_apart, value_aligned16_of_apart, value_aligned16]
    rfl
  signature := value_aligned16 _ 510 bootSignature16

end

/-- The accessors meet the format on a little-endian target where the half word behind a
32-bit value is its high half, and never on a big-endian target. -/
theorem ondisk_iff {e : Endian} {T : Target} {fmt : FatFormat} {var : FatVar} {beyond : Nat}
    {p : Sector} {i v₁₆ v₃₂ : Nat} (hfmt : Typed fmt var) (hb : beyond < 2 ^ 16)
    (h16 : v₁₆ < 2 ^ 16) (h32 : v₃₂ < 2 ^ 32) :
    Accesses e beyond p i v₁₆ v₃₂ ∧ FieldsBack e fmt var (mkfatfsInitmbr e T fmt var) ↔
      e = .little ∧ beyond = v₃₂ / 2 ^ 16 := by
  cases e with
  | little =>
    rw [accesses_little_iff hb h16 h32]
    constructor
    · intro h
      exact ⟨rfl, h.1⟩
    · intro h
      exact ⟨h.2, fieldsBack_little hfmt⟩
  | big =>
    constructor
    · intro ⟨_, F⟩
      have hs := F.signature
      rw [mkfatfsInitmbr_big hfmt] at hs
      have hread : mbrGetsignature .big (Fat.mkfatfsInitmbr T fmt var) = 0x55aa :=
        initmbr_signature T fmt var
      rw [hread] at hs
      cases hs
    · intro h
      cases h.1

/-- A value of 65537 with the half word one behind it. -/
theorem ondisk_little : Accesses .little 1 (fun _ => 0) 3 0x1234 65537 ∧
    FieldsBack .little floppyFormat ⟨[], 9, 0, 12, 0, 512, 9, 2847, []⟩
      (mkfatfsInitmbr .little avr32 floppyFormat ⟨[], 9, 0, 12, 0, 512, 9, 2847, []⟩) :=
  (ondisk_iff ⟨by decide, by decide, by decide, by decide, by decide, by decide, by decide⟩
    (by decide) (by decide) (by decide)).mpr ⟨rfl, rfl⟩

/-- The value 65536 is stored as zero on a little-endian target with zero behind it, and
the bytes 1 and 0 are read as 256 on a big-endian one. -/
theorem ondisk_broken :
    ¬ Spells 4 (fatPutuint32 .little 0 (fun _ => 0) 0 65536) 0 65536 ∧
      ¬ Spells 2 (fun x => if x = 0 then 1 else 0) 0
        (fatGetuint16 .big (fun x => if x = 0 then 1 else 0) 0) := by
  constructor
  · intro h
    have hv := spells_iff.mp h
    rw [value_putuint32_little] at hv
    cases hv
  · intro h
    have hv := spells_iff.mp h
    cases hv

end NuttxAvr32.Fat.Config
