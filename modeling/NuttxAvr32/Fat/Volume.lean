import Mathlib.Algebra.Ring.Int.Defs
import Mathlib.Algebra.Ring.Nat

/-! # Sectors and boot records

A sector is a map from offsets to bytes. The processor is big-endian, so the fields of a
sector are read and written byte by byte: `fat_getuint16` takes the first byte as the high
one, and `fat_putuint16` puts the low byte first.
-/

namespace NuttxAvr32.Fat

abbrev Sector := Nat → UInt8

def wrap32 (n : Nat) : Nat := n % 2 ^ 32

def wrapInt (i : Int) : Nat := (i % 2 ^ 32).toNat

theorem wrap32_lt (n : Nat) : wrap32 n < 2 ^ 32 := Nat.mod_lt _ (by decide)

theorem wrap32_of_lt {n : Nat} (h : n < 2 ^ 32) : wrap32 n = n := Nat.mod_eq_of_lt h

def fatGetuint16 (p : Sector) (i : Nat) : Nat := (p i).toNat * 2 ^ 8 + (p (i + 1)).toNat

def fatGetuint32 (p : Sector) (i : Nat) : Nat := fatGetuint16 p i * 2 ^ 16 + fatGetuint16 p (i + 2)

def ubytePut (p : Sector) (i v : Nat) : Sector := Function.update p i (UInt8.ofNat v)

def fatPutuint16 (p : Sector) (i v : Nat) : Sector :=
  ubytePut (ubytePut p i (v % 2 ^ 8)) (i + 1) (v / 2 ^ 8 % 2 ^ 8)

/-- The first half is `val[2]`, the half word `beyond` that lies behind the value. -/
def fatPutuint32 (beyond : Nat) (p : Sector) (i v : Nat) : Sector :=
  fatPutuint16 (fatPutuint16 p i beyond) (i + 2) (v / 2 ^ 16)

def copy (p : Sector) (i : Nat) (l : List Nat) : Sector :=
  fun x => if i ≤ x ∧ x < i + l.length then UInt8.ofNat (l.getD (x - i) 0) else p x

def fill (p : Sector) (v n : Nat) : Sector := fun x => if x < n then UInt8.ofNat v else p x

def bootSignature16 : Nat := 0xaa55
def bootSignature32 : Nat := 0xaa550000

def mbrGetbytespersec (p : Sector) : Nat := fatGetuint16 p 11
def mbrGetsecperclus (p : Sector) : Nat := (p 13).toNat
def mbrGetresvdseccount (p : Sector) : Nat := fatGetuint16 p 14
def mbrGetnumfats (p : Sector) : Nat := (p 16).toNat
def mbrGetrootentcnt (p : Sector) : Nat := fatGetuint16 p 17
def mbrGettotsec16 (p : Sector) : Nat := fatGetuint16 p 19
def mbrGetfatsz16 (p : Sector) : Nat := fatGetuint16 p 22
def mbrGettotsec32 (p : Sector) : Nat := fatGetuint32 p 32
def mbrGetfatsz32 (p : Sector) : Nat := fatGetuint32 p 36
def mbrGetrootclus (p : Sector) : Nat := fatGetuint32 p 44
def mbrGetfsinfo (p : Sector) : Nat := fatGetuint16 p 48
def mbrGetsignature (p : Sector) : Nat := fatGetuint16 p 510
def part1Gettype (p : Sector) : Nat := (p 450).toNat
def part1Getstartsector (p : Sector) : Nat := fatGetuint32 p 454

def fsiGetleadsig (p : Sector) : Nat := fatGetuint32 p 0
def fsiGetstructsig (p : Sector) : Nat := fatGetuint32 p 484
def fsiGetfreecount (p : Sector) : Nat := fatGetuint32 p 488
def fsiGetnxtfree (p : Sector) : Nat := fatGetuint32 p 492
def fsiGettrailsig (p : Sector) : Nat := fatGetuint32 p 508

/-- What `fat_updatefsinfo` puts into the buffer. -/
def fsinfoSector (beyond size freecount nxtfree : Nat) (p : Sector) : Sector :=
  let p := fill p 0 size
  let p := fatPutuint32 beyond p 0 0x41615252
  let p := fatPutuint32 beyond p 484 0x61417272
  let p := fatPutuint32 beyond p 488 freecount
  let p := fatPutuint32 beyond p 492 nxtfree
  fatPutuint32 beyond p 508 bootSignature32

inductive FsType
  | none
  | fat12
  | fat16
  | fat32
deriving DecidableEq, Repr

def fatMaxclust12 : Nat := 2 ^ 12 - 16
def fatMaxclust16 : Nat := 2 ^ 16 - 16

/-- `struct fat_mountpt_s` without the driver, the semaphore and the list of files. -/
structure Mountpt where
  fsHwsectorsize : Nat
  fsHwnsectors : Nat
  fsFatbase : Nat
  fsRootbase : Nat
  fsDatabase : Nat
  fsFsinfo : Nat
  fsCurrentsector : Nat
  fsNclusters : Nat
  fsNfatsects : Nat
  fsFattotsec : Nat
  fsFsifreecount : Nat
  fsFsinextfree : Nat
  fsFatresvdseccount : Nat
  fsRootentcnt : Nat
  fsMounted : Bool
  fsDirty : Bool
  fsFsidirty : Bool
  fsType : FsType
  fsFatnumfats : Nat
  fsFatsecperclus : Nat
  fsBuffer : Sector

def Mountpt.zero : Mountpt :=
  ⟨0, 0, 0, 0, 0, 0, 0, 0, 0, 0, 0, 0, 0, 0, false, false, false, .none, 0, 0, fun _ => 0⟩

/-- The type of the volume, with its `fs_fsinfo`; `none` is the last `-ENODEV`. -/
def fatType (fs : Mountpt) (notfat32 : Bool) : Option (FsType × Nat) :=
  if fs.fsNclusters ≤ fatMaxclust12 then some (.fat12, 0)
  else if fs.fsNclusters ≤ fatMaxclust16 then some (.fat16, 0)
  else if notfat32 then none
  else some (.fat32, wrap32 (fs.fsFatbase + mbrGetfsinfo fs.fsBuffer))

/-- The last assignments of `fat_checkbootrecord`. -/
def setBases (fs : Mountpt) (type : FsType) (fsinfo ntotalfatsects : Nat) : Mountpt :=
  let fatbase := wrap32 (fs.fsFatbase + fs.fsFatresvdseccount)
  { fs with
    fsFsinfo := fsinfo
    fsType := type
    fsFatbase := fatbase
    fsRootbase :=
      if type = .fat32 then mbrGetrootclus fs.fsBuffer else wrap32 (fatbase + ntotalfatsects)
    fsDatabase :=
      wrap32 (fatbase + ntotalfatsects + fs.fsRootentcnt / (fs.fsHwsectorsize / 32))
    fsFsifreecount := 2 ^ 32 - 1 }

/-- The number of sectors of one FAT, from the field of 16 bits if that is not zero. -/
def bootNfatsects (p : Sector) : Nat :=
  if mbrGetfatsz16 p ≠ 0 then mbrGetfatsz16 p else mbrGetfatsz32 p

def bootFattotsec (p : Sector) : Nat :=
  if mbrGettotsec16 p ≠ 0 then mbrGettotsec16 p else mbrGettotsec32 p

def bootRootdirsectors (p : Sector) (hwsectorsize : Nat) : Nat :=
  if mbrGetrootentcnt p ≠ 0 then
    (32 * mbrGetrootentcnt p + hwsectorsize - 1) / hwsectorsize % 2 ^ 16
  else 0

def bootNtotalfatsects (p : Sector) : Nat := wrap32 (mbrGetnumfats p * bootNfatsects p)

/-- A difference of unsigned numbers. -/
def bootNdatasectors (p : Sector) (hwsectorsize : Nat) : Nat :=
  wrapInt ((bootFattotsec p : Int) - mbrGetresvdseccount p - bootNtotalfatsects p -
    bootRootdirsectors p hwsectorsize)

def bootNotfat32 (p : Sector) : Bool :=
  mbrGetrootentcnt p ≠ 0 ∨ mbrGetfatsz16 p ≠ 0 ∨ mbrGettotsec16 p ≠ 0

/-- Returns whether the buffer holds a boot record. -/
def fatCheckbootrecord (fs : Mountpt) : Mountpt × Bool :=
  let p := fs.fsBuffer
  if mbrGetsignature p ≠ bootSignature16 ∨ mbrGetbytespersec p ≠ fs.fsHwsectorsize then (fs, false)
  else
    let fs :=
      { fs with
        fsRootentcnt := mbrGetrootentcnt p
        fsNfatsects := bootNfatsects p }
    if bootNfatsects p = 0 ∨ fs.fsHwnsectors ≤ bootNfatsects p then (fs, false)
    else
      let fs := { fs with fsFattotsec := bootFattotsec p }
      if bootFattotsec p = 0 ∨ fs.fsHwnsectors < bootFattotsec p then (fs, false)
      else
        let fs := { fs with fsFatresvdseccount := mbrGetresvdseccount p }
        if fs.fsHwnsectors < mbrGetresvdseccount p then (fs, false)
        else
          let fs := { fs with fsFatnumfats := mbrGetnumfats p }
          if fs.fsHwnsectors < bootNdatasectors p fs.fsHwsectorsize then (fs, false)
          else
            let fs :=
              { fs with
                fsFatsecperclus := mbrGetsecperclus p
                fsNclusters := bootNdatasectors p fs.fsHwsectorsize / mbrGetsecperclus p }
            match fatType fs (bootNotfat32 p) with
            | none => (fs, false)
            | some (type, fsinfo) => (setBases fs type fsinfo (bootNtotalfatsects p), true)

section

variable {fs fs' : Mountpt}

/-- The record says where the FATs lie; it leaves the cache and the device alone. -/
structure Booted (fs fs' : Mountpt) : Prop where
  buffer : fs'.fsBuffer = fs.fsBuffer
  currentsector : fs'.fsCurrentsector = fs.fsCurrentsector
  dirty : fs'.fsDirty = fs.fsDirty
  fsidirty : fs'.fsFsidirty = fs.fsFsidirty
  signature : mbrGetsignature fs.fsBuffer = bootSignature16
  nfatsects : 0 < fs'.fsNfatsects
  fatbase : fs'.fsFatbase < 2 ^ 32
  fsinfo : fs'.fsFsinfo < 2 ^ 32
  nsectors : fs'.fsNfatsects < fs.fsHwnsectors

theorem fatCheckbootrecord_keeps (fs : Mountpt) :
    (fatCheckbootrecord fs).1.fsBuffer = fs.fsBuffer ∧
      (fatCheckbootrecord fs).1.fsCurrentsector = fs.fsCurrentsector ∧
      (fatCheckbootrecord fs).1.fsDirty = fs.fsDirty ∧
      (fatCheckbootrecord fs).1.fsHwnsectors = fs.fsHwnsectors := by
  unfold fatCheckbootrecord
  dsimp only
  split
  · exact ⟨rfl, rfl, rfl, rfl⟩
  split
  · exact ⟨rfl, rfl, rfl, rfl⟩
  split
  · exact ⟨rfl, rfl, rfl, rfl⟩
  split
  · exact ⟨rfl, rfl, rfl, rfl⟩
  split
  · exact ⟨rfl, rfl, rfl, rfl⟩
  split <;> exact ⟨rfl, rfl, rfl, rfl⟩

theorem fatType_fsinfo {notfat32 : Bool} {type : FsType} {fsinfo : Nat}
    (h : fatType fs notfat32 = some (type, fsinfo)) : fsinfo < 2 ^ 32 := by
  unfold fatType at h
  split at h
  · cases h
    decide
  · split at h
    · cases h
      decide
    · split at h
      · cases h
      · cases h
        exact wrap32_lt _

theorem setBases_fatbase (fs : Mountpt) (type : FsType) (fsinfo n : Nat) :
    (setBases fs type fsinfo n).fsFatbase = wrap32 (fs.fsFatbase + fs.fsFatresvdseccount) := rfl

theorem fatCheckbootrecord_booted (h : fatCheckbootrecord fs = (fs', true)) : Booted fs fs' := by
  unfold fatCheckbootrecord at h
  dsimp only at h
  split at h
  · cases h
  rename_i hsig
  split at h
  · cases h
  rename_i hfat
  split at h
  · cases h
  split at h
  · cases h
  split at h
  · cases h
  split at h
  · cases h
  rename_i type fsinfo htype
  have hinfo := fatType_fsinfo htype
  have hfs' := congrArg Prod.fst h
  dsimp only at hfs'
  subst hfs'
  have hsig' := not_or.mp hsig
  have hfat' := not_or.mp hfat
  exact
    { buffer := rfl
      currentsector := rfl
      dirty := rfl
      fsidirty := rfl
      signature := not_not.mp hsig'.1
      nfatsects := Nat.pos_of_ne_zero hfat'.1
      fatbase := by
        rw [setBases_fatbase]
        exact wrap32_lt _
      fsinfo := hinfo
      nsectors := Nat.lt_of_not_le hfat'.2 }

end

end NuttxAvr32.Fat
