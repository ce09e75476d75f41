import NuttxAvr32.Fat.SectorCache

/-! # Formatting a device

`mkfatfs` chooses the type and the layout of a volume, then writes the boot record, the FATs
and the root directory. The device makes no errors; it refuses sectors that it does not have.
-/

namespace NuttxAvr32.Fat

open Function (update update_self update_of_ne)

structure FatFormat where
  ffNfats : Nat
  ffFattype : Nat
  ffClustshift : Nat
  ffVolumelabel : Fin 11 → Nat
  ffBackupboot : Nat
  ffRootdirentries : Nat
  ffRsvdseccount : Nat
  ffHidsec : Nat
  ffVolumeid : Nat
  ffNsectors : Nat

/-- `struct fat_var_s` without the driver and the working sector. -/
structure FatVar where
  fvJump : List Nat
  fvSectshift : Nat
  fvNrootdirsects : Nat
  fvFattype : Nat
  fvCreatetime : Nat
  fvSectorsize : Nat
  fvNfatsects : Nat
  fvNclusters : Nat
  fvBootcode : List Nat

structure Device where
  available : Bool
  writeenabled : Bool
  nsectors : Nat
  sectorsize : Nat
  sect : Nat → Sector

/-- What the code leaves to the machine: the value of a shift by more than 31 and the half
word behind a value that `fat_putuint32` puts to an offset. -/
structure Target where
  shl : Nat → Nat → Nat
  beyond : Nat → Nat

def sub32 (a b : Nat) : Nat := wrapInt ((a : Int) - b)

def fatMinclust16 : Nat := fatMaxclust12 + 1
def fatMinclust32 : Nat := 65524
def fatMaxclust32 : Nat := 2 ^ 28 - 16

structure FatConfig where
  fcNavailsects : Nat
  fcNfatsects : Nat
  fcNclusters : Nat
  fcRsvdseccount : Nat

/-- The quotient, rounded up in 64 bits. -/
def roundUp (numer denom : Nat) : Nat := wrap32 ((wrap32 numer + wrap32 denom - 1) / wrap32 denom)

def mkfatfsNfatsect12 (fmt : FatFormat) (var : FatVar) (navailsects : Nat) : Nat :=
  roundUp (3 * navailsects + 2 ^ (fmt.ffClustshift + 2) + 2 ^ (fmt.ffClustshift + 1))
    (3 * fmt.ffNfats + var.fvSectorsize * 2 ^ (fmt.ffClustshift + 1))

def mkfatfsNfatsect16 (fmt : FatFormat) (var : FatVar) (navailsects : Nat) : Nat :=
  if fmt.ffClustshift = 0 then roundUp (navailsects + 2) (fmt.ffNfats + var.fvSectorsize / 2)
  else
    roundUp (navailsects + 2 ^ (fmt.ffClustshift + 1))
      (fmt.ffNfats + var.fvSectorsize * 2 ^ (fmt.ffClustshift - 1))

def mkfatfsNfatsect32 (fmt : FatFormat) (var : FatVar) (navailsects : Nat) : Nat :=
  if fmt.ffClustshift = 0 then roundUp (navailsects + 3) (fmt.ffNfats + var.fvSectorsize / 4)
  else if fmt.ffClustshift = 1 then
    roundUp (navailsects + 6) (fmt.ffNfats + var.fvSectorsize / 2)
  else
    roundUp (navailsects + 2 ^ (fmt.ffClustshift + 1) + 2 ^ fmt.ffClustshift)
      (fmt.ffNfats + var.fvSectorsize * 2 ^ (fmt.ffClustshift - 2))

/-- The maximum shift to search to, with the one to start from. -/
def mkfatfsClustersearchlimits (fmt : FatFormat) : FatFormat × Nat :=
  if fmt.ffClustshift = 0xff then
    ({ fmt with
        ffClustshift :=
          if fmt.ffNsectors < 2048 then 0
          else if fmt.ffNsectors < 4096 then 1
          else if fmt.ffNsectors < 8192 then 2
          else if fmt.ffNsectors < 16384 then 3
          else if fmt.ffNsectors < 32768 then 4
          else 5 }, 7)
  else (fmt, fmt.ffClustshift)

/-- Tries a type with its number of FAT sectors, and returns whether the clusters are within
the limits: at most `maxnclusters - margin`, itself at most `cap`, and at least `least`. -/
def tryfat (fmt : FatFormat) (config : FatConfig) (nfatsects maxnclusters cap margin least : Nat) :
    FatConfig × Bool :=
  if nfatsects > 0 then
    let nclusters :=
      sub32 config.fcNavailsects (wrap32 (fmt.ffNfats * nfatsects)) / 2 ^ fmt.ffClustshift
    ({ config with
        fcNfatsects := nfatsects
        fcNclusters := nclusters },
      nclusters ≤ sub32 (min maxnclusters cap) margin ∧ least ≤ nclusters)
  else ({ config with fcNfatsects := nfatsects }, true)

def mkfatfsTryfat12 (fmt : FatFormat) (var : FatVar) (config : FatConfig) : FatConfig × Bool :=
  let n := mkfatfsNfatsect12 fmt var config.fcNavailsects
  tryfat fmt config n (n / 2 ^ (var.fvSectshift + 1) / 3) fatMaxclust12 2 0

/-- The shift by `fv_sectorsize - 1` is one by more than 31. -/
def mkfatfsTryfat16 (T : Target) (fmt : FatFormat) (var : FatVar) (config : FatConfig) :
    FatConfig × Bool :=
  let n := mkfatfsNfatsect16 fmt var config.fcNavailsects
  tryfat fmt config n (wrap32 (T.shl n (var.fvSectorsize - 1))) fatMaxclust16 2 fatMinclust16

def mkfatfsTryfat32 (fmt : FatFormat) (var : FatVar) (config : FatConfig) : FatConfig × Bool :=
  let n := mkfatfsNfatsect32 fmt var config.fcNavailsects
  tryfat fmt config n (n / 2 ^ (var.fvSectshift - 2)) fatMaxclust32 3
    (if fmt.ffFattype ≠ 32 then fatMinclust32 else 0)

def mkfatfsSelectfat (fattype : Nat) (fmt : FatFormat) (var : FatVar) (config : FatConfig) :
    FatFormat × FatVar :=
  ({ fmt with ffRsvdseccount := config.fcRsvdseccount % 2 ^ 16 },
    { var with
      fvFattype := fattype
      fvNclusters := config.fcNclusters
      fvNfatsects := config.fcNfatsects })

/-- The configuration is given up if it was refused. -/
def refused (r : FatConfig × Bool) : FatConfig :=
  if r.2 then r.1
  else
    { r.1 with
      fcNfatsects := 0
      fcNclusters := 0 }

def searchFat12 (fmt : FatFormat) (var : FatVar) (c12 : FatConfig) : FatConfig :=
  if var.fvFattype = 0 ∨ var.fvFattype = 12 then refused (mkfatfsTryfat12 fmt var c12) else c12

def searchFat16 (T : Target) (fmt : FatFormat) (var : FatVar) (c16 : FatConfig) : FatConfig :=
  if var.fvFattype = 0 ∨ var.fvFattype = 16 then refused (mkfatfsTryfat16 T fmt var c16) else c16

/-- The loop of `mkfatfs_clustersearch`, with its turns counted down; `none` is `-ENFILE`. -/
def searchLoop (T : Target) :
    Nat → FatFormat → FatVar → FatConfig → FatConfig → FatConfig → Option (FatFormat × FatVar)
  | 0, _, _, _, _, _ => none
  | n + 1, fmt, var, c12, c16, c32 =>
    let c12 := searchFat12 fmt var c12
    let c16 := searchFat16 T fmt var c16
    if c12.fcNclusters ≠ 0 ∨ c16.fcNclusters ≠ 0 then
      if (var.fvFattype = 0 ∧ c12.fcNclusters < c16.fcNclusters) ∨ var.fvFattype = 16 then
        some (mkfatfsSelectfat 16 fmt var c16)
      else some (mkfatfsSelectfat 12 fmt var c12)
    else
      let next := { fmt with ffClustshift := fmt.ffClustshift + 1 }
      if var.fvFattype = 0 ∨ var.fvFattype = 32 then
        let c32 :=
          { c32 with
            fcNavailsects :=
              sub32 (sub32 fmt.ffNsectors (2 ^ fmt.ffClustshift)) c32.fcRsvdseccount }
        let r := mkfatfsTryfat32 fmt var c32
        if r.2 then some (mkfatfsSelectfat 32 fmt var r.1)
        else searchLoop T n next var c12 c16 (refused r)
      else searchLoop T n next var c12 c16 c32

def mkfatfsClustersearch (T : Target) (fmt : FatFormat) (var : FatVar) :
    Option (FatFormat × FatVar) :=
  let rsvd := fmt.ffRsvdseccount
  let rsvd16 := if rsvd ≠ 0 then rsvd else 1
  let rsvd32 := if rsvd ≠ 0 then (if rsvd < 2 then 2 else rsvd) else 32
  let var :=
    if var.fvFattype ≠ 32 then
      { var with
        fvNrootdirsects :=
          (fmt.ffRootdirentries * 32 + var.fvSectorsize - 1) / 2 ^ var.fvSectshift % 2 ^ 8 }
    else var
  let navailsects :=
    if var.fvFattype ≠ 32 then sub32 (sub32 fmt.ffNsectors var.fvNrootdirsects) rsvd16 else 0
  let limits := mkfatfsClustersearchlimits fmt
  searchLoop T (limits.2 - limits.1.ffClustshift + 1) limits.1 var ⟨navailsects, 0, 0, rsvd16⟩
    ⟨navailsects, 0, 0, rsvd16⟩ ⟨0, 0, 0, rsvd32⟩

def bootcodeblob (msg : Nat) : List Nat :=
  [0x0e, 0x1f, 0xbe, msg, 0x7c, 0xac, 0x22, 0xc0, 0x74, 0x0b, 0x56,
    0xb4, 0x0e, 0xbb, 0x07, 0x00, 0xcd, 0x10, 0x5e, 0xeb, 0xf0, 0x32,
    0xe4, 0xcd, 0x16, 0xcd, 0x19, 0xeb, 0xfe, 0x54, 0x68, 0x69, 0x73,
    0x20, 0x69, 0x73, 0x20, 0x6e, 0x6f, 0x74, 0x20, 0x61, 0x20, 0x62,
    0x6f, 0x6f, 0x74, 0x61, 0x62, 0x6c, 0x65, 0x20, 0x64, 0x69, 0x73,
    0x6b, 0x2e, 0x20, 0x20, 0x50, 0x6c, 0x65, 0x61, 0x73, 0x65, 0x20,
    0x69, 0x6e, 0x73, 0x65, 0x72, 0x74, 0x20, 0x61, 0x20, 0x62, 0x6f,
    0x6f, 0x74, 0x61, 0x62, 0x6c, 0x65, 0x20, 0x66, 0x6c, 0x6f, 0x70,
    0x70, 0x79, 0x20, 0x61, 0x6e, 0x64, 0x0d, 0x0a, 0x70, 0x72, 0x65,
    0x73, 0x73, 0x20, 0x61, 0x6e, 0x79, 0x20, 0x6b, 0x65, 0x79, 0x20,
    0x74, 0x6f, 0x20, 0x74, 0x72, 0x79, 0x20, 0x61, 0x67, 0x61, 0x69,
    0x6e, 0x20, 0x2e, 0x2e, 0x2e, 0x0d, 0x0a, 0x00]

/-- The sector of the backup boot record, zero for none. -/
def backupBoot (fmt : FatFormat) : Nat :=
  let b :=
    if fmt.ffBackupboot ≤ 1 ∨ fmt.ffRsvdseccount ≤ fmt.ffBackupboot then 0 else fmt.ffBackupboot
  if b = 0 ∧ 2 ≤ fmt.ffRsvdseccount then min (fmt.ffRsvdseccount - 1) 6 else b

/-- The number of root directory entries, if the caller gives none. -/
def defaultRootdir (fmt : FatFormat) : FatFormat :=
  if fmt.ffRootdirentries = 0 then { fmt with ffRootdirentries := 512 } else fmt

def mkfatfsConfigfatfs (T : Target) (fmt : FatFormat) (var : FatVar) :
    Option (FatFormat × FatVar) :=
  match mkfatfsClustersearch T (defaultRootdir fmt) var with
  | none => none
  | some (fmt, var) =>
    if var.fvFattype ≠ 32 then
      some ({ fmt with ffFattype := var.fvFattype },
        { var with
          fvJump := [0xeb, 60, 0x90]
          fvBootcode := bootcodeblob 91 })
    else
      some
        ({ fmt with
            ffRootdirentries := 0
            ffBackupboot := backupBoot fmt
            ffFattype := var.fvFattype },
          { var with
            fvJump := [0xeb, 88, 0x90]
            fvNrootdirsects := 2 ^ fmt.ffClustshift % 2 ^ 8
            fvBootcode := bootcodeblob 119 })

section

variable (T : Target) (fmt : FatFormat) (var : FatVar)

/-- The fields of a boot record for FAT12 and FAT16. -/
def initmbr16 (p : Sector) : Sector :=
  let p := fatPutuint16 p 22 (var.fvNfatsects % 2 ^ 16)
  let p := ubytePut p 38 0x29
  let p := fatPutuint32 (T.beyond 39) p 39 fmt.ffVolumeid
  let p := copy p 43 (List.ofFn fmt.ffVolumelabel)
  let p :=
    copy p 54 [0x46, 0x41, 0x54, 0x31, if fmt.ffFattype = 12 then 0x32 else 0x36, 0x20, 0x20, 0x20]
  copy p 62 var.fvBootcode

/-- The boot code is copied to the offset that it has for FAT16. -/
def initmbr32 (p : Sector) : Sector :=
  let p := fatPutuint32 (T.beyond 36) p 36 var.fvNfatsects
  let p := fatPutuint32 (T.beyond 44) p 44 2
  let p := fatPutuint16 p 48 1
  let p := fatPutuint16 p 50 fmt.ffBackupboot
  let p := ubytePut p 66 0x29
  let p := fatPutuint32 (T.beyond 67) p 67 fmt.ffVolumeid
  let p := copy p 71 (List.ofFn fmt.ffVolumelabel)
  let p := copy p 82 [0x46, 0x41, 0x54, 0x33, 0x32, 0x20, 0x20, 0x20]
  copy p 62 var.fvBootcode

def mkfatfsInitmbr : Sector :=
  let p : Sector := fun _ => 0
  let p := copy p 0 var.fvJump
  let p := copy p 3 [0x4e, 0x55, 0x54, 0x54, 0x58, 0x20, 0x20, 0x20, 0]
  let p := fatPutuint16 p 11 (var.fvSectorsize % 2 ^ 16)
  let p := ubytePut p 13 (2 ^ fmt.ffClustshift % 2 ^ 8)
  let p := fatPutuint16 p 14 fmt.ffRsvdseccount
  let p := ubytePut p 16 fmt.ffNfats
  let p := fatPutuint16 p 17 fmt.ffRootdirentries
  let p :=
    if 65536 ≤ fmt.ffNsectors then fatPutuint32 (T.beyond 32) p 32 fmt.ffNsectors
    else fatPutuint16 p 19 fmt.ffNsectors
  let p := ubytePut p 21 0xf8
  let p := fatPutuint16 p 24 63
  let p := fatPutuint16 p 26 255
  let p := fatPutuint32 (T.beyond 28) p 28 fmt.ffHidsec
  let p := if fmt.ffFattype ≠ 32 then initmbr16 T fmt var p else initmbr32 T fmt var p
  fatPutuint16 p 510 bootSignature16

def mkfatfsInitfsinfo : Sector :=
  let p : Sector := fun _ => 0
  let p := fatPutuint32 (T.beyond 0) p 0 0x41615252
  let p := fatPutuint32 (T.beyond 484) p 484 0x61417272
  let p := fatPutuint32 (T.beyond 488) p 488 (sub32 var.fvNclusters 1)
  let p := fatPutuint32 (T.beyond 492) p 492 2
  fatPutuint32 (T.beyond 508) p 508 bootSignature32

def mkfatfsInitrootdir (sectno : Nat) : Sector :=
  let p : Sector := fun _ => 0
  if sectno = 0 then
    let label := List.ofFn fmt.ffVolumelabel
    let p := if label ≠ List.replicate 11 0x20 then copy p 0 label else p
    let p := ubytePut p 11 0x08
    let p := fatPutuint16 p 14 (var.fvCreatetime % 2 ^ 16)
    let p := fatPutuint16 p 22 (var.fvCreatetime % 2 ^ 16)
    let p := fatPutuint16 p 16 (var.fvCreatetime / 2 ^ 16)
    fatPutuint16 p 24 (var.fvCreatetime / 2 ^ 16)
  else p

def initfat (sectno : Nat) : Sector :=
  let p : Sector := fun _ => 0
  if sectno = 0 then
    let p :=
      if fmt.ffFattype = 12 then fill p 0xff 3
      else if fmt.ffFattype = 16 then fill p 0xff 4
      else copy (fill p 0xff 8) 8 [0xf8, 0xff, 0xff, 0xff]
    ubytePut p 0 0xf8
  else p

def devWrite (d : Device) (sectno : Nat) (p : Sector) : Option Device :=
  if sectno < d.nsectors then some { d with sect := update d.sect sectno p } else none

/-- Writes the sectors `data i`, `data (i + 1)`, … to `offset` and those behind it. -/
def writeSectors (data : Nat → Sector) : Nat → Nat → Nat → Device → Option (Nat × Device)
  | 0, _, offset, d => some (offset, d)
  | n + 1, i, offset, d =>
    match devWrite d offset (data i) with
    | none => none
    | some d => writeSectors data n (i + 1) (wrap32 (offset + 1)) d

def mkfatfsWritembr (d : Device) : Option Device :=
  match devWrite d 0 (mkfatfsInitmbr T fmt var) with
  | none => none
  | some d =>
    match writeSectors (fun _ _ => 0) (fmt.ffRsvdseccount - 1) 1 1 d with
    | none => none
    | some (_, d) =>
      if fmt.ffFattype = 32 then
        match
          if fmt.ffBackupboot ≠ 0 then devWrite d fmt.ffBackupboot (mkfatfsInitmbr T fmt var)
          else some d
        with
        | none => none
        | some d => devWrite d 1 (mkfatfsInitfsinfo T var)
      else some d

def mkfatfsWritefat : Nat → Nat → Device → Option (Nat × Device)
  | 0, offset, d => some (offset, d)
  | n + 1, offset, d =>
    match writeSectors (initfat fmt) var.fvNfatsects 0 offset d with
    | none => none
    | some (offset, d) => mkfatfsWritefat n offset d

def mkfatfsWriterootdir (d : Device) : Option Device :=
  (writeSectors (mkfatfsInitrootdir fmt var) var.fvNrootdirsects 0
    (wrap32 (fmt.ffRsvdseccount + fmt.ffNfats * var.fvNfatsects)) d).map Prod.snd

def mkfatfsWritefatfs (d : Device) : Option Device :=
  match mkfatfsWritembr T fmt var d with
  | none => none
  | some d =>
    match mkfatfsWritefat fmt var fmt.ffNfats fmt.ffRsvdseccount d with
    | none => none
    | some (_, d) => mkfatfsWriterootdir fmt var d

end

def FatFormat.ok (fmt : FatFormat) : Bool :=
  1 ≤ fmt.ffNfats ∧ fmt.ffNfats ≤ 4 ∧
    (fmt.ffFattype = 0 ∨ fmt.ffFattype = 12 ∨ fmt.ffFattype = 16 ∨ fmt.ffFattype = 32) ∧
    (fmt.ffClustshift ≤ 7 ∨ fmt.ffClustshift = 0xff) ∧
    (fmt.ffRootdirentries = 0 ∨ 16 ≤ fmt.ffRootdirentries ∧ fmt.ffRootdirentries ≤ 32767) ∧
    (fmt.ffRsvdseccount = 0 ∨ 1 ≤ fmt.ffRsvdseccount ∧ fmt.ffRsvdseccount ≤ 32767)

def sectshift (sectorsize : Nat) : Option Nat :=
  if sectorsize = 512 then some 9
  else if sectorsize = 1024 then some 10
  else if sectorsize = 2048 then some 11
  else if sectorsize = 4096 then some 12
  else none

def mkfatfsGetgeometry (fmt : FatFormat) (var : FatVar) (d : Device) :
    Option (FatFormat × FatVar) :=
  if d.available = false ∨ d.writeenabled = false then none
  else if fmt.ffNsectors ≠ 0 ∧ d.nsectors < fmt.ffNsectors then none
  else
    (sectshift d.sectorsize).map fun k =>
      ({ fmt with ffNsectors := if fmt.ffNsectors ≠ 0 then fmt.ffNsectors else d.nsectors },
        { var with
          fvSectorsize := d.sectorsize
          fvSectshift := k })

/-- Where `mkfatfs` returns `OK`: the parameters that it has chosen and the device. `mem` is
whether `malloc` finds memory for the working sector; if it does not, nothing is written and
`ret` is still zero. -/
def mkfatfs (T : Target) (createtime : Nat) (mem : Bool) (fmt : FatFormat) (d : Device) :
    Option (FatFormat × FatVar × Device) :=
  if fmt.ok then
    match mkfatfsGetgeometry fmt ⟨[], 0, 0, fmt.ffFattype, createtime, 0, 0, 0, []⟩ d with
    | none => none
    | some (fmt, var) =>
      match mkfatfsConfigfatfs T fmt var with
      | none => none
      | some (fmt, var) =>
        if mem then (mkfatfsWritefatfs T fmt var d).map fun d => (fmt, var, d)
        else some (fmt, var, d)
  else none

def fsTypeOf (fattype : Nat) : FsType :=
  if fattype = 12 then .fat12
  else if fattype = 16 then .fat16
  else if fattype = 32 then .fat32
  else .none

def entryBytes (type : FsType) (n : Nat) : Nat :=
  match type with
  | .none => 0
  | .fat12 => (3 * n + 1) / 2
  | .fat16 => 2 * n
  | .fat32 => 4 * n

def Device.byte (d : Device) (base k : Nat) : Nat :=
  (d.sect (base + k / d.sectorsize) (k % d.sectorsize)).toNat

def Device.entry (d : Device) (fs : Mountpt) (c : Nat) : Nat :=
  match fs.fsType with
  | .none => 0
  | .fat12 =>
    let b := d.byte fs.fsFatbase (3 * c / 2)
    let b' := d.byte fs.fsFatbase (3 * c / 2 + 1)
    if c % 2 = 1 then b / 2 ^ 4 + b' * 2 ^ 4 else b + b' % 2 ^ 4 * 2 ^ 8
  | .fat16 => d.byte fs.fsFatbase (2 * c) * 2 ^ 8 + d.byte fs.fsFatbase (2 * c + 1)
  | .fat32 =>
    (d.byte fs.fsFatbase (4 * c) * 2 ^ 24 + d.byte fs.fsFatbase (4 * c + 1) * 2 ^ 16 +
      d.byte fs.fsFatbase (4 * c + 2) * 2 ^ 8 + d.byte fs.fsFatbase (4 * c + 3)) % 2 ^ 28

def Device.rootdir (d : Device) (fs : Mountpt) : Nat × Nat :=
  if fs.fsType = .fat32 then
    (fs.fsDatabase + (fs.fsRootbase - 2) * fs.fsFatsecperclus, fs.fsFatsecperclus)
  else (fs.fsRootbase, (32 * fs.fsRootentcnt + d.sectorsize - 1) / d.sectorsize)

structure FormatMounts (fmt : FatFormat) (var : FatVar) (d : Device) (fs : Mountpt) : Prop where
  mounted : fs.fsMounted = true
  type : fs.fsType = fsTypeOf var.fvFattype
  entries : entryBytes fs.fsType (fs.fsNclusters + 2) ≤ fs.fsNfatsects * d.sectorsize
  inside : fs.fsDatabase + fs.fsNclusters * fs.fsFatsecperclus ≤ fs.fsFattotsec
  behind : fs.fsType ≠ .fat32 → (d.rootdir fs).1 + (d.rootdir fs).2 ≤ fs.fsDatabase
  empty : ∀ i, 32 * i < (d.rootdir fs).2 * d.sectorsize →
    d.byte (d.rootdir fs).1 (32 * i) = 0 ∨ d.byte (d.rootdir fs).1 (32 * i + 11) = 0x08
  free : ∀ c, 2 ≤ c → c < fs.fsNclusters + 2 → ¬(fs.fsType = .fat32 ∧ c = 2) → d.entry fs c = 0
  volumeid : fatGetuint32 (d.sect 0) (if fs.fsType = .fat32 then 67 else 39) = fmt.ffVolumeid
  label : ∀ i : Fin 11, (d.sect 0 ((if fs.fsType = .fat32 then 71 else 43) + i)).toNat =
    fmt.ffVolumelabel i

section

variable {p : Sector} {i v x : Nat}

theorem putuint16_of_ne (h : x < i ∨ i + 2 ≤ x) : fatPutuint16 p i v x = p x := by
  unfold fatPutuint16 ubytePut
  rw [update_of_ne (by omega), update_of_ne (by omega)]

theorem putuint32_of_ne {b : Nat} (h : x < i ∨ i + 4 ≤ x) : fatPutuint32 b p i v x = p x := by
  unfold fatPutuint32
  rw [putuint16_of_ne (by omega), putuint16_of_ne (by omega)]

theorem ubytePut_of_ne (h : x < i ∨ i + 1 ≤ x) : ubytePut p i v x = p x :=
  update_of_ne (by omega) _ _

theorem copy_of_ne {l : List Nat} (h : x < i ∨ i + l.length ≤ x) : copy p i l x = p x :=
  if_neg (by omega)

theorem initmbr_signature (T : Target) (fmt : FatFormat) (var : FatVar) :
    mbrGetsignature (mkfatfsInitmbr T fmt var) = 0x55aa := by
  unfold mbrGetsignature fatGetuint16 mkfatfsInitmbr
  unfold fatPutuint16 ubytePut bootSignature16
  rw [update_of_ne (by decide), update_self, update_self]
  decide

variable {T : Target} {fmt : FatFormat} {var : FatVar}

theorem initmbr16_beyond (hb : var.fvBootcode.length ≤ 129) (hx : 200 ≤ x) :
    initmbr16 T fmt var p x = p x := by
  unfold initmbr16
  rw [copy_of_ne (.inr (by omega)), copy_of_ne (.inr (by simp; omega)),
    copy_of_ne (.inr (by simp; omega)), putuint32_of_ne (.inr (by omega)),
    ubytePut_of_ne (.inr (by omega)), putuint16_of_ne (.inr (by omega))]

theorem initmbr32_beyond (hb : var.fvBootcode.length ≤ 129) (hx : 200 ≤ x) :
    initmbr32 T fmt var p x = p x := by
  unfold initmbr32
  rw [copy_of_ne (.inr (by omega)), copy_of_ne (.inr (by simp; omega)),
    copy_of_ne (.inr (by simp; omega)), putuint32_of_ne (.inr (by omega)),
    ubytePut_of_ne (.inr (by omega)), putuint16_of_ne (.inr (by omega)),
    putuint16_of_ne (.inr (by omega)), putuint32_of_ne (.inr (by omega)),
    putuint32_of_ne (.inr (by omega))]

theorem initmbr_parttype (hb : var.fvBootcode.length ≤ 129) (hj : var.fvJump.length ≤ 3) :
    part1Gettype (mkfatfsInitmbr T fmt var) = 0 := by
  unfold part1Gettype mkfatfsInitmbr
  rw [putuint16_of_ne (.inl (by decide))]
  have hstart : ∀ q : Sector, q 450 = 0 →
      (if fmt.ffFattype ≠ 32 then initmbr16 T fmt var q else initmbr32 T fmt var q) 450 = 0 := by
    intro q hq
    split
    · rw [initmbr16_beyond hb (by decide), hq]
    · rw [initmbr32_beyond hb (by decide), hq]
  have htotsec : ∀ q : Sector, q 450 = 0 →
      (if 65536 ≤ fmt.ffNsectors then fatPutuint32 (T.beyond 32) q 32 fmt.ffNsectors
        else fatPutuint16 q 19 fmt.ffNsectors) 450 = 0 := by
    intro q hq
    split
    · rw [putuint32_of_ne (.inr (by decide)), hq]
    · rw [putuint16_of_ne (.inr (by decide)), hq]
  rw [hstart]
  · rfl
  rw [putuint32_of_ne (.inr (by decide)), putuint16_of_ne (.inr (by decide)),
    putuint16_of_ne (.inr (by decide)), ubytePut_of_ne (.inr (by decide)), htotsec]
  rw [putuint16_of_ne (.inr (by decide)), ubytePut_of_ne (.inr (by decide)),
    putuint16_of_ne (.inr (by decide)), ubytePut_of_ne (.inr (by decide)),
    putuint16_of_ne (.inr (by decide)), copy_of_ne (.inr (by decide)),
    copy_of_ne (.inr (by omega))]

end

section

variable {T : Target} {fmt fmt' : FatFormat} {var var' : FatVar} {d d' : Device}

/-- The same device with other contents, but not in its first sector. -/
structure First (d d' : Device) : Prop where
  nsectors : d'.nsectors = d.nsectors
  sectorsize : d'.sectorsize = d.sectorsize
  first : d'.sect 0 = d.sect 0

theorem First.trans {d'' : Device} (h : First d d') (h' : First d' d'') : First d d'' :=
  ⟨h'.nsectors.trans h.nsectors, h'.sectorsize.trans h.sectorsize, h'.first.trans h.first⟩

theorem devWrite_some {sectno : Nat} {p : Sector} (h : devWrite d sectno p = some d') :
    sectno < d.nsectors ∧ d' = { d with sect := update d.sect sectno p } := by
  unfold devWrite at h
  split at h
  · rename_i hlt
    exact ⟨hlt, (Option.some.inj h).symm⟩
  · cases h

theorem devWrite_first {sectno : Nat} {p : Sector} (hs : 0 < sectno)
    (h : devWrite d sectno p = some d') : First d d' := by
  obtain ⟨-, rfl⟩ := devWrite_some h
  exact ⟨rfl, rfl, update_of_ne (Nat.ne_of_lt hs) _ _⟩

theorem writeSectors_first {data : Nat → Sector} {n i offset next : Nat} (ho : 0 < offset)
    (hlt : offset < 2 ^ 32) (hd : d.nsectors < 2 ^ 32)
    (h : writeSectors data n i offset d = some (next, d')) :
    First d d' ∧ next = offset + n ∧ next < 2 ^ 32 := by
  induction n generalizing i offset d with
  | zero =>
    cases h
    exact ⟨⟨rfl, rfl, rfl⟩, rfl, hlt⟩
  | succ n ih =>
    unfold writeSectors at h
    cases hw : devWrite d offset (data i) with
    | none =>
      rw [hw] at h
      cases h
    | some d₁ =>
      rw [hw] at h
      dsimp only at h
      have hfirst := devWrite_first ho hw
      obtain ⟨hin, -⟩ := devWrite_some hw
      have hwrap : wrap32 (offset + 1) = offset + 1 := wrap32_of_lt (by omega)
      rw [hwrap] at h
      obtain ⟨h1, h2, h3⟩ :=
        ih (Nat.succ_pos _) (by omega) (hfirst.nsectors ▸ hd) h
      exact ⟨hfirst.trans h1, by omega, h3⟩

theorem writefat_first {n offset next : Nat} (ho : 0 < offset) (hlt : offset < 2 ^ 32)
    (hd : d.nsectors < 2 ^ 32) (h : mkfatfsWritefat fmt var n offset d = some (next, d')) :
    First d d' ∧ next = offset + n * var.fvNfatsects ∧ next < 2 ^ 32 := by
  induction n generalizing offset d with
  | zero =>
    cases h
    exact ⟨⟨rfl, rfl, rfl⟩, by rw [Nat.zero_mul, Nat.add_zero], hlt⟩
  | succ n ih =>
    unfold mkfatfsWritefat at h
    cases hw : writeSectors (initfat fmt) var.fvNfatsects 0 offset d with
    | none =>
      rw [hw] at h
      cases h
    | some r =>
      obtain ⟨mid, d₁⟩ := r
      rw [hw] at h
      dsimp only at h
      obtain ⟨h1, h2, h3⟩ := writeSectors_first ho hlt hd hw
      obtain ⟨h4, h5, h6⟩ := ih (by omega) h3 (h1.nsectors ▸ hd) h
      refine ⟨h1.trans h4, ?_, h6⟩
      rw [h5, h2, Nat.succ_mul]
      omega

def Rsvd (n : Nat) : Prop := 1 ≤ n ∧ n < 2 ^ 16

theorem writefatfs_first (hr : Rsvd fmt.ffRsvdseccount) (hd : d.nsectors < 2 ^ 32)
    (h : mkfatfsWritefatfs T fmt var d = some d') :
    d'.nsectors = d.nsectors ∧ d'.sectorsize = d.sectorsize ∧
      d'.sect 0 = mkfatfsInitmbr T fmt var := by
  have hmbr : ∀ {d₁}, mkfatfsWritembr T fmt var d = some d₁ →
      d₁.nsectors = d.nsectors ∧ d₁.sectorsize = d.sectorsize ∧
        d₁.sect 0 = mkfatfsInitmbr T fmt var := by
    intro d₁ h
    unfold mkfatfsWritembr at h
    cases hw : devWrite d 0 (mkfatfsInitmbr T fmt var) with
    | none =>
      rw [hw] at h
      cases h
    | some d₂ =>
      obtain ⟨-, rfl⟩ := devWrite_some hw
      rw [hw] at h
      dsimp only at h
      split at h
      · cases h
      · rename_i next d₃ hz
        obtain ⟨F, -, -⟩ := writeSectors_first (d := { d with
          sect := update d.sect 0 (mkfatfsInitmbr T fmt var) }) Nat.one_pos
          (show 1 < 2 ^ 32 by decide) hd hz
        have hstart : d₃.nsectors = d.nsectors ∧ d₃.sectorsize = d.sectorsize ∧
            d₃.sect 0 = mkfatfsInitmbr T fmt var :=
          ⟨F.nsectors, F.sectorsize, F.first.trans (update_self 0 (mkfatfsInitmbr T fmt var) d.sect)⟩
        have hend : ∀ {d₄}, First d₃ d₄ → d₄.nsectors = d.nsectors ∧
            d₄.sectorsize = d.sectorsize ∧ d₄.sect 0 = mkfatfsInitmbr T fmt var :=
          fun G => ⟨G.nsectors.trans hstart.1, G.sectorsize.trans hstart.2.1,
            G.first.trans hstart.2.2⟩
        split at h
        · split at h
          · cases h
          · rename_i d₄ hb
            have G := devWrite_first (by decide) h
            split at hb
            · rename_i hne
              exact hend ((devWrite_first (Nat.pos_of_ne_zero hne) hb).trans G)
            · cases hb
              exact hend G
        · cases h
          exact hstart
  unfold mkfatfsWritefatfs at h
  split at h
  · cases h
  · rename_i d₁ hm
    obtain ⟨h1, h2, h3⟩ := hmbr hm
    split at h
    · cases h
    · rename_i next d₂ hf
      have hlt : fmt.ffRsvdseccount < 2 ^ 32 := by
        have := hr.2
        omega
      obtain ⟨F, hnext, hn32⟩ := writefat_first hr.1 hlt (by rw [h1]; exact hd) hf
      obtain ⟨⟨last, d₃⟩, hw, rfl⟩ := Option.map_eq_some_iff.mp h
      rw [wrap32_of_lt (by rw [← hnext]; exact hn32), ← hnext] at hw
      have hpos : 0 < next := by
        have := hr.1
        omega
      obtain ⟨G, -, -⟩ := writeSectors_first hpos hn32 (by rw [F.nsectors, h1]; exact hd) hw
      have H := F.trans G
      exact ⟨H.nsectors.trans h1, H.sectorsize.trans h2, H.first.trans h3⟩

theorem fatMount_initmbr (sectorsize nsectors : Nat) {dev : Nat → Sector}
    (hb : var.fvBootcode.length ≤ 129) (hj : var.fvJump.length ≤ 3)
    (h : dev 0 = mkfatfsInitmbr T fmt var) :
    (fatMount sectorsize nsectors dev).fs.fsMounted = false := by
  have hcheck : fatCheckbootrecord (mountStart sectorsize nsectors (dev 0)) =
      (mountStart sectorsize nsectors (dev 0), false) := by
    unfold fatCheckbootrecord
    dsimp only
    refine if_pos (.inl ?_)
    show mbrGetsignature (dev 0) ≠ bootSignature16
    rw [h, initmbr_signature]
    decide
  have hfind : findBootrecord sectorsize nsectors dev =
      (mountStart sectorsize nsectors (dev 0), false) := by
    unfold findBootrecord
    dsimp only
    rw [hcheck, if_neg (by simp), if_pos]
    rw [h]
    exact initmbr_parttype hb hj
  unfold fatMount
  dsimp only
  rw [hfind, if_pos rfl]
  rfl

end

section

variable {T : Target} {fmt fmt' : FatFormat} {var var' : FatVar} {c12 c16 c32 : FatConfig}

theorem tryfat_rsvd (fmt : FatFormat) (c : FatConfig) (n m cap margin least : Nat) :
    (refused (tryfat fmt c n m cap margin least)).fcRsvdseccount = c.fcRsvdseccount ∧
      (tryfat fmt c n m cap margin least).1.fcRsvdseccount = c.fcRsvdseccount := by
  have htry : (tryfat fmt c n m cap margin least).1.fcRsvdseccount = c.fcRsvdseccount := by
    unfold tryfat
    split <;> rfl
  refine ⟨?_, htry⟩
  unfold refused
  split
  · exact htry
  · exact htry

theorem selectfat_rsvd (fattype : Nat) (fmt : FatFormat) (var : FatVar)
    (h : Rsvd c12.fcRsvdseccount) :
    Rsvd (mkfatfsSelectfat fattype fmt var c12).1.ffRsvdseccount := by
  show Rsvd (c12.fcRsvdseccount % 2 ^ 16)
  rw [Nat.mod_eq_of_lt h.2]
  exact h

/-- One turn of the search selects a configuration or goes on; the reserved sectors are those
that it was given. -/
theorem searchLoop_rsvd {n : Nat} (h12 : Rsvd c12.fcRsvdseccount) (h16 : Rsvd c16.fcRsvdseccount)
    (h32 : Rsvd c32.fcRsvdseccount)
    (h : searchLoop T n fmt var c12 c16 c32 = some (fmt', var')) :
    Rsvd fmt'.ffRsvdseccount := by
  induction n generalizing fmt c12 c16 c32 with
  | zero => cases h
  | succ n ih =>
    unfold searchLoop at h
    dsimp only at h
    have k12 : Rsvd (searchFat12 fmt var c12).fcRsvdseccount := by
      unfold searchFat12
      split
      · unfold mkfatfsTryfat12
        rw [(tryfat_rsvd _ _ _ _ _ _ _).1]
        exact h12
      · exact h12
    have k16 : Rsvd (searchFat16 T fmt var c16).fcRsvdseccount := by
      unfold searchFat16
      split
      · unfold mkfatfsTryfat16
        rw [(tryfat_rsvd _ _ _ _ _ _ _).1]
        exact h16
      · exact h16
    split at h
    · split at h
      · cases h
        exact selectfat_rsvd 16 _ var k16
      · cases h
        exact selectfat_rsvd 12 _ var k12
    · split at h
      · split at h
        · cases h
          refine selectfat_rsvd 32 _ var ?_
          unfold mkfatfsTryfat32
          rw [(tryfat_rsvd _ _ _ _ _ _ _).2]
          exact h32
        · refine ih k12 k16 ?_ h
          unfold mkfatfsTryfat32
          rw [(tryfat_rsvd _ _ _ _ _ _ _).1]
          exact h32
      · exact ih k12 k16 h32 h

theorem clustersearch_rsvd (hr : fmt.ffRsvdseccount ≤ 32767)
    (h : mkfatfsClustersearch T fmt var = some (fmt', var')) : Rsvd fmt'.ffRsvdseccount := by
  have h16 : Rsvd (if fmt.ffRsvdseccount ≠ 0 then fmt.ffRsvdseccount else 1) := by
    unfold Rsvd
    split <;> omega
  have h32 : Rsvd (if fmt.ffRsvdseccount ≠ 0 then
      (if fmt.ffRsvdseccount < 2 then 2 else fmt.ffRsvdseccount) else 32) := by
    unfold Rsvd
    split
    · split <;> omega
    · omega
  exact searchLoop_rsvd h16 h16 h32 h

structure Configured (fmt : FatFormat) (var : FatVar) : Prop where
  rsvd : Rsvd fmt.ffRsvdseccount
  bootcode : var.fvBootcode.length ≤ 129
  jump : var.fvJump.length ≤ 3

theorem configfatfs_configured (hr : fmt.ffRsvdseccount ≤ 32767)
    (h : mkfatfsConfigfatfs T fmt var = some (fmt', var')) : Configured fmt' var' := by
  unfold mkfatfsConfigfatfs at h
  have hr' : (defaultRootdir fmt).ffRsvdseccount ≤ 32767 := by
    unfold defaultRootdir
    split <;> exact hr
  split at h
  · cases h
  · rename_i fmt₁ var₁ hs
    have hrsvd := clustersearch_rsvd hr' hs
    split at h
    · cases h
      exact ⟨hrsvd, Nat.le_refl 129, Nat.le_refl 3⟩
    · cases h
      exact ⟨hrsvd, Nat.le_refl 129, Nat.le_refl 3⟩

theorem getgeometry_rsvd {d : Device} (h : mkfatfsGetgeometry fmt var d = some (fmt', var')) :
    fmt'.ffRsvdseccount = fmt.ffRsvdseccount := by
  unfold mkfatfsGetgeometry at h
  split at h
  · cases h
  split at h
  · cases h
  obtain ⟨k, -, heq⟩ := Option.map_eq_some_iff.mp h
  cases heq
  rfl

end

/-- A device that `mkfatfs` has written is not mounted: `fat_getuint16` reads the signature
with its bytes exchanged. Only where `malloc` fails can the mount find what was asked for,
and then it was on the device before. -/
theorem format_mounts_iff {T : Target} {createtime : Nat} {mem : Bool} {fmt fmt' : FatFormat}
    {var : FatVar} {d d' : Device} (hd : d.nsectors < 2 ^ 32)
    (h : mkfatfs T createtime mem fmt d = some (fmt', var, d')) :
    FormatMounts fmt' var d' (fatMount d'.sectorsize d'.nsectors d'.sect).fs ↔
      mem = false ∧ FormatMounts fmt' var d (fatMount d.sectorsize d.nsectors d.sect).fs := by
  unfold mkfatfs at h
  split at h
  · rename_i hok
    split at h
    · cases h
    · rename_i fmt₁ var₁ hg
      split at h
      · cases h
      · rename_i fmt₂ var₂ hc
        have hr : fmt₁.ffRsvdseccount ≤ 32767 := by
          rw [getgeometry_rsvd hg]
          unfold FatFormat.ok at hok
          have hle := (of_decide_eq_true hok).2.2.2.2.2
          omega
        have C := configfatfs_configured hr hc
        cases mem with
        | false =>
          cases h
          exact ⟨fun F => ⟨rfl, F⟩, fun F => F.2⟩
        | true =>
          obtain ⟨d₁, hw, heq⟩ := Option.map_eq_some_iff.mp h
          cases heq
          obtain ⟨-, -, hfirst⟩ := writefatfs_first C.rsvd hd hw
          constructor
          · intro F
            have hmounted := F.mounted
            rw [fatMount_initmbr _ _ C.bootcode C.jump hfirst] at hmounted
            cases hmounted
          · intro F
            cases F.1
  · cases h

/-- Shifts of the target take the low five bits of the amount. -/
def avr32 : Target := ⟨fun n k => n * 2 ^ (k % 32), fun _ => 0⟩

/-- A device of 2880 sectors, to be formatted with two FATs and everything else by default. -/
def floppy : Device := ⟨true, true, 2880, 512, fun _ _ => 0⟩

def floppyFormat : FatFormat := ⟨2, 0, 0xff, fun _ => 0x20, 0, 0, 0, 0, 0, 0⟩

theorem floppy_formatted : (mkfatfs avr32 0 true floppyFormat floppy).isSome = true := by
  decide +kernel

theorem format_mounts_run : ∃ fmt var d, mkfatfs avr32 0 true floppyFormat floppy =
    some (fmt, var, d) ∧ ¬ FormatMounts fmt var d (fatMount d.sectorsize d.nsectors d.sect).fs := by
  obtain ⟨⟨fmt, var, d⟩, h⟩ := Option.isSome_iff_exists.mp floppy_formatted
  refine ⟨fmt, var, d, h, fun F => ?_⟩
  cases ((format_mounts_iff (by decide) h).mp F).1

/-- `fat_mount` does not mount the floppy that `mkfatfs` has formatted. -/
theorem formatted_not_mounted : ¬ ∀ (T : Target) (createtime : Nat) (mem : Bool)
    (fmt fmt' : FatFormat) (var : FatVar) (d d' : Device), d.nsectors < 2 ^ 32 →
    mkfatfs T createtime mem fmt d = some (fmt', var, d') →
    FormatMounts fmt' var d' (fatMount d'.sectorsize d'.nsectors d'.sect).fs := by
  intro hall
  obtain ⟨⟨fmt, var, d⟩, h⟩ := Option.isSome_iff_exists.mp floppy_formatted
  have F := hall avr32 0 true floppyFormat fmt var floppy d (by decide) h
  have hdev : ((mkfatfs avr32 0 true floppyFormat floppy).map fun r =>
      (fatMount r.2.2.sectorsize r.2.2.nsectors r.2.2.sect).fs.fsMounted) = some false := by
    decide +kernel
  rw [h] at hdev
  have hnot : (fatMount d.sectorsize d.nsectors d.sect).fs.fsMounted = false :=
    Option.some.inj hdev
  exact Bool.false_ne_true (hnot.symm.trans F.mounted)

end NuttxAvr32.Fat
