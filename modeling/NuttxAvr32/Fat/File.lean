import NuttxAvr32.Fat.Volume

/-! # Open files

`struct fat_file_s` and the functions that tell a file where it is.
-/

namespace NuttxAvr32.Fat

/-- `struct fat_file_s` as far as reads, writes and seeks use it. `rdok` and `wrok` are bits of
`ff_oflags`, the last three flags those of `ff_bflags`. -/
structure FatFile where
  rdok : Bool
  wrok : Bool
  ffSectorsincluster : Nat
  ffCurrentcluster : Nat
  ffSize : Int
  ffStartcluster : Nat
  ffCurrentsector : Nat
  ffCachesector : Nat
  ffBuffer : Sector
  valid : Bool
  dirty : Bool
  modified : Bool

/-- The value of an `off_t`, `ssize_t` or `int`. -/
def offT (i : Int) : Int := Int.bmod i (2 ^ 32)

abbrev eacces : Int := 13
abbrev enodev : Int := 19
abbrev einval : Int := 22
abbrev efbig : Int := 27
abbrev enospc : Int := 28

def fatCluster2sector (fs : Mountpt) (cluster : Nat) : Int :=
  let cluster := wrapInt (cluster - 2)
  if wrapInt (fs.fsNclusters - 2) ≤ cluster then -einval
  else offT (cluster * fs.fsFatsecperclus + fs.fsDatabase)

def sectorIndex (fs : Mountpt) (position : Int) : Nat :=
  wrapInt position &&& wrapInt (fs.fsHwsectorsize - 1)

def sectorOffset (fs : Mountpt) (position : Int) : Nat :=
  wrapInt position / fs.fsHwsectorsize &&& wrapInt (fs.fsFatsecperclus - 1)

/-- `fat_currentsector`; the flag is false where it fails. -/
def fatCurrentsector (fs : Mountpt) (ff : FatFile) (position : Int) : FatFile × Bool :=
  if position ≤ ff.ffSize then
    let sectoroffset := sectorOffset fs position
    ({ ff with
        ffCurrentsector := wrapInt (fatCluster2sector fs ff.ffCurrentcluster + sectoroffset)
        ffSectorsincluster := wrapInt (fs.fsFatsecperclus - sectoroffset) % 2 ^ 8 }, true)
  else (ff, false)

end NuttxAvr32.Fat
