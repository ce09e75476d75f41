import NuttxAvr32.Fat.Frame
import NuttxAvr32.Fat.Lookup

/-! # Creating and removing by path

`fat_open` with `O_CREAT`, `fat_mkdir`, `fat_rename` and `fat_rmdir` on a mount that is healthy
and a device that makes no errors. Where a lookup fails, an entry is created in the directory
where it has failed, whichever component that was.
-/

namespace NuttxAvr32.Fat.Paths

open Scan Lookup Allocate

/-- What the calls depend on beside the volume: the configuration, the turns of the loops, the
result of `fat_systime2fattime`, the name that an uninitialized `dirinfo` has, and the half
words that `fat_putuint32` reads behind its argument. -/
structure Env where
  lcnames : Bool
  fuel : Nat
  time : Nat
  fdName : Nat → Nat
  beyond : Nat → Nat

def find (env : Env) (path : List Nat) (s : State) : Option (State × Dirinfo × Ret) :=
  fatFinddirentry env.lcnames env.fuel env.fuel path env.fdName s

def initEntry (name : Nat → Nat) (e : Nat) (p : Sector) : Sector :=
  fun x =>
    if e ≤ x ∧ x < e + 11 then UInt8.ofNat (name (x - e))
    else if e ≤ x ∧ x < e + 32 then 0
    else p x

def fileEntry (time : Nat) (name : Nat → Nat) (e : Nat) (p : Sector) : Sector :=
  let p := initEntry name e p
  let p := ubytePut p (e + 12) 0
  let p := ubytePut p (e + 11) 0x20
  let p := fatPutuint16 p (e + 22) (time % 2 ^ 16)
  let p := fatPutuint16 p (e + 14) (time % 2 ^ 16)
  let p := fatPutuint16 p (e + 24) (time / 2 ^ 16 % 2 ^ 16)
  fatPutuint16 p (e + 16) (time / 2 ^ 16 % 2 ^ 16)

def putTimes (time e : Nat) (p : Sector) : Sector :=
  let p := fatPutuint16 p (e + 14) (time % 2 ^ 16)
  let p := fatPutuint16 p (e + 22) (time % 2 ^ 16)
  let p := fatPutuint16 p (e + 16) (time / 2 ^ 16 % 2 ^ 16)
  fatPutuint16 p (e + 24) (time / 2 ^ 16 % 2 ^ 16)

def dirEntry (time cluster : Nat) (name : Nat → Nat) (e : Nat) (p : Sector) : Sector :=
  let p := ubytePut (initEntry name e p) (e + 11) 0x10
  let p := putTimes time e p
  let p := fatPutuint16 p (e + 26) (cluster % 2 ^ 16)
  fatPutuint16 p (e + 20) (cluster / 2 ^ 16 % 2 ^ 16)

def movedEntry (old : Sector) (name : Nat → Nat) (e : Nat) (p : Sector) : Sector :=
  let p : Sector := fun x => if e + 11 ≤ x ∧ x < e + 32 then old (x - e) else p x
  let p : Sector := fun x => if e ≤ x ∧ x < e + 11 then UInt8.ofNat (name (x - e)) else p x
  ubytePut p (e + 12) 0

def dotEntries (time cluster parent : Nat) (p : Sector) : Sector :=
  let p : Sector := fun x => if x < 11 then 0x20 else p x
  let p := ubytePut p 0 0x2e
  let p := ubytePut p 11 0x10
  let p := putTimes time 0 p
  let p : Sector := fun x => if 32 ≤ x ∧ x < 64 then p (x - 32) else p x
  let p := ubytePut p 33 0x2e
  let p := fatPutuint16 p 20 (cluster / 2 ^ 16 % 2 ^ 16)
  let p := fatPutuint16 p 26 (cluster % 2 ^ 16)
  let p := fatPutuint16 p 52 (parent / 2 ^ 16 % 2 ^ 16)
  fatPutuint16 p 58 (parent % 2 ^ 16)

def fatDircreate (env : Env) (info : Dirinfo) (s : State) : Option (State × Ret) :=
  match fatAllocatedirentry env.fuel info.dir s with
  | none => none
  | some (s, _, none) => some (s, .eperm)
  | some (s, _, some e) =>
    some (setDirty (setBuffer (fileEntry env.time info.fdName e s.fs.fsBuffer) s), .ok)

def fatOpen (env : Env) (excl wronly : Bool) (path : List Nat) (s : State) :
    Option (State × Ret) :=
  match find env path s with
  | none => none
  | some (s, info, .ok) =>
    match info.fdEntry with
    | none => some (s, .eisdir)
    | some e =>
      if isDirectory (entryAt s.fs e) then some (s, .eisdir)
      else if excl then some (s, .eexist)
      else if wronly ∧ (entryAt s.fs e 11).toNat &&& 0x01 ≠ 0 then some (s, .eacces)
      else some (s, .ok)
  | some (s, info, .enoent) => fatDircreate env info s
  | some (s, _, ret) => some (s, ret)

def zeroSectors : Nat → Nat → State → State
  | 0, _, s => s
  | n + 1, sector, s =>
    zeroSectors n (sector + 1)
      { s with
        dev := Function.update s.dev (sector + 1) s.fs.fsBuffer
        written := s.written ++ [sector + 1] }

/-- The new cluster is filled: its first sector stays in the buffer. -/
def fillCluster (env : Env) (cluster parent : Nat) (s : State) : State :=
  let dirsector := wrapInt (fatCluster2sector s.fs cluster)
  let s := (fatFscacheflush none s).1
  let s :=
    { s with
      fs :=
        { s.fs with
          fsBuffer := fun x => if x < s.fs.fsHwsectorsize then 0 else s.fs.fsBuffer x
          fsCurrentsector := dirsector } }
  let s := zeroSectors (s.fs.fsFatsecperclus - 1) dirsector s
  let parent := if s.fs.fsType ≠ .fat32 ∧ parent = s.fs.fsRootbase then 0 else parent
  setDirty (setBuffer (dotEntries env.time cluster parent s.fs.fsBuffer) s)

def fatMkdir (env : Env) (path : List Nat) (s : State) : Option (State × Ret) :=
  match find env path s with
  | none => none
  | some (s, _, .ok) => some (s, .eexist)
  | some (s, info, .enoent) =>
    match fatAllocatedirentry env.fuel info.dir s with
    | none => none
    | some (s, _, none) => some (s, .eperm)
    | some (s, dir, some e) =>
      let parentsector := s.fs.fsCurrentsector
      match fatExtendchain (env.beyond 0) (env.beyond 1) env.fuel 0 s with
      | none => none
      | some (s, none) => some (s, .einval)
      | some (s, some cluster) =>
        if cluster < 2 then some (s, .enospc)
        else
          let s := fillCluster env cluster dir.fdStartcluster s
          let s := (cacheread .ok parentsector s).1
          let s := setDirty (setBuffer
            (dirEntry env.time cluster info.fdName e s.fs.fsBuffer) s)
          some ((fatUpdatefsinfo (env.beyond 2) none none s).1, .ok)
  | some (s, _, ret) => some (s, ret)

def fatRename (env : Env) (oldpath newpath : List Nat) (s : State) : Option (State × Ret) :=
  match find env oldpath s with
  | none => none
  | some (s, info, .ok) =>
    match info.fdEntry with
    | none => some (s, .exdev)
    | some olde =>
      let oldsector := s.fs.fsCurrentsector
      let dirstate := entryAt s.fs olde
      match find env newpath s with
      | none => none
      | some (s, _, .ok) => some (s, .eexist)
      | some (s, info, .enoent) =>
        match fatAllocatedirentry env.fuel info.dir s with
        | none => none
        | some (s, _, none) => some (s, .eperm)
        | some (s, _, some e) =>
          let s := setDirty (setBuffer (movedEntry dirstate info.fdName e s.fs.fsBuffer) s)
          let s := (cacheread .ok oldsector s).1
          let s := setDirty (setBuffer (ubytePut s.fs.fsBuffer olde 0xe5) s)
          some ((fatUpdatefsinfo (env.beyond 2) none none s).1, .ok)
      | some (s, _, ret) => some (s, ret)
  | some (s, _, ret) => some (s, ret)

def stopsEmpty (p : Sector) : Bool := p 0 = 0 || Readdir.isLive p

def fatRemove (env : Env) (path : List Nat) (directory : Bool) (s : State) :
    Option (State × Ret) :=
  match find env path s with
  | none => none
  | some (s, info, .ok) =>
    match info.fdEntry with
    | none => some (s, .eperm)
    | some e =>
      let direntry := entryAt s.fs e
      if (direntry 11).toNat &&& 0x01 ≠ 0 then some (s, .eacces)
      else
        let dirsector := s.fs.fsCurrentsector
        let dircluster := fstclust direntry
        let finish (s : State) : Option (State × Ret) :=
          let s := (cacheread .ok dirsector s).1
          let s := setDirty (setBuffer (ubytePut s.fs.fsBuffer e 0xe5) s)
          match fatRemovechain env.beyond env.fuel dircluster s with
          | none => none
          | some (s, false) => some (s, .einval)
          | some (s, true) => some ((fatUpdatefsinfo (env.beyond 2) none none s).1, .ok)
        if isDirectory direntry then
          if directory = false then some (s, .eisdir)
          else
            match scanDir stopsEmpty env.fuel
                { subdir s.fs dircluster with fdStartcluster := info.dir.fdStartcluster } s with
            | none => none
            | some (s, _, none) => some (s, .eperm)
            | some (s, _, some sub) =>
              if entryAt s.fs sub 0 = 0 then finish s else some (s, .enotempty)
        else if directory then some (s, .enotdir)
        else finish s
  | some (s, _, _) => some (s, .enoent)

def fatRmdir (env : Env) (path : List Nat) (s : State) : Option (State × Ret) :=
  fatRemove env path true s

inductive Op
  | creat (excl wronly : Bool) (c : Component) (cs : List Component)
  | mkdir (c : Component) (cs : List Component)
  | rename (old : Component) (olds : List Component) (c : Component) (cs : List Component)
  | rmdir (c : Component) (cs : List Component)

def Op.run (env : Env) : Op → State → Option (State × Ret)
  | .creat excl wronly c cs, s => fatOpen env excl wronly (pathOf c cs) s
  | .mkdir c cs, s => fatMkdir env (pathOf c cs) s
  | .rename old olds c cs, s => fatRename env (pathOf old olds) (pathOf c cs) s
  | .rmdir c cs, s => fatRmdir env (pathOf c cs) s

def InSlot (fs : Mountpt) (cs : List Nat) (j x o : Nat) : Prop :=
  x = sectorAt fs cs (j / dirsecNdirs fs) ∧ dirsecBytendx fs j ≤ o ∧ o < dirsecBytendx fs j + 32

def InFree (s : State) (x _o : Nat) : Prop :=
  ∃ c, Valid s c ∧ entry s c = 0 ∧ clusterSector s.fs c ≤ x ∧
    x < clusterSector s.fs c + s.fs.fsFatsecperclus

/-- A free entry of the directory has become one with this name, and behind the FATs nothing
else has changed but what lies in the hole. -/
def Created (s s' : State) (cs : List Nat) (first : Nat) (name : Nat → Nat) (dir : Bool)
    (hole : Nat → Nat → Prop) : Prop :=
  ∃ j, FreeSlot s cs j ∧ LiveAt s' cs first j ∧ isNamed name (slotAt s' cs j) = true ∧
    isDirectory (slotAt s' cs j) = dir ∧
      ∀ x o, Behind s.fs x → ¬ InSlot s.fs cs j x o → ¬ hole x o → view s' x o = view s x o

def Unchanged (s s' : State) : Prop := ∀ x, view s' x = view s x

/-- An entry is created exactly where the directory exists and has none of the name. -/
structure CreatesRight (s : State) (dirs : Nat → List Nat) (t : Destination) (dir : Bool)
    (hole : Nat → Nat → Prop) (r : State × Ret) : Prop where
  create : ∀ start first c, t = .missing start first c true →
    r.2 = .ok ∧ Created s r.1 (dirs start) first c.dirname dir hole
  absent : ∀ start first c, t = .missing start first c false →
    (r.2 = .enoent ∨ r.2 = .enotdir) ∧ Unchanged s r.1
  notdir : t = .notdir → (r.2 = .enoent ∨ r.2 = .enotdir) ∧ Unchanged s r.1
  present : ∀ start first j, t = .found start first j → Unchanged s r.1

def Empty (s : State) (cs : List Nat) : Prop := ∀ k, ¬ LiveAt s cs 2 k

/-- The path leads to a directory without live entries, which is entry `j` of its own
directory. -/
def LeadsToEmpty (s : State) (dirs : Nat → List Nat) (t : Destination) (start j : Nat) : Prop :=
  (∃ first, t = .found start first j) ∧ isDirectory (slotAt s (dirs start) j) = true ∧
    Empty s (dirs (fstclust (slotAt s (dirs start) j)))

/-- Exactly the directories without live entries are removed. -/
structure RemovesRight (s : State) (dirs : Nat → List Nat) (t : Destination) (r : State × Ret) :
    Prop where
  removes : ∀ start j, LeadsToEmpty s dirs t start j →
    r.2 = .ok ∧ slotAt r.1 (dirs start) j 0 = 0xe5 ∧
      ∀ x o, Behind s.fs x → ¬ InSlot s.fs (dirs start) j x o → view r.1 x o = view s x o
  keeps : (∀ start j, ¬ LeadsToEmpty s dirs t start j) → r.2 ≠ .ok ∧ Unchanged s r.1

/-- The lookup succeeds exactly where the object exists, and `fd_entry` is its entry. -/
def FindsRight (env : Env) (s : State) (dirs : Nat → List Nat) (c : Component)
    (cs : List Component) : Prop :=
  ∃ r, find env (pathOf c cs) s = some r ∧
    (r.2.2 = .ok ↔ ∃ start first j, target s dirs c cs = .found start first j) ∧
      ∀ start first j, target s dirs c cs = .found start first j →
        ∃ e, r.2.1.fdEntry = some e ∧ entryAt r.1.fs e = slotAt s (dirs start) j ∧
          r.1.fs.fsCurrentsector = sectorAt s.fs (dirs start) (j / dirsecNdirs s.fs) ∧
            e = dirsecBytendx s.fs j

def RenamesRight (s : State) (dirs : Nat → List Nat) (old t : Destination) (r : State × Ret) :
    Prop :=
  match old with
  | .found start _ j =>
    CreatesRight s dirs t (isDirectory (slotAt s (dirs start) j)) (InSlot s.fs (dirs start) j) r
  | _ => Unchanged s r.1

def Op.Finds (env : Env) (s : State) (dirs : Nat → List Nat) : Op → Prop
  | .creat _ _ c cs => FindsRight env s dirs c cs
  | .mkdir c cs => FindsRight env s dirs c cs
  | .rename old olds c cs => FindsRight env s dirs old olds ∧ FindsRight env s dirs c cs
  | .rmdir c cs => FindsRight env s dirs c cs

def Op.Right (s : State) (dirs : Nat → List Nat) : Op → State × Ret → Prop
  | .creat _ _ c cs, r =>
    CreatesRight s dirs (target s dirs c cs) false (fun _ _ => False) r
  | .mkdir c cs, r => CreatesRight s dirs (target s dirs c cs) true (InFree s) r
  | .rename old olds c cs, r => RenamesRight s dirs (target s dirs old olds) (target s dirs c cs) r
  | .rmdir c cs, r => RemovesRight s dirs (target s dirs c cs) r

/-- No component in the middle is missing, and where an entry is to be created there is room. -/
def Room (t : Destination) (room : Nat → Prop) : Prop :=
  ∀ start first c last, t = .missing start first c last → last = true ∧ room start

def Removable (s : State) (dirs : Nat → List Nat) (t : Destination) : Prop :=
  ∀ start j, LeadsToEmpty s dirs t start j →
    (slotAt s (dirs start) j 11).toNat &&& 0x01 = 0 ∧
      Readdir.Ended s (dirs (fstclust (slotAt s (dirs start) j))) 2

def Renamable (s : State) (dirs : Nat → List Nat) (old t : Destination) : Prop :=
  (∃ start first j, old = .found start first j) → Room t fun start => HasSlot s (dirs start)

def Op.Holds (s : State) (dirs : Nat → List Nat) : Op → Prop
  | .creat _ _ c cs => Room (target s dirs c cs) fun start => HasSlot s (dirs start)
  | .mkdir c cs =>
    Room (target s dirs c cs) fun start => HasSlot s (dirs start) ∧ HasCluster s
  | .rename old olds c cs => Renamable s dirs (target s dirs old olds) (target s dirs c cs)
  | .rmdir c cs => Removable s dirs (target s dirs c cs)

def Op.Fits (fuel : Nat) : Op → Prop
  | .creat _ _ _ cs => cs.length < fuel
  | .mkdir _ cs => cs.length < fuel
  | .rename _ olds _ cs => olds.length < fuel ∧ cs.length < fuel
  | .rmdir _ cs => cs.length < fuel

structure Volume (s : State) (dirs : Nat → List Nat) extends Tree s dirs where
  data : Behind s.fs s.fs.fsDatabase
  rootdata : rootStart s.fs = 0 → Behind s.fs s.fs.fsRootbase ∧
    s.fs.fsRootbase + s.fs.fsRootentcnt / dirsecNdirs s.fs ≤ s.fs.fsDatabase
  fsinfo : s.fs.fsType = .fat32 → s.fs.fsFsinfo < s.fs.fsFatbase

end NuttxAvr32.Fat.Paths
