import NuttxAvr32.Fat.Format
import NuttxAvr32.Lib.Packed

/-! # The entries of the FAT

`fat_getcluster` and `fat_putcluster` read and write the entry of a cluster through the sector
cache. An entry of 12 bits shares a byte with its neighbour and may lie in two sectors.
-/

namespace NuttxAvr32.Fat

/-- What goes wrong in a `fat_fscacheread`: the writes of its flush and its read. -/
structure Access where
  flush : Fault
  read : Option Sector

/-- A device that makes no error. -/
def Access.ok : Access := ⟨none, none⟩

def cacheread (a : Access) (sector : Nat) (s : State) : State × Bool :=
  fatFscacheread a.flush a.read sector s

def fatsectorOf (fs : Mountpt) (fatoffset : Nat) : Nat :=
  wrap32 (fs.fsFatbase + fatoffset / fs.fsHwsectorsize)

def fatindexOf (fs : Mountpt) (fatoffset : Nat) : Nat := fatoffset &&& (fs.fsHwsectorsize - 1)

def setBuffer (p : Sector) (s : State) : State := { s with fs := { s.fs with fsBuffer := p } }

def setDirty (s : State) : State := { s with fs := { s.fs with fsDirty := true } }

def getcluster12 (a a' : Access) (clusterno : Nat) (s : State) : State × Option Nat :=
  let fatoffset := wrap32 (clusterno * 3) / 2
  let fatsector := fatsectorOf s.fs fatoffset
  let r := cacheread a fatsector s
  if r.2 = false then (r.1, none)
  else
    let fatindex := fatindexOf s.fs fatoffset
    let cluster := (r.1.fs.fsBuffer fatindex).toNat
    let fatindex := fatindex + 1
    if s.fs.fsHwsectorsize ≤ fatindex then
      let r' := cacheread a' (wrap32 (fatsector + 1)) r.1
      if r'.2 = false then (r'.1, none)
      else (r'.1, some (Packed.pick clusterno (cluster + (r'.1.fs.fsBuffer 0).toNat * 2 ^ 8)))
    else (r.1, some (Packed.pick clusterno (cluster + (r.1.fs.fsBuffer fatindex).toNat * 2 ^ 8)))

def getclusterAt (a : Access) (fatoffset : Nat) (get : Sector → Nat → Nat) (s : State) :
    State × Option Nat :=
  let r := cacheread a (fatsectorOf s.fs fatoffset) s
  if r.2 = false then (r.1, none)
  else (r.1, some (get r.1.fs.fsBuffer (fatindexOf s.fs fatoffset)))

/-- `fat_getcluster`; `none` is a negative result. -/
def fatGetcluster (a a' : Access) (clusterno : Nat) (s : State) : State × Option Nat :=
  if 2 ≤ clusterno ∧ clusterno < s.fs.fsNclusters then
    match s.fs.fsType with
    | .fat12 => getcluster12 a a' clusterno s
    | .fat16 => getclusterAt a (wrap32 (2 * clusterno)) fatGetuint16 s
    | .fat32 =>
      getclusterAt a (wrap32 (4 * clusterno)) (fun p i => fatGetuint32 p i % 2 ^ 28) s
    | .none => (s, none)
  else (s, none)

def putByte (fatindex : Nat) (f : Nat → Nat) (s : State) : State :=
  setBuffer (ubytePut s.fs.fsBuffer fatindex (f (s.fs.fsBuffer fatindex).toNat)) s

/-- Where the device fails, the state is left as it is then. -/
def putcluster12 (a a' : Access) (clusterno nextcluster : Nat) (s : State) : State :=
  let fatoffset := wrap32 (clusterno * 3) / 2
  let fatsector := fatsectorOf s.fs fatoffset
  let r := cacheread a fatsector s
  if r.2 = false then r.1
  else
    let fatindex := fatindexOf s.fs fatoffset
    let s' := putByte fatindex (Packed.low clusterno nextcluster) r.1
    let fatindex := fatindex + 1
    if s.fs.fsHwsectorsize ≤ fatindex then
      let r' := cacheread a' (wrap32 (fatsector + 1)) (setDirty s')
      if r'.2 = false then r'.1 else putByte 0 (Packed.high clusterno nextcluster) r'.1
    else putByte fatindex (Packed.high clusterno nextcluster) s'

def putclusterAt (a : Access) (fatoffset : Nat) (put : Sector → Nat → Sector) (s : State) : State :=
  let r := cacheread a (fatsectorOf s.fs fatoffset) s
  if r.2 = false then r.1
  else setBuffer (put r.1.fs.fsBuffer (fatindexOf s.fs fatoffset)) r.1

/-- `fat_putcluster`. The errors of the device lead to the same end as a success does: the buffer
is marked dirty. -/
def fatPutcluster (a a' : Access) (beyond clusterno nextcluster : Nat) (s : State) :
    State × Bool :=
  if clusterno = 0 ∨ (2 ≤ clusterno ∧ clusterno < s.fs.fsNclusters) then
    match s.fs.fsType with
    | .fat12 => (setDirty (putcluster12 a a' clusterno nextcluster s), true)
    | .fat16 =>
      (setDirty (putclusterAt a (wrap32 (2 * clusterno))
        (fun p i => fatPutuint16 p i (nextcluster % 2 ^ 16)) s), true)
    | .fat32 =>
      (setDirty (putclusterAt a (wrap32 (4 * clusterno))
        (fun p i => fatPutuint32 beyond p i (nextcluster % 2 ^ 28)) s), true)
    | .none => (s, false)
  else (s, false)

/-- What a read of the sector finds: the buffer, or the device after the buffer is flushed. -/
def view (s : State) (x : Nat) : Sector :=
  if x = s.fs.fsCurrentsector then s.fs.fsBuffer else (fatFscacheflush none s).1.dev x

def entryRange (type : FsType) : Nat :=
  match type with
  | .none => 0
  | .fat12 => 2 ^ 12
  | .fat16 => 2 ^ 16
  | .fat32 => 2 ^ 28

/-- A buffer that is not dirty is as on the device; the FATs have room for the entries of all
clusters, whose numbers fit into entries, and end below `2 ^ 32`; the sectors are of a size that
`fat_mount` accepts. -/
structure Sound (s : State) : Prop where
  cached : s.fs.fsDirty = false → s.fs.fsBuffer = s.dev s.fs.fsCurrentsector
  current : s.fs.fsCurrentsector < 2 ^ 32
  size : ∃ k, 9 ≤ k ∧ s.fs.fsHwsectorsize = 2 ^ k
  type : s.fs.fsType ≠ .none
  nclusters : s.fs.fsNclusters < entryRange s.fs.fsType
  entries : entryBytes s.fs.fsType s.fs.fsNclusters ≤ s.fs.fsNfatsects * s.fs.fsHwsectorsize
  fats : s.fs.fsFatbase + max 1 s.fs.fsFatnumfats * s.fs.fsNfatsects < 2 ^ 32

/-- A `fat_fscacheread` without errors. -/
def load (sector : Nat) (s : State) : State :=
  if s.fs.fsCurrentsector = sector then s
  else
    { (fatFscacheflush none s).1 with
      fs :=
        { s.fs with
          fsBuffer := (fatFscacheflush none s).1.dev sector
          fsCurrentsector := sector
          fsDirty := false } }

section

variable {s : State} {sector x y : Nat} {p : Sector}

theorem flush_none_ok (s : State) : (fatFscacheflush none s).2 = true := by
  cases hd : s.fs.fsDirty with
  | false => rw [flush_clean hd]
  | true => exact (flush_none hd).1

theorem cacheread_ok (hs : Sound s) (sector : Nat) :
    cacheread .ok sector s = (load sector s, true) := by
  unfold cacheread fatFscacheread load Access.ok
  by_cases hc : s.fs.fsCurrentsector = sector
  · rw [if_neg (not_not.mpr hc), if_pos hc]
  · rw [if_pos hc, if_neg hc]
    obtain ⟨c, b, -, hfs, hclean, -⟩ := flush_at (f := none) hs.cached hs.current
    have hb := hclean (flush_none_ok s)
    dsimp only
    rw [flush_none_ok s, hfs, hb]
    rfl

theorem view_current (s : State) : view s s.fs.fsCurrentsector = s.fs.fsBuffer := if_pos rfl

theorem view_clean (h : s.fs.fsDirty = false) (x : Nat) :
    view s x = if x = s.fs.fsCurrentsector then s.fs.fsBuffer else s.dev x := by
  unfold view
  rw [flush_clean h]

theorem load_current (sector : Nat) (s : State) :
    (load sector s).fs.fsCurrentsector = sector := by
  unfold load
  split
  · assumption
  · rfl

theorem load_fs (sector : Nat) (s : State) : ∃ p b, (load sector s).fs =
    { s.fs with
      fsBuffer := p
      fsCurrentsector := sector
      fsDirty := b } := by
  unfold load
  split
  · rename_i hc
    rw [← hc]
    exact ⟨s.fs.fsBuffer, s.fs.fsDirty, rfl⟩
  · exact ⟨_, _, rfl⟩

theorem view_load (hs : Sound s) (sector x : Nat) : view (load sector s) x = view s x := by
  unfold load
  split
  · rfl
  · rename_i hc
    refine (view_clean rfl x).trans ?_
    unfold view
    dsimp only
    by_cases hx : x = sector
    · rw [if_pos hx, hx, if_neg (Ne.symm hc)]
    · rw [if_neg hx]
      by_cases hxc : x = s.fs.fsCurrentsector
      · rw [if_pos hxc, hxc]
        cases hd : s.fs.fsDirty with
        | false =>
          rw [flush_clean hd]
          exact (hs.cached hd).symm
        | true =>
          rw [(flush_none hd).2.2.1]
          exact if_pos List.mem_cons_self
      · rw [if_neg hxc]

structure SameVolume (s s' : State) : Prop where
  size : s'.fs.fsHwsectorsize = s.fs.fsHwsectorsize
  type : s'.fs.fsType = s.fs.fsType
  nclusters : s'.fs.fsNclusters = s.fs.fsNclusters
  fatbase : s'.fs.fsFatbase = s.fs.fsFatbase
  nfatsects : s'.fs.fsNfatsects = s.fs.fsNfatsects
  fatnumfats : s'.fs.fsFatnumfats = s.fs.fsFatnumfats
  fsinextfree : s'.fs.fsFsinextfree = s.fs.fsFsinextfree
  fsifreecount : s'.fs.fsFsifreecount = s.fs.fsFsifreecount

theorem SameVolume.trans {s' s'' : State} (h : SameVolume s s') (h' : SameVolume s' s'') :
    SameVolume s s'' :=
  ⟨h'.size.trans h.size, h'.type.trans h.type, h'.nclusters.trans h.nclusters,
    h'.fatbase.trans h.fatbase, h'.nfatsects.trans h.nfatsects,
    h'.fatnumfats.trans h.fatnumfats, h'.fsinextfree.trans h.fsinextfree,
    h'.fsifreecount.trans h.fsifreecount⟩

theorem SameVolume.sound {s' : State} (h : SameVolume s s') (hs : Sound s)
    (hcached : s'.fs.fsDirty = false → s'.fs.fsBuffer = s'.dev s'.fs.fsCurrentsector)
    (hcurrent : s'.fs.fsCurrentsector < 2 ^ 32) : Sound s' where
  cached := hcached
  current := hcurrent
  size := h.size ▸ hs.size
  type := h.type ▸ hs.type
  nclusters := by
    rw [h.nclusters, h.type]
    exact hs.nclusters
  entries := by
    rw [h.type, h.nclusters, h.nfatsects, h.size]
    exact hs.entries
  fats := by
    rw [h.fatbase, h.fatnumfats, h.nfatsects]
    exact hs.fats

theorem load_same (sector : Nat) (s : State) : SameVolume s (load sector s) := by
  obtain ⟨p, b, hfs⟩ := load_fs sector s
  constructor <;> rw [hfs]

theorem load_sound (hs : Sound s) (hsector : sector < 2 ^ 32) : Sound (load sector s) := by
  apply (load_same sector s).sound hs
  · unfold load
    split
    · exact hs.cached
    · exact fun _ => rfl
  · rw [load_current]
    exact hsector

def InFat (fs : Mountpt) (y : Nat) : Prop := fs.fsFatbase ≤ y ∧ y < fs.fsFatbase + fs.fsNfatsects

theorem le_steps {c n i : Nat} (h : c + i * n < 2 ^ 32) (hx : x ∈ steps c n i) : c + n ≤ x := by
  induction i generalizing c with
  | zero => cases hx
  | succ i ih =>
    rw [Nat.succ_mul] at h
    have hnext : wrap32 (c + n) = c + n := wrap32_of_lt (by omega)
    unfold steps at hx
    rw [hnext] at hx
    rcases List.mem_cons.mp hx with rfl | hx
    · exact Nat.le_refl _
    · have hle := ih (by omega) hx
      omega

theorem not_mem_sectors (hs : Sound s) (hc : InFat s.fs s.fs.fsCurrentsector) (hy : InFat s.fs y)
    (hne : y ≠ s.fs.fsCurrentsector) : y ∉ sectors s.fs := by
  intro hmem
  rcases List.mem_cons.mp hmem with heq | hmem
  · exact hne heq
  · have hcopies : copies s.fs ≤ s.fs.fsFatnumfats - 1 := by
      unfold copies
      split
      · exact Nat.le_refl _
      · exact Nat.zero_le _
    have hfits : s.fs.fsCurrentsector + copies s.fs * s.fs.fsNfatsects < 2 ^ 32 := by
      have hfats := hs.fats
      have hmax : (copies s.fs + 1) * s.fs.fsNfatsects ≤
          max 1 s.fs.fsFatnumfats * s.fs.fsNfatsects := Nat.mul_le_mul_right _ (by omega)
      rw [Nat.succ_mul] at hmax
      obtain ⟨h1, h2⟩ := hc
      omega
    have hle := le_steps hfits hmem
    obtain ⟨h1, h2⟩ := hc
    obtain ⟨h3, h4⟩ := hy
    omega

theorem view_setBuffer (hs : Sound s) (hc : InFat s.fs s.fs.fsCurrentsector) (hy : InFat s.fs y) :
    view (setDirty (setBuffer p s)) y = if y = s.fs.fsCurrentsector then p else view s y := by
  show (if y = s.fs.fsCurrentsector then p else _) = _
  by_cases hyc : y = s.fs.fsCurrentsector
  · rw [if_pos hyc, if_pos hyc]
  · have hnot := not_mem_sectors hs hc hy hyc
    have hdirty : (fatFscacheflush none (setDirty (setBuffer p s))).1.dev y = s.dev y := by
      rw [(flush_none rfl).2.2.1]
      exact if_neg hnot
    have hold : (fatFscacheflush none s).1.dev y = s.dev y := by
      cases hd : s.fs.fsDirty with
      | false => rw [flush_clean hd]
      | true =>
        rw [(flush_none hd).2.2.1]
        exact if_neg hnot
    rw [if_neg hyc, if_neg hyc, hdirty]
    unfold view
    rw [if_neg hyc, hold]

theorem setBuffer_same (p : Sector) (s : State) : SameVolume s (setDirty (setBuffer p s)) :=
  ⟨rfl, rfl, rfl, rfl, rfl, rfl, rfl, rfl⟩

theorem setBuffer_sound (hs : Sound s) (p : Sector) : Sound (setDirty (setBuffer p s)) :=
  (setBuffer_same p s).sound hs (fun h => by cases h) hs.current

end

def fatByte (s : State) (k : Nat) : UInt8 :=
  view s (s.fs.fsFatbase + k / s.fs.fsHwsectorsize) (k % s.fs.fsHwsectorsize)

def entryOf (type : FsType) (b : Nat → UInt8) (c : Nat) : Nat :=
  match type with
  | .none => 0
  | .fat12 => Packed.get b c
  | .fat16 => fatGetuint16 b (2 * c)
  | .fat32 => fatGetuint32 b (4 * c) % 2 ^ 28

def entry (s : State) (c : Nat) : Nat := entryOf s.fs.fsType (fatByte s) c

def Valid (s : State) (c : Nat) : Prop := 2 ≤ c ∧ c < s.fs.fsNclusters

section

variable {s : State} {c j k : Nat} {p : Sector}

abbrev fatSize (s : State) : Nat := s.fs.fsNfatsects * s.fs.fsHwsectorsize

theorem size_pos (hs : Sound s) : 0 < s.fs.fsHwsectorsize := by
  obtain ⟨k, -, hk⟩ := hs.size
  rw [hk]
  exact Nat.two_pow_pos k

theorem inFat (hs : Sound s) (hk : k < fatSize s) :
    InFat s.fs (s.fs.fsFatbase + k / s.fs.fsHwsectorsize) := by
  have hlt : k / s.fs.fsHwsectorsize < s.fs.fsNfatsects := by
    rw [Nat.div_lt_iff_lt_mul (size_pos hs)]
    exact hk
  exact ⟨Nat.le_add_right _ _, Nat.add_lt_add_left hlt _⟩

theorem fat_end (hs : Sound s) : s.fs.fsFatbase + s.fs.fsNfatsects < 2 ^ 32 := by
  have hfats := hs.fats
  have hone : 1 * s.fs.fsNfatsects ≤ max 1 s.fs.fsFatnumfats * s.fs.fsNfatsects :=
    Nat.mul_le_mul_right _ (by omega)
  omega

theorem fatsectorOf_eq (hs : Sound s) (hk : k < fatSize s) :
    fatsectorOf s.fs k = s.fs.fsFatbase + k / s.fs.fsHwsectorsize := by
  have hin := (inFat hs hk).2
  have hend := fat_end hs
  exact wrap32_of_lt (by omega)

theorem fatindexOf_eq (hs : Sound s) (k : Nat) :
    fatindexOf s.fs k = k % s.fs.fsHwsectorsize := by
  obtain ⟨e, -, he⟩ := hs.size
  unfold fatindexOf
  rw [he, Nat.and_two_pow_sub_one_eq_mod]

theorem fatByte_setBuffer (hs : Sound s) (hk : k < fatSize s) (hj : j < fatSize s)
    (hc : s.fs.fsCurrentsector = s.fs.fsFatbase + k / s.fs.fsHwsectorsize) :
    fatByte (setDirty (setBuffer p s)) j =
      if j / s.fs.fsHwsectorsize = k / s.fs.fsHwsectorsize then p (j % s.fs.fsHwsectorsize)
      else fatByte s j := by
  have hin : InFat s.fs s.fs.fsCurrentsector := hc ▸ inFat hs hk
  show view (setDirty (setBuffer p s)) (s.fs.fsFatbase + j / s.fs.fsHwsectorsize)
    (j % s.fs.fsHwsectorsize) = _
  rw [view_setBuffer hs hin (inFat hs hj), hc]
  by_cases hjk : j / s.fs.fsHwsectorsize = k / s.fs.fsHwsectorsize
  · rw [if_pos (by rw [hjk]), if_pos hjk]
  · rw [if_neg (by omega), if_neg hjk]
    rfl

theorem fatByte_putByte (hs : Sound s) (hk : k < fatSize s) (hj : j < fatSize s)
    (hc : s.fs.fsCurrentsector = s.fs.fsFatbase + k / s.fs.fsHwsectorsize) (f : Nat → Nat) :
    fatByte (setDirty (putByte (k % s.fs.fsHwsectorsize) f s)) j =
      if j = k then UInt8.ofNat (f (fatByte s k).toNat) else fatByte s j := by
  have hbuffer : ∀ i, s.fs.fsBuffer i =
      view s (s.fs.fsFatbase + k / s.fs.fsHwsectorsize) i := by
    intro i
    rw [← hc, view_current]
  unfold putByte
  rw [fatByte_setBuffer hs hk hj hc]
  by_cases hjk : j = k
  · rw [if_pos hjk, hjk, if_pos rfl, hbuffer]
    exact Function.update_self _ _ _
  · rw [if_neg hjk]
    split
    · rename_i hdiv
      have hmod : j % s.fs.fsHwsectorsize ≠ k % s.fs.fsHwsectorsize := by
        intro hmod
        apply hjk
        rw [← Nat.div_add_mod j s.fs.fsHwsectorsize, hdiv, hmod, Nat.div_add_mod]
      refine (Function.update_of_ne hmod _ _).trans ?_
      rw [hbuffer, ← hdiv]
      rfl
    · rfl

theorem fatByte_load (hs : Sound s) (sector k : Nat) : fatByte (load sector s) k = fatByte s k := by
  have hsame := load_same sector s
  unfold fatByte
  rw [view_load hs, hsame.fatbase, hsame.size]

theorem load_buffer (hs : Sound s) (k : Nat) :
    (load (s.fs.fsFatbase + k / s.fs.fsHwsectorsize) s).fs.fsBuffer
      (k % s.fs.fsHwsectorsize) = fatByte s k := by
  have hview := view_load hs (s.fs.fsFatbase + k / s.fs.fsHwsectorsize)
    (s.fs.fsFatbase + k / s.fs.fsHwsectorsize)
  have hcur := view_current (load (s.fs.fsFatbase + k / s.fs.fsHwsectorsize) s)
  rw [load_current] at hcur
  rw [← hcur, hview]
  rfl

theorem next_sector {size o : Nat} (h0 : 0 < size) (h : size ≤ o % size + 1) :
    (o + 1) / size = o / size + 1 ∧ (o + 1) % size = 0 := by
  have hlt := Nat.mod_lt o h0
  have hdiv := Nat.div_add_mod o size
  apply (Nat.div_mod_unique h0).mpr
  rw [Nat.mul_add]
  omega

theorem same_sector {size o : Nat} (h : ¬ size ≤ o % size + 1) :
    (o + 1) / size = o / size ∧ (o + 1) % size = o % size + 1 := by
  have hdiv := Nat.div_add_mod o size
  apply (Nat.div_mod_unique (by omega)).mpr
  omega

end

structure Kept (s s' : State) : Prop where
  same : SameVolume s s'
  sound : Sound s'
  byte : ∀ k, fatByte s' k = fatByte s k

section

variable {s s' : State} {c k : Nat}

theorem Kept.load (hs : Sound s) (hk : k < fatSize s) :
    Kept s (load (s.fs.fsFatbase + k / s.fs.fsHwsectorsize) s) where
  same := load_same _ s
  sound := load_sound hs (by
    have hin := (inFat hs hk).2
    have hend := fat_end hs
    omega)
  byte := fatByte_load hs _

theorem Kept.trans {s'' : State} (h : Kept s s') (h' : Kept s' s'') : Kept s s'' where
  same := h.same.trans h'.same
  sound := h'.sound
  byte k := (h'.byte k).trans (h.byte k)

theorem Kept.entry (h : Kept s s') (c : Nat) : entry s' c = entry s c := by
  have hbyte : fatByte s' = fatByte s := funext h.byte
  unfold Fat.entry
  rw [hbyte, h.same.type]

theorem entryRange_le (type : FsType) : entryRange type ≤ 2 ^ 28 := by
  cases type <;> decide

theorem valid_lt (hs : Sound s) (hv : Valid s c) : c < 2 ^ 28 := by
  have hle := entryRange_le s.fs.fsType
  have hlt := hs.nclusters
  have hc := hv.2
  omega

theorem valid_offset (hs : Sound s) (hv : Valid s c) :
    (s.fs.fsType = .fat12 → Packed.start c + 1 < fatSize s) ∧
      (s.fs.fsType = .fat16 → 2 * c + 1 < fatSize s) ∧
      (s.fs.fsType = .fat32 → 4 * c + 3 < fatSize s) := by
  have hentries := hs.entries
  have hlt := hv.2
  refine ⟨?_, ?_, ?_⟩
  · intro htype
    rw [htype] at hentries
    unfold entryBytes at hentries
    dsimp only at hentries
    unfold Packed.start fatSize
    omega
  · intro htype
    rw [htype] at hentries
    unfold entryBytes at hentries
    dsimp only at hentries
    unfold fatSize
    omega
  · intro htype
    rw [htype] at hentries
    unfold entryBytes at hentries
    dsimp only at hentries
    unfold fatSize
    omega

theorem getcluster12_ok (hs : Sound s) (hc : c < 2 ^ 28) (hk : Packed.start c + 1 < fatSize s) :
    (getcluster12 .ok .ok c s).2 = some (Packed.get (fatByte s) c) ∧
      Kept s (getcluster12 .ok .ok c s).1 := by
  have hoffset : wrap32 (c * 3) / 2 = Packed.start c := by
    rw [wrap32_of_lt (by omega)]
    rfl
  have hk0 : Packed.start c < fatSize s := by omega
  have hkept := Kept.load hs hk0
  have hfirst := load_buffer hs (Packed.start c)
  unfold getcluster12 Packed.get
  rw [hoffset]
  dsimp only
  rw [fatsectorOf_eq hs hk0, fatindexOf_eq hs, cacheread_ok hs]
  dsimp only
  rw [if_neg (by decide), hfirst]
  by_cases hnext : s.fs.fsHwsectorsize ≤ Packed.start c % s.fs.fsHwsectorsize + 1
  · obtain ⟨hdiv, hmod⟩ := next_sector (size_pos hs) hnext
    have hin := (inFat hs hk).2
    have hend := fat_end hs
    have hsector : wrap32 (s.fs.fsFatbase + Packed.start c / s.fs.fsHwsectorsize + 1) =
        s.fs.fsFatbase + (Packed.start c + 1) / s.fs.fsHwsectorsize := by
      rw [wrap32_of_lt (by omega), hdiv]
      omega
    rw [if_pos hnext, cacheread_ok hkept.sound, hsector]
    dsimp only
    rw [if_neg (by decide)]
    generalize Fat.load (s.fs.fsFatbase + Packed.start c / s.fs.fsHwsectorsize) s = s1 at hkept ⊢
    have hk1 : Packed.start c + 1 < fatSize s1 := by
      unfold fatSize
      rw [hkept.same.nfatsects, hkept.same.size]
      exact hk
    have hsecond := load_buffer hkept.sound (Packed.start c + 1)
    have hkept' := Kept.load hkept.sound hk1
    rw [hkept.same.fatbase, hkept.same.size] at hsecond hkept'
    rw [hmod, hkept.byte] at hsecond
    rw [hsecond]
    exact ⟨rfl, hkept.trans hkept'⟩
  · obtain ⟨hdiv, hmod⟩ := same_sector hnext
    have hsecond := load_buffer hs (Packed.start c + 1)
    rw [hdiv, hmod] at hsecond
    rw [if_neg hnext, hsecond]
    exact ⟨rfl, hkept⟩

theorem aligned_offset {size m i : Nat} (hsize : ∃ e, 9 ≤ e ∧ size = 2 ^ e)
    (hm : m = 2 ∨ m = 4) (hi : i < m) :
    (m * c + i) / size = m * c / size ∧ (m * c + i) % size = m * c % size + i := by
  obtain ⟨e, he, hsize⟩ := hsize
  have hsize4 : size = 4 * 2 ^ (e - 2) := by
    rw [hsize, show e = (e - 2) + 2 by omega, Nat.pow_add]
    exact Nat.mul_comm _ _
  have h0 : 0 < size := by
    rw [hsize]
    exact Nat.two_pow_pos e
  have hlt := Nat.mod_lt (m * c) h0
  have hdiv := Nat.div_add_mod (m * c) size
  have hfour : ∀ q, size * q = 4 * (2 ^ (e - 2) * q) := fun q => by rw [hsize4, Nat.mul_assoc]
  apply (Nat.div_mod_unique h0).mpr
  rw [hfour] at hdiv ⊢
  generalize 2 ^ (e - 2) * (m * c / size) = q at hdiv ⊢
  rcases hm with rfl | rfl
  · omega
  · omega

theorem getclusterAt_ok (hs : Sound s) (hk : k < fatSize s) (get : Sector → Nat → Nat) :
    (getclusterAt .ok k get s).2 =
        some (get (load (s.fs.fsFatbase + k / s.fs.fsHwsectorsize) s).fs.fsBuffer
          (k % s.fs.fsHwsectorsize)) ∧
      Kept s (getclusterAt .ok k get s).1 := by
  unfold getclusterAt
  rw [fatsectorOf_eq hs hk, fatindexOf_eq hs, cacheread_ok hs]
  dsimp only
  rw [if_neg (by decide)]
  exact ⟨rfl, Kept.load hs hk⟩

theorem load_aligned (hs : Sound s) {m i : Nat} (hm : m = 2 ∨ m = 4) (hi : i < m) :
    (load (s.fs.fsFatbase + m * c / s.fs.fsHwsectorsize) s).fs.fsBuffer
      (m * c % s.fs.fsHwsectorsize + i) = fatByte s (m * c + i) := by
  have hbuffer := load_buffer hs (m * c + i)
  have haligned := aligned_offset (c := c) hs.size hm hi
  rw [haligned.1, haligned.2] at hbuffer
  exact hbuffer

theorem getcluster_ok (hs : Sound s) (hv : Valid s c) :
    (fatGetcluster .ok .ok c s).2 = some (entry s c) ∧
      Kept s (fatGetcluster .ok .ok c s).1 := by
  have hoffset := valid_offset hs hv
  have hc := valid_lt hs hv
  unfold fatGetcluster entry entryOf
  rw [if_pos ⟨hv.1, hv.2⟩]
  cases htype : s.fs.fsType with
  | none => exact absurd htype hs.type
  | fat12 => exact getcluster12_ok hs hc (hoffset.1 htype)
  | fat16 =>
    have hk : 2 * c < fatSize s := by
      have hlt := hoffset.2.1 htype
      omega
    have hat := getclusterAt_ok hs hk fatGetuint16
    dsimp only
    rw [wrap32_of_lt (by omega)]
    refine ⟨hat.1.trans ?_, hat.2⟩
    unfold fatGetuint16
    rw [load_aligned hs (.inl rfl) (by decide), load_buffer hs]
  | fat32 =>
    have hk : 4 * c < fatSize s := by
      have hlt := hoffset.2.2 htype
      omega
    have hat := getclusterAt_ok hs hk fun p i => fatGetuint32 p i % 2 ^ 28
    dsimp only
    rw [wrap32_of_lt (by omega)]
    refine ⟨hat.1.trans ?_, hat.2⟩
    unfold fatGetuint32 fatGetuint16
    rw [load_aligned hs (.inr rfl) (by decide), load_aligned hs (.inr rfl) (by decide),
      load_buffer hs, Nat.add_assoc, load_aligned hs (.inr rfl) (by decide)]

end

def swap16 (n : Nat) : Nat := n % 2 ^ 8 * 2 ^ 8 + n / 2 ^ 8 % 2 ^ 8

/-- What `fat_getcluster` finds after `fat_putcluster`: the bytes of a half word are put in one
order and taken in the other, and the high half word of 32 bits is not put at all. -/
def readBack (type : FsType) (beyond v : Nat) : Nat :=
  match type with
  | .none => 0
  | .fat12 => v % 2 ^ 12
  | .fat16 => swap16 (v % 2 ^ 16)
  | .fat32 => (swap16 beyond * 2 ^ 16 + swap16 (v % 2 ^ 28 / 2 ^ 16)) % 2 ^ 28

structure Written (s s' : State) (c v : Nat) : Prop where
  same : SameVolume s s'
  sound : Sound s'
  entry : ∀ d, Valid s d → entry s' d = if d = c then v else entry s d

section

variable {s s' : State} {c d k : Nat} {p : Sector}

structure Poked (s s' : State) (k : Nat) (f : Nat → Nat) : Prop where
  same : SameVolume s s'
  sound : Sound s'
  byte : ∀ j, j < fatSize s → fatByte s' j =
    if j = k then UInt8.ofNat (f (fatByte s k).toNat) else fatByte s j

def poke (k : Nat) (f : Nat → Nat) (s : State) : State :=
  setDirty (putByte (k % s.fs.fsHwsectorsize) f
    (load (s.fs.fsFatbase + k / s.fs.fsHwsectorsize) s))

theorem poke_poked (hs : Sound s) (hk : k < fatSize s) (f : Nat → Nat) :
    Poked s (poke k f s) k f := by
  have hkept := Kept.load hs hk
  have hcur := load_current (s.fs.fsFatbase + k / s.fs.fsHwsectorsize) s
  unfold poke
  generalize load (s.fs.fsFatbase + k / s.fs.fsHwsectorsize) s = s1 at hkept hcur ⊢
  have hsize : fatSize s1 = fatSize s := by
    unfold fatSize
    rw [hkept.same.nfatsects, hkept.same.size]
  rw [← hkept.same.fatbase, ← hkept.same.size] at hcur
  refine ⟨hkept.same.trans (setBuffer_same _ s1), setBuffer_sound hkept.sound _, ?_⟩
  intro j hj
  have hput := fatByte_putByte hkept.sound (hsize ▸ hk) (hsize ▸ hj) hcur f
  rw [hkept.same.size, hkept.byte, hkept.byte] at hput
  exact hput

theorem load_of_current (h : s.fs.fsCurrentsector = k) : load k s = s := if_pos h

theorem putcluster12_eq (hs : Sound s) (hc : c < 2 ^ 28) (hk : Packed.start c + 1 < fatSize s)
    (v : Nat) : setDirty (putcluster12 .ok .ok c v s) =
      poke (Packed.start c + 1) (Packed.high c v) (poke (Packed.start c) (Packed.low c v) s) := by
  have hoffset : wrap32 (c * 3) / 2 = Packed.start c := by
    rw [wrap32_of_lt (by omega)]
    rfl
  have hk0 : Packed.start c < fatSize s := by omega
  have hfirst := poke_poked hs hk0 (Packed.low c v)
  have hcur := load_current (s.fs.fsFatbase + Packed.start c / s.fs.fsHwsectorsize) s
  unfold putcluster12
  rw [hoffset]
  dsimp only
  rw [fatsectorOf_eq hs hk0, fatindexOf_eq hs, cacheread_ok hs]
  dsimp only
  rw [if_neg (by decide)]
  unfold poke at hfirst ⊢
  rw [hfirst.same.fatbase, hfirst.same.size]
  by_cases hnext : s.fs.fsHwsectorsize ≤ Packed.start c % s.fs.fsHwsectorsize + 1
  · obtain ⟨hdiv, hmod⟩ := next_sector (size_pos hs) hnext
    have hin := (inFat hs hk).2
    have hend := fat_end hs
    have hsector : wrap32 (s.fs.fsFatbase + Packed.start c / s.fs.fsHwsectorsize + 1) =
        s.fs.fsFatbase + (Packed.start c + 1) / s.fs.fsHwsectorsize := by
      rw [wrap32_of_lt (by omega), hdiv]
      omega
    rw [if_pos hnext, hsector, cacheread_ok hfirst.sound]
    dsimp only
    rw [if_neg (by decide), hmod]
  · obtain ⟨hdiv, hmod⟩ := same_sector hnext
    have hstay := load_of_current (s := setDirty (putByte (Packed.start c % s.fs.fsHwsectorsize)
      (Packed.low c v) (load (s.fs.fsFatbase + Packed.start c / s.fs.fsHwsectorsize) s))) hcur
    rw [if_neg hnext, hdiv, hmod, hstay]
    rfl

theorem putcluster12_ok (hs : Sound s) (hv : Valid s c) (htype : s.fs.fsType = .fat12) (v : Nat) :
    Written s (setDirty (putcluster12 .ok .ok c v s)) c (v % 2 ^ 12) := by
  have hc := valid_lt hs hv
  have hk := (valid_offset hs hv).1 htype
  rw [putcluster12_eq hs hc hk v]
  have hfirst := poke_poked hs (k := Packed.start c) (by omega) (Packed.low c v)
  generalize poke (Packed.start c) (Packed.low c v) s = s1 at hfirst ⊢
  have hsize : fatSize s1 = fatSize s := by
    unfold fatSize
    rw [hfirst.same.nfatsects, hfirst.same.size]
  have hsecond := poke_poked hfirst.sound (hsize ▸ hk) (Packed.high c v)
  generalize poke (Packed.start c + 1) (Packed.high c v) s1 = s2 at hsecond ⊢
  have hsame := hfirst.same.trans hsecond.same
  have hbyte : ∀ j, j < fatSize s → fatByte s2 j =
      if j = Packed.start c + 1 then
        UInt8.ofNat (Packed.high c v (fatByte s (Packed.start c + 1)).toNat)
      else if j = Packed.start c then
        UInt8.ofNat (Packed.low c v (fatByte s (Packed.start c)).toNat)
      else fatByte s j := by
    intro j hj
    rw [hsecond.byte j (hsize ▸ hj), hfirst.byte _ hk, hfirst.byte j hj,
      if_neg (Nat.succ_ne_self _)]
  have hput : Packed.Put (fatByte s) (fatByte s2) c v := by
    constructor
    · rw [hbyte _ (by omega), if_neg (by omega), if_pos rfl, UInt8.toNat_ofNat']
    · rw [hbyte _ hk, if_pos rfl, UInt8.toNat_ofNat']
  refine ⟨hsame, hsecond.sound, ?_⟩
  intro d hd
  have hkd := (valid_offset hs hd).1 htype
  unfold entry entryOf
  rw [hsame.type, htype]
  dsimp only
  by_cases hdc : d = c
  · rw [if_pos hdc, hdc]
    exact Packed.get_put_self hput
  · rw [if_neg hdc]
    apply Packed.get_put_of_ne hput hdc
    intro j h1 h2 hj
    rw [hbyte j (by omega), if_neg h2, if_neg h1]

theorem putclusterAt_ok (hs : Sound s) {m : Nat} (hm : m = 2 ∨ m = 4)
    (hk : m * c + m ≤ fatSize s) (put : Sector → Nat → Sector)
    (hput : ∀ q i x, x < i ∨ i + m ≤ x → put q i x = q x) :
    SameVolume s (setDirty (putclusterAt .ok (m * c) put s)) ∧
      Sound (setDirty (putclusterAt .ok (m * c) put s)) ∧
      (∃ q, ∀ i, i < m → fatByte (setDirty (putclusterAt .ok (m * c) put s)) (m * c + i) =
        put q (m * c % s.fs.fsHwsectorsize) (m * c % s.fs.fsHwsectorsize + i)) ∧
      ∀ j, j < fatSize s → j < m * c ∨ m * c + m ≤ j →
        fatByte (setDirty (putclusterAt .ok (m * c) put s)) j = fatByte s j := by
  have hk0 : m * c < fatSize s := by omega
  have hkept := Kept.load hs hk0
  have hcur := load_current (s.fs.fsFatbase + m * c / s.fs.fsHwsectorsize) s
  unfold putclusterAt
  rw [fatsectorOf_eq hs hk0, fatindexOf_eq hs, cacheread_ok hs]
  dsimp only
  rw [if_neg (by decide)]
  have hload : ∀ i, i / s.fs.fsHwsectorsize = m * c / s.fs.fsHwsectorsize →
      (load (s.fs.fsFatbase + m * c / s.fs.fsHwsectorsize) s).fs.fsBuffer
        (i % s.fs.fsHwsectorsize) = fatByte s i := by
    intro i hi
    rw [← hi]
    exact load_buffer hs i
  generalize load (s.fs.fsFatbase + m * c / s.fs.fsHwsectorsize) s = s1 at hkept hcur hload ⊢
  have hsize : fatSize s1 = fatSize s := by
    unfold fatSize
    rw [hkept.same.nfatsects, hkept.same.size]
  rw [← hkept.same.fatbase, ← hkept.same.size] at hcur
  have hbyte : ∀ j, j < fatSize s → fatByte (setDirty (setBuffer
      (put s1.fs.fsBuffer (m * c % s.fs.fsHwsectorsize)) s1)) j =
        if j / s.fs.fsHwsectorsize = m * c / s.fs.fsHwsectorsize then
          put s1.fs.fsBuffer (m * c % s.fs.fsHwsectorsize) (j % s.fs.fsHwsectorsize)
        else fatByte s j := by
    intro j hj
    have hset := fatByte_setBuffer (p := put s1.fs.fsBuffer (m * c % s.fs.fsHwsectorsize))
      hkept.sound (hsize ▸ hk0) (hsize ▸ hj) hcur
    rw [hkept.same.size, hkept.byte] at hset
    exact hset
  refine ⟨hkept.same.trans (setBuffer_same _ s1), setBuffer_sound hkept.sound _,
    ⟨s1.fs.fsBuffer, ?_⟩, ?_⟩
  · intro i hi
    obtain ⟨hdiv, hmod⟩ := aligned_offset (c := c) hs.size hm hi
    rw [hbyte _ (by omega), if_pos hdiv, hmod]
  · intro j hj hout
    rw [hbyte j hj]
    by_cases hdiv : j / s.fs.fsHwsectorsize = m * c / s.fs.fsHwsectorsize
    · rw [if_pos hdiv, hput, hload j hdiv]
      have hj' := Nat.div_add_mod j s.fs.fsHwsectorsize
      have hc' := Nat.div_add_mod (m * c) s.fs.fsHwsectorsize
      rw [hdiv] at hj'
      omega
    · rw [if_neg hdiv]

theorem putuint16_low (p : Sector) (i v : Nat) : (fatPutuint16 p i v i).toNat = v % 2 ^ 8 := by
  unfold fatPutuint16 ubytePut
  rw [Function.update_of_ne (Nat.succ_ne_self i).symm, Function.update_self, UInt8.toNat_ofNat']
  exact Nat.mod_mod _ _

theorem putuint16_high (p : Sector) (i v : Nat) :
    (fatPutuint16 p i v (i + 1)).toNat = v / 2 ^ 8 % 2 ^ 8 := by
  unfold fatPutuint16 ubytePut
  rw [Function.update_self, UInt8.toNat_ofNat']
  exact Nat.mod_mod _ _

theorem putuint32_bytes (beyond : Nat) (p : Sector) (i v : Nat) :
    (fatPutuint32 beyond p i v i).toNat = beyond % 2 ^ 8 ∧
      (fatPutuint32 beyond p i v (i + 1)).toNat = beyond / 2 ^ 8 % 2 ^ 8 ∧
      (fatPutuint32 beyond p i v (i + 2)).toNat = v / 2 ^ 16 % 2 ^ 8 ∧
      (fatPutuint32 beyond p i v (i + 3)).toNat = v / 2 ^ 16 / 2 ^ 8 % 2 ^ 8 := by
  unfold fatPutuint32
  refine ⟨?_, ?_, putuint16_low _ _ _, putuint16_high _ _ _⟩
  · rw [putuint16_of_ne (.inl (by omega)), putuint16_low]
  · rw [putuint16_of_ne (.inl (by omega)), putuint16_high]

theorem putcluster16_ok (hs : Sound s) (hv : Valid s c) (htype : s.fs.fsType = .fat16) (v : Nat) :
    Written s (setDirty (putclusterAt .ok (2 * c) (fun p i => fatPutuint16 p i v) s)) c
      (swap16 v) := by
  have hk := (valid_offset hs hv).2.1 htype
  have hk' : 2 * c + 2 ≤ fatSize s := hk
  obtain ⟨hsame, hsound, ⟨q, hset⟩, hrest⟩ := putclusterAt_ok hs (.inl rfl) hk'
    (fun p i => fatPutuint16 p i v) fun q i x hx => putuint16_of_ne hx
  refine ⟨hsame, hsound, ?_⟩
  intro d hd
  have hkd := (valid_offset hs hd).2.1 htype
  unfold entry entryOf
  rw [hsame.type, htype]
  dsimp only
  unfold fatGetuint16 swap16
  by_cases hdc : d = c
  · have h0 := hset 0 (by decide)
    rw [if_pos hdc, hdc, hset 1 (by decide), putuint16_high]
    rw [Nat.add_zero, Nat.add_zero] at h0
    rw [h0, putuint16_low]
  · rw [if_neg hdc, hrest _ (by omega) (by omega), hrest _ hkd (by omega)]

theorem putcluster32_ok (hs : Sound s) (hv : Valid s c) (htype : s.fs.fsType = .fat32)
    (beyond v : Nat) :
    Written s (setDirty (putclusterAt .ok (4 * c) (fun p i => fatPutuint32 beyond p i v) s)) c
      ((swap16 beyond * 2 ^ 16 + swap16 (v / 2 ^ 16)) % 2 ^ 28) := by
  have hk := (valid_offset hs hv).2.2 htype
  have hk' : 4 * c + 4 ≤ fatSize s := hk
  obtain ⟨hsame, hsound, ⟨q, hset⟩, hrest⟩ := putclusterAt_ok hs (.inr rfl) hk'
    (fun p i => fatPutuint32 beyond p i v) fun q i x hx => putuint32_of_ne hx
  refine ⟨hsame, hsound, ?_⟩
  intro d hd
  have hkd := (valid_offset hs hd).2.2 htype
  unfold entry entryOf
  rw [hsame.type, htype]
  dsimp only
  unfold fatGetuint32 fatGetuint16 swap16
  by_cases hdc : d = c
  · obtain ⟨h0, h1, h2, h3⟩ := putuint32_bytes beyond q (4 * c % s.fs.fsHwsectorsize) v
    have hfirst := hset 0 (by decide)
    rw [Nat.add_zero, Nat.add_zero] at hfirst
    rw [if_pos hdc, hdc, hfirst, hset 1 (by decide), hset 2 (by decide), Nat.add_assoc,
      hset 3 (by decide), h0, h1, h2, h3]
  · rw [if_neg hdc, hrest _ (by omega) (by omega), hrest _ (by omega) (by omega),
      hrest _ (by omega) (by omega), hrest _ (by omega) (by omega)]

theorem putcluster_ok (hs : Sound s) (hv : Valid s c) (beyond v : Nat) :
    (fatPutcluster .ok .ok beyond c v s).2 = true ∧
      Written s (fatPutcluster .ok .ok beyond c v s).1 c (readBack s.fs.fsType beyond v) := by
  have hc := valid_lt hs hv
  unfold fatPutcluster readBack
  rw [if_pos (.inr hv)]
  cases htype : s.fs.fsType with
  | none => exact absurd htype hs.type
  | fat12 => exact ⟨rfl, putcluster12_ok hs hv htype v⟩
  | fat16 =>
    dsimp only
    rw [wrap32_of_lt (by omega)]
    exact ⟨rfl, putcluster16_ok hs hv htype _⟩
  | fat32 =>
    dsimp only
    rw [wrap32_of_lt (by omega)]
    exact ⟨rfl, putcluster32_ok hs hv htype beyond _⟩

end

def firstSector (s : State) (clusterno : Nat) : Nat :=
  fatsectorOf s.fs (match s.fs.fsType with
    | .fat12 => wrap32 (clusterno * 3) / 2
    | .fat16 => wrap32 (2 * clusterno)
    | _ => wrap32 (4 * clusterno))

/-- An entry of 12 bits that lies in two sectors. -/
def Straddles (s : State) (clusterno : Nat) : Prop :=
  s.fs.fsType = .fat12 ∧
    s.fs.fsHwsectorsize ≤ fatindexOf s.fs (wrap32 (clusterno * 3) / 2) + 1

instance decidableStraddles (s : State) (clusterno : Nat) : Decidable (Straddles s clusterno) :=
  inferInstanceAs (Decidable (_ ∧ _))

def halfPut (clusterno nextcluster fatindex : Nat) (s : State) : State :=
  setDirty (putByte fatindex (Packed.low clusterno nextcluster) s)

/-- A device access that `fat_putcluster` makes fails. -/
def accessFails (a a' : Access) (clusterno nextcluster : Nat) (s : State) : Bool :=
  let r := cacheread a (firstSector s clusterno) s
  if r.2 = false then true
  else if Straddles s clusterno then
    !(cacheread a' (wrap32 (firstSector s clusterno + 1))
      (halfPut clusterno nextcluster (fatindexOf s.fs (wrap32 (clusterno * 3) / 2)) r.1)).2
  else false

/-- The sector is in the buffer, or the read of it is good and so is each write of the flush. -/
def Access.Spares (a : Access) (sector : Nat) (s : State) : Prop :=
  s.fs.fsCurrentsector = sector ∨
    (a.read = none ∧ (s.fs.fsDirty = true → ∀ p ∈ a.flush, (sectors s.fs).length ≤ p.1))

/-- No access fails. The second sector comes after a flush of the first to every FAT. -/
structure NoError (a a' : Access) (clusterno : Nat) (s : State) : Prop where
  first : a.Spares (firstSector s clusterno) s
  second : Straddles s clusterno →
    a'.read = none ∧ ∀ p ∈ a'.flush, max 1 s.fs.fsFatnumfats ≤ p.1

section

variable {s : State} {a a' : Access} {c v sector : Nat}

theorem mirror_fault (i n : Nat) (g : Sector) (s : State) :
    (i ≤ n → mirror i (some (n, g)) s = mirror i none s) ∧
      (n < i → (mirror i (some (n, g)) s).2 = false) := by
  induction i generalizing n s with
  | zero =>
    constructor
    · intro _
      rfl
    · intro h
      omega
  | succ i ih =>
    cases n with
    | zero =>
      constructor
      · intro h
        omega
      · intro _
        rfl
    | succ n =>
      unfold mirror
      dsimp only [fatHwwrite]
      rw [if_pos rfl, if_pos rfl]
      have hrest := ih n (s :=
        { fs := { s.fs with fsCurrentsector := wrap32 (s.fs.fsCurrentsector + s.fs.fsNfatsects) }
          dev := Function.update s.dev (wrap32 (s.fs.fsCurrentsector + s.fs.fsNfatsects))
            s.fs.fsBuffer
          written := s.written ++ [wrap32 (s.fs.fsCurrentsector + s.fs.fsNfatsects)] })
      exact ⟨fun h => hrest.1 (by omega), fun h => hrest.2 (by omega)⟩

theorem steps_length (c n i : Nat) : (steps c n i).length = i := by
  induction i generalizing c with
  | zero => rfl
  | succ i ih =>
    unfold steps
    rw [List.length_cons, ih]

theorem sectors_length (fs : Mountpt) : (sectors fs).length = copies fs + 1 := by
  unfold sectors
  rw [List.length_cons, steps_length]

theorem flush_fault (hd : s.fs.fsDirty = true) (n : Nat) (g : Sector) :
    ((sectors s.fs).length ≤ n → fatFscacheflush (some (n, g)) s = fatFscacheflush none s) ∧
      (n < (sectors s.fs).length → (fatFscacheflush (some (n, g)) s).2 = false) := by
  rw [sectors_length]
  unfold fatFscacheflush
  rw [if_pos hd, if_pos hd]
  cases n with
  | zero =>
    constructor
    · intro h
      omega
    · intro _
      rfl
  | succ n =>
    dsimp only [fatHwwrite]
    have hwritten : ¬ true = false := by decide
    rw [if_neg hwritten, if_neg hwritten]
    have hmirror := mirror_fault (copies s.fs) n g
      ⟨s.fs, Function.update s.dev s.fs.fsCurrentsector s.fs.fsBuffer,
        s.written ++ [s.fs.fsCurrentsector]⟩
    unfold copies at hmirror ⊢
    constructor
    · intro h
      rw [hmirror.1 (by omega)]
    · intro h
      rw [if_neg (Bool.eq_false_iff.mp (hmirror.2 (by omega)))]

theorem cacheread_spares (h : a.Spares sector s) :
    cacheread a sector s = cacheread .ok sector s := by
  unfold cacheread fatFscacheread Access.ok
  rcases h with hc | ⟨hread, hflush⟩
  · rw [if_neg (not_not.mpr hc), if_neg (not_not.mpr hc)]
  · have hf : fatFscacheflush a.flush s = fatFscacheflush none s := by
      cases hd : s.fs.fsDirty with
      | false => rw [flush_clean hd, flush_clean hd]
      | true =>
        cases hfault : a.flush with
        | none => rfl
        | some p => exact (flush_fault hd p.1 p.2).1 (hflush hd p hfault)
    rw [hf, hread]

theorem cacheread_fails (h : ¬ a.Spares sector s) : (cacheread a sector s).2 = false := by
  have hc : s.fs.fsCurrentsector ≠ sector := fun hc => h (.inl hc)
  unfold cacheread fatFscacheread
  rw [if_pos hc]
  dsimp only
  by_cases hf : (fatFscacheflush a.flush s).2 = false
  · rw [if_pos hf]
  · rw [if_neg hf]
    cases hread : a.read with
    | some g => rfl
    | none =>
      exfalso
      apply h
      refine .inr ⟨hread, ?_⟩
      intro hd p hp
      by_contra hlt
      apply hf
      rw [hp]
      exact (flush_fault hd p.1 p.2).2 (by omega)

theorem second_spares (hs : Sound s) (hv : Valid s c) (hstraddle : Straddles s c) (a' : Access)
    (v i : Nat) :
    a'.Spares (wrap32 (firstSector s c + 1)) (halfPut c v i (load (firstSector s c) s)) ↔
      a'.read = none ∧ ∀ p ∈ a'.flush, max 1 s.fs.fsFatnumfats ≤ p.1 := by
  have hc := valid_lt hs hv
  have hk := (valid_offset hs hv).1 hstraddle.1
  have hoffset : wrap32 (c * 3) / 2 = Packed.start c := by
    rw [wrap32_of_lt (by omega)]
    rfl
  have hsector : firstSector s c = s.fs.fsFatbase + Packed.start c / s.fs.fsHwsectorsize := by
    unfold firstSector
    rw [hstraddle.1]
    dsimp only
    rw [hoffset, fatsectorOf_eq hs (by omega)]
  have hin := (inFat hs (k := Packed.start c) (by omega)).2
  have hend := fat_end hs
  have hsame := load_same (firstSector s c) s
  have hcur : (halfPut c v i (load (firstSector s c) s)).fs.fsCurrentsector = firstSector s c :=
    load_current _ s
  have hregion : inFatRegion (halfPut c v i (load (firstSector s c) s)).fs = true := by
    unfold inFatRegion
    rw [hcur]
    apply decide_eq_true
    show _ < wrap32 ((load (firstSector s c) s).fs.fsFatbase +
      (load (firstSector s c) s).fs.fsNfatsects)
    rw [hsame.fatbase, hsame.nfatsects, wrap32_of_lt hend, hsector]
    exact hin
  have hlength : (sectors (halfPut c v i (load (firstSector s c) s)).fs).length =
      max 1 s.fs.fsFatnumfats := by
    rw [sectors_length]
    unfold copies
    rw [if_pos hregion]
    show (load (firstSector s c) s).fs.fsFatnumfats - 1 + 1 = _
    rw [hsame.fatnumfats]
    omega
  unfold Access.Spares
  rw [hcur, hlength]
  constructor
  · rintro (heq | ⟨hread, hflush⟩)
    · rw [wrap32_of_lt (by omega)] at heq
      omega
    · exact ⟨hread, hflush rfl⟩
  · rintro ⟨hread, hflush⟩
    exact .inr ⟨hread, fun _ => hflush⟩

theorem halfPut_sound (hs : Sound s) (c v i sector : Nat) (hsector : sector < 2 ^ 32) :
    Sound (halfPut c v i (load sector s)) :=
  setBuffer_sound (load_sound hs hsector) _

theorem accessFails_iff (hs : Sound s) (hv : Valid s c) :
    accessFails a a' c v s = true ↔ ¬ NoError a a' c s := by
  unfold accessFails
  by_cases hfirst : a.Spares (firstSector s c) s
  · rw [cacheread_spares hfirst, cacheread_ok hs]
    dsimp only
    rw [if_neg (by decide)]
    by_cases hstraddle : Straddles s c
    · have hspares := second_spares hs hv hstraddle a' v
        (fatindexOf s.fs (wrap32 (c * 3) / 2))
      rw [if_pos hstraddle]
      by_cases hsecond : a'.Spares (wrap32 (firstSector s c + 1))
          (halfPut c v (fatindexOf s.fs (wrap32 (c * 3) / 2)) (load (firstSector s c) s))
      · have hsector : firstSector s c < 2 ^ 32 := wrap32_lt _
        rw [cacheread_spares hsecond, cacheread_ok (halfPut_sound hs c v _ _ hsector)]
        constructor
        · intro h
          cases h
        · intro h
          exact absurd ⟨hfirst, fun _ => hspares.mp hsecond⟩ h
      · rw [cacheread_fails hsecond]
        constructor
        · intro _ hno
          exact hsecond (hspares.mpr (hno.second hstraddle))
        · intro _
          rfl
    · rw [if_neg hstraddle]
      constructor
      · intro h
        cases h
      · intro h
        exact absurd ⟨hfirst, fun hst => absurd hst hstraddle⟩ h
  · have hfails := cacheread_fails hfirst
    dsimp only
    rw [if_pos hfails]
    exact ⟨fun _ hno => hfirst hno.first, fun _ => rfl⟩

theorem putcluster_noError (hs : Sound s) (hv : Valid s c) (h : NoError a a' c s)
    (beyond v : Nat) :
    fatPutcluster a a' beyond c v s = fatPutcluster .ok .ok beyond c v s := by
  have hfirst := cacheread_spares h.first
  unfold fatPutcluster
  rw [if_pos (.inr hv), if_pos (.inr hv)]
  unfold firstSector at hfirst
  cases htype : s.fs.fsType with
  | none => rfl
  | fat12 =>
    rw [htype] at hfirst
    dsimp only at hfirst ⊢
    unfold putcluster12
    dsimp only
    rw [hfirst]
    have hsector : fatsectorOf s.fs (wrap32 (c * 3) / 2) = firstSector s c := by
      unfold firstSector
      rw [htype]
    rw [cacheread_ok hs, hsector]
    dsimp only
    by_cases hnext : s.fs.fsHwsectorsize ≤ fatindexOf s.fs (wrap32 (c * 3) / 2) + 1
    · have hsecond := (second_spares hs hv ⟨htype, hnext⟩ a' v
        (fatindexOf s.fs (wrap32 (c * 3) / 2))).mpr (h.second ⟨htype, hnext⟩)
      have hread := cacheread_spares hsecond
      unfold halfPut at hread
      rw [if_pos hnext, if_pos hnext, hread]
    · rw [if_neg hnext, if_neg hnext]
  | fat16 =>
    rw [htype] at hfirst
    dsimp only at hfirst ⊢
    unfold putclusterAt
    rw [hfirst]
  | fat32 =>
    rw [htype] at hfirst
    dsimp only at hfirst ⊢
    unfold putclusterAt
    rw [hfirst]

theorem putcluster_get (hs : Sound s) (hv : Valid s c) (hno : NoError a a' c s) (beyond v : Nat)
    (d : Nat) (hd : Valid s d) :
    (fatGetcluster .ok .ok d (fatPutcluster a a' beyond c v s).1).2 =
      if d = c then some (readBack s.fs.fsType beyond v) else (fatGetcluster .ok .ok d s).2 := by
  obtain ⟨-, W⟩ := putcluster_ok hs hv beyond v
  have hd' : Valid (fatPutcluster .ok .ok beyond c v s).1 d := by
    unfold Valid
    rw [W.same.nclusters]
    exact hd
  rw [putcluster_noError hs hv hno, (getcluster_ok W.sound hd').1, (getcluster_ok hs hd).1,
    W.entry d hd]
  split <;> rfl

theorem noError_ok (c : Nat) (s : State) : NoError .ok .ok c s where
  first := .inr ⟨rfl, fun _ p hp => by cases hp⟩
  second _ := ⟨rfl, fun p hp => by cases hp⟩

end

/-- What a put owes: its value and nothing else when it succeeds, an error and no other entry
changed when the device fails. -/
structure PutCorrect (a a' : Access) (beyond c v : Nat) (s : State) : Prop where
  stored : (fatPutcluster a a' beyond c v s).2 = true → ∀ d, Valid s d →
    (fatGetcluster .ok .ok d (fatPutcluster a a' beyond c v s).1).2 =
      if d = c then some v else (fatGetcluster .ok .ok d s).2
  failed : accessFails a a' c v s = true →
    (fatPutcluster a a' beyond c v s).2 = false ∧ ∀ d, Valid s d → d ≠ c →
      (fatGetcluster .ok .ok d (fatPutcluster a a' beyond c v s).1).2 =
        (fatGetcluster .ok .ok d s).2

/-- Values that read the same with their bytes exchanged; of 32 bits, the high half must be that
of the half word behind the argument. -/
def KeepsValue (type : FsType) (beyond v : Nat) : Prop :=
  match type with
  | .fat16 => swap16 v = v
  | .fat32 => swap16 beyond % 2 ^ 12 = v / 2 ^ 16 ∧ swap16 (v / 2 ^ 16) = v % 2 ^ 16
  | _ => True

theorem swap16_lt (n : Nat) : swap16 n < 2 ^ 16 := by
  unfold swap16
  omega

theorem readBack_eq_iff {type : FsType} {beyond v : Nat} (htype : type ≠ .none)
    (hv : v < entryRange type) : readBack type beyond v = v ↔ KeepsValue type beyond v := by
  cases type with
  | none => exact absurd rfl htype
  | fat12 => exact iff_of_true (Nat.mod_eq_of_lt hv) trivial
  | fat16 =>
    unfold entryRange at hv
    unfold readBack KeepsValue
    dsimp only at hv ⊢
    rw [Nat.mod_eq_of_lt hv]
  | fat32 =>
    have hbeyond := swap16_lt beyond
    have hhigh := swap16_lt (v / 2 ^ 16)
    unfold entryRange at hv
    unfold readBack KeepsValue
    dsimp only at hv ⊢
    rw [Nat.mod_eq_of_lt hv]
    omega

/-- A put is right just if no device access fails and the value reads the same in both byte
orders. -/
theorem putcluster_correct_iff {s : State} (hs : Sound s) {c v : Nat} (hv : Valid s c)
    (hrange : v < entryRange s.fs.fsType) (beyond : Nat) (a a' : Access) :
    PutCorrect a a' beyond c v s ↔ NoError a a' c s ∧ KeepsValue s.fs.fsType beyond v := by
  rw [← readBack_eq_iff hs.type hrange]
  have hok : (fatPutcluster a a' beyond c v s).2 = true := by
    unfold fatPutcluster
    rw [if_pos (.inr hv)]
    cases htype : s.fs.fsType with
    | none => exact absurd htype hs.type
    | fat12 => rfl
    | fat16 => rfl
    | fat32 => rfl
  constructor
  · intro h
    have hno : NoError a a' c s := by
      by_contra hno
      have hfalse := (h.failed ((accessFails_iff hs hv).mpr hno)).1
      rw [hok] at hfalse
      cases hfalse
    refine ⟨hno, ?_⟩
    have hstored := h.stored hok c hv
    rw [putcluster_get hs hv hno beyond v c hv, if_pos rfl, if_pos rfl] at hstored
    exact Option.some.inj hstored
  · rintro ⟨hno, hkeeps⟩
    constructor
    · intro _ d hd
      rw [putcluster_get hs hv hno beyond v d hd, hkeeps]
    · intro hfails
      exact absurd hno ((accessFails_iff hs hv).mp hfails)

def emptyVolume (type : FsType) : State where
  fs :=
    { Mountpt.zero with
      fsHwsectorsize := 512
      fsFatbase := 1
      fsNclusters := 400
      fsNfatsects := 4
      fsType := type
      fsFatnumfats := 2 }
  dev _ _ := 0
  written := []

theorem emptyVolume_sound {type : FsType} (h : type ≠ .none) : Sound (emptyVolume type) where
  cached _ := rfl
  current := Nat.two_pow_pos 32
  size := ⟨9, Nat.le_refl 9, rfl⟩
  type := h
  nclusters := by cases type <;> first | exact absurd rfl h | decide
  entries := by cases type <;> decide
  fats := (by decide : 1 + max 1 2 * 4 < 2 ^ 32)

/-- An entry that lies in two sectors, and its neighbours. -/
theorem putcluster_correct_straddling : Straddles (emptyVolume .fat12) 341 ∧
    PutCorrect .ok .ok 0 341 0xabc (emptyVolume .fat12) :=
  ⟨by decide, (putcluster_correct_iff (emptyVolume_sound (by decide)) ⟨by decide, by decide⟩
    (by decide) 0 .ok .ok).mpr ⟨noError_ok _ _, trivial⟩⟩

/-- A link to cluster 3 is read as a link to cluster 768. -/
theorem putcluster_swapped : ¬ ∀ (s : State) (c v beyond : Nat) (a a' : Access), Sound s →
    Valid s c → v < entryRange s.fs.fsType → PutCorrect a a' beyond c v s := by
  intro hall
  have hs := @emptyVolume_sound .fat16 (by decide)
  have hv : Valid (emptyVolume .fat16) 2 := ⟨by decide, by decide⟩
  have h := hall _ 2 3 0 .ok .ok hs hv (by decide)
  have hstored := h.stored (putcluster_ok hs hv 0 3).1 2 hv
  rw [putcluster_get hs hv (noError_ok _ _) 0 3 2 hv] at hstored
  revert hstored
  decide

end NuttxAvr32.Fat
