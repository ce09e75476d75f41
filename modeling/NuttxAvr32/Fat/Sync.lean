import NuttxAvr32.Fat.Directory
import NuttxAvr32.Fat.Endian

/-! # Synchronizing a file

`fat_sync` finds the entry of a file again by the sector and the index that `fat_open` has
saved. The index counts from the start of the directory, and `fat_sync` takes it for an index
into the sector. What is put behind the end of `fs_buffer` goes into other memory.
-/

namespace NuttxAvr32.Fat.Sync

open LittleEndian

structure DirFile extends FatFile where
  ffDirsector : Nat
  ffDirindex : Nat

/-- What `fat_open` saves, where `fd_index` is the index of the entry in its directory. -/
def openAt (fs : Mountpt) (fdIndex : Nat) (ff : FatFile) : DirFile where
  toFatFile := ff
  ffDirsector := fs.fsCurrentsector
  ffDirindex := fdIndex % 2 ^ 16

/-- The volume, and the memory behind `fs_buffer` by its distance from the start of the
buffer. -/
structure Memory where
  st : State
  behind : Sector

def Memory.bytes (m : Memory) : Sector :=
  fun x => if x < m.st.fs.fsHwsectorsize then m.st.fs.fsBuffer x else m.behind x

/-- Other bytes are put there, and the buffer is marked dirty. -/
def Memory.put (m : Memory) (p : Sector) : Memory where
  st :=
    setDirty (setBuffer
      (fun x => if x < m.st.fs.fsHwsectorsize then p x else m.st.fs.fsBuffer x) m.st)
  behind := fun x => if x < m.st.fs.fsHwsectorsize then m.behind x else p x

/-- What goes wrong: the check of the mount, the write of the file's buffer, the read of the
sector of the directory, and the writes of the two flushes. -/
structure Transfers where
  healthy : Bool
  data : Option Sector
  read : Access
  flush : Fault
  fsinfo : Fault

def Transfers.ok : Transfers := ⟨true, none, .ok, none, none⟩

/-- `fat_ffcacheflush`. The buffer is written whenever one of the flags is set. -/
def fatFfcacheflush (data : Option Sector) (ff : FatFile) (s : State) : State × Bool :=
  if ff.ffCachesector ≠ 0 ∧ (ff.valid ∨ ff.dirty ∨ ff.modified) then
    match data with
    | some g => ({ s with dev := Function.update s.dev ff.ffCachesector g }, false)
    | none =>
      ({ s with
          dev := Function.update s.dev ff.ffCachesector ff.ffBuffer
          written := s.written ++ [ff.ffCachesector] }, true)
  else (s, true)

def putEntry (beyond wrttime : Nat) (ff : FatFile) (i : Nat) (p : Sector) : Sector :=
  let p := ubytePut p (i + 11) ((p (i + 11)).toNat ||| 0x20)
  let p := fatPutuint32 beyond p (i + 28) (wrapInt ff.ffSize)
  let p := fatPutuint16 p (i + 26) (ff.ffStartcluster % 2 ^ 16)
  let p := fatPutuint16 p (i + 20) (ff.ffStartcluster / 2 ^ 16 % 2 ^ 16)
  let p := fatPutuint16 p (i + 22) (wrttime % 2 ^ 16)
  fatPutuint16 p (i + 24) (wrttime / 2 ^ 16 % 2 ^ 16)

def update (beyond wrttime : Nat) (ff : DirFile) (m : Memory) : Memory :=
  m.put (putEntry beyond wrttime ff.toFatFile (ff.ffDirindex * 32) m.bytes)

/-- `fat_sync`. `beyond` is the half word that `fat_putuint32` reads behind the size,
`beyond'` that for the FSINFO sector, `wrttime` the result of `fat_systime2fattime`. -/
def fatSync (t : Transfers) (beyond beyond' wrttime : Nat) (ff : DirFile) (m : Memory) :
    Memory × DirFile × Bool :=
  if m.st.fs.fsMounted = false ∨ t.healthy = false then
    ({ m with st := { m.st with fs := { m.st.fs with fsMounted := false } } }, ff, false)
  else if ff.modified then
    let w := fatFfcacheflush t.data ff.toFatFile m.st
    if w.2 = false then ({ m with st := w.1 }, ff, false)
    else
      let r := cacheread t.read ff.ffDirsector w.1
      if r.2 = false then ({ m with st := r.1 }, { ff with dirty := false }, false)
      else
        let m := update beyond wrttime ff { m with st := r.1 }
        let u := fatUpdatefsinfo beyond' t.flush t.fsinfo m.st
        ({ m with st := u.1 },
          { ff with
            dirty := false
            modified := false }, u.2)
  else (m, ff, true)

def fatClose (t : Transfers) (beyond beyond' wrttime : Nat) (ff : DirFile) (m : Memory) :
    Memory × Option DirFile × Bool :=
  let r := fatSync t beyond beyond' wrttime ff m
  (r.1, none, r.2.2)

/-- The entry at index `i` of a directory, in the sector `d`, is that of the file, and nothing
else was changed in the sector or behind the buffer. -/
structure Updated (d i : Nat) (ff : FatFile) (m m' : Memory) : Prop where
  outside : ∀ x < m.st.fs.fsHwsectorsize,
    x < dirsecBytendx m.st.fs i ∨ dirsecBytendx m.st.fs i + 32 ≤ x →
      m'.st.dev d x = view m.st d x
  archive : (m'.st.dev d (dirsecBytendx m.st.fs i + 11)).toNat =
    (view m.st d (dirsecBytendx m.st.fs i + 11)).toNat ||| 0x20
  filesize : Spells 4 (m'.st.dev d) (dirsecBytendx m.st.fs i + 28) (wrapInt ff.ffSize)
  fstclustlo :
    Spells 2 (m'.st.dev d) (dirsecBytendx m.st.fs i + 26) (ff.ffStartcluster % 2 ^ 16)
  fstclusthi :
    Spells 2 (m'.st.dev d) (dirsecBytendx m.st.fs i + 20) (ff.ffStartcluster / 2 ^ 16)
  behind : m'.behind = m.behind

/-- Every call that succeeds has updated the entry that was opened in the sector of `fs`,
whatever lies behind the buffer. -/
structure Right (beyond beyond' wrttime : Nat) (fs : Mountpt) (i : Nat) (ff : FatFile)
    (s : State) : Prop where
  sync : ∀ t behind,
    (fatSync t beyond beyond' wrttime (openAt fs i ff) ⟨s, behind⟩).2.2 = true →
      Updated fs.fsCurrentsector i ff ⟨s, behind⟩
        (fatSync t beyond beyond' wrttime (openAt fs i ff) ⟨s, behind⟩).1
  close : ∀ t behind,
    (fatClose t beyond beyond' wrttime (openAt fs i ff) ⟨s, behind⟩).2.2 = true →
      Updated fs.fsCurrentsector i ff ⟨s, behind⟩
        (fatClose t beyond beyond' wrttime (openAt fs i ff) ⟨s, behind⟩).1

/-- A modified file that was opened on this volume with the entry in the sector `d`, which
lies behind the FATs. The data of the file lie elsewhere. -/
structure Modified (d : Nat) (ff : FatFile) (s : State) : Prop where
  mounted : s.fs.fsMounted = true
  modified : ff.modified = true
  startcluster : ff.ffStartcluster < 2 ^ 32
  size : ∃ k, 9 ≤ k ∧ s.fs.fsHwsectorsize = 2 ^ k
  width : s.fs.fsHwsectorsize < 2 ^ 16
  place : s.fs.fsFatbase + s.fs.fsFatnumfats * s.fs.fsNfatsects ≤ d
  fsinfo : s.fs.fsType = .fat32 → s.fs.fsFsinfo < s.fs.fsFatbase
  data : ff.ffCachesector ≠ d

section

variable {s : State} {f g : Fault} {i : Nat}

theorem mirror_success (h : (mirror i f s).2 = true) : mirror i f s = mirror i none s := by
  induction i generalizing f s with
  | zero => rfl
  | succ i ih =>
    match f with
    | some (0, g) => cases h
    | some (n + 1, g) => exact ih h
    | none => rfl

theorem flush_success (h : (fatFscacheflush f s).2 = true) :
    fatFscacheflush f s = fatFscacheflush none s := by
  cases hd : s.fs.fsDirty with
  | false => rw [flush_clean hd, flush_clean hd]
  | true =>
    match f with
    | some (0, g) =>
      unfold fatFscacheflush at h
      rw [if_pos hd] at h
      cases h
    | none => rfl
    | some (n + 1, g) =>
      let s₁ : State :=
        ⟨s.fs, Function.update s.dev s.fs.fsCurrentsector s.fs.fsBuffer,
          s.written ++ [s.fs.fsCurrentsector]⟩
      let finish (m : State × Bool) : State × Bool :=
        if m.2 then (setClean m.1, true) else (m.1, false)
      have hsome : fatFscacheflush (some (n + 1, g)) s =
          finish (mirror (copies s.fs) (some (n, g)) s₁) := by
        unfold fatFscacheflush
        rw [if_pos hd]
        rfl
      have hnone : fatFscacheflush none s = finish (mirror (copies s.fs) none s₁) := by
        unfold fatFscacheflush
        rw [if_pos hd]
        rfl
      have hm : (mirror (copies s.fs) (some (n, g)) s₁).2 = true := by
        by_contra hfail
        rw [hsome] at h
        dsimp only [finish] at h
        rw [if_neg hfail] at h
        cases h
      rw [hsome, hnone, mirror_success hm]

theorem read_success {g : Option Sector} {sector : Nat}
    (h : (fatFscacheread f g sector s).2 = true) :
    fatFscacheread f g sector s = fatFscacheread none none sector s := by
  unfold fatFscacheread at h ⊢
  by_cases hc : s.fs.fsCurrentsector ≠ sector
  · rw [if_pos hc] at h ⊢
    rw [if_pos hc]
    dsimp only at h ⊢
    by_cases hok : (fatFscacheflush f s).2 = false
    · rw [if_pos hok] at h
      cases h
    · rw [if_neg hok] at h
      rw [flush_success (Bool.eq_true_of_not_eq_false hok)]
      cases g with
      | some g => cases h
      | none => rfl
  · rw [if_neg hc, if_neg hc]

theorem updatefsinfo_success {beyond : Nat} (h : (fatUpdatefsinfo beyond f g s).2 = true) :
    fatUpdatefsinfo beyond f g s = fatUpdatefsinfo beyond none none s := by
  have hflush : (fatFscacheflush f s).2 = true := by
    by_contra hfail
    unfold fatUpdatefsinfo at h
    dsimp only at h
    rw [if_neg fun hc => hfail hc.1] at h
    exact hfail h
  unfold fatUpdatefsinfo at h ⊢
  rw [flush_success hflush] at h ⊢
  dsimp only at h ⊢
  split
  · rename_i hc
    rw [if_pos hc] at h
    rw [flush_success h]
  · rfl

end

section

variable {s : State} {d : Nat}

theorem read_load (s : State) (sector : Nat) :
    fatFscacheread none none sector s = (load sector s, true) := by
  unfold fatFscacheread load
  by_cases hc : s.fs.fsCurrentsector = sector
  · rw [if_neg (not_not.mpr hc), if_pos hc]
  · rw [if_pos hc, if_neg hc]
    obtain ⟨c, hfs⟩ := flush_fs s
    dsimp only
    rw [flush_none_ok s, hfs]
    rfl

theorem steps_le {c n i x : Nat} (h : x ∈ steps c n i) : x ≤ c + i * n := by
  induction i generalizing c with
  | zero => cases h
  | succ i ih =>
    have hw : wrap32 (c + n) ≤ c + n := Nat.mod_le _ _
    rw [Nat.succ_mul]
    rcases List.mem_cons.mp h with rfl | h
    · omega
    · have hle := ih h
      omega

theorem fsinfo_before {fs : Mountpt} (hc : fs.fsCurrentsector < fs.fsFatbase)
    (hd : fs.fsFatbase + fs.fsFatnumfats * fs.fsNfatsects ≤ d) : d ∉ sectors fs := by
  intro h
  have hturns : copies fs ≤ fs.fsFatnumfats := by
    unfold copies
    split <;> omega
  rcases List.mem_cons.mp h with rfl | h
  · omega
  · have hle := steps_le h
    have hmul : copies fs * fs.fsNfatsects ≤ fs.fsFatnumfats * fs.fsNfatsects :=
      Nat.mul_le_mul_right _ hturns
    omega

theorem updatefsinfo_dev (beyond : Nat) (hdirty : s.fs.fsDirty = true)
    (hplace : s.fs.fsFatbase + s.fs.fsFatnumfats * s.fs.fsNfatsects ≤ s.fs.fsCurrentsector)
    (hfsinfo : s.fs.fsType = .fat32 → s.fs.fsFsinfo < s.fs.fsFatbase) :
    (fatUpdatefsinfo beyond none none s).2 = true ∧
      (fatUpdatefsinfo beyond none none s).1.dev s.fs.fsCurrentsector = s.fs.fsBuffer := by
  obtain ⟨hok, -, hdev, -⟩ := flush_none hdirty
  obtain ⟨c, hfs⟩ := flush_fs s
  have hcur := (hdev s.fs.fsCurrentsector).trans (if_pos List.mem_cons_self)
  unfold fatUpdatefsinfo
  dsimp only
  split
  · rename_i hinfo
    have h32 := hinfo.2.1
    rw [hfs] at h32
    obtain ⟨hok', -, hdev', -⟩ :=
      flush_none (s := setFsinfo beyond (fatFscacheflush none s).1) rfl
    refine ⟨hok', ?_⟩
    rw [hdev', if_neg]
    · exact hcur
    · apply fsinfo_before
      · show (fatFscacheflush none s).1.fs.fsFsinfo < (fatFscacheflush none s).1.fs.fsFatbase
        rw [hfs]
        exact hfsinfo h32
      · show (fatFscacheflush none s).1.fs.fsFatbase + (fatFscacheflush none s).1.fs.fsFatnumfats *
          (fatFscacheflush none s).1.fs.fsNfatsects ≤ _
        rw [hfs]
        exact hplace
  · exact ⟨hok, hcur⟩

theorem ffcacheflush_view {ff : FatFile} (h : ff.ffCachesector ≠ d) :
    (fatFfcacheflush none ff s).2 = true ∧ (fatFfcacheflush none ff s).1.fs = s.fs ∧
      view (fatFfcacheflush none ff s).1 d = view s d := by
  unfold fatFfcacheflush
  split
  · refine ⟨rfl, rfl, ?_⟩
    rw [view_eq, view_eq]
    dsimp only
    rw [Function.update_of_ne (Ne.symm h)]
  · exact ⟨rfl, rfl, rfl⟩

end

section

variable {beyond wrttime i x : Nat} {ff : FatFile} {p : Sector}

theorem put_apart {k v : Nat} (h : x < k ∨ k + 2 ≤ x) : fatPutuint16 p k v x = p x := by
  rw [← Config.fatPutuint16_big]
  exact Config.putuint16_outside .big p k v x h

theorem putEntry_outside (h : x < i ∨ i + 32 ≤ x) :
    putEntry beyond wrttime ff i p x = p x := by
  unfold putEntry fatPutuint32
  rw [put_apart (by omega), put_apart (by omega), put_apart (by omega), put_apart (by omega),
    put_apart (by omega), put_apart (by omega)]
  unfold ubytePut
  rw [Function.update_of_ne (by omega)]

theorem putEntry_archive :
    (putEntry beyond wrttime ff i p (i + 11)).toNat = (p (i + 11)).toNat ||| 0x20 := by
  unfold putEntry fatPutuint32
  rw [put_apart (by omega), put_apart (by omega), put_apart (by omega), put_apart (by omega),
    put_apart (by omega), put_apart (by omega)]
  unfold ubytePut
  rw [Function.update_self, UInt8.toNat_ofNat', Nat.mod_eq_of_lt]
  exact Nat.or_lt_two_pow (p (i + 11)).toNat_lt (by decide)

theorem value_put_apart {k n v : Nat} (h : i + n ≤ k ∨ k + 2 ≤ i) :
    value n (fatPutuint16 p k v) i = value n p i :=
  value_congr fun j hj => put_apart (by omega)

theorem value_put (p : Sector) (i v : Nat) : value 2 (fatPutuint16 p i v) i = v % 2 ^ 16 := by
  rw [← Config.fatPutuint16_big]
  exact Config.value_putuint16 .big p i v

theorem putEntry_fstclustlo :
    value 2 (putEntry beyond wrttime ff i p) (i + 26) = ff.ffStartcluster % 2 ^ 16 := by
  unfold putEntry
  dsimp only
  rw [value_put_apart (by omega), value_put_apart (by omega), value_put_apart (by omega),
    value_put, Nat.mod_mod]

theorem putEntry_fstclusthi :
    value 2 (putEntry beyond wrttime ff i p) (i + 20) = ff.ffStartcluster / 2 ^ 16 % 2 ^ 16 := by
  unfold putEntry
  dsimp only
  rw [value_put_apart (by omega), value_put_apart (by omega), value_put, Nat.mod_mod]

theorem putEntry_filesize :
    value 4 (putEntry beyond wrttime ff i p) (i + 28) =
      beyond % 2 ^ 16 + 2 ^ 16 * (wrapInt ff.ffSize / 2 ^ 16 % 2 ^ 16) := by
  unfold putEntry
  dsimp only
  rw [value_put_apart (by omega), value_put_apart (by omega), value_put_apart (by omega),
    value_put_apart (by omega)]
  unfold fatPutuint32
  rw [← Config.fatPutuint16_big, ← Config.fatPutuint16_big]
  exact Config.value_putuint16_twice .big _ (i + 28) beyond _

end

section

variable {beyond beyond' wrttime i : Nat} {fs : Mountpt} {ff : FatFile} {s : State}
  {behind : Sector} {t : Transfers}

/-- The data of the file are written and the sector of the directory is in the buffer. -/
def loaded (fs : Mountpt) (ff : FatFile) (s : State) (behind : Sector) : Memory where
  st := load fs.fsCurrentsector (fatFfcacheflush none ff s).1
  behind := behind

def edited (beyond wrttime : Nat) (fs : Mountpt) (i : Nat) (ff : FatFile) (s : State)
    (behind : Sector) : Memory :=
  update beyond wrttime (openAt fs i ff) (loaded fs ff s behind)

theorem ffcacheflush_success {data : Option Sector} (h : (fatFfcacheflush data ff s).2 = true) :
    fatFfcacheflush data ff s = fatFfcacheflush none ff s := by
  cases data with
  | none => rfl
  | some g =>
    unfold fatFfcacheflush at h ⊢
    split
    · rename_i hc
      rw [if_pos hc] at h
      cases h
    · rfl

theorem loaded_fs (H : Modified fs.fsCurrentsector ff s) (behind : Sector) :
    ∃ p b, (loaded fs ff s behind).st.fs =
      { s.fs with
        fsBuffer := p
        fsCurrentsector := fs.fsCurrentsector
        fsDirty := b } := by
  obtain ⟨p, b, hfs⟩ := load_fs fs.fsCurrentsector (fatFfcacheflush none ff s).1
  rw [(ffcacheflush_view H.data).2.1] at hfs
  exact ⟨p, b, hfs⟩

theorem loaded_size (H : Modified fs.fsCurrentsector ff s) (behind : Sector) :
    (loaded fs ff s behind).st.fs.fsHwsectorsize = s.fs.fsHwsectorsize := by
  obtain ⟨p, b, hfs⟩ := loaded_fs H behind
  rw [hfs]

theorem loaded_bytes (H : Modified fs.fsCurrentsector ff s) (x : Nat) :
    (loaded fs ff s behind).bytes x =
      if x < s.fs.fsHwsectorsize then view s fs.fsCurrentsector x else behind x := by
  unfold Memory.bytes
  rw [loaded_size H behind]
  show (if _ then (load fs.fsCurrentsector (fatFfcacheflush none ff s).1).fs.fsBuffer x else _) = _
  rw [load_view, (ffcacheflush_view H.data).2.2]
  rfl

theorem edited_flushed (H : Modified fs.fsCurrentsector ff s) (beyond' : Nat) :
    (fatUpdatefsinfo beyond' none none (edited beyond wrttime fs i ff s behind).st).2 = true ∧
      (fatUpdatefsinfo beyond' none none (edited beyond wrttime fs i ff s behind).st).1.dev
        fs.fsCurrentsector = (edited beyond wrttime fs i ff s behind).st.fs.fsBuffer := by
  obtain ⟨p, b, hfs⟩ := loaded_fs H behind
  have hedited : ∃ q, (edited beyond wrttime fs i ff s behind).st.fs =
      { s.fs with
        fsBuffer := q
        fsCurrentsector := fs.fsCurrentsector
        fsDirty := true } := by
    unfold edited update Memory.put setDirty setBuffer
    dsimp only
    rw [hfs]
    exact ⟨_, rfl⟩
  obtain ⟨q, hq⟩ := hedited
  have hcur : (edited beyond wrttime fs i ff s behind).st.fs.fsCurrentsector =
      fs.fsCurrentsector := by
    rw [hq]
  rw [← hcur]
  apply updatefsinfo_dev
  · rw [hq]
  · rw [hq]
    exact H.place
  · rw [hq]
    exact H.fsinfo

theorem sync_done (H : Modified fs.fsCurrentsector ff s)
    (h : (fatSync t beyond beyond' wrttime (openAt fs i ff) ⟨s, behind⟩).2.2 = true) :
    (fatSync t beyond beyond' wrttime (openAt fs i ff) ⟨s, behind⟩).1 =
      { edited beyond wrttime fs i ff s behind with
        st :=
          (fatUpdatefsinfo beyond' none none (edited beyond wrttime fs i ff s behind).st).1 } := by
  have hmodified : (openAt fs i ff).modified = true := H.modified
  have htoff : (openAt fs i ff).toFatFile = ff := rfl
  have hsector : (openAt fs i ff).ffDirsector = fs.fsCurrentsector := rfl
  unfold fatSync at h ⊢
  by_cases hmount : s.fs.fsMounted = false ∨ t.healthy = false
  · rw [if_pos hmount] at h
    cases h
  rw [if_neg hmount, if_pos hmodified] at h ⊢
  dsimp only at h ⊢
  rw [htoff, hsector] at h ⊢
  by_cases hdata : (fatFfcacheflush t.data ff s).2 = false
  · rw [if_pos hdata] at h
    cases h
  rw [if_neg hdata] at h ⊢
  rw [ffcacheflush_success (Bool.eq_true_of_not_eq_false hdata)] at h ⊢
  by_cases hread : (cacheread t.read fs.fsCurrentsector (fatFfcacheflush none ff s).1).2 = false
  · rw [if_pos hread] at h
    cases h
  rw [if_neg hread] at h ⊢
  have hload : cacheread t.read fs.fsCurrentsector (fatFfcacheflush none ff s).1 =
      (load fs.fsCurrentsector (fatFfcacheflush none ff s).1, true) := by
    rw [← read_load]
    exact read_success (Bool.eq_true_of_not_eq_false hread)
  rw [hload] at h ⊢
  exact congrArg (fun u => { edited beyond wrttime fs i ff s behind with st := u.1 })
    (updatefsinfo_success h)

theorem sync_ok (H : Modified fs.fsCurrentsector ff s) :
    (fatSync .ok beyond beyond' wrttime (openAt fs i ff) ⟨s, behind⟩).2.2 = true := by
  have hmodified : (openAt fs i ff).modified = true := H.modified
  have hmount : ¬ (s.fs.fsMounted = false ∨ Transfers.ok.healthy = false) := by
    rw [H.mounted]
    decide
  have hload : cacheread Transfers.ok.read fs.fsCurrentsector (fatFfcacheflush none ff s).1 =
      (load fs.fsCurrentsector (fatFfcacheflush none ff s).1, true) :=
    read_load _ _
  have hdata : (fatFfcacheflush Transfers.ok.data (openAt fs i ff).toFatFile s).2 = true :=
    (ffcacheflush_view H.data).1
  unfold fatSync
  rw [if_neg hmount, if_pos hmodified]
  dsimp only
  rw [hdata, if_neg (by decide)]
  have hsector : cacheread Transfers.ok.read (openAt fs i ff).ffDirsector
      (fatFfcacheflush Transfers.ok.data (openAt fs i ff).toFatFile s).1 =
      (load fs.fsCurrentsector (fatFfcacheflush none ff s).1, true) := hload
  rw [hsector]
  exact (edited_flushed H beyond').1

theorem Modified.ndirs_dvd {d : Nat} (H : Modified d ff s) : dirsecNdirs s.fs ∣ 2 ^ 16 := by
  obtain ⟨j, -, hn, -, hsize⟩ := ndirs_pow H.size
  have hwidth := H.width
  rw [hn]
  apply Nat.pow_dvd_pow
  by_contra hlt
  have hpow : 2 ^ 16 ≤ 2 ^ j := Nat.pow_le_pow_right (by decide) (by omega)
  omega

theorem edited_within (beyond wrttime : Nat) (H : Modified fs.fsCurrentsector ff s)
    (hi : i % 2 ^ 16 < dirsecNdirs s.fs) (behind : Sector) :
    (∀ x < s.fs.fsHwsectorsize, (edited beyond wrttime fs i ff s behind).st.fs.fsBuffer x =
      putEntry beyond wrttime ff (dirsecBytendx s.fs i) (loaded fs ff s behind).bytes x) ∧
    (edited beyond wrttime fs i ff s behind).behind = behind := by
  have hindex : (openAt fs i ff).ffDirindex * 32 = dirsecBytendx s.fs i := by
    rw [bytendx_eq H.size, ← Nat.mod_mod_of_dvd i H.ndirs_dvd, Nat.mod_eq_of_lt hi]
    rfl
  have hsize := loaded_size H behind
  have hend := bytendx_lt H.size i
  unfold edited update Memory.put setDirty setBuffer
  dsimp only
  rw [hindex, hsize]
  refine ⟨fun x hx => if_pos hx, funext fun x => ?_⟩
  by_cases hx : x < s.fs.fsHwsectorsize
  · rw [if_pos hx]
    rfl
  · rw [if_neg hx, putEntry_outside (by omega), loaded_bytes H, if_neg hx]

theorem edited_behind (beyond wrttime : Nat) (H : Modified fs.fsCurrentsector ff s)
    (hi : dirsecNdirs s.fs ≤ i % 2 ^ 16) (behind : Sector) :
    ((edited beyond wrttime fs i ff s behind).behind (i % 2 ^ 16 * 32 + 11)).toNat =
      (behind (i % 2 ^ 16 * 32 + 11)).toNat ||| 0x20 := by
  have hsize := loaded_size H behind
  obtain ⟨j, -, hn, -, hsectorsize⟩ := ndirs_pow H.size
  have hx : ¬ i % 2 ^ 16 * 32 + 11 < s.fs.fsHwsectorsize := by
    rw [hn] at hi
    omega
  unfold edited update Memory.put
  dsimp only
  rw [hsize, if_neg hx]
  refine (putEntry_archive (i := i % 2 ^ 16 * 32)).trans ?_
  rw [loaded_bytes H, if_neg hx]

theorem value_edited (H : Modified fs.fsCurrentsector ff s)
    (hi : i % 2 ^ 16 < dirsecNdirs s.fs) {n k : Nat}
    (hk : k + n ≤ 32) :
    value n (edited beyond wrttime fs i ff s behind).st.fs.fsBuffer (dirsecBytendx s.fs i + k) =
      value n (putEntry beyond wrttime ff (dirsecBytendx s.fs i) (loaded fs ff s behind).bytes)
        (dirsecBytendx s.fs i + k) := by
  have hend := bytendx_lt H.size i
  exact value_congr fun j hj => (edited_within beyond wrttime H hi behind).1 _ (by omega)

theorem edited_updated (H : Modified fs.fsCurrentsector ff s)
    (hi : i % 2 ^ 16 < dirsecNdirs s.fs)
    (hbeyond : beyond % 2 ^ 16 = wrapInt ff.ffSize % 2 ^ 16) {m' : Memory}
    (hdev : m'.st.dev fs.fsCurrentsector =
      (edited beyond wrttime fs i ff s behind).st.fs.fsBuffer)
    (hbehind : m'.behind = (edited beyond wrttime fs i ff s behind).behind) :
    Updated fs.fsCurrentsector i ff ⟨s, behind⟩ m' := by
  obtain ⟨hbuffer, hsame⟩ := edited_within beyond wrttime H hi behind
  have hend := bytendx_lt H.size i
  have hstart := H.startcluster
  have hsize : wrapInt ff.ffSize < 2 ^ 32 := by
    unfold wrapInt
    omega
  constructor
  · intro x hx hout
    rw [hdev, hbuffer x hx, putEntry_outside hout, loaded_bytes H]
    exact if_pos hx
  · rw [hdev, hbuffer _ (by dsimp only; omega), putEntry_archive, loaded_bytes H,
      if_pos (by omega)]
  · rw [hdev, spells_iff, value_edited H hi (by decide), putEntry_filesize]
    omega
  · rw [hdev, spells_iff, value_edited H hi (by decide), putEntry_fstclustlo]
  · rw [hdev, spells_iff, value_edited H hi (by decide), putEntry_fstclusthi]
    omega
  · rw [hbehind, hsame]

/-- A call leaves the memory behind the buffer alone only where the index lies within the
sector. -/
theorem Right.index (H : Modified fs.fsCurrentsector ff s)
    (R : Right beyond beyond' wrttime fs i ff s) : i % 2 ^ 16 < dirsecNdirs s.fs := by
  have U := R.sync .ok (fun _ => 0) (sync_ok H)
  rw [sync_done H (sync_ok H)] at U
  by_contra hge
  have hbit := edited_behind beyond wrttime H (Nat.le_of_not_lt hge) fun _ => 0
  have hsame := congrFun U.behind (i % 2 ^ 16 * 32 + 11)
  dsimp only at hsame
  rw [hsame] at hbit
  exact absurd hbit (by decide)

end

/-- Synchronizing is right exactly where the index that was saved lies within one sector and
the half word behind the size is its low half. -/
theorem sync_right_iff {beyond beyond' wrttime i : Nat} {fs : Mountpt} {ff : FatFile} {s : State}
    (H : Modified fs.fsCurrentsector ff s) :
    Right beyond beyond' wrttime fs i ff s ↔
      i % 2 ^ 16 < dirsecNdirs s.fs ∧ beyond % 2 ^ 16 = wrapInt ff.ffSize % 2 ^ 16 := by
  constructor
  · intro R
    have hi := R.index H
    have U := R.sync .ok (fun _ => 0) (sync_ok H)
    rw [sync_done H (sync_ok H)] at U
    refine ⟨hi, ?_⟩
    have hfilesize := spells_iff.mp U.filesize
    dsimp only at hfilesize
    rw [(edited_flushed H beyond').2, value_edited H hi (by decide),
      putEntry_filesize] at hfilesize
    omega
  · intro ⟨hi, hbeyond⟩
    constructor
    · intro t behind h
      rw [sync_done H h]
      exact edited_updated H hi hbeyond (edited_flushed H beyond').2 rfl
    · intro t behind h
      show Updated _ _ _ _ (fatSync t beyond beyond' wrttime (openAt fs i ff) ⟨s, behind⟩).1
      rw [sync_done H h]
      exact edited_updated H hi hbeyond (edited_flushed H beyond').2 rfl

def rootVolume : State :=
  { emptyVolume .fat16 with
    fs :=
      { (emptyVolume .fat16).fs with
        fsMounted := true
        fsCurrentsector := 9
        fsRootbase := 9
        fsRootentcnt := 64 } }

def writtenFile : FatFile where
  rdok := true
  wrok := true
  ffSectorsincluster := 1
  ffCurrentcluster := 5
  ffSize := 1000
  ffStartcluster := 5
  ffCurrentsector := 20
  ffCachesector := 20
  ffBuffer _ := 0
  valid := true
  dirty := true
  modified := true

theorem writtenFile_modified : Modified rootVolume.fs.fsCurrentsector writtenFile rootVolume where
  mounted := rfl
  modified := rfl
  startcluster := by decide
  size := ⟨9, Nat.le_refl 9, rfl⟩
  width := by decide
  place := by decide
  fsinfo h := by cases h
  data := by decide

/-- The fourth entry of the root. -/
theorem sync_right_fourth : Right 1000 0 0 rootVolume.fs 3 writtenFile rootVolume :=
  (sync_right_iff writtenFile_modified).mpr ⟨by decide, by decide⟩

/-- The seventeenth entry is the first of its sector and is put behind the buffer. -/
theorem sync_overruns : ¬ ∀ (beyond beyond' wrttime i : Nat) (fs : Mountpt) (ff : FatFile)
    (s : State), Modified fs.fsCurrentsector ff s → i < fs.fsRootentcnt →
      beyond = wrapInt ff.ffSize % 2 ^ 16 → Right beyond beyond' wrttime fs i ff s := by
  intro hall
  have R := hall 1000 0 0 16 rootVolume.fs writtenFile rootVolume writtenFile_modified (by decide)
    (by decide)
  exact absurd (R.index writtenFile_modified) (by decide)

end NuttxAvr32.Fat.Sync
