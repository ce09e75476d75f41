import NuttxAvr32.Fat.Chains
import NuttxAvr32.Fat.File

/-! # Directories

A directory is the fixed root of FAT12 and FAT16 or a chain of clusters. `fat_nextdirentry`
goes from one entry of 32 bytes to the next. The device makes no errors here.
-/

namespace NuttxAvr32.Fat

structure Fatdir where
  fdStartcluster : Nat
  fdCurrcluster : Nat
  fdCurrsector : Nat
  fdIndex : Nat

def dirsecNdxmask (fs : Mountpt) : Nat := (fs.fsHwsectorsize - 1) / 2 ^ 5
def dirsecNdirs (fs : Mountpt) : Nat := fs.fsHwsectorsize / 2 ^ 5
def dirsecBytendx (fs : Mountpt) (i : Nat) : Nat := (i &&& dirsecNdxmask fs) * 2 ^ 5

/-- Returns whether it succeeded. Where it fails, the sector may be counted up already. -/
def fatNextdirentry (dir : Fatdir) (s : State) : State × Fatdir × Bool :=
  let ndx := wrap32 (dir.fdIndex + 1)
  if ndx &&& (dirsecNdirs s.fs - 1) = 0 then
    let dir := { dir with fdCurrsector := wrap32 (dir.fdCurrsector + 1) }
    if dir.fdCurrcluster = 0 then
      if s.fs.fsRootentcnt ≤ ndx then (s, dir, false) else (s, { dir with fdIndex := ndx }, true)
    else if ndx / dirsecNdirs s.fs &&& (s.fs.fsFatsecperclus - 1) = 0 then
      let g := fatGetcluster .ok .ok dir.fdCurrcluster s
      match g.2 with
      | none => (g.1, dir, false)
      | some cluster =>
        if cluster < 2 ∨ s.fs.fsNclusters ≤ cluster then (g.1, dir, false)
        else
          (g.1,
            { dir with
              fdCurrcluster := cluster
              fdCurrsector := wrapInt (fatCluster2sector s.fs cluster)
              fdIndex := ndx }, true)
    else (s, { dir with fdIndex := ndx }, true)
  else (s, { dir with fdIndex := ndx }, true)

section

variable {fs : Mountpt} {i : Nat}

theorem ndirs_pow (h : ∃ k, 9 ≤ k ∧ fs.fsHwsectorsize = 2 ^ k) :
    ∃ j, 4 ≤ j ∧ dirsecNdirs fs = 2 ^ j ∧ dirsecNdxmask fs = 2 ^ j - 1 ∧
      fs.fsHwsectorsize = 2 ^ j * 2 ^ 5 := by
  obtain ⟨k, hk, hsize⟩ := h
  have hsplit : fs.fsHwsectorsize = 2 ^ (k - 5) * 2 ^ 5 := by
    rw [hsize, ← Nat.pow_add]
    congr 1
    omega
  have hpos : 0 < 2 ^ (k - 5) := Nat.pow_pos (by decide)
  refine ⟨k - 5, by omega, ?_, ?_, hsplit⟩
  · unfold dirsecNdirs
    rw [hsplit]
    exact Nat.mul_div_cancel _ (by decide)
  · unfold dirsecNdxmask
    rw [hsplit]
    omega

theorem ndirs_pos (h : ∃ k, 9 ≤ k ∧ fs.fsHwsectorsize = 2 ^ k) : 0 < dirsecNdirs fs := by
  obtain ⟨j, -, hn, -⟩ := ndirs_pow h
  rw [hn]
  exact Nat.pow_pos (by decide)

theorem bytendx_eq (h : ∃ k, 9 ≤ k ∧ fs.fsHwsectorsize = 2 ^ k) (i : Nat) :
    dirsecBytendx fs i = i % dirsecNdirs fs * 2 ^ 5 := by
  obtain ⟨j, -, hn, hmask, -⟩ := ndirs_pow h
  unfold dirsecBytendx
  rw [hmask, hn, Nat.and_two_pow_sub_one_eq_mod]

theorem bytendx_lt (h : ∃ k, 9 ≤ k ∧ fs.fsHwsectorsize = 2 ^ k) (i : Nat) :
    dirsecBytendx fs i + 32 ≤ fs.fsHwsectorsize := by
  obtain ⟨j, -, hn, -, hsize⟩ := ndirs_pow h
  have hlt := Nat.mod_lt i (ndirs_pos h)
  rw [bytendx_eq h, hsize]
  rw [hn] at hlt ⊢
  omega

end

section

theorem mirror_fs (i : Nat) (s : State) :
    ∃ c, (mirror i none s).1.fs = s.fs.at c s.fs.fsDirty := by
  induction i generalizing s with
  | zero => exact ⟨s.fs.fsCurrentsector, rfl⟩
  | succ i ih =>
    let c := wrap32 (s.fs.fsCurrentsector + s.fs.fsNfatsects)
    obtain ⟨c', hfs⟩ := ih
      { fs := { s.fs with fsCurrentsector := c }
        dev := Function.update s.dev c s.fs.fsBuffer
        written := s.written ++ [c] }
    exact ⟨c', hfs⟩

theorem flush_fs (s : State) : ∃ c, (fatFscacheflush none s).1.fs = s.fs.at c false := by
  cases hd : s.fs.fsDirty with
  | false =>
    rw [flush_clean hd]
    refine ⟨s.fs.fsCurrentsector, ?_⟩
    rw [← hd]
    rfl
  | true =>
    let s₁ : State :=
      ⟨s.fs, Function.update s.dev s.fs.fsCurrentsector s.fs.fsBuffer,
        s.written ++ [s.fs.fsCurrentsector]⟩
    obtain ⟨c, hfs⟩ := mirror_fs (copies s.fs) s₁
    refine ⟨c, ?_⟩
    have heq : fatFscacheflush none s = (setClean (mirror (copies s.fs) none s₁).1, true) := by
      unfold fatFscacheflush
      rw [if_pos hd]
      show (if (mirror (copies s.fs) none s₁).2 = true then _ else _) = _
      rw [if_pos (mirror_none (copies s.fs) s₁).1]
      rfl
    rw [heq]
    show ({ (mirror (copies s.fs) none s₁).1.fs with fsDirty := false } : Mountpt) = _
    rw [hfs]
    rfl

end

structure Reloaded (s s' : State) : Prop where
  fs : ∃ p c b, s'.fs =
    { s.fs with
      fsBuffer := p
      fsCurrentsector := c
      fsDirty := b }
  sound : Sound s'
  view : ∀ x, view s' x = view s x

section

variable {s s' s'' : State} {c sector : Nat}

theorem Reloaded.refl (hs : Sound s) : Reloaded s s where
  fs := ⟨s.fs.fsBuffer, s.fs.fsCurrentsector, s.fs.fsDirty, rfl⟩
  sound := hs
  view _ := rfl

theorem Reloaded.trans (h : Reloaded s s') (h' : Reloaded s' s'') : Reloaded s s'' where
  fs := by
    obtain ⟨p, c, b, hfs⟩ := h.fs
    obtain ⟨p', c', b', hfs'⟩ := h'.fs
    rw [hfs', hfs]
    exact ⟨p', c', b', rfl⟩
  sound := h'.sound
  view x := (h'.view x).trans (h.view x)

theorem Reloaded.load (hs : Sound s) (hsector : sector < 2 ^ 32) :
    Reloaded s (load sector s) where
  fs := by
    obtain ⟨p, b, hfs⟩ := load_fs sector s
    exact ⟨p, sector, b, hfs⟩
  sound := load_sound hs hsector
  view x := view_load hs sector x

theorem load_view (s : State) (sector : Nat) : (load sector s).fs.fsBuffer = view s sector := by
  unfold load view
  by_cases hc : s.fs.fsCurrentsector = sector
  · rw [if_pos hc, if_pos hc.symm]
  · rw [if_neg hc, if_neg (Ne.symm hc)]

theorem Reloaded.entry (h : Reloaded s s') (c : Nat) : entry s' c = entry s c := by
  obtain ⟨p, c', b, hfs⟩ := h.fs
  have hbyte : fatByte s' = fatByte s := by
    funext k
    unfold fatByte
    rw [h.view, hfs]
  unfold Fat.entry
  rw [hbyte, hfs]

theorem Reloaded.valid (h : Reloaded s s') (c : Nat) : Valid s' c ↔ Valid s c := by
  obtain ⟨p, c', b, hfs⟩ := h.fs
  unfold Valid
  rw [hfs]

theorem Reloaded.chain (h : Reloaded s s') {l : List Nat} (hl : ChainFrom s c l) :
    ChainFrom s' c l :=
  hl.of_same h.valid fun d _ _ => h.entry d

theorem Reloaded.getcluster (hs : Sound s) : Reloaded s (fatGetcluster .ok .ok c s).1 := by
  have hload : ∀ {s : State}, Sound s → ∀ sector, sector < 2 ^ 32 →
      Reloaded s (cacheread .ok sector s).1 := by
    intro s hs sector hsector
    rw [cacheread_ok hs]
    exact Reloaded.load hs hsector
  have hat : ∀ k get, Reloaded s (getclusterAt .ok k get s).1 := by
    intro k get
    unfold getclusterAt
    dsimp only
    split <;> exact hload hs _ (wrap32_lt _)
  unfold fatGetcluster
  split
  · cases s.fs.fsType with
    | none => exact .refl hs
    | fat12 =>
      dsimp only
      unfold getcluster12
      dsimp only
      have h1 := hload hs (fatsectorOf s.fs (wrap32 (c * 3) / 2)) (wrap32_lt _)
      split
      · exact h1
      split
      · have h2 := hload h1.sound (wrap32 (fatsectorOf s.fs (wrap32 (c * 3) / 2) + 1))
          (wrap32_lt _)
        split <;> exact h1.trans h2
      · exact h1
    | fat16 => exact hat _ _
    | fat32 => exact hat _ _
  · exact .refl hs

end

def clusterSector (fs : Mountpt) (c : Nat) : Nat := fs.fsDatabase + (c - 2) * fs.fsFatsecperclus

/-- The sector `k` of a directory; the fixed root has no clusters. -/
def sectorAt (fs : Mountpt) (cs : List Nat) (k : Nat) : Nat :=
  if cs = [] then fs.fsRootbase + k
  else clusterSector fs (cs.getD (k / fs.fsFatsecperclus) 0) + k % fs.fsFatsecperclus

def total (fs : Mountpt) (cs : List Nat) : Nat :=
  if cs = [] then fs.fsRootentcnt
  else cs.length * fs.fsFatsecperclus * dirsecNdirs fs

def slotAt (s : State) (cs : List Nat) (i : Nat) : Sector :=
  fun x => view s (sectorAt s.fs cs (i / dirsecNdirs s.fs)) (dirsecBytendx s.fs i + x)

def sectorsEnd (fs : Mountpt) (cs : List Nat) : Nat :=
  if cs = [] then fs.fsRootbase + fs.fsRootentcnt / dirsecNdirs fs
  else fs.fsDatabase + fs.fsNclusters * fs.fsFatsecperclus

def position (fs : Mountpt) (start : Nat) (cs : List Nat) (i : Nat) : Fatdir where
  fdStartcluster := start
  fdCurrcluster := cs.getD (i / dirsecNdirs fs / fs.fsFatsecperclus) 0
  fdCurrsector := sectorAt fs cs (i / dirsecNdirs fs)
  fdIndex := wrap32 i

structure Table (s : State) (start : Nat) (cs : List Nat) : Prop where
  sound : Sound s
  width : s.fs.fsHwsectorsize < 2 ^ 16
  secperclus : ∃ m, m ≤ 7 ∧ s.fs.fsFatsecperclus = 2 ^ m
  database : 0 < s.fs.fsDatabase ∧
    s.fs.fsDatabase + s.fs.fsNclusters * s.fs.fsFatsecperclus < 2 ^ 32
  rootbase : start = 0 → 0 < s.fs.fsRootbase ∧
    s.fs.fsRootbase + s.fs.fsRootentcnt / dirsecNdirs s.fs < 2 ^ 32
  rootentcnt : start = 0 → 0 < s.fs.fsRootentcnt ∧ s.fs.fsRootentcnt < 2 ^ 16 ∧
    dirsecNdirs s.fs ∣ s.fs.fsRootentcnt
  root : start = 0 ↔ cs = []
  chain : start ≠ 0 → ChainFrom s start cs

section

variable {s s' : State} {start i c x : Nat} {cs : List Nat}

theorem Table.of_reloaded (T : Table s start cs) (h : Reloaded s s') : Table s' start cs := by
  obtain ⟨p, c, b, hfs⟩ := h.fs
  have hdirs : dirsecNdirs s'.fs = dirsecNdirs s.fs := by
    unfold dirsecNdirs
    rw [hfs]
  constructor
  · exact h.sound
  · rw [hfs]
    exact T.width
  · rw [hfs]
    exact T.secperclus
  · rw [hfs]
    exact T.database
  · rw [hdirs, hfs]
    exact T.rootbase
  · rw [hdirs, hfs]
    exact T.rootentcnt
  · exact T.root
  · exact fun hne => h.chain (T.chain hne)

theorem Reloaded.position (h : Reloaded s s') :
    position s'.fs start cs i = position s.fs start cs i := by
  obtain ⟨p, c, b, hfs⟩ := h.fs
  rw [hfs]
  rfl

theorem Reloaded.total (h : Reloaded s s') : total s'.fs cs = total s.fs cs := by
  obtain ⟨p, c, b, hfs⟩ := h.fs
  rw [hfs]
  rfl

theorem Reloaded.slotAt (h : Reloaded s s') : slotAt s' cs i = slotAt s cs i := by
  obtain ⟨p, c, b, hfs⟩ := h.fs
  funext x
  unfold Fat.slotAt
  rw [h.view, hfs]
  rfl

theorem ChainFrom.step (h : ChainFrom s c cs) {q : Nat} (hq : q < cs.length) :
    Valid s (cs.getD q 0) ∧
      (q + 1 < cs.length → entry s (cs.getD q 0) = cs.getD (q + 1) 0) ∧
      (q + 1 = cs.length → ¬ Valid s (entry s (cs.getD q 0))) := by
  induction h generalizing q with
  | done _ => exact absurd hq (Nat.not_lt_zero q)
  | @next c l hc hl ih =>
    cases q with
    | zero =>
      refine ⟨hc, fun h1 => ?_, fun h1 => ?_⟩
      · cases hl with
        | done _ => exact absurd h1 (Nat.lt_irrefl 1)
        | next _ _ => rfl
      · cases hl with
        | done hn => exact hn
        | next _ _ =>
          rw [List.length_cons, List.length_cons] at h1
          omega
    | succ q =>
      have hstep := ih (q := q) (by rw [List.length_cons] at hq; omega)
      refine ⟨hstep.1, fun h1 => hstep.2.1 ?_, fun h1 => hstep.2.2 ?_⟩
      · rw [List.length_cons] at h1
        omega
      · rw [List.length_cons] at h1
        omega

theorem ndirs_le (T : Table s start cs) :
    ∃ j, 4 ≤ j ∧ j ≤ 10 ∧ dirsecNdirs s.fs = 2 ^ j := by
  obtain ⟨j, hj, hn, -, hsize⟩ := ndirs_pow T.sound.size
  refine ⟨j, hj, ?_, hn⟩
  have hwidth := T.width
  by_contra hlt
  have hpow : 2 ^ 11 ≤ 2 ^ j := Nat.pow_le_pow_right (by decide) (by omega)
  omega

/-- The masks tell the ends of the sectors and of the clusters, also where the index has gone
beyond the range of its type. -/
theorem index_iff (T : Table s start cs) (i : Nat) :
    (wrap32 (wrap32 i + 1) &&& (dirsecNdirs s.fs - 1) = 0 ↔ dirsecNdirs s.fs ∣ i + 1) ∧
      (wrap32 (wrap32 i + 1) / dirsecNdirs s.fs &&& (s.fs.fsFatsecperclus - 1) = 0 ↔
        s.fs.fsFatsecperclus ∣ (i + 1) / dirsecNdirs s.fs) := by
  obtain ⟨j, -, hj, hn⟩ := ndirs_le T
  obtain ⟨m, hm, hspc⟩ := T.secperclus
  have hnext : wrap32 (wrap32 i + 1) = (i + 1) % 2 ^ 32 := Nat.mod_add_mod i (2 ^ 32) 1
  have hsplit : (2 : Nat) ^ 32 = 2 ^ j * 2 ^ (32 - j) := by
    rw [← Nat.pow_add]
    congr 1
    omega
  have hdvd : (2 : Nat) ^ m ∣ 2 ^ (32 - j) := Nat.pow_dvd_pow 2 (by omega)
  rw [hn, hspc, Nat.and_two_pow_sub_one_eq_mod, Nat.and_two_pow_sub_one_eq_mod, hnext,
    Nat.mod_mod_of_dvd _ (Nat.pow_dvd_pow 2 (by omega)), hsplit, Nat.mod_mul_right_div_self,
    Nat.mod_mod_of_dvd _ hdvd]
  exact ⟨(Nat.dvd_iff_mod_eq_zero).symm, (Nat.dvd_iff_mod_eq_zero).symm⟩

theorem bytendx_wrap (T : Table s start cs) (i : Nat) :
    dirsecBytendx s.fs (wrap32 i) = dirsecBytendx s.fs i := by
  obtain ⟨j, -, hj, hn⟩ := ndirs_le T
  rw [bytendx_eq T.sound.size, bytendx_eq T.sound.size, hn]
  unfold wrap32
  rw [Nat.mod_mod_of_dvd _ (Nat.pow_dvd_pow 2 (by omega))]

theorem cluster2sector_eq (T : Table s start cs) (hv : Valid s c) :
    wrapInt (fatCluster2sector s.fs c) = clusterSector s.fs c := by
  have hc := valid_lt T.sound hv
  have hv' : 2 ≤ c ∧ c < s.fs.fsNclusters := hv
  have hn : s.fs.fsNclusters < 2 ^ 28 :=
    Nat.lt_of_lt_of_le T.sound.nclusters (entryRange_le _)
  have hend := T.database.2
  have hmul : (c - 2) * s.fs.fsFatsecperclus ≤ s.fs.fsNclusters * s.fs.fsFatsecperclus :=
    Nat.mul_le_mul_right _ (by omega)
  have h1 : wrapInt ((c : Int) - 2) = c - 2 := by
    unfold wrapInt
    omega
  have h2 : wrapInt ((s.fs.fsNclusters : Int) - 2) = s.fs.fsNclusters - 2 := by
    unfold wrapInt
    omega
  unfold fatCluster2sector clusterSector
  rw [h1, h2]
  dsimp only
  rw [if_neg (by omega)]
  have hlt : s.fs.fsDatabase + (c - 2) * s.fs.fsFatsecperclus < 2 ^ 32 := by omega
  have hcast : ((c - 2 : Nat) : Int) * (s.fs.fsFatsecperclus : Int) =
      (((c - 2) * s.fs.fsFatsecperclus : Nat) : Int) := (Int.natCast_mul _ _).symm
  have hwrap : ∀ i : Int, wrapInt (offT i) = wrapInt i :=
    fun i => congrArg Int.toNat Int.bmod_emod
  rw [hcast, hwrap]
  unfold wrapInt
  generalize (c - 2) * s.fs.fsFatsecperclus = w at hlt
  omega

theorem secperclus_pos (T : Table s start cs) : 0 < s.fs.fsFatsecperclus := by
  obtain ⟨m, -, hspc⟩ := T.secperclus
  rw [hspc]
  exact Nat.pow_pos (by decide)

theorem total_pos (T : Table s start cs) : 0 < total s.fs cs := by
  unfold total
  split
  · rename_i hcs
    exact (T.rootentcnt (T.root.mpr hcs)).1
  · rename_i hcs
    have hlength := List.length_pos_iff.mpr hcs
    exact Nat.mul_pos (Nat.mul_pos hlength (secperclus_pos T)) (ndirs_pos T.sound.size)

theorem ndirs_dvd (T : Table s start cs) : dirsecNdirs s.fs ∣ total s.fs cs := by
  unfold total
  split
  · rename_i hcs
    exact (T.rootentcnt (T.root.mpr hcs)).2.2
  · exact Nat.dvd_mul_left _ _

theorem sectorsEnd_lt (T : Table s start cs) : sectorsEnd s.fs cs < 2 ^ 32 := by
  unfold sectorsEnd
  split
  · rename_i hcs
    exact (T.rootbase (T.root.mpr hcs)).2
  · exact T.database.2

theorem cluster_lt (hcs : cs ≠ []) (hi : i < total s.fs cs) :
    i / dirsecNdirs s.fs / s.fs.fsFatsecperclus < cs.length := by
  unfold total at hi
  rw [if_neg hcs] at hi
  have h1 : i / dirsecNdirs s.fs < cs.length * s.fs.fsFatsecperclus :=
    Nat.div_lt_of_lt_mul (by rwa [Nat.mul_comm] at hi)
  exact Nat.div_lt_of_lt_mul (by rwa [Nat.mul_comm] at h1)

theorem chain_step (T : Table s start cs) (hcs : cs ≠ []) (hi : i < total s.fs cs) :
    let q := i / dirsecNdirs s.fs / s.fs.fsFatsecperclus
    Valid s (cs.getD q 0) ∧ (q + 1 < cs.length → entry s (cs.getD q 0) = cs.getD (q + 1) 0) ∧
      (q + 1 = cs.length → ¬ Valid s (entry s (cs.getD q 0))) :=
  (T.chain (mt T.root.mp hcs)).step (cluster_lt hcs hi)

theorem sector_bounds (T : Table s start cs) (hi : i < total s.fs cs) :
    0 < sectorAt s.fs cs (i / dirsecNdirs s.fs) ∧
      sectorAt s.fs cs (i / dirsecNdirs s.fs) < sectorsEnd s.fs cs := by
  have hn := ndirs_pos T.sound.size
  have hspc := secperclus_pos T
  by_cases hcs : cs = []
  · have hstart := T.root.mpr hcs
    have hbase := T.rootbase hstart
    obtain ⟨-, -, d, hd⟩ := T.rootentcnt hstart
    unfold total at hi
    unfold sectorAt sectorsEnd
    rw [if_pos hcs] at hi ⊢
    rw [if_pos hcs, hd, Nat.mul_div_cancel_left d hn]
    rw [hd] at hi
    have hlt := Nat.div_lt_of_lt_mul hi
    generalize i / dirsecNdirs s.fs = k at hlt
    omega
  · have hv : 2 ≤ _ ∧ _ < s.fs.fsNclusters := (chain_step T hcs hi).1
    have hdata := T.database.1
    unfold sectorAt sectorsEnd clusterSector
    rw [if_neg hcs, if_neg hcs]
    generalize cs.getD (i / dirsecNdirs s.fs / s.fs.fsFatsecperclus) 0 = c at hv
    have hmod := Nat.mod_lt (i / dirsecNdirs s.fs) hspc
    have hmul : (c - 2 + 1) * s.fs.fsFatsecperclus ≤ s.fs.fsNclusters * s.fs.fsFatsecperclus :=
      Nat.mul_le_mul_right _ (by omega)
    rw [Nat.succ_mul] at hmul
    omega

theorem Table.reloaded_slot (T : Table s start cs) (hi : i < total s.fs cs) :
    Reloaded s (load (sectorAt s.fs cs (i / dirsecNdirs s.fs)) s) :=
  Reloaded.load T.sound (Nat.lt_trans (sector_bounds T hi).2 (sectorsEnd_lt T))

theorem Table.load_bytendx (T : Table s start cs) (i : Nat) :
    dirsecBytendx (load (sectorAt s.fs cs (i / dirsecNdirs s.fs)) s).fs (wrap32 i) =
      dirsecBytendx s.fs i := by
  obtain ⟨p, b, hfs⟩ := load_fs (sectorAt s.fs cs (i / dirsecNdirs s.fs)) s
  rw [hfs, ← bytendx_wrap T]
  rfl

theorem position_root (T : Table s 0 cs) : position s.fs 0 cs 0 = ⟨0, 0, s.fs.fsRootbase, 0⟩ := by
  rw [T.root.mp rfl]
  unfold position sectorAt
  rw [if_pos rfl, Nat.zero_div]
  rfl

theorem position_chain (T : Table s start cs) (hstart : start ≠ 0) (i : Nat)
    (hi : i < dirsecNdirs s.fs) : position s.fs start cs i =
      ⟨start, start, wrapInt (fatCluster2sector s.fs start), wrap32 i⟩ := by
  have hcs : cs ≠ [] := mt T.root.mpr hstart
  have hzero : i / dirsecNdirs s.fs = 0 := Nat.div_eq_of_lt hi
  have hchain := T.chain hstart
  cases hchain with
  | done _ => exact absurd rfl hcs
  | next hv _ =>
    rw [cluster2sector_eq T hv]
    unfold position sectorAt
    rw [hzero, if_neg hcs, Nat.zero_div]
    rfl

theorem sectorAt_succ {fs : Mountpt} {k : Nat} (h : cs = [] ∨ ¬ fs.fsFatsecperclus ∣ k + 1) :
    sectorAt fs cs (k + 1) = sectorAt fs cs k + 1 := by
  unfold sectorAt
  by_cases hcs : cs = []
  · rw [if_pos hcs, if_pos hcs, Nat.add_assoc]
  · have hdiv := Nat.succ_div_of_not_dvd (h.resolve_left hcs)
    have hk := Nat.div_add_mod k fs.fsFatsecperclus
    have hk1 := Nat.div_add_mod (k + 1) fs.fsFatsecperclus
    rw [hdiv] at hk1
    rw [if_neg hcs, if_neg hcs, hdiv]
    omega

theorem next_within (T : Table s start cs) (hi : i + 1 < total s.fs cs) :
    ∃ s', Reloaded s s' ∧ fatNextdirentry (position s.fs start cs i) s =
      (s', position s.fs start cs (i + 1), true) := by
  obtain ⟨hsec, hclus⟩ := index_iff T i
  have hnext : wrap32 (wrap32 i + 1) = wrap32 (i + 1) := Nat.mod_add_mod i (2 ^ 32) 1
  have hlt := (sector_bounds T hi).2
  have hend := sectorsEnd_lt T
  unfold fatNextdirentry position
  dsimp only
  by_cases hdvd : dirsecNdirs s.fs ∣ i + 1
  · have hdiv := Nat.succ_div_of_dvd hdvd
    rw [if_pos (hsec.mpr hdvd)]
    rw [hdiv] at hlt hclus ⊢
    by_cases hcs : cs = []
    · have hsucc := @sectorAt_succ cs s.fs (i / dirsecNdirs s.fs) (.inl hcs)
      have hcount := (T.rootentcnt (T.root.mpr hcs)).2.1
      unfold total at hi
      rw [if_pos hcs] at hi
      have hno : ¬ s.fs.fsRootentcnt ≤ wrap32 (i + 1) := by
        rw [wrap32_of_lt (by omega)]
        omega
      rw [hnext, if_pos (by rw [hcs]; rfl), if_neg hno, ← hsucc, wrap32_of_lt (by omega)]
      refine ⟨s, .refl T.sound, ?_⟩
      rw [hcs]
      rfl
    · obtain ⟨hv, hto, -⟩ := chain_step T hcs (Nat.lt_of_succ_lt hi)
      have hv' : 2 ≤ _ ∧ _ < s.fs.fsNclusters := hv
      rw [if_neg (by omega)]
      by_cases hcdvd : s.fs.fsFatsecperclus ∣ i / dirsecNdirs s.fs + 1
      · have hcdiv := Nat.succ_div_of_dvd hcdvd
        have hq := cluster_lt hcs hi
        rw [hdiv, hcdiv] at hq
        rw [if_pos (hclus.mpr hcdvd), (getcluster_ok T.sound hv).1, hto hq]
        have hv2 := (T.chain (mt T.root.mp hcs)).step hq
        have hv2' : 2 ≤ _ ∧ _ < s.fs.fsNclusters := hv2.1
        dsimp only
        rw [if_neg (by omega), cluster2sector_eq T hv2.1, hcdiv, hnext]
        have hreload := Reloaded.getcluster
          (c := cs.getD (i / dirsecNdirs s.fs / s.fs.fsFatsecperclus) 0) T.sound
        refine ⟨_, hreload, ?_⟩
        unfold sectorAt
        rw [if_neg hcs, hcdiv, Nat.mod_eq_zero_of_dvd hcdvd]
        rfl
      · have hsucc := @sectorAt_succ cs s.fs _ (.inr hcdvd)
        rw [if_neg (mt hclus.mp hcdvd), ← hsucc, wrap32_of_lt (by omega),
          Nat.succ_div_of_not_dvd hcdvd, hnext]
        exact ⟨s, .refl T.sound, rfl⟩
  · rw [if_neg (mt hsec.mp hdvd), Nat.succ_div_of_not_dvd hdvd, hnext]
    exact ⟨s, .refl T.sound, rfl⟩

theorem next_last (T : Table s start cs) (hi : i + 1 = total s.fs cs) (x : Nat) :
    ∃ s', Reloaded s s' ∧
      fatNextdirentry { position s.fs start cs i with fdCurrsector := x } s =
        (s', { position s.fs start cs i with fdCurrsector := wrap32 (x + 1) }, false) := by
  obtain ⟨hsec, hclus⟩ := index_iff T i
  have hspc := secperclus_pos T
  have hn := ndirs_pos T.sound.size
  have hnext : wrap32 (wrap32 i + 1) = wrap32 (i + 1) := Nat.mod_add_mod i (2 ^ 32) 1
  unfold fatNextdirentry position
  dsimp only
  by_cases hcs : cs = []
  · have hcount := T.rootentcnt (T.root.mpr hcs)
    unfold total at hi
    rw [if_pos hcs] at hi
    have hdvd : dirsecNdirs s.fs ∣ i + 1 := hi ▸ hcount.2.2
    have hfull : s.fs.fsRootentcnt ≤ wrap32 (i + 1) := by
      rw [wrap32_of_lt (by omega)]
      omega
    rw [if_pos (hsec.mpr hdvd), hnext, if_pos (by rw [hcs]; rfl), if_pos hfull]
    exact ⟨s, .refl T.sound, rfl⟩
  · obtain ⟨hv, -, hlast⟩ := chain_step T hcs (show i < total s.fs cs by omega)
    have hv' : 2 ≤ _ ∧ _ < s.fs.fsNclusters := hv
    unfold total at hi
    rw [if_neg hcs] at hi
    have hdvd : dirsecNdirs s.fs ∣ i + 1 := hi ▸ Nat.dvd_mul_left _ _
    have hdiv := Nat.succ_div_of_dvd hdvd
    have hsectors : i / dirsecNdirs s.fs + 1 = cs.length * s.fs.fsFatsecperclus := by
      rw [← hdiv, hi, Nat.mul_div_cancel _ hn]
    have hcdvd : s.fs.fsFatsecperclus ∣ i / dirsecNdirs s.fs + 1 :=
      hsectors ▸ Nat.dvd_mul_left _ _
    have hq : i / dirsecNdirs s.fs / s.fs.fsFatsecperclus + 1 = cs.length := by
      rw [← Nat.succ_div_of_dvd hcdvd, hsectors, Nat.mul_div_cancel _ hspc]
    have hend := hlast hq
    have hend' : ¬ (2 ≤ entry s _ ∧ entry s _ < s.fs.fsNclusters) := hend
    rw [hdiv] at hclus
    rw [if_pos (hsec.mpr hdvd), if_neg (by omega), if_pos (hclus.mpr hcdvd),
      (getcluster_ok T.sound hv).1]
    dsimp only
    rw [if_pos (by omega)]
    exact ⟨_, .getcluster T.sound, rfl⟩

theorem next_end (T : Table s start cs) (hi : i + 1 = total s.fs cs) :
    ∃ s', Reloaded s s' ∧ fatNextdirentry (position s.fs start cs i) s =
      (s', { position s.fs start cs i with
        fdCurrsector := wrap32 (sectorAt s.fs cs (i / dirsecNdirs s.fs) + 1) }, false) :=
  next_last T hi (sectorAt s.fs cs (i / dirsecNdirs s.fs))

end

/-- An empty root and a directory of one cluster, whose first `n` entries are in use. -/
def oneCluster (n : Nat) : State :=
  { emptyVolume .fat16 with
    fs :=
      { (emptyVolume .fat16).fs with
        fsFatsecperclus := 1
        fsRootbase := 9
        fsRootentcnt := 16
        fsDatabase := 10 }
    dev := fun x k =>
      if x = 10 ∧ k < 32 * n then 0x41 else if x = 1 ∧ 4 ≤ k ∧ k < 6 then 0xff else 0 }

theorem oneCluster_sound (n : Nat) : Sound (oneCluster n) where
  cached _ := rfl
  current := Nat.two_pow_pos 32
  size := ⟨9, Nat.le_refl 9, rfl⟩
  type := (by decide : FsType.fat16 ≠ .none)
  nclusters := (by decide : 400 < entryRange .fat16)
  entries := (by decide : entryBytes .fat16 400 ≤ 4 * 512)
  fats := (by decide : 1 + max 1 2 * 4 < 2 ^ 32)

theorem oneCluster_table {n start : Nat} {cs : List Nat} (hroot : start = 0 ↔ cs = [])
    (hchain : start ≠ 0 → ChainFrom (oneCluster n) start cs) : Table (oneCluster n) start cs where
  sound := oneCluster_sound n
  width := (by decide : 512 < 2 ^ 16)
  secperclus := ⟨0, by decide, rfl⟩
  database := (by decide : 0 < 10 ∧ 10 + 400 * 1 < 2 ^ 32)
  rootbase _ := (by decide : 0 < 9 ∧ 9 + 16 / (512 / 2 ^ 5) < 2 ^ 32)
  rootentcnt _ := (by decide : 0 < 16 ∧ 16 < 2 ^ 16 ∧ 512 / 2 ^ 5 ∣ 16)
  root := hroot
  chain := hchain

theorem oneCluster_root (n : Nat) : Table (oneCluster n) 0 [] :=
  oneCluster_table (by decide) fun h => absurd rfl h

theorem oneCluster_chain (n : Nat) : Table (oneCluster n) 2 [2] := by
  refine oneCluster_table (by decide) fun _ => ?_
  have hmark : entry (oneCluster n) 2 = 0xffff := by
    have hbyte : ∀ k, 4 ≤ k → k < 6 → fatByte (oneCluster n) k = 0xff := by
      intro k h4 h6
      have hview : fatByte (oneCluster n) k = (oneCluster n).dev (1 + k / 512) (k % 512) := by
        have hne : ¬ (oneCluster n).fs.fsFatbase + k / (oneCluster n).fs.fsHwsectorsize =
            (oneCluster n).fs.fsCurrentsector := by
          show ¬ 1 + k / 512 = 0
          omega
        unfold fatByte
        rw [view_clean rfl, if_neg hne]
        rfl
      rw [hview, show k / 512 = 0 by omega, Nat.mod_eq_of_lt (by omega)]
      show (if 1 + 0 = 10 ∧ k < 32 * n then 0x41
        else if 1 + 0 = 1 ∧ 4 ≤ k ∧ k < 6 then 0xff else 0) = (0xff : UInt8)
      rw [if_neg fun h => absurd h.1 (by decide), if_pos ⟨rfl, h4, h6⟩]
    show fatGetuint16 (fatByte (oneCluster n)) (2 * 2) = _
    unfold fatGetuint16
    rw [hbyte _ (by decide) (by decide), hbyte _ (by decide) (by decide)]
    rfl
  refine .next ⟨Nat.le_refl 2, (by decide : 2 < 400)⟩ (.done ?_)
  rw [hmark]
  exact fun h => absurd (show 0xffff < 400 from h.2) (by decide)

end NuttxAvr32.Fat
