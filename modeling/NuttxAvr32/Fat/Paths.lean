import NuttxAvr32.Fat.Creation

/-! # Lookup, creation and removal by path

`fat_rmdir`, and all calls together: what they do is right exactly where no component in the
middle of a path is missing, there is room, and a directory to be removed has a mark of its end.
-/

namespace NuttxAvr32.Fat.Paths

open Scan Lookup Allocate

section

variable {env : Env} {s s₁ s' : State} {dirs : Nat → List Nat} {start first j fuel k : Nat}
  {c : Component} {cs : List Component} {stop : Sector → Bool}

theorem next_start (x : Nat) (dir : Fatdir) (s : State) :
    fatNextdirentry { dir with fdStartcluster := x } s =
      ((fatNextdirentry dir s).1, { (fatNextdirentry dir s).2.1 with fdStartcluster := x },
        (fatNextdirentry dir s).2.2) := by
  unfold fatNextdirentry
  dsimp only
  split
  · split
    · split <;> rfl
    · split
      · split
        · rfl
        · split <;> rfl
      · rfl
  · rfl

theorem scan_start (x fuel : Nat) (dir : Fatdir) (s : State) :
    scanDir stop fuel { dir with fdStartcluster := x } s =
      (scanDir stop fuel dir s).map fun r => (r.1, { r.2.1 with fdStartcluster := x }, r.2.2) := by
  induction fuel generalizing dir s with
  | zero => rfl
  | succ fuel ih =>
    unfold scanDir
    dsimp only
    rw [next_start]
    split
    · rfl
    split
    · rfl
    split
    · exact ih _ _
    · rfl

theorem empty_scan (V : Tree s dirs) (D : Dir s dirs start 2) (h : Reloaded s s₁)
    (hturns : Enough s dirs fuel) :
    ∃ r, scanDir stopsEmpty fuel (position s.fs start (dirs start) 2) s₁ = some r ∧
      Reloaded s r.1 ∧
      ((∃ e, r.2.2 = some e ∧ entryAt r.1.fs e 0 = 0 ∧ Empty s (dirs start) ∧
          Readdir.Ended s (dirs start) 2) ∨
        (∃ e, r.2.2 = some e ∧ entryAt r.1.fs e 0 ≠ 0 ∧ ¬ Empty s (dirs start)) ∨
        r.2.2 = none ∧ Empty s (dirs start) ∧ ¬ Readdir.Ended s (dirs start) 2) := by
  have T := V.table D
  have hfirst := (first_lt V D).2
  have hfuel := hturns start 2 D
  obtain ⟨r, hr, hout⟩ := @scan_spec stopsEmpty s₁ start 2 fuel (dirs start)
    (T.of_reloaded h) (h.total.symm ▸ hfirst) (by rw [h.total]; omega)
  rw [h.position] at hr
  have hgo : ∀ {k}, stopsEmpty (slotAt s (dirs start) k) = false →
      slotAt s (dirs start) k 0 ≠ 0 ∧ Readdir.isLive (slotAt s (dirs start) k) = false := by
    intro k hk
    unfold stopsEmpty at hk
    simpa using hk
  refine ⟨r, hr, ?_⟩
  rcases hout with ⟨j, hij, S, hstop, hbefore⟩ | ⟨E, hnone⟩
  · have S' := S.of_reloaded h
    rw [h.slotAt] at hstop
    have hbefore' : ∀ k, 2 ≤ k → k < j → slotAt s (dirs start) k 0 ≠ 0 ∧
        Readdir.isLive (slotAt s (dirs start) k) = false := by
      intro k hk hkj
      have hno := hbefore k hk hkj
      rw [h.slotAt] at hno
      exact hgo hno
    refine ⟨S'.same, ?_⟩
    have hat := S'.entryAt
    by_cases hzero : slotAt s (dirs start) j 0 = 0
    · refine .inl ⟨_, S'.entry, by rw [hat]; exact hzero, fun k L => ?_,
        ⟨j, hij, S'.range, hzero⟩⟩
      by_cases hkj : k < j
      · have hdead := (hbefore' k L.1 hkj).2
        rw [L.2.2.2] at hdead
        cases hdead
      · exact L.2.2.1 j hij (by omega) hzero
    · refine .inr (.inl ⟨_, S'.entry, by rw [hat]; exact hzero, fun hempty => ?_⟩)
      unfold stopsEmpty at hstop
      have hlive : Readdir.isLive (slotAt s (dirs start) j) = true := by simpa [hzero] using hstop
      refine hempty j ⟨hij, S'.range, fun k hk hkj => ?_, hlive⟩
      by_cases hkj' : k = j
      · rw [hkj']
        exact hzero
      · exact (hbefore' k hk (by omega)).1
  · have E' := E.of_reloaded h
    have hnone' : ∀ k, 2 ≤ k → k < total s.fs (dirs start) → slotAt s (dirs start) k 0 ≠ 0 ∧
        Readdir.isLive (slotAt s (dirs start) k) = false := by
      intro k hk hkt
      have hno := hnone k hk (h.total.symm ▸ hkt)
      rw [h.slotAt] at hno
      exact hgo hno
    refine ⟨E'.same, .inr (.inr ⟨E'.entry, fun k L => ?_, fun ⟨t, ht, htt, hzero⟩ => ?_⟩)⟩
    · have hdead := (hnone' k L.1 L.2.1).2
      rw [L.2.2.2] at hdead
      cases hdead
    · exact (hnone' t ht htt).1 hzero

theorem entry_same (hs : Sound s) (hsame : SameGeometry s s') (hv : Valid s k)
    (hview : ∀ y, y < s.fs.fsFatbase + s.fs.fsNfatsects → view s' y = view s y) :
    entry s' k = entry s k := by
  have hbyte : ∀ i < fatSize s, fatByte s' i = fatByte s i := by
    intro i hi
    have hin := hview _ (inFat hs hi).2
    obtain ⟨p, c, b, free, next, dirty, hfs⟩ := hsame
    unfold fatByte
    rw [hfs]
    exact congrFun hin _
  have htype : s'.fs.fsType = s.fs.fsType := by
    obtain ⟨p, c, b, free, next, dirty, hfs⟩ := hsame
    rw [hfs]
  obtain ⟨h12, h16, h32⟩ := valid_offset hs hv
  unfold entry entryOf
  rw [htype]
  cases ht : s.fs.fsType with
  | none => rfl
  | fat12 =>
    have hk := h12 ht
    dsimp only
    unfold Packed.get
    rw [hbyte _ (by omega), hbyte _ hk]
  | fat16 =>
    have hk := h16 ht
    dsimp only
    unfold fatGetuint16
    rw [hbyte _ (by omega), hbyte _ hk]
  | fat32 =>
    have hk := h32 ht
    dsimp only
    unfold fatGetuint32 fatGetuint16
    rw [hbyte _ (by omega), hbyte _ (by omega), hbyte _ (by omega), hbyte _ hk]

theorem length_le_total (T : Table s start (dirs start)) (hstart : start ≠ 0) :
    (dirs start).length ≤ total s.fs (dirs start) := by
  unfold total
  rw [if_neg (mt T.root.mpr hstart), Nat.mul_assoc]
  exact Nat.le_mul_of_pos_right _ (Nat.mul_pos (secperclus_pos T) (ndirs_pos T.sound.size))

theorem removed (V : Volume s dirs) (hturns : Enough s dirs env.fuel)
    (D : Dir s dirs start first) (L : LiveAt s (dirs start) first j)
    (hdir : isDirectory (slotAt s (dirs start) j) = true) (h : Reloaded s s₁) :
    let x := sectorAt s.fs (dirs start) (j / dirsecNdirs s.fs)
    let s₂ := (cacheread .ok x s₁).1
    let s₃ := setDirty (setBuffer (ubytePut s₂.fs.fsBuffer (dirsecBytendx s.fs j) 0xe5) s₂)
    ∃ s₄, fatRemovechain env.beyond env.fuel (fstclust (slotAt s (dirs start) j)) s₃ =
        some (s₄, true) ∧
      let s₅ := (fatUpdatefsinfo (env.beyond 2) none none s₄).1
      slotAt s₅ (dirs start) j 0 = 0xe5 ∧
        ∀ y o, Behind s.fs y → ¬ InSlot s.fs (dirs start) j y o → view s₅ y o = view s y o := by
  intro x s₂ s₃
  have T := V.table D
  have D' := Dir.sub D L hdir
  have T' := V.table D'
  have hchild := (V.sub D').1
  have hlt : x < 2 ^ 32 := Nat.lt_trans (sector_bounds T L.2.1).2 (sectorsEnd_lt T)
  have hload : s₂ = load x s₁ := by
    show (cacheread .ok x s₁).1 = _
    rw [cacheread_ok h.sound]
  have S : StopsAt s start (dirs start) j
      (s₂, position s.fs start (dirs start) j, some (dirsecBytendx s.fs j)) := by
    rw [hload]
    exact ⟨L.2.1, h.trans (.load h.sound hlt), rfl, rfl, load_current x s₁⟩
  obtain ⟨hsame, hview⟩ := put_slot V D S (ubytePut s₂.fs.fsBuffer (dirsecBytendx s.fs j) 0xe5)
  have hbuf : s₂.fs.fsBuffer = view s x := slot_buffer S
  have hbehind : Behind s.fs x := slot_behind V D j
  have hsound : Sound s₃ := setBuffer_sound S.same.sound _
  have hchain : ChainFrom s₃ (fstclust (slotAt s (dirs start) j))
      (dirs (fstclust (slotAt s (dirs start) j))) := by
    refine (T'.chain hchild).of_same (fun d => hsame.valid) fun d _ hv => ?_
    refine entry_same T.sound hsame hv fun y hy => ?_
    have hb := behind_sector hbehind
    rw [hview, if_neg (show y ≠ x by omega)]
  have hlen := length_le_total T' hchild
  have hfuel := hturns _ _ D'
  obtain ⟨s₄, hrun, F⟩ := removechain_frames (D := Behind s.fs) env.beyond hsound
    hchain (show _ < env.fuel by omega) fun y hy => hsame.behind.mpr hy
  have S₃ : Shows (Behind s.fs) s (fun y => if y = x then
      ubytePut s₂.fs.fsBuffer (dirsecBytendx s.fs j) 0xe5 else view s y) s₃ :=
    ⟨hsame, hsound, fun y _ => hview y⟩
  have S₅ := (S₃.frames F).updatefsinfo (fun _ h => h) V.fsinfo (env.beyond 2)
  refine ⟨s₄, hrun, ?_, fun y o hy hno => ?_⟩
  · rw [slotAt_view S₅.same]
    dsimp only
    rw [S₅.view x hbehind, if_pos rfl]
    exact Function.update_self _ _ _
  · rw [S₅.view y hy]
    by_cases hyx : y = x
    · have ho : o ≠ dirsecBytendx s.fs j := fun ho => hno ⟨hyx, by omega, by omega⟩
      rw [if_pos hyx, hbuf, hyx]
      exact Function.update_of_ne ho _ _
    · rw [if_neg hyx]

theorem removes_of_kept {t : Destination} {r : State × Ret}
    (hret : r.2 ≠ .ok) (h : Unchanged s r.1)
    (hno : ∀ start j, LeadsToEmpty s dirs t start j →
      ¬ ((slotAt s (dirs start) j 11).toNat &&& 0x01 = 0 ∧
        Readdir.Ended s (dirs (fstclust (slotAt s (dirs start) j))) 2)) :
    RemovesRight s dirs t r ↔ Removable s dirs t := by
  constructor
  · intro R start j hleads
    exact absurd (R.removes start j hleads).1 hret
  · intro H
    exact ⟨fun start j hleads => absurd (H start j hleads) (hno start j hleads),
      fun _ => ⟨hret, h⟩⟩

theorem leadsToEmpty_found {start' j' : Nat}
    (h : LeadsToEmpty s dirs (.found start first j) start' j') : start' = start ∧ j' = j := by
  obtain ⟨⟨first', heq⟩, -⟩ := h
  cases heq
  exact ⟨rfl, rfl⟩

theorem rmdir_right_iff (V : Volume s dirs) (hturns : Enough s dirs env.fuel)
    (hfuel : cs.length < env.fuel) :
    ∃ r, fatRmdir env (pathOf c cs) s = some r ∧
      (RemovesRight s dirs (target s dirs c cs) r ↔ Removable s dirs (target s dirs c cs)) := by
  have hs := (V.table .root).sound
  obtain ⟨⟨s₂, info, ret⟩, hfind, F⟩ := find_spec env c cs V.toTree
    (.refl hs) hturns hfuel
  unfold fatRmdir fatRemove
  rw [hfind]
  cases ht : target s dirs c cs with
  | notdir =>
    rw [ht] at F
    have hret : ret = .enotdir := F.1
    subst hret
    refine ⟨_, rfl, ?_⟩
    refine removes_of_kept (fun h => by cases h) F.2.view fun _ _ h => ?_
    obtain ⟨⟨_, heq⟩, -⟩ := h
    cases heq
  | missing start first c last =>
    rw [ht] at F
    have hret : ret = .enoent := F.1
    have hre : Reloaded s s₂ := F.2.2.1
    subst hret
    refine ⟨_, rfl, ?_⟩
    refine removes_of_kept (fun h => by cases h) hre.view fun _ _ h => ?_
    obtain ⟨⟨_, heq⟩, -⟩ := h
    cases heq
  | found start first j =>
    rw [ht] at F
    obtain ⟨hret, D, L, S⟩ := F
    have hret' : ret = .ok := hret
    have he : info.fdEntry = some (dirsecBytendx s.fs j) := S.entry
    have hat : entryAt s₂.fs (dirsecBytendx s.fs j) = slotAt s (dirs start) j := S.entryAt
    have hsec : s₂.fs.fsCurrentsector = sectorAt s.fs (dirs start) (j / dirsecNdirs s.fs) :=
      S.sector
    subst hret'
    dsimp only
    rw [he]
    dsimp only
    rw [hat, hsec]
    by_cases hro : (slotAt s (dirs start) j 11).toNat &&& 0x01 ≠ 0
    · rw [if_pos hro]
      refine ⟨_, rfl, ?_⟩
      refine removes_of_kept (fun h => by cases h) S.same.view fun start' j' h ha => ?_
      obtain ⟨rfl, rfl⟩ := leadsToEmpty_found h
      exact hro ha.1
    rw [if_neg hro]
    by_cases hdir : isDirectory (slotAt s (dirs start) j) = true
    · rw [if_pos hdir, if_neg (by decide)]
      have D' := Dir.sub D L hdir
      have hpos := subdir_position V.toTree D' S.same
      obtain ⟨⟨s₃, d, e⟩, hscan, hre, hout⟩ := empty_scan V.toTree D' S.same hturns
      rw [scan_start, hpos, hscan]
      rcases hout with ⟨e', hent, hzero, hempty, hended⟩ | ⟨e', hent, hlive, hfull⟩ |
        ⟨hent, hempty, hunmarked⟩
      · have he' : e = some e' := hent
        subst he'
        obtain ⟨s₄, hrun, hslot, hrest⟩ := removed V hturns D L hdir hre
        dsimp only [Option.map] at hzero hrun hslot hrest ⊢
        rw [if_pos hzero, hrun]
        have hleads : LeadsToEmpty s dirs (.found start first j) start j :=
          ⟨⟨first, rfl⟩, hdir, hempty⟩
        refine ⟨_, rfl, fun _ start' j' h => ?_, fun _ => ⟨fun start' j' h => ?_,
          fun hno => absurd hleads (hno start j)⟩⟩
        · obtain ⟨rfl, rfl⟩ := leadsToEmpty_found h
          exact ⟨not_not.mp hro, hended⟩
        · obtain ⟨rfl, rfl⟩ := leadsToEmpty_found h
          exact ⟨rfl, hslot, hrest⟩
      · have he' : e = some e' := hent
        subst he'
        dsimp only [Option.map] at hlive ⊢
        rw [if_neg hlive]
        refine ⟨_, rfl, ?_⟩
        refine removes_of_kept (fun h => by cases h) hre.view fun start' j' h _ => ?_
        obtain ⟨rfl, rfl⟩ := leadsToEmpty_found h
        exact hfull h.2.2
      · have he' : e = none := hent
        subst he'
        refine ⟨_, rfl, ?_⟩
        refine removes_of_kept (fun h => by cases h) hre.view fun start' j' h ha => ?_
        obtain ⟨rfl, rfl⟩ := leadsToEmpty_found h
        exact hunmarked ha.2
    · rw [if_neg hdir, if_pos rfl]
      refine ⟨_, rfl, ?_⟩
      refine removes_of_kept (fun h => by cases h) S.same.view fun start' j' h _ => ?_
      obtain ⟨rfl, rfl⟩ := leadsToEmpty_found h
      exact hdir h.2.1

end

section

variable {env : Env} {s : State} {dirs : Nat → List Nat} {c : Component} {cs : List Component}

theorem finds_right (V : Volume s dirs) (hturns : Enough s dirs env.fuel)
    (hfuel : cs.length < env.fuel) : FindsRight env s dirs c cs := by
  obtain ⟨⟨s₂, info, ret⟩, hfind, F⟩ := find_spec env c cs V.toTree
    (.refl (V.table .root).sound) hturns hfuel
  refine ⟨_, hfind, ?_⟩
  cases ht : target s dirs c cs with
  | notdir =>
    rw [ht] at F
    have hret : ret = .enotdir := F.1
    subst hret
    refine ⟨⟨fun h => (by cases h), fun h => ?_⟩, fun _ _ _ h => (by cases h)⟩
    obtain ⟨_, _, _, h⟩ := h
    cases h
  | missing start first c last =>
    rw [ht] at F
    have hret : ret = .enoent := F.1
    subst hret
    refine ⟨⟨fun h => (by cases h), fun h => ?_⟩, fun _ _ _ h => (by cases h)⟩
    obtain ⟨_, _, _, h⟩ := h
    cases h
  | found start first j =>
    rw [ht] at F
    obtain ⟨hret, D, L, S⟩ := F
    refine ⟨⟨fun _ => ⟨start, first, j, rfl⟩, fun _ => hret⟩, fun start' first' j' h => ?_⟩
    cases h
    exact ⟨_, S.entry, S.entryAt, S.sector, rfl⟩

theorem rename_right_iff {old : Component} {olds : List Component} (V : Volume s dirs)
    (hturns : Enough s dirs env.fuel) (hfuel : olds.length < env.fuel ∧ cs.length < env.fuel) :
    ∃ r, fatRename env (pathOf old olds) (pathOf c cs) s = some r ∧
      (RenamesRight s dirs (target s dirs old olds) (target s dirs c cs) r ↔
        Renamable s dirs (target s dirs old olds) (target s dirs c cs)) := by
  obtain ⟨⟨s₁, info, ret⟩, hfind, F⟩ := find_spec env old olds V.toTree
    (.refl (V.table .root).sound) hturns hfuel.1
  cases hold : target s dirs old olds with
  | found start first j =>
    obtain ⟨r, hr, O⟩ := rename_outcome (c := c) V hturns hfuel.2 hfuel.1 hold
    exact ⟨r, hr, O.right_iff.trans ⟨fun H _ => H, fun H => H ⟨start, first, j, rfl⟩⟩⟩
  | missing start first c' last =>
    rw [hold] at F
    have hret : ret = .enoent := F.1
    have hre : Reloaded s s₁ := F.2.2.1
    subst hret
    refine ⟨(s₁, .enoent), ?_, fun _ h => ?_, fun _ => hre.view⟩
    · rw [fatRename, hfind]
    · obtain ⟨_, _, _, h⟩ := h
      cases h
  | notdir =>
    rw [hold] at F
    have hret : ret = .enotdir := F.1
    subst hret
    refine ⟨(s₁, .enotdir), ?_, fun _ h => ?_, fun _ => F.2.view⟩
    · rw [fatRename, hfind]
    · obtain ⟨_, _, _, h⟩ := h
      cases h

end

/-- Lookup, creation and removal are right exactly where no component in the middle of the path
is missing, there is room for what is created, and what is to be removed is not read-only and
has an entry that marks its end. -/
theorem paths_right_iff {env : Env} {s : State} {dirs : Nat → List Nat} (V : Volume s dirs)
    (hturns : Enough s dirs env.fuel) (hclusters : s.fs.fsNclusters + 1 < env.fuel) (op : Op)
    (hfuel : op.Fits env.fuel) :
    (op.Finds env s dirs ∧ ∃ r, op.run env s = some r ∧ op.Right s dirs r) ↔ op.Holds s dirs := by
  have hunique : ∀ {P : State × Ret → Prop} {Q : Prop} {o : Option (State × Ret)},
      (∃ r, o = some r ∧ (P r ↔ Q)) → ((∃ r, o = some r ∧ P r) ↔ Q) := by
    intro P Q o ⟨r, hr, hiff⟩
    constructor
    · intro ⟨r', hr', hP⟩
      rw [hr] at hr'
      cases hr'
      exact hiff.mp hP
    · intro hQ
      exact ⟨r, hr, hiff.mpr hQ⟩
  cases op with
  | creat excl wronly c cs =>
    have hfinds : FindsRight env s dirs c cs := finds_right V hturns hfuel
    obtain ⟨r, hr, O⟩ := open_outcome (c := c) V hturns hfuel excl wronly
    exact (and_iff_right hfinds).trans (hunique ⟨r, hr, O.right_iff⟩)
  | mkdir c cs =>
    have hfinds : FindsRight env s dirs c cs := finds_right V hturns hfuel
    obtain ⟨r, hr, O⟩ := mkdir_outcome (c := c) V hturns hfuel hclusters
    exact (and_iff_right hfinds).trans (hunique ⟨r, hr, O.right_iff⟩)
  | rename old olds c cs =>
    have hfinds : FindsRight env s dirs old olds ∧ FindsRight env s dirs c cs :=
      ⟨finds_right V hturns hfuel.1, finds_right V hturns hfuel.2⟩
    exact (and_iff_right hfinds).trans (hunique (rename_right_iff V hturns hfuel))
  | rmdir c cs =>
    have hfinds : FindsRight env s dirs c cs := finds_right V hturns hfuel
    exact (and_iff_right hfinds).trans (hunique (rmdir_right_iff V hturns hfuel))

theorem oneCluster_blank {i : Nat} (hi : i < 16) : slotAt (oneCluster 0) [] i 0 = 0 := by
  have hall : ∀ i < 16, slotAt (oneCluster 0) [] i 0 = 0 := by decide +kernel
  exact hall i hi

theorem oneCluster_dir {start first : Nat} (D : Dir (oneCluster 0) (fun _ => []) start first) :
    start = 0 ∧ first = 0 := by
  cases D with
  | root => exact ⟨rfl, rfl⟩
  | @sub start first j _ L _ =>
    exact absurd (oneCluster_blank L.2.1) (L.2.2.1 j L.1 (Nat.le_refl j))

theorem oneCluster_volume : Volume (oneCluster 0) fun _ => [] where
  root h := by cases h
  table D := by
    obtain ⟨rfl, rfl⟩ := oneCluster_dir D
    exact oneCluster_root 0
  used _ _ h := by cases h
  sub D := by
    obtain ⟨-, h⟩ := oneCluster_dir D
    cases h
  data := (by decide : 1 + max 1 2 * 4 ≤ 10)
  rootdata _ := (by decide : 1 + max 1 2 * 4 ≤ 9 ∧ 9 + 16 / (512 / 2 ^ 5) ≤ 10)
  fsinfo h := by cases h

theorem oneCluster_enough : Enough (oneCluster 0) (fun _ => []) 500 :=
  fun _ _ _ => (by decide : 16 < 500)

def sampleEnv : Env := ⟨false, 500, 0, fun _ => 0, fun _ => 0⟩

def letter (ch : Nat) (h : Names.Permitted ch) : Component where
  base := [ch]
  ext := []
  isBase := ⟨fun _ hmem => List.mem_singleton.mp hmem ▸ h, (by decide : 1 ≤ 1 ∧ 1 ≤ 8)⟩
  isExt := ⟨fun _ hmem => (by cases hmem), by decide⟩

def letterA : Component := letter 0x41 ⟨by decide, by decide⟩

def letterB : Component := letter 0x42 ⟨by decide, by decide⟩

theorem oneCluster_child (name : Nat → Nat) : child (oneCluster 0) [] 0 name = none := by
  show lookup _ name 16 0 = none
  rw [lookup, if_pos (oneCluster_blank (by decide))]

theorem oneCluster_room : HasSlot (oneCluster 0) [] ∧ HasCluster (oneCluster 0) :=
  ⟨⟨0, (by decide : 0 < 16), .inl (oneCluster_blank (by decide))⟩, 3,
    ⟨by decide, by decide⟩, by decide +kernel⟩

/-- A directory is made in the root. -/
theorem paths_right_mkdir :
    (Op.mkdir letterA []).Finds sampleEnv (oneCluster 0) (fun _ => []) ∧
      ∃ r, (Op.mkdir letterA []).run sampleEnv (oneCluster 0) = some r ∧
        (Op.mkdir letterA []).Right (oneCluster 0) (fun _ => []) r := by
  refine (@paths_right_iff sampleEnv _ _ oneCluster_volume oneCluster_enough (by decide)
    (.mkdir letterA []) (by decide : 0 < 500)).mpr ?_
  intro start first c last ht
  unfold target resolve at ht
  rw [show rootStart (oneCluster 0).fs = 0 from rfl, oneCluster_child] at ht
  cases ht
  exact ⟨rfl, oneCluster_room⟩

/-- Where `A` is missing, `A/B` is made in the root. -/
theorem paths_misplaced : ¬ ∀ (env : Env) (s : State) (dirs : Nat → List Nat) (op : Op),
    Volume s dirs → Enough s dirs env.fuel → s.fs.fsNclusters + 1 < env.fuel →
      op.Fits env.fuel →
        op.Finds env s dirs ∧ ∃ r, op.run env s = some r ∧ op.Right s dirs r := by
  intro hall
  obtain ⟨-, r, hr, R⟩ := hall sampleEnv (oneCluster 0) (fun _ => []) (.mkdir letterA [letterB])
    oneCluster_volume oneCluster_enough (by decide) (by decide : 1 < 500)
  obtain ⟨r', hr', O⟩ := @mkdir_outcome sampleEnv _ _ letterA [letterB]
    oneCluster_volume oneCluster_enough (by decide) (by decide)
  have heq : r' = r := Option.some.inj (hr'.symm.trans hr)
  have ht : target (oneCluster 0) (fun _ => []) letterA [letterB] =
      .missing 0 0 letterA false := by
    unfold target resolve
    rw [show rootStart (oneCluster 0).fs = 0 from rfl, oneCluster_child]
  rw [heq] at O
  have hlast := (O.right_iff.mp R 0 0 letterA false ht).1
  cases hlast

end NuttxAvr32.Fat.Paths
