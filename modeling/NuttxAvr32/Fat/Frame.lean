import NuttxAvr32.Fat.Sync

/-! # What writes leave alone

The sectors behind the FATs, while entries of the FAT are written, while the buffer is flushed
and while the FSINFO sector is updated.
-/

namespace NuttxAvr32.Fat

def Behind (fs : Mountpt) (x : Nat) : Prop :=
  fs.fsFatbase + max 1 fs.fsFatnumfats * fs.fsNfatsects ≤ x

def SameGeometry (s s' : State) : Prop :=
  ∃ p c b free next dirty, s'.fs =
    { s.fs with
      fsBuffer := p
      fsCurrentsector := c
      fsDirty := b
      fsFsifreecount := free
      fsFsinextfree := next
      fsFsidirty := dirty }

structure Frames (D : Nat → Prop) (s s' : State) : Prop where
  same : SameGeometry s s'
  sound : Sound s'
  view : ∀ x, D x → view s' x = view s x

section

variable {D : Nat → Prop} {s s' s'' : State} {x c : Nat}

theorem SameGeometry.refl (s : State) : SameGeometry s s :=
  ⟨s.fs.fsBuffer, s.fs.fsCurrentsector, s.fs.fsDirty, s.fs.fsFsifreecount, s.fs.fsFsinextfree,
    s.fs.fsFsidirty, rfl⟩

theorem SameGeometry.trans (h : SameGeometry s s') (h' : SameGeometry s' s'') :
    SameGeometry s s'' := by
  obtain ⟨p, c, b, free, next, dirty, hfs⟩ := h
  obtain ⟨p', c', b', free', next', dirty', hfs'⟩ := h'
  rw [SameGeometry, hfs', hfs]
  exact ⟨p', c', b', free', next', dirty', rfl⟩

theorem SameGeometry.behind (h : SameGeometry s s') : Behind s'.fs x ↔ Behind s.fs x := by
  obtain ⟨p, c, b, free, next, dirty, hfs⟩ := h
  unfold Behind
  rw [hfs]

theorem SameGeometry.valid (h : SameGeometry s s') : Valid s' c ↔ Valid s c := by
  obtain ⟨p, c', b, free, next, dirty, hfs⟩ := h
  unfold Valid
  rw [hfs]

theorem Frames.refl (hs : Sound s) : Frames D s s := ⟨.refl s, hs, fun _ _ => rfl⟩

theorem Frames.trans (h : Frames D s s') (h' : Frames D s' s'') : Frames D s s'' :=
  ⟨h.same.trans h'.same, h'.sound, fun x hx => (h'.view x hx).trans (h.view x hx)⟩

theorem Reloaded.frames (h : Reloaded s s') : Frames D s s' where
  same := by
    obtain ⟨p, c, b, hfs⟩ := h.fs
    exact ⟨p, c, b, s.fs.fsFsifreecount, s.fs.fsFsinextfree, s.fs.fsFsidirty, hfs⟩
  sound := h.sound
  view x _ := h.view x

theorem counted_frames (hs : Sound s) (hdev : s'.dev = s.dev)
    (hfs : ∃ count next b, s'.fs =
      { s.fs with
        fsFsifreecount := count
        fsFsinextfree := next
        fsFsidirty := b }) : Frames D s s' where
  same := by
    obtain ⟨count, next, b, hfs⟩ := hfs
    exact ⟨s.fs.fsBuffer, s.fs.fsCurrentsector, s.fs.fsDirty, count, next, b, hfs⟩
  sound := (counted hdev hfs).sound hs
  view x _ := congrFun (view_congr hdev hfs) x

theorem countFree_frames (hs : Sound s) (d : Int) : Frames D s (countFree d s) := by
  unfold countFree
  split
  · exact counted_frames hs rfl ⟨_, _, _, rfl⟩
  · exact .refl hs

theorem setNextfree_frames (hs : Sound s) (n : Nat) : Frames D s (setNextfree n s) :=
  counted_frames hs rfl ⟨_, _, _, rfl⟩

theorem flush_dev (hs : Sound s) (x : Nat) : (fatFscacheflush none s).1.dev x = Fat.view s x := by
  cases hd : s.fs.fsDirty with
  | false =>
    rw [flush_clean hd, view_clean hd]
    by_cases hx : x = s.fs.fsCurrentsector
    · rw [if_pos hx, hx, hs.cached hd]
    · rw [if_neg hx]
  | true =>
    rw [(flush_none hd).2.2.1, view_eq]
    by_cases hx : x = s.fs.fsCurrentsector
    · rw [if_pos (hx ▸ List.mem_cons_self), if_pos hx]
    · rw [if_neg hx]
      by_cases hmem : x ∈ sectors s.fs
      · rw [if_pos hmem, if_pos ⟨hd, hmem⟩]
      · rw [if_neg hmem, if_neg fun h => hmem h.2]

theorem Reloaded.flush (hs : Sound s) : Reloaded s (fatFscacheflush none s).1 := by
  obtain ⟨c, b, hc, hfs, hclean, hcached⟩ := flush_at (f := none) hs.cached hs.current
  have hb := hclean (flush_none_ok s)
  have hsame : SameVolume s (fatFscacheflush none s).1 := by
    constructor <;> rw [hfs] <;> rfl
  refine ⟨⟨s.fs.fsBuffer, c, b, hfs⟩, hsame.sound hs ?_ ?_, fun x => ?_⟩
  · intro _
    rw [hfs]
    exact hcached hb
  · rw [hfs]
    exact hc
  · have hclean' : (fatFscacheflush none s).1.fs.fsDirty = false := by
      rw [hfs]
      exact hb
    rw [view_clean hclean']
    by_cases hx : x = (fatFscacheflush none s).1.fs.fsCurrentsector
    · rw [if_pos hx, ← flush_dev hs, hx, hfs]
      exact hcached hb
    · rw [if_neg hx, flush_dev hs]

end

section

variable {D : Nat → Prop} {s s' : State} {x y c k : Nat} {p : Sector}

theorem not_mem_behind {fs : Mountpt} (hcur : fs.fsCurrentsector < fs.fsFatbase + fs.fsNfatsects)
    (hx : Behind fs x) : x ∉ sectors fs := by
  intro h
  unfold Behind at hx
  have hone : 1 * fs.fsNfatsects ≤ max 1 fs.fsFatnumfats * fs.fsNfatsects :=
    Nat.mul_le_mul_right _ (by omega)
  rcases List.mem_cons.mp h with rfl | h
  · omega
  · have hle := Sync.steps_le h
    have hturns : copies fs + 1 ≤ max 1 fs.fsFatnumfats := by
      unfold copies
      split <;> omega
    have hmul : (copies fs + 1) * fs.fsNfatsects ≤ max 1 fs.fsFatnumfats * fs.fsNfatsects :=
      Nat.mul_le_mul_right _ hturns
    rw [Nat.succ_mul] at hmul
    omega

/-- A sector of the FAT is in the buffer, and the sectors behind the FATs are on the device as
they were read before. -/
structure OnFat (s s' : State) : Prop where
  same : SameGeometry s s'
  current : s'.fs.fsCurrentsector < s'.fs.fsFatbase + s'.fs.fsNfatsects
  dev : ∀ x, Behind s.fs x → s'.dev x = view s x

theorem view_onFat (hcur : s.fs.fsCurrentsector < s.fs.fsFatbase + s.fs.fsNfatsects)
    (hx : Behind s.fs x) : view s x = s.dev x := by
  have hno := not_mem_behind hcur hx
  have hne : x ≠ s.fs.fsCurrentsector := fun h => hno (h ▸ List.mem_cons_self)
  rw [view_eq, if_neg hne, if_neg fun h => hno h.2]

theorem OnFat.view (h : OnFat s s') (hx : Behind s.fs x) : Fat.view s' x = Fat.view s x :=
  (view_onFat h.current (h.same.behind.mpr hx)).trans (h.dev x hx)

theorem OnFat.load (hs : Sound s) (hy : y < s.fs.fsFatbase + s.fs.fsNfatsects) :
    OnFat s (load y s) := by
  obtain ⟨p, b, hfs⟩ := load_fs y s
  have hcur : (Fat.load y s).fs.fsCurrentsector <
      (Fat.load y s).fs.fsFatbase + (Fat.load y s).fs.fsNfatsects := by
    rw [hfs]
    exact hy
  have hsame : SameGeometry s (Fat.load y s) :=
    ⟨p, y, b, s.fs.fsFsifreecount, s.fs.fsFsinextfree, s.fs.fsFsidirty, hfs⟩
  refine ⟨hsame, hcur, fun x hx => ?_⟩
  rw [← view_onFat hcur (hsame.behind.mpr hx), view_load hs]

theorem OnFat.setDirty (h : OnFat s s') : OnFat s (setDirty s') where
  same := h.same.trans ⟨s'.fs.fsBuffer, s'.fs.fsCurrentsector, true, s'.fs.fsFsifreecount,
    s'.fs.fsFsinextfree, s'.fs.fsFsidirty, rfl⟩
  current := h.current
  dev := h.dev

theorem OnFat.setBuffer (h : OnFat s s') (p : Sector) : OnFat s (setBuffer p s') where
  same := h.same.trans ⟨p, s'.fs.fsCurrentsector, s'.fs.fsDirty, s'.fs.fsFsifreecount,
    s'.fs.fsFsinextfree, s'.fs.fsFsidirty, rfl⟩
  current := h.current
  dev := h.dev

theorem OnFat.poke (hs : Sound s) (hk : k < fatSize s) (f : Nat → Nat) : OnFat s (poke k f s) :=
  ((OnFat.load hs (inFat hs hk).2).setBuffer _).setDirty

theorem OnFat.trans {s'' : State} (h : OnFat s s') (h' : OnFat s' s'') : OnFat s s'' where
  same := h.same.trans h'.same
  current := h'.current
  dev x hx := (h'.dev x (h.same.behind.mpr hx)).trans (h.view hx)

theorem putclusterAt_onFat (hs : Sound s) (hk : k < fatSize s) (put : Sector → Nat → Sector) :
    OnFat s (setDirty (putclusterAt .ok k put s)) := by
  unfold putclusterAt
  rw [fatsectorOf_eq hs hk, cacheread_ok hs]
  dsimp only
  rw [if_neg (by decide)]
  exact ((OnFat.load hs (inFat hs hk).2).setBuffer _).setDirty

theorem putcluster_onFat (hs : Sound s) (hv : Valid s c) (beyond v : Nat) :
    OnFat s (fatPutcluster .ok .ok beyond c v s).1 := by
  have hc := valid_lt hs hv
  obtain ⟨h12, h16, h32⟩ := valid_offset hs hv
  unfold fatPutcluster
  rw [if_pos (.inr hv)]
  cases htype : s.fs.fsType with
  | none => exact absurd htype hs.type
  | fat12 =>
    have hk := h12 htype
    have hfirst := poke_poked hs (show Packed.start c < fatSize s by omega) (Packed.low c v)
    have hsize : fatSize (poke (Packed.start c) (Packed.low c v) s) = fatSize s := by
      unfold fatSize
      rw [hfirst.same.nfatsects, hfirst.same.size]
    show OnFat s (setDirty (putcluster12 .ok .ok c v s))
    rw [putcluster12_eq hs hc hk]
    exact (OnFat.poke hs (by omega) _).trans (.poke hfirst.sound (hsize ▸ hk) _)
  | fat16 =>
    have hk := h16 htype
    dsimp only
    rw [wrap32_of_lt (by omega)]
    exact putclusterAt_onFat hs (by omega) _
  | fat32 =>
    have hk := h32 htype
    dsimp only
    rw [wrap32_of_lt (by omega)]
    exact putclusterAt_onFat hs (by omega) _

theorem putcluster_frames (hs : Sound s) (hv : Valid s c) (beyond v : Nat)
    (hD : ∀ x, D x → Behind s.fs x) : Frames D s (fatPutcluster .ok .ok beyond c v s).1 where
  same := (putcluster_onFat hs hv beyond v).same
  sound := (putcluster_ok hs hv beyond v).2.sound
  view _ hx := (putcluster_onFat hs hv beyond v).view (hD _ hx)

theorem removechain_frames (beyond : Nat → Nat) {fuel : Nat} {l : List Nat} (hs : Sound s)
    (hl : ChainFrom s c l) (hfuel : l.length < fuel) (hD : ∀ x, D x → Behind s.fs x) :
    ∃ s', fatRemovechain beyond fuel c s = some (s', true) ∧ Frames D s s' := by
  induction l generalizing s c fuel with
  | nil =>
    obtain ⟨fuel, rfl⟩ : ∃ k, fuel = k + 1 := ⟨fuel - 1, by omega⟩
    cases hl with
    | done hc => exact ⟨s, removechain_done hc fuel, .refl hs⟩
  | cons d l ih =>
    rw [List.length_cons] at hfuel
    obtain ⟨fuel, rfl⟩ : ∃ k, fuel = k + 1 := ⟨fuel - 1, by omega⟩
    cases hl with
    | next hv hl =>
      have hnot := (ChainFrom.next hv hl).not_mem
      have hget := Reloaded.getcluster (c := d) hs
      obtain ⟨hok, W⟩ := putcluster_ok hget.sound ((hget.valid d).mpr hv) (beyond fuel) 0
      have F := putcluster_frames (D := D) hget.sound ((hget.valid d).mpr hv) (beyond fuel) 0
        fun x hx => hget.frames (D := D) |>.same.behind.mpr (hD x hx)
      have C := countFree_counted 1
        (fatPutcluster .ok .ok (beyond fuel) d 0 (fatGetcluster .ok .ok d s).1).1
      have F' := (hget.frames.trans F).trans (countFree_frames F.sound 1)
      have hrest : ChainFrom (countFree 1
          (fatPutcluster .ok .ok (beyond fuel) d 0 (fatGetcluster .ok .ok d s).1).1)
            (entry s d) l := by
        refine hl.of_same (fun e => F'.same.valid) fun e he hve => ?_
        rw [C.entry, W.entry e ((hget.valid e).mpr hve),
          if_neg fun (h : e = d) => hnot (h ▸ he), hget.entry]
      have hlen : l.length < fuel := by omega
      obtain ⟨s', hrun, F''⟩ := ih F'.sound hrest hlen fun x hx =>
        F'.same.behind.mpr (hD x hx)
      refine ⟨s', ?_, F'.trans F''⟩
      rw [fatRemovechain, if_pos (show 2 ≤ d ∧ d < s.fs.fsNclusters from hv)]
      dsimp only
      rw [(getcluster_ok hs hv).1]
      dsimp only
      rw [hok, if_neg (by decide)]
      exact hrun

theorem freeLoop_reloaded {start fuel m : Nat} {r : Search} (hs : Sound s)
    (h : freeLoop start fuel m s = some (s', r)) : Reloaded s s' := by
  induction fuel generalizing s m with
  | zero => cases h
  | succ fuel ih =>
    rw [freeLoop] at h
    dsimp only at h
    generalize (if s.fs.fsNclusters ≤ wrap32 (m + 1) then 2 else wrap32 (m + 1)) = m' at h
    split at h
    · cases h
      exact .refl hs
    · have hget := Reloaded.getcluster (c := m') hs
      split at h
      · cases h
        exact hget
      · cases h
        exact hget
      · split at h
        · cases h
          exact hget
        · exact hget.trans (ih hget.sound h)

theorem createchain_spec (hs : Sound s) {fuel : Nat} (hfuel : s.fs.fsNclusters + 1 < fuel)
    (beyond beyond' : Nat) (hD : ∀ x, D x → Behind s.fs x) :
    ∃ s' r, fatExtendchain beyond beyond' fuel 0 s = some (s', r) ∧ Frames D s s' ∧
      ((r = some 0 ∧ ∀ d, Valid s d → entry s d ≠ 0) ∨
        ∃ x, r = some x ∧ Valid s x ∧ entry s x = 0) := by
  have hstart : (if s.fs.fsFsinextfree = 0 ∨ s.fs.fsNclusters ≤ s.fs.fsFsinextfree then 1
      else s.fs.fsFsinextfree) = 1 ∨ Valid s (if s.fs.fsFsinextfree = 0 ∨
        s.fs.fsNclusters ≤ s.fs.fsFsinextfree then 1 else s.fs.fsFsinextfree) := by
    unfold Valid
    split <;> omega
  obtain ⟨s1, r, hloop, hkept, hfinds⟩ := search_spec hs hstart hfuel
  have hre := freeLoop_reloaded hs hloop
  unfold fatExtendchain findAndLink
  rw [if_pos rfl]
  dsimp only
  rw [hloop]
  cases r with
  | full => exact ⟨s1, some 0, rfl, hre.frames, .inl ⟨rfl, hfinds⟩⟩
  | error => exact hfinds.elim
  | free x =>
    have hx := (hre.valid x).mpr hfinds.1
    have hok := (putcluster_ok hre.sound hx beyond 0x0fffffff).1
    have F := putcluster_frames (D := D) hre.sound hx beyond 0x0fffffff fun x hx =>
      hre.frames (D := D) |>.same.behind.mpr (hD x hx)
    have F1 := setNextfree_frames (D := D) F.sound x
    have F2 := countFree_frames (D := D) F1.sound (-1)
    dsimp only
    unfold linkCluster
    dsimp only
    rw [hok, if_neg (by decide), if_neg (by decide)]
    exact ⟨_, _, rfl, hre.frames.trans (F.trans (F1.trans F2)), .inr ⟨x, rfl, hfinds⟩⟩

end

section

variable {D : Nat → Prop} {s : State}

theorem updatefsinfo_frames (hs : Sound s) (beyond : Nat)
    (hfsinfo : s.fs.fsType = .fat32 → s.fs.fsFsinfo < s.fs.fsFatbase)
    (hD : ∀ x, D x → Behind s.fs x) :
    (fatUpdatefsinfo beyond none none s).2 = true ∧
      Frames D s (fatUpdatefsinfo beyond none none s).1 := by
  have hflush := Reloaded.flush hs
  unfold fatUpdatefsinfo
  dsimp only
  split
  · rename_i hinfo
    obtain ⟨c, hfs⟩ := flush_fs s
    have hfat : (setFsinfo beyond (fatFscacheflush none s).1).fs.fsFsinfo <
        (setFsinfo beyond (fatFscacheflush none s).1).fs.fsFatbase := by
      have h32 := hinfo.2.1
      unfold setFsinfo
      rw [hfs] at h32 ⊢
      exact hfsinfo h32
    have hcur : (setFsinfo beyond (fatFscacheflush none s).1).fs.fsCurrentsector <
        (setFsinfo beyond (fatFscacheflush none s).1).fs.fsFatbase +
          (setFsinfo beyond (fatFscacheflush none s).1).fs.fsNfatsects :=
      Nat.lt_of_lt_of_le hfat (Nat.le_add_right _ _)
    have hsame : SameVolume (fatFscacheflush none s).1
        (setFsinfo beyond (fatFscacheflush none s).1) := ⟨rfl, rfl, rfl, rfl, rfl, rfl, rfl, rfl⟩
    have hgeometry : SameGeometry s (setFsinfo beyond (fatFscacheflush none s).1) :=
      (hflush.frames (D := D)).same.trans ⟨_, _, _, _, _, _, rfl⟩
    have hsound : Sound (setFsinfo beyond (fatFscacheflush none s).1) := by
      refine hsame.sound hflush.sound (fun h => by cases h) (Nat.lt_trans hfat ?_)
      exact Nat.lt_of_le_of_lt (Nat.le_add_right _ _) hflush.sound.fats
    have hwrite := Reloaded.flush hsound
    have hview : ∀ x, D x → view (fatFscacheflush none
        (setFsinfo beyond (fatFscacheflush none s).1)).1 x = view s x := by
      intro x hx
      rw [hwrite.view, view_onFat hcur (hgeometry.behind.mpr (hD x hx)), ← flush_dev hs]
      rfl
    have F : Frames D s (fatFscacheflush none (setFsinfo beyond (fatFscacheflush none s).1)).1 :=
      ⟨hgeometry.trans (hwrite.frames (D := D)).same, hwrite.sound, hview⟩
    exact ⟨flush_none_ok _, F.trans (counted_frames F.sound rfl ⟨_, _, _, rfl⟩)⟩
  · exact ⟨flush_none_ok s, hflush.frames⟩

end

end NuttxAvr32.Fat
