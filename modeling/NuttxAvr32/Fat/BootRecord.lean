import NuttxAvr32.Fat.Entries
import NuttxAvr32.Fat.File

/-! # Boot records that are refused

`fat_checkbootrecord` on any sector and any geometry: where it divides by zero, and what
the layout is worth that it derives.
-/

namespace NuttxAvr32.Fat.BootRecord

/-- A division by zero stops the processor. -/
def quotient (a b : Nat) : Option Nat := if b = 0 then none else some (a / b)

def rootdirsectors (p : Sector) (hwsectorsize : Nat) : Option Nat :=
  if mbrGetrootentcnt p ≠ 0 then
    (quotient (32 * mbrGetrootentcnt p + hwsectorsize - 1) hwsectorsize).map (· % 2 ^ 16)
  else some 0

def ndatasectors (p : Sector) (rootdirsectors : Nat) : Nat :=
  wrapInt ((bootFattotsec p : Int) - mbrGetresvdseccount p - bootNtotalfatsects p - rootdirsectors)

/-- `fat_checkbootrecord` with its divisions; `none` is one by zero. -/
def checkbootrecord (fs : Mountpt) : Option (Mountpt × Bool) :=
  let p := fs.fsBuffer
  if mbrGetsignature p ≠ bootSignature16 ∨ mbrGetbytespersec p ≠ fs.fsHwsectorsize then
    some (fs, false)
  else
    (rootdirsectors p fs.fsHwsectorsize).bind fun rootdirsectors =>
      let fs :=
        { fs with
          fsRootentcnt := mbrGetrootentcnt p
          fsNfatsects := bootNfatsects p }
      if bootNfatsects p = 0 ∨ fs.fsHwnsectors ≤ bootNfatsects p then some (fs, false)
      else
        let fs := { fs with fsFattotsec := bootFattotsec p }
        if bootFattotsec p = 0 ∨ fs.fsHwnsectors < bootFattotsec p then some (fs, false)
        else
          let fs := { fs with fsFatresvdseccount := mbrGetresvdseccount p }
          if fs.fsHwnsectors < mbrGetresvdseccount p then some (fs, false)
          else
            let fs := { fs with fsFatnumfats := mbrGetnumfats p }
            if fs.fsHwnsectors < ndatasectors p rootdirsectors then some (fs, false)
            else
              (quotient (ndatasectors p rootdirsectors) (mbrGetsecperclus p)).bind fun nclusters =>
                let fs :=
                  { fs with
                    fsFatsecperclus := mbrGetsecperclus p
                    fsNclusters := nclusters }
                match fatType fs (bootNotfat32 p) with
                | none => some (fs, false)
                | some (type, fsinfo) =>
                    (quotient fs.fsRootentcnt (fs.fsHwsectorsize / 32)).map fun _ =>
                      (setBases fs type fsinfo (bootNtotalfatsects p), true)

def rootSectors (fs : Mountpt) : Nat :=
  (32 * fs.fsRootentcnt + fs.fsHwsectorsize - 1) / fs.fsHwsectorsize

/-- The parts of a volume that begins at sector `base` follow each other inside of it. -/
structure Layout (base : Nat) (fs : Mountpt) : Prop where
  reserved : base + fs.fsFatresvdseccount ≤ fs.fsFatbase
  fats : fs.fsType ≠ .fat32 → fs.fsFatbase + fs.fsFatnumfats * fs.fsNfatsects ≤ fs.fsRootbase
  root : fs.fsType ≠ .fat32 → fs.fsRootbase + rootSectors fs ≤ fs.fsDatabase
  fats32 : fs.fsType = .fat32 → fs.fsFatbase + fs.fsFatnumfats * fs.fsNfatsects ≤ fs.fsDatabase
  data : fs.fsDatabase + fs.fsNclusters * fs.fsFatsecperclus ≤ base + fs.fsFattotsec

def HasSector (fs : Mountpt) (c : Nat) : Prop :=
  wrapInt ((c : Int) - 2) < wrapInt ((fs.fsNclusters : Int) - 2)

def sectorOf (fs : Mountpt) (c : Nat) : Nat := wrapInt (fatCluster2sector fs c)

structure Consistent (base : Nat) (fs : Mountpt) : Prop where
  layout : Layout base fs
  entries : ∀ c, 2 ≤ c → c < fs.fsNclusters →
    entryBytes fs.fsType (c + 1) ≤ fs.fsNfatsects * fs.fsHwsectorsize
  accepted : ∀ c, 2 ≤ c → c ≤ fs.fsNclusters + 1 → HasSector fs c ∧
    ∀ dev, (fatGetcluster .ok .ok c ⟨fs, dev, []⟩).2 ≠ none
  injective : ∀ c c', c < 2 ^ 32 → c' < 2 ^ 32 → HasSector fs c → HasSector fs c' →
    sectorOf fs c = sectorOf fs c' → c = c'
  inside : ∀ c, c < 2 ^ 32 → HasSector fs c →
    fs.fsDatabase ≤ sectorOf fs c ∧ sectorOf fs c + fs.fsFatsecperclus ≤ base + fs.fsFattotsec

/-- No division by zero, and a consistent layout where the record is accepted. -/
structure Right (fs : Mountpt) : Prop where
  divides : checkbootrecord fs ≠ none
  consistent : ∀ fs', checkbootrecord fs = some (fs', true) → Consistent fs.fsFatbase fs'

/-- The number of data sectors, once no division by zero was made for it. -/
abbrev dataSectors (fs : Mountpt) : Nat := bootNdatasectors fs.fsBuffer fs.fsHwsectorsize

/-- One of the checks refuses the record, and no division by zero comes first. -/
def Refused (fs : Mountpt) : Prop :=
  let p := fs.fsBuffer
  mbrGetsignature p ≠ bootSignature16 ∨ mbrGetbytespersec p ≠ fs.fsHwsectorsize ∨
    (mbrGetrootentcnt p = 0 ∨ fs.fsHwsectorsize ≠ 0) ∧
      (bootNfatsects p = 0 ∨ fs.fsHwnsectors ≤ bootNfatsects p ∨ bootFattotsec p = 0 ∨
        fs.fsHwnsectors < bootFattotsec p ∨ fs.fsHwnsectors < mbrGetresvdseccount p ∨
        fs.fsHwnsectors < dataSectors fs ∨
        mbrGetsecperclus p ≠ 0 ∧ fatMaxclust16 < dataSectors fs / mbrGetsecperclus p ∧
          bootNotfat32 p = true)

structure Passes (fs : Mountpt) : Prop where
  signature : mbrGetsignature fs.fsBuffer = bootSignature16
  bytespersec : mbrGetbytespersec fs.fsBuffer = fs.fsHwsectorsize
  rootdir : mbrGetrootentcnt fs.fsBuffer = 0 ∨ fs.fsHwsectorsize ≠ 0
  nfatsects : 0 < bootNfatsects fs.fsBuffer ∧ bootNfatsects fs.fsBuffer < fs.fsHwnsectors
  fattotsec : 0 < bootFattotsec fs.fsBuffer ∧ bootFattotsec fs.fsBuffer ≤ fs.fsHwnsectors
  resvd : mbrGetresvdseccount fs.fsBuffer ≤ fs.fsHwnsectors
  data : dataSectors fs ≤ fs.fsHwnsectors

section

variable {fs fs' : Mountpt}

theorem ndatasectors_eq (fs : Mountpt) :
    ndatasectors fs.fsBuffer (bootRootdirsectors fs.fsBuffer fs.fsHwsectorsize) = dataSectors fs :=
  rfl

theorem rootdirsectors_eq (h : mbrGetrootentcnt fs.fsBuffer = 0 ∨ fs.fsHwsectorsize ≠ 0) :
    rootdirsectors fs.fsBuffer fs.fsHwsectorsize =
      some (bootRootdirsectors fs.fsBuffer fs.fsHwsectorsize) := by
  unfold rootdirsectors bootRootdirsectors quotient
  by_cases h0 : mbrGetrootentcnt fs.fsBuffer = 0
  · rw [if_neg (not_not.mpr h0), if_neg (not_not.mpr h0)]
  · rw [if_pos h0, if_pos h0, if_neg (h.resolve_left h0)]
    rfl

def counted (fs : Mountpt) : Mountpt :=
  { fs with
    fsRootentcnt := mbrGetrootentcnt fs.fsBuffer
    fsNfatsects := bootNfatsects fs.fsBuffer
    fsFattotsec := bootFattotsec fs.fsBuffer
    fsFatresvdseccount := mbrGetresvdseccount fs.fsBuffer
    fsFatnumfats := mbrGetnumfats fs.fsBuffer
    fsFatsecperclus := mbrGetsecperclus fs.fsBuffer
    fsNclusters := dataSectors fs / mbrGetsecperclus fs.fsBuffer }

theorem Passes.check (h : Passes fs) :
    checkbootrecord fs =
      if mbrGetsecperclus fs.fsBuffer = 0 then none
      else
        match fatType (counted fs) (bootNotfat32 fs.fsBuffer) with
        | none => some (counted fs, false)
        | some (type, fsinfo) =>
            if fs.fsHwsectorsize / 32 = 0 then none
            else
              some (setBases (counted fs) type fsinfo (bootNtotalfatsects fs.fsBuffer), true) := by
  have hn := h.nfatsects
  have ht := h.fattotsec
  have hr := h.resvd
  have hd := h.data
  unfold checkbootrecord
  dsimp only
  rw [if_neg (by rw [h.signature, h.bytespersec]; simp), rootdirsectors_eq h.rootdir,
    Option.bind_some, ndatasectors_eq, if_neg (by omega), if_neg (by omega), if_neg (by omega),
    if_neg (by omega), quotient]
  by_cases hs : mbrGetsecperclus fs.fsBuffer = 0
  · rw [if_pos hs, if_pos hs]
    rfl
  · rw [if_neg hs, if_neg hs, Option.bind_some]
    show (match fatType (counted fs) (bootNotfat32 fs.fsBuffer) with
      | none => some (counted fs, false)
      | some (type, fsinfo) =>
          (quotient (counted fs).fsRootentcnt ((counted fs).fsHwsectorsize / 32)).map fun _ =>
            (setBases (counted fs) type fsinfo (bootNtotalfatsects fs.fsBuffer), true)) = _
    cases fatType (counted fs) (bootNotfat32 fs.fsBuffer) with
    | none => rfl
    | some r =>
      show (quotient (counted fs).fsRootentcnt (fs.fsHwsectorsize / 32)).map _ = _
      unfold quotient
      dsimp only
      split
      · rfl
      · rfl

theorem refused_check (h : Refused fs) : ∃ fs', checkbootrecord fs = some (fs', false) := by
  by_cases hsig : mbrGetsignature fs.fsBuffer ≠ bootSignature16 ∨
      mbrGetbytespersec fs.fsBuffer ≠ fs.fsHwsectorsize
  · exact ⟨fs, if_pos hsig⟩
  · have hok := not_or.mp hsig
    obtain ⟨hroot, hrest⟩ := (h.resolve_left hok.1).resolve_left hok.2
    by_cases hP : Passes fs
    · -- Only the type is left to refuse.
      have hn := hP.nfatsects
      have ht := hP.fattotsec
      have hr := hP.resvd
      have hd := hP.data
      obtain ⟨hspc, hmax, hnot⟩ : mbrGetsecperclus fs.fsBuffer ≠ 0 ∧
          fatMaxclust16 < dataSectors fs / mbrGetsecperclus fs.fsBuffer ∧
            bootNotfat32 fs.fsBuffer = true := by
        rcases hrest with h | h | h | h | h | h | h
        · omega
        · omega
        · omega
        · omega
        · omega
        · omega
        · exact h
      have htype : fatType (counted fs) (bootNotfat32 fs.fsBuffer) = none := by
        have h12 : fatMaxclust12 < fatMaxclust16 := by decide
        have hcount : (counted fs).fsNclusters =
          dataSectors fs / mbrGetsecperclus fs.fsBuffer := rfl
        rw [fatType, hcount, if_neg (by omega), if_neg (by omega), if_pos hnot]
      rw [hP.check, if_neg hspc, htype]
      exact ⟨_, rfl⟩
    · unfold checkbootrecord
      dsimp only
      rw [if_neg hsig, rootdirsectors_eq hroot, Option.bind_some, ndatasectors_eq]
      by_cases h1 : bootNfatsects fs.fsBuffer = 0 ∨ fs.fsHwnsectors ≤ bootNfatsects fs.fsBuffer
      · rw [if_pos h1]
        exact ⟨_, rfl⟩
      by_cases h2 : bootFattotsec fs.fsBuffer = 0 ∨ fs.fsHwnsectors < bootFattotsec fs.fsBuffer
      · rw [if_neg h1, if_pos h2]
        exact ⟨_, rfl⟩
      by_cases h3 : fs.fsHwnsectors < mbrGetresvdseccount fs.fsBuffer
      · rw [if_neg h1, if_neg h2, if_pos h3]
        exact ⟨_, rfl⟩
      by_cases h4 : fs.fsHwnsectors < dataSectors fs
      · rw [if_neg h1, if_neg h2, if_neg h3, if_pos h4]
        exact ⟨_, rfl⟩
      · exact absurd ⟨not_not.mp hok.1, not_not.mp hok.2, hroot, ⟨by omega, by omega⟩,
          ⟨by omega, by omega⟩, by omega, by omega⟩ hP

theorem not_refused (h : ¬ Refused fs) : checkbootrecord fs = none ∨ Passes fs := by
  unfold Refused at h
  dsimp only at h
  obtain ⟨hsig, h⟩ := not_or.mp h
  obtain ⟨hbps, h⟩ := not_or.mp h
  have hsig := not_not.mp hsig
  have hbps := not_not.mp hbps
  by_cases hroot : mbrGetrootentcnt fs.fsBuffer = 0 ∨ fs.fsHwsectorsize ≠ 0
  · right
    have hrest := fun hx => h ⟨hroot, hx⟩
    exact
      { signature := hsig
        bytespersec := hbps
        rootdir := hroot
        nfatsects := ⟨by by_contra hc; exact hrest (.inl (by omega)),
          by by_contra hc; exact hrest (.inr (.inl (by omega)))⟩
        fattotsec := ⟨by by_contra hc; exact hrest (.inr (.inr (.inl (by omega)))),
          by by_contra hc; exact hrest (.inr (.inr (.inr (.inl (by omega)))))⟩
        resvd := by
          by_contra hc
          exact hrest (.inr (.inr (.inr (.inr (.inl (by omega))))))
        data := by
          by_contra hc
          exact hrest (.inr (.inr (.inr (.inr (.inr (.inl (by omega))))))) }
  · left
    obtain ⟨hne, hzero⟩ := not_or.mp hroot
    unfold checkbootrecord
    dsimp only
    rw [if_neg (by rw [hsig, hbps]; simp), rootdirsectors, if_pos hne, quotient,
      if_pos (not_not.mp hzero)]
    rfl

theorem getuint16_lt (p : Sector) (i : Nat) : fatGetuint16 p i < 2 ^ 16 := by
  have h := (p i).toNat_lt
  have h' := (p (i + 1)).toNat_lt
  unfold fatGetuint16
  omega

theorem fattotsec_lt (p : Sector) : bootFattotsec p < 2 ^ 32 := by
  have h16 := getuint16_lt p 19
  have h := getuint16_lt p 32
  have h' := getuint16_lt p (32 + 2)
  unfold bootFattotsec mbrGettotsec16 mbrGettotsec32 fatGetuint32
  split
  · omega
  · omega

theorem sectorOf_two (h : fs.fsNclusters = 0) (hd : fs.fsDatabase < 2 ^ 32) :
    HasSector fs 2 ∧ sectorOf fs 2 = fs.fsDatabase := by
  have hno : wrapInt ((fs.fsNclusters : Int) - 2) = 2 ^ 32 - 2 := by
    rw [h]
    rfl
  have hzero : wrapInt (((2 : Nat) : Int) - 2) = 0 := rfl
  constructor
  · rw [HasSector, hno, hzero]
    decide
  · unfold sectorOf fatCluster2sector
    dsimp only
    rw [hno, hzero, if_neg (by decide)]
    have hbmod : offT (fs.fsDatabase : Int) % 2 ^ 32 = (fs.fsDatabase : Int) % 2 ^ 32 :=
      Int.bmod_emod
    rw [Nat.cast_zero, Int.zero_mul, Int.zero_add, wrapInt, hbmod]
    omega

theorem setBases_database_lt (fs : Mountpt) (type : FsType) (fsinfo n : Nat) :
    (setBases fs type fsinfo n).fsDatabase < 2 ^ 32 := wrap32_lt _

/-- Without a cluster the layout leaves less than one cluster behind the root directory, and
yet `fat_cluster2sector` gives one out. -/
theorem not_consistent_zero {type : FsType} {fsinfo : Nat} (h32 : fs.fsHwsectorsize / 32 ≠ 0)
    (hspc : mbrGetsecperclus fs.fsBuffer ≠ 0) (htype : type ≠ .fat32)
    (hn : dataSectors fs / mbrGetsecperclus fs.fsBuffer = 0) :
    ¬ Consistent fs.fsFatbase
      (setBases (counted fs) type fsinfo (bootNtotalfatsects fs.fsBuffer)) := by
  intro C
  have hres : fs.fsFatbase + mbrGetresvdseccount fs.fsBuffer ≤
      (setBases (counted fs) type fsinfo (bootNtotalfatsects fs.fsBuffer)).fsFatbase :=
    C.layout.reserved
  have hfats : (setBases (counted fs) type fsinfo (bootNtotalfatsects fs.fsBuffer)).fsFatbase +
      mbrGetnumfats fs.fsBuffer * bootNfatsects fs.fsBuffer ≤
        (setBases (counted fs) type fsinfo (bootNtotalfatsects fs.fsBuffer)).fsRootbase :=
    C.layout.fats htype
  have hroot : (setBases (counted fs) type fsinfo (bootNtotalfatsects fs.fsBuffer)).fsRootbase +
      (32 * mbrGetrootentcnt fs.fsBuffer + fs.fsHwsectorsize - 1) / fs.fsHwsectorsize ≤
        (setBases (counted fs) type fsinfo (bootNtotalfatsects fs.fsBuffer)).fsDatabase :=
    C.layout.root htype
  have hdata : (setBases (counted fs) type fsinfo (bootNtotalfatsects fs.fsBuffer)).fsDatabase +
      dataSectors fs / mbrGetsecperclus fs.fsBuffer * mbrGetsecperclus fs.fsBuffer ≤
        fs.fsFatbase + bootFattotsec fs.fsBuffer := C.layout.data
  obtain ⟨hhas, hsector⟩ := @sectorOf_two
    (setBases (counted fs) type fsinfo (bootNtotalfatsects fs.fsBuffer)) hn
    (setBases_database_lt _ _ _ _)
  have hin : sectorOf (setBases (counted fs) type fsinfo (bootNtotalfatsects fs.fsBuffer)) 2 +
      mbrGetsecperclus fs.fsBuffer ≤ fs.fsFatbase + bootFattotsec fs.fsBuffer :=
    (C.inside 2 (by decide) hhas).2
  rw [hsector] at hin
  rw [hn, Nat.zero_mul, Nat.add_zero] at hdata
  have htot := fattotsec_lt fs.fsBuffer
  have hent := getuint16_lt fs.fsBuffer 17
  -- The root directory has no more sectors than entries.
  have hR : (32 * mbrGetrootentcnt fs.fsBuffer + fs.fsHwsectorsize - 1) / fs.fsHwsectorsize ≤
      mbrGetrootentcnt fs.fsBuffer := by
    have hss : 32 ≤ fs.fsHwsectorsize := by omega
    have hmul := Nat.mul_le_mul_right (mbrGetrootentcnt fs.fsBuffer) hss
    have hsucc : (mbrGetrootentcnt fs.fsBuffer + 1) * fs.fsHwsectorsize =
        fs.fsHwsectorsize * mbrGetrootentcnt fs.fsBuffer + fs.fsHwsectorsize := by
      rw [Nat.add_mul, Nat.one_mul, Nat.mul_comm]
    refine Nat.lt_succ_iff.mp ((Nat.div_lt_iff_lt_mul (Nat.lt_of_lt_of_le (by decide) hss)).mpr ?_)
    rw [hsucc]
    omega
  have hR16 : bootRootdirsectors fs.fsBuffer fs.fsHwsectorsize =
      (32 * mbrGetrootentcnt fs.fsBuffer + fs.fsHwsectorsize - 1) / fs.fsHwsectorsize := by
    unfold bootRootdirsectors
    split
    · exact Nat.mod_eq_of_lt (Nat.lt_of_le_of_lt hR hent)
    · rename_i h0
      rw [not_not.mp h0] at hR ⊢
      exact (Nat.le_zero.mp hR).symm
  have hnd : dataSectors fs < mbrGetsecperclus fs.fsBuffer := by
    by_contra hc
    have := Nat.div_pos (Nat.le_of_not_lt hc) (Nat.pos_of_ne_zero hspc)
    omega
  have hntot : bootNtotalfatsects fs.fsBuffer =
      mbrGetnumfats fs.fsBuffer * bootNfatsects fs.fsBuffer := wrap32_of_lt (by omega)
  have hcount : (dataSectors fs : Int) = (bootFattotsec fs.fsBuffer : Int) -
      mbrGetresvdseccount fs.fsBuffer - bootNtotalfatsects fs.fsBuffer -
        bootRootdirsectors fs.fsBuffer fs.fsHwsectorsize := by
    unfold dataSectors bootNdatasectors wrapInt
    rw [hntot, hR16]
    omega
  rw [hntot, hR16] at hcount
  omega

theorem not_consistent {type : FsType} {fsinfo : Nat} (h32 : fs.fsHwsectorsize / 32 ≠ 0)
    (hspc : mbrGetsecperclus fs.fsBuffer ≠ 0)
    (htype : fatType (counted fs) (bootNotfat32 fs.fsBuffer) = some (type, fsinfo)) :
    ¬ Consistent fs.fsFatbase
      (setBases (counted fs) type fsinfo (bootNtotalfatsects fs.fsBuffer)) := by
  by_cases hn : dataSectors fs / mbrGetsecperclus fs.fsBuffer = 0
  · refine not_consistent_zero h32 hspc (fun hc => ?_) hn
    have hcount : (counted fs).fsNclusters =
      dataSectors fs / mbrGetsecperclus fs.fsBuffer := rfl
    rw [fatType, hcount, hn, if_pos (Nat.zero_le _)] at htype
    cases htype
    cases hc
  · intro C
    -- The last cluster but one is not below the number of clusters.
    have hlast := (C.accepted ((counted fs).fsNclusters + 1)
      (by have : (counted fs).fsNclusters =
            dataSectors fs / mbrGetsecperclus fs.fsBuffer := rfl
          omega) (Nat.le_refl _)).2 fun _ _ => 0
    refine hlast (congrArg Prod.snd (if_neg ?_))
    intro hlt
    have hlt' : (counted fs).fsNclusters + 1 < (counted fs).fsNclusters := hlt.2
    omega

end

/-- No record that is accepted has a consistent layout: what is right is to be refused. -/
theorem bootrecord_right_iff (fs : Mountpt) : Right fs ↔ Refused fs := by
  constructor
  · intro R
    by_contra h
    rcases not_refused h with hnone | hP
    · exact R.divides hnone
    · have hcheck := hP.check
      by_cases hspc : mbrGetsecperclus fs.fsBuffer = 0
      · rw [if_pos hspc] at hcheck
        exact R.divides hcheck
      rw [if_neg hspc] at hcheck
      cases htype : fatType (counted fs) (bootNotfat32 fs.fsBuffer) with
      | none =>
        unfold fatType at htype
        split at htype
        · cases htype
        split at htype
        · cases htype
        split at htype
        · rename_i hmax hnot
          exact h (.inr (.inr ⟨hP.rootdir, .inr (.inr (.inr (.inr (.inr (.inr
            ⟨hspc, Nat.lt_of_not_le hmax, hnot⟩)))))⟩))
        · cases htype
      | some r =>
        rw [htype] at hcheck
        dsimp only at hcheck
        by_cases h32 : fs.fsHwsectorsize / 32 = 0
        · rw [if_pos h32] at hcheck
          exact R.divides hcheck
        · rw [if_neg h32] at hcheck
          exact not_consistent h32 hspc htype (R.consistent _ hcheck)
  · intro h
    obtain ⟨fs', hcheck⟩ := refused_check h
    refine ⟨by rw [hcheck]; exact fun hc => (by cases hc), fun fs'' hc => ?_⟩
    rw [hcheck] at hc
    cases hc

/-- A device of 100 sectors of 512 bytes, with one reserved sector, two FATs of one sector and
16 entries in the root directory. -/
def ordinary (secperclus : UInt8) : Mountpt :=
  mountStart 512 100 fun i =>
    if i = 11 then 2
    else if i = 13 then secperclus
    else if i = 15 then 1
    else if i = 16 then 2
    else if i = 18 then 16
    else if i = 20 then 100
    else if i = 23 then 1
    else if i = 510 then 0xaa
    else if i = 511 then 0x55
    else 0

/-- Of its 96 clusters `fat_getcluster` refuses the last ones, and with no sectors in a cluster
the processor stops. -/
theorem bootrecord_accepted : (∃ fs, checkbootrecord (ordinary 1) = some (fs, true) ∧
    fs.fsNclusters = 96 ∧ (∀ dev, (fatGetcluster .ok .ok 97 ⟨fs, dev, []⟩).2 = none) ∧
      ¬ Right (ordinary 1)) ∧ checkbootrecord (ordinary 0) = none := by
  constructor
  · have h : (checkbootrecord (ordinary 1)).map (fun r => (r.2, r.1.fsNclusters)) =
        some (true, 96) := by
      decide +kernel
    obtain ⟨⟨fs, ok⟩, hcheck, heq⟩ := Option.map_eq_some_iff.mp h
    have hok : ok = true := congrArg Prod.fst heq
    have hn : fs.fsNclusters = 96 := congrArg Prod.snd heq
    subst hok
    have hrefuse : ∀ dev, (fatGetcluster .ok .ok 97 ⟨fs, dev, []⟩).2 = none := by
      intro dev
      refine congrArg Prod.snd (if_neg ?_)
      intro hlt
      have hlt' : 97 < fs.fsNclusters := hlt.2
      omega
    refine ⟨fs, hcheck, hn, hrefuse, fun R => ?_⟩
    exact ((R.consistent fs hcheck).accepted 97 (by omega) (by omega)).2 (fun _ _ => 0)
      (hrefuse _)
  · have h : (checkbootrecord (ordinary 0)).isNone = true := by
      decide +kernel
    exact Option.isNone_iff_eq_none.mp h

end NuttxAvr32.Fat.BootRecord
