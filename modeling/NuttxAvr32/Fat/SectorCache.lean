import NuttxAvr32.Fat.Volume
import NuttxAvr32.Lib.Runs

/-! # The sector cache

`fs_buffer` holds one sector of the device and is written back when it is dirty, a sector
of the FAT to all copies of it. A transfer may fail: a write then leaves anything in its
sector, a read anything in the buffer.
-/

namespace NuttxAvr32.Fat

open Runs
open Function (update update_self update_of_ne)

/-- `written` lists the sectors of the writes that succeeded. -/
structure State where
  fs : Mountpt
  dev : Nat → Sector
  written : List Nat

/-- The transfer that fails: how many go well before it, and what it leaves. -/
abbrev Fault := Option (Nat × Sector)

def fatHwwrite (f : Fault) (s : State) : State × Fault × Bool :=
  let c := s.fs.fsCurrentsector
  match f with
  | some (0, g) => ({ s with dev := update s.dev c g }, none, false)
  | some (n + 1, g) =>
    ({ s with
        dev := update s.dev c s.fs.fsBuffer
        written := s.written ++ [c] }, some (n, g), true)
  | none =>
    ({ s with
        dev := update s.dev c s.fs.fsBuffer
        written := s.written ++ [c] }, none, true)

def mirror : Nat → Fault → State → State × Bool
  | 0, _, s => (s, true)
  | i + 1, f, s =>
    let s :=
      { s with
        fs :=
          { s.fs with
            fsCurrentsector := wrap32 (s.fs.fsCurrentsector + s.fs.fsNfatsects) } }
    let w := fatHwwrite f s
    if w.2.2 then mirror i w.2.1 w.1 else (w.1, false)

/-- `fs->fs_currentsector < fs->fs_fatbase + fs->fs_nfatsects` -/
def inFatRegion (fs : Mountpt) : Bool :=
  fs.fsCurrentsector < wrap32 (fs.fsFatbase + fs.fsNfatsects)

def setClean (s : State) : State := { s with fs := { s.fs with fsDirty := false } }

/-- Returns whether it succeeded. -/
def fatFscacheflush (f : Fault) (s : State) : State × Bool :=
  if s.fs.fsDirty then
    let w := fatHwwrite f s
    if w.2.2 = false then (w.1, false)
    else
      let m := mirror (if inFatRegion s.fs then s.fs.fsFatnumfats - 1 else 0) w.2.1 w.1
      if m.2 then (setClean m.1, true) else (m.1, false)
  else (s, true)

/-- `g` is what a read that fails leaves in the buffer. -/
def fatFscacheread (f : Fault) (g : Option Sector) (sector : Nat) (s : State) : State × Bool :=
  if s.fs.fsCurrentsector ≠ sector then
    let r := fatFscacheflush f s
    if r.2 = false then (r.1, false)
    else
      match g with
      | some g => ({ r.1 with fs := { r.1.fs with fsBuffer := g } }, false)
      | none =>
        ({ r.1 with
            fs :=
              { r.1.fs with
                fsBuffer := r.1.dev sector
                fsCurrentsector := sector } }, true)
  else (s, true)

def setFsinfo (beyond : Nat) (s : State) : State :=
  { s with
    fs :=
      { s.fs with
        fsBuffer := fsinfoSector beyond s.fs.fsHwsectorsize s.fs.fsFsifreecount
          s.fs.fsFsinextfree s.fs.fsBuffer
        fsCurrentsector := s.fs.fsFsinfo
        fsDirty := true } }

/-- `f` is for the first flush, `g` for the second. -/
def fatUpdatefsinfo (beyond : Nat) (f g : Fault) (s : State) : State × Bool :=
  let r := fatFscacheflush f s
  if r.2 ∧ r.1.fs.fsType = .fat32 ∧ r.1.fs.fsFsidirty then
    let w := fatFscacheflush g (setFsinfo beyond r.1)
    ({ w.1 with fs := { w.1.fs with fsFsidirty := false } }, w.2)
  else r

def fatCheckfsinfo (s : State) : State × Bool :=
  let r := fatFscacheread none none s.fs.fsFsinfo s
  let p := r.1.fs.fsBuffer
  if fsiGetleadsig p = 0x41615252 ∧ fsiGetstructsig p = 0x61417272 ∧
      fsiGettrailsig p = bootSignature32 then
    ({ r.1 with
        fs :=
          { r.1.fs with
            fsFsinextfree := fsiGetfreecount p
            fsFsifreecount := fsiGetnxtfree p } }, true)
  else (r.1, false)

/-- The structure as `fat_mount` fills it before it reads sector zero. -/
def mountStart (sectorsize nsectors : Nat) (buffer : Sector) : Mountpt :=
  { Mountpt.zero with
    fsMounted := true
    fsHwsectorsize := sectorsize
    fsHwnsectors := nsectors
    fsBuffer := buffer }

/-- The end of `fat_mount` where an error is found. -/
def mountFailed (fs : Mountpt) : Mountpt := { fs with fsMounted := false }

/-- The boot record in sector zero or in the first partition. -/
def findBootrecord (sectorsize nsectors : Nat) (dev : Nat → Sector) : Mountpt × Bool :=
  let r := fatCheckbootrecord (mountStart sectorsize nsectors (dev 0))
  if r.2 then r
  else if part1Gettype (dev 0) = 0 then (r.1, false)
  else
    let base := part1Getstartsector (dev 0)
    fatCheckbootrecord
      { r.1 with
        fsFatbase := base
        fsBuffer := dev base }

/-- `fat_mount` on a device that makes no error: the state it leaves. -/
def fatMount (sectorsize nsectors : Nat) (dev : Nat → Sector) : State :=
  let r := findBootrecord sectorsize nsectors dev
  if r.2 = false then ⟨mountFailed r.1, dev, []⟩
  else if r.1.fsType = .fat32 then
    let i := fatCheckfsinfo ⟨r.1, dev, []⟩
    if i.2 then i.1 else { i.1 with fs := mountFailed i.1.fs }
  else ⟨r.1, dev, []⟩

inductive Op
  | read (f : Fault) (g : Option Sector) (sector : Nat)
  | modify (p : Sector)
  | flush (f : Fault)
  | setcounts (freecount nxtfree : Nat)
  | updatefsinfo (beyond : Nat) (f g : Fault)

def Op.exec : Op → State → Option State
  | .read f g sector, s => some (fatFscacheread f g sector s).1
  | .modify p, s =>
    some
      { s with
        fs :=
          { s.fs with
            fsBuffer := p
            fsDirty := true } }
  | .flush f, s => some (fatFscacheflush f s).1
  | .setcounts freecount nxtfree, s =>
    some
      { s with
        fs :=
          { s.fs with
            fsFsifreecount := freecount
            fsFsinextfree := nxtfree
            fsFsidirty := true } }
  | .updatefsinfo beyond f g, s => some (fatUpdatefsinfo beyond f g s).1

def Op.valid : Op → Prop
  | .read _ _ sector => sector < 2 ^ 32
  | _ => True

def cacheMachine : Machine State Op where
  valid _ i := i.valid
  exec s i := i.exec s

def Mounted (s : State) : Prop :=
  ∃ sectorsize nsectors dev, nsectors < 2 ^ 32 ∧ s = fatMount sectorsize nsectors dev ∧
    s.fs.fsMounted = true

def InFirstFat (fs : Mountpt) : Prop :=
  fs.fsFatbase ≤ fs.fsCurrentsector ∧ fs.fsCurrentsector < fs.fsFatbase + fs.fsNfatsects

instance decidableInFirstFat (fs : Mountpt) : Decidable (InFirstFat fs) :=
  inferInstanceAs (Decidable (_ ∧ _))

/-- The sectors that the buffer belongs to: that of the first FAT with those that
correspond to it in the others, or any other sector by itself. -/
def targets (fs : Mountpt) : List Nat :=
  fs.fsCurrentsector ::
    if InFirstFat fs then
      (List.range (fs.fsFatnumfats - 1)).map fun i =>
        fs.fsCurrentsector + (i + 1) * fs.fsNfatsects
    else []

/-- The dirty buffer of `s` is on the device, in its sectors and nowhere else. -/
structure Flushed (s s' : State) : Prop where
  clean : s'.fs.fsDirty = false
  writes : ∃ l, s'.written = s.written ++ l ∧ ∀ x, x ∈ l ↔ x ∈ targets s.fs
  dev : ∀ x, s'.dev x = if x ∈ targets s.fs then s.fs.fsBuffer else s.dev x

structure FlushCorrect (s : State) : Prop where
  flush : (fatFscacheflush none s).2 = true ∧ Flushed s (fatFscacheflush none s).1
  retry : ∀ f, (fatFscacheflush f s).2 = false →
    (fatFscacheflush none (fatFscacheflush f s).1).2 = true ∧
      Flushed s (fatFscacheflush none (fatFscacheflush f s).1).1

structure CacheCorrect (s : State) : Prop where
  cached : s.fs.fsDirty = false → s.fs.fsBuffer = s.dev s.fs.fsCurrentsector
  flush : s.fs.fsDirty = true → FlushCorrect s

/-- There is one FAT, or the sector is in the first of two FATs, or it is a sector behind
the first FAT; in all cases the test for the FAT region does not overflow. -/
def Mountpt.Mirrors (fs : Mountpt) : Prop :=
  fs.fsFatnumfats ≤ 1 ∨
    (InFirstFat fs ∧ inFatRegion fs = true ∧ fs.fsFatnumfats = 2 ∧
      fs.fsCurrentsector + fs.fsNfatsects < 2 ^ 32) ∨
    (¬ InFirstFat fs ∧ inFatRegion fs = false)

def steps (c n : Nat) : Nat → List Nat
  | 0 => []
  | i + 1 => wrap32 (c + n) :: steps (wrap32 (c + n)) n i

def copies (fs : Mountpt) : Nat := if inFatRegion fs then fs.fsFatnumfats - 1 else 0

def sectors (fs : Mountpt) : List Nat :=
  fs.fsCurrentsector :: steps fs.fsCurrentsector fs.fsNfatsects (copies fs)

def Mountpt.at (fs : Mountpt) (c : Nat) (dirty : Bool) : Mountpt :=
  { fs with
    fsCurrentsector := c
    fsDirty := dirty }

section

variable {s s' : State} {f : Fault} {i : Nat}

theorem mirror_none (i : Nat) (s : State) :
    (mirror i none s).2 = true ∧
      (mirror i none s).1.written = s.written ++ steps s.fs.fsCurrentsector s.fs.fsNfatsects i ∧
      (∀ x, (mirror i none s).1.dev x =
        if x ∈ steps s.fs.fsCurrentsector s.fs.fsNfatsects i then s.fs.fsBuffer else s.dev x) := by
  induction i generalizing s with
  | zero => exact ⟨rfl, (List.append_nil _).symm, fun x => rfl⟩
  | succ i ih =>
    let c := wrap32 (s.fs.fsCurrentsector + s.fs.fsNfatsects)
    let s₁ : State :=
      { fs := { s.fs with fsCurrentsector := c }
        dev := update s.dev c s.fs.fsBuffer
        written := s.written ++ [c] }
    obtain ⟨hok, hw, hdev⟩ := ih s₁
    refine ⟨hok, ?_, fun x => ?_⟩
    · show (mirror i none s₁).1.written = _
      rw [hw]
      exact List.append_assoc _ _ _
    · show (mirror i none s₁).1.dev x = _
      rw [hdev]
      show (if x ∈ steps c s.fs.fsNfatsects i then _ else update s.dev c _ x) =
        if x ∈ c :: steps c s.fs.fsNfatsects i then _ else _
      by_cases hx : x ∈ steps c s.fs.fsNfatsects i
      · rw [if_pos hx, if_pos (List.mem_cons_of_mem _ hx)]
      · by_cases hc : x = c
        · rw [if_neg hx, if_pos (List.mem_cons.mpr (.inl hc)), hc, update_self]
        · rw [if_neg hx, update_of_ne hc, if_neg]
          exact fun h => (List.mem_cons.mp h).elim hc hx

theorem mirror_at (h : s.dev s.fs.fsCurrentsector = s.fs.fsBuffer)
    (hc : s.fs.fsCurrentsector < 2 ^ 32) :
    ∃ c, c < 2 ^ 32 ∧ (mirror i f s).1.fs = s.fs.at c s.fs.fsDirty ∧
      ((mirror i f s).2 = true → (mirror i f s).1.dev c = s.fs.fsBuffer) := by
  induction i generalizing s f with
  | zero => exact ⟨_, hc, rfl, fun _ => h⟩
  | succ i ih =>
    let c := wrap32 (s.fs.fsCurrentsector + s.fs.fsNfatsects)
    have hnext : ∀ f, ∃ d, d < 2 ^ 32 ∧
        (mirror i f ⟨{ s.fs with fsCurrentsector := c }, update s.dev c s.fs.fsBuffer,
          s.written ++ [c]⟩).1.fs = s.fs.at d s.fs.fsDirty ∧
        ((mirror i f ⟨{ s.fs with fsCurrentsector := c }, update s.dev c s.fs.fsBuffer,
          s.written ++ [c]⟩).2 = true →
        (mirror i f ⟨{ s.fs with fsCurrentsector := c }, update s.dev c s.fs.fsBuffer,
          s.written ++ [c]⟩).1.dev d = s.fs.fsBuffer) :=
      fun f => ih (f := f) (s := ⟨{ s.fs with fsCurrentsector := c },
        update s.dev c s.fs.fsBuffer, s.written ++ [c]⟩)
        (update_self _ _ _) (wrap32_lt _)
    match f with
    | some (0, g) => exact ⟨c, wrap32_lt _, rfl, fun h => (by cases h)⟩
    | some (n + 1, g) => exact hnext (some (n, g))
    | none => exact hnext none

theorem flush_clean (h : s.fs.fsDirty = false) : fatFscacheflush f s = (s, true) := by
  unfold fatFscacheflush
  rw [h]
  rfl

theorem flush_none (h : s.fs.fsDirty = true) :
    (fatFscacheflush none s).2 = true ∧
      (fatFscacheflush none s).1.written = s.written ++ sectors s.fs ∧
      (∀ x, (fatFscacheflush none s).1.dev x =
        if x ∈ sectors s.fs then s.fs.fsBuffer else s.dev x) ∧
      (fatFscacheflush none s).1.fs.fsDirty = false := by
  let c := s.fs.fsCurrentsector
  let s₁ : State := ⟨s.fs, update s.dev c s.fs.fsBuffer, s.written ++ [c]⟩
  obtain ⟨hok, hw, hdev⟩ := mirror_none (copies s.fs) s₁
  have heq : fatFscacheflush none s = (setClean (mirror (copies s.fs) none s₁).1, true) := by
    unfold fatFscacheflush
    rw [if_pos h]
    show (if (mirror (copies s.fs) none s₁).2 = true then _ else _) = _
    rw [if_pos hok]
    rfl
  rw [heq]
  refine ⟨rfl, ?_, fun x => ?_, rfl⟩
  · show (mirror (copies s.fs) none s₁).1.written = _
    rw [hw]
    exact List.append_assoc _ _ _
  · show (mirror (copies s.fs) none s₁).1.dev x = _
    rw [hdev]
    show (if x ∈ steps c s.fs.fsNfatsects (copies s.fs) then _ else
      update s.dev c _ x) = if x ∈ c :: steps c s.fs.fsNfatsects (copies s.fs) then _ else _
    by_cases hx : x ∈ steps c s.fs.fsNfatsects (copies s.fs)
    · rw [if_pos hx, if_pos (List.mem_cons_of_mem _ hx)]
    · by_cases hc : x = c
      · rw [if_neg hx, if_pos (List.mem_cons.mpr (.inl hc)), hc, update_self]
      · rw [if_neg hx, update_of_ne hc, if_neg]
        exact fun h => (List.mem_cons.mp h).elim hc hx

/-- A flush changes the current sector and the dirty mark only; where it ends well the
buffer is on the device. -/
theorem flush_at (h : s.fs.fsDirty = false → s.fs.fsBuffer = s.dev s.fs.fsCurrentsector)
    (hc : s.fs.fsCurrentsector < 2 ^ 32) :
    ∃ c b, c < 2 ^ 32 ∧ (fatFscacheflush f s).1.fs = s.fs.at c b ∧
      ((fatFscacheflush f s).2 = true → b = false) ∧
      (b = false → s.fs.fsBuffer = (fatFscacheflush f s).1.dev c) := by
  cases hd : s.fs.fsDirty with
  | false =>
    rw [flush_clean hd]
    refine ⟨s.fs.fsCurrentsector, false, hc, ?_, fun _ => rfl, fun _ => h hd⟩
    rw [← hd]
    rfl
  | true =>
    let c := s.fs.fsCurrentsector
    let s₁ : State := ⟨s.fs, update s.dev c s.fs.fsBuffer, s.written ++ [c]⟩
    have hmirror : ∀ f', fatFscacheflush f s = (if (mirror (copies s.fs) f' s₁).2 then
        (setClean (mirror (copies s.fs) f' s₁).1, true)
        else ((mirror (copies s.fs) f' s₁).1, false)) →
        ∃ c b, c < 2 ^ 32 ∧ (fatFscacheflush f s).1.fs = s.fs.at c b ∧
          ((fatFscacheflush f s).2 = true → b = false) ∧
          (b = false → s.fs.fsBuffer = (fatFscacheflush f s).1.dev c) := by
      intro f' heq
      obtain ⟨c', hc', hfs, hdev⟩ := mirror_at (s := s₁) (i := copies s.fs) (f := f')
        (update_self _ _ _) hc
      rw [heq]
      split
      · rename_i hm
        refine ⟨c', false, hc', ?_, fun _ => rfl, fun _ => (hdev hm).symm⟩
        show ({ (mirror (copies s.fs) f' s₁).1.fs with fsDirty := false } : Mountpt) = _
        rw [hfs]
        rfl
      · refine ⟨c', true, hc', ?_, fun h => (by cases h), fun h => (by cases h)⟩
        rw [← hd]
        exact hfs
    have hunfold : fatFscacheflush f s =
        if (fatHwwrite f s).2.2 = false then ((fatHwwrite f s).1, false)
        else if (mirror (copies s.fs) (fatHwwrite f s).2.1 (fatHwwrite f s).1).2 then
          (setClean (mirror (copies s.fs) (fatHwwrite f s).2.1 (fatHwwrite f s).1).1, true)
        else ((mirror (copies s.fs) (fatHwwrite f s).2.1 (fatHwwrite f s).1).1, false) := by
      unfold fatFscacheflush
      rw [if_pos hd]
      rfl
    match f with
    | some (0, g) =>
      rw [hunfold]
      refine ⟨c, true, hc, ?_, fun h => (by cases h), fun h => (by cases h)⟩
      rw [← hd]
      rfl
    | some (n + 1, g) => exact hmirror (some (n, g)) hunfold
    | none => exact hmirror none hunfold

theorem Flushed.of_sectors (hd : s.fs.fsDirty = true) (hm : ∀ x, x ∈ sectors s.fs ↔ x ∈ targets s.fs) :
    Flushed s (fatFscacheflush none s).1 := by
  obtain ⟨-, hw, hdev, hclean⟩ := flush_none hd
  refine ⟨hclean, ⟨_, hw, hm⟩, fun x => ?_⟩
  rw [hdev]
  by_cases hx : x ∈ sectors s.fs
  · rw [if_pos hx, if_pos ((hm x).mp hx)]
  · rw [if_neg hx, if_neg (mt (hm x).mpr hx)]

theorem Flushed.sectors_iff (hd : s.fs.fsDirty = true) (F : Flushed s (fatFscacheflush none s).1)
    (x : Nat) : x ∈ sectors s.fs ↔ x ∈ targets s.fs := by
  obtain ⟨l, hl, hm⟩ := F.writes
  rw [(flush_none hd).2.1] at hl
  rw [List.append_cancel_left hl]
  exact hm x

/-- The structure has its FATs where a boot record may put them. -/
structure Placed (fs : Mountpt) : Prop where
  nfatsects : 0 < fs.fsNfatsects ∧ fs.fsNfatsects < 2 ^ 32
  fatbase : fs.fsFatbase < 2 ^ 32
  currentsector : fs.fsCurrentsector < 2 ^ 32
  fsinfo : fs.fsFsinfo < 2 ^ 32

theorem wrap32_add_ne {c n : Nat} (h0 : 0 < n) (hn : n < 2 ^ 32) :
    wrap32 (c + n) ≠ c := by
  unfold wrap32
  omega

theorem steps_lt {c n i x : Nat} (h : x ∈ steps c n i) : x < 2 ^ 32 := by
  induction i generalizing c with
  | zero => cases h
  | succ i ih =>
    rcases List.mem_cons.mp h with rfl | h
    · exact wrap32_lt _
    · exact ih h

theorem Mountpt.Mirrors.sectors_iff {fs : Mountpt} (M : fs.Mirrors) (x : Nat) :
    x ∈ sectors fs ↔ x ∈ targets fs := by
  unfold sectors targets
  rw [List.mem_cons, List.mem_cons]
  rcases M with h | ⟨hin, hreg, h2, hfit⟩ | ⟨hout, hreg⟩
  · have h0 : copies fs = 0 := by
      unfold copies
      split <;> omega
    have h1 : fs.fsFatnumfats - 1 = 0 := by omega
    rw [h0, h1]
    by_cases hf : InFirstFat fs
    · rw [if_pos hf]
      simp [steps]
    · rw [if_neg hf]
      simp [steps]
  · have h1 : copies fs = 1 := by
      unfold copies
      rw [if_pos hreg, h2]
    rw [h1, if_pos hin, h2]
    simp [steps, wrap32_of_lt hfit]
  · have h0 : copies fs = 0 := by
      unfold copies
      rw [hreg]
      rfl
    rw [h0, if_neg hout]
    simp [steps]

/-- The state after the first write, and after a second one that fails. -/
def firstDone (s : State) : State :=
  ⟨s.fs, update s.dev s.fs.fsCurrentsector s.fs.fsBuffer,
    s.written ++ [s.fs.fsCurrentsector]⟩

def secondFailed (s : State) (g : Sector) : State :=
  let c := wrap32 (s.fs.fsCurrentsector + s.fs.fsNfatsects)
  ⟨{ s.fs with fsCurrentsector := c }, update (firstDone s).dev c g, (firstDone s).written⟩

theorem flush_first {n : Nat} {g : Sector} (hd : s.fs.fsDirty = true) :
    fatFscacheflush (some (n + 1, g)) s =
      if (mirror (copies s.fs) (some (n, g)) (firstDone s)).2 then
        (setClean (mirror (copies s.fs) (some (n, g)) (firstDone s)).1, true)
      else ((mirror (copies s.fs) (some (n, g)) (firstDone s)).1, false) := by
  unfold fatFscacheflush
  rw [if_pos hd]
  rfl

theorem flush_second {g : Sector} (hd : s.fs.fsDirty = true) (hc : copies s.fs ≠ 0) :
    fatFscacheflush (some (1, g)) s = (secondFailed s g, false) := by
  rw [flush_first hd]
  obtain ⟨k, hk⟩ := Nat.exists_eq_succ_of_ne_zero hc
  rw [hk]
  rfl

theorem copies_behind {fs : Mountpt} (h : fs.fsFatbase + fs.fsNfatsects ≤ fs.fsCurrentsector) :
    copies fs = 0 := by
  unfold copies
  rw [if_neg]
  unfold inFatRegion
  rw [decide_eq_true_eq]
  have : wrap32 (fs.fsFatbase + fs.fsNfatsects) ≤ fs.fsFatbase + fs.fsNfatsects := Nat.mod_le _ _
  omega

theorem secondFailed_copies {g : Sector} (hin : InFirstFat s.fs)
    (hfit : s.fs.fsCurrentsector + s.fs.fsNfatsects < 2 ^ 32) :
    copies (secondFailed s g).fs = 0 := by
  apply copies_behind
  show s.fs.fsFatbase + s.fs.fsNfatsects ≤ wrap32 (s.fs.fsCurrentsector + s.fs.fsNfatsects)
  rw [wrap32_of_lt hfit]
  have := hin.1
  omega

theorem Mountpt.Mirrors.flushCorrect (hd : s.fs.fsDirty = true) (M : s.fs.Mirrors) :
    FlushCorrect s := by
  refine ⟨⟨(flush_none hd).1, .of_sectors hd M.sectors_iff⟩, fun f hf => ?_⟩
  match f with
  | none =>
    rw [(flush_none hd).1] at hf
    cases hf
  | some (0, g) =>
    let s₁ : State := { s with dev := update s.dev s.fs.fsCurrentsector g }
    have heq : fatFscacheflush (some (0, g)) s = (s₁, false) := by
      unfold fatFscacheflush
      rw [if_pos hd]
      rfl
    rw [heq]
    have hd₁ : s₁.fs.fsDirty = true := hd
    obtain ⟨hok, hw, hdev, hclean⟩ := flush_none hd₁
    refine ⟨hok, hclean, ⟨_, hw, M.sectors_iff⟩, fun x => ?_⟩
    rw [hdev]
    by_cases hx : x ∈ sectors s.fs
    · rw [if_pos hx, if_pos ((M.sectors_iff x).mp hx)]
    · rw [if_neg hx, if_neg (mt (M.sectors_iff x).mpr hx)]
      exact update_of_ne (fun h => hx (List.mem_cons.mpr (.inl h))) _ _
  | some (n + 1, g) =>
    rw [flush_first hd] at hf ⊢
    by_cases h0 : copies s.fs = 0
    · rw [h0] at hf
      cases hf
    · -- two FATs: the second write is the last one
      obtain ⟨hin, hreg, h2, hfit⟩ : InFirstFat s.fs ∧ inFatRegion s.fs = true ∧
          s.fs.fsFatnumfats = 2 ∧ s.fs.fsCurrentsector + s.fs.fsNfatsects < 2 ^ 32 := by
        unfold copies at h0
        rcases M with h | h | h
        · split at h0
          · omega
          · exact absurd rfl h0
        · exact h
        · rw [h.2] at h0
          exact absurd rfl h0
      have h1 : copies s.fs = 1 := by
        unfold copies
        rw [if_pos hreg, h2]
      rw [h1] at hf ⊢
      cases n with
      | succ n => cases hf
      | zero =>
        show (fatFscacheflush none (secondFailed s g)).2 = true ∧
          Flushed s (fatFscacheflush none (secondFailed s g)).1
        have hd₂ : (secondFailed s g).fs.fsDirty = true := hd
        obtain ⟨hok, hw, hdev, hclean⟩ := flush_none hd₂
        have hsec : sectors (secondFailed s g).fs =
            [s.fs.fsCurrentsector + s.fs.fsNfatsects] := by
          unfold sectors
          rw [secondFailed_copies hin hfit]
          show [wrap32 _] = _
          rw [wrap32_of_lt hfit]
        have hsec₀ : sectors s.fs =
            [s.fs.fsCurrentsector, s.fs.fsCurrentsector + s.fs.fsNfatsects] := by
          unfold sectors
          rw [h1]
          show [_, wrap32 _] = _
          rw [wrap32_of_lt hfit]
        have hmem := M.sectors_iff
        rw [hsec₀] at hmem
        rw [hsec] at hw hdev
        refine ⟨hok, hclean, ⟨_, hw.trans (List.append_assoc _ _ _), hmem⟩, fun x => ?_⟩
        rw [hdev]
        by_cases hx : x = s.fs.fsCurrentsector + s.fs.fsNfatsects
        · rw [if_pos (List.mem_singleton.mpr hx), if_pos]
          · rfl
          · exact (hmem x).mp (by simp [hx])
        · rw [if_neg (fun h => hx (List.mem_singleton.mp h))]
          show update (firstDone s).dev (wrap32 _) g x = _
          rw [wrap32_of_lt hfit, update_of_ne hx]
          show update s.dev _ _ x = _
          by_cases hc : x = s.fs.fsCurrentsector
          · rw [if_pos ((hmem x).mp (by simp [hc])), hc, update_self]
          · rw [update_of_ne hc, if_neg]
            intro h
            have := (hmem x).mpr h
            simp only [List.mem_cons, List.not_mem_nil, or_false] at this
            exact this.elim hc hx

theorem mem_targets {fs : Mountpt} (hin : InFirstFat fs) {i : Nat} (hi : i < fs.fsFatnumfats - 1) :
    fs.fsCurrentsector + (i + 1) * fs.fsNfatsects ∈ targets fs := by
  unfold targets
  rw [if_pos hin]
  exact List.mem_cons_of_mem _ (List.mem_map.mpr ⟨i, List.mem_range.mpr hi, rfl⟩)

theorem sectors_lt {fs : Mountpt} (P : Placed fs) {x : Nat} (h : x ∈ sectors fs) : x < 2 ^ 32 := by
  rcases List.mem_cons.mp h with rfl | h
  · exact P.currentsector
  · exact steps_lt h

theorem FlushCorrect.mirrors (P : Placed s.fs) (hd : s.fs.fsDirty = true) (F : FlushCorrect s) :
    s.fs.Mirrors := by
  have hsec := F.flush.2.sectors_iff hd
  have hn := P.nfatsects
  by_cases hnum : s.fs.fsFatnumfats ≤ 1
  · exact .inl hnum
  · by_cases hin : InFirstFat s.fs
    · have hnext : s.fs.fsCurrentsector + s.fs.fsNfatsects ∈ targets s.fs := by
        have h := mem_targets hin (i := 0) (by omega)
        rwa [Nat.zero_add, Nat.one_mul] at h
      have hfit := sectors_lt P ((hsec _).mpr hnext)
      cases hreg : inFatRegion s.fs with
      | false =>
        have hmem := (hsec _).mpr hnext
        unfold sectors copies at hmem
        rw [hreg] at hmem
        have := List.mem_singleton.mp hmem
        omega
      | true =>
        refine .inr (.inl ⟨hin, hreg, ?_, hfit⟩)
        by_contra h2
        -- three FATs: after a failure in the second the retry forgets the third
        have hcop : copies s.fs ≠ 0 := by
          unfold copies
          rw [if_pos hreg]
          omega
        have hsecond := flush_second (g := fun _ => 0) hd hcop
        have hretry := (F.retry (some (1, fun _ => 0)) (by rw [hsecond])).2
        rw [hsecond] at hretry
        obtain ⟨l, hl, hm⟩ := hretry.writes
        have hd₂ : (secondFailed s fun _ => 0).fs.fsDirty = true := hd
        rw [(flush_none hd₂).2.1] at hl
        have hl' : s.written ++ ([s.fs.fsCurrentsector] ++
            sectors (secondFailed s fun _ => 0).fs) = s.written ++ l := by
          rw [← List.append_assoc]
          exact hl
        have hmem := (hm _).mpr (mem_targets hin (i := 1) (by omega))
        rw [← List.append_cancel_left hl'] at hmem
        unfold sectors at hmem
        rw [secondFailed_copies hin hfit] at hmem
        simp only [steps, List.cons_append, List.nil_append, List.mem_cons, List.not_mem_nil,
          or_false] at hmem
        have hcur : (secondFailed s fun _ => 0).fs.fsCurrentsector =
            s.fs.fsCurrentsector + s.fs.fsNfatsects := wrap32_of_lt hfit
        rw [hcur] at hmem
        omega
    · cases hreg : inFatRegion s.fs with
      | false => exact .inr (.inr ⟨hin, hreg⟩)
      | true =>
        exfalso
        have hmem : wrap32 (s.fs.fsCurrentsector + s.fs.fsNfatsects) ∈ sectors s.fs := by
          unfold sectors copies
          rw [if_pos hreg]
          obtain ⟨k, hk⟩ := Nat.exists_eq_succ_of_ne_zero
            (show s.fs.fsFatnumfats - 1 ≠ 0 by omega)
          rw [hk]
          exact List.mem_cons_of_mem _ (List.mem_cons_self ..)
        have ht := (hsec _).mp hmem
        unfold targets at ht
        rw [if_neg hin] at ht
        exact wrap32_add_ne hn.1 hn.2 (List.mem_singleton.mp ht)

end

structure Inv (s : State) : Prop where
  placed : Placed s.fs
  cached : s.fs.fsDirty = false → s.fs.fsBuffer = s.dev s.fs.fsCurrentsector

def Op.spares (s : State) : Op → Prop
  | .read f (some g) sector =>
    s.fs.fsCurrentsector ≠ sector → (fatFscacheflush f s).2 = true → g = s.fs.fsBuffer
  | _ => True

/-- The boot record is in sector zero, or `fat_mount` has read the FSINFO sector after it. -/
def Whole (s : State) : Prop :=
  ∃ sectorsize nsectors dev, nsectors < 2 ^ 32 ∧ s = fatMount sectorsize nsectors dev ∧
    s.fs.fsMounted = true ∧
      ((fatCheckbootrecord (mountStart sectorsize nsectors (dev 0))).2 = true ∨
        s.fs.fsType = .fat32)

section

variable {s s' : State} {f g : Fault}

theorem Placed.at {fs : Mountpt} (P : Placed fs) {c : Nat} (hc : c < 2 ^ 32) (b : Bool) :
    Placed (fs.at c b) :=
  ⟨P.nfatsects, P.fatbase, hc, P.fsinfo⟩

theorem Inv.flush (I : Inv s) (f : Fault) : Inv (fatFscacheflush f s).1 ∧
    (fatFscacheflush f s).1.fs.fsBuffer = s.fs.fsBuffer ∧
    ((fatFscacheflush f s).2 = true → (fatFscacheflush f s).1.fs.fsDirty = false) := by
  obtain ⟨c, b, hc, hfs, hok, hdev⟩ := flush_at (f := f) I.cached I.placed.currentsector
  refine ⟨⟨?_, fun h => ?_⟩, ?_, fun h => ?_⟩
  · rw [hfs]
    exact I.placed.at hc b
  · rw [hfs] at h ⊢
    exact hdev h
  · rw [hfs]
    rfl
  · rw [hfs]
    exact hok h

theorem Inv.read (I : Inv s) {g : Option Sector} {sector : Nat} (hs : sector < 2 ^ 32)
    (hg : (Op.read f g sector).spares s) : Inv (fatFscacheread f g sector s).1 := by
  obtain ⟨I', hbuf, hclean⟩ := I.flush f
  unfold fatFscacheread
  split
  · rename_i hne
    dsimp only
    split
    · exact I'
    · rename_i hok
      have hok' : (fatFscacheflush f s).2 = true := by simpa using hok
      cases g with
      | none => exact ⟨⟨I'.placed.nfatsects, I'.placed.fatbase, hs, I'.placed.fsinfo⟩, fun _ => rfl⟩
      | some g =>
        have hgb : g = s.fs.fsBuffer := hg hne hok'
        refine ⟨⟨I'.placed.nfatsects, I'.placed.fatbase, I'.placed.currentsector,
          I'.placed.fsinfo⟩, fun h => ?_⟩
        show g = (fatFscacheflush f s).1.dev (fatFscacheflush f s).1.fs.fsCurrentsector
        rw [hgb, ← hbuf]
        exact I'.cached h
  · exact I

theorem Inv.updatefsinfo (I : Inv s) (beyond : Nat) (f g : Fault) :
    Inv (fatUpdatefsinfo beyond f g s).1 := by
  obtain ⟨I', -, -⟩ := I.flush f
  unfold fatUpdatefsinfo
  dsimp only
  split
  · have I₂ : Inv (setFsinfo beyond (fatFscacheflush f s).1) :=
      ⟨⟨I'.placed.nfatsects, I'.placed.fatbase, I'.placed.fsinfo, I'.placed.fsinfo⟩,
        fun h => by cases h⟩
    obtain ⟨I₃, -, -⟩ := I₂.flush g
    exact ⟨⟨I₃.placed.nfatsects, I₃.placed.fatbase, I₃.placed.currentsector, I₃.placed.fsinfo⟩,
      I₃.cached⟩
  · exact I'

theorem Inv.step {i : Op} (I : Inv s) (hv : i.valid) (hk : i.spares s)
    (he : i.exec s = some s') : Inv s' := by
  cases i with
  | read f g sector =>
    cases he
    exact I.read hv hk
  | modify p =>
    cases he
    exact ⟨⟨I.placed.nfatsects, I.placed.fatbase, I.placed.currentsector, I.placed.fsinfo⟩,
      fun h => by cases h⟩
  | flush f =>
    cases he
    exact (I.flush f).1
  | setcounts freecount nxtfree =>
    cases he
    exact ⟨⟨I.placed.nfatsects, I.placed.fatbase, I.placed.currentsector, I.placed.fsinfo⟩,
      I.cached⟩
  | updatefsinfo beyond f g =>
    cases he
    exact I.updatefsinfo beyond f g

end

section

variable {sectorsize nsectors : Nat} {dev : Nat → Sector} {fs : Mountpt}

theorem findBootrecord_spec (hn : nsectors < 2 ^ 32)
    (h : findBootrecord sectorsize nsectors dev = (fs, true)) :
    Placed fs ∧ fs.fsCurrentsector = 0 ∧ fs.fsDirty = false ∧
      mbrGetsignature fs.fsBuffer = bootSignature16 ∧
      ((fatCheckbootrecord (mountStart sectorsize nsectors (dev 0))).2 = true →
        fs.fsBuffer = dev 0) := by
  have hplaced : ∀ {a b : Mountpt}, Booted a b → a.fsCurrentsector = 0 →
      a.fsHwnsectors = nsectors → Placed b := by
    intro a b B hc hh
    refine ⟨⟨B.nfatsects, ?_⟩, B.fatbase, ?_, B.fsinfo⟩
    · have := B.nsectors
      omega
    · rw [B.currentsector, hc]
      decide
  unfold findBootrecord at h
  dsimp only at h
  split at h
  · have B := fatCheckbootrecord_booted h
    refine ⟨hplaced B rfl rfl, B.currentsector, B.dirty, ?_, fun _ => B.buffer⟩
    rw [B.buffer]
    exact B.signature
  · rename_i hfirst
    obtain ⟨-, hc, hd, hh⟩ := fatCheckbootrecord_keeps (mountStart sectorsize nsectors (dev 0))
    split at h
    · cases h
    · have B := fatCheckbootrecord_booted h
      refine ⟨hplaced B hc hh, B.currentsector.trans hc, B.dirty.trans hd, ?_,
        fun h => absurd h hfirst⟩
      rw [B.buffer]
      exact B.signature

theorem fsinfo_ne_boot {p : Sector} (h : mbrGetsignature p = bootSignature16) :
    fsiGettrailsig p ≠ bootSignature32 := by
  unfold mbrGetsignature bootSignature16 at h
  unfold fsiGettrailsig fatGetuint32 bootSignature32
  rw [h]
  omega

theorem read_clean (hd : fs.fsDirty = false) (sector : Nat) :
    fatFscacheread none none sector ⟨fs, dev, []⟩ =
      if fs.fsCurrentsector ≠ sector then
        (⟨{ fs with
            fsBuffer := dev sector
            fsCurrentsector := sector }, dev, []⟩, true)
      else (⟨fs, dev, []⟩, true) := by
  unfold fatFscacheread
  rw [flush_clean (s := ⟨fs, dev, []⟩) hd]
  rfl

/-- `fat_checkfsinfo` succeeds only if it has read another sector than the boot record. -/
theorem checkfsinfo_inv (P : Placed fs) (hd : fs.fsDirty = false)
    (hsig : mbrGetsignature fs.fsBuffer = bootSignature16)
    (h : (fatCheckfsinfo ⟨fs, dev, []⟩).2 = true) : Inv (fatCheckfsinfo ⟨fs, dev, []⟩).1 := by
  have hread : fatFscacheread none none fs.fsFsinfo ⟨fs, dev, []⟩ = _ := read_clean hd fs.fsFsinfo
  unfold fatCheckfsinfo at h ⊢
  by_cases hne : fs.fsCurrentsector ≠ fs.fsFsinfo
  · rw [if_pos hne] at hread
    simp only [hread] at h ⊢
    split
    · exact ⟨⟨P.nfatsects, P.fatbase, P.fsinfo, P.fsinfo⟩, fun _ => rfl⟩
    · exact ⟨⟨P.nfatsects, P.fatbase, P.fsinfo, P.fsinfo⟩, fun _ => rfl⟩
  · rw [if_neg hne] at hread
    simp only [hread] at h
    split at h
    · rename_i htrail
      exact absurd htrail.2.2 (fsinfo_ne_boot hsig)
    · cases h

theorem Whole.inv {s : State} (h : Whole s) : Inv s := by
  obtain ⟨sectorsize, nsectors, dev, hn, hs, hm, hw⟩ := h
  cases hr : findBootrecord sectorsize nsectors dev with
  | mk fs b =>
    unfold fatMount at hs
    simp only [hr] at hs
    cases b with
    | false =>
      rw [if_pos rfl] at hs
      rw [hs] at hm
      cases hm
    | true =>
      obtain ⟨P, hc, hd, hsig, hbuf⟩ := findBootrecord_spec hn hr
      rw [if_neg (by simp)] at hs
      by_cases ht : fs.fsType = .fat32
      · rw [if_pos ht] at hs
        cases hi : (fatCheckfsinfo ⟨fs, dev, []⟩).2 with
        | true =>
          rw [if_pos hi] at hs
          rw [hs]
          exact checkfsinfo_inv P hd hsig hi
        | false =>
          rw [if_neg (by rw [hi]; simp)] at hs
          rw [hs] at hm
          cases hm
      · rw [if_neg ht] at hs
        rw [hs] at hw ⊢
        refine ⟨P, fun _ => ?_⟩
        show fs.fsBuffer = dev fs.fsCurrentsector
        rw [hc]
        exact hbuf (hw.resolve_right ht)

end

/-- The buffer is the sector of the device when it is clean; a flush of a dirty buffer
writes the right sectors, also in a second try, if and only if the buffer belongs to no
sector in front of the FATs and there are at most two of them, or one FAT only. -/
theorem sector_cache_iff {s : State}
    (h : Reach cacheMachine Whole (fun s i => i.spares s) s) :
    CacheCorrect s ↔ (s.fs.fsDirty = true → s.fs.Mirrors) := by
  have I : Inv s := by
    apply Reach.invariant (I := Inv) _ _ h
    · exact fun s hs => hs.inv
    · exact fun s i s' I hv hk he => I.step hv hk he
  constructor
  · exact fun C hd => (C.flush hd).mirrors I.placed hd
  · exact fun M => ⟨I.cached, fun hd => (M hd).flushCorrect hd⟩

def fat32Device : Nat → Sector
  | 0 =>
    let p := copy (fun _ => 0) 11 [2, 0, 1, 0, 32, 2]
    let p := copy p 32 [0, 2, 0, 0, 0, 0, 4, 0]
    let p := copy p 44 [0, 0, 0, 2, 0, 1]
    copy p 510 [0xaa, 0x55]
  | 1 =>
    let p := copy (fun _ => 0) 0 [0x41, 0x61, 0x52, 0x52]
    let p := copy p 484 [0x61, 0x41, 0x72, 0x72]
    copy p 508 [0xaa, 0x55, 0, 0]
  | _ => fun _ => 0

def fat32Mounted : State := fatMount 512 131072 fat32Device

theorem fat32Mounted_mounted : fat32Mounted.fs.fsMounted = true := by decide +kernel

theorem fat32Mounted_whole : Whole fat32Mounted :=
  ⟨512, 131072, fat32Device, by decide, rfl, fat32Mounted_mounted, .inl (by decide +kernel)⟩

/-- A sector of the FAT is read and changed. -/
theorem sector_cache_run : ∃ s : State, s.fs.fsDirty = true ∧ s.fs.fsCurrentsector = 40 ∧
    CacheCorrect s := by
  let s₁ := (fatFscacheread none none 40 fat32Mounted).1
  let s₂ : State :=
    { s₁ with
      fs :=
        { s₁.fs with
          fsBuffer := fun _ => 7
          fsDirty := true } }
  have h₁ : Reach cacheMachine Whole (fun s i => i.spares s) s₁ :=
    .step (i := .read none none 40) (.init fat32Mounted_whole)
      (show 40 < 2 ^ 32 by decide) trivial rfl
  have h₂ : Reach cacheMachine Whole (fun s i => i.spares s) s₂ :=
    .step (i := .modify fun _ => 7) h₁ trivial trivial rfl
  refine ⟨s₂, rfl, by decide +kernel, (sector_cache_iff h₂).mpr fun _ => .inr (.inl ?_)⟩
  decide +kernel

/-- The FSINFO sector of a volume with two FATs is written into the FATs as well. -/
theorem fsinfo_mirrored : ¬∀ s, Reachable cacheMachine Mounted s → CacheCorrect s := by
  intro hall
  let s₁ : State :=
    { fat32Mounted with
      fs :=
        { fat32Mounted.fs with
          fsBuffer := fun _ => 7
          fsDirty := true } }
  have hinit : Mounted fat32Mounted :=
    ⟨512, 131072, fat32Device, by decide, rfl, fat32Mounted_mounted⟩
  have h₁ : Reachable cacheMachine Mounted s₁ :=
    .step (i := .modify fun _ => 7) (.init hinit) trivial trivial rfl
  have hwritten : (fatFscacheflush none s₁).1.written = [1, 1025] ∧ s₁.written = [] ∧
      targets s₁.fs = [1] := by
    decide +kernel
  obtain ⟨l, hl, hm⟩ := ((hall s₁ h₁).flush rfl).flush.2.writes
  rw [hwritten.1, hwritten.2.1] at hl
  have hmem := (hm 1025).mp (by rw [← hl.trans (List.nil_append l)]; decide)
  rw [hwritten.2.2] at hmem
  revert hmem
  decide

end NuttxAvr32.Fat
