import NuttxAvr32.Fat.File
import NuttxAvr32.Lib.Holding

/-! # The semaphore of a volume

`fat_read`, `fat_write` and `fat_seek` with the results of the accesses to the device and to the
FAT left open. What the sectors hold is left out.
-/

namespace NuttxAvr32.Fat.Lock

open Holding Call

inductive Sem
  | fsSem
deriving DecidableEq

/-- The file structure, its file position and the mount structure. -/
structure Handle where
  fs : Mountpt
  ff : FatFile
  fPos : Int

abbrev Prog (α : Type) : Type := Call Handle Sem Int α

abbrev OK : Int := 0

def setFile (f : FatFile → FatFile) : Prog Unit := modify fun h => { h with ff := f h.ff }

/-- `fat_checkmount`; the answer is zero where the driver has a device and its medium is the
same. -/
def fatCheckmount : Prog Int := do
  let h ← get
  if h.fs.fsMounted = true then
    let geometry ← ask
    if geometry = 0 then return OK
    else
      modify fun h => { h with fs := { h.fs with fsMounted := false } }
      return -enodev
  else return -enodev

/-- The test is of `ff_bflags` and of two constants that are equal. -/
def fatFfcacheflush : Prog Int := do
  let h ← get
  if h.ff.ffCachesector ≠ 0 ∧ (h.ff.valid = true ∨ h.ff.dirty = true ∨ h.ff.modified = true) then
    let ret ← ask
    if ret < 0 then return ret
    else
      setFile fun ff => { ff with dirty := false }
      return OK
  else return OK

def fatFfcacheread (sector : Nat) : Prog Int := do
  let h ← get
  if h.ff.ffCachesector ≠ sector ∨ h.ff.valid = false then
    let ret ← fatFfcacheflush
    if ret < 0 then return ret
    else
      let ret ← ask
      if ret < 0 then return ret
      else
        setFile fun ff =>
          { ff with
            ffCachesector := sector
            valid := true }
        return OK
  else return OK

def fatFfcacheinvalidate : Prog Int := do
  let h ← get
  if h.ff.valid = true then
    let ret ← fatFfcacheflush
    if ret < 0 then return ret
    else
      setFile fun ff =>
        { ff with
          valid := false
          ffCachesector := 0 }
      return OK
  else return OK

def findSector : Prog Int := do
  let h ← get
  if h.ff.ffCurrentsector = 0 then
    let r := fatCurrentsector h.fs h.ff h.fPos
    setFile fun _ => r.1
    if r.2 = true then return OK else return -enospc
  else return OK

/-- Whole sectors were transferred, or the end of a sector was reached. -/
def skipSectors (nsectors : Nat) : Prog Unit :=
  setFile fun ff =>
    { ff with
      ffSectorsincluster := wrapInt (ff.ffSectorsincluster - nsectors) % 2 ^ 8
      ffCurrentsector := wrap32 (ff.ffCurrentsector + nsectors) }

def enterCluster (cluster : Int) : Prog Unit :=
  modify fun h =>
    { h with
      ff :=
        { h.ff with
          ffCurrentcluster := wrapInt cluster
          ffCurrentsector := wrapInt (fatCluster2sector h.fs (wrapInt cluster))
          ffSectorsincluster := h.fs.fsFatsecperclus } }

/-- The step to the next cluster at the end of a turn, with the error for one that is none. -/
def nextCluster (error : Int → Int) : Prog Int := do
  let h ← get
  if h.ff.ffSectorsincluster < 1 then
    let cluster ← ask
    if cluster < 2 ∨ h.fs.fsNclusters ≤ wrapInt cluster then return error cluster
    else
      enterCluster cluster
      return OK
  else return OK

/-- The transfer of one turn: a negative result, or the number of bytes. -/
def readSectors (buflen nsectors sectorindex : Nat) : Prog Int := do
  let h ← get
  if 0 < nsectors ∧ sectorindex = 0 then
    let nsectors := min nsectors h.ff.ffSectorsincluster
    let _ ← fatFfcacheinvalidate
    let ret ← ask
    if ret < 0 then return ret
    else
      skipSectors nsectors
      return nsectors * h.fs.fsHwsectorsize
  else
    let ret ← fatFfcacheread h.ff.ffCurrentsector
    if ret < 0 then return ret
    else if buflen < h.fs.fsHwsectorsize - sectorindex then return buflen
    else
      skipSectors 1
      return (h.fs.fsHwsectorsize - sectorindex : Nat)

def advance (bytes : Nat) : Prog Unit := modify fun h => { h with fPos := offT (h.fPos + bytes) }

/-- One turn of the loop of `fat_read`: what is still to be read, and how much has been. The loop
ends with an error or with the size of all. -/
def readPass (i : Nat × Nat) : Prog (Nat × Nat ⊕ Int ⊕ Nat) := do
  let (buflen, readsize) := i
  if buflen = 0 then return .inr (.inr readsize)
  else
    let h ← get
    let bytesread ← readSectors buflen (buflen / h.fs.fsHwsectorsize) (sectorIndex h.fs h.fPos)
    if bytesread < 0 then return .inr (.inl bytesread)
    else
      advance bytesread.toNat
      let ret ← nextCluster fun _ => -einval
      if ret < 0 then return .inr (.inl ret)
      else return .inl (buflen - bytesread.toNat, readsize + bytesread.toNat)

def giveAndReturn (ret : Int) : Prog Int := do
  give .fsSem
  return ret

def fatRead (turns buflen : Nat) : Prog Int := do
  take .fsSem
  let ret ← fatCheckmount
  if ret ≠ OK then giveAndReturn ret
  else
    let h ← get
    if h.ff.rdok = false then giveAndReturn (-eacces)
    else
      let ret ← findSector
      if ret < 0 then return ret -- no `fat_semgive` here
      else
        let buflen := min buflen (wrapInt (h.ff.ffSize - h.fPos))
        let r ← loop readPass turns (buflen, 0)
        match r with
        | .inl ret => giveAndReturn ret
        | .inr readsize => giveAndReturn (offT readsize)

def writeSectors (buflen nsectors sectorindex : Nat) : Prog Int := do
  let h ← get
  if 0 < nsectors ∧ sectorindex = 0 then
    let nsectors := min nsectors h.ff.ffSectorsincluster
    let _ ← fatFfcacheinvalidate
    let ret ← ask
    if ret < 0 then return ret
    else
      skipSectors nsectors
      setFile fun ff => { ff with modified := true }
      return nsectors * h.fs.fsHwsectorsize
  else
    let ret ← (if h.fPos < h.ff.ffSize ∨ sectorindex ≠ 0 then fatFfcacheread h.ff.ffCurrentsector
      else return OK)
    if ret < 0 then return ret
    else
      let whole := h.fs.fsHwsectorsize - sectorindex
      let _ ← (if buflen < whole then return () else skipSectors 1)
      setFile fun ff =>
        { ff with
          dirty := true
          valid := true
          modified := true
          ffCachesector := ff.ffCurrentsector }
      return (min buflen whole : Nat)

def writePass (i : Nat × Nat) : Prog (Nat × Nat ⊕ Int ⊕ Nat) := do
  let (buflen, byteswritten) := i
  if buflen = 0 then return .inr (.inr byteswritten)
  else
    let ret ← fatFfcacheflush
    if ret < 0 then return .inr (.inl ret)
    else
      let h ← get
      let writesize ← writeSectors buflen (buflen / h.fs.fsHwsectorsize) (sectorIndex h.fs h.fPos)
      if writesize < 0 then return .inr (.inl writesize)
      else
        advance writesize.toNat
        let ret ← nextCluster fun cluster => if cluster < 0 then cluster else -enospc
        if ret < 0 then return .inr (.inl ret)
        else return .inl (buflen - writesize.toNat, byteswritten + writesize.toNat)

/-- A file without clusters gets one from `fat_createchain`, whose result is not looked at. -/
def createFirst : Prog Unit := do
  let h ← get
  if h.ff.ffCurrentsector = 0 ∧ h.ff.ffStartcluster = 0 then
    let cluster ← ask
    setFile fun ff =>
      { ff with
        ffStartcluster := wrapInt cluster
        ffCurrentcluster := wrapInt cluster
        ffSectorsincluster := h.fs.fsFatsecperclus }
  else return ()

def extendSize : Prog Unit :=
  modify fun h =>
    if h.ff.ffSize < h.fPos then { h with ff := { h.ff with ffSize := h.fPos } } else h

def fatWrite (turns buflen : Nat) : Prog Int := do
  take .fsSem
  let ret ← fatCheckmount
  if ret ≠ OK then giveAndReturn ret
  else
    let h ← get
    if h.ff.wrok = false then giveAndReturn (-eacces)
    else if wrapInt (h.ff.ffSize + buflen) < wrapInt h.ff.ffSize then giveAndReturn (-efbig)
    else
      createFirst
      let ret ← findSector
      if ret < 0 then return ret -- no `fat_semgive` here
      else
        let r ← loop writePass turns (buflen, 0)
        match r with
        | .inl ret => giveAndReturn ret
        | .inr byteswritten =>
            extendSize
            giveAndReturn (offT byteswritten)

inductive Whence
  | set
  | cur
  | end
  | other
deriving DecidableEq

/-- One turn of the walk of `fat_seek`. It ends with an error, or with what is left of the
position. -/
def seekPass (clustersize : Nat) (i : Int × Int) : Prog (Int × Int ⊕ Int ⊕ Int) := do
  let (cluster, position) := i
  setFile fun ff => { ff with ffCurrentcluster := wrapInt cluster }
  if wrapInt position < clustersize then return .inr (.inr position)
  else
    -- the result of `fat_extendchain` or of `fat_getcluster`
    let cluster ← ask
    let h ← get
    if cluster < 0 then return .inr (.inl cluster)
    else if cluster = 0 then return .inr (.inr clustersize)
    else if h.fs.fsNclusters ≤ wrapInt cluster then return .inr (.inl (-enospc))
    else
      advance clustersize
      return .inl (cluster, offT (position - clustersize))

def seekFrom (turns : Nat) (cluster position : Int) : Prog Int := do
  let h ← get
  let clustersize := h.fs.fsFatsecperclus * h.fs.fsHwsectorsize
  let r ← loop (seekPass clustersize) turns (cluster, position)
  match r with
  | .inl ret => return ret
  | .inr position =>
      modify fun h => { h with fPos := offT (h.fPos + position) }
      modify fun h => { h with ff := (fatCurrentsector h.fs h.ff h.fPos).1 }
      let h ← get
      if sectorIndex h.fs position ≠ 0 then fatFfcacheread h.ff.ffCurrentsector else return OK

/-- The end of `fat_seek` without errors. -/
def seekEnd : Prog Int := do
  modify fun h =>
    if h.ff.wrok = true ∧ h.ff.ffSize < h.fPos then
      { h with
        ff :=
          { h.ff with
            ffSize := h.fPos
            modified := true } }
    else h
  giveAndReturn OK

/-- A file without clusters gets one where the position is not zero. -/
def seekStart (position : Int) : Prog Int := do
  let h ← get
  if h.ff.ffStartcluster = 0 ∧ 0 < position then
    let cluster ← ask
    if cluster < 0 then return cluster
    else
      setFile fun ff => { ff with ffStartcluster := wrapInt cluster }
      return cluster
  else return h.ff.ffStartcluster

def seekTo (turns : Nat) (position : Int) : Prog Int := do
  take .fsSem
  let ret ← fatCheckmount
  if ret ≠ OK then giveAndReturn ret
  else
    let ret ← fatFfcacheflush
    if ret < 0 then giveAndReturn ret
    else
      let h ← get
      let position := if h.ff.ffSize < position ∧ h.ff.wrok = false then h.ff.ffSize else position
      modify fun h =>
        { h with
          fPos := 0
          ff := { h.ff with ffSectorsincluster := h.fs.fsFatsecperclus } }
      let cluster ← seekStart position
      if cluster < 0 then giveAndReturn cluster
      else if cluster = 0 then seekEnd
      else
        let ret ← seekFrom turns cluster position
        if ret < 0 then giveAndReturn ret else seekEnd

def fatSeek (turns : Nat) (offset : Int) (whence : Whence) : Prog Int := do
  let h ← get
  match whence with
  | .set => seekTo turns offset
  | .cur => seekTo turns (offT (offset + h.fPos))
  | .end => seekTo turns (offT (offset + h.ff.ffSize))
  | .other => return -einval

section

variable {sector nsectors sectorindex buflen turns : Nat} {cluster position : Int} {i : Nat × Nat}

theorem setFile_quiet (f : FatFile → FatFile) : Quiet (setFile f) := quiet_modify _

theorem ffcacheflush_quiet : Quiet fatFfcacheflush := by
  refine quiet_get.bind fun h => .ite (quiet_ask.bind fun ret => ?_) (quiet_pure _)
  exact .ite (quiet_pure _) ((setFile_quiet _).bind fun _ => quiet_pure _)

theorem ffcacheread_quiet : Quiet (fatFfcacheread sector) := by
  refine quiet_get.bind fun h => .ite (ffcacheflush_quiet.bind fun ret => ?_) (quiet_pure _)
  refine .ite (quiet_pure _) (quiet_ask.bind fun ret => ?_)
  exact .ite (quiet_pure _) ((setFile_quiet _).bind fun _ => quiet_pure _)

theorem ffcacheinvalidate_quiet : Quiet fatFfcacheinvalidate := by
  refine quiet_get.bind fun h => .ite (ffcacheflush_quiet.bind fun ret => ?_) (quiet_pure _)
  exact .ite (quiet_pure _) ((setFile_quiet _).bind fun _ => quiet_pure _)

theorem skipSectors_quiet : Quiet (skipSectors nsectors) := setFile_quiet _

theorem nextCluster_quiet (error : Int → Int) : Quiet (nextCluster error) := by
  refine quiet_get.bind fun h => .ite (quiet_ask.bind fun cluster => ?_) (quiet_pure _)
  exact .ite (quiet_pure _) ((quiet_modify _).bind fun _ => quiet_pure _)

theorem readSectors_quiet : Quiet (readSectors buflen nsectors sectorindex) := by
  refine quiet_get.bind fun h => .ite ?_ (ffcacheread_quiet.bind fun ret => ?_)
  · refine ffcacheinvalidate_quiet.bind fun _ => quiet_ask.bind fun ret => ?_
    exact .ite (quiet_pure _) (skipSectors_quiet.bind fun _ => quiet_pure _)
  · refine .ite (quiet_pure _) (.ite (quiet_pure _) ?_)
    exact skipSectors_quiet.bind fun _ => quiet_pure _

theorem writeSectors_quiet : Quiet (writeSectors buflen nsectors sectorindex) := by
  refine quiet_get.bind fun h => .ite ?_ ?_
  · refine ffcacheinvalidate_quiet.bind fun _ => quiet_ask.bind fun ret => ?_
    refine .ite (quiet_pure _) (skipSectors_quiet.bind fun _ => ?_)
    exact (setFile_quiet _).bind fun _ => quiet_pure _
  · refine (Quiet.ite ffcacheread_quiet (quiet_pure _)).bind fun ret => .ite (quiet_pure _) ?_
    refine (Quiet.ite (quiet_pure _) skipSectors_quiet).bind fun _ => ?_
    exact (setFile_quiet _).bind fun _ => quiet_pure _

theorem readPass_quiet : Quiet (readPass i) := by
  refine .ite (quiet_pure _) (quiet_get.bind fun h => readSectors_quiet.bind fun bytesread => ?_)
  refine .ite (quiet_pure _) ((quiet_modify _).bind fun _ => ?_)
  exact (nextCluster_quiet _).bind fun ret => .ite (quiet_pure _) (quiet_pure _)

theorem writePass_quiet : Quiet (writePass i) := by
  refine .ite (quiet_pure _) (ffcacheflush_quiet.bind fun ret => .ite (quiet_pure _) ?_)
  refine quiet_get.bind fun h => writeSectors_quiet.bind fun writesize => ?_
  refine .ite (quiet_pure _) ((quiet_modify _).bind fun _ => ?_)
  exact (nextCluster_quiet _).bind fun ret => .ite (quiet_pure _) (quiet_pure _)

theorem seekPass_quiet (clustersize : Nat) (i : Int × Int) : Quiet (seekPass clustersize i) := by
  refine (setFile_quiet _).bind fun _ => .ite (quiet_pure _) (quiet_ask.bind fun cluster => ?_)
  refine quiet_get.bind fun h => .ite (quiet_pure _) (.ite (quiet_pure _) ?_)
  exact .ite (quiet_pure _) ((quiet_modify _).bind fun _ => quiet_pure _)

theorem seekFrom_quiet : Quiet (seekFrom turns cluster position) := by
  refine quiet_get.bind fun h => (Quiet.loop (seekPass_quiet _) _ _).bind fun r => ?_
  cases r with
  | inl ret => exact quiet_pure _
  | inr position =>
      refine (quiet_modify _).bind fun _ => (quiet_modify _).bind fun _ => quiet_get.bind fun h => ?_
      exact .ite ffcacheread_quiet (quiet_pure _)

theorem seekStart_quiet : Quiet (seekStart position) := by
  refine quiet_get.bind fun h => .ite (quiet_ask.bind fun cluster => ?_) (quiet_pure _)
  exact .ite (quiet_pure _) ((setFile_quiet _).bind fun _ => quiet_pure _)

end

section

variable {w w' : World Handle Sem Int} {h : Handle} {count : Sem → Int} {answers : Nat → Int}
  {buflen turns : Nat}

theorem wp_giveAndReturn (hw : SameSems (w.took .fsSem) w') (ret : Int) :
    wp (giveAndReturn ret) (fun _ w'' => w''.count = w.count) w' :=
  hw.gave.1

theorem checkmount_returns (w : World Handle Sem Int) : Returns fatCheckmount (fun ret w' =>
    SameSems w w' ∧ (ret = OK ↔ w.data.fs.fsMounted = true ∧ w.answers 0 = 0) ∧
      w'.data.ff = w.data.ff ∧ w'.data.fPos = w.data.fPos) w := by
  simp only [fatCheckmount, returns_bind, returns_get, returns_ite, returns_ask, returns_modify,
    returns_pure]
  split
  · rename_i hm
    split
    · rename_i ha
      exact ⟨⟨rfl, rfl⟩, by simp [hm, ha], trivial, trivial⟩
    · rename_i ha
      exact ⟨⟨rfl, rfl⟩, by simp [ha], trivial, trivial⟩
  · rename_i hm
    exact ⟨⟨rfl, rfl⟩, by simp [hm], trivial, trivial⟩

theorem createFirst_returns (w : World Handle Sem Int) : Returns createFirst (fun _ w' =>
    SameSems w w' ∧ w'.data.ff.ffCurrentsector = w.data.ff.ffCurrentsector ∧
      w'.data.ff.ffSize = w.data.ff.ffSize ∧ w'.data.fPos = w.data.fPos) w := by
  simp only [createFirst, setFile, returns_bind, returns_get, returns_ite, returns_ask,
    returns_modify, returns_pure]
  split
  · exact ⟨⟨rfl, rfl⟩, trivial, trivial, trivial⟩
  · exact ⟨⟨rfl, rfl⟩, trivial, trivial, trivial⟩

/-- `fat_currentsector` is called for a file without a current sector, and fails where the file
position is behind the end. -/
theorem findSector_iff : wp findSector (fun ret _ => ¬ ret < 0) w ↔
    (w.data.ff.ffCurrentsector = 0 → w.data.fPos ≤ w.data.ff.ffSize) := by
  simp only [findSector, setFile, wp_bind, wp_get, wp_ite, wp_modify, wp_pure, fatCurrentsector]
  by_cases hc : w.data.ff.ffCurrentsector = 0
  · by_cases hp : w.data.fPos ≤ w.data.ff.ffSize
    · simp [hc, hp]
    · simp [hc, hp, enospc]
  · simp [hc]

theorem findSector_quiet : Quiet findSector := by
  refine quiet_get.bind fun h => .ite ((setFile_quiet _).bind fun _ => ?_) (quiet_pure _)
  exact .ite (quiet_pure _) (quiet_pure _)

theorem findSector_rest {w0 : World Handle Sem Int} {p : Prog Int} (hw : SameSems (w0.took .fsSem) w)
    (hp : ∀ w', SameSems (w0.took .fsSem) w' → wp p (fun _ w'' => w''.count = w0.count) w') :
    wp (do
      let ret ← findSector
      if ret < 0 then return ret else p) (fun _ w' => w'.count = w0.count) w ↔
      (w.data.ff.ffCurrentsector = 0 → w.data.fPos ≤ w.data.ff.ffSize) := by
  rw [wp_bind, ← findSector_iff]
  apply wp_congr (findSector_quiet w)
  intro ret w' hw'
  have hsems := hw.trans hw'
  rw [wp_ite]
  split
  · rename_i hret
    exact ⟨fun hc => absurd hc hsems.count_ne, fun hn => absurd hret hn⟩
  · rename_i hret
    exact ⟨fun _ => hret, fun _ => hp w' hsems⟩

/-- A file that may be read on a mounted volume has a current sector, or a position that is not
behind its end. -/
def ReadKeeps (h : Handle) (answers : Nat → Int) : Prop :=
  h.fs.fsMounted = true → answers 0 = 0 → h.ff.rdok = true →
    h.ff.ffCurrentsector = 0 → h.fPos ≤ h.ff.ffSize

/-- The same of a file that may be written, where its size would not pass all bounds. -/
def WriteKeeps (h : Handle) (buflen : Nat) (answers : Nat → Int) : Prop :=
  h.fs.fsMounted = true → answers 0 = 0 → h.ff.wrok = true →
    ¬ wrapInt (h.ff.ffSize + buflen) < wrapInt h.ff.ffSize →
      h.ff.ffCurrentsector = 0 → h.fPos ≤ h.ff.ffSize

theorem mounted_iff {p : Prog Int} {c : Prop}
    (hp : ∀ w w' : World Handle Sem Int, w.data = h → w.count = count → SameSems (w.took .fsSem) w' →
      w'.data.ff = h.ff → w'.data.fPos = h.fPos →
        (wp p (fun _ w'' => w''.count = w.count) w' ↔ c)) :
    Balanced (do
      take .fsSem
      let ret ← fatCheckmount
      if ret ≠ OK then giveAndReturn ret else p) h count answers ↔
      (h.fs.fsMounted = true → answers 0 = 0 → c) := by
  unfold Holding.Balanced
  obtain ⟨w, hw⟩ : ∃ w : World Handle Sem Int, w = ⟨h, count, fun _ => 0, answers⟩ := ⟨_, rfl⟩
  have hfree : ¬ 0 < w.holds .fsSem := by
    rw [hw]
    exact Int.lt_irrefl 0
  have hcount : w.count = count := by rw [hw]
  have hdata : w.data = h := by rw [hw]
  have hanswers : w.answers = answers := by rw [hw]
  obtain ⟨ret, w', ⟨hsems, hret, hff, hpos⟩, hiff⟩ := (checkmount_returns (w.took .fsSem)).exists
  rw [World.data_took, World.answers_took, hdata, hanswers] at hret
  rw [World.data_took, hdata] at hff hpos
  rw [← hw, ← hcount, wp_bind, wp_take, and_iff_right hfree, wp_bind, hiff, wp_ite]
  by_cases hok : ret = OK
  · obtain ⟨hm, ha⟩ := hret.mp hok
    rw [if_neg (fun hne => hne hok), hp w w' hdata hcount hsems hff hpos]
    exact ⟨fun hc _ _ => hc, fun hc => hc hm ha⟩
  · rw [if_pos hok]
    exact ⟨fun _ hm ha => absurd (hret.mpr ⟨hm, ha⟩) hok, fun _ => wp_giveAndReturn hsems ret⟩

theorem fatRead_balanced : Balanced (fatRead turns buflen) h count answers ↔
    ReadKeeps h answers := by
  apply mounted_iff
  intro w w' hdata hcount hsems hff hpos
  rw [wp_bind, wp_get, wp_ite, hff]
  by_cases hrd : h.ff.rdok = false
  · rw [if_pos hrd, hrd]
    exact ⟨fun _ hn => absurd hn Bool.false_ne_true, fun _ => wp_giveAndReturn hsems _⟩
  · rw [if_neg hrd, findSector_rest hsems, hff, hpos]
    · exact ⟨fun hc _ => hc, fun hc => hc (by simpa using hrd)⟩
    · intro w'' hw''
      rw [wp_bind]
      apply (Quiet.loop (fun i => readPass_quiet) turns _).wp
      intro r w3 hw3
      cases r with
      | inl ret => exact wp_giveAndReturn (hw''.trans hw3) ret
      | inr readsize => exact wp_giveAndReturn (hw''.trans hw3) _

theorem fatWrite_balanced : Balanced (fatWrite turns buflen) h count answers ↔
    WriteKeeps h buflen answers := by
  apply mounted_iff
  intro w w' hdata hcount hsems hff hpos
  rw [wp_bind, wp_get, wp_ite, hff]
  by_cases hwr : h.ff.wrok = false
  · rw [if_pos hwr, hwr]
    exact ⟨fun _ hn => absurd hn Bool.false_ne_true, fun _ => wp_giveAndReturn hsems _⟩
  · have hwrok : h.ff.wrok = true := by simpa using hwr
    rw [if_neg hwr, wp_ite]
    by_cases hbig : wrapInt (h.ff.ffSize + buflen) < wrapInt h.ff.ffSize
    · rw [if_pos hbig]
      exact ⟨fun _ _ hn => absurd hbig hn, fun _ => wp_giveAndReturn hsems _⟩
    · obtain ⟨_, w1, ⟨hsems1, hsector, hsize, hpos1⟩, hiff⟩ := (createFirst_returns w').exists
      have hsems' := hsems.trans hsems1
      rw [if_neg hbig, wp_bind, hiff, findSector_rest hsems', hsector, hsize, hpos1, hff, hpos]
      · exact ⟨fun hc _ _ => hc, fun hc => hc hwrok hbig⟩
      · intro w'' hw''
        rw [wp_bind]
        apply (Quiet.loop (fun i => writePass_quiet) turns _).wp
        intro r w3 hw3
        cases r with
        | inl ret => exact wp_giveAndReturn (hw''.trans hw3) ret
        | inr byteswritten =>
            rw [wp_bind]
            apply (quiet_modify _).wp
            intro _ w4 hw4
            exact wp_giveAndReturn ((hw''.trans hw3).trans hw4) _

theorem seekEnd_gives {w w' : World Handle Sem Int} (hw : SameSems (w.took .fsSem) w') :
    wp seekEnd (fun _ w'' => w''.count = w.count) w' := by
  unfold seekEnd
  rw [wp_bind]
  apply (quiet_modify _).wp
  intro _ w'' hw''
  exact wp_giveAndReturn (hw.trans hw'') _

theorem seekTo_balanced (position : Int) : Balanced (seekTo turns position) h count answers := by
  refine (mounted_iff (c := True) ?_).mpr fun _ _ => trivial
  intro w w' hdata hcount hsems hff hpos
  rw [iff_true, wp_bind]
  apply ffcacheflush_quiet.wp
  intro ret w1 hw1
  have hsems1 := hsems.trans hw1
  rw [wp_ite]
  split
  · exact wp_giveAndReturn hsems1 _
  · rw [wp_bind, wp_get, wp_bind]
    apply (quiet_modify _).wp
    intro _ w2 hw2
    have hsems2 := hsems1.trans hw2
    rw [wp_bind]
    apply seekStart_quiet.wp
    intro cluster w3 hw3
    have hsems3 := hsems2.trans hw3
    rw [wp_ite]
    split
    · exact wp_giveAndReturn hsems3 _
    · rw [wp_ite]
      split
      · exact seekEnd_gives hsems3
      · rw [wp_bind]
        apply seekFrom_quiet.wp
        intro ret w4 hw4
        rw [wp_ite]
        split
        · exact wp_giveAndReturn (hsems3.trans hw4) _
        · exact seekEnd_gives (hsems3.trans hw4)

theorem fatSeek_balanced (offset : Int) (whence : Whence) :
    Balanced (fatSeek turns offset whence) h count answers := by
  unfold Holding.Balanced fatSeek
  rw [wp_bind, wp_get]
  cases whence with
  | set => exact seekTo_balanced offset
  | cur => exact seekTo_balanced (offT (offset + h.fPos))
  | «end» => exact seekTo_balanced (offT (offset + h.ff.ffSize))
  | other => rfl

end

end NuttxAvr32.Fat.Lock
