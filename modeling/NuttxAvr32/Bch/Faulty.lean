import NuttxAvr32.Bch.CharView

/-! # The sector buffer when transfers fail

The functions of the character view once more, on a device that fails any of its
transfers. A failing write leaves the sector as it was, a failing read leaves anything in
the buffer.
-/

namespace NuttxAvr32.Bch.Faulty

open Overlay Runs

/-- The transfers of one `bchlib_readsector`: whether the flush fails, and what a failing
read leaves in the buffer. -/
structure Attempt where
  flush : Bool
  read : Option (Nat → UInt8)

/-- The transfers of one call. That of the whole sectors fails with an error. -/
structure Faults where
  first : Attempt
  whole : Option (Nat × (Nat → UInt8))
  last : Attempt

def Faults.none : Faults := ⟨⟨false, .none⟩, .none, ⟨false, .none⟩⟩

def spoil (bch : Bchlib) (left : Nat → UInt8) (nsectors : Nat) : Bchlib :=
  { bch with buffer := overlay 0 (window left 0 (nsectors * bch.sectsize)) bch.buffer }

/-- The error of the write is not looked at. -/
def bchlibFlushsector (fails : Bool) (bch : Bchlib) : Bchlib :=
  if bch.dirty then
    { (if fails then bch else bch.writeBlocks bch.sector 1) with dirty := false }
  else bch

/-- Neither is that of the read. -/
def bchlibReadsector (a : Attempt) (bch : Bchlib) (sector : Nat) : Bchlib :=
  if bch.sector ≠ sector then
    let bch := { bchlibFlushsector a.flush bch with sector := noSector }
    match a.read with
    | none => { bch.readBlocks sector 1 with sector := sector }
    | some left => { spoil bch left 1 with sector := sector }
  else bch

def bchlibReadTail (a : Attempt) (bch : Bchlib) (mem : Nat → UInt8) (sector bytesread len : Nat) :
    Bchlib × (Nat → UInt8) × Int :=
  if len > 0 then
    let bch := bchlibReadsector a bch sector
    (bch, overlay bytesread (window bch.buffer 0 len) mem, toSigned (bytesread + len))
  else (bch, mem, toSigned bytesread)

def bchlibReadSectors (f : Faults) (bch : Bchlib) (mem : Nat → UInt8)
    (sector bytesread len : Nat) : Bchlib × (Nat → UInt8) × Int :=
  if len ≥ bch.sectsize then
    let nsectors := wholeSectors bch sector len
    match f.whole with
    | some (error, left) => (spoil bch left nsectors, mem, -error)
    | none =>
      let bch := bch.readBlocks sector nsectors
      let nbytes := nsectors * bch.sectsize
      if toSize (sector + nsectors) ≥ bch.nsectors then
        (bch, mem, toSigned (bytesread + nbytes))
      else
        bchlibReadTail f.last bch mem (toSize (sector + nsectors)) (bytesread + nbytes)
          (len - nbytes)
  else bchlibReadTail f.last bch mem sector bytesread len

def bchlibRead (f : Faults) (bch : Bchlib) (mem : Nat → UInt8) (offset len : Nat) :
    Bchlib × (Nat → UInt8) × Int :=
  let sector := offset / bch.sectsize
  let sectoffset := offset - sector * bch.sectsize
  if len < 1 then (bch, mem, 0)
  else if sector ≥ bch.nsectors then (bch, mem, 0)
  else if sectoffset > 0 then
    let bch := bchlibReadsector f.first bch sector
    let nbytes := leading bch sectoffset len
    let mem := overlay 0 (window bch.buffer sectoffset nbytes) mem
    if sector + 1 ≥ bch.nsectors then (bch, mem, toSigned nbytes)
    else bchlibReadSectors f bch mem (sector + 1) nbytes (len - nbytes)
  else bchlibReadSectors f bch mem sector 0 len

/-- What a write leaves, and how many bytes of the caller it has put into the buffer or
has written as whole sectors: these are the bytes it accepts, also where it then fails. -/
structure Wrote where
  bch : Bchlib
  ret : Int
  accepted : Nat

def Wrote.done (w : Wrote) : Bchlib × Int := (w.bch, w.ret)

def bchlibWriteTail (a : Attempt) (bch : Bchlib) (data : List UInt8) (sector byteswritten : Nat) :
    Wrote :=
  if data.length > 0 then
    ⟨(bchlibReadsector a bch sector).patch 0 data, toSigned (byteswritten + data.length),
      byteswritten + data.length⟩
  else ⟨bch, toSigned byteswritten, byteswritten⟩

def bchlibWriteSectors (f : Faults) (bch : Bchlib) (data : List UInt8)
    (sector byteswritten : Nat) : Wrote :=
  if data.length ≥ bch.sectsize then
    let nsectors := wholeSectors bch sector data.length
    match f.whole with
    | some (error, _) => ⟨bch, -error, byteswritten⟩
    | none =>
      let bch := bch.writeBlocks sector nsectors
      let nbytes := nsectors * bch.sectsize
      if toSize (sector + nsectors) ≥ bch.nsectors then
        ⟨bch, toSigned (byteswritten + nbytes), byteswritten + nbytes⟩
      else
        bchlibWriteTail f.last bch (data.drop nbytes) (toSize (sector + nsectors))
          (byteswritten + nbytes)
  else bchlibWriteTail f.last bch data sector byteswritten

def bchlibWrite (f : Faults) (bch : Bchlib) (data : List UInt8) (offset : Nat) : Wrote :=
  let sector := offset / bch.sectsize
  let sectoffset := offset - sector * bch.sectsize
  if data.length < 1 then ⟨bch, 0, 0⟩
  else if sector ≥ bch.nsectors then ⟨bch, efbig, 0⟩
  else if sectoffset > 0 then
    let bch := bchlibReadsector f.first bch sector
    let nbytes := leading bch sectoffset data.length
    let bch := bch.patch sectoffset (data.take nbytes)
    if sector + 1 ≥ bch.nsectors then ⟨bch, toSigned nbytes, nbytes⟩
    else bchlibWriteSectors f bch (data.drop nbytes) (sector + 1) nbytes
  else bchlibWriteSectors f bch data sector 0

section

variable (bch : Bchlib) (mem : Nat → UInt8) (data : List UInt8) (sector offset n len : Nat)

end

/-- The driver, and the byte accepted last for each position of the device. -/
structure State where
  bch : Bchlib
  accepted : Nat → Option UInt8

inductive Op
  | read (f : Faults) (mem : Nat → UInt8) (offset len : Nat)
  | write (f : Faults) (data : List UInt8) (offset : Nat)
  | flush (fails : Bool)

def Op.exec (s : State) : Op → State
  | read f mem offset len => { s with bch := (bchlibRead f s.bch mem offset len).1 }
  | write f data offset =>
    let w := bchlibWrite f s.bch data offset
    ⟨w.bch, overlay offset ((data.take w.accepted).map some) s.accepted⟩
  | flush fails => { s with bch := bchlibFlushsector fails s.bch }

def Op.valid : Op → Prop
  | read _ _ offset len => offset < 4294967296 ∧ len < 4294967296
  | write _ data offset => offset < 4294967296 ∧ data.length < 4294967296
  | flush _ => True

def faultyMachine : Machine State Op where
  valid _ i := i.valid
  exec s i := some (i.exec s)

structure Start (s : State) : Prop where
  nsectors : s.bch.nsectors < 4294967296
  sectsize : 0 < s.bch.sectsize ∧ s.bch.sectsize < 65536
  sector : s.bch.sector = noSector
  dirty : s.bch.dirty = false
  accepted : s.accepted = fun _ => none

/-- A clean buffer is its sector, a dirty one is its sector with the accepted bytes, and
an accepted byte is on the device or else waits in the dirty buffer. -/
structure Truthful (bch : Bchlib) (accepted : Nat → Option UInt8) : Prop where
  clean : bch.dirty = false → bch.sector < bch.nsectors → ∀ i < bch.sectsize,
    bch.buffer i = bch.dev (bch.sector * bch.sectsize + i)
  dirty : bch.dirty = true → bch.sector < bch.nsectors ∧ ∀ i < bch.sectsize,
    bch.buffer i = (accepted (bch.sector * bch.sectsize + i)).getD
      (bch.dev (bch.sector * bch.sectsize + i))
  kept : ∀ a v, accepted a = some v →
    bch.dev a = v ∨ bch.dirty = true ∧ a / bch.sectsize = bch.sector

/-- None of the transfers that `bchlib_readsector` makes for `sector` fails, with
`cached` in the buffer. -/
def Attempt.Done (a : Attempt) (cached sector : Nat) (dirty : Bool) : Prop :=
  cached ≠ sector → (dirty = true → a.flush = false) ∧ a.read.isNone = true

/-- A read reaches no whole sector, unless no sector is in the buffer. -/
def ReadKeeps (f : Faults) (bch : Bchlib) (sector sectoffset len : Nat) : Prop :=
  if sectoffset > 0 then
    f.first.Done bch.sector sector bch.dirty ∧
      (sector + 1 ≥ bch.nsectors ∨
        len - leading bch sectoffset len < bch.sectsize ∧
          (len - leading bch sectoffset len = 0 ∨
            f.last.Done sector (sector + 1) (bch.dirty && bch.sector == sector)))
  else if len < bch.sectsize then f.last.Done bch.sector sector bch.dirty
  else
    bch.nsectors ≤ bch.sector ∧
      (f.whole.isSome = true ∨ toSize (sector + wholeSectors bch sector len) ≥ bch.nsectors ∨
        len ≤ wholeSectors bch sector len * bch.sectsize ∨ f.last.read.isNone = true)

/-- A write reaches no whole sector, or fails with the whole sectors. -/
def WriteKeeps (f : Faults) (bch : Bchlib) (sector sectoffset len : Nat) : Prop :=
  if sectoffset > 0 then
    sectoffset + len < 4294967296 ∧ f.first.Done bch.sector sector bch.dirty ∧
      (sector + 1 ≥ bch.nsectors ∨
        if len - leading bch sectoffset len < bch.sectsize then
          len - leading bch sectoffset len = 0 ∨ f.last.Done sector (sector + 1) true
        else f.whole.isSome = true)
  else if len < bch.sectsize then f.last.Done bch.sector sector bch.dirty
  else f.whole.isSome = true

def Op.keeps (s : State) : Op → Prop
  | read f _ offset len =>
    len < 1 ∨ s.bch.nsectors ≤ offset / s.bch.sectsize ∨
      ReadKeeps f s.bch (offset / s.bch.sectsize)
        (offset - offset / s.bch.sectsize * s.bch.sectsize) len
  | write f data offset =>
    data.length < 1 ∨ s.bch.nsectors ≤ offset / s.bch.sectsize ∨
      WriteKeeps f s.bch (offset / s.bch.sectsize)
        (offset - offset / s.bch.sectsize * s.bch.sectsize) data.length
  | flush fails => s.bch.dirty = true → fails = false

structure Inv (bch : Bchlib) (accepted : Nat → Option UInt8) : Prop
    extends Truthful bch accepted where
  cached : bch.sector < bch.nsectors ∨ bch.sector = noSector ∧ bch.dirty = false
  nsectors : bch.nsectors < 4294967296
  sectsize : 0 < bch.sectsize ∧ bch.sectsize < 65536

section

variable {f : Faults} {a : Attempt} {bch : Bchlib} {acc : Nat → Option UInt8}
variable {mem : Nat → UInt8} {sector len : Nat} {data : List UInt8}

theorem Inv.buffered (I : Inv bch acc) (h : bch.sector < bch.nsectors) {i : Nat}
    (hi : i < bch.sectsize) :
    bch.buffer i = (acc (bch.sector * bch.sectsize + i)).getD
      (bch.dev (bch.sector * bch.sectsize + i)) := by
  cases hd : bch.dirty with
  | true => exact (I.dirty hd).2 i hi
  | false =>
    rw [I.clean hd h i hi]
    cases ha : acc (bch.sector * bch.sectsize + i) with
    | none => rfl
    | some v =>
      rcases I.kept _ _ ha with hv | hv
      · exact hv
      · exact absurd hv.1 (by simp [hd])

theorem exists_of_div {p S q : Nat} (hS : 0 < S) (h : p / S = q) : ∃ i < S, p = q * S + i := by
  refine ⟨p % S, Nat.mod_lt p hS, ?_⟩
  rw [← h, Nat.mul_comm]
  exact (Nat.div_add_mod p S).symm

theorem div_of_lt {S q i : Nat} (h : i < S) : (q * S + i) / S = q := by
  rw [Nat.mul_comm, Nat.mul_add_div (by omega), Nat.div_eq_of_lt h, Nat.add_zero]

theorem Inv.flush (I : Inv bch acc) {fails : Bool} (h : bch.dirty = true → fails = false) :
    Inv (bchlibFlushsector fails bch) acc ∧ Same bch (bchlibFlushsector fails bch) ∧
      (bchlibFlushsector fails bch).sector = bch.sector ∧
      (bchlibFlushsector fails bch).dirty = false := by
  cases hd : bch.dirty with
  | false =>
    have he : bchlibFlushsector fails bch = bch := if_neg (by simp [hd])
    rw [he]
    exact ⟨I, ⟨rfl, rfl, rfl⟩, rfl, hd⟩
  | true =>
    obtain ⟨hlt, hbuf⟩ := I.dirty hd
    have he : bchlibFlushsector fails bch =
        { bch.writeBlocks bch.sector 1 with dirty := false } := by
      rw [bchlibFlushsector, if_pos hd, h hd]
      rfl
    have hin : ∀ i < bch.sectsize, overlay (bch.sector * bch.sectsize)
        (window bch.buffer 0 (1 * bch.sectsize)) bch.dev (bch.sector * bch.sectsize + i) =
          bch.buffer i := by
      intro i hi
      rw [Nat.one_mul, overlay_of_mem (by simpa using hi)]
      simp [window]
    rw [he]
    refine ⟨⟨⟨fun _ _ i hi => (hin i hi).symm, fun hf => (by cases hf), fun p v hp => ?_⟩,
      .inl hlt, I.nsectors, I.sectsize⟩, ⟨rfl, rfl, rfl⟩, rfl, rfl⟩
    left
    by_cases hq : p / bch.sectsize = bch.sector
    · -- The buffer has the byte, and is written.
      obtain ⟨i, hi, rfl⟩ := exists_of_div I.sectsize.1 hq
      refine (hin i hi).trans ?_
      rw [hbuf i hi, hp]
      rfl
    · have hout : p < bch.sector * bch.sectsize ∨
          bch.sector * bch.sectsize + (window bch.buffer 0 (1 * bch.sectsize)).length ≤ p := by
        rw [length_window, Nat.one_mul]
        by_contra hc
        have hi : p - bch.sector * bch.sectsize < bch.sectsize := by omega
        have hp' : p = bch.sector * bch.sectsize + (p - bch.sector * bch.sectsize) := by omega
        rw [hp'] at hq
        exact hq (div_of_lt hi)
      refine (overlay_of_outside hout).trans ?_
      exact (I.kept p v hp).resolve_right fun hr => hq hr.2

theorem Inv.readsector (I : Inv bch acc) (ha : a.Done bch.sector sector bch.dirty)
    (h : sector < bch.nsectors) :
    Inv (bchlibReadsector a bch sector) acc ∧ Same bch (bchlibReadsector a bch sector) ∧
      (bchlibReadsector a bch sector).sector = sector ∧
      (bchlibReadsector a bch sector).dirty = (bch.dirty && bch.sector == sector) := by
  by_cases hs : bch.sector = sector
  · rw [bchlibReadsector, if_neg (by simpa using hs)]
    exact ⟨I, ⟨rfl, rfl, rfl⟩, hs, by simp [hs]⟩
  · obtain ⟨hflush, hread⟩ := ha hs
    obtain ⟨F, hsame, -, hclean⟩ := I.flush hflush
    have hr : a.read = none := Option.isNone_iff_eq_none.mp hread
    rw [bchlibReadsector, if_pos hs, hr]
    refine ⟨⟨⟨fun _ _ i hi => ?_, fun hd => absurd hd ?_, fun p v hp => ?_⟩,
      .inl (hsame.nsectors.symm ▸ h), F.nsectors, F.sectsize⟩,
      ⟨hsame.nsectors, hsame.sectsize, hsame.readonly⟩, rfl, ?_⟩
    · have hi' : i < (bchlibFlushsector a.flush bch).sectsize := hi
      simp only [Bchlib.readBlocks]
      exact overlay_window_apply (by simpa using hi')
    · simp [Bchlib.readBlocks, hclean]
    · left
      refine (F.kept p v hp).resolve_right fun hd => ?_
      rw [hclean] at hd
      cases hd.1
    · simp [Bchlib.readBlocks, hclean, hs]

theorem Inv.patch (I : Inv bch acc) (off : Nat) (data : List UInt8)
    (h : bch.sector < bch.nsectors) (hoff : off + data.length ≤ bch.sectsize) :
    Inv (bch.patch off data)
      (overlay (bch.sector * bch.sectsize + off) (data.map some) acc) := by
  refine ⟨⟨fun hd => (by cases hd), fun _ => ⟨h, fun i hi => ?_⟩, fun p v hp => ?_⟩,
    .inl h, I.nsectors, I.sectsize⟩
  · show overlay off data bch.buffer i = (overlay (bch.sector * bch.sectsize + off)
      (data.map some) acc (bch.sector * bch.sectsize + i)).getD
        (bch.dev (bch.sector * bch.sectsize + i))
    by_cases hin : i < off ∨ off + data.length ≤ i
    · rw [overlay_of_outside hin, overlay_of_outside (by rw [List.length_map]; omega)]
      exact I.buffered h hi
    · obtain ⟨j, rfl⟩ := Nat.exists_eq_add_of_le (show off ≤ i by omega)
      have hj : j < data.length := by omega
      rw [overlay_of_mem hj, ← Nat.add_assoc, overlay_of_mem (by simpa using hj)]
      simp
  · by_cases hout : p < bch.sector * bch.sectsize + off ∨
        bch.sector * bch.sectsize + off + (data.map some).length ≤ p
    · rw [overlay_of_outside hout] at hp
      exact (I.kept p v hp).imp_right fun hr => ⟨rfl, hr.2⟩
    · rw [List.length_map] at hout
      obtain ⟨j, rfl⟩ := Nat.exists_eq_add_of_le (show bch.sector * bch.sectsize ≤ p by omega)
      exact .inr ⟨rfl, div_of_lt (by omega)⟩

theorem Inv.unlabelled (I : Inv bch acc) (h : bch.nsectors ≤ bch.sector) (b : Nat → UInt8) :
    Inv { bch with buffer := b } acc := by
  refine ⟨⟨fun _ hlt => ?_, fun hd => ?_, I.kept⟩, I.cached, I.nsectors, I.sectsize⟩
  · have hlt' : bch.sector < bch.nsectors := hlt
    omega
  · have := (I.dirty hd).1
    omega

theorem Inv.readTail (I : Inv bch acc) (mem : Nat → UInt8) (sector n len : Nat)
    (ha : 0 < len → a.Done bch.sector sector bch.dirty) (h : sector < bch.nsectors) :
    Inv (bchlibReadTail a bch mem sector n len).1 acc := by
  by_cases h0 : len > 0
  · rw [bchlibReadTail, if_pos h0]
    exact (I.readsector (ha h0) h).1
  · rw [bchlibReadTail, if_neg h0]
    exact I

theorem Inv.read (I : Inv bch acc) (mem : Nat → UInt8) {offset : Nat}
    (hk : len < 1 ∨ bch.nsectors ≤ offset / bch.sectsize ∨
      ReadKeeps f bch (offset / bch.sectsize)
        (offset - offset / bch.sectsize * bch.sectsize) len) :
    Inv (bchlibRead f bch mem offset len).1 acc := by
  rw [bchlibRead]
  dsimp only
  generalize offset / bch.sectsize = q at hk ⊢
  generalize offset - q * bch.sectsize = off at hk ⊢
  by_cases h0 : len < 1
  · rw [if_pos h0]
    exact I
  rw [if_neg h0]
  by_cases hq : q ≥ bch.nsectors
  · rw [if_pos hq]
    exact I
  rw [if_neg hq]
  have hlt : q < bch.nsectors := by omega
  have hkeeps : ReadKeeps f bch q off len := by
    rcases hk with h | h | h
    · exact absurd h h0
    · exact absurd h hq
    · exact h
  unfold ReadKeeps at hkeeps
  by_cases hoff : off > 0
  · rw [if_pos hoff] at hkeeps ⊢
    obtain ⟨hfirst, hrest⟩ := hkeeps
    obtain ⟨I₁, hsame, hsector, hdirty⟩ := I.readsector hfirst hlt
    have hlead : leading (bchlibReadsector f.first bch q) off len = leading bch off len := by
      rw [leading, leading, hsame.sectsize]
    rw [hsame.nsectors, hlead]
    by_cases hend : q + 1 ≥ bch.nsectors
    · rw [if_pos hend]
      exact I₁
    · obtain ⟨hsmall, hlast⟩ := hrest.resolve_left hend
      rw [if_neg hend, bchlibReadSectors, if_neg (by rw [hsame.sectsize]; omega)]
      refine I₁.readTail _ _ _ _ (fun hpos => ?_) (by rw [hsame.nsectors]; omega)
      rw [hsector, hdirty]
      exact hlast.resolve_left (by omega)
  · rw [if_neg hoff] at hkeeps ⊢
    rw [bchlibReadSectors]
    by_cases hsmall : len < bch.sectsize
    · rw [if_pos hsmall] at hkeeps
      rw [if_neg (by omega)]
      exact I.readTail _ _ _ _ (fun _ => hkeeps) hlt
    · rw [if_neg hsmall] at hkeeps
      obtain ⟨hno, hrest⟩ := hkeeps
      rw [if_pos (by omega)]
      dsimp only
      split
      · exact I.unlabelled hno _
      · rename_i hwhole
        split
        · exact I.unlabelled hno _
        · rename_i hend
          refine (I.unlabelled hno _).readTail _ _ _ _ (fun hpos _ => ?_) (Nat.lt_of_not_le hend)
          have hclean := (I.cached.resolve_left (by omega)).2
          have hlen : ¬ len ≤ wholeSectors bch q len * bch.sectsize := Nat.not_le.mpr
            (Nat.lt_of_sub_pos hpos)
          refine ⟨fun hd => ?_, ?_⟩
          · rw [hclean] at hd
            cases hd
          · rw [hwhole] at hrest
            exact ((hrest.resolve_left (by simp)).resolve_left hend).resolve_left hlen

variable (bch) in
theorem leading_of_lt {off : Nat} (h : off + len < 4294967296) :
    leading bch off len = if off + len > bch.sectsize then bch.sectsize - off else len := by
  have hsize : toSize (off + len) = off + len := Nat.mod_eq_of_lt h
  rw [leading, hsize]

theorem Inv.writeTail (I : Inv bch acc) (data : List UInt8) (sector n : Nat)
    (ha : 0 < data.length → a.Done bch.sector sector bch.dirty) (h : sector < bch.nsectors)
    (hlen : data.length ≤ bch.sectsize) :
    Inv (bchlibWriteTail a bch data sector n).bch
        (overlay (sector * bch.sectsize) (data.map some) acc) ∧
      (bchlibWriteTail a bch data sector n).accepted = n + data.length := by
  by_cases h0 : data.length > 0
  · obtain ⟨I₁, hsame, hsector, -⟩ := I.readsector (ha h0) h
    have I₂ := I₁.patch 0 data (by rw [hsector, hsame.nsectors]; exact h)
      (by rw [hsame.sectsize]; omega)
    rw [hsector, hsame.sectsize, Nat.add_zero] at I₂
    rw [bchlibWriteTail, if_pos h0]
    exact ⟨I₂, rfl⟩
  · have hz : data = [] := List.length_eq_zero_iff.mp (by omega)
    subst hz
    rw [bchlibWriteTail, if_neg h0, List.map_nil, overlay_nil]
    exact ⟨I, rfl⟩

theorem overlay_pieces (pos nb : Nat) (data : List UInt8) (acc : Nat → Option UInt8) :
    overlay (pos + nb) ((data.drop nb).map some) (overlay pos ((data.take nb).map some) acc) =
      overlay pos (data.map some) acc := by
  rw [List.map_drop, List.map_take]
  exact overlay_take_drop nb

theorem Inv.write (I : Inv bch acc) {offset : Nat}
    (hk : data.length < 1 ∨ bch.nsectors ≤ offset / bch.sectsize ∨
      WriteKeeps f bch (offset / bch.sectsize)
        (offset - offset / bch.sectsize * bch.sectsize) data.length) :
    Inv (bchlibWrite f bch data offset).bch
      (overlay offset ((data.take (bchlibWrite f bch data offset).accepted).map some) acc) := by
  have hpos : offset / bch.sectsize * bch.sectsize +
      (offset - offset / bch.sectsize * bch.sectsize) = offset := by
    have := Nat.div_mul_le_self offset bch.sectsize
    omega
  have hmod : offset - offset / bch.sectsize * bch.sectsize < bch.sectsize := by
    have h1 := Nat.div_add_mod offset bch.sectsize
    have h2 := Nat.mod_lt offset I.sectsize.1
    rw [Nat.mul_comm] at h1
    omega
  rw [bchlibWrite]
  dsimp only
  generalize offset / bch.sectsize = q at hk hpos hmod ⊢
  generalize offset - q * bch.sectsize = off at hk hpos hmod ⊢
  have hnone : Inv bch (overlay offset ((data.take 0).map some) acc) := by
    rw [List.take_zero, List.map_nil, overlay_nil]
    exact I
  by_cases h0 : data.length < 1
  · rw [if_pos h0]
    exact hnone
  rw [if_neg h0]
  by_cases hq : q ≥ bch.nsectors
  · rw [if_pos hq]
    exact hnone
  rw [if_neg hq]
  have hlt : q < bch.nsectors := by omega
  have hkeeps : WriteKeeps f bch q off data.length := by
    rcases hk with h | h | h
    · exact absurd h h0
    · exact absurd h hq
    · exact h
  unfold WriteKeeps at hkeeps
  by_cases hoff : off > 0
  · rw [if_pos hoff] at hkeeps ⊢
    obtain ⟨hwrap, hfirst, hrest⟩ := hkeeps
    obtain ⟨I₁, hsame, hsector, hdirty⟩ := I.readsector hfirst hlt
    have hlead : leading (bchlibReadsector f.first bch q) off data.length =
        leading bch off data.length := by
      rw [leading, leading, hsame.sectsize]
    have hnb := leading_of_lt bch hwrap
    rw [hlead]
    generalize leading bch off data.length = nb at hrest hnb ⊢
    have hle : nb ≤ data.length := by
      split at hnb <;> omega
    have htake : (data.take nb).length = nb := List.length_take_of_le hle
    have I₂ := I₁.patch off (data.take nb) (by rw [hsector, hsame.nsectors]; exact hlt) (by
      rw [hsame.sectsize, htake]
      split at hnb <;> omega)
    rw [hsector, hsame.sectsize, hpos] at I₂
    have hn : ((bchlibReadsector f.first bch q).patch off (data.take nb)).nsectors =
        bch.nsectors := hsame.nsectors
    have hsz : ((bchlibReadsector f.first bch q).patch off (data.take nb)).sectsize =
        bch.sectsize := hsame.sectsize
    rw [hn]
    by_cases hend : q + 1 ≥ bch.nsectors
    · rw [if_pos hend]
      exact I₂
    · have hrest := hrest.resolve_left hend
      rw [if_neg hend, bchlibWriteSectors, hsz, List.length_drop]
      by_cases hsmall : data.length - nb < bch.sectsize
      · rw [if_pos hsmall] at hrest
        rw [if_neg (by omega)]
        obtain ⟨I₃, hacc⟩ := I₂.writeTail (data.drop nb) (q + 1) nb (fun hpos => by
            rw [List.length_drop] at hpos
            show f.last.Done (bchlibReadsector f.first bch q).sector _ true
            rw [hsector]
            exact hrest.resolve_left (by omega)) (by rw [hn]; omega)
          (by rw [hsz, List.length_drop]; omega)
        rw [hacc, List.length_drop, Nat.add_sub_cancel' hle, List.take_length]
        rw [hsz] at I₃
        have hover : overlay ((q + 1) * bch.sectsize) ((data.drop nb).map some)
            (overlay offset ((data.take nb).map some) acc) =
              overlay offset (data.map some) acc := by
          by_cases hz : data.length - nb = 0
          · rw [List.drop_eq_nil_of_le (by omega), List.map_nil, overlay_nil,
              List.take_of_length_le (by omega)]
          · have hnext : (q + 1) * bch.sectsize = offset + nb := by
              rw [Nat.succ_mul]
              split at hnb <;> omega
            rw [hnext, overlay_pieces]
        rw [hover] at I₃
        exact I₃
      · rw [if_neg hsmall] at hrest
        obtain ⟨e, he⟩ := Option.isSome_iff_exists.mp hrest
        rw [if_pos (by omega), he]
        exact I₂
  · have hoff0 : off = 0 := by omega
    rw [if_neg hoff] at hkeeps ⊢
    rw [bchlibWriteSectors]
    by_cases hsmall : data.length < bch.sectsize
    · rw [if_pos hsmall] at hkeeps
      rw [if_neg (by omega)]
      obtain ⟨I₁, hacc⟩ := I.writeTail data q 0 (fun _ => hkeeps) hlt (by omega)
      rw [hacc, Nat.zero_add, List.take_length, ← hpos, hoff0, Nat.add_zero]
      exact I₁
    · rw [if_neg hsmall] at hkeeps
      obtain ⟨e, he⟩ := Option.isSome_iff_exists.mp hkeeps
      rw [if_pos (by omega), he]
      exact hnone

end

theorem Inv.exec {s : State} {i : Op} (I : Inv s.bch s.accepted) (hk : i.keeps s) :
    Inv (i.exec s).bch (i.exec s).accepted := by
  cases i with
  | read f mem offset len => exact I.read mem hk
  | write f data offset => exact I.write hk
  | flush fails => exact (I.flush hk).1

theorem Start.inv {s : State} (h : Start s) : Inv s.bch s.accepted := by
  refine ⟨⟨fun _ hlt => ?_, fun hd => ?_, fun p v hp => ?_⟩, .inr ⟨h.sector, h.dirty⟩,
    h.nsectors, h.sectsize⟩
  · have := h.nsectors
    rw [h.sector] at hlt
    unfold noSector at hlt
    omega
  · rw [h.dirty] at hd
    cases hd
  · rw [h.accepted] at hp
    cases hp

/-- As long as calls reach no failing transfer of one sector, and whole sectors only where
that does no harm, the buffer is what its label and its flag say and no byte is lost. -/
theorem cache_truthful {s : State} (h : Reach faultyMachine Start (fun s i => i.keeps s) s) :
    Truthful s.bch s.accepted := by
  have I : Inv s.bch s.accepted := by
    apply Reach.invariant (I := fun s => Inv s.bch s.accepted) (fun _ hs => hs.inv) _ h
    intro s i s' hI _ hk he
    cases he
    exact hI.exec hk
  exact I.toTruthful

def small : State where
  bch := ⟨3, 4, noSector, false, false, fun _ => 0, fun a => UInt8.ofNat (a + 1)⟩
  accepted _ := none

theorem small_start : Start small := ⟨by decide, by decide, rfl, rfl, rfl⟩

instance (a : Attempt) (cached sector : Nat) (dirty : Bool) :
    Decidable (a.Done cached sector dirty) :=
  inferInstanceAs (Decidable (_ → _))

instance (f : Faults) (bch : Bchlib) (sector sectoffset len : Nat) :
    Decidable (ReadKeeps f bch sector sectoffset len) :=
  inferInstanceAs (Decidable (ite _ _ _))

instance (f : Faults) (bch : Bchlib) (sector sectoffset len : Nat) :
    Decidable (WriteKeeps f bch sector sectoffset len) :=
  inferInstanceAs (Decidable (ite _ _ _))

instance (s : State) : ∀ i : Op, Decidable (i.keeps s)
  | .read _ _ _ _ => inferInstanceAs (Decidable (_ ∨ _))
  | .write _ _ _ => inferInstanceAs (Decidable (_ ∨ _))
  | .flush _ => inferInstanceAs (Decidable (_ → _))

instance (s : State) : ∀ i : Op, Decidable (faultyMachine.valid s i)
  | .read _ _ _ _ => inferInstanceAs (Decidable (_ ∧ _))
  | .write _ _ _ => inferInstanceAs (Decidable (_ ∧ _))
  | .flush _ => inferInstanceAs (Decidable True)

/-- The second write fails with its whole sector, after its first byte was accepted. -/
def mixedRun : List Op :=
  [.read .none (fun _ => 0) 0 6, .write .none [20, 21, 22] 2,
    .write ⟨⟨false, none⟩, some (5, fun _ => 0), ⟨true, some fun _ => 0⟩⟩ [30, 31, 32, 33, 34] 3,
    .flush false, .read .none (fun _ => 0) 8 3]

theorem cache_truthful_run : ∃ s, runAll faultyMachine (fun s i => i.keeps s) small mixedRun =
      some s ∧ (List.range 12).map s.bch.dev = [1, 2, 20, 30, 22, 6, 7, 8, 9, 10, 11, 12] ∧
    Truthful s.bch s.accepted :=
  have h : ∃ s, runAll faultyMachine (fun s i => i.keeps s) small mixedRun = some s ∧
      (List.range 12).map s.bch.dev = [1, 2, 20, 30, 22, 6, 7, 8, 9, 10, 11, 12] := by
    decide +kernel
  h.elim fun s hs => ⟨s, hs.1, hs.2, cache_truthful (.runAll (.init small_start) hs.1)⟩

/-- A byte is written, the flush for the next call fails, and the byte is nowhere; after a
failing read the buffer is labelled with a sector that it does not hold. -/
theorem cache_not_truthful :
    (∃ s, Reachable faultyMachine Start s ∧ s.accepted 1 = some 20 ∧ s.bch.dev 1 = 2 ∧
      s.bch.dirty = false ∧ ¬ Truthful s.bch s.accepted) ∧
    ∃ s, Reachable faultyMachine Start s ∧ s.bch.dirty = false ∧ s.bch.sector = 1 ∧
      s.bch.buffer 1 = 0 ∧ s.bch.dev 5 = 6 ∧ ¬ Truthful s.bch s.accepted := by
  have hlost : ∃ s, runAll faultyMachine (fun _ _ => True) small
      [.write .none [20] 1, .read ⟨⟨true, none⟩, none, ⟨false, none⟩⟩ (fun _ => 0) 5 1] = some s ∧
        s.accepted 1 = some 20 ∧ s.bch.dev 1 = 2 ∧ s.bch.dirty = false := by
    decide +kernel
  have hlabel : ∃ s, runAll faultyMachine (fun _ _ => True) small
      [.read ⟨⟨false, some fun _ => 0⟩, none, ⟨false, none⟩⟩ (fun _ => 0) 5 1] = some s ∧
        s.bch.dirty = false ∧ s.bch.sector = 1 ∧ s.bch.buffer 1 = 0 ∧ s.bch.dev 5 = 6 ∧
          s.bch.nsectors = 3 ∧ s.bch.sectsize = 4 := by
    decide +kernel
  constructor
  · obtain ⟨s, hs, hacc, hdev, hclean⟩ := hlost
    refine ⟨s, .runAll (.init small_start) hs, hacc, hdev, hclean, fun T => ?_⟩
    rcases T.kept 1 20 hacc with hv | hv
    · rw [hdev] at hv
      cases hv
    · rw [hclean] at hv
      cases hv.1
  · obtain ⟨s, hs, hclean, hsector, hbuf, hdev, hn, hsize⟩ := hlabel
    refine ⟨s, .runAll (.init small_start) hs, hclean, hsector, hbuf, hdev, fun T => ?_⟩
    have hb := T.clean hclean (by omega) 1 (by omega)
    rw [hsector, hsize, hbuf, hdev] at hb
    cases hb

end NuttxAvr32.Bch.Faulty
