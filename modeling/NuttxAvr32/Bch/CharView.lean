import NuttxAvr32.Lib.Overlay
import NuttxAvr32.Lib.Runs

/-! # The character view of a block device

The BCH driver makes one array of bytes out of a block device. Partial sectors
pass through the one sector that `struct bchlib_s` holds; whole sectors are
transferred directly. The device is the array of its bytes and all its transfers
succeed.
-/

namespace NuttxAvr32.Bch

open Overlay Runs

def toSize (x : Nat) : Nat := x % 4294967296

def toSigned (x : Nat) : Int := Int.bmod x 4294967296

/-- `struct bchlib_s` with its block device. `buffer` is the memory from `bch->buffer`
on: the sector buffer, and what follows it. -/
structure Bchlib where
  nsectors : Nat
  sectsize : Nat
  sector : Nat
  dirty : Bool
  readonly : Bool
  buffer : Nat → UInt8
  dev : Nat → UInt8

def noSector : Nat := 4294967295

def efbig : Int := -27
def eacces : Int := -13

/-- `u.i_bops->read` and `u.i_bops->write` with `bch->buffer`. -/
def Bchlib.readBlocks (bch : Bchlib) (sector nsectors : Nat) : Bchlib :=
  { bch with
    buffer := overlay 0 (window bch.dev (sector * bch.sectsize) (nsectors * bch.sectsize))
      bch.buffer }

def Bchlib.writeBlocks (bch : Bchlib) (sector nsectors : Nat) : Bchlib :=
  { bch with
    dev := overlay (sector * bch.sectsize) (window bch.buffer 0 (nsectors * bch.sectsize))
      bch.dev }

def bchlibFlushsector (bch : Bchlib) : Bchlib :=
  if bch.dirty then { bch.writeBlocks bch.sector 1 with dirty := false } else bch

def bchlibReadsector (bch : Bchlib) (sector : Nat) : Bchlib :=
  if bch.sector ≠ sector then
    let bch := { bchlibFlushsector bch with sector := noSector }
    { bch.readBlocks sector 1 with sector := sector }
  else bch

/-- The last step of `bchlib_read`: `mem` is the memory from the caller's buffer on, of
which `bytesread` bytes are done. -/
def bchlibReadTail (bch : Bchlib) (mem : Nat → UInt8) (sector bytesread len : Nat) :
    Bchlib × (Nat → UInt8) × Int :=
  if len > 0 then
    let bch := bchlibReadsector bch sector
    (bch, overlay bytesread (window bch.buffer 0 len) mem, toSigned (bytesread + len))
  else (bch, mem, toSigned bytesread)

def wholeSectors (bch : Bchlib) (sector len : Nat) : Nat :=
  let nsectors := len / bch.sectsize
  if toSize (sector + nsectors) > bch.nsectors then bch.nsectors - sector else nsectors

def bchlibReadSectors (bch : Bchlib) (mem : Nat → UInt8) (sector bytesread len : Nat) :
    Bchlib × (Nat → UInt8) × Int :=
  if len ≥ bch.sectsize then
    let nsectors := wholeSectors bch sector len
    let bch := bch.readBlocks sector nsectors
    let nbytes := nsectors * bch.sectsize
    if toSize (sector + nsectors) ≥ bch.nsectors then (bch, mem, toSigned (bytesread + nbytes))
    else bchlibReadTail bch mem (toSize (sector + nsectors)) (bytesread + nbytes) (len - nbytes)
  else bchlibReadTail bch mem sector bytesread len

def leading (bch : Bchlib) (sectoffset len : Nat) : Nat :=
  if toSize (sectoffset + len) > bch.sectsize then bch.sectsize - sectoffset else len

def bchlibRead (bch : Bchlib) (mem : Nat → UInt8) (offset len : Nat) :
    Bchlib × (Nat → UInt8) × Int :=
  let sector := offset / bch.sectsize
  let sectoffset := offset - sector * bch.sectsize
  if len < 1 then (bch, mem, 0)
  else if sector ≥ bch.nsectors then (bch, mem, 0)
  else if sectoffset > 0 then
    let bch := bchlibReadsector bch sector
    let nbytes := leading bch sectoffset len
    let mem := overlay 0 (window bch.buffer sectoffset nbytes) mem
    if sector + 1 ≥ bch.nsectors then (bch, mem, toSigned nbytes)
    else bchlibReadSectors bch mem (sector + 1) nbytes (len - nbytes)
  else bchlibReadSectors bch mem sector 0 len

def Bchlib.patch (bch : Bchlib) (sectoffset : Nat) (data : List UInt8) : Bchlib :=
  { bch with
    buffer := overlay sectoffset data bch.buffer
    dirty := true }

def bchlibWriteTail (bch : Bchlib) (data : List UInt8) (sector byteswritten : Nat) : Bchlib × Int :=
  if data.length > 0 then
    ((bchlibReadsector bch sector).patch 0 data, toSigned (byteswritten + data.length))
  else (bch, toSigned byteswritten)

def bchlibWriteSectors (bch : Bchlib) (data : List UInt8) (sector byteswritten : Nat) :
    Bchlib × Int :=
  if data.length ≥ bch.sectsize then
    let nsectors := wholeSectors bch sector data.length
    let bch := bch.writeBlocks sector nsectors
    let nbytes := nsectors * bch.sectsize
    if toSize (sector + nsectors) ≥ bch.nsectors then (bch, toSigned (byteswritten + nbytes))
    else bchlibWriteTail bch (data.drop nbytes) (toSize (sector + nsectors))
      (byteswritten + nbytes)
  else bchlibWriteTail bch data sector byteswritten

def bchlibWrite (bch : Bchlib) (data : List UInt8) (offset : Nat) : Bchlib × Int :=
  let sector := offset / bch.sectsize
  let sectoffset := offset - sector * bch.sectsize
  if data.length < 1 then (bch, 0)
  else if sector ≥ bch.nsectors then (bch, efbig)
  else if sectoffset > 0 then
    let bch := bchlibReadsector bch sector
    let nbytes := leading bch sectoffset data.length
    let bch := bch.patch sectoffset (data.take nbytes)
    if sector + 1 ≥ bch.nsectors then (bch, toSigned nbytes)
    else bchlibWriteSectors bch (data.drop nbytes) (sector + 1) nbytes
  else bchlibWriteSectors bch data sector 0

/-- What a call leaves: the driver, the memory from the caller's buffer on, the value
returned and `f_pos`. -/
structure Done where
  bch : Bchlib
  mem : Nat → UInt8
  ret : Int
  fPos : Int

/-- `filp->f_pos += len` where the call returned something. -/
def advance (fPos len : Nat) (ret : Int) : Int :=
  if ret > 0 then toSigned (fPos + len) else fPos

def bchRead (bch : Bchlib) (mem : Nat → UInt8) (fPos len : Nat) : Done :=
  let r := bchlibRead bch mem fPos len
  ⟨r.1, r.2.1, r.2.2, advance fPos len r.2.2⟩

def bchWrite (bch : Bchlib) (data : List UInt8) (fPos : Nat) : Bchlib × Int × Int :=
  if bch.readonly = false then
    let r := bchlibWrite bch data fPos
    (r.1, r.2, advance fPos data.length r.2)
  else (bch, eacces, fPos)

/-- The driver, and the array of bytes that its calls should have left. -/
structure State where
  bch : Bchlib
  array : Nat → UInt8

def State.size (s : State) : Nat := s.bch.nsectors * s.bch.sectsize

def State.count (s : State) (fPos len : Nat) : Nat := min (fPos + len) s.size - fPos

inductive Op
  | read (mem : Nat → UInt8) (fPos len : Nat)
  | write (data : List UInt8) (fPos : Nat)
  | flush

def Op.exec (s : State) : Op → State
  | read mem fPos len => { s with bch := (bchRead s.bch mem fPos len).bch }
  | write data fPos =>
      ⟨(bchWrite s.bch data fPos).1, overlay fPos (data.take (s.count fPos data.length)) s.array⟩
  | flush => { s with bch := bchlibFlushsector s.bch }

/-- A position is not negative, a length fits `size_t`. -/
def Op.valid : Op → Prop
  | read _ fPos len => fPos < 2147483648 ∧ len < 4294967296
  | write data fPos => fPos < 2147483648 ∧ data.length < 4294967296
  | flush => True

/-- The transfer of `len` bytes at `pos` lies on the device and reaches no whole sector. -/
structure Short (bch : Bchlib) (pos len : Nat) : Prop where
  inside : pos + len ≤ bch.nsectors * bch.sectsize
  small : pos + len < 2147483648
  short : if pos % bch.sectsize = 0 then len < bch.sectsize
    else pos % bch.sectsize + len < 2 * bch.sectsize

def Op.keeps (s : State) : Op → Prop
  | read _ fPos len => len = 0 ∨ s.size ≤ fPos ∨ Short s.bch fPos len
  | write data fPos => s.bch.readonly = false ∧ (data.length = 0 ∨ Short s.bch fPos data.length)
  | flush => True

def Holds (s : State) (dev : Nat → UInt8) : Prop := ∀ a < s.size, dev a = s.array a

/-- The call does to the caller and to the flushed device what it would do with one
array of bytes. -/
def Op.Right (s : State) : Op → Prop
  | read mem fPos len =>
      let r := bchRead s.bch mem fPos len
      r.ret = s.count fPos len ∧ r.fPos = fPos + s.count fPos len ∧
        r.mem = overlay 0 (window s.array fPos (s.count fPos len)) mem ∧
        Holds s (bchlibFlushsector r.bch).dev
  | write data fPos =>
      let r := bchWrite s.bch data fPos
      r.2.1 = s.count fPos data.length ∧ r.2.2 = fPos + s.count fPos data.length ∧
        Holds ((Op.write data fPos).exec s) (bchlibFlushsector r.1).dev
  | flush => Holds s (bchlibFlushsector s.bch).dev

def bchMachine : Machine State Op where
  valid _ i := i.valid
  exec s i := some (i.exec s)

structure Start (s : State) : Prop where
  nsectors : s.bch.nsectors < 4294967296
  sectsize : 0 < s.bch.sectsize ∧ s.bch.sectsize < 65536
  sector : s.bch.sector = noSector
  dirty : s.bch.dirty = false
  array : s.array = s.bch.dev

/-- The buffered sector is a sector of the device. A clean buffer is that sector, and
the flushed device is the array. -/
structure Inv (bch : Bchlib) (array : Nat → UInt8) : Prop where
  cached : bch.sector < bch.nsectors ∨ bch.sector = noSector ∧ bch.dirty = false
  clean : bch.dirty = false → bch.sector < bch.nsectors → ∀ i < bch.sectsize,
    bch.buffer i = bch.dev (bch.sector * bch.sectsize + i)
  view : (bchlibFlushsector bch).dev = array
  nsectors : bch.nsectors < 4294967296
  sectsize : 0 < bch.sectsize ∧ bch.sectsize < 65536

structure Same (bch bch' : Bchlib) : Prop where
  nsectors : bch'.nsectors = bch.nsectors
  sectsize : bch'.sectsize = bch.sectsize
  readonly : bch'.readonly = bch.readonly

section

variable {bch : Bchlib} {array mem : Nat → UInt8} {sector len : Nat} {data : List UInt8}

theorem Same.trans {b c : Bchlib} (h : Same bch b) (h' : Same b c) : Same bch c :=
  ⟨h'.nsectors.trans h.nsectors, h'.sectsize.trans h.sectsize, h'.readonly.trans h.readonly⟩

theorem flush_same (bch : Bchlib) : Same bch (bchlibFlushsector bch) := by
  unfold bchlibFlushsector
  split
  · exact ⟨rfl, rfl, rfl⟩
  · exact ⟨rfl, rfl, rfl⟩

theorem flush_clean : (bchlibFlushsector bch).dirty = false := by
  unfold bchlibFlushsector
  split
  · rfl
  · rename_i h
    simpa using h

theorem flush_of_clean (h : bch.dirty = false) : bchlibFlushsector bch = bch := by
  rw [bchlibFlushsector, if_neg (by simp [h])]

theorem Inv.flushed (I : Inv bch array) (h : bch.sector < bch.nsectors) :
    overlay (bch.sector * bch.sectsize) (window bch.buffer 0 bch.sectsize) bch.dev = array := by
  rw [← I.view]
  by_cases hd : bch.dirty = true
  · rw [bchlibFlushsector, if_pos hd, Bchlib.writeBlocks, Nat.one_mul]
  · have hclean : bch.dirty = false := by simpa using hd
    rw [flush_of_clean hclean]
    exact overlay_window_of (I.clean hclean h)

theorem Inv.buffered (I : Inv bch array) (h : bch.sector < bch.nsectors) {i : Nat}
    (hi : i < bch.sectsize) : bch.buffer i = array (bch.sector * bch.sectsize + i) := by
  rw [← I.flushed h, overlay_of_mem (by simpa using hi)]
  simp [window]

theorem Inv.flush (I : Inv bch array) : Inv (bchlibFlushsector bch) array := by
  have hs := flush_same bch
  have hsector : (bchlibFlushsector bch).sector = bch.sector := by
    unfold bchlibFlushsector
    split <;> rfl
  have hbuffer : (bchlibFlushsector bch).buffer = bch.buffer := by
    unfold bchlibFlushsector
    split <;> rfl
  refine ⟨?_, fun _ h i hi => ?_, ?_, hs.nsectors ▸ I.nsectors, hs.sectsize ▸ I.sectsize⟩
  · rw [hsector, hs.nsectors]
    exact I.cached.imp_right fun h => ⟨h.1, flush_clean⟩
  · rw [hsector, hs.nsectors] at h
    rw [hs.sectsize] at hi
    rw [hbuffer, hsector, hs.sectsize, I.view]
    exact I.buffered h hi
  · rw [flush_of_clean flush_clean]
    exact I.view

theorem Inv.readsector (I : Inv bch array) (h : sector < bch.nsectors) :
    Inv (bchlibReadsector bch sector) array ∧ Same bch (bchlibReadsector bch sector) ∧
      (bchlibReadsector bch sector).sector = sector := by
  by_cases hs : bch.sector = sector
  · rw [bchlibReadsector, if_neg (by simpa using hs)]
    exact ⟨I, ⟨rfl, rfl, rfl⟩, hs⟩
  · have F := I.flush
    have hsame := flush_same bch
    rw [bchlibReadsector, if_pos hs]
    refine ⟨⟨.inl (hsame.nsectors.symm ▸ h), fun _ _ i hi => ?_, ?_, F.nsectors, F.sectsize⟩,
      ⟨hsame.nsectors, hsame.sectsize, hsame.readonly⟩, rfl⟩
    · have hi' : i < (bchlibFlushsector bch).sectsize := hi
      simp only [Bchlib.readBlocks]
      exact overlay_window_apply (by simpa using hi')
    · refine (congrArg Bchlib.dev (flush_of_clean ?_)).trans I.view
      exact flush_clean

theorem Inv.patch (I : Inv bch array) (off : Nat) (data : List UInt8)
    (h : bch.sector < bch.nsectors)
    (hoff : off + data.length ≤ bch.sectsize) :
    Inv (bch.patch off data) (overlay (bch.sector * bch.sectsize + off) data array) := by
  refine ⟨.inl h, fun hd => (by cases hd), ?_, I.nsectors, I.sectsize⟩
  rw [← I.flushed h]
  show overlay (bch.sector * bch.sectsize) (window (overlay off data bch.buffer) 0
    (1 * bch.sectsize)) bch.dev = _
  rw [Nat.one_mul]
  exact overlay_window_overlay hoff

theorem toSigned_of_lt {n : Nat} (h : n < 2147483648) : toSigned n = n := by
  apply Int.bmod_eq_of_le
  · omega
  · omega

theorem Inv.readTail (I : Inv bch array) (sector len done : Nat) (mem : Nat → UInt8)
    (h : 0 < len → sector < bch.nsectors)
    (hlen : len ≤ bch.sectsize) (hdone : done + len < 2147483648) :
    Inv (bchlibReadTail bch mem sector done len).1 array ∧
      Same bch (bchlibReadTail bch mem sector done len).1 ∧
      (bchlibReadTail bch mem sector done len).2 =
        (overlay done (window array (sector * bch.sectsize) len) mem, ((done + len : Nat) : Int)) := by
  by_cases h0 : len > 0
  · obtain ⟨I', hs, hsector⟩ := I.readsector (h h0)
    have hbuf : window (bchlibReadsector bch sector).buffer 0 len =
        window array (sector * bch.sectsize) len := by
      refine window_congr fun i hi => ?_
      rw [Nat.zero_add, I'.buffered (by rw [hsector, hs.nsectors]; exact h h0)
        (by rw [hs.sectsize]; omega), hsector, hs.sectsize]
    rw [bchlibReadTail, if_pos h0]
    dsimp only
    rw [hbuf, toSigned_of_lt hdone]
    exact ⟨I', hs, rfl⟩
  · have hz : len = 0 := by omega
    subst hz
    rw [bchlibReadTail, if_neg h0]
    exact ⟨I, ⟨rfl, rfl, rfl⟩, by rw [toSigned_of_lt (by omega)]; simp [window]⟩

theorem Inv.writeTail (I : Inv bch array) (sector done : Nat) (data : List UInt8)
    (h : 0 < data.length → sector < bch.nsectors)
    (hlen : data.length ≤ bch.sectsize) (hdone : done + data.length < 2147483648) :
    Inv (bchlibWriteTail bch data sector done).1 (overlay (sector * bch.sectsize) data array) ∧
      Same bch (bchlibWriteTail bch data sector done).1 ∧
      (bchlibWriteTail bch data sector done).2 = ((done + data.length : Nat) : Int) := by
  by_cases h0 : data.length > 0
  · obtain ⟨I', hs, hsector⟩ := I.readsector (h h0)
    have I₂ := I'.patch 0 data (by rw [hsector, hs.nsectors]; exact h h0)
      (by rw [hs.sectsize]; omega)
    rw [hsector, hs.sectsize, Nat.add_zero] at I₂
    rw [bchlibWriteTail, if_pos h0]
    dsimp only
    rw [toSigned_of_lt hdone]
    exact ⟨I₂, ⟨hs.nsectors, hs.sectsize, hs.readonly⟩, rfl⟩
  · have hz : data = [] := List.length_eq_zero_iff.mp (by omega)
    subst hz
    rw [bchlibWriteTail, if_neg h0, overlay_nil, List.length_nil, Nat.add_zero,
      toSigned_of_lt (by omega)]
    exact ⟨I, ⟨rfl, rfl, rfl⟩, rfl⟩

theorem Short.split {pos : Nat} (I : Inv bch array) (h : Short bch pos len) (h0 : 0 < len) :
    ∃ q off, pos / bch.sectsize = q ∧ pos - q * bch.sectsize = off ∧
      pos = q * bch.sectsize + off ∧ off < bch.sectsize ∧ q < bch.nsectors ∧
      (off = 0 → len < bch.sectsize) ∧ (0 < off → off + len < 2 * bch.sectsize) ∧
      (bch.nsectors ≤ q + 1 → off + len ≤ bch.sectsize) := by
  have hS := I.sectsize.1
  have hdiv := Nat.div_add_mod pos bch.sectsize
  have hmod := Nat.mod_lt pos hS
  rw [Nat.mul_comm] at hdiv
  have hin := h.inside
  have hq : pos / bch.sectsize < bch.nsectors := Nat.div_lt_of_lt_mul (by
    rw [Nat.mul_comm]
    omega)
  have hshort := h.short
  refine ⟨_, _, rfl, rfl, by omega, by omega, hq, fun h1 => ?_, fun h1 => ?_, fun h1 => ?_⟩
  · rw [if_pos (by omega)] at hshort
    exact hshort
  · rw [if_neg (by omega)] at hshort
    omega
  · have hle := Nat.mul_le_mul_right bch.sectsize h1
    rw [Nat.succ_mul] at hle
    omega

theorem leading_eq {off : Nat} (I : Inv bch array)
    (h : off + len < 2 * bch.sectsize) :
    leading bch off len = if off + len > bch.sectsize then bch.sectsize - off else len := by
  have hS := I.sectsize.2
  have hsize : toSize (off + len) = off + len := Nat.mod_eq_of_lt (by omega)
  rw [leading, hsize]

theorem Inv.read (I : Inv bch array) {pos : Nat} (mem : Nat → UInt8) (h : Short bch pos len) :
    Inv (bchlibRead bch mem pos len).1 array ∧ Same bch (bchlibRead bch mem pos len).1 ∧
      (bchlibRead bch mem pos len).2 = (overlay 0 (window array pos len) mem, (len : Int)) := by
  have hsmall := h.small
  by_cases h0 : len < 1
  · have hz : len = 0 := by omega
    subst hz
    rw [bchlibRead]
    dsimp only
    rw [if_pos h0]
    exact ⟨I, ⟨rfl, rfl, rfl⟩, by simp [window]⟩
  · obtain ⟨q, off, hq, ho, hpos, hoff, hlt, hwhole, hboth, hlast⟩ := h.split I (by omega)
    rw [bchlibRead]
    dsimp only
    rw [if_neg h0, hq, ho, if_neg (by omega)]
    by_cases hz : off > 0
    · obtain ⟨I', hs, hsector⟩ := I.readsector hlt
      obtain ⟨nb, hnb⟩ : ∃ nb, leading (bchlibReadsector bch q) off len = nb := ⟨_, rfl⟩
      have hlead : nb = if off + len > bch.sectsize then bch.sectsize - off else len := by
        rw [← hnb, leading_eq I' (hs.sectsize.symm ▸ hboth hz),
          hs.sectsize]
      have hfirst : window (bchlibReadsector bch q).buffer off nb = window array pos nb := by
        refine window_congr fun i hi => ?_
        have hb := I'.buffered (i := off + i) (by rw [hsector, hs.nsectors]; exact hlt) (by
          rw [hs.sectsize]
          split at hlead <;> omega)
        rw [hb, hsector, hs.sectsize, hpos, Nat.add_assoc]
      rw [if_pos hz, hnb, hfirst, hs.nsectors]
      by_cases hend : q + 1 ≥ bch.nsectors
      · have hall := hlast hend
        rw [if_neg (by omega)] at hlead
        subst hlead
        rw [if_pos hend, toSigned_of_lt (by omega)]
        exact ⟨I', hs, rfl⟩
      · -- The rest lies in the next sector.
        have hrest : len - nb < bch.sectsize := by
          have := hboth hz
          split at hlead <;> omega
        have hnext : 0 < len - nb → (q + 1) * bch.sectsize = pos + nb := by
          rw [Nat.succ_mul]
          split at hlead <;> omega
        rw [if_neg hend, bchlibReadSectors, hs.sectsize, if_neg (by omega)]
        have hle : nb + (len - nb) = len := by
          split at hlead <;> omega
        obtain ⟨I₂, hs₂, hr⟩ := I'.readTail (q + 1) (len - nb) nb
          (overlay 0 (window array pos nb) mem) (fun _ => by rw [hs.nsectors]; omega)
          (by rw [hs.sectsize]; omega) (by omega)
        refine ⟨I₂, hs.trans hs₂, ?_⟩
        rw [hr, hs.sectsize, hle]
        have hwin : window array ((q + 1) * bch.sectsize) (len - nb) =
            window array (pos + nb) (len - nb) := by
          by_cases h1 : 0 < len - nb
          · rw [hnext h1]
          · rw [show len - nb = 0 by omega]
            rfl
        have happ : overlay (0 + (window array pos nb).length) (window array (pos + nb) (len - nb))
            (overlay 0 (window array pos nb) mem) =
              overlay 0 (window array pos nb ++ window array (pos + nb) (len - nb)) mem :=
          overlay_append
        rw [length_window, Nat.zero_add, ← window_append, hle] at happ
        rw [hwin, happ]
    · have hoff0 : off = 0 := by omega
      have hlen := hwhole hoff0
      rw [if_neg hz, bchlibReadSectors, if_neg (by omega)]
      obtain ⟨I₂, hs₂, hr⟩ := I.readTail q len 0 mem
        (fun _ => hlt) (by omega) (by omega)
      refine ⟨I₂, hs₂, ?_⟩
      rw [hr, Nat.zero_add, hpos, hoff0, Nat.add_zero]

theorem Inv.write (I : Inv bch array) {pos : Nat} (h : Short bch pos data.length) :
    Inv (bchlibWrite bch data pos).1 (overlay pos data array) ∧
      Same bch (bchlibWrite bch data pos).1 ∧
      (bchlibWrite bch data pos).2 = (data.length : Int) := by
  have hsmall := h.small
  by_cases h0 : data.length < 1
  · have hz : data = [] := List.length_eq_zero_iff.mp (by omega)
    subst hz
    rw [bchlibWrite]
    dsimp only
    rw [if_pos h0, overlay_nil]
    exact ⟨I, ⟨rfl, rfl, rfl⟩, rfl⟩
  · obtain ⟨q, off, hq, ho, hpos, hoff, hlt, hwhole, hboth, hlast⟩ := h.split I (by omega)
    rw [bchlibWrite]
    dsimp only
    rw [if_neg h0, hq, ho, if_neg (by omega)]
    by_cases hz : off > 0
    · obtain ⟨I', hs, hsector⟩ := I.readsector hlt
      obtain ⟨nb, hnb⟩ : ∃ nb, leading (bchlibReadsector bch q) off data.length = nb := ⟨_, rfl⟩
      have hlead : nb = if off + data.length > bch.sectsize then bch.sectsize - off
          else data.length := by
        rw [← hnb, leading_eq I' (hs.sectsize.symm ▸ hboth hz),
          hs.sectsize]
      have hle : nb ≤ data.length := by
        split at hlead <;> omega
      have htake : (data.take nb).length = nb := List.length_take_of_le hle
      have I₁ := I'.patch off (data.take nb)
        (by rw [hsector, hs.nsectors]; exact hlt) (by
          rw [hs.sectsize, htake]
          split at hlead <;> omega)
      rw [hsector, hs.sectsize, ← hpos] at I₁
      have hs₁ : Same bch ((bchlibReadsector bch q).patch off (data.take nb)) :=
        ⟨hs.nsectors, hs.sectsize, hs.readonly⟩
      rw [if_pos hz, hnb, hs₁.nsectors]
      by_cases hend : q + 1 ≥ bch.nsectors
      · have hall := hlast hend
        rw [if_neg (by omega)] at hlead
        rw [if_pos hend, toSigned_of_lt (by omega), hlead]
        rw [hlead, List.take_length] at I₁ hs₁
        rw [List.take_length]
        exact ⟨I₁, hs₁, rfl⟩
      · have hrest : data.length - nb < bch.sectsize := by
          have := hboth hz
          split at hlead <;> omega
        have hnext : 0 < data.length - nb → (q + 1) * bch.sectsize = pos + nb := by
          rw [Nat.succ_mul]
          split at hlead <;> omega
        rw [if_neg hend, bchlibWriteSectors, hs₁.sectsize, List.length_drop, if_neg (by omega)]
        obtain ⟨I₂, hs₂, hr⟩ := I₁.writeTail (q + 1) nb (data.drop nb)
          (fun _ => by rw [hs₁.nsectors]; omega)
          (by rw [hs₁.sectsize, List.length_drop]; omega) (by rw [List.length_drop]; omega)
        have hover : overlay ((q + 1) * bch.sectsize) (data.drop nb)
            (overlay pos (data.take nb) array) = overlay pos data array := by
          by_cases h1 : 0 < data.length - nb
          · rw [hnext h1, overlay_take_drop]
          · rw [List.drop_eq_nil_of_le (by omega), overlay_nil, List.take_of_length_le (by omega)]
        rw [hs₁.sectsize, hover] at I₂
        refine ⟨I₂, hs₁.trans hs₂, ?_⟩
        rw [hr, List.length_drop, Nat.add_sub_cancel' hle]
    · have hoff0 : off = 0 := by omega
      have hlen := hwhole hoff0
      rw [if_neg hz, bchlibWriteSectors, if_neg (by omega)]
      obtain ⟨I₂, hs₂, hr⟩ := I.writeTail q 0 data
        (fun _ => hlt) (by omega) (by omega)
      rw [hoff0, Nat.add_zero] at hpos
      rw [hpos]
      exact ⟨I₂, hs₂, by rw [hr, Nat.zero_add]⟩

end

section

variable {s s' : State} {i : Op} {fPos len : Nat} {mem : Nat → UInt8} {data : List UInt8}

theorem count_of_short (h : Short s.bch fPos len) : s.count fPos len = len := by
  have hin : fPos + len ≤ s.size := h.inside
  unfold State.count
  omega

theorem advance_of_lt (h : fPos + len < 2147483648) :
    advance fPos len (len : Int) = ((fPos + len : Nat) : Int) := by
  unfold advance
  split
  · exact toSigned_of_lt h
  · rename_i h0
    have hz : len = 0 := by omega
    rw [hz, Nat.add_zero]

theorem bchlibRead_none (mem : Nat → UInt8) (I : Inv s.bch s.array) (h : len = 0 ∨ s.size ≤ fPos) :
    bchlibRead s.bch mem fPos len = (s.bch, mem, 0) := by
  rw [bchlibRead]
  dsimp only
  rcases h with rfl | h
  · rw [if_pos (by omega)]
  · have hq : s.bch.nsectors ≤ fPos / s.bch.sectsize :=
      (Nat.le_div_iff_mul_le I.sectsize.1).mpr h
    rw [if_pos (show fPos / s.bch.sectsize ≥ s.bch.nsectors from hq), ite_self]

theorem Inv.right_read (I : Inv s.bch s.array)
    (h : len = 0 ∨ s.size ≤ fPos ∨ Short s.bch fPos len) :
    Inv (bchRead s.bch mem fPos len).bch s.array ∧ (Op.read mem fPos len).Right s := by
  by_cases hs : Short s.bch fPos len
  · obtain ⟨I', -, hr⟩ := I.read mem hs
    have hcount := count_of_short hs
    refine ⟨I', ?_, ?_, ?_, fun a _ => congrFun I'.view a⟩
    · rw [hcount]
      exact congrArg Prod.snd hr
    · rw [hcount]
      show advance fPos len (bchlibRead s.bch mem fPos len).2.2 = _
      rw [hr]
      exact advance_of_lt hs.small
    · rw [hcount]
      exact congrArg Prod.fst hr
  · have hnone : len = 0 ∨ s.size ≤ fPos := by tauto
    have he := bchlibRead_none mem I hnone
    have hcount : s.count fPos len = 0 := by
      unfold State.count
      omega
    have hbch : (bchRead s.bch mem fPos len).bch = s.bch := congrArg Prod.fst he
    have hret : (bchRead s.bch mem fPos len).ret = 0 := congrArg (fun r => r.2.2) he
    refine ⟨by rw [hbch]; exact I, ?_, ?_, ?_, ?_⟩
    · rw [hcount]
      exact hret
    · rw [hcount]
      show advance fPos len (bchRead s.bch mem fPos len).ret = _
      rw [hret]
      rfl
    · rw [hcount]
      have hm : (bchRead s.bch mem fPos len).mem = mem := congrArg (fun r => r.2.1) he
      simpa [window] using hm
    · rw [hbch]
      exact fun a _ => congrFun I.view a

theorem Inv.right_write (I : Inv s.bch s.array) (hw : s.bch.readonly = false)
    (h : data.length = 0 ∨ Short s.bch fPos data.length) :
    Inv ((Op.write data fPos).exec s).bch ((Op.write data fPos).exec s).array ∧
      (Op.write data fPos).Right s := by
  by_cases hs : Short s.bch fPos data.length
  · obtain ⟨I', hsame, hr⟩ := I.write hs
    have hcount := count_of_short hs
    have hdone : bchWrite s.bch data fPos = ((bchlibWrite s.bch data fPos).1,
        (bchlibWrite s.bch data fPos).2, advance fPos data.length
          (bchlibWrite s.bch data fPos).2) := if_pos hw
    have hexec : (Op.write data fPos).exec s =
        ⟨(bchlibWrite s.bch data fPos).1, overlay fPos data s.array⟩ := by
      rw [Op.exec, hdone, hcount, List.take_length]
    refine ⟨hexec ▸ I', ?_, ?_, fun a _ => ?_⟩
    · rw [hcount, hdone]
      exact hr
    · rw [hcount, hdone, hr]
      exact advance_of_lt hs.small
    · rw [hexec, hdone]
      exact congrFun I'.view a
  · have hz : data = [] := List.length_eq_zero_iff.mp (h.resolve_right hs)
    subst hz
    have hdone : bchWrite s.bch [] fPos = (s.bch, (0 : Int), (fPos : Int)) := by
      rw [bchWrite, if_pos hw]
      rfl
    have hcount : s.count fPos 0 = 0 := by
      unfold State.count
      omega
    have hexec : (Op.write [] fPos).exec s = s := by
      rw [Op.exec, hdone, List.take_nil, overlay_nil]
    refine ⟨hexec.symm ▸ I, ?_, ?_, fun a _ => ?_⟩
    · rw [hdone, List.length_nil, hcount]
      rfl
    · rw [hdone, List.length_nil, hcount]
      exact (Int.add_zero _).symm
    · rw [hexec, hdone]
      exact congrFun I.view a

theorem Inv.exec (I : Inv s.bch s.array) (hk : i.keeps s) :
    Inv (i.exec s).bch (i.exec s).array ∧ i.Right s := by
  cases i with
  | read mem fPos len => exact I.right_read hk
  | write data fPos => exact I.right_write hk.1 hk.2
  | flush => exact ⟨I.flush, fun a _ => congrFun I.view a⟩

theorem Start.inv (h : Start s) : Inv s.bch s.array := by
  refine ⟨.inr ⟨h.sector, h.dirty⟩, fun _ hlt => ?_, ?_, h.nsectors, h.sectsize⟩
  · rw [h.sector] at hlt
    have := h.nsectors
    unfold noSector at hlt
    omega
  · rw [flush_of_clean h.dirty, h.array]

end

/-- As long as transfers stay on the device and reach no whole sector, the calls are
reads and writes of one array of bytes, and a flush leaves the device with it. -/
theorem char_view {s : State} (h : Reach bchMachine Start (fun s i => i.keeps s) s) :
    Holds s (bchlibFlushsector s.bch).dev ∧ ∀ i : Op, i.valid → i.keeps s → i.Right s := by
  have I : Inv s.bch s.array := by
    apply Reach.invariant (I := fun s => Inv s.bch s.array) (fun _ hs => hs.inv) _ h
    intro s i s' hI _ hk he
    cases he
    exact (hI.exec hk).1
  exact ⟨fun a _ => congrFun I.view a, fun i _ hk => (I.exec hk).2⟩

def small : State where
  bch := ⟨3, 4, noSector, false, false, fun _ => 0, fun a => UInt8.ofNat (a + 1)⟩
  array a := UInt8.ofNat (a + 1)

theorem small_start : Start small := ⟨by decide, by decide, rfl, rfl, rfl⟩

instance (bch : Bchlib) (pos len : Nat) : Decidable (Short bch pos len) :=
  decidable_of_iff (pos + len ≤ bch.nsectors * bch.sectsize ∧ pos + len < 2147483648 ∧
    if pos % bch.sectsize = 0 then len < bch.sectsize
    else pos % bch.sectsize + len < 2 * bch.sectsize)
    ⟨fun h => ⟨h.1, h.2.1, h.2.2⟩, fun h => ⟨h.inside, h.small, h.short⟩⟩

instance (s : State) : ∀ i : Op, Decidable (i.keeps s)
  | .read _ _ _ => inferInstanceAs (Decidable (_ ∨ _))
  | .write _ _ => inferInstanceAs (Decidable (_ ∧ _))
  | .flush => inferInstanceAs (Decidable True)

instance (s : State) : ∀ i : Op, Decidable (bchMachine.valid s i)
  | .read _ _ _ => inferInstanceAs (Decidable (_ ∧ _))
  | .write _ _ => inferInstanceAs (Decidable (_ ∧ _))
  | .flush => inferInstanceAs (Decidable True)

theorem char_view_run : ∃ s, runAll bchMachine (fun s i => i.keeps s) small
      [.write [20, 21, 22] 2, .read (fun _ => 0) 1 6, .write [30] 9, .flush,
        .read (fun _ => 0) 12 5] = some s ∧
    (List.range 12).map s.bch.dev = [1, 2, 20, 21, 22, 6, 7, 8, 9, 30, 11, 12] ∧
      Holds s (bchlibFlushsector s.bch).dev :=
  have h : ∃ s, runAll bchMachine (fun s i => i.keeps s) small
      [.write [20, 21, 22] 2, .read (fun _ => 0) 1 6, .write [30] 9, .flush,
        .read (fun _ => 0) 12 5] = some s ∧
      (List.range 12).map s.bch.dev = [1, 2, 20, 21, 22, 6, 7, 8, 9, 30, 11, 12] := by
    decide +kernel
  h.elim fun s hs => ⟨s, hs.1, hs.2, (char_view (.runAll (.init small_start) hs.1)).1⟩

/-- The first whole sector goes to the sector buffer and not to the caller, a whole sector
is written from there, a read over the end moves `f_pos` behind it, and a write at the end
is refused. -/
theorem char_view_broken : ∃ s, Reachable bchMachine Start s ∧
    ¬ (Op.read (fun _ => 0) 0 4).Right s ∧ ¬ (Op.write [20, 21, 22, 23] 0).Right s ∧
      ¬ (Op.read (fun _ => 0) 10 4).Right s ∧ ¬ (Op.write [20] 12).Right s := by
  refine ⟨small, .init small_start, fun h => ?_, fun h => ?_, fun h => ?_, fun h => ?_⟩
  · have hm : (0 : UInt8) = 1 := congrFun h.2.2.1 0
    cases hm
  · have hd : (0 : UInt8) = 20 := h.2.2 0 (by decide)
    cases hd
  · have hp : (14 : Int) = 12 := h.2.1
    cases hp
  · have hr : (-27 : Int) = 0 := h.1
    cases hr

end NuttxAvr32.Bch
