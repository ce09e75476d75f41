import NuttxAvr32.Lib.Overlay
import NuttxAvr32.Lib.Runs
import Mathlib.Algebra.Ring.Int.Defs
import Mathlib.Algebra.Ring.Nat

/-! # The loop device

A file as a block device. The counts of `read` and `write` are kept in an unsigned variable, so the
tests for a negative one never hold.
-/

namespace NuttxAvr32.Loop

open Overlay Runs

def eio : Nat := 5

def eintr : Nat := 4

def emfile : Nat := 24

/-- `MAX_OPENCNT`, the limit of `uint8_t`. -/
def maxOpencnt : Nat := 255

/-- What lies behind the descriptor: the file and the position in it. -/
structure File where
  bytes : Nat → Nat
  size : Nat
  pos : Nat

structure LoopStruct where
  sem : Nat
  nsectors : Nat
  offset : Nat
  sectsize : Nat
  opencnt : Nat
  writeenabled : Bool
  file : File

/-- What `read` and `write` do when they are called: some bytes are moved, or none and `errno` is
set. -/
inductive Answer
  | moved (k : Nat)
  | failed (errno : Nat)
deriving DecidableEq

/-- What a call returns, and where how many bytes were moved; `data` is what was read. -/
structure Reply where
  ret : Int
  pos : Nat := 0
  moved : Nat := 0
  data : List Nat := []

def toSsize (n : Nat) : Int := if n < 2 ^ 31 then n else n - 2 ^ 32

/-- The result of `read` and `write` as a `size_t`, for a request of which `limit` bytes can be
moved. -/
def Answer.result (limit : Nat) : Answer → Nat
  | .moved k => min k limit
  | .failed _ => 2 ^ 32 - 1

def Answer.errno : Answer → Nat
  | .moved _ => 0
  | .failed e => e

/-- The loop around `read` or `write`: what is returned, and the bytes that were moved. -/
def transferLoop (sectsize limit : Nat) : List Answer → Option (Int × Nat)
  | [] => none
  | a :: rest =>
    let nbytes := a.result limit
    if nbytes < 0 ∧ a.errno ≠ eintr then some (-a.errno, 0)
    else if nbytes < 0 then transferLoop sectsize limit rest
    else some (toSsize (nbytes / sectsize), match a with
      | .moved _ => nbytes
      | .failed _ => 0)

/-- `lseek` to an offset that was computed in 32 bits. -/
def lseek (ok : Bool) (offset : Nat) (f : File) : Option File :=
  if ok ∧ offset < 2 ^ 31 then some { f with pos := offset } else none

def loopOpen (d : LoopStruct) : LoopStruct × Reply :=
  let d := { d with sem := d.sem - 1 }
  if d.opencnt = maxOpencnt then (d, { ret := -emfile })
  else ({ d with opencnt := d.opencnt + 1, sem := d.sem + 1 }, { ret := 0 })

def loopClose (d : LoopStruct) : LoopStruct × Reply :=
  let d := { d with sem := d.sem - 1 }
  if d.opencnt = 0 then (d, { ret := -eio })
  else ({ d with opencnt := d.opencnt - 1, sem := d.sem + 1 }, { ret := 0 })

def loopRead (start nsectors : Nat) (ok : Bool) (answers : List Answer) (d : LoopStruct) :
    Option (LoopStruct × Reply) :=
  if d.nsectors < (start + nsectors) % 2 ^ 32 then some (d, { ret := -eio })
  else
    match lseek ok ((start * d.sectsize + d.offset) % 2 ^ 32) d.file with
    | none => some (d, { ret := -eio })
    | some f =>
      let count := nsectors * d.sectsize % 2 ^ 32
      (transferLoop d.sectsize (min count (f.size - f.pos)) answers).map fun r =>
        ({ d with file := { f with pos := f.pos + r.2 } },
          { ret := r.1, pos := f.pos, moved := r.2, data := window f.bytes f.pos r.2 })

/-- A seek that fails is not an error. -/
def loopWrite (start nsectors : Nat) (buffer : List Nat) (ok : Bool) (answers : List Answer)
    (d : LoopStruct) : Option (LoopStruct × Reply) :=
  let f := (lseek ok ((start * d.sectsize + d.offset) % 2 ^ 32) d.file).getD d.file
  let count := nsectors * d.sectsize % 2 ^ 32
  (transferLoop d.sectsize count answers).map fun r =>
    ({ d with file :=
        { bytes := overlay f.pos (buffer.take r.2) f.bytes
          size := if r.2 = 0 then f.size else max f.size (f.pos + r.2)
          pos := f.pos + r.2 } },
      { ret := r.1, pos := f.pos, moved := r.2 })

/-- A device for a file; too small a file is an error, and opening it is taken to succeed. -/
def losetup (f : File) (sectsize offset : Nat) (readonly : Bool) : Option LoopStruct :=
  if (f.size : Int) - offset < sectsize then none
  else some
    { sem := 1
      nsectors := (f.size - offset) / sectsize
      offset := offset
      sectsize := sectsize
      opencnt := 0
      writeenabled := !readonly
      file := f }

/-- A call, and for a transfer whether the seek succeeds and what `read` or `write` do. -/
inductive Call
  | opened
  | closed
  | read (start nsectors : Nat) (ok : Bool) (answers : List Answer)
  | write (start nsectors : Nat) (buffer : List Nat) (ok : Bool) (answers : List Answer)

/-- The arguments are 32-bit numbers, and a buffer holds the sectors that are written. -/
def Call.valid (sectsize : Nat) : Call → Prop
  | .opened | .closed => True
  | .read start nsectors _ _ => start < 2 ^ 32 ∧ nsectors < 2 ^ 32
  | .write start nsectors buffer _ _ =>
    start < 2 ^ 32 ∧ nsectors < 2 ^ 32 ∧ buffer.length = nsectors * sectsize

def Call.exec (d : LoopStruct) : Call → Option (LoopStruct × Reply)
  | .opened => if d.sem = 0 then none else some (loopOpen d)
  | .closed => if d.sem = 0 then none else some (loopClose d)
  | .read start nsectors ok answers => loopRead start nsectors ok answers d
  | .write start nsectors buffer ok answers => loopWrite start nsectors buffer ok answers d

/-- `read` or `write` moves `k` bytes, after interrupted tries. -/
def Moves (answers : List Answer) (k : Nat) : Prop :=
  ∃ n rest, answers = List.replicate n (.failed eintr) ++ .moved k :: rest

def Fails (answers : List Answer) : Prop := ∃ e rest, answers = .failed e :: rest

/-- Nothing is moved and an error is returned, with a reason for it. -/
def Refused (reason : Prop) (r : Reply) : Prop := reason ∧ r.ret < 0 ∧ r.moved = 0

/-- The bytes of the sectors, or the first ones of them, are moved, and the whole sectors are
counted. -/
def Moved (d : LoopStruct) (start nsectors limit : Nat) (ok : Bool) (answers : List Answer)
    (r : Reply) : Prop :=
  start + nsectors ≤ d.nsectors ∧ ok = true ∧ r.pos = d.offset + start * d.sectsize ∧
    (∃ k, Moves answers k ∧ r.moved = min k limit) ∧ r.moved ≤ nsectors * d.sectsize ∧
    r.ret = (r.moved / d.sectsize : Nat)

def Right (d : LoopStruct) (c : Call) (d' : LoopStruct) (r : Reply) : Prop :=
  d'.sem = d.sem ∧ match c with
  | .opened =>
    d'.file = d.file ∧ if d.opencnt = maxOpencnt then r.ret < 0 ∧ d'.opencnt = d.opencnt
      else r.ret = 0 ∧ d'.opencnt = d.opencnt + 1
  | .closed =>
    d'.file = d.file ∧ if d.opencnt = 0 then r.ret < 0 ∧ d'.opencnt = d.opencnt
      else r.ret = 0 ∧ d'.opencnt + 1 = d.opencnt
  | .read start nsectors ok answers =>
    d'.file.bytes = d.file.bytes ∧ d'.file.size = d.file.size ∧
      r.data = window d.file.bytes r.pos r.moved ∧
      (Refused (d.nsectors < start + nsectors ∨ ok = false ∨ Fails answers) r ∨
        Moved d start nsectors
          (min (nsectors * d.sectsize) (d.file.size - (d.offset + start * d.sectsize)))
          ok answers r)
  | .write start nsectors buffer ok answers =>
    d'.file.bytes = overlay r.pos (buffer.take r.moved) d.file.bytes ∧
      (Refused (d.nsectors < start + nsectors ∨ ok = false ∨ Fails answers ∨
          d.writeenabled = false) r ∨
        Moved d start nsectors (nsectors * d.sectsize) ok answers r) ∧
      (d.writeenabled = false → r.moved = 0)

def failsFirst : List Answer → Bool
  | .failed _ :: _ => true
  | _ => false

/-- The first try of `read` or `write` moves nothing. -/
def idlesFirst : List Answer → Bool
  | .moved 0 :: _ => true
  | _ => false

/-- The condition on a call: an open count not at its limit; a transfer that does not fail, unless
a sector is one byte, of sectors of the device or, for a read, of others that are recognised as
such; for a write moreover a seek that succeeds and a device that is not read-only. -/
def Meets (d : LoopStruct) : Call → Prop
  | .opened => d.opencnt ≠ maxOpencnt
  | .closed => d.opencnt ≠ 0
  | .read start nsectors ok answers =>
    d.nsectors < (start + nsectors) % 2 ^ 32 ∨ ok = false ∨
      2 ^ 31 ≤ (start * d.sectsize + d.offset) % 2 ^ 32 ∨
      if failsFirst answers then d.sectsize = 1 else start + nsectors ≤ d.nsectors
  | .write start nsectors _ ok answers =>
    if failsFirst answers then d.sectsize = 1
    else start + nsectors ≤ d.nsectors ∧ ok = true ∧
      (d.writeenabled = true ∨ nsectors = 0 ∨ idlesFirst answers = true)

section

variable {sectsize limit k e : Nat} {rest answers : List Answer}

theorem transferLoop_moved : transferLoop sectsize limit (.moved k :: rest) =
    some (toSsize (min k limit / sectsize), min k limit) := by
  simp [transferLoop, Answer.result]

theorem transferLoop_failed : transferLoop sectsize limit (.failed e :: rest) =
    some (toSsize ((2 ^ 32 - 1) / sectsize), 0) := by
  simp [transferLoop, Answer.result]

theorem toSsize_of_lt {n : Nat} (h : n < 2 ^ 31) : toSsize n = n := if_pos h

theorem toSsize_failed (hpos : 0 < sectsize) :
    toSsize ((2 ^ 32 - 1) / sectsize) < 0 ↔ sectsize = 1 := by
  constructor
  · intro hneg
    by_contra hne
    have hle : (2 ^ 32 - 1) / sectsize ≤ (2 ^ 32 - 1) / 2 :=
    Nat.div_le_div_left (by omega) (by decide)
    generalize (2 ^ 32 - 1) / sectsize = q at hneg hle
    rw [toSsize_of_lt (by omega)] at hneg
    omega
  · rintro rfl
    decide

theorem toSsize_failed_ne (hpos : 0 < sectsize) (hlt : sectsize < 2 ^ 16) :
    toSsize ((2 ^ 32 - 1) / sectsize) ≠ 0 := by
  have hle : (2 ^ 32 - 1) / 2 ^ 16 ≤ (2 ^ 32 - 1) / sectsize :=
    Nat.div_le_div_left (Nat.le_of_lt hlt) hpos
  have hbig : (2 ^ 32 - 1) / sectsize ≤ 2 ^ 32 - 1 := Nat.div_le_self _ _
  generalize (2 ^ 32 - 1) / sectsize = q at hle hbig
  unfold toSsize
  split <;> omega

theorem moves_moved {j : Nat} : Moves (.moved k :: rest) j ↔ j = k := by
  constructor
  · rintro ⟨n, tail, h⟩
    cases n with
    | zero => exact (Answer.moved.inj (List.cons.inj h).1).symm
    | succ n => cases (List.cons.inj h).1
  · rintro rfl
    exact ⟨0, rest, rfl⟩

end

structure Inv (d : LoopStruct) : Prop where
  sectsize_pos : 0 < d.sectsize
  sectsize_lt : d.sectsize < 2 ^ 16
  inside : d.offset + d.nsectors * d.sectsize < 2 ^ 31
  opencnt : d.opencnt ≤ maxOpencnt

section

variable {d d' : LoopStruct} {r : Reply} {start nsectors : Nat} {ok : Bool} {answers : List Answer}
  {buffer : List Nat}

theorem Inv.inRange (I : Inv d) (h : start + nsectors ≤ d.nsectors) :
    (start + nsectors) % 2 ^ 32 = start + nsectors ∧
      (start * d.sectsize + d.offset) % 2 ^ 32 = d.offset + start * d.sectsize ∧
      d.offset + start * d.sectsize < 2 ^ 31 ∧
      nsectors * d.sectsize % 2 ^ 32 = nsectors * d.sectsize ∧ nsectors * d.sectsize < 2 ^ 31 := by
  have hmul : (start + nsectors) * d.sectsize ≤ d.nsectors * d.sectsize := Nat.mul_le_mul_right _ h
  have hle : d.nsectors ≤ d.nsectors * d.sectsize := Nat.le_mul_of_pos_right _ I.sectsize_pos
  have hin := I.inside
  rw [Nat.add_mul] at hmul
  generalize d.nsectors * d.sectsize = v at *
  generalize start * d.sectsize = u at *
  generalize nsectors * d.sectsize = w at *
  omega

theorem Inv.seek_fails (I : Inv d)
    (h : ¬ (ok = true ∧ (start * d.sectsize + d.offset) % 2 ^ 32 < 2 ^ 31)) :
    d.nsectors < start + nsectors ∨ ok = false := by
  by_contra hc
  obtain ⟨hin, hok⟩ := not_or.mp hc
  obtain ⟨-, hpos, hlt, -⟩ := I.inRange (not_lt.mp hin)
  exact h ⟨by simpa using hok, by omega⟩

theorem Inv.div_lt (I : Inv d) {n : Nat} (h : n < 2 ^ 31) : n / d.sectsize < 2 ^ 31 :=
  Nat.lt_of_le_of_lt (Nat.div_le_self _ _) h

theorem Inv.refused_iff (I : Inv d) {reason P : Prop} (hreason : reason)
    (hret : r.ret = toSsize ((2 ^ 32 - 1) / d.sectsize)) (hmoved : r.moved = 0)
    (hP : P → r.ret = (r.moved / d.sectsize : Nat)) :
    (Refused reason r ∨ P) ↔ d.sectsize = 1 := by
  rw [← toSsize_failed I.sectsize_pos, ← hret]
  constructor
  · rintro (h | h)
    · exact h.2.1
    · have h0 := hP h
      rw [hmoved, Nat.zero_div] at h0
      exact absurd (hret ▸ h0) (toSsize_failed_ne I.sectsize_pos I.sectsize_lt)
  · exact fun h => .inl ⟨hreason, h, hmoved⟩

theorem not_refused {reason : Prop} (hret : r.ret = toSsize (r.moved / d.sectsize)) :
    ¬ Refused reason r := by
  rintro ⟨-, hneg, h0⟩
  rw [hret, h0, Nat.zero_div] at hneg
  exact absurd hneg (by decide)

theorem Inv.read_right (I : Inv d) (e : loopRead start nsectors ok answers d = some (d', r)) :
    Inv d' ∧ (Right d (.read start nsectors ok answers) d' r ↔
      Meets d (.read start nsectors ok answers)) := by
  unfold loopRead at e
  split at e
  · next hbig =>
    cases e
    have hout : d.nsectors < start + nsectors := lt_of_lt_of_le hbig (Nat.mod_le _ _)
    exact ⟨I, iff_of_true ⟨rfl, rfl, rfl, rfl, .inl ⟨.inl hout, by decide, rfl⟩⟩ (.inl hbig)⟩
  · next hsmall =>
    unfold lseek at e
    split at e
    · next hnone =>
      cases e
      split at hnone
      · cases hnone
      · next hseek =>
        refine ⟨I, iff_of_true ⟨rfl, rfl, rfl, rfl, .inl ⟨?_, by decide, rfl⟩⟩ ?_⟩
        · exact (I.seek_fails hseek).imp_right .inl
        · refine .inr ?_
          rcases Bool.eq_false_or_eq_true ok with hok | hok
          · exact .inr (.inl (not_lt.mp fun hlt => hseek ⟨hok, hlt⟩))
          · exact .inl hok
    · next f hsome =>
      split at hsome
      · next hseek =>
        cases hsome
        have hmeets : Meets d (.read start nsectors ok answers) ↔
            if failsFirst answers then d.sectsize = 1 else start + nsectors ≤ d.nsectors := by
          have h1 : ok ≠ false := by
            rw [hseek.1]
            decide
          show _ ∨ _ ∨ _ ∨ _ ↔ _
          rw [or_iff_right hsmall, or_iff_right h1, or_iff_right (not_le.mpr hseek.2)]
        rw [hmeets]
        obtain ⟨⟨ret, moved⟩, ht, hr⟩ := Option.map_eq_some_iff.mp e
        cases hr
        refine ⟨⟨I.sectsize_pos, I.sectsize_lt, I.inside, I.opencnt⟩, ?_⟩
        rcases answers with - | ⟨k | err, rest⟩
        · cases ht
        · rw [transferLoop_moved] at ht
          cases ht
          show _ ↔ start + nsectors ≤ d.nsectors
          constructor
          · rintro ⟨-, -, -, -, href | hmv⟩
            · exact absurd href (not_refused rfl)
            · exact hmv.1
          · intro hin
            obtain ⟨-, hpos, hlt, hcount, hcl⟩ := I.inRange hin
            refine ⟨rfl, rfl, rfl, rfl, .inr ⟨hin, hseek.1, hpos, ⟨k, moves_moved.mpr rfl, ?_⟩,
              ?_, ?_⟩⟩
            · show min k _ = min k _
              rw [hcount, hpos]
            · show min k _ ≤ _
              rw [hcount]
              omega
            · refine toSsize_of_lt (I.div_lt ?_)
              rw [hcount]
              omega
        · rw [transferLoop_failed] at ht
          cases ht
          refine Iff.trans ⟨fun h => h.2.2.2.2, fun h => ⟨rfl, rfl, rfl, rfl, h⟩⟩ ?_
          exact I.refused_iff (.inr (.inr ⟨err, rest, rfl⟩)) rfl rfl fun h => h.2.2.2.2.2
      · cases hsome

theorem Inv.write_right (I : Inv d)
    (e : loopWrite start nsectors buffer ok answers d = some (d', r)) :
    Inv d' ∧ (Right d (.write start nsectors buffer ok answers) d' r ↔
      Meets d (.write start nsectors buffer ok answers)) := by
  unfold loopWrite at e
  obtain ⟨⟨ret, moved⟩, ht, hr⟩ := Option.map_eq_some_iff.mp e
  have hbytes : ((lseek ok ((start * d.sectsize + d.offset) % 2 ^ 32) d.file).getD d.file).bytes =
      d.file.bytes := by
    unfold lseek
    split <;> rfl
  have hseek : ok = true ∧ (start * d.sectsize + d.offset) % 2 ^ 32 < 2 ^ 31 →
      ((lseek ok ((start * d.sectsize + d.offset) % 2 ^ 32) d.file).getD d.file).pos =
        (start * d.sectsize + d.offset) % 2 ^ 32 := by
    intro h
    unfold lseek
    rw [if_pos h]
    rfl
  generalize (lseek ok ((start * d.sectsize + d.offset) % 2 ^ 32) d.file).getD d.file = f at *
  cases hr
  refine ⟨⟨I.sectsize_pos, I.sectsize_lt, I.inside, I.opencnt⟩, ?_⟩
  have hover : overlay f.pos (buffer.take moved) f.bytes =
      overlay f.pos (buffer.take moved) d.file.bytes := by rw [hbytes]
  rcases answers with - | ⟨k | err, rest⟩
  · cases ht
  · rw [transferLoop_moved] at ht
    cases ht
    show _ ↔ start + nsectors ≤ d.nsectors ∧ ok = true ∧
      (d.writeenabled = true ∨ nsectors = 0 ∨ idlesFirst (.moved k :: rest) = true)
    have hidle : idlesFirst (.moved k :: rest) = true ↔ k = 0 := by
      cases k with
      | zero => exact iff_of_true rfl rfl
      | succ k => exact iff_of_false (by simp [idlesFirst]) (by omega)
    rw [hidle]
    constructor
    · rintro ⟨-, -, href | hmv, hwrite⟩
      · exact absurd href (not_refused rfl)
      · refine ⟨hmv.1, hmv.2.1, ?_⟩
        rcases Bool.eq_false_or_eq_true d.writeenabled with hw | hw
        · exact .inl hw
        · obtain ⟨-, -, -, hcount, -⟩ := I.inRange hmv.1
          have h0 : min k (nsectors * d.sectsize % 2 ^ 32) = 0 := hwrite hw
          rw [hcount] at h0
          have hmul := Nat.mul_eq_zero (n := nsectors) (m := d.sectsize)
          have hpos := I.sectsize_pos
          right
          generalize nsectors * d.sectsize = v at *
          omega
    · rintro ⟨hin, hok, hw⟩
      obtain ⟨-, hpos, hlt, hcount, hcl⟩ := I.inRange hin
      refine ⟨rfl, hover, .inr ⟨hin, hok, ?_, ⟨k, moves_moved.mpr rfl, ?_⟩, ?_, ?_⟩, fun hro => ?_⟩
      · show f.pos = _
        rw [hseek ⟨hok, by omega⟩, hpos]
      · show min k _ = min k _
        rw [hcount]
      · show min k _ ≤ _
        rw [hcount]
        exact Nat.min_le_right _ _
      · refine toSsize_of_lt (I.div_lt ?_)
        rw [hcount]
        omega
      · show min k _ = 0
        rw [hcount]
        rcases hw with hw | rfl | rfl
        · rw [hro] at hw
          cases hw
        · rw [Nat.zero_mul, Nat.min_zero]
        · exact Nat.zero_min _
  · rw [transferLoop_failed] at ht
    cases ht
    refine Iff.trans ⟨fun h => h.2.2.1, fun h => ⟨rfl, hover, h, fun _ => rfl⟩⟩ ?_
    exact I.refused_iff (.inr (.inr (.inl ⟨err, rest, rfl⟩))) rfl rfl fun h => h.2.2.2.2.2

theorem Inv.right_iff (I : Inv d) {c : Call} (e : c.exec d = some (d', r)) :
    Inv d' ∧ (Right d c d' r ↔ Meets d c) := by
  cases c with
  | opened =>
    simp only [Call.exec] at e
    split at e
    · cases e
    next hsem =>
    unfold loopOpen at e
    dsimp only at e
    split at e
    · next hmax =>
      cases e
      exact ⟨⟨I.sectsize_pos, I.sectsize_lt, I.inside, I.opencnt⟩,
        iff_of_false (fun h => hsem (by have := h.1; dsimp only at this; omega))
          (not_not.mpr hmax)⟩
    · next hmax =>
      cases e
      have hle := I.opencnt
      refine ⟨⟨I.sectsize_pos, I.sectsize_lt, I.inside, ?_⟩,
        iff_of_true ⟨Nat.sub_add_cancel (by omega), rfl, ?_⟩ hmax⟩
      · show d.opencnt + 1 ≤ maxOpencnt
        omega
      · rw [if_neg hmax]
        exact ⟨rfl, rfl⟩
  | closed =>
    simp only [Call.exec] at e
    split at e
    · cases e
    next hsem =>
    unfold loopClose at e
    dsimp only at e
    split at e
    · next hzero =>
      cases e
      exact ⟨⟨I.sectsize_pos, I.sectsize_lt, I.inside, I.opencnt⟩,
        iff_of_false (fun h => hsem (by have := h.1; dsimp only at this; omega))
          (not_not.mpr hzero)⟩
    · next hzero =>
      cases e
      have hle := I.opencnt
      refine ⟨⟨I.sectsize_pos, I.sectsize_lt, I.inside, ?_⟩,
        iff_of_true ⟨Nat.sub_add_cancel (by omega), rfl, ?_⟩ hzero⟩
      · show d.opencnt - 1 ≤ maxOpencnt
        omega
      · rw [if_neg hzero]
        exact ⟨rfl, Nat.sub_add_cancel (by omega)⟩
  | read => exact I.read_right e
  | write => exact I.write_right e

end

structure Started (d : LoopStruct) : Prop where
  size : d.file.size < 2 ^ 31
  setup : ∃ sectsize offset readonly, 0 < sectsize ∧ sectsize < 2 ^ 16 ∧
    losetup d.file sectsize offset readonly = some d

theorem Started.inv {d : LoopStruct} (S : Started d) : Inv d := by
  obtain ⟨sectsize, offset, readonly, hpos, hlt, h⟩ := S.setup
  have hsize := S.size
  unfold losetup at h
  split at h
  · cases h
  · next hroom =>
    rw [← Option.some.inj h] at hsize ⊢
    have hmul := Nat.div_mul_le_self (d.file.size - offset) sectsize
    refine ⟨hpos, hlt, ?_, Nat.zero_le _⟩
    show offset + (d.file.size - offset) / sectsize * sectsize < 2 ^ 31
    generalize (d.file.size - offset) / sectsize * sectsize = v at hmul
    dsimp only at hsize
    omega

/-- In a run on a loop device all calls do what they have to do if and only if each of them meets
the condition. -/
theorem loop_device_iff {d : LoopStruct} (S : Started d) {calls : List Call}
    (hv : ∀ c ∈ calls, c.valid d.sectsize) :
    Along (fun d c => Call.exec d c) Right d calls ↔
      Along (fun d c => Call.exec d c) (fun d c _ _ => Meets d c) d calls :=
  Along.iff (Q := fun d c _ _ => Meets d c) (fun _ c _ _ I _ e => I.right_iff (c := c) e) S.inv hv

def small (readonly : Bool) : LoopStruct :=
  { sem := 1
    nsectors := 3
    offset := 512
    sectsize := 512
    opencnt := 0
    writeenabled := !readonly
    file := ⟨fun _ => 0, 2048, 0⟩ }

theorem small_started (readonly : Bool) : Started (small readonly) :=
  ⟨show 2048 < 2 ^ 31 by decide, 512, 512, readonly, by decide, by decide, by simp [losetup, small]⟩

theorem loop_device_read : Along (fun d c => Call.exec d c) Right (small true)
    [.opened, .read 1 2 true [.moved 700], .closed] := by
  refine (loop_device_iff (small_started true) ?_).mpr ?_
  · intro c hc
    simp only [List.mem_cons, List.not_mem_nil, or_false] at hc
    rcases hc with rfl | rfl | rfl
    · trivial
    · exact ⟨by decide, by decide⟩
    · trivial
  · intro d r e
    cases e
    refine ⟨show 0 ≠ maxOpencnt by decide, fun d r e => ?_⟩
    cases e
    refine ⟨.inr (.inr (.inr (show 1 + 2 ≤ 3 by decide))), fun d r e => ?_⟩
    cases e
    exact ⟨show 1 ≠ 0 by decide, trivial⟩

/-- A device that was set up read-only is written to, past its end. -/
theorem loop_device_written : ¬ ∀ (d : LoopStruct), Started d → ∀ calls : List Call,
    (∀ c ∈ calls, c.valid d.sectsize) → Along (fun d c => Call.exec d c) Right d calls := by
  intro h
  have hrun := h (small true) (small_started true)
    [.write 3 1 (List.replicate 512 1) true [.moved 512]] (by
      intro c hc
      rw [List.mem_singleton.mp hc]
      exact ⟨by decide, by decide, List.length_replicate⟩)
  obtain ⟨⟨-, -, -, hwrite⟩, -⟩ := hrun _ _ rfl
  exact absurd (hwrite rfl) (by decide)

end NuttxAvr32.Loop
