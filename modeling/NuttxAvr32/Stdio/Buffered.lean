import NuttxAvr32.Lib.Overlay
import NuttxAvr32.Lib.Runs

/-! # Buffered streams

`lib_libfread.c`, `lib_libfwrite.c`, `lib_libfflush.c`, `lib_wrflush.c`, `lib_rdflush.c` and
`lib_fseek.c` for a stream that is open for reading and writing, over a file whose transfers
succeed and may be short. Pointers into the buffer are offsets from `fs_bufstart`.
-/

namespace NuttxAvr32.Stdio

open Overlay Runs

/-- A byte array with an offset. Behind `size` are the zeros of a later gap. -/
structure File where
  size : Nat
  byte : Nat → UInt8
  offset : Nat

inductive Whence
  | set
  | cur
  | end
deriving DecidableEq

namespace File

def contents (f : File) : List UInt8 := window f.byte 0 f.size

def read (n : Nat) (f : File) : List UInt8 × File :=
  let n := min n (f.size - f.offset)
  (window f.byte f.offset n, { f with offset := f.offset + n })

def write (data : List UInt8) (f : File) : File :=
  { size := if data = [] then f.size else max f.size (f.offset + data.length)
    byte := overlay f.offset data f.byte
    offset := f.offset + data.length }

def lseek (offset : Int) (whence : Whence) (f : File) : Option File :=
  let target := offset + match whence with
    | .set => 0
    | .cur => f.offset
    | .end => f.size
  if 0 ≤ target then some { f with offset := target.toNat } else none

end File

/-- How much of `n` bytes the next transfer moves: no more than the head of `limits` and one. -/
def quota (limits : List Nat) (n : Nat) : Nat :=
  match limits with
  | [] => n
  | l :: _ => min n (l + 1)

def File.freadLoop : Nat → List Nat → Nat → File → List UInt8 × File
  | 0, _, _, f => ([], f)
  | fuel + 1, limits, count, f =>
    if 0 < count then
      let r := f.read (quota limits count)
      if r.1 = [] then ([], r.2)
      else
        let q := freadLoop fuel limits.tail (count - r.1.length) r.2
        (r.1 ++ q.1, q.2)
    else ([], f)

/-- `FILE` with its file and the limits of the transfers to come. -/
structure Stream where
  file : File
  reads : List Nat
  writes : List Nat
  bufend : Nat
  buffer : Nat → UInt8
  bufpos : Nat
  bufread : Nat

namespace Stream

def read (n : Nat) (s : Stream) : List UInt8 × Stream :=
  let r := s.file.read (quota s.reads n)
  (r.1, { s with file := r.2, reads := s.reads.tail })

def write (data : List UInt8) (s : Stream) : Nat × Stream :=
  let n := quota s.writes data.length
  (n, { s with file := s.file.write (data.take n), writes := s.writes.tail })

def writeOut (bforce : Bool) : Nat → Nat → Nat → Stream → Nat × Stream
  | 0, src, _, s => (src, s)
  | fuel + 1, src, nbuffer, s =>
    let r := s.write (window s.buffer src nbuffer)
    if bforce = true ∧ 0 < nbuffer - r.1 then
      writeOut bforce fuel (src + r.1) (nbuffer - r.1) r.2
    else (src + r.1, r.2)

def libFflush (bforce : Bool) (s : Stream) : Nat × Stream :=
  if s.bufpos ≠ 0 then
    if s.bufread ≠ 0 then (0, s)
    else
      let r := s.writeOut bforce s.bufpos 0 s.bufpos
      let nbuffer := s.bufpos - r.1
      (nbuffer, { r.2 with
        buffer := overlay 0 (window r.2.buffer r.1 nbuffer) r.2.buffer
        bufpos := nbuffer })
  else (0, s)

def fflush (s : Stream) : Bool × Stream :=
  let r := s.libFflush true
  (decide (r.1 = 0), r.2)

def libWrflush (s : Stream) : Bool × Stream :=
  let r := s.libFflush true
  (decide (r.1 = 0), r.2)

def fseekFlushed (offset : Int) (whence : Whence) (s : Stream) : Bool × Stream :=
  let w := s.libWrflush
  if w.1 then
    match w.2.file.lseek offset whence with
    | some f => (true, { w.2 with file := f })
    | none => (false, w.2)
  else (false, w.2)

/-- `lib_rdflush`. The `lib_rdflush` of the `fseek` that it calls finds the buffer empty. -/
def libRdflush (s : Stream) : Bool × Stream :=
  if s.bufread ≠ 0 then
    let rdoffset : Int := s.bufread - s.bufpos
    { s with bufpos := 0, bufread := 0 }.fseekFlushed (-rdoffset) .cur
  else (true, s)

def fseek (offset : Int) (whence : Whence) (s : Stream) : Bool × Stream :=
  let r := s.libRdflush
  if r.1 then r.2.fseekFlushed offset whence else r

def freadLoop : Nat → Nat → Stream → List UInt8 × Stream
  | 0, _, s => ([], s)
  | fuel + 1, count, s =>
    if 0 < count then
      let n := min count (s.bufread - s.bufpos)
      let bytes := window s.buffer s.bufpos n
      let s := { s with bufpos := s.bufpos + n }
      let count := count - n
      if 0 < count then
        let s := { s with bufpos := 0, bufread := 0 }
        if s.bufend < count then
          -- a short read ends the loop here
          let r := s.read count
          (bytes ++ r.1, r.2)
        else
          let r := s.read s.bufend
          if r.1 = [] then (bytes, r.2)
          else
            let q := freadLoop fuel count { r.2 with
              buffer := overlay 0 r.1 r.2.buffer
              bufread := r.1.length }
            (bytes ++ q.1, q.2)
      else (bytes, s)
    else ([], s)

def libFread (count : Nat) (s : Stream) : Option (List UInt8) × Stream :=
  let w := s.libWrflush
  if w.1 then
    let r := freadLoop (count + 1) count w.2
    (some r.1, r.2)
  else (none, w.2)

def fwriteLoop : Nat → List UInt8 → Stream → Nat × Stream
  | 0, _, s => (0, s)
  | fuel + 1, src, s =>
    if src = [] then (0, s)
    else
      let gulp := min (s.bufend - s.bufpos) src.length
      let s := { s with
        buffer := overlay s.bufpos (src.take gulp) s.buffer
        bufpos := s.bufpos + gulp }
      let s := if s.bufend ≤ s.bufpos then (s.libFflush false).2 else s
      let r := fwriteLoop fuel (src.drop gulp) s
      (gulp + r.1, r.2)

def libFwrite (src : List UInt8) (s : Stream) : Option Nat × Stream :=
  let r := s.libRdflush
  if r.1 then
    let w := fwriteLoop src.length src r.2
    (some w.1, w.2)
  else (none, r.2)

end Stream

inductive Call
  | fread (count : Nat)
  | fwrite (src : List UInt8)
  | fflush
  | fseek (offset : Int) (whence : Whence)

inductive Result
  | bytes (read : Option (List UInt8))
  | count (written : Option Nat)
  | ok (success : Bool)
deriving DecidableEq

def Stream.call (s : Stream) : Call → Result × Stream
  | .fread count =>
    let r := s.libFread count
    (.bytes r.1, r.2)
  | .fwrite src =>
    let r := s.libFwrite src
    (.count r.1, r.2)
  | .fflush =>
    let r := s.fflush
    (.ok r.1, r.2)
  | .fseek offset whence =>
    let r := s.fseek offset whence
    (.ok r.1, r.2)

/-- The same without a buffer, where nothing has to be flushed. -/
def File.call (f : File) : Call → Result × File
  | .fread count =>
    let r := f.read count
    (.bytes (some r.1), r.2)
  | .fwrite src => (.count (some src.length), f.write src)
  | .fflush => (.ok true, f)
  | .fseek offset whence =>
    match f.lseek offset whence with
    | some f => (.ok true, f)
    | none => (.ok false, f)

structure Op where
  call : Call
  reads : List Nat
  writes : List Nat

/-- A stream and the file that gets the same calls without a buffer, each with its results. -/
structure State where
  stream : Stream
  plain : File
  results : List Result
  plainResults : List Result

def Op.exec (s : State) (i : Op) : Option State :=
  let r := { s.stream with reads := i.reads, writes := i.writes }.call i.call
  let p := s.plain.call i.call
  some ⟨r.2, p.2, s.results ++ [r.1], s.plainResults ++ [p.1]⟩

/-- `read` does not fall short of a request for `n` bytes with `left` in the file. -/
def Whole (limits : List Nat) (n left : Nat) : Prop := min n left ≤ quota limits n

instance (limits : List Nat) (n left : Nat) : Decidable (Whole limits n left) :=
  inferInstanceAs (Decidable (_ ≤ _))

/-- Where more is asked for than what is buffered and one buffer, the first transfer is not short
before the end of the file. -/
def Op.keeps (s : State) (i : Op) : Prop :=
  match i.call with
  | .fread count =>
    let unread := s.stream.bufread - s.stream.bufpos
    s.stream.bufend < count - unread →
      Whole i.reads (count - unread) (s.plain.size - (s.plain.offset + unread))
  | _ => True

def stdioMachine : Machine State Op where
  valid _ _ := True
  exec s i := i.exec s

structure Start (s : State) : Prop where
  file : s.plain = s.stream.file
  gap : ∀ i, s.plain.size ≤ i → s.plain.byte i = 0
  room : 0 < s.stream.bufend
  empty : s.stream.bufpos = 0 ∧ s.stream.bufread = 0
  results : s.results = [] ∧ s.plainResults = []

/-- The results are those without a buffer, and a flush leaves the same contents. -/
structure Correct (s : State) : Prop where
  results : s.results = s.plainResults
  contents : ∀ writes, ({ s.stream with writes := writes }.fflush).2.file.contents =
    s.plain.contents

namespace File

variable {f : File}

@[simp] theorem write_nil (f : File) : f.write [] = f := by
  simp [write]

theorem write_append (f : File) (xs ys : List UInt8) :
    (f.write xs).write ys = f.write (xs ++ ys) := by
  by_cases hx : xs = []
  · simp [hx]
  · by_cases hy : ys = []
    · simp [hy]
    · have hb : overlay (f.offset + xs.length) ys (overlay f.offset xs f.byte) =
          overlay f.offset (xs ++ ys) f.byte := overlay_append
      have hs : max (max f.size (f.offset + xs.length)) (f.offset + (xs.length + ys.length)) =
          max f.size (f.offset + (xs.length + ys.length)) := by omega
      simp only [write, if_neg hy, hb, hs, List.append_eq_nil_iff, hx, false_and, if_false,
        List.length_append, Nat.add_assoc]

theorem read_split {k n : Nat} (hk : k ≤ n) (hl : k ≤ f.size - f.offset) :
    f.read n = ((f.read k).1 ++ ((f.read k).2.read (n - k)).1, ((f.read k).2.read (n - k)).2) := by
  have h1 : min k (f.size - f.offset) = k := by omega
  have h2 : min n (f.size - f.offset) = k + min (n - k) (f.size - (f.offset + k)) := by omega
  simp only [read, h1, h2, window_append, Nat.add_assoc]

@[simp] theorem read_zero (f : File) : f.read 0 = ([], f) := by
  simp [read, window]

theorem read_end (h : f.size ≤ f.offset) (n : Nat) : f.read n = ([], f) := by
  simp [read, window, Nat.sub_eq_zero_of_le h]

end File

theorem quota_le (limits : List Nat) (n : Nat) : quota limits n ≤ n := by
  cases limits with
  | nil => exact Nat.le_refl n
  | cons l ls => exact Nat.min_le_left n (l + 1)

theorem quota_pos (limits : List Nat) {n : Nat} (h : 0 < n) : 0 < quota limits n := by
  cases limits with
  | nil => exact h
  | cons l ls =>
    simp only [quota]
    omega

namespace Stream

def unread (s : Stream) : Nat := s.bufread - s.bufpos

/-- The file as the user of the stream sees it: with what is still to be written, and at the
first byte that is still to be read. -/
def logical (s : Stream) : File :=
  if s.bufread = 0 then s.file.write (window s.buffer 0 s.bufpos)
  else { s.file with offset := s.file.offset - s.unread }

structure Writing (s : Stream) : Prop where
  bufread : s.bufread = 0
  bufpos : s.bufpos < s.bufend

structure Reading (s : Stream) : Prop where
  room : 0 < s.bufend
  bufpos : s.bufpos ≤ s.bufread
  bufread : s.bufread ≤ s.bufend
  offset : s.unread ≤ s.file.offset
  inside : 0 < s.unread → s.file.offset ≤ s.file.size
  bytes : ∀ i < s.unread, s.buffer (s.bufpos + i) = s.file.byte (s.file.offset - s.unread + i)

variable {s : Stream}

theorem Writing.logical (W : s.Writing) :
    s.logical = s.file.write (window s.buffer 0 s.bufpos) := if_pos W.bufread

theorem logical_empty (hp : s.bufpos = 0) (hr : s.bufread = 0) : s.logical = s.file := by
  rw [Stream.logical, if_pos hr, hp]
  exact File.write_nil _

theorem Reading.logical (R : s.Reading) :
    s.logical = { s.file with offset := s.file.offset - s.unread } := by
  by_cases h : s.bufread = 0
  · have hp := R.bufpos
    have hu : s.unread = 0 := by
      unfold unread
      omega
    rw [logical_empty (by omega) h, hu]
    rfl
  · exact if_neg h

theorem Reading.empty {f : File} {reads writes : List Nat} {n : Nat} {buffer : Nat → UInt8}
    (h : 0 < n) : Reading ⟨f, reads, writes, n, buffer, 0, 0⟩ :=
  ⟨h, Nat.le_refl 0, Nat.zero_le n, Nat.zero_le _, fun hu => absurd hu (Nat.lt_irrefl 0),
    fun i hi => absurd hi (Nat.not_lt_zero i)⟩

theorem window_take (f : Nat → UInt8) (base : Nat) {k n : Nat} (h : k ≤ n) :
    (window f base n).take k = window f base k := by
  obtain ⟨m, rfl⟩ := Nat.exists_eq_add_of_le h
  rw [window_append, List.take_append_of_le_length (by simp), List.take_of_length_le (by simp)]

theorem write_window (s : Stream) (src n : Nat) :
    s.write (window s.buffer src n) = (quota s.writes n, { s with
      file := s.file.write (window s.buffer src (quota s.writes n))
      writes := s.writes.tail }) := by
  simp only [write, length_window, window_take _ _ (quota_le s.writes n)]

/-- The loop writes some first part of what it is given, and all of it if it is forced. -/
theorem writeOut_spec (bforce : Bool) {fuel : Nat} (src : Nat) {n : Nat} (s : Stream)
    (hf : n ≤ fuel) (hn : 0 < n) : ∃ k writes, 0 < k ∧ k ≤ n ∧ (bforce = true → k = n) ∧
      s.writeOut bforce fuel src n = (src + k, { s with
        file := s.file.write (window s.buffer src k)
        writes := writes }) := by
  induction fuel generalizing src n s with
  | zero => omega
  | succ fuel ih =>
    have hq := quota_pos s.writes hn
    have hle := quota_le s.writes n
    rw [writeOut, write_window]
    by_cases hc : bforce = true ∧ 0 < n - quota s.writes n
    · simp only [if_pos hc]
      obtain ⟨k, writes, hk, hkn, hforce, he⟩ := ih (src + quota s.writes n) { s with
        file := s.file.write (window s.buffer src (quota s.writes n))
        writes := s.writes.tail } (by omega) hc.2
      refine ⟨quota s.writes n + k, writes, by omega, by omega, fun h => ?_, ?_⟩
      · have hk' := hforce h
        omega
      · rw [he, window_append, ← File.write_append, Nat.add_assoc]
    · simp only [if_neg hc]
      refine ⟨quota s.writes n, _, hq, hle, fun h => ?_, rfl⟩
      have hz : ¬ 0 < n - quota s.writes n := fun hz => hc ⟨h, hz⟩
      omega

structure Flushed (s t : Stream) : Prop where
  bufread : t.bufread = 0
  bufpos : t.bufpos < t.bufend
  bufend : t.bufend = s.bufend
  reads : t.reads = s.reads
  logical : t.logical = s.logical

theorem libFflush_spec (bforce : Bool) (hroom : 0 < s.bufend) (hr : s.bufread = 0)
    (hp : s.bufpos ≤ s.bufend) : Flushed s (s.libFflush bforce).2 ∧
      (bforce = true → (s.libFflush bforce).1 = 0 ∧ (s.libFflush bforce).2.bufpos = 0) := by
  by_cases h : s.bufpos = 0
  · have he : s.libFflush bforce = (0, s) := if_neg (by simpa using h)
    have hlt : s.bufpos < s.bufend := by omega
    rw [he]
    exact ⟨⟨hr, hlt, rfl, rfl, rfl⟩, fun _ => ⟨rfl, h⟩⟩
  · obtain ⟨k, writes, hk, hkn, hforce, hw⟩ :=
      writeOut_spec bforce 0 s (Nat.le_refl s.bufpos) (by omega)
    have he : s.libFflush bforce = (s.bufpos - k, { s with
        file := s.file.write (window s.buffer 0 k)
        writes := writes
        buffer := overlay 0 (window s.buffer k (s.bufpos - k)) s.buffer
        bufpos := s.bufpos - k }) := by
      rw [libFflush, if_pos h, if_neg (by simpa using hr), hw]
      simp
    rw [he]
    refine ⟨⟨hr, ?_, rfl, rfl, ?_⟩, fun hb => ?_⟩
    · show s.bufpos - k < s.bufend
      omega
    · have hsum : s.bufpos = k + (s.bufpos - k) := by omega
      have hwin : window s.buffer 0 s.bufpos =
          window s.buffer 0 k ++ window s.buffer k (s.bufpos - k) := by
        have ha : window s.buffer 0 (k + (s.bufpos - k)) =
            window s.buffer 0 k ++ window s.buffer (0 + k) (s.bufpos - k) := window_append
        rw [← hsum, Nat.zero_add] at ha
        exact ha
      simp only [Stream.logical, hr, if_true]
      rw [window_overlay (length_window), File.write_append, hwin]
    · have hkn' := hforce hb
      exact ⟨by omega, show s.bufpos - k = 0 by omega⟩

theorem Reading.libWrflush (R : s.Reading) : s.libWrflush = (true, s) := by
  have he : s.libFflush true = (0, s) := by
    have hp := R.bufpos
    unfold libFflush
    split
    · rw [if_pos (by omega)]
    · rfl
  simp only [Stream.libWrflush, he, decide_true]

theorem Writing.libWrflush (W : s.Writing) : ∃ t, s.libWrflush = (true, t) ∧ Flushed s t ∧
    t.bufpos = 0 ∧ t.logical = t.file := by
  have hp := W.bufpos
  obtain ⟨F, hforce⟩ := libFflush_spec true (by omega) W.bufread (Nat.le_of_lt hp)
  obtain ⟨hret, hpos⟩ := hforce rfl
  refine ⟨(s.libFflush true).2, ?_, F, hpos, logical_empty hpos F.bufread⟩
  simp only [Stream.libWrflush, hret, decide_true]

theorem Writing.fseekFlushed (W : s.Writing) (offset : Int) (whence : Whence) :
    ∃ t, s.fseekFlushed offset whence = ((s.logical.lseek offset whence).isSome, t) ∧
      t.Writing ∧ t.logical = (s.logical.lseek offset whence).getD s.logical := by
  obtain ⟨t, ht, F, hpos, hfile⟩ := W.libWrflush
  have hlog : t.file = s.logical := hfile.symm.trans F.logical
  cases hl : s.logical.lseek offset whence with
  | none =>
    refine ⟨t, ?_, ⟨F.bufread, F.bufpos⟩, F.logical⟩
    simp only [Stream.fseekFlushed, ht, hlog, hl, if_true, Option.isSome_none]
  | some f =>
    refine ⟨{ t with file := f }, ?_, ⟨F.bufread, F.bufpos⟩,
      logical_empty (s := { t with file := f }) hpos F.bufread⟩
    simp only [Stream.fseekFlushed, ht, hlog, hl, if_true, Option.isSome_some]

theorem Writing.libRdflush (W : s.Writing) : s.libRdflush = (true, s) :=
  if_neg (by simpa using W.bufread)

theorem Reading.libRdflush (R : s.Reading) :
    ∃ t, s.libRdflush = (true, t) ∧ t.Writing ∧ t.logical = s.logical := by
  by_cases h : s.bufread = 0
  · have hp := R.bufpos
    have hroom := R.room
    exact ⟨s, (⟨h, by omega⟩ : s.Writing).libRdflush, ⟨h, by omega⟩, rfl⟩
  · obtain ⟨e, he⟩ : ∃ e : Stream, { s with bufpos := 0, bufread := 0 } = e := ⟨_, rfl⟩
    have W : e.Writing := by
      subst he
      exact ⟨rfl, R.room⟩
    have hfile : e.logical = s.file := by
      subst he
      exact logical_empty rfl rfl
    have hseek : e.logical.lseek (-((s.bufread : Int) - s.bufpos)) .cur = some s.logical := by
      have hp := R.bufpos
      have ho := R.offset
      have hu : s.unread = s.bufread - s.bufpos := rfl
      have htarget : -((s.bufread : Int) - s.bufpos) + s.file.offset =
          ((s.file.offset - s.unread : Nat) : Int) := by omega
      rw [hfile, R.logical, File.lseek]
      simp only [htarget, Int.natCast_nonneg, if_true, Int.toNat_natCast]
    obtain ⟨t, ht, Wt, hlog⟩ := W.fseekFlushed (-((s.bufread : Int) - s.bufpos)) .cur
    rw [hseek] at ht hlog
    refine ⟨t, ?_, Wt, hlog⟩
    rw [Stream.libRdflush, if_pos h, he]
    exact ht

theorem Writing.put (W : s.Writing) (bytes : List UInt8) :
    ({ s with
      buffer := overlay s.bufpos bytes s.buffer
      bufpos := s.bufpos + bytes.length } : Stream).logical = s.logical.write bytes := by
  have hwin : window (overlay (0 + s.bufpos) bytes s.buffer) 0 (s.bufpos + bytes.length) =
      window s.buffer 0 s.bufpos ++ bytes := window_overlay_append
  rw [Nat.zero_add] at hwin
  rw [W.logical, File.write_append]
  simp only [Stream.logical, W.bufread, if_true, hwin]

theorem Writing.fwriteLoop {fuel : Nat} {src : List UInt8} (W : s.Writing)
    (hf : src.length ≤ fuel) : ∃ t, s.fwriteLoop fuel src = (src.length, t) ∧ t.Writing ∧
      t.logical = s.logical.write src := by
  induction fuel generalizing src s with
  | zero =>
    have hsrc : src = [] := List.length_eq_zero_iff.mp (by omega)
    exact ⟨s, by rw [hsrc]; rfl, W, by rw [hsrc, File.write_nil]⟩
  | succ fuel ih =>
    by_cases hsrc : src = []
    · exact ⟨s, by rw [hsrc]; rfl, W, by rw [hsrc, File.write_nil]⟩
    · have hpos := List.length_pos_iff.mpr hsrc
      have hroom := W.bufpos
      obtain ⟨g, hg⟩ : ∃ g, min (s.bufend - s.bufpos) src.length = g := ⟨_, rfl⟩
      have hlen : (src.take g).length = g := by
        rw [List.length_take]
        omega
      obtain ⟨e, he⟩ : ∃ e : Stream, { s with
          buffer := overlay s.bufpos (src.take g) s.buffer
          bufpos := s.bufpos + g } = e := ⟨_, rfl⟩
      have hlog : e.logical = s.logical.write (src.take g) := by
        have hput := W.put (src.take g)
        rw [hlen, he] at hput
        exact hput
      have hfields : e.bufread = 0 ∧ e.bufpos = s.bufpos + g ∧ e.bufend = s.bufend := by
        subst he
        exact ⟨W.bufread, rfl, rfl⟩
      obtain ⟨hread, hbufpos, hbufend⟩ := hfields
      have hmid : ∃ m, (if e.bufend ≤ e.bufpos then (e.libFflush false).2 else e) = m ∧
          m.Writing ∧ m.logical = e.logical := by
        by_cases hfull : e.bufend ≤ e.bufpos
        · obtain ⟨F, -⟩ := libFflush_spec false (by omega) hread (by omega)
          exact ⟨_, if_pos hfull, ⟨F.bufread, F.bufpos⟩, F.logical⟩
        · exact ⟨e, if_neg hfull, ⟨hread, by omega⟩, rfl⟩
      obtain ⟨m, hm, Wm, hmlog⟩ := hmid
      rw [hbufend, hbufpos] at hm
      have hdrop : (src.drop g).length ≤ fuel := by
        rw [List.length_drop]
        omega
      obtain ⟨t, ht, Wt, htlog⟩ := ih Wm hdrop
      refine ⟨t, ?_, Wt, ?_⟩
      · simp only [Stream.fwriteLoop, if_neg hsrc, hg, he, hm, ht, List.length_drop]
        rw [Nat.add_sub_cancel' (by omega)]
      · rw [htlog, hmlog, hlog, File.write_append, List.take_append_drop]

theorem Reading.take (R : s.Reading) {n : Nat} (h : n ≤ s.unread) :
    ({ s with bufpos := s.bufpos + n } : Stream).Reading ∧
      s.logical.read n = (window s.buffer s.bufpos n,
        ({ s with bufpos := s.bufpos + n } : Stream).logical) ∧
      n ≤ s.logical.size - s.logical.offset := by
  have hu : s.unread = s.bufread - s.bufpos := rfl
  have hu' : ({ s with bufpos := s.bufpos + n } : Stream).unread = s.unread - n := by
    show s.bufread - (s.bufpos + n) = _
    omega
  have hp := R.bufpos
  have ho := R.offset
  have R' : ({ s with bufpos := s.bufpos + n } : Stream).Reading := by
    refine ⟨R.room, show s.bufpos + n ≤ s.bufread by omega, R.bufread, ?_, ?_, ?_⟩
    · rw [hu']
      exact Nat.le_trans (Nat.sub_le _ _) ho
    · intro h'
      exact R.inside (by omega)
    · intro i hi
      rw [hu'] at hi ⊢
      have hb := R.bytes (n + i) (by omega)
      have hoff : s.file.offset - s.unread + (n + i) = s.file.offset - (s.unread - n) + i := by
        omega
      rw [hoff, ← Nat.add_assoc] at hb
      exact hb
  have hleft : n ≤ s.logical.size - s.logical.offset := by
    rw [R.logical]
    rcases Nat.eq_zero_or_pos s.unread with h0 | h0
    · omega
    · have hin := R.inside h0
      show n ≤ s.file.size - (s.file.offset - s.unread)
      omega
  refine ⟨R', ?_, hleft⟩
  have hwin : window s.buffer s.bufpos n = window s.file.byte (s.file.offset - s.unread) n :=
    window_congr fun i hi => R.bytes i (by omega)
  have hoff : s.file.offset - s.unread + n = s.file.offset - (s.unread - n) := by omega
  rw [R'.logical, hu', hwin, File.read, Nat.min_eq_left hleft, R.logical]
  simp only [hoff]

theorem Reading.drained (R : s.Reading) :
    ({ s with bufpos := s.bufpos + s.unread } : Stream).logical = s.file := by
  have Re := (R.take (Nat.le_refl s.unread)).1
  have hp := R.bufpos
  have hu : ({ s with bufpos := s.bufpos + s.unread } : Stream).unread = 0 := by
    show s.bufread - (s.bufpos + (s.bufread - s.bufpos)) = 0
    omega
  rw [Re.logical, hu]
  rfl

theorem Reading.refill {n : Nat} (hroom : 0 < s.bufend) (hn : n ≤ s.bufend)
    (hl : n ≤ s.file.size - s.file.offset) {t : Stream}
    (ht : { s with
      file := { s.file with offset := s.file.offset + n }
      buffer := overlay 0 (window s.file.byte s.file.offset n) s.buffer
      bufpos := 0
      bufread := n } = t) : t.Reading ∧ t.unread = n ∧ t.logical = s.file := by
  have Rt : t.Reading := by
    subst ht
    refine ⟨hroom, Nat.zero_le n, hn, Nat.le_add_left n s.file.offset, fun hu => ?_,
      fun i hi => ?_⟩
    · have hpos : 0 < n := hu
      show s.file.offset + n ≤ s.file.size
      omega
    · have hin : i < n := hi
      show overlay 0 (window s.file.byte s.file.offset n) s.buffer (0 + i) =
        s.file.byte (s.file.offset + n - n + i)
      rw [Nat.zero_add, Nat.add_sub_cancel, overlay_window_apply hin]
  refine ⟨Rt, by subst ht; rfl, ?_⟩
  rw [Rt.logical]
  subst ht
  simp only [unread, Nat.sub_zero, Nat.add_sub_cancel]

theorem read_whole {limits : List Nat} {n : Nat} {f : File}
    (h : Whole limits n (f.size - f.offset)) : f.read (quota limits n) = f.read n := by
  have hle := quota_le limits n
  have hm : min (quota limits n) (f.size - f.offset) = min n (f.size - f.offset) := by
    unfold Whole at h
    omega
  simp only [File.read, hm]

/-- Reading, with the first transfer whole where it bypasses the buffer, is that of the file. -/
theorem Reading.freadLoop {fuel count : Nat} (R : s.Reading)
    (hf : count + (if s.unread = 0 then 1 else 0) ≤ fuel)
    (hk : s.bufend < count - s.unread →
      Whole s.reads (count - s.unread) (s.file.size - s.file.offset)) :
    ∃ t, s.freadLoop fuel count = ((s.logical.read count).1, t) ∧ t.Reading ∧
      t.logical = (s.logical.read count).2 := by
  induction fuel generalizing count s with
  | zero =>
    have hc : count = 0 := by omega
    subst hc
    exact ⟨s, by rw [File.read_zero]; rfl, R, by rw [File.read_zero]⟩
  | succ fuel ih =>
    by_cases hc : 0 < count
    · obtain ⟨n, hn⟩ : ∃ n, min count s.unread = n := ⟨_, rfl⟩
      obtain ⟨Re, htake, hleft⟩ := R.take (n := n) (by omega)
      obtain ⟨e, he⟩ : ∃ e : Stream, { s with bufpos := s.bufpos + n } = e := ⟨_, rfl⟩
      rw [he] at Re htake
      have hsplit := File.read_split (f := s.logical) (k := n) (n := count) (by omega) hleft
      rw [htake] at hsplit
      simp only at hsplit
      have hn' : min count (s.bufread - s.bufpos) = n := hn
      by_cases hrest : 0 < count - n
      · have hun : s.unread = n := by omega
        have hfile : e.logical = s.file := by
          rw [← he, ← hun]
          exact R.drained
        rw [hfile] at hsplit
        rw [hun] at hk hf
        by_cases hdirect : s.bufend < count - n
        · have hread := read_whole (hk hdirect)
          refine ⟨{ s with
            file := (s.file.read (count - n)).2
            reads := s.reads.tail
            bufpos := 0
            bufread := 0 }, ?_, Reading.empty R.room, ?_⟩
          · simp only [Stream.freadLoop, if_pos hc, hn', if_pos hrest, if_pos hdirect,
              Stream.read, hread, hsplit]
          · rw [hsplit]
            exact logical_empty rfl rfl
        · obtain ⟨m, hm⟩ : ∃ m, min (quota s.reads s.bufend) (s.file.size - s.file.offset) = m :=
            ⟨_, rfl⟩
          have hq := quota_pos s.reads R.room
          have hle := quota_le s.reads s.bufend
          have hread : s.file.read (quota s.reads s.bufend) =
              (window s.file.byte s.file.offset m,
                { s.file with offset := s.file.offset + m }) := by
            rw [File.read, hm]
          by_cases hz : m = 0
          · have hend : s.file.size ≤ s.file.offset := by omega
            rw [File.read_end hend, List.append_nil] at hsplit
            refine ⟨{ s with
              reads := s.reads.tail
              bufpos := 0
              bufread := 0 }, ?_, Reading.empty R.room, ?_⟩
            · simp only [Stream.freadLoop, if_pos hc, hn', if_pos hrest, if_neg hdirect,
                Stream.read, File.read_end hend, if_true, hsplit]
            · rw [hsplit]
              exact logical_empty rfl rfl
          · obtain ⟨r, hr⟩ : ∃ r : Stream, { s with
                file := { s.file with offset := s.file.offset + m }
                reads := s.reads.tail
                buffer := overlay 0 (window s.file.byte s.file.offset m) s.buffer
                bufpos := 0
                bufread := m } = r := ⟨_, rfl⟩
            obtain ⟨Rr, hru, hrl⟩ := Reading.refill (s := { s with reads := s.reads.tail })
              R.room (show m ≤ s.bufend by omega) (show m ≤ s.file.size - s.file.offset by omega)
              hr
            have hrb : r.bufend = s.bufend := by rw [← hr]
            have hfuel : count - n + (if r.unread = 0 then 1 else 0) ≤ fuel := by
              rw [hru, if_neg hz]
              split at hf
              · omega
              · omega
            obtain ⟨t, ht, Rt, htlog⟩ := ih Rr hfuel (fun h => by
              rw [hrb] at h
              omega)
            rw [hrl] at ht htlog
            have hne : window s.file.byte s.file.offset m ≠ [] := by
              intro h
              have hlen := congrArg List.length h
              rw [length_window] at hlen
              exact hz hlen
            refine ⟨t, ?_, Rt, by rw [hsplit]; exact htlog⟩
            simp only [Stream.freadLoop, if_pos hc, hn', if_pos hrest, if_neg hdirect,
              Stream.read, hread, if_neg hne, length_window, hr, ht, hsplit]
      · have hcn : count - n = 0 := by omega
        rw [hcn, File.read_zero, List.append_nil] at hsplit
        refine ⟨e, ?_, Re, by rw [hsplit]⟩
        simp only [Stream.freadLoop, if_pos hc, hn', if_neg hrest, hsplit, he]
    · have hz : count = 0 := by omega
      subst hz
      exact ⟨s, by rw [File.read_zero]; rfl, R, by rw [File.read_zero]⟩

def Wf (s : Stream) : Prop := s.Writing ∨ s.Reading

theorem Wf.libRdflush (W : s.Wf) :
    ∃ t, s.libRdflush = (true, t) ∧ t.Writing ∧ t.logical = s.logical := by
  cases W with
  | inl W => exact ⟨s, W.libRdflush, W, rfl⟩
  | inr R => exact R.libRdflush

theorem Wf.fseek (W : s.Wf) (offset : Int) (whence : Whence) :
    ∃ t, s.fseek offset whence = ((s.logical.lseek offset whence).isSome, t) ∧ t.Wf ∧
      t.logical = (s.logical.lseek offset whence).getD s.logical := by
  obtain ⟨r, hr, Wr, hlog⟩ := W.libRdflush
  obtain ⟨t, ht, Wt, htlog⟩ := Wr.fseekFlushed offset whence
  rw [hlog] at ht htlog
  refine ⟨t, ?_, .inl Wt, htlog⟩
  simp only [Stream.fseek, hr, if_true, ht]

theorem Wf.libFwrite (W : s.Wf) (src : List UInt8) :
    ∃ t, s.libFwrite src = (some src.length, t) ∧ t.Wf ∧ t.logical = s.logical.write src := by
  obtain ⟨r, hr, Wr, hlog⟩ := W.libRdflush
  obtain ⟨t, ht, Wt, htlog⟩ := Wr.fwriteLoop (Nat.le_refl src.length)
  rw [hlog] at htlog
  refine ⟨t, ?_, .inl Wt, htlog⟩
  simp only [Stream.libFwrite, hr, if_true, ht]

theorem Wf.libWrflush (W : s.Wf) : ∃ t, s.libWrflush = (true, t) ∧ t.Reading ∧
    t.logical = s.logical ∧ t.unread = s.unread ∧ t.bufend = s.bufend ∧ t.reads = s.reads := by
  cases W with
  | inl W =>
    obtain ⟨t, ht, F, hpos, -⟩ := W.libWrflush
    have ht0 := F.bufpos
    have hread := F.bufread
    have hu : t.unread = 0 := by
      unfold unread
      omega
    have hs : s.unread = 0 := by
      have hs0 := W.bufread
      unfold unread
      omega
    exact ⟨t, ht, ⟨by omega, by omega, by omega, by omega, fun h => by omega,
      fun i hi => by omega⟩, F.logical, hu.trans hs.symm, F.bufend, F.reads⟩
  | inr R => exact ⟨s, R.libWrflush, R, rfl, rfl, rfl, rfl⟩

theorem Wf.libFread (W : s.Wf) {count : Nat}
    (hk : s.bufend < count - s.unread →
      Whole s.reads (count - s.unread) (s.logical.size - (s.logical.offset + s.unread))) :
    ∃ t, s.libFread count = (some (s.logical.read count).1, t) ∧ t.Wf ∧
      t.logical = (s.logical.read count).2 := by
  obtain ⟨r, hr, Rr, hlog, hunread, hbufend, hreads⟩ := W.libWrflush
  have hleft : s.logical.size - (s.logical.offset + s.unread) = r.file.size - r.file.offset := by
    have ho := Rr.offset
    rw [← hlog, ← hunread, Rr.logical]
    simp only [Nat.sub_add_cancel ho]
  rw [hleft, ← hunread, ← hbufend, ← hreads] at hk
  have hfuel : count + (if r.unread = 0 then 1 else 0) ≤ count + 1 := by
    split
    · omega
    · omega
  obtain ⟨t, ht, Rt, htlog⟩ := Rr.freadLoop hfuel hk
  rw [hlog] at ht htlog
  refine ⟨t, ?_, .inr Rt, htlog⟩
  simp only [Stream.libFread, hr, if_true, ht]

theorem Wf.fflush (W : s.Wf) : ∃ t, s.fflush = (true, t) ∧ t.Wf ∧ t.logical = s.logical ∧
    t.file.contents = s.logical.contents := by
  cases W with
  | inl W =>
    obtain ⟨t, ht, F, -, hfile⟩ := W.libWrflush
    refine ⟨t, ht, .inl ⟨F.bufread, F.bufpos⟩, F.logical, ?_⟩
    rw [← hfile, F.logical]
  | inr R =>
    refine ⟨s, R.libWrflush, .inr R, rfl, ?_⟩
    rw [R.logical]
    rfl

theorem Wf.limits (W : s.Wf) (reads writes : List Nat) :
    ({ s with reads := reads, writes := writes } : Stream).Wf := by
  cases W with
  | inl W => exact .inl ⟨W.bufread, W.bufpos⟩
  | inr R => exact .inr ⟨R.room, R.bufpos, R.bufread, R.offset, R.inside, R.bytes⟩

end Stream

structure Inv (s : State) : Prop where
  stream : s.stream.Wf
  plain : s.stream.logical = s.plain
  results : s.results = s.plainResults

theorem Inv.exec {s s' : State} {i : Op} (I : Inv s) (hk : i.keeps s)
    (he : i.exec s = some s') : Inv s' := by
  obtain ⟨call, reads, writes⟩ := i
  obtain ⟨e, hstream⟩ : ∃ e : Stream, { s.stream with reads := reads, writes := writes } = e :=
    ⟨_, rfl⟩
  have W : e.Wf := hstream ▸ I.stream.limits reads writes
  have hlog : e.logical = s.plain := by
    rw [← I.plain, ← hstream]
    rfl
  have hcall : ∃ t, e.call call = ((s.plain.call call).1, t) ∧ t.Wf ∧
      t.logical = (s.plain.call call).2 := by
    rw [← hlog]
    cases call with
    | fread count =>
      simp only [Op.keeps, ← hlog] at hk
      subst hstream
      obtain ⟨t, ht, Wt, htlog⟩ := W.libFread hk
      exact ⟨t, by rw [Stream.call, ht]; rfl, Wt, htlog⟩
    | fwrite src =>
      obtain ⟨t, ht, Wt, htlog⟩ := W.libFwrite src
      exact ⟨t, by rw [Stream.call, ht]; rfl, Wt, htlog⟩
    | fflush =>
      obtain ⟨t, ht, Wt, htlog, -⟩ := W.fflush
      exact ⟨t, by rw [Stream.call, ht]; rfl, Wt, htlog⟩
    | fseek offset whence =>
      obtain ⟨t, ht, Wt, htlog⟩ := W.fseek offset whence
      refine ⟨t, ?_, Wt, ?_⟩
      · rw [Stream.call, ht, File.call]
        cases e.logical.lseek offset whence with
        | none => rfl
        | some f => rfl
      · rw [htlog, File.call]
        cases e.logical.lseek offset whence with
        | none => rfl
        | some f => rfl
  obtain ⟨t, ht, Wt, htlog⟩ := hcall
  simp only [Op.exec, hstream, ht] at he
  cases he
  exact ⟨Wt, htlog, by simp only [I.results]⟩

theorem Start.inv {s : State} (h : Start s) : Inv s := by
  obtain ⟨hp, hr⟩ := h.empty
  have hroom := h.room
  refine ⟨.inl ⟨hr, by omega⟩, ?_, h.results.1.trans h.results.2.symm⟩
  rw [Stream.logical_empty hp hr, h.file]

theorem Inv.correct {s : State} (I : Inv s) : Correct s := by
  refine ⟨I.results, fun writes => ?_⟩
  obtain ⟨t, ht, -, -, hcontents⟩ := (I.stream.limits s.stream.reads writes).fflush
  rw [ht, hcontents, ← I.plain]
  rfl

/-- Where no transfer past the buffer is short before the end of the file, a buffered stream
behaves as the file. -/
theorem stdio_transparent {s : State} (h : Reach stdioMachine Start (fun s i => i.keeps s) s) :
    Correct s := by
  have I : Inv s := by
    apply Reach.invariant (I := Inv) (fun _ hs => hs.inv) _ h
    intro s i s' I _ hk he
    exact I.exec hk he
  exact I.correct

def fiveBytes : File := ⟨5, overlay 0 [1, 2, 3, 4, 5] fun _ => 0, 0⟩

def opened : State := ⟨⟨fiveBytes, [], [], 2, fun _ => 0, 0, 0⟩, fiveBytes, [], []⟩

theorem opened_start : Start opened := by
  refine ⟨rfl, fun i hi => ?_, by decide, ⟨rfl, rfl⟩, rfl, rfl⟩
  have hout : overlay 0 [1, 2, 3, 4, 5] (fun _ => (0 : UInt8)) i = 0 :=
    overlay_of_outside (.inr hi)
  exact hout

instance (s : State) (i : Op) : Decidable (stdioMachine.valid s i) := .isTrue trivial

instance (s : State) (i : Op) : Decidable (i.keeps s) :=
  match i with
  | ⟨.fread count, reads, _⟩ => inferInstanceAs (Decidable
      (s.stream.bufend < count - (s.stream.bufread - s.stream.bufpos) →
        Whole reads (count - (s.stream.bufread - s.stream.bufpos))
          (s.plain.size - (s.plain.offset + (s.stream.bufread - s.stream.bufpos)))))
  | ⟨.fwrite _, _, _⟩ => .isTrue trivial
  | ⟨.fflush, _, _⟩ => .isTrue trivial
  | ⟨.fseek _ _, _, _⟩ => .isTrue trivial

/-- A read, a write over what follows, a seek relative to where that ends and a read, with
transfers of one byte into and out of the buffer. -/
def mixed : List Op :=
  [⟨.fread 1, [], []⟩, ⟨.fwrite [7, 8, 9], [], [0, 0]⟩, ⟨.fseek (-2) .cur, [], [0]⟩,
    ⟨.fread 2, [0, 0], []⟩]

theorem stdio_transparent_run : ∃ s,
    runAll stdioMachine (fun s i => i.keeps s) opened mixed = some s ∧
      s.results = [.bytes (some [1]), .count (some 3), .ok true, .bytes (some [8, 9])] ∧
      Correct s := by
  have h : ∃ s, runAll stdioMachine (fun s i => i.keeps s) opened mixed = some s ∧
      s.results = [.bytes (some [1]), .count (some 3), .ok true, .bytes (some [8, 9])] := by
    decide +kernel
  obtain ⟨s, hs, hresults⟩ := h
  exact ⟨s, hs, hresults, stdio_transparent (.runAll (.init opened_start) hs)⟩

/-- A read of three bytes ends with the one that the first transfer gives. Without a buffer
the same transfers give all three. -/
theorem direct_read_short : ∃ s, Reachable stdioMachine Start s ∧
    s.results = [.bytes (some [1])] ∧ s.plainResults = [.bytes (some [1, 2, 3])] ∧
      (fiveBytes.freadLoop 3 [0] 3).1 = [1, 2, 3] ∧ ¬ Correct s := by
  have h : ∃ s, runAll stdioMachine (fun _ _ => True) opened [⟨.fread 3, [0], []⟩] = some s ∧
      s.results = [.bytes (some [1])] ∧ s.plainResults = [.bytes (some [1, 2, 3])] := by
    decide +kernel
  obtain ⟨s, hs, hresults, hplain⟩ := h
  refine ⟨s, .runAll (.init opened_start) hs, hresults, hplain, by decide, fun C => ?_⟩
  have he := C.results
  rw [hresults, hplain] at he
  exact absurd he (by decide)

end NuttxAvr32.Stdio
