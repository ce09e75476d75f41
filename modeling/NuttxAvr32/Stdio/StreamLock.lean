import NuttxAvr32.Lib.Holding
import Mathlib.Algebra.Order.Monoid.Unbundled.Basic
import Mathlib.Algebra.Ring.Int.Defs

/-! # The semaphore of a stream

`lib_fread`, `lib_fwrite` and `lib_fflush` with what they call, over a file whose transfers may
fail. A task takes the semaphore of a stream as often as it likes and counts. What the buffer
holds is left out; pointers into it are offsets from `fs_bufstart`.
-/

namespace NuttxAvr32.Stdio.Lock

open Holding Holding.Call

inductive Sem
  | fsSem
deriving DecidableEq

/-- `FILE`. `mine` is `fs_counts` where `fs_holder` is the caller, and zero where it is not. -/
structure Stream where
  filedes : Int
  rdok : Bool
  wrok : Bool
  nungotten : Nat
  mine : Nat
  bufend : Nat
  bufpos : Nat
  bufread : Nat

abbrev Prog (α : Type) : Type := Holding.Call Stream Sem Int α

abbrev OK : Int := 0
abbrev ERROR : Int := -1

def sizeT (i : Int) : Nat := (i % 2 ^ 32).toNat

def Stream.setMine (n : Nat) (s : Stream) : Stream := { s with mine := n }

def libTakeSemaphore : Prog Unit := do
  let s ← get
  if 0 < s.mine then modify (Stream.setMine (s.mine + 1))
  else
    take .fsSem
    modify (Stream.setMine 1)

/-- It is asserted that the caller is the holder. -/
def libGiveSemaphore : Prog Unit := do
  let s ← get
  if s.mine = 0 then halt
  else if 1 < s.mine then modify (Stream.setMine (s.mine - 1))
  else
    modify (Stream.setMine 0)
    give .fsSem

/-- One turn of the loop of `lib_fflush`; the loop ends with `none` when a `write` fails. -/
def flushPass (bforce : Bool) (nbuffer : Nat) : Prog (Nat ⊕ Option Nat) := do
  let written ← ask
  if written < 0 then return .inr none
  else
    let nbuffer := sizeT (nbuffer - written)
    if bforce = true ∧ 0 < nbuffer then return .inl nbuffer else return .inr (some nbuffer)

def libFflush (turns : Nat) (bforce : Bool) : Prog Int := do
  let s ← get
  if s.filedes < 0 ∨ s.wrok = false then return ERROR
  else
    libTakeSemaphore
    if s.bufpos ≠ 0 then
      if s.bufread ≠ 0 then return 0 -- no `lib_give_semaphore` here
      else
        let r ← loop (flushPass bforce) turns s.bufpos
        match r with
        | none =>
          libGiveSemaphore
          return ERROR
        | some nbuffer =>
          modify fun s => { s with bufpos := nbuffer }
          libGiveSemaphore
          return nbuffer
    else
      libGiveSemaphore
      return 0

def libWrflush (turns : Nat) : Prog Int := do
  let s ← get
  if s.wrok = false then return OK
  else
    let ret ← libFflush turns true
    if ret = 0 then return OK else return ERROR

def fseek (turns : Nat) (rdflush : Prog Int) : Prog Int := do
  let ret ← rdflush
  if ret < 0 then return ERROR
  else
    let ret ← libWrflush turns
    if ret < 0 then return ERROR
    else
      modify fun s => { s with nungotten := 0 }
      let offset ← ask
      if offset = -1 then return ERROR else return OK

/-- `lib_rdflush`. It calls `fseek`, which calls it; `depth` bounds this. -/
def libRdflush (turns : Nat) : Nat → Prog Int
  | 0 => halt
  | depth + 1 => do
    libTakeSemaphore
    let s ← get
    if s.bufread ≠ 0 then
      modify fun s => { s with bufpos := 0, bufread := 0, nungotten := 0 }
      let ret ← fseek turns (libRdflush turns depth)
      libGiveSemaphore
      if ret < 0 then return ERROR else return OK
    else
      libGiveSemaphore
      return OK

/-- One turn of the loop of `lib_fread`: what is still to be read, and how much has been. -/
def freadPass (i : Nat × Nat) : Prog (Nat × Nat ⊕ Int) := do
  let (count, dest) := i
  let s ← get
  let n := min count (s.bufread - s.bufpos)
  modify fun s => { s with bufpos := s.bufpos + n }
  if count = n then return .inr (dest + n)
  else
    modify fun s => { s with bufpos := 0, bufread := 0 }
    let ret ← ask
    if ret < 0 then return .inr ret
    else if ret = 0 then return .inr (dest + n)
    else if s.bufend < count - n then return .inr (dest + n + ret)
    else
      modify fun s => { s with bufread := ret.toNat }
      return .inl (count - n, dest + n)

def libFread (turns : Nat) (null : Bool) (count : Nat) : Prog Int := do
  let s ← get
  if null = true ∨ s.rdok = false then return -1
  else
    libTakeSemaphore
    let n := min s.nungotten count
    modify fun s => { s with nungotten := s.nungotten - n }
    let ret ← libWrflush turns
    if ret ≠ 0 then return ERROR -- no `lib_give_semaphore` here
    else
      let ret ← loop freadPass (count - n + 1) (count - n, n)
      libGiveSemaphore
      return ret

/-- One turn of the loop of `lib_fwrite`: what is still to be written, and how much has been. The
loop ends with `none` when a flush fails. -/
def fwritePass (turns : Nat) (i : Nat × Nat) : Prog (Nat × Nat ⊕ Option Nat) := do
  let (count, src) := i
  if count = 0 then return .inr (some src)
  else
    let s ← get
    let gulp := min (sizeT (s.bufend - s.bufpos)) count
    modify fun s => { s with bufpos := s.bufpos + gulp }
    if s.bufend ≤ s.bufpos + gulp then
      let buffered ← libFflush turns false
      if buffered < 0 then return .inr none else return .inl (count - gulp, src + gulp)
    else return .inl (count - gulp, src + gulp)

def libFwrite (turns : Nat) (null : Bool) (count : Nat) : Prog Int := do
  let s ← get
  if null = true ∨ s.wrok = false then return ERROR
  else
    libTakeSemaphore
    let ret ← libRdflush turns turns
    if ret < 0 then
      libGiveSemaphore
      return ERROR
    else
      let r ← loop (fwritePass turns) turns (count, 0)
      match r with
      | none =>
        libGiveSemaphore
        return ERROR
      | some src =>
        libGiveSemaphore
        return src

section

variable {w w' : World Stream Sem Int} {U : Unit → World Stream Sem Int → Prop}

def taken (w : World Stream Sem Int) : World Stream Sem Int :=
  { (if 0 < w.data.mine then w else w.took .fsSem) with
    data := w.data.setMine (w.data.mine + 1) }

def given (w : World Stream Sem Int) : World Stream Sem Int :=
  { (if 1 < w.data.mine then w else w.gave .fsSem) with
    data := w.data.setMine (w.data.mine - 1) }

def Free (w : World Stream Sem Int) : Prop := w.data.mine = 0 → w.holds .fsSem ≤ 0

theorem wp_libTakeSemaphore (h : Free w) : wp libTakeSemaphore U w ↔ U () (taken w) := by
  unfold libTakeSemaphore taken
  by_cases hm : 0 < w.data.mine
  · simp [hm]
  · have h0 : w.data.mine = 0 := Nat.eq_zero_of_not_pos hm
    have hfree := h h0
    simp [h0, hfree]

theorem wp_libGiveSemaphore (h : 0 < w.data.mine) :
    wp libGiveSemaphore U w ↔ U () (given w) := by
  have h0 : w.data.mine ≠ 0 := Nat.ne_of_gt h
  unfold libGiveSemaphore given
  by_cases hm : 1 < w.data.mine
  · simp [h0, hm]
  · have h1 : w.data.mine = 1 := by omega
    simp [h1]
    exact Iff.rfl

structure Locked (w w' : World Stream Sem Int) : Prop where
  sems : SameSems w w'
  mine : w'.data.mine = w.data.mine

@[simp] theorem mine_taken (w : World Stream Sem Int) : (taken w).data.mine = w.data.mine + 1 := rfl

@[simp] theorem mine_given (w : World Stream Sem Int) : (given w).data.mine = w.data.mine - 1 := rfl

@[simp] theorem answers_taken (w : World Stream Sem Int) : (taken w).answers = w.answers := by
  unfold taken
  split
  · rfl
  · rfl

theorem free_taken (w : World Stream Sem Int) : Free (taken w) :=
  fun h => absurd h (Nat.succ_ne_zero _)

theorem Locked.refl (w : World Stream Sem Int) : Locked w w := ⟨.refl w, rfl⟩

theorem Locked.trans {w'' : World Stream Sem Int} (h : Locked w w') (h' : Locked w' w'') :
    Locked w w'' :=
  ⟨h.sems.trans h'.sems, h'.mine.trans h.mine⟩

theorem Locked.free (h : Locked w w') (hw : Free w) : Free w' := by
  intro h0
  rw [h.mine] at h0
  have hle := hw h0
  rwa [← h.sems.2] at hle

theorem Locked.pos (h : Locked (taken w) w') : 0 < w'.data.mine := by
  rw [h.mine, mine_taken]
  exact Nat.succ_pos _

theorem Locked.given (h : Locked (taken w) w') : Locked w (given w') := by
  have hm : w'.data.mine = w.data.mine + 1 := h.mine
  have hmine : (Lock.given w').data.mine = w.data.mine := by
    show w'.data.mine - 1 = w.data.mine
    omega
  refine ⟨?_, hmine⟩
  have hsems := h.sems
  by_cases h0 : 0 < w.data.mine
  · have h1 : 1 < w'.data.mine := by omega
    unfold taken at hsems
    unfold Lock.given
    rw [if_pos h0] at hsems
    rw [if_pos h1]
    exact hsems
  · have h1 : ¬ 1 < w'.data.mine := by omega
    unfold taken at hsems
    unfold Lock.given
    rw [if_neg h0] at hsems
    rw [if_neg h1]
    have hgave : SameSems w (w'.gave .fsSem) := SameSems.gave hsems
    exact hgave

end

section

variable {w w' : World Stream Sem Int} {turns : Nat} {bforce : Bool} {nbuffer : Nat}
  {Q : Int → World Stream Sem Int → Prop}

/-- What is kept in the course of a call that takes nothing more: the semaphore, and whether the
buffer holds bytes that were read. -/
structure Kept (w w' : World Stream Sem Int) : Prop extends Locked w w' where
  bufread : w'.data.bufread = w.data.bufread

theorem Kept.refl (w : World Stream Sem Int) : Kept w w := ⟨.refl w, rfl⟩

theorem Kept.trans {w'' : World Stream Sem Int} (h : Kept w w') (h' : Kept w' w'') : Kept w w'' :=
  ⟨h.toLocked.trans h'.toLocked, h'.bufread.trans h.bufread⟩

theorem Kept.given (h : Kept (taken w) w') : Kept w (given w') := ⟨h.toLocked.given, h.bufread⟩

/-- A flush of a stream that is open for writing finds nothing that was read behind what is to be
written. -/
def FlushKeeps (s : Stream) : Prop :=
  0 ≤ s.filedes → s.wrok = true → s.bufpos ≠ 0 → s.bufread = 0

instance decidableFlushKeeps (s : Stream) : Decidable (FlushKeeps s) :=
  inferInstanceAs (Decidable (_ → _ → _ → _))

theorem flushPass_kept (w : World Stream Sem Int) :
    wp (flushPass bforce nbuffer) (fun _ w' => Kept w w') w := by
  unfold flushPass
  simp only [wp_bind, wp_ask, wp_ite, wp_pure]
  have h : Kept w { w with answers := fun n => w.answers (n + 1) } :=
    ⟨⟨⟨rfl, rfl⟩, rfl⟩, rfl⟩
  simp [h]

theorem flushLoop_kept (w : World Stream Sem Int) :
    wp (loop (flushPass bforce) turns nbuffer) (fun _ w' => Kept w w') w := by
  apply wp_loop (Kept w) (fun nbuffer w' hw => ?_) turns (.refl w)
  apply wp_mono (flushPass_kept w')
  intro r w'' hw'
  exact hw.trans hw'

theorem Kept.give (h : Kept (taken w) w') {ret : Int} :
    wp (do
      libGiveSemaphore
      return ret : Prog Int) (fun _ w'' => Kept w w'') w' := by
  rw [wp_bind, wp_libGiveSemaphore h.pos, wp_pure]
  exact h.given

theorem libFflush_kept (hfree : Free w) (h : FlushKeeps w.data) :
    wp (libFflush turns bforce) (fun _ w' => Kept w w') w := by
  unfold libFflush
  rw [wp_bind, wp_get, wp_ite]
  split
  · exact Kept.refl w
  · rename_i hopen
    rw [wp_bind, wp_libTakeSemaphore hfree, wp_ite]
    split
    · rename_i hpos
      have hread : w.data.bufread = 0 := h (by omega) (by simpa using fun hw => hopen (.inr hw)) hpos
      rw [wp_ite, if_neg (fun hne => hne hread), wp_bind]
      apply wp_mono (flushLoop_kept (taken w))
      intro r w' hw
      cases r with
      | none => exact hw.give
      | some n =>
        rw [wp_bind, wp_modify]
        have hset : Kept (taken w) { w' with data := { w'.data with bufpos := n } } :=
          ⟨⟨hw.sems, hw.mine⟩, hw.bufread⟩
        exact hset.give
    · exact (Kept.refl (taken w)).give

theorem libFflush_leaks (hfree : Free w) (h : ¬ FlushKeeps w.data) :
    wp (libFflush turns bforce) Q w ↔ Q 0 (taken w) := by
  have hopen : 0 ≤ w.data.filedes ∧ w.data.wrok = true ∧ w.data.bufpos ≠ 0 ∧ w.data.bufread ≠ 0 := by
    unfold FlushKeeps at h
    simpa using h
  obtain ⟨hf, hw, hpos, hread⟩ := hopen
  have hno : ¬ (w.data.filedes < 0 ∨ w.data.wrok = false) := by
    simp [hw, hf]
  unfold libFflush
  rw [wp_bind, wp_get, wp_ite, if_neg hno, wp_bind, wp_libTakeSemaphore hfree, wp_ite, if_pos hpos,
    wp_ite, if_pos hread, wp_pure]

end

section

variable {w : World Stream Sem Int} {turns : Nat}

theorem FlushKeeps.of_bufread {s : Stream} (h : s.bufread = 0) : FlushKeeps s := fun _ _ _ => h

theorem libWrflush_kept (hfree : Free w) (h : FlushKeeps w.data) :
    wp (libWrflush turns) (fun _ w' => Kept w w') w := by
  unfold libWrflush
  rw [wp_bind, wp_get, wp_ite]
  split
  · exact Kept.refl w
  · rw [wp_bind]
    apply wp_mono (libFflush_kept hfree h)
    intro ret w' hw
    rw [wp_ite]
    split
    · exact hw
    · exact hw

/-- After `lib_rdflush` the buffer holds nothing that was read. -/
structure Flushed (w w' : World Stream Sem Int) : Prop extends Locked w w' where
  bufread : w'.data.bufread = 0

theorem fseek_flushed {rdflush : Prog Int} (hfree : Free w)
    (h : wp rdflush (fun _ w' => Flushed w w') w) :
    wp (fseek turns rdflush) (fun _ w' => Flushed w w') w := by
  unfold fseek
  rw [wp_bind]
  apply wp_mono h
  intro ret w' hw
  rw [wp_ite]
  split
  · exact hw
  · rw [wp_bind]
    apply wp_mono (libWrflush_kept (hw.free hfree) (.of_bufread hw.bufread))
    intro ret w'' hw'
    have hflushed : Flushed w w'' := ⟨hw.toLocked.trans hw'.toLocked, hw'.bufread.trans hw.bufread⟩
    rw [wp_ite]
    split
    · exact hflushed
    · have hset : ∀ n answers, Flushed w
          { w'' with
            data := { w''.data with nungotten := n }
            answers := answers } :=
        fun n answers => ⟨⟨hflushed.sems, hflushed.mine⟩, hflushed.bufread⟩
      rw [wp_bind, wp_modify, wp_bind, wp_ask, wp_ite]
      split
      · exact hset _ _
      · exact hset _ _

theorem libRdflush_flushed (hfree : Free w) (depth : Nat) :
    wp (libRdflush turns depth) (fun _ w' => Flushed w w') w := by
  induction depth generalizing w with
  | zero => trivial
  | succ depth ih =>
    unfold libRdflush
    rw [wp_bind, wp_libTakeSemaphore hfree, wp_bind, wp_get, wp_ite]
    split
    · have hset : Locked (taken w)
          { taken w with
            data :=
              { (taken w).data with
                bufpos := 0
                bufread := 0
                nungotten := 0 } } := ⟨.refl _, rfl⟩
      rw [wp_bind, wp_modify, wp_bind]
      apply wp_mono (fseek_flushed (hset.free (free_taken w)) (ih (hset.free (free_taken w))))
      intro ret w' hw
      have hlocked := hset.trans hw.toLocked
      have hflushed : Flushed w (given w') := ⟨hlocked.given, hw.bufread⟩
      rw [wp_bind, wp_libGiveSemaphore hlocked.pos, wp_ite]
      split
      · exact hflushed
      · exact hflushed
    · rename_i hread
      rw [wp_bind, wp_libGiveSemaphore (Locked.refl (taken w)).pos, wp_pure]
      exact ⟨(Locked.refl (taken w)).given, Decidable.not_not.mp hread⟩

theorem fwritePass_flushed (hfree : Free w) (h : w.data.bufread = 0) (i : Nat × Nat) :
    wp (fwritePass turns i) (fun _ w' => Flushed w w') w := by
  obtain ⟨count, src⟩ := i
  unfold fwritePass
  rw [wp_ite]
  split
  · exact ⟨.refl w, h⟩
  · rw [wp_bind, wp_get, wp_bind, wp_modify, wp_ite]
    split
    · have hset : ∀ n, Locked w { w with data := { w.data with bufpos := n } } :=
        fun n => ⟨⟨rfl, rfl⟩, rfl⟩
      have hflush : ∀ n, wp (libFflush turns false) (fun _ w' => Flushed w w')
          { w with data := { w.data with bufpos := n } } := by
        intro n
        apply wp_mono (libFflush_kept ((hset n).free hfree) (.of_bufread h))
        exact fun ret w' hw => ⟨(hset n).trans hw.toLocked, hw.bufread.trans h⟩
      rw [wp_bind]
      apply wp_mono (hflush _)
      intro ret w' hflushed
      rw [wp_ite]
      split
      · exact hflushed
      · exact hflushed
    · exact ⟨⟨⟨rfl, rfl⟩, rfl⟩, h⟩

theorem libFwrite_locked (hfree : Free w) (null : Bool) (count : Nat) :
    wp (libFwrite turns null count) (fun _ w' => Locked w w') w := by
  unfold libFwrite
  rw [wp_bind, wp_get, wp_ite]
  split
  · exact .refl w
  · rw [wp_bind, wp_libTakeSemaphore hfree, wp_bind]
    apply wp_mono (libRdflush_flushed (free_taken w) turns)
    intro ret w' hw
    rw [wp_ite]
    split
    · rw [wp_bind, wp_libGiveSemaphore hw.pos, wp_pure]
      exact hw.given
    · have hloop : wp (loop (fwritePass turns) turns (count, 0))
          (fun _ w'' => Flushed (taken w) w'') w' := by
        apply wp_loop (Flushed (taken w)) (fun i w'' hw'' => ?_) turns hw
        apply wp_mono (fwritePass_flushed (hw''.free (free_taken w)) hw''.bufread i)
        exact fun r w3 hw3 => ⟨hw''.toLocked.trans hw3.toLocked, hw3.bufread⟩
      rw [wp_bind]
      apply wp_mono hloop
      intro r w'' hw''
      cases r with
      | none =>
        rw [wp_bind, wp_libGiveSemaphore hw''.pos, wp_pure]
        exact hw''.given
      | some src =>
        rw [wp_bind, wp_libGiveSemaphore hw''.pos, wp_pure]
        exact hw''.given

end

section

variable {w w' : World Stream Sem Int} {turns : Nat}

def leftToWrite (answers : Nat → Int) (nbuffer : Nat) : Nat → Nat
  | 0 => nbuffer
  | k + 1 =>
    let left := leftToWrite answers nbuffer k
    if left = 0 then 0 else sizeT (left - answers k)

/-- A stream that is open for writing has a file; nothing that was read is in the buffer behind
what is to be written, and no write of that fails. -/
structure FreadKeeps (s : Stream) (answers : Nat → Int) : Prop where
  filedes : s.wrok = true → 0 ≤ s.filedes
  bufread : s.wrok = true → s.bufpos ≠ 0 → s.bufread = 0
  writes : s.wrok = true → ∀ k, 0 < leftToWrite answers s.bufpos k → 0 ≤ answers k

theorem leftToWrite_shift (answers : Nat → Int) {nbuffer : Nat} (h : nbuffer ≠ 0) (k : Nat) :
    leftToWrite answers nbuffer (k + 1) =
      leftToWrite (fun i => answers (i + 1)) (sizeT (nbuffer - answers 0)) k := by
  induction k with
  | zero => simp [leftToWrite, h]
  | succ k ih =>
    rw [leftToWrite, ih]
    rfl

theorem leftToWrite_zero (answers : Nat → Int) (k : Nat) : leftToWrite answers 0 k = 0 := by
  induction k with
  | zero => rfl
  | succ k ih => simp [leftToWrite, ih]

theorem flushLoop_iff (turns : Nat) {nbuffer : Nat} (h : 0 < nbuffer) (w : World Stream Sem Int) :
    wp (loop (flushPass true) turns nbuffer) (fun r _ => r = some 0) w ↔
      ∀ k < turns, 0 < leftToWrite w.answers nbuffer k → 0 ≤ w.answers k := by
  induction turns generalizing nbuffer w with
  | zero => exact ⟨fun _ k hk => absurd hk (Nat.not_lt_zero k), fun _ => trivial⟩
  | succ turns ih =>
    have hfirst : 0 < leftToWrite w.answers nbuffer 0 := h
    have hshift := leftToWrite_shift w.answers (Nat.ne_of_gt h)
    rw [wp_loop_succ, Nat.forall_lt_succ_left]
    simp only [flushPass, wp_bind, wp_ask, wp_ite, wp_pure, hshift, true_and]
    by_cases hw : w.answers 0 < 0
    · rw [if_pos hw]
      constructor
      · intro hn
        cases hn
      · exact fun hall => absurd (hall.1 hfirst) (Int.not_le.mpr hw)
    · rw [if_neg hw]
      by_cases hleft : 0 < sizeT (nbuffer - w.answers 0)
      · rw [if_pos hleft, ih hleft]
        exact ⟨fun hall => ⟨fun _ => Int.not_lt.mp hw, hall⟩, fun hall => hall.2⟩
      · have h0 : sizeT (nbuffer - w.answers 0) = 0 := Nat.eq_zero_of_not_pos hleft
        rw [if_neg hleft, h0]
        constructor
        · intro _
          refine ⟨fun _ => Int.not_lt.mp hw, fun k _ hk => ?_⟩
          rw [leftToWrite_zero] at hk
          exact absurd hk (Nat.lt_irrefl 0)
        · exact fun _ => rfl

theorem not_locked_taken (h : Locked (taken w) w') : ¬ Locked w w' := by
  intro hl
  have hm := h.mine
  rw [hl.mine, mine_taken] at hm
  omega

theorem libFflush_iff (hfree : Free w) (hopen : w.data.wrok = true) :
    wp (libFflush turns true) (fun ret w' => ret = 0 ∧ Locked w w') w ↔
      0 ≤ w.data.filedes ∧ (w.data.bufpos ≠ 0 → w.data.bufread = 0) ∧
        ∀ k < turns, 0 < leftToWrite w.answers w.data.bufpos k → 0 ≤ w.answers k := by
  by_cases hf : w.data.filedes < 0
  · have hno : ¬ 0 ≤ w.data.filedes := Int.not_le.mpr hf
    simp only [hno, false_and, iff_false]
    unfold libFflush
    rw [wp_bind, wp_get, wp_ite, if_pos (.inl hf), wp_pure]
    exact fun h => absurd h.1 (by decide)
  · have hnot : ¬ (w.data.filedes < 0 ∨ w.data.wrok = false) := by simp [hf, hopen]
    rw [and_iff_right (Int.not_lt.mp hf)]
    by_cases hkeeps : FlushKeeps w.data
    · unfold libFflush
      rw [wp_bind, wp_get, wp_ite, if_neg hnot, wp_bind, wp_libTakeSemaphore hfree, wp_ite]
      by_cases hpos : w.data.bufpos ≠ 0
      · have hread : w.data.bufread = 0 := hkeeps (Int.not_lt.mp hf) hopen hpos
        have hloop := flushLoop_iff turns (Nat.pos_of_ne_zero hpos) (taken w)
        rw [answers_taken] at hloop
        rw [if_pos hpos, wp_ite, if_neg (fun hne => hne hread), wp_bind,
          and_iff_right (fun _ => hread)]
        refine Iff.trans ?_ hloop
        apply wp_congr (flushLoop_kept (taken w))
        intro r w' hw
        cases r with
        | none =>
          rw [wp_bind, wp_libGiveSemaphore hw.pos, wp_pure]
          simp
        | some n =>
          have hset : Locked (taken w) { w' with data := { w'.data with bufpos := n } } :=
            ⟨hw.sems, hw.mine⟩
          rw [wp_bind, wp_modify, wp_bind, wp_libGiveSemaphore hset.pos, wp_pure]
          have hgiven := hset.given
          simp [hgiven]
      · have hgiven := (Locked.refl (taken w)).given
        have h0 : w.data.bufpos = 0 := Decidable.not_not.mp hpos
        rw [if_neg hpos, wp_bind, wp_libGiveSemaphore (Locked.refl (taken w)).pos, wp_pure]
        simp [hgiven, h0, leftToWrite_zero]
    · have hread : ¬ (w.data.bufpos ≠ 0 → w.data.bufread = 0) :=
        fun h => hkeeps fun _ _ => h
      have hnl := not_locked_taken (Locked.refl (taken w))
      rw [libFflush_leaks hfree hkeeps]
      simp only [hnl, hread, and_false, false_and]

theorem libWrflush_iff (turns : Nat) (hfree : Free w) :
    wp (libWrflush turns) (fun ret w' => ret = 0 ∧ Locked w w') w ↔
      (w.data.wrok = true → 0 ≤ w.data.filedes ∧ (w.data.bufpos ≠ 0 → w.data.bufread = 0) ∧
        ∀ k < turns, 0 < leftToWrite w.answers w.data.bufpos k → 0 ≤ w.answers k) := by
  unfold libWrflush
  rw [wp_bind, wp_get, wp_ite]
  cases hopen : w.data.wrok with
  | false => simp [Locked.refl]
  | true =>
    have hpost : ∀ (ret : Int) w', wp (if ret = 0 then pure OK else pure ERROR : Prog Int)
        (fun ret w' => ret = 0 ∧ Locked w w') w' ↔ ret = 0 ∧ Locked w w' := by
      intro ret w'
      by_cases hret : ret = 0
      · simp [hret]
      · simp [hret]
    rw [if_neg (by decide), wp_bind, ← libFflush_iff hfree hopen]
    simp only [hpost, true_imp_iff]

/-- Either the semaphore is as before, or `lib_fflush` has kept it and returned success. -/
theorem libWrflush_cases (hfree : Free w) : wp (libWrflush turns)
    (fun ret w' => Locked w w' ∨ (ret = 0 ∧ w' = taken w)) w := by
  by_cases h : FlushKeeps w.data
  · exact wp_mono (libWrflush_kept hfree h) fun ret w' hw => .inl hw.toLocked
  · unfold libWrflush
    rw [wp_bind, wp_get, wp_ite]
    split
    · exact .inl (.refl w)
    · rw [wp_bind, libFflush_leaks hfree h]
      exact .inr ⟨rfl, rfl⟩

/-- A turn of the loop of `lib_fread` returns; where another follows, something remains and there
is something in the buffer. -/
theorem freadPass_returns (count dest : Nat) (w : World Stream Sem Int) :
    Returns (freadPass (count, dest)) (fun r w' => Locked w w' ∧ ∀ i, r = .inl i →
      0 < i.1 ∧ i.1 = count - (w.data.bufread - w.data.bufpos) ∧
        w'.data.bufpos < w'.data.bufread) w := by
  have hset : ∀ bufpos bufread answers, Locked w
      { w with
        data :=
          { w.data with
            bufpos := bufpos
            bufread := bufread }
        answers := answers } := fun _ _ _ => ⟨⟨rfl, rfl⟩, rfl⟩
  simp only [freadPass, returns_bind, returns_get, returns_modify, returns_ask, returns_ite,
    returns_pure]
  split
  · exact ⟨hset _ _ _, fun i hi => by cases hi⟩
  · rename_i hmore
    split
    · exact ⟨hset _ _ _, fun i hi => by cases hi⟩
    · split
      · exact ⟨hset _ _ _, fun i hi => by cases hi⟩
      · split
        · exact ⟨hset _ _ _, fun i hi => by cases hi⟩
        · refine ⟨hset _ _ _, fun i hi => ?_⟩
          cases hi
          dsimp only
          omega

theorem freadLoop_returns (turns : Nat) (i : Nat × Nat) (w : World Stream Sem Int)
    (h : i.1 < turns ∨ (i.1 = turns ∧ 0 < turns ∧ w.data.bufpos < w.data.bufread)) :
    Returns (loop freadPass turns i) (fun _ w' => Locked w w') w := by
  induction turns generalizing i w with
  | zero => omega
  | succ turns ih =>
    rw [returns_loop_succ]
    apply (freadPass_returns i.1 i.2 w).mono
    intro r w' hw
    cases r with
    | inr ret => exact hw.1
    | inl i' =>
      obtain ⟨hpos, hcount, hbuf⟩ := hw.2 i' rfl
      apply (ih i' w' (by omega)).mono
      exact fun ret w'' hw' => hw.1.trans hw'

theorem freadRest (count dest : Nat) (h : 0 < w.data.mine) : ∃ ret w', Locked w w' ∧
    ∀ Q, wp (do
      let ret ← loop freadPass (count + 1) (count, dest)
      libGiveSemaphore
      return ret : Prog Int) Q w ↔ Q ret (given w') := by
  have hreturns := freadLoop_returns (count + 1) (count, dest) w (.inl (Nat.lt_succ_self count))
  obtain ⟨ret, w', hw, hiff⟩ := hreturns.exists
  refine ⟨ret, w', hw, fun Q => ?_⟩
  have hpos : 0 < w'.data.mine := by
    rw [hw.mine]
    exact h
  rw [wp_bind, hiff, wp_bind, wp_libGiveSemaphore hpos, wp_pure]

end

section

variable {s : Stream} {count : Sem → Int} {answers : Nat → Int} {null : Bool} {size turns : Nat}
  {α : Type}

/-- A call that finds the semaphore so leaves it so where it returns, and does not wait for
itself. -/
def BalancedCall (p : Prog α) (s : Stream) (count : Sem → Int) (answers : Nat → Int) : Prop :=
  wp p (fun _ w' => w'.count = count ∧ w'.data.mine = s.mine) ⟨s, count, fun _ => 0, answers⟩

theorem BalancedCall.of_locked {p : Prog α} (h : ∀ w, Free w → wp p (fun _ w' => Locked w w') w) :
    BalancedCall p s count answers :=
  wp_mono (h _ fun _ => Int.le_refl 0) fun _ _ hw => ⟨hw.sems.1, hw.mine⟩

theorem libFflush_balanced (bforce : Bool) :
    BalancedCall (libFflush turns bforce) s count answers ↔ FlushKeeps s := by
  by_cases h : FlushKeeps s
  · have hwp : BalancedCall (libFflush turns bforce) s count answers :=
      wp_mono (libFflush_kept (w := ⟨s, count, fun _ => 0, answers⟩) (fun _ => Int.le_refl 0) h)
        fun _ _ hw => ⟨hw.sems.1, hw.mine⟩
    exact ⟨fun _ => h, fun _ => hwp⟩
  · refine ⟨fun hb => ?_, fun hk => absurd hk h⟩
    have hleak := (libFflush_leaks (w := ⟨s, count, fun _ => 0, answers⟩)
      (fun _ => Int.le_refl 0) h).mp hb
    have hm : s.mine + 1 = s.mine := hleak.2
    omega

theorem libFwrite_balanced : BalancedCall (libFwrite turns null size) s count answers :=
  .of_locked fun _ hfree => libFwrite_locked hfree null size

theorem libFread_iff (turns : Nat) (hnull : null = false) (hrd : s.rdok = true) :
    BalancedCall (libFread turns null size) s count answers ↔
      (s.wrok = true → 0 ≤ s.filedes ∧ (s.bufpos ≠ 0 → s.bufread = 0) ∧
        ∀ k < turns, 0 < leftToWrite answers s.bufpos k → 0 ≤ answers k) := by
  have hfree : Free ⟨s, count, fun _ => 0, answers⟩ := fun _ => Int.le_refl 0
  obtain ⟨w1, hw1⟩ : ∃ w1, w1 =
      { taken ⟨s, count, fun _ => 0, answers⟩ with
        data :=
          { s.setMine (s.mine + 1) with
            nungotten := s.nungotten - min s.nungotten size } } := ⟨_, rfl⟩
  have hlocked : Locked (taken ⟨s, count, fun _ => 0, answers⟩) w1 := by
    rw [hw1]
    exact ⟨.refl _, rfl⟩
  have hfree1 : Free w1 := hlocked.free (free_taken _)
  have hmine : w1.data.mine = s.mine + 1 := hlocked.mine
  have hiff := libWrflush_iff turns hfree1
  have hdata : w1.data.wrok = s.wrok ∧ w1.data.filedes = s.filedes ∧ w1.data.bufpos = s.bufpos ∧
      w1.data.bufread = s.bufread ∧ w1.answers = answers := by
    rw [hw1]
    exact ⟨rfl, rfl, rfl, rfl, answers_taken _⟩
  obtain ⟨h1, h2, h3, h4, h5⟩ := hdata
  rw [h1, h2, h3, h4, h5] at hiff
  rw [← hiff]
  unfold BalancedCall libFread
  rw [wp_bind, wp_get, wp_ite, if_neg (by simp [hnull, hrd]), wp_bind, wp_libTakeSemaphore hfree,
    wp_bind, wp_modify, wp_bind]
  change wp (libWrflush turns) _ { taken ⟨s, count, fun _ => 0, answers⟩ with
    data :=
      { s.setMine (s.mine + 1) with
        nungotten := s.nungotten - min s.nungotten size } } ↔ _
  rw [← hw1]
  apply wp_congr (libWrflush_cases hfree1)
  intro ret w' hw'
  have hpos : 0 < w'.data.mine := by
    obtain hl | ⟨-, rfl⟩ := hw'
    · rw [hl.mine, hmine]
      exact Nat.succ_pos _
    · exact Nat.succ_pos _
  obtain ⟨r, w'', hw'', hrest⟩ :=
    freadRest (size - min s.nungotten size) (min s.nungotten size) hpos
  rw [wp_ite]
  by_cases hret : ret ≠ 0
  · -- it returns with the semaphore
    rw [if_pos hret, wp_pure]
    refine ⟨fun hq => ?_, fun hr => absurd hr.1 hret⟩
    obtain hl | ⟨h0, -⟩ := hw'
    · have hm : w'.data.mine = s.mine + 1 := hl.mine.trans hmine
      rw [hq.2] at hm
      omega
    · exact absurd h0 hret
  · have h0 : ret = 0 := Decidable.not_not.mp hret
    rw [if_neg hret, hrest, and_iff_right h0]
    obtain hl | ⟨-, rfl⟩ := hw'
    · have hgiven : Locked _ (given w'') := ((hlocked.trans hl).trans hw'').given
      exact ⟨fun _ => hl, fun _ => ⟨hgiven.sems.1, hgiven.mine⟩⟩
    · -- `lib_fflush` has kept the semaphore
      refine ⟨fun hq => ?_, fun hl => absurd hl (not_locked_taken (.refl _))⟩
      have hm : (given w'').data.mine = s.mine := hq.2
      rw [mine_given, hw''.mine, mine_taken, hmine] at hm
      omega

theorem libFread_balanced :
    (∀ turns, BalancedCall (libFread turns null size) s count answers) ↔
      (null = false → s.rdok = true → FreadKeeps s answers) := by
  constructor
  · intro h hnull hrd
    have hturns := fun turns => (libFread_iff turns hnull hrd).mp (h turns)
    exact {
      filedes := fun hw => (hturns 0 hw).1
      bufread := fun hw => (hturns 0 hw).2.1
      writes := fun hw k => (hturns (k + 1) hw).2.2 k (Nat.lt_succ_self k) }
  · intro h turns
    by_cases hopen : null = true ∨ s.rdok = false
    · unfold BalancedCall libFread
      rw [wp_bind, wp_get, wp_ite, if_pos hopen]
      exact ⟨rfl, rfl⟩
    · have hnull : null = false := by simpa using fun hn => hopen (.inl hn)
      have hrd : s.rdok = true := by simpa using fun hn => hopen (.inr hn)
      have hkeeps := h hnull hrd
      exact (libFread_iff turns hnull hrd).mpr fun hw =>
        ⟨hkeeps.filedes hw, hkeeps.bufread hw, fun k _ => hkeeps.writes hw k⟩

end

end NuttxAvr32.Stdio.Lock
