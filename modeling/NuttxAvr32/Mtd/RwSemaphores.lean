import NuttxAvr32.Lib.Holding
import NuttxAvr32.Mtd.RwBuffer
import Mathlib.Algebra.Ring.Int.Defs
import Mathlib.Algebra.Ring.Nat

/-! # The semaphores of the read-ahead and write buffer

`rwb_read` and `rwb_write` for callbacks that may fail, in each configuration. What the blocks
hold is left out.
-/

namespace NuttxAvr32.Mtd.Sems

open Holding Call

inductive Sem
  | wrsem
  | rhsem
deriving DecidableEq

/-- `struct rwbuffer_s` without its settings, its semaphores and the buffers. -/
structure Rwb where
  work : Bool
  wrnblocks : Nat
  wrblockstart : Int
  wrexpectedblock : Int
  rhnblocks : Nat
  rhblockstart : Int

abbrev Prog (α : Type) : Type := Call Rwb Sem Int α

/-- `CONFIG_FS_WRITEBUFFER`, `CONFIG_FS_READAHEAD` and what is set before `rwb_initialize`. No
source has `rwb_give`. -/
structure Config where
  writebuffer : Bool
  readahead : Bool
  nblocks : Nat
  wrmaxblocks : Nat
  rhmaxblocks : Nat
  rwbGive : Sem → Prog Unit
  rwbGive_gives : ∀ sem, rwbGive sem = give sem

/-- The value of an `off_t`, `ssize_t` or `int`. -/
def offT (i : Int) : Int := Int.bmod i (2 ^ 32)

def sizeT (i : Int) : Nat := (i % 2 ^ 32).toNat

def rwbOverlap (blockstart1 : Int) (nblocks1 : Nat) (blockstart2 : Int) (nblocks2 : Nat) :
    Bool :=
  let blockend1 := offT (blockstart1 + nblocks1)
  let blockend2 := offT (blockstart2 + nblocks2)
  if blockend1 < blockstart2 ∨ blockstart1 > blockend2 then false else true

def rwbResetwrbuffer : Prog Unit :=
  modify fun rwb =>
    { rwb with
      wrnblocks := 0
      wrblockstart := -1
      wrexpectedblock := -1 }

/-- The result of `wrflush` is looked at for the debug output only. -/
def rwbWrflush : Prog Unit := do
  take .wrsem
  if (← get).wrnblocks ≠ 0 then
    let _ ← ask
    rwbResetwrbuffer
    give .wrsem
  else give .wrsem

def putBlocks (startblock : Int) (nblocks : Nat) : Prog Int := do
  modify fun rwb =>
    let rwb := if rwb.wrnblocks = 0 then { rwb with wrblockstart := startblock } else rwb
    let wrnblocks := (rwb.wrnblocks + nblocks) % 2 ^ 16
    { rwb with
      wrnblocks := wrnblocks
      wrexpectedblock := offT (rwb.wrblockstart + wrnblocks)
      work := true }
  return offT nblocks

def rwbWritebuffer (cfg : Config) (startblock : Int) (nblocks : Nat) : Prog Int := do
  modify fun rwb => { rwb with work := false }
  let rwb ← get
  if (startblock ≠ rwb.wrexpectedblock ∧ rwb.wrnblocks ≠ 0) ∨
      cfg.wrmaxblocks < sizeT (rwb.wrnblocks + nblocks) then
    let ret ← ask
    if ret < 0 then return ret
    else
      rwbResetwrbuffer
      putBlocks startblock nblocks
  else putBlocks startblock nblocks

def rwbResetrhbuffer : Prog Unit :=
  modify fun rwb =>
    { rwb with
      rhnblocks := 0
      rhblockstart := -1 }

def reloadBlocks (cfg : Config) (startblock : Int) : Nat :=
  let endblock := offT (startblock + cfg.rhmaxblocks)
  let endblock := if cfg.nblocks < sizeT endblock then offT cfg.nblocks else endblock
  sizeT (endblock - startblock)

abbrev eio : Int := 5

/-- What `rwb_rhreload` makes of the result of the callback. -/
def reloadResult (nblocks : Nat) (ret : Int) : Int :=
  if sizeT ret = nblocks then offT nblocks else -eio

def rwbRhreload (cfg : Config) (startblock : Int) : Prog Int := do
  rwbResetrhbuffer
  let nblocks := reloadBlocks cfg startblock
  let ret ← ask
  if sizeT ret = nblocks then
    modify fun rwb =>
      { rwb with
        rhnblocks := nblocks % 2 ^ 16
        rhblockstart := startblock }
    return reloadResult nblocks ret
  else return reloadResult nblocks ret

/-- What remains after the inner loop of `rwb_read`, from the block `garbage` on. -/
def unread (rhblockstart : Int) (rhnblocks : Nat) (garbage : Int) (remaining : Nat) : Nat :=
  if 0 < rhnblocks then
    (scan rhblockstart (offT (rhblockstart + rhnblocks)) remaining garbage 0).1
  else remaining

/-- One turn of the loop of `rwb_read`. The variable `startblock` of each pass is initialised
with itself: `garbage` is what it then has. -/
def readPass (cfg : Config) (startblock : Int) (garbage : Nat → Int) (i : Nat × Nat) :
    Prog (Nat × Nat ⊕ Option Int) :=
  let (pass, remaining) := i
  if remaining = 0 then return .inr none
  else do
    let rwb ← get
    let remaining := unread rwb.rhblockstart rwb.rhnblocks (garbage pass) remaining
    if 0 < remaining then
      let ret ← rwbRhreload cfg startblock
      if ret < 0 then return .inr (some ret) else return .inl (pass + 1, remaining)
    else return .inl (pass + 1, 0)

def flushOverlap (cfg : Config) (startblock : Int) (nblocks : Nat) : Prog Unit :=
  if cfg.writebuffer ∧ 0 < cfg.wrmaxblocks then do
    take .wrsem
    let rwb ← get
    if rwbOverlap rwb.wrblockstart rwb.wrnblocks startblock nblocks then
      rwbWrflush
      give .wrsem
    else give .wrsem
  else return ()

def readAhead (cfg : Config) (startblock : Int) (nblocks : Nat) (garbage : Nat → Int)
    (turns : Nat) : Prog Int := do
  take .rhsem
  let r ← loop (readPass cfg startblock garbage) turns (0, nblocks)
  match r with
  | some ret => return ret -- no `rwb_semgive` here
  | none =>
    give .rhsem
    return 0

def rwbRead (cfg : Config) (startblock : Int) (nblocks : Nat) (garbage : Nat → Int)
    (turns : Nat) : Prog Int := do
  flushOverlap cfg startblock nblocks
  if cfg.readahead then readAhead cfg startblock nblocks garbage turns else ask

def dropOverlap (cfg : Config) (startblock : Int) (nblocks : Nat) : Prog Unit :=
  if cfg.readahead then do
    take .rhsem
    let rwb ← get
    if rwbOverlap rwb.rhblockstart rwb.rhnblocks startblock nblocks then
      rwbResetrhbuffer
      cfg.rwbGive .rhsem
    else cfg.rwbGive .rhsem
  else return ()

def writeBlocks (cfg : Config) (startblock : Int) (nblocks : Nat) : Prog Int :=
  if cfg.writebuffer then
    if cfg.wrmaxblocks < nblocks then do
      take .wrsem
      rwbWrflush
      give .wrsem
      ask
    else rwbWritebuffer cfg startblock nblocks
  else ask

def rwbWrite (cfg : Config) (startblock : Int) (nblocks : Nat) : Prog Int := do
  dropOverlap cfg startblock nblocks
  writeBlocks cfg startblock nblocks

section

variable {cfg : Config} {startblock : Int} {garbage : Nat → Int} {nblocks : Nat}

theorem rhreload_quiet : Quiet (rwbRhreload cfg startblock) := by
  refine (quiet_modify _).bind fun _ => quiet_ask.bind fun ret => .ite ?_ (quiet_pure _)
  exact (quiet_modify _).bind fun _ => quiet_pure _

theorem readPass_quiet (i : Nat × Nat) : Quiet (readPass cfg startblock garbage i) := by
  refine .ite (quiet_pure _) (quiet_get.bind fun rwb => .ite ?_ (quiet_pure _))
  exact rhreload_quiet.bind fun ret => .ite (quiet_pure _) (quiet_pure _)

theorem putBlocks_quiet : Quiet (putBlocks startblock nblocks) :=
  (quiet_modify _).bind fun _ => quiet_pure _

theorem writebuffer_quiet : Quiet (rwbWritebuffer cfg startblock nblocks) := by
  refine (quiet_modify _).bind fun _ => quiet_get.bind fun rwb => .ite ?_ putBlocks_quiet
  refine quiet_ask.bind fun ret => .ite (quiet_pure _) ?_
  exact (quiet_modify _).bind fun _ => putBlocks_quiet

end

section

variable {cfg : Config} {startblock : Int} {garbage : Nat → Int} {nblocks : Nat} {rwb : Rwb}

/-- What remains after a pass, when all reloads up to it have succeeded: the first pass finds the
read-ahead buffer as it is, the others what was reloaded. -/
def remainingAfter (cfg : Config) (rwb : Rwb) (startblock : Int) (garbage : Nat → Int)
    (nblocks : Nat) : Nat → Nat
  | 0 => unread rwb.rhblockstart rwb.rhnblocks (garbage 0) nblocks
  | pass + 1 => unread startblock (reloadBlocks cfg startblock % 2 ^ 16) (garbage (pass + 1))
      (remainingAfter cfg rwb startblock garbage nblocks pass)

/-- What remains before a pass, and the read-ahead buffer that it finds. -/
def remainingBefore (cfg : Config) (rwb : Rwb) (startblock : Int) (garbage : Nat → Int)
    (nblocks : Nat) : Nat → Nat
  | 0 => nblocks
  | pass + 1 => remainingAfter cfg rwb startblock garbage nblocks pass

def ahead (cfg : Config) (rwb : Rwb) (startblock : Int) : Nat → Int × Nat
  | 0 => (rwb.rhblockstart, rwb.rhnblocks)
  | _ + 1 => (startblock, reloadBlocks cfg startblock % 2 ^ 16)

theorem scan_zero {a b c : Int} {n : Nat} : (scan a b 0 c n).1 = 0 := rfl

theorem unread_zero {a c : Int} {n : Nat} : unread a n c 0 = 0 := by
  unfold unread
  split
  · exact scan_zero
  · rfl

theorem remainingAfter_eq (pass : Nat) :
    remainingAfter cfg rwb startblock garbage nblocks pass =
      unread (ahead cfg rwb startblock pass).1 (ahead cfg rwb startblock pass).2 (garbage pass)
        (remainingBefore cfg rwb startblock garbage nblocks pass) := by
  cases pass with
  | zero => rfl
  | succ pass => rfl

theorem remainingAfter_zero {pass : Nat}
    (h : remainingBefore cfg rwb startblock garbage nblocks pass = 0) (k : Nat) :
    remainingAfter cfg rwb startblock garbage nblocks (pass + k) = 0 := by
  induction k with
  | zero =>
    rw [Nat.add_zero, remainingAfter_eq, h]
    exact unread_zero
  | succ k ih =>
    show unread _ _ _ (remainingAfter cfg rwb startblock garbage nblocks (pass + k)) = 0
    rw [ih]
    exact unread_zero

theorem readLoop_done (turns pass : Nat) (w : World Rwb Sem Int) :
    wp (loop (readPass cfg startblock garbage) turns (pass, 0)) (fun r _ => r = none) w := by
  cases turns with
  | zero => trivial
  | succ turns => rfl

def reloaded (cfg : Config) (startblock : Int) (w : World Rwb Sem Int) : World Rwb Sem Int :=
  let ok := sizeT (w.answers 0) = reloadBlocks cfg startblock
  { w with
    data :=
      { w.data with
        rhnblocks := if ok then reloadBlocks cfg startblock % 2 ^ 16 else 0
        rhblockstart := if ok then startblock else -1 }
    answers := fun k => w.answers (k + 1) }

theorem wp_rhreload {w : World Rwb Sem Int} {V : Int → World Rwb Sem Int → Prop} :
    wp (rwbRhreload cfg startblock) V w ↔
      V (reloadResult (reloadBlocks cfg startblock) (w.answers 0)) (reloaded cfg startblock w) := by
  by_cases h : sizeT (w.answers 0) = reloadBlocks cfg startblock
  · simp only [rwbRhreload, rwbResetrhbuffer, reloaded, wp_bind, wp_modify, wp_ask, wp_ite, wp_pure,
      if_pos h]
  · simp only [rwbRhreload, rwbResetrhbuffer, reloaded, wp_bind, wp_modify, wp_ask, wp_ite, wp_pure,
      if_neg h]

theorem reloaded_ahead (rwb : Rwb) {w : World Rwb Sem Int}
    (h : 0 ≤ reloadResult (reloadBlocks cfg startblock) (w.answers 0)) (pass : Nat) :
    ((reloaded cfg startblock w).data.rhblockstart, (reloaded cfg startblock w).data.rhnblocks) =
      ahead cfg rwb startblock (pass + 1) := by
  unfold reloadResult at h
  split at h
  · rename_i hok
    simp [reloaded, hok, ahead]
  · exact absurd h (by decide)

theorem readLoop_iff (cfg : Config) (rwb : Rwb) (startblock : Int) (garbage : Nat → Int)
    (nblocks turns pass : Nat) (w : World Rwb Sem Int)
    (hahead : (w.data.rhblockstart, w.data.rhnblocks) = ahead cfg rwb startblock pass) :
    wp (loop (readPass cfg startblock garbage) turns
        (pass, remainingBefore cfg rwb startblock garbage nblocks pass)) (fun r _ => r = none) w ↔
      ∀ k < turns, 0 < remainingAfter cfg rwb startblock garbage nblocks (pass + k) →
        0 ≤ reloadResult (reloadBlocks cfg startblock) (w.answers k) := by
  induction turns generalizing pass w with
  | zero => exact ⟨fun _ k hk => absurd hk (Nat.not_lt_zero k), fun _ => trivial⟩
  | succ turns ih =>
    rw [wp_loop_succ]
    by_cases hb : remainingBefore cfg rwb startblock garbage nblocks pass = 0
    · have h0 := remainingAfter_zero hb
      simp [readPass, hb, h0]
    · obtain ⟨h1, h2⟩ : w.data.rhblockstart = (ahead cfg rwb startblock pass).1 ∧
          w.data.rhnblocks = (ahead cfg rwb startblock pass).2 := Prod.mk.inj hahead
      simp only [readPass, if_neg hb, wp_bind, wp_get, h1, h2, ← remainingAfter_eq, wp_ite]
      by_cases ha : 0 < remainingAfter cfg rwb startblock garbage nblocks pass
      · rw [if_pos ha]
        rw [wp_rhreload]
        by_cases hr : reloadResult (reloadBlocks cfg startblock) (w.answers 0) < 0
        · rw [if_pos hr]
          constructor
          · exact fun h => absurd h (by simp)
          · exact fun h => absurd (h 0 (Nat.succ_pos turns) ha) (Int.not_le.mpr hr)
        · rw [if_neg hr]
          have hahead' := reloaded_ahead rwb (Int.not_lt.mp hr) pass
          have hnext := ih (pass + 1) (reloaded cfg startblock w) hahead'
          rw [wp_pure, Nat.forall_lt_succ_left]
          refine hnext.trans ⟨fun h => ⟨fun _ => Int.not_lt.mp hr, fun k hk hpos => ?_⟩,
            fun h k hk hpos => ?_⟩
          · apply h k hk
            rwa [Nat.add_right_comm]
          · apply h.2 k hk
            rwa [Nat.add_right_comm] at hpos
      · rw [if_neg ha]
        have h0 : remainingBefore cfg rwb startblock garbage nblocks (pass + 1) = 0 :=
          Nat.eq_zero_of_not_pos ha
        constructor
        · intro _ k _ hk
          cases k with
          | zero => exact absurd hk ha
          | succ k =>
            have hz := remainingAfter_zero h0 k
            rw [Nat.add_right_comm] at hz
            exact absurd hz (Nat.ne_of_gt hk)
        · exact fun _ => readLoop_done turns (pass + 1) w

end

section

variable {cfg : Config} {startblock : Int} {garbage : Nat → Int} {nblocks : Nat} {rwb : Rwb}
  {count : Sem → Int} {answers : Nat → Int} {w : World Rwb Sem Int}
  {Q : Unit → World Rwb Sem Int → Prop}

theorem wrflush_held (h : 0 < w.holds .wrsem) : ¬ wp rwbWrflush Q w := by
  unfold rwbWrflush
  rw [wp_bind, wp_take]
  exact fun hw => hw.1 h

theorem wp_flushOverlap (h : w.holds .wrsem = 0) : wp (flushOverlap cfg startblock nblocks) Q w ↔
    (cfg.writebuffer = true → 0 < cfg.wrmaxblocks →
      rwbOverlap w.data.wrblockstart w.data.wrnblocks startblock nblocks = false) ∧ Q () w := by
  unfold flushOverlap
  by_cases hc : cfg.writebuffer = true ∧ 0 < cfg.wrmaxblocks
  · have hfree : ¬ 0 < w.holds .wrsem := by omega
    have hheld : 0 < (w.took .wrsem).holds .wrsem := by
      rw [World.holds_took]
      omega
    simp only [if_pos hc, wp_bind, wp_take, wp_get, wp_ite, World.data_took]
    by_cases ho : rwbOverlap w.data.wrblockstart w.data.wrnblocks startblock nblocks = true
    · simp [ho, hc, wrflush_held hheld]
    · simp [ho, hfree]
  · rw [if_neg hc, wp_pure]
    exact ⟨fun hq => ⟨fun h1 h2 => absurd ⟨h1, h2⟩ hc, hq⟩, fun hq => hq.2⟩

/-- No block of the write buffer is near, and no reload fails while blocks remain. -/
structure ReadKeeps (cfg : Config) (rwb : Rwb) (startblock : Int) (nblocks : Nat)
    (garbage answers : Nat → Int) : Prop where
  apart : cfg.writebuffer = true → 0 < cfg.wrmaxblocks →
    rwbOverlap rwb.wrblockstart rwb.wrnblocks startblock nblocks = false
  reloads : cfg.readahead = true → ∀ k,
    0 < remainingAfter cfg rwb startblock garbage nblocks k →
      0 ≤ reloadResult (reloadBlocks cfg startblock) (answers k)

theorem readAhead_iff (turns : Nat) (h : w.holds .rhsem = 0) :
    wp (readAhead cfg startblock nblocks garbage turns) (fun _ w' => w'.count = w.count) w ↔
      ∀ k < turns, 0 < remainingAfter cfg w.data startblock garbage nblocks k →
        0 ≤ reloadResult (reloadBlocks cfg startblock) (w.answers k) := by
  have hfree : ¬ 0 < w.holds .rhsem := by omega
  have hloop : Quiet (loop (readPass cfg startblock garbage) turns (0, nblocks)) :=
    Quiet.loop readPass_quiet _ _
  have hiff := readLoop_iff cfg w.data startblock garbage nblocks turns 0 (w.took .rhsem) rfl
  simp only [Nat.zero_add, World.answers_took] at hiff
  unfold readAhead
  rw [wp_bind, wp_take, and_iff_right hfree, wp_bind, ← hiff]
  apply wp_congr (hloop _)
  intro r w' hw
  cases r with
  | some ret =>
    constructor
    · intro hc
      exact absurd hc hw.count_ne
    · intro hn
      cases hn
  | none =>
    constructor
    · exact fun _ => rfl
    · exact fun _ => hw.gave.1

theorem rwbRead_balanced : (∀ turns,
    Balanced (rwbRead cfg startblock nblocks garbage turns) rwb count answers) ↔
      ReadKeeps cfg rwb startblock nblocks garbage answers := by
  unfold Holding.Balanced rwbRead
  simp only [wp_bind, wp_flushOverlap, wp_ite]
  constructor
  · intro h
    refine ⟨(h 0).1, fun hc k hk => ?_⟩
    have hturns := (h (k + 1)).2
    rw [if_pos hc] at hturns
    exact (readAhead_iff (k + 1) rfl).mp hturns k (Nat.lt_succ_self k) hk
  · intro h turns
    refine ⟨h.apart, ?_⟩
    by_cases hc : cfg.readahead = true
    · rw [if_pos hc]
      exact (readAhead_iff turns rfl).mpr fun k _ hk => h.reloads hc k hk
    · rw [if_neg hc]
      rfl

theorem wp_dropOverlap (cfg : Config) (startblock : Int) (nblocks : Nat)
    (h : w.holds .rhsem = 0) : ∃ w', SameSems w w' ∧
    ∀ Q, wp (dropOverlap cfg startblock nblocks) Q w ↔ Q () w' := by
  have hfree : w.holds .rhsem ≤ 0 := Int.le_of_eq h
  unfold dropOverlap
  by_cases hc : cfg.readahead = true
  · by_cases ho : rwbOverlap w.data.rhblockstart w.data.rhnblocks startblock nblocks = true
    · refine ⟨{ w with
        data :=
          { w.data with
            rhnblocks := 0
            rhblockstart := -1 } }, ⟨rfl, rfl⟩, fun Q => ?_⟩
      simp [hc, ho, hfree, cfg.rwbGive_gives, rwbResetrhbuffer, World.gave, World.took]
    · exact ⟨w, .refl w, fun Q => by simp [hc, ho, h, cfg.rwbGive_gives]⟩
  · exact ⟨w, .refl w, fun Q => by simp [hc]⟩

theorem writeBlocks_iff (cfg : Config) (startblock : Int) (nblocks : Nat) (h : w.holds .wrsem = 0) :
    wp (writeBlocks cfg startblock nblocks) (fun _ w' => w'.count = w.count) w ↔
      (cfg.writebuffer = true → nblocks ≤ cfg.wrmaxblocks) := by
  have hheld : 0 < (w.took .wrsem).holds .wrsem := by
    rw [World.holds_took]
    omega
  unfold writeBlocks
  by_cases hc : cfg.writebuffer = true
  · by_cases hn : cfg.wrmaxblocks < nblocks
    · simp [hc, hn, wrflush_held hheld]
    · rw [if_pos hc, if_neg hn]
      have hwp : wp (rwbWritebuffer cfg startblock nblocks) (fun _ w' => w'.count = w.count) w :=
        writebuffer_quiet.wp fun _ _ hw => hw.1
      exact ⟨fun _ _ => Nat.le_of_not_lt hn, fun _ => hwp⟩
  · simp [hc]

theorem rwbWrite_balanced : Balanced (rwbWrite cfg startblock nblocks) rwb count answers ↔
    (cfg.writebuffer = true → nblocks ≤ cfg.wrmaxblocks) := by
  unfold Holding.Balanced rwbWrite
  obtain ⟨w', hw, hiff⟩ := wp_dropOverlap cfg startblock nblocks
    (w := ⟨rwb, count, fun _ => 0, answers⟩) rfl
  have hfree : w'.holds .wrsem = 0 := congrFun hw.2 _
  have hrest := writeBlocks_iff cfg startblock nblocks hfree
  rw [hw.1] at hrest
  rw [wp_bind, hiff]
  exact hrest

end

end NuttxAvr32.Mtd.Sems
