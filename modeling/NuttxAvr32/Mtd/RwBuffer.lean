import NuttxAvr32.Lib.Overlay
import NuttxAvr32.Lib.Runs

/-! # The read-ahead and write buffer

`rwbuffer.c` with both buffers. A result `none` is a call that never returns: it waits for a
semaphore that it holds itself, or its loop goes on.
-/

namespace NuttxAvr32.Mtd

open Overlay Runs

universe u

/-- What is set before `rwb_initialize`, and the callbacks where they get what they do not
expect: `flushRwb` is `wrflush` with the address of the buffer for its `dev`, `flushSwapped` is
`wrflush` with its arguments in another order. No source has `rwb_give`. -/
structure RwbConfig (α : Type u) where
  nblocks : Nat
  wrmaxblocks : Nat
  rhmaxblocks : Nat
  flushRwb : Nat → List α → (Nat → α) → Nat → α
  ignoresDev : Bool
  flushSwapped : Nat → Nat → List α → (Nat → α) → Nat → α
  rwbGive : Nat → Nat
  wrmaxblocks_pos : 0 < wrmaxblocks
  rhmaxblocks_pos : 0 < rhmaxblocks
  nblocks_lt : nblocks < 2147483648
  ignores : ignoresDev = true ↔ ∀ startblock data dev,
    flushRwb startblock data dev = overlay startblock data dev
  rwbGive_posts : ∀ sem, rwbGive sem = sem + 1

/-- `struct rwbuffer_s` and its device. `direct` is the device without the buffers. -/
structure Rwb (α : Type u) where
  dev : Nat → α
  wrsem : Nat
  work : Bool
  wrbuffer : Nat → α
  wrnblocks : Nat
  wrblockstart : Int
  wrexpectedblock : Int
  rhsem : Nat
  rhbuffer : Nat → α
  rhnblocks : Nat
  rhblockstart : Int
  direct : Nat → α

variable {α : Type u} (cfg : RwbConfig α)

def rwbSemtake (sem : Nat) : Option Nat := if 0 < sem then some (sem - 1) else none

def rwbOverlap (blockstart1 : Int) (nblocks1 : Nat) (blockstart2 : Int) (nblocks2 : Nat) :
    Bool :=
  if blockstart1 + nblocks1 < blockstart2 ∨ blockstart1 > blockstart2 + nblocks2 then false
  else true

def rwbResetwrbuffer (rwb : Rwb α) : Rwb α :=
  { rwb with
    wrnblocks := 0
    wrblockstart := -1
    wrexpectedblock := -1 }

def Rwb.buffered (rwb : Rwb α) : List α := window rwb.wrbuffer 0 rwb.wrnblocks

def rwbWrflush (rwb : Rwb α) : Option (Rwb α) :=
  (rwbSemtake rwb.wrsem).bind fun wrsem =>
    let rwb := { rwb with wrsem := wrsem }
    let rwb := if 0 < rwb.wrnblocks then
        rwbResetwrbuffer { rwb with
          dev := overlay rwb.wrblockstart.toNat rwb.buffered rwb.dev }
      else rwb
    some { rwb with wrsem := rwb.wrsem + 1 }

def rwbWrtimeout (rwb : Rwb α) : Option (Rwb α) := rwbWrflush { rwb with work := false }

def flushes (startblock nblocks : Nat) (rwb : Rwb α) : Prop :=
  ((startblock : Int) ≠ rwb.wrexpectedblock ∧ 0 < rwb.wrnblocks) ∨
    cfg.wrmaxblocks < rwb.wrnblocks + nblocks

instance decidableFlushes (startblock nblocks : Nat) (rwb : Rwb α) :
    Decidable (flushes cfg startblock nblocks rwb) :=
  inferInstanceAs (Decidable (_ ∨ _))

/-- `wrflush` gets `rwb` here, where every other call passes `rwb->dev`. -/
def makeRoom (startblock nblocks : Nat) (rwb : Rwb α) : Rwb α :=
  if flushes cfg startblock nblocks rwb then
    rwbResetwrbuffer { rwb with
      dev := cfg.flushRwb rwb.wrblockstart.toNat rwb.buffered rwb.dev }
  else rwb

def rwbWritebuffer (startblock : Nat) (wrbuffer : List α) (rwb : Rwb α) : Rwb α :=
  let rwb := makeRoom cfg startblock wrbuffer.length { rwb with work := false }
  let rwb := if rwb.wrnblocks = 0 then { rwb with wrblockstart := startblock } else rwb
  let rwb := { rwb with
    wrbuffer := overlay rwb.wrnblocks wrbuffer rwb.wrbuffer
    wrnblocks := rwb.wrnblocks + wrbuffer.length }
  { rwb with
    wrexpectedblock := rwb.wrblockstart + rwb.wrnblocks
    work := true }

def rwbResetrhbuffer (rwb : Rwb α) : Rwb α :=
  { rwb with
    rhnblocks := 0
    rhblockstart := -1 }

/-- `rwb_bufferread`, whose first block may lie anywhere in memory. -/
def rwbBufferread (rwb : Rwb α) (startblock : Int) (nblocks : Nat) : List α :=
  window rwb.rhbuffer (startblock - rwb.rhblockstart).toNat nblocks

/-- The comparison with `rwb->nblocks` is unsigned. -/
def rwbRhreload (startblock : Nat) (rwb : Rwb α) : Rwb α :=
  let rwb := rwbResetrhbuffer rwb
  let endblock := if cfg.nblocks < startblock + cfg.rhmaxblocks then cfg.nblocks
    else startblock + cfg.rhmaxblocks
  { rwb with
    rhbuffer := overlay 0 (window rwb.dev startblock (endblock - startblock)) rwb.rhbuffer
    rhnblocks := endblock - startblock
    rhblockstart := startblock }

/-- The inner loop of `rwb_read`: what remains, the block it ends at and the blocks it found. -/
def scan (rhblockstart bufferend : Int) : Nat → Int → Nat → Nat × Int × Nat
  | 0, startblock, nbufblocks => (0, startblock, nbufblocks)
  | remaining + 1, startblock, nbufblocks =>
    if startblock ≥ rhblockstart ∧ startblock < bufferend then
      scan rhblockstart bufferend remaining (startblock + 1) (nbufblocks + 1)
    else (remaining + 1, startblock, nbufblocks)

/-- The loop of `rwb_read`. The variable `startblock` of each pass is initialised with itself:
`garbage` is what it then has. -/
def readLoop (startblock : Nat) (garbage : Nat → Int) :
    Nat → Nat → Nat → Rwb α → List α → Option (Rwb α × List α)
  | 0, _, _, _, _ => none
  | fuel + 1, pass, remaining, rwb, rdbuffer =>
    if remaining = 0 then some (rwb, rdbuffer)
    else
      let (remaining, rdbuffer) := if 0 < rwb.rhnblocks then
          let (remaining, block, nbufblocks) :=
            scan rwb.rhblockstart (rwb.rhblockstart + rwb.rhnblocks) remaining (garbage pass) 0
          (remaining, rdbuffer ++ rwbBufferread rwb block nbufblocks)
        else (remaining, rdbuffer)
      let rwb := if 0 < remaining then rwbRhreload cfg startblock rwb else rwb
      readLoop startblock garbage fuel (pass + 1) remaining rwb rdbuffer

def rwbRead (startblock nblocks : Nat) (garbage : Nat → Int) (fuel : Nat) (rwb : Rwb α) :
    Option (Rwb α × List α) :=
  (rwbSemtake rwb.wrsem).bind fun wrsem =>
    let rwb := { rwb with wrsem := wrsem }
    (if rwbOverlap rwb.wrblockstart rwb.wrnblocks startblock nblocks then rwbWrflush rwb
      else some rwb).bind fun rwb =>
    let rwb := { rwb with wrsem := rwb.wrsem + 1 }
    (rwbSemtake rwb.rhsem).bind fun rhsem =>
      let rwb := { rwb with rhsem := rhsem }
      (readLoop cfg startblock garbage fuel 0 nblocks rwb []).bind fun (rwb, rdbuffer) =>
        some ({ rwb with rhsem := rwb.rhsem + 1 }, rdbuffer)

def rwbWrite (startblock : Nat) (wrbuffer : List α) (rwb : Rwb α) : Option (Rwb α) :=
  (rwbSemtake rwb.rhsem).bind fun rhsem =>
    let rwb := { rwb with rhsem := rhsem }
    let rwb := if rwbOverlap rwb.rhblockstart rwb.rhnblocks startblock wrbuffer.length then
        rwbResetrhbuffer rwb
      else rwb
    let rwb := { rwb with rhsem := cfg.rwbGive rwb.rhsem }
    if cfg.wrmaxblocks < wrbuffer.length then
      (rwbSemtake rwb.wrsem).bind fun wrsem =>
        (rwbWrflush { rwb with wrsem := wrsem }).bind fun rwb =>
          let rwb := { rwb with wrsem := rwb.wrsem + 1 }
          some { rwb with
            dev := cfg.flushSwapped startblock wrbuffer.length wrbuffer rwb.dev }
    else some (rwbWritebuffer cfg startblock wrbuffer rwb)

inductive RwbOp (α : Type u)
  | read (startblock nblocks : Nat) (garbage : Nat → Int) (fuel : Nat)
  | write (startblock : Nat) (wrbuffer : List α)
  | timeout

namespace RwbOp

/-- Calls within the device, and a timeout that was started. -/
def valid (rwb : Rwb α) : RwbOp α → Prop
  | read startblock nblocks _ _ => startblock + nblocks ≤ cfg.nblocks
  | write startblock wrbuffer => startblock + wrbuffer.length ≤ cfg.nblocks
  | timeout => rwb.work = true

def exec : RwbOp α → Rwb α → Option (Rwb α)
  | read startblock nblocks garbage fuel, rwb =>
    (rwbRead cfg startblock nblocks garbage fuel rwb).map Prod.fst
  | write startblock wrbuffer, rwb =>
    (rwbWrite cfg startblock wrbuffer rwb).map fun t =>
      { t with direct := overlay startblock wrbuffer rwb.direct }
  | timeout, rwb => rwbWrtimeout rwb

/-- A read asks for no block and does not touch what is buffered; a write fits the buffer, and
where it flushes, the callback needs no `dev`. -/
def keeps (rwb : Rwb α) : RwbOp α → Prop
  | read startblock nblocks _ _ => nblocks = 0 ∧
      rwbOverlap rwb.wrblockstart rwb.wrnblocks startblock nblocks = false
  | write startblock wrbuffer => wrbuffer.length ≤ cfg.wrmaxblocks ∧
      (flushes cfg startblock wrbuffer.length rwb → cfg.ignoresDev = true)
  | timeout => True

/-- A read returns what the device would hold without the buffers, a write returns, and after
a timeout the device holds that. -/
def Honours (rwb : Rwb α) : RwbOp α → Prop
  | read startblock nblocks garbage _ => ∃ fuel t,
      rwbRead cfg startblock nblocks garbage fuel rwb =
        some (t, window rwb.direct startblock nblocks)
  | write startblock wrbuffer => ∃ t, rwbWrite cfg startblock wrbuffer rwb = some t
  | timeout => ∃ t, rwbWrtimeout rwb = some t ∧ t.dev = rwb.direct

end RwbOp

def rwbMachine : Machine (Rwb α) (RwbOp α) where
  valid rwb i := i.valid cfg rwb
  exec rwb i := i.exec cfg rwb

structure RwbStart (rwb : Rwb α) : Prop where
  wrsem : rwb.wrsem = 1
  wrnblocks : rwb.wrnblocks = 0
  wrblockstart : rwb.wrblockstart = -1
  wrexpectedblock : rwb.wrexpectedblock = -1
  rhsem : rwb.rhsem = 1
  rhnblocks : rwb.rhnblocks = 0
  rhblockstart : rwb.rhblockstart = -1
  direct : rwb.dev = rwb.direct

def RwbCorrect (rwb : Rwb α) : Prop := ∃ t, rwbWrtimeout rwb = some t ∧ t.dev = rwb.direct

/-- `view`: the device with what is buffered is the device without the buffers. -/
structure RwbInv (rwb : Rwb α) : Prop where
  wrsem : rwb.wrsem = 1
  rhsem : rwb.rhsem = 1
  rhnblocks : rwb.rhnblocks = 0
  view : overlay rwb.wrblockstart.toNat rwb.buffered rwb.dev = rwb.direct
  bound : rwb.wrnblocks ≤ cfg.wrmaxblocks
  expected : 0 < rwb.wrnblocks → 0 ≤ rwb.wrblockstart ∧
    rwb.wrexpectedblock = rwb.wrblockstart + rwb.wrnblocks
  work : 0 < rwb.wrnblocks → rwb.work = true

variable {cfg} {rwb : Rwb α}

theorem Rwb.buffered_of_zero (h : rwb.wrnblocks = 0) : rwb.buffered = [] := by
  simp [Rwb.buffered, h, window]

@[simp] theorem buffered_rwbResetwrbuffer : (rwbResetwrbuffer rwb).buffered = [] :=
  Rwb.buffered_of_zero rfl

theorem rwbWrflush_spec (h : rwb.wrsem = 1) : ∃ t, rwbWrflush rwb = some t ∧
    t.dev = overlay rwb.wrblockstart.toNat rwb.buffered rwb.dev ∧ t.wrsem = 1 ∧
    t.wrnblocks = 0 ∧ t.rhsem = rwb.rhsem ∧ t.rhnblocks = rwb.rhnblocks ∧
    t.direct = rwb.direct := by
  unfold rwbWrflush
  simp only [rwbSemtake, h, Nat.lt_add_one, if_true, Option.bind_some]
  split
  · exact ⟨_, rfl, rfl, rfl, rfl, rfl, rfl, rfl⟩
  · have h0 : rwb.wrnblocks = 0 := by omega
    refine ⟨_, rfl, ?_, rfl, h0, rfl, rfl, rfl⟩
    rw [Rwb.buffered_of_zero h0, overlay_nil]

theorem rwbWrflush_held (h : rwb.wrsem = 0) : rwbWrflush rwb = none := by
  simp [rwbWrflush, rwbSemtake, h]

theorem RwbInv.timeout (I : RwbInv cfg rwb) : ∃ t, rwbWrtimeout rwb = some t ∧
    t.dev = rwb.direct ∧ RwbInv cfg t := by
  obtain ⟨t, ht, hdev, hs, h0, hr, hn, hd⟩ :=
    rwbWrflush_spec (show ({ rwb with work := false } : Rwb α).wrsem = 1 from I.wrsem)
  have hv : t.dev = rwb.direct := hdev.trans I.view
  refine ⟨t, ht, hv, ?_⟩
  exact {
    wrsem := hs
    rhsem := hr.trans I.rhsem
    rhnblocks := hn.trans I.rhnblocks
    view := by rw [Rwb.buffered_of_zero h0, overlay_nil, hv, hd]
    bound := by omega
    expected := by omega
    work := by omega }

theorem RwbInv.correct (I : RwbInv cfg rwb) : RwbCorrect rwb := by
  obtain ⟨t, ht, hv, -⟩ := I.timeout
  exact ⟨t, ht, hv⟩

theorem RwbInv.read (I : RwbInv cfg rwb) {startblock : Nat} {garbage : Nat → Int} {fuel : Nat}
    (h : rwbOverlap rwb.wrblockstart rwb.wrnblocks startblock 0 = false) :
    rwbRead cfg startblock 0 garbage (fuel + 1) rwb = some (rwb, []) := by
  obtain ⟨dev, wrsem, work, wrbuffer, wrnblocks, wrblockstart, wrexpectedblock, rhsem⟩ := rwb
  obtain rfl : wrsem = 1 := I.wrsem
  obtain rfl : rhsem = 1 := I.rhsem
  simp only at h
  simp [rwbRead, rwbSemtake, h, readLoop]

theorem Rwb.view_append {t : Rwb α} {startblock : Nat} {wrbuffer : List α} (f : Nat → α)
    (hs : t.wrblockstart.toNat + t.wrnblocks = startblock)
    (hv : overlay t.wrblockstart.toNat t.buffered t.dev = f) :
    overlay t.wrblockstart.toNat
      (window (overlay t.wrnblocks wrbuffer t.wrbuffer) 0 (t.wrnblocks + wrbuffer.length))
      t.dev = overlay startblock wrbuffer f := by
  have hw : window (overlay (0 + t.wrnblocks) wrbuffer t.wrbuffer) 0
      (t.wrnblocks + wrbuffer.length) = t.buffered ++ wrbuffer := window_overlay_append
  rw [Nat.zero_add] at hw
  have ha : overlay (t.wrblockstart.toNat + t.buffered.length) wrbuffer
      (overlay t.wrblockstart.toNat t.buffered t.dev) =
        overlay t.wrblockstart.toNat (t.buffered ++ wrbuffer) t.dev := overlay_append
  rw [show t.buffered.length = t.wrnblocks from length_window, hs, hv] at ha
  rw [hw]
  exact ha.symm

/-- What may be written behind the buffered blocks, after the flush. -/
structure Room (cfg : RwbConfig α) (startblock n : Nat) (f : Nat → α) (rwb t : Rwb α) :
    Prop where
  view : overlay t.wrblockstart.toNat t.buffered t.dev = f
  bound : t.wrnblocks + n ≤ cfg.wrmaxblocks
  behind : t.wrnblocks ≠ 0 → t.wrblockstart.toNat + t.wrnblocks = startblock ∧
    0 ≤ t.wrblockstart
  wrsem : t.wrsem = rwb.wrsem
  rhsem : t.rhsem = rwb.rhsem
  rhnblocks : t.rhnblocks = rwb.rhnblocks

theorem makeRoom_room (rwb : Rwb α) {startblock n : Nat} {f : Nat → α} (hn : n ≤ cfg.wrmaxblocks)
    (hf : flushes cfg startblock n rwb → cfg.ignoresDev = true)
    (hv : overlay rwb.wrblockstart.toNat rwb.buffered rwb.dev = f)
    (hx : 0 < rwb.wrnblocks → 0 ≤ rwb.wrblockstart ∧
      rwb.wrexpectedblock = rwb.wrblockstart + rwb.wrnblocks) :
    Room cfg startblock n f rwb (makeRoom cfg startblock n rwb) := by
  unfold makeRoom
  split
  · rename_i h
    refine ⟨?_, ?_, fun h0 => absurd rfl h0, rfl, rfl, rfl⟩
    · rw [buffered_rwbResetwrbuffer, overlay_nil]
      exact (cfg.ignores.1 (hf h) _ _ _).trans hv
    · simpa [rwbResetwrbuffer] using hn
  · rename_i h
    simp only [flushes, not_or, not_and_or, Nat.not_lt] at h
    refine ⟨hv, h.2, ?_, rfl, rfl, rfl⟩
    intro h0
    obtain ⟨hp, he⟩ := hx (by omega)
    have hs : ¬ (startblock : Int) ≠ rwb.wrexpectedblock := h.1.resolve_right (by omega)
    exact ⟨by omega, hp⟩

theorem RwbInv.writebuffer (I : RwbInv cfg rwb) {startblock : Nat} {wrbuffer : List α}
    (hn : wrbuffer.length ≤ cfg.wrmaxblocks)
    (hf : flushes cfg startblock wrbuffer.length rwb → cfg.ignoresDev = true) :
    RwbInv cfg { rwbWritebuffer cfg startblock wrbuffer rwb with
      direct := overlay startblock wrbuffer rwb.direct } := by
  have R := makeRoom_room { rwb with work := false } hn hf I.view I.expected
  unfold rwbWritebuffer
  generalize makeRoom cfg startblock wrbuffer.length { rwb with work := false } = t at R
  by_cases h0 : t.wrnblocks = 0
  · simp only [h0, if_true, Nat.zero_add]
    have hv := R.view
    rw [Rwb.buffered_of_zero h0, overlay_nil] at hv
    exact {
      wrsem := R.wrsem.trans I.wrsem
      rhsem := R.rhsem.trans I.rhsem
      rhnblocks := R.rhnblocks.trans I.rhnblocks
      view := by
        rw [← hv]
        simp only [Rwb.buffered, Int.toNat_natCast, window_overlay rfl]
      bound := hn
      expected := fun _ => ⟨by simp, rfl⟩
      work := fun _ => rfl }
  · obtain ⟨hs, hp⟩ := R.behind h0
    simp only [h0, if_false]
    exact {
      wrsem := R.wrsem.trans I.wrsem
      rhsem := R.rhsem.trans I.rhsem
      rhnblocks := R.rhnblocks.trans I.rhnblocks
      view := Rwb.view_append _ hs R.view
      bound := R.bound
      expected := fun _ => ⟨hp, rfl⟩
      work := fun _ => rfl }

theorem RwbInv.write (I : RwbInv cfg rwb) {startblock : Nat} {wrbuffer : List α}
    (hn : wrbuffer.length ≤ cfg.wrmaxblocks)
    (hf : flushes cfg startblock wrbuffer.length rwb → cfg.ignoresDev = true) :
    ∃ t, rwbWrite cfg startblock wrbuffer rwb = some t ∧
      RwbInv cfg { t with direct := overlay startblock wrbuffer rwb.direct } := by
  have J : ∀ rhnblocks rhblockstart, rhnblocks = 0 → RwbInv cfg { rwb with
      rhsem := cfg.rwbGive 0
      rhnblocks := rhnblocks
      rhblockstart := rhblockstart } :=
    fun _ _ h0 => { I with
      rhsem := cfg.rwbGive_posts 0
      rhnblocks := h0 }
  have hlt : ¬ cfg.wrmaxblocks < wrbuffer.length := by omega
  simp only [rwbWrite, rwbSemtake, I.rhsem, Nat.lt_add_one, if_true, Option.bind_some,
    if_neg hlt, Option.some.injEq, exists_eq_left']
  split
  · exact (J 0 (-1) rfl).writebuffer hn hf
  · exact (J rwb.rhnblocks rwb.rhblockstart I.rhnblocks).writebuffer hn hf

theorem RwbStart.inv (h : RwbStart rwb) : RwbInv cfg rwb where
  wrsem := h.wrsem
  rhsem := h.rhsem
  rhnblocks := h.rhnblocks
  view := by rw [Rwb.buffered_of_zero h.wrnblocks, overlay_nil, h.direct]
  bound := by simp [h.wrnblocks]
  expected := by simp [h.wrnblocks]
  work := by simp [h.wrnblocks]

theorem RwbInv.honours (I : RwbInv cfg rwb) {i : RwbOp α} (hk : i.keeps cfg rwb) :
    i.Honours cfg rwb := by
  cases i with
  | read startblock nblocks garbage fuel =>
    obtain ⟨rfl, ho⟩ := hk
    exact ⟨1, rwb, I.read ho⟩
  | write startblock wrbuffer =>
    obtain ⟨t, ht, -⟩ := I.write hk.1 hk.2
    exact ⟨t, ht⟩
  | timeout => exact I.correct

theorem RwbInv.step (I : RwbInv cfg rwb) {i : RwbOp α} {t : Rwb α} (hk : i.keeps cfg rwb)
    (h : i.exec cfg rwb = some t) : RwbInv cfg t := by
  cases i with
  | read startblock nblocks garbage fuel =>
    obtain ⟨rfl, ho⟩ := hk
    cases fuel with
    | zero => simp [RwbOp.exec, rwbRead, rwbSemtake, I.wrsem, I.rhsem, ho, readLoop] at h
    | succ fuel =>
      simp only [RwbOp.exec, I.read ho, Option.map_some, Option.some.injEq] at h
      exact h ▸ I
  | write startblock wrbuffer =>
    obtain ⟨t', ht, J⟩ := I.write hk.1 hk.2
    simp only [RwbOp.exec, ht, Option.map_some, Option.some.injEq] at h
    exact h ▸ J
  | timeout =>
    obtain ⟨t', ht, -, J⟩ := I.timeout
    simp only [RwbOp.exec, ht, Option.some.injEq] at h
    exact h ▸ J

theorem rwbMachine_inv
    (h : Reach (rwbMachine cfg) RwbStart (fun rwb i => i.keeps cfg rwb) rwb) :
    RwbInv cfg rwb :=
  h.invariant (fun _ h0 => h0.inv) fun _ _ _ I _ hk he => I.step hk he

theorem scan_outside {rhblockstart bufferend startblock : Int} {remaining nbufblocks : Nat}
    (h : startblock < rhblockstart) :
    scan rhblockstart bufferend remaining startblock nbufblocks =
      (remaining, startblock, nbufblocks) := by
  cases remaining with
  | zero => rfl
  | succ remaining =>
    rw [scan, if_neg]
    omega

/-- Where the uninitialised variable lies below every block, each pass reloads the same
blocks and finds none of them. -/
theorem readLoop_stuck {startblock : Nat} (fuel : Nat) {pass remaining : Nat} {rwb : Rwb α}
    {rdbuffer : List α} (hr : 0 < remaining)
    (hb : 0 < rwb.rhnblocks → 0 ≤ rwb.rhblockstart) :
    readLoop cfg startblock (fun _ => -1) fuel pass remaining rwb rdbuffer = none := by
  induction fuel generalizing pass rwb rdbuffer with
  | zero => rfl
  | succ fuel ih =>
    rw [readLoop, if_neg (by omega)]
    by_cases h0 : 0 < rwb.rhnblocks
    · have hlt : (-1 : Int) < rwb.rhblockstart := by
        have := hb h0
        omega
      simp only [if_pos h0, scan_outside hlt, if_pos hr]
      exact ih fun _ => by simp [rwbRhreload]
    · simp only [if_neg h0, if_pos hr]
      exact ih fun _ => by simp [rwbRhreload]

theorem rwbRead_touching (hs : rwb.wrsem = 1) {startblock nblocks fuel : Nat}
    {garbage : Nat → Int}
    (ho : rwbOverlap rwb.wrblockstart rwb.wrnblocks startblock nblocks = true) :
    rwbRead cfg startblock nblocks garbage fuel rwb = none := by
  simp [rwbRead, rwbSemtake, hs, ho, rwbWrflush_held]

theorem RwbInv.read_honours_iff (I : RwbInv cfg rwb) (startblock nblocks fuel : Nat) :
    (∀ garbage, (RwbOp.read startblock nblocks garbage fuel).Honours cfg rwb) ↔ nblocks = 0 ∧
      rwbOverlap rwb.wrblockstart rwb.wrnblocks startblock nblocks = false := by
  constructor
  · intro hall
    obtain ⟨fuel, t, ht⟩ := hall fun _ => -1
    cases ho : rwbOverlap rwb.wrblockstart rwb.wrnblocks startblock nblocks with
    | true =>
      rw [rwbRead_touching I.wrsem ho] at ht
      cases ht
    | false =>
      refine ⟨?_, rfl⟩
      by_contra hn
      simp only [rwbRead, rwbSemtake, I.wrsem, I.rhsem, ho, Nat.lt_add_one, if_true,
        Option.bind_some, Bool.false_eq_true, if_false] at ht
      rw [readLoop_stuck fuel (Nat.pos_of_ne_zero hn) (by simp [I.rhnblocks])] at ht
      cases ht
  · rintro ⟨rfl, ho⟩ garbage
    exact ⟨1, rwb, I.read ho⟩

theorem RwbInv.write_stuck (I : RwbInv cfg rwb) {startblock : Nat} {wrbuffer : List α}
    (hn : cfg.wrmaxblocks < wrbuffer.length) : rwbWrite cfg startblock wrbuffer rwb = none := by
  have hheld : ∀ t : Rwb α, t.wrsem = 0 → rwbWrflush t = none := fun _ => rwbWrflush_held
  simp only [rwbWrite, rwbSemtake, I.rhsem, Nat.lt_add_one, if_true, Option.bind_some,
    if_pos hn]
  split
  · simp [rwbResetrhbuffer, I.wrsem, hheld]
  · simp [I.wrsem, hheld]

/-- In every run in which the calls keep to what works, each of them does what it would do on
the device, and a final timeout makes the device what it would be. No other read returns what
it owes for every value of the uninitialised variable, and no larger write returns. -/
theorem rwb_transparent
    (h : Reach (rwbMachine cfg) RwbStart (fun rwb i => i.keeps cfg rwb) rwb) :
    RwbCorrect rwb ∧
      (∀ i : RwbOp α, i.valid cfg rwb → i.keeps cfg rwb → i.Honours cfg rwb) ∧
      (∀ startblock nblocks fuel,
        (∀ garbage, (RwbOp.read startblock nblocks garbage fuel).Honours cfg rwb) ↔
          nblocks = 0 ∧
            rwbOverlap rwb.wrblockstart rwb.wrnblocks startblock nblocks = false) ∧
      ∀ startblock (wrbuffer : List α), cfg.wrmaxblocks < wrbuffer.length →
        ¬ (RwbOp.write startblock wrbuffer).Honours cfg rwb := by
  have I := rwbMachine_inv h
  refine ⟨I.correct, fun _ _ hk => I.honours hk, I.read_honours_iff, ?_⟩
  rintro startblock wrbuffer hn ⟨t, ht⟩
  rw [I.write_stuck hn] at ht
  cases ht

instance decidableRwbValid (cfg : RwbConfig α) (rwb : Rwb α) (i : RwbOp α) :
    Decidable ((rwbMachine cfg).valid rwb i) :=
  match i with
  | .read startblock nblocks _ _ =>
    inferInstanceAs (Decidable (startblock + nblocks ≤ cfg.nblocks))
  | .write startblock wrbuffer =>
    inferInstanceAs (Decidable (startblock + wrbuffer.length ≤ cfg.nblocks))
  | .timeout => inferInstanceAs (Decidable (rwb.work = true))

instance decidableRwbKeeps (cfg : RwbConfig α) (rwb : Rwb α) (i : RwbOp α) :
    Decidable (i.keeps cfg rwb) :=
  match i with
  | .read startblock nblocks _ _ => inferInstanceAs (Decidable (nblocks = 0 ∧
      rwbOverlap rwb.wrblockstart rwb.wrnblocks startblock nblocks = false))
  | .write startblock wrbuffer =>
    inferInstanceAs (Decidable (wrbuffer.length ≤ cfg.wrmaxblocks ∧
      (flushes cfg startblock wrbuffer.length rwb → cfg.ignoresDev = true)))
  | .timeout => inferInstanceAs (Decidable True)

/-- Eight blocks, three of them in each buffer, and callbacks that know their device. -/
def eightBlocks : RwbConfig Nat where
  nblocks := 8
  wrmaxblocks := 3
  rhmaxblocks := 3
  flushRwb := overlay
  ignoresDev := true
  flushSwapped _ _ _ dev := dev
  rwbGive sem := sem + 1
  wrmaxblocks_pos := Nat.succ_pos 2
  rhmaxblocks_pos := Nat.succ_pos 2
  nblocks_lt := Nat.le_of_ble_eq_true rfl
  ignores := ⟨fun _ _ _ _ => rfl, fun _ => rfl⟩
  rwbGive_posts _ := rfl

def initialized : Rwb Nat where
  dev _ := 0
  wrsem := 1
  work := false
  wrbuffer _ := 0
  wrnblocks := 0
  wrblockstart := -1
  wrexpectedblock := -1
  rhsem := 1
  rhbuffer _ := 0
  rhnblocks := 0
  rhblockstart := -1
  direct _ := 0

theorem initialized_start : RwbStart initialized := ⟨rfl, rfl, rfl, rfl, rfl, rfl, rfl, rfl⟩

theorem rwb_transparent_run : ∃ rwb, runAll (rwbMachine eightBlocks)
      (fun rwb i => i.keeps eightBlocks rwb) initialized
      [.write 0 [5, 6], .write 2 [7], .write 1 [8, 9], .read 6 0 (fun _ => -1) 1,
        .write 3 [4], .timeout, .write 6 [3]] = some rwb ∧
      (List.range 8).map rwb.dev = [5, 8, 9, 4, 0, 0, 0, 0] ∧
    (RwbCorrect rwb ∧ ∀ i : RwbOp Nat, i.valid eightBlocks rwb → i.keeps eightBlocks rwb →
      i.Honours eightBlocks rwb) :=
  have h : ∃ rwb, runAll (rwbMachine eightBlocks)
      (fun rwb i => i.keeps eightBlocks rwb) initialized
      [.write 0 [5, 6], .write 2 [7], .write 1 [8, 9], .read 6 0 (fun _ => -1) 1,
        .write 3 [4], .timeout, .write 6 [3]] = some rwb ∧
      (List.range 8).map rwb.dev = [5, 8, 9, 4, 0, 0, 0, 0] := by
    decide +kernel
  h.elim fun rwb hs =>
    have hr := rwb_transparent (.runAll (.init initialized_start) hs.1)
    ⟨rwb, hs.1, hs.2, hr.1, hr.2.1⟩

/-- A block is written, and the read of that block never returns. -/
theorem written_block_unreadable : ¬ ∀ rwb : Rwb Nat,
    Reachable (rwbMachine eightBlocks) RwbStart rwb →
    ∀ i : RwbOp Nat, i.valid eightBlocks rwb → i.Honours eightBlocks rwb := by
  intro hall
  have hr : ∃ rwb, runAll (rwbMachine eightBlocks) (fun _ _ => True) initialized
      [.write 0 [5]] = some rwb ∧ rwb.wrsem = 1 ∧
      rwbOverlap rwb.wrblockstart rwb.wrnblocks 0 1 = true := by
    decide +kernel
  obtain ⟨rwb, hs, h1, ho⟩ := hr
  obtain ⟨fuel, t, ht⟩ := hall rwb (.runAll (.init initialized_start) hs)
    (.read 0 1 (fun _ => 0) 0) (by simp [RwbOp.valid, eightBlocks])
  rw [rwbRead_touching h1 ho] at ht
  cases ht

end NuttxAvr32.Mtd
