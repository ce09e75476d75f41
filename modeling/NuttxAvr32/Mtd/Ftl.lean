import Mathlib.Data.Nat.Bitwise
import Mathlib.Tactic.Ring
import NuttxAvr32.Lib.Overlay

/-! # The flash translation layer

`ftl_flush` over a memory technology device. The MTD driver is a parameter: its methods are
functions on the driver's own state, and `Works` says when they never fail. `size_t` has 32
bits, and `off_t` values are block numbers of the device and never wrap.
-/

namespace NuttxAvr32.Mtd

open Overlay

universe u

structure Geometry where
  blocksize : Nat
  erasesize : Nat
  neraseblocks : Nat
  blkper : Nat
  power : ∃ k, blkper = 2 ^ k
  tiles : erasesize = blkper * blocksize
  blocksize_pos : 0 < blocksize
  fits : neraseblocks * blkper < 2 ^ 31

/-- `struct mtd_dev_s`: a number of blocks or a negated errno value, and what was read or
the new state. -/
structure MtdDev (σ : Type u) where
  erase : σ → Nat → Nat → Int × σ
  bread : σ → Nat → Nat → Int × List UInt8
  bwrite : σ → Nat → Nat → List UInt8 → Int × σ

/-- `overrun` is a read past the end of the caller's buffer, and `hang` a loop that went on
for longer than its count of blocks. -/
inductive Outcome (σ : Type u)
  | ret (r : Int) (dev : σ)
  | overrun
  | hang

def eio : Int := 5

def sizeT (n : Int) : Nat := (n % 4294967296).toNat

def clear (x mask : Nat) : Nat := x ^^^ (x &&& mask)

def memcpy (eblock : List UInt8) (offset : Nat) (buffer : List UInt8) (nbytes : Nat) :
    List UInt8 :=
  eblock.take offset ++ buffer.take nbytes ++ eblock.drop (offset + nbytes)

section

variable {σ : Type u} (mtd : MtdDev σ) (geo : Geometry)

/-- An erase block is read, erased, changed at `offset` and written back. -/
def rewrite (rwblock offset nbytes : Nat) (buffer : List UInt8) (dev : σ) :
    Except (Outcome σ) σ :=
  let rd := mtd.bread dev rwblock geo.blkper
  if sizeT rd.1 ≠ geo.blkper then
    .error (.ret (-eio) dev)
  else
    let er := mtd.erase dev (rwblock / geo.blkper) 1
    if er.1 < 0 then
      .error (.ret er.1 er.2)
    else if buffer.length < nbytes then
      .error .overrun
    else
      let wr := mtd.bwrite er.2 rwblock geo.blkper (memcpy rd.2 offset buffer nbytes)
      if sizeT wr.1 ≠ geo.blkper then .error (.ret (-eio) wr.2) else .ok wr.2

/-- The partial erase block before `alignedblock`: what remains, and the rest of the buffer. -/
def flushHead (startblock nblocks : Nat) (buffer : List UInt8) (dev : σ) :
    Except (Outcome σ) (Nat × List UInt8 × σ) :=
  let mask := geo.blkper - 1
  if startblock < clear (startblock + mask) mask then
    let offset := (startblock &&& mask) * geo.blocksize
    let nbytes := geo.erasesize - offset
    match rewrite mtd geo (clear startblock mask) offset nbytes buffer dev with
    | .error o => .error o
    | .ok dev =>
      .ok (sizeT (nblocks - (geo.blkper - (startblock &&& mask) : Nat)), buffer.drop nbytes, dev)
  else
    .ok (nblocks, buffer, dev)

def flushMiddle : Nat → Nat → Nat → List UInt8 → σ →
    Except (Outcome σ) (Nat × Nat × List UInt8 × σ)
  | 0, _, _, _, _ => .error .hang
  | fuel + 1, alignedblock, remaining, buffer, dev =>
    if geo.blkper ≤ remaining then
      let er := mtd.erase dev (alignedblock / geo.blkper) 1
      if er.1 < 0 then
        .error (.ret er.1 er.2)
      else if buffer.length < geo.erasesize then
        .error .overrun
      else
        let wr := mtd.bwrite er.2 alignedblock geo.blkper buffer
        if sizeT wr.1 ≠ geo.blkper then
          .error (.ret (-eio) wr.2)
        else
          flushMiddle fuel (alignedblock + geo.blkper) (remaining - geo.blkper)
            (buffer.drop geo.erasesize) wr.2
    else
      .ok (alignedblock, remaining, buffer, dev)

def flushTail (alignedblock remaining : Nat) (buffer : List UInt8) (dev : σ) :
    Except (Outcome σ) σ :=
  if 0 < remaining then
    rewrite mtd geo alignedblock 0 (remaining * geo.blocksize) buffer dev
  else
    .ok dev

def ftlFlush (buffer : List UInt8) (startblock nblocks : Nat) (dev : σ) : Outcome σ :=
  let mask := geo.blkper - 1
  match flushHead mtd geo startblock nblocks buffer dev with
  | .error o => o
  | .ok (remaining, buffer, dev) =>
    match flushMiddle mtd geo (remaining + 1) (clear (startblock + mask) mask) remaining buffer
      dev with
    | .error o => o
    | .ok (alignedblock, remaining, buffer, dev) =>
      match flushTail mtd geo alignedblock remaining buffer dev with
      | .error o => o
      | .ok dev => .ret nblocks dev

def ftlWrite (buffer : List UInt8) (startSector nsectors : Nat) (dev : σ) : Outcome σ :=
  ftlFlush mtd geo buffer startSector nsectors dev

end

/-- The methods of a device that never fail inside it. An erase sets every byte to `0xff`, and
a block write stores what it is given where the bytes are erased. -/
structure Works {σ : Type u} (mtd : MtdDev σ) (geo : Geometry) (bytes : σ → Nat → UInt8) :
    Prop where
  bread : ∀ dev b n, b + n ≤ geo.neraseblocks * geo.blkper →
    mtd.bread dev b n = ((n : Int), window (bytes dev) (b * geo.blocksize) (n * geo.blocksize))
  erase_ok : ∀ dev e, e < geo.neraseblocks → 0 ≤ (mtd.erase dev e 1).1
  erase : ∀ dev e, e < geo.neraseblocks → bytes (mtd.erase dev e 1).2 =
    overlay (e * geo.erasesize) (List.replicate geo.erasesize 0xff) (bytes dev)
  bwrite : ∀ dev b n data, b + n ≤ geo.neraseblocks * geo.blkper →
    n * geo.blocksize ≤ data.length →
    window (bytes dev) (b * geo.blocksize) (n * geo.blocksize) =
      List.replicate (n * geo.blocksize) 0xff →
    (mtd.bwrite dev b n data).1 = n ∧ bytes (mtd.bwrite dev b n data).2 =
      overlay (b * geo.blocksize) (data.take (n * geo.blocksize)) (bytes dev)

variable {σ : Type u} {mtd : MtdDev σ} {geo : Geometry} {bytes : σ → Nat → UInt8}

theorem sizeT_of_lt {n : Nat} (h : n < 4294967296) : sizeT n = n := by
  unfold sizeT
  omega

theorem and_mask {x k : Nat} : x &&& (2 ^ k - 1) = x % 2 ^ k :=
  Nat.and_two_pow_sub_one_eq_mod x k

theorem clear_mask (x k : Nat) : clear x (2 ^ k - 1) = x / 2 ^ k * 2 ^ k := by
  unfold clear
  rw [and_mask, ← Nat.shiftRight_eq_div_pow, ← Nat.shiftLeft_eq]
  apply Nat.eq_of_testBit_eq
  intro i
  rw [Nat.testBit_xor, Nat.testBit_mod_two_pow, Nat.testBit_shiftLeft, Nat.testBit_shiftRight]
  by_cases hi : i < k
  · have hn : ¬ k ≤ i := by omega
    simp [hi, hn]
  · have hn : k ≤ i := by omega
    have he : k + (i - k) = i := by omega
    simp [hi, hn, he]

theorem Geometry.blkper_pos (geo : Geometry) : 0 < geo.blkper := by
  obtain ⟨k, hk⟩ := geo.power
  rw [hk]
  exact Nat.two_pow_pos k

theorem Geometry.clear_mask (geo : Geometry) (x : Nat) :
    clear x (geo.blkper - 1) = x / geo.blkper * geo.blkper := by
  obtain ⟨k, hk⟩ := geo.power
  rw [hk]
  exact Mtd.clear_mask x k

theorem Geometry.and_mask (geo : Geometry) (x : Nat) :
    x &&& (geo.blkper - 1) = x % geo.blkper := by
  obtain ⟨k, hk⟩ := geo.power
  rw [hk]
  exact Mtd.and_mask

theorem Geometry.base (geo : Geometry) (e : Nat) :
    e * geo.blkper * geo.blocksize = e * geo.erasesize := by
  rw [geo.tiles, Nat.mul_assoc]

theorem Geometry.blkper_lt (geo : Geometry) {e : Nat} (he : e < geo.neraseblocks) :
    geo.blkper < 2 ^ 31 := by
  have h1 : 1 * geo.blkper ≤ geo.neraseblocks * geo.blkper :=
    Nat.mul_le_mul_right _ (by omega)
  have h2 := geo.fits
  omega

theorem Geometry.block_le (geo : Geometry) {e : Nat} (he : e < geo.neraseblocks) :
    e * geo.blkper + geo.blkper ≤ geo.neraseblocks * geo.blkper := by
  have h := Nat.mul_le_mul_right geo.blkper (Nat.succ_le_of_lt he)
  rw [Nat.succ_mul] at h
  exact h

theorem Works.store (W : Works mtd geo bytes) {e : Nat} (he : e < geo.neraseblocks)
    {data : List UInt8} (hd : geo.erasesize ≤ data.length) (dev : σ) :
    sizeT (mtd.bwrite (mtd.erase dev e 1).2 (e * geo.blkper) geo.blkper data).1 = geo.blkper ∧
      bytes (mtd.bwrite (mtd.erase dev e 1).2 (e * geo.blkper) geo.blkper data).2 =
        overlay (e * geo.erasesize) (data.take geo.erasesize) (bytes dev) := by
  have hlen : (List.replicate geo.erasesize (0xff : UInt8)).length = geo.erasesize :=
    List.length_replicate
  have herased : window (bytes (mtd.erase dev e 1).2) (e * geo.erasesize) geo.erasesize =
      List.replicate geo.erasesize 0xff := by
    rw [W.erase dev e he]
    exact window_overlay hlen
  have hb := W.bwrite (mtd.erase dev e 1).2 (e * geo.blkper) geo.blkper data (geo.block_le he)
  rw [geo.base, ← geo.tiles] at hb
  obtain ⟨h1, h2⟩ := hb hd herased
  have hlt := geo.blkper_lt he
  constructor
  · rw [h1]
    exact sizeT_of_lt (by omega)
  · have htake : geo.erasesize = (data.take geo.erasesize).length := by
      rw [List.length_take_of_le hd]
    rw [h2, W.erase dev e he]
    exact overlay_hides (hlen.trans htake)

theorem Works.rewrite (W : Works mtd geo bytes) {e offset nbytes : Nat}
    (he : e < geo.neraseblocks) (ho : offset + nbytes ≤ geo.erasesize) {buffer : List UInt8}
    (hb : nbytes ≤ buffer.length) (dev : σ) :
    ∃ dev', rewrite mtd geo (e * geo.blkper) offset nbytes buffer dev = .ok dev' ∧
      bytes dev' = overlay (e * geo.erasesize + offset) (buffer.take nbytes) (bytes dev) := by
  have hrd := W.bread dev (e * geo.blkper) geo.blkper (geo.block_le he)
  rw [geo.base, ← geo.tiles] at hrd
  have hdiv : e * geo.blkper / geo.blkper = e := Nat.mul_div_cancel e geo.blkper_pos
  have hsz : sizeT (geo.blkper : Int) = geo.blkper := by
    have := geo.blkper_lt he
    exact sizeT_of_lt (by omega)
  have htake : (buffer.take nbytes).length = nbytes := List.length_take_of_le hb
  have hm : (memcpy (window (bytes dev) (e * geo.erasesize) geo.erasesize) offset buffer
      nbytes).length = geo.erasesize := by
    simp only [memcpy, List.length_append, List.length_take, List.length_drop, length_window]
    omega
  obtain ⟨h1, h2⟩ := W.store he (Nat.le_of_eq hm.symm) dev
  have hnl : ¬ buffer.length < nbytes := by omega
  have hne : ¬ (mtd.erase dev e 1).1 < 0 := by
    have := W.erase_ok dev e he
    omega
  refine ⟨(mtd.bwrite (mtd.erase dev e 1).2 (e * geo.blkper) geo.blkper
    (memcpy (window (bytes dev) (e * geo.erasesize) geo.erasesize) offset buffer nbytes)).2,
    ?_, ?_⟩
  · simp only [Mtd.rewrite, hrd, hsz, hdiv, h1, ne_eq, not_true_eq_false, if_false, if_neg hne,
      if_neg hnl]
  · rw [List.take_of_length_le (Nat.le_of_eq hm)] at h2
    rw [h2]
    have hp : overlay (e * geo.erasesize) ((window (bytes dev) (e * geo.erasesize)
        geo.erasesize).take offset ++ buffer.take nbytes ++ (window (bytes dev)
        (e * geo.erasesize) geo.erasesize).drop (offset + (buffer.take nbytes).length))
        (bytes dev) = overlay (e * geo.erasesize + offset) (buffer.take nbytes) (bytes dev) :=
      overlay_window_patch (by rw [htake]; exact ho)
    rw [htake] at hp
    exact hp

theorem Works.flushMiddle (W : Works mtd geo bytes) {fuel : Nat} :
    ∀ {e remaining : Nat} {buffer : List UInt8} (dev : σ), remaining < fuel →
      e * geo.blkper + remaining ≤ geo.neraseblocks * geo.blkper →
      buffer.length = remaining * geo.blocksize →
      ∃ dev', Mtd.flushMiddle mtd geo fuel (e * geo.blkper) remaining buffer dev =
          .ok ((e + remaining / geo.blkper) * geo.blkper, remaining % geo.blkper,
            buffer.drop (remaining / geo.blkper * geo.erasesize), dev') ∧
        bytes dev' = overlay (e * geo.erasesize)
          (buffer.take (remaining / geo.blkper * geo.erasesize)) (bytes dev) := by
  induction fuel with
  | zero =>
    intro e remaining buffer dev hf
    omega
  | succ fuel ih =>
    intro e remaining buffer dev hf hin hb
    have hpos := geo.blkper_pos
    by_cases hr : geo.blkper ≤ remaining
    · have hen : e < geo.neraseblocks := by
        by_contra hge
        have := Nat.mul_le_mul_right geo.blkper (Nat.le_of_not_lt hge)
        omega
      have hlen : geo.erasesize ≤ buffer.length := by
        rw [hb, geo.tiles]
        exact Nat.mul_le_mul_right _ hr
      obtain ⟨h1, h2⟩ := W.store hen hlen dev
      have hne : ¬ (mtd.erase dev e 1).1 < 0 := by
        have := W.erase_ok dev e hen
        omega
      have hdiv : e * geo.blkper / geo.blkper = e := Nat.mul_div_cancel e hpos
      have hnext : e * geo.blkper + geo.blkper = (e + 1) * geo.blkper := by ring
      have hq : remaining / geo.blkper = (remaining - geo.blkper) / geo.blkper + 1 :=
        Nat.div_eq_sub_div hpos hr
      have hmod : remaining % geo.blkper = (remaining - geo.blkper) % geo.blkper :=
        Nat.mod_eq_sub_mod hr
      have hb' : (buffer.drop geo.erasesize).length =
          (remaining - geo.blkper) * geo.blocksize := by
        rw [List.length_drop, hb, geo.tiles, Nat.sub_mul]
      obtain ⟨dev', h3, h4⟩ := ih (e := e + 1)
        (mtd.bwrite (mtd.erase dev e 1).2 (e * geo.blkper) geo.blkper buffer).2 (by omega)
        (by rw [← hnext]; omega) hb'
      refine ⟨dev', ?_, ?_⟩
      · simp only [Mtd.flushMiddle, if_pos hr, hdiv, h1, if_neg hne,
          if_neg (Nat.not_lt.mpr hlen), ne_eq, not_true_eq_false, if_false, hnext, h3, hmod,
          List.drop_drop]
        rw [hq]
        congr 3
        · ring
        · congr 2
          ring
      · have hbase : (e + 1) * geo.erasesize = e * geo.erasesize + geo.erasesize := by ring
        have hsum : geo.erasesize + (remaining - geo.blkper) / geo.blkper * geo.erasesize =
            ((remaining - geo.blkper) / geo.blkper + 1) * geo.erasesize := by ring
        have htl : (buffer.take geo.erasesize).length = geo.erasesize :=
          List.length_take_of_le hlen
        rw [h4, h2, hbase, hq, ← hsum, List.take_add, ← overlay_append, htl]
    · have hlt : remaining < geo.blkper := by omega
      refine ⟨dev, ?_, ?_⟩
      · simp only [Mtd.flushMiddle, if_neg hr, Nat.div_eq_of_lt hlt, Nat.mod_eq_of_lt hlt,
          Nat.add_zero, Nat.zero_mul, List.drop_zero]
      · simp only [Nat.div_eq_of_lt hlt, Nat.zero_mul, List.take_zero, overlay_nil]

/-- What follows the head: from the start of an erase block on, all of the buffer is stored. -/
theorem Works.flushAligned (W : Works mtd geo bytes) {e remaining : Nat} {buffer : List UInt8}
    (hin : e * geo.blkper + remaining ≤ geo.neraseblocks * geo.blkper)
    (hb : buffer.length = remaining * geo.blocksize) (dev : σ) :
    ∃ alignedblock left rest dev1 dev',
      Mtd.flushMiddle mtd geo (remaining + 1) (e * geo.blkper) remaining buffer dev =
        .ok (alignedblock, left, rest, dev1) ∧
      flushTail mtd geo alignedblock left rest dev1 = .ok dev' ∧
      bytes dev' = overlay (e * geo.erasesize) buffer (bytes dev) := by
  obtain ⟨dev1, hmid, hbytes⟩ := W.flushMiddle dev (Nat.lt_succ_self remaining) hin hb
  have hpos := geo.blkper_pos
  have hsplit : remaining / geo.blkper * geo.blkper + remaining % geo.blkper = remaining := by
    rw [Nat.mul_comm]
    exact Nat.div_add_mod remaining geo.blkper
  have hlen : buffer.length =
      remaining / geo.blkper * geo.erasesize + remaining % geo.blkper * geo.blocksize := by
    rw [hb, ← geo.base, ← Nat.add_mul, hsplit]
  by_cases hr : 0 < remaining % geo.blkper
  · have he : e + remaining / geo.blkper < geo.neraseblocks := by
      by_contra hge
      have h1 := Nat.mul_le_mul_right geo.blkper (Nat.le_of_not_lt hge)
      rw [Nat.add_mul] at h1
      omega
    have hrest : (buffer.drop (remaining / geo.blkper * geo.erasesize)).length =
        remaining % geo.blkper * geo.blocksize := by
      rw [List.length_drop, hlen]
      omega
    have hfit : 0 + remaining % geo.blkper * geo.blocksize ≤ geo.erasesize := by
      rw [geo.tiles, Nat.zero_add]
      exact Nat.mul_le_mul_right _ (Nat.le_of_lt (Nat.mod_lt _ hpos))
    obtain ⟨dev', htail, hbytes'⟩ := W.rewrite he hfit (Nat.le_of_eq hrest.symm) dev1
    refine ⟨_, _, _, dev1, dev', hmid, ?_, ?_⟩
    · rw [flushTail, if_pos hr]
      exact htail
    · have hbase : (e + remaining / geo.blkper) * geo.erasesize + 0 =
          e * geo.erasesize + remaining / geo.blkper * geo.erasesize := by ring
      rw [hbytes', hbytes, hbase, List.take_of_length_le (Nat.le_of_eq hrest)]
      exact overlay_take_drop _
  · have h0 : remaining % geo.blkper = 0 := by omega
    refine ⟨_, _, _, dev1, dev1, hmid, ?_, ?_⟩
    · rw [flushTail, if_neg hr]
    · rw [hbytes, List.take_of_length_le]
      rw [hlen, h0]
      omega

/-- The head of an unaligned transfer copies to the end of its erase block, whatever the length
of the buffer. -/
theorem Works.rewrite_overrun (W : Works mtd geo bytes) {e offset nbytes : Nat}
    (he : e < geo.neraseblocks) {buffer : List UInt8} (hb : buffer.length < nbytes) (dev : σ) :
    Mtd.rewrite mtd geo (e * geo.blkper) offset nbytes buffer dev = .error .overrun := by
  have hrd := W.bread dev (e * geo.blkper) geo.blkper (geo.block_le he)
  have hdiv : e * geo.blkper / geo.blkper = e := Nat.mul_div_cancel e geo.blkper_pos
  have hsz : sizeT (geo.blkper : Int) = geo.blkper := by
    have := geo.blkper_lt he
    exact sizeT_of_lt (by omega)
  have hne : ¬ (mtd.erase dev e 1).1 < 0 := by
    have := W.erase_ok dev e he
    omega
  simp only [Mtd.rewrite, hrd, hsz, hdiv, ne_eq, not_true_eq_false, if_false, if_neg hne,
    if_pos hb]

theorem ceil_aligned {x b : Nat} (hb : 0 < b) (h : x % b = 0) : (x + (b - 1)) / b = x / b := by
  obtain ⟨q, rfl⟩ := Nat.dvd_of_mod_eq_zero h
  rw [Nat.mul_add_div hb, Nat.mul_div_cancel_left q hb, Nat.div_eq_of_lt (by omega)]
  rfl

theorem ceil_unaligned {x b : Nat} (hb : 0 < b) (h : x % b ≠ 0) :
    (x + (b - 1)) / b = x / b + 1 := by
  have hm := Nat.mod_lt x hb
  have hx := Nat.div_add_mod x b
  have he : x + (b - 1) = b * (x / b + 1) + (x % b - 1) := by
    rw [Nat.mul_succ]
    omega
  have hq : (x % b - 1) / b = 0 := Nat.div_eq_of_lt (by omega)
  rw [he, Nat.mul_add_div hb, hq]

theorem Works.flush_aligned (W : Works mtd geo bytes) {startblock nblocks : Nat}
    (hin : startblock + nblocks ≤ geo.neraseblocks * geo.blkper) {buffer : List UInt8}
    (hb : buffer.length = nblocks * geo.blocksize) (h0 : startblock % geo.blkper = 0) (dev : σ) :
    ∃ dev', ftlFlush mtd geo buffer startblock nblocks dev = .ret nblocks dev' ∧
      bytes dev' = overlay (startblock * geo.blocksize) buffer (bytes dev) := by
  have hpos := geo.blkper_pos
  have hs : startblock / geo.blkper * geo.blkper = startblock :=
    Nat.div_mul_cancel (Nat.dvd_of_mod_eq_zero h0)
  have ha : clear (startblock + (geo.blkper - 1)) (geo.blkper - 1) =
      startblock / geo.blkper * geo.blkper := by
    rw [geo.clear_mask, ceil_aligned hpos h0]
  have hhead : flushHead mtd geo startblock nblocks buffer dev = .ok (nblocks, buffer, dev) := by
    simp only [flushHead, ha]
    rw [if_neg (by omega)]
  obtain ⟨a, left, rest, dev1, dev', hmid, htail, hbytes⟩ := W.flushAligned
    (e := startblock / geo.blkper) (by rw [hs]; exact hin) hb dev
  refine ⟨dev', ?_, ?_⟩
  · simp only [ftlFlush, hhead, ha, hmid, htail]
  · rw [hbytes, ← geo.base, hs]

theorem Works.flush_unaligned (W : Works mtd geo bytes) {startblock nblocks : Nat}
    (hin : startblock + nblocks ≤ geo.neraseblocks * geo.blkper) {buffer : List UInt8}
    (hb : buffer.length = nblocks * geo.blocksize) (h0 : startblock % geo.blkper ≠ 0)
    (hreach : geo.blkper - startblock % geo.blkper ≤ nblocks) (dev : σ) :
    ∃ dev', ftlFlush mtd geo buffer startblock nblocks dev = .ret nblocks dev' ∧
      bytes dev' = overlay (startblock * geo.blocksize) buffer (bytes dev) := by
  have hpos := geo.blkper_pos
  have hlt := Nat.mod_lt startblock hpos
  have hs := Nat.div_add_mod startblock geo.blkper
  rw [Nat.mul_comm] at hs
  have ha : clear (startblock + (geo.blkper - 1)) (geo.blkper - 1) =
      (startblock / geo.blkper + 1) * geo.blkper := by
    rw [geo.clear_mask, ceil_unaligned hpos h0]
  have hnext : (startblock / geo.blkper + 1) * geo.blkper =
      startblock / geo.blkper * geo.blkper + geo.blkper := by ring
  have he : startblock / geo.blkper < geo.neraseblocks := by
    by_contra hge
    have := Nat.mul_le_mul_right geo.blkper (Nat.le_of_not_lt hge)
    omega
  have hfits := geo.fits
  have hsize : geo.erasesize - startblock % geo.blkper * geo.blocksize =
      (geo.blkper - startblock % geo.blkper) * geo.blocksize := by
    rw [geo.tiles, Nat.sub_mul]
  have hle : (geo.blkper - startblock % geo.blkper) * geo.blocksize ≤ buffer.length := by
    rw [hb]
    exact Nat.mul_le_mul_right _ hreach
  have hfit : startblock % geo.blkper * geo.blocksize +
      (geo.blkper - startblock % geo.blkper) * geo.blocksize ≤ geo.erasesize := by
    rw [← Nat.add_mul, geo.tiles]
    exact Nat.mul_le_mul_right _ (by omega)
  obtain ⟨dev1, hrw, hbytes1⟩ := W.rewrite he hfit hle dev
  have hsz : sizeT ((nblocks : Int) - ((geo.blkper - startblock % geo.blkper : Nat) : Int)) =
      nblocks - (geo.blkper - startblock % geo.blkper) := by
    rw [← Int.ofNat_sub hreach]
    exact sizeT_of_lt (by omega)
  have hhead : flushHead mtd geo startblock nblocks buffer dev =
      .ok (nblocks - (geo.blkper - startblock % geo.blkper),
        buffer.drop ((geo.blkper - startblock % geo.blkper) * geo.blocksize), dev1) := by
    simp only [flushHead, ha, geo.and_mask, geo.clear_mask, hsize, hrw, hsz]
    rw [if_pos (by omega)]
  have hin' : (startblock / geo.blkper + 1) * geo.blkper +
      (nblocks - (geo.blkper - startblock % geo.blkper)) ≤ geo.neraseblocks * geo.blkper := by
    rw [hnext]
    omega
  have hrest : (buffer.drop
      ((geo.blkper - startblock % geo.blkper) * geo.blocksize)).length =
        (nblocks - (geo.blkper - startblock % geo.blkper)) * geo.blocksize := by
    rw [List.length_drop, hb, ← Nat.sub_mul]
  obtain ⟨a, left, rest, dev2, dev', hmid, htail, hbytes⟩ := W.flushAligned
    (e := startblock / geo.blkper + 1) hin' hrest dev1
  refine ⟨dev', ?_, ?_⟩
  · simp only [ftlFlush, hhead, ha, hmid, htail]
  · have hbase1 : startblock / geo.blkper * geo.erasesize +
        startblock % geo.blkper * geo.blocksize = startblock * geo.blocksize := by
      rw [← geo.base, ← Nat.add_mul, hs]
    have hbase2 : (startblock / geo.blkper + 1) * geo.erasesize = startblock * geo.blocksize +
        (geo.blkper - startblock % geo.blkper) * geo.blocksize := by
      rw [← geo.base, ← Nat.add_mul, hnext]
      congr 1
      omega
    rw [hbytes, hbytes1, hbase1, hbase2]
    exact overlay_take_drop _

/-- `ftl_flush` stores the buffer and nothing else exactly if the transfer starts at an erase
block or reaches the end of the erase block that it starts in. -/
theorem ftlFlush_stores_iff (W : Works mtd geo bytes) {startblock nblocks : Nat}
    (hin : startblock + nblocks ≤ geo.neraseblocks * geo.blkper) {buffer : List UInt8}
    (hb : buffer.length = nblocks * geo.blocksize) (dev : σ) :
    (∃ dev', ftlFlush mtd geo buffer startblock nblocks dev = .ret nblocks dev' ∧
      bytes dev' = overlay (startblock * geo.blocksize) buffer (bytes dev)) ↔
    startblock % geo.blkper = 0 ∨ geo.blkper - startblock % geo.blkper ≤ nblocks := by
  constructor
  · rintro ⟨dev', hret, -⟩
    by_contra hn
    obtain ⟨h0, hshort⟩ := not_or.mp hn
    have hpos := geo.blkper_pos
    have hs := Nat.div_add_mod startblock geo.blkper
    rw [Nat.mul_comm] at hs
    have hlt := Nat.mod_lt startblock hpos
    have ha : clear (startblock + (geo.blkper - 1)) (geo.blkper - 1) =
        startblock / geo.blkper * geo.blkper + geo.blkper := by
      rw [geo.clear_mask, ceil_unaligned hpos h0, Nat.succ_mul]
    have he : startblock / geo.blkper < geo.neraseblocks := by
      by_contra hge
      have := Nat.mul_le_mul_right geo.blkper (Nat.le_of_not_lt hge)
      omega
    have hsize : geo.erasesize - startblock % geo.blkper * geo.blocksize =
        (geo.blkper - startblock % geo.blkper) * geo.blocksize := by
      rw [geo.tiles, Nat.sub_mul]
    have hover : buffer.length < (geo.blkper - startblock % geo.blkper) * geo.blocksize := by
      rw [hb]
      exact Nat.mul_lt_mul_of_pos_right (by omega) geo.blocksize_pos
    have hhead : flushHead mtd geo startblock nblocks buffer dev = .error .overrun := by
      simp only [flushHead, ha, geo.and_mask, geo.clear_mask, hsize, W.rewrite_overrun he hover]
      rw [if_pos (by omega)]
    simp only [ftlFlush, hhead] at hret
    cases hret
  · intro h
    by_cases h0 : startblock % geo.blkper = 0
    · exact W.flush_aligned hin hb h0 dev
    · exact W.flush_unaligned hin hb h0 (h.resolve_left h0) dev

/-- A NOR flash: a program operation can only clear bits. -/
def norFlash (geo : Geometry) : MtdDev (Nat → UInt8) where
  erase dev e n :=
    (0, overlay (e * geo.erasesize) (List.replicate (n * geo.erasesize) 0xff) dev)
  bread dev b n := (n, window dev (b * geo.blocksize) (n * geo.blocksize))
  bwrite dev b n data := (n, overlay (b * geo.blocksize)
    (List.zipWith (· &&& ·) (window dev (b * geo.blocksize) (n * geo.blocksize)) data) dev)

theorem allOnes_and (x : UInt8) : 0xff &&& x = x := by
  apply UInt8.toBitVec_inj.mp
  rw [UInt8.toBitVec_and]
  exact BitVec.allOnes_and

theorem zipWith_replicate_and (n : Nat) (data : List UInt8) :
    List.zipWith (· &&& ·) (List.replicate n 0xff) data = data.take n := by
  induction n generalizing data with
  | zero => simp
  | succ n ih =>
    cases data with
    | nil => simp
    | cons x data =>
      simp only [List.replicate_succ, List.zipWith_cons_cons, List.take_succ_cons, ih,
        allOnes_and]

theorem norFlash_works (geo : Geometry) : Works (norFlash geo) geo fun dev => dev where
  bread _ _ _ _ := rfl
  erase_ok _ _ _ := Int.le_refl 0
  erase dev e _ := by
    simp only [norFlash, Nat.one_mul]
  bwrite dev b n data _ _ he := by
    constructor
    · rfl
    · simp only [norFlash, he, zipWith_replicate_and]

def smallGeometry : Geometry where
  blocksize := 2
  erasesize := 8
  neraseblocks := 3
  blkper := 4
  power := ⟨2, rfl⟩
  tiles := rfl
  blocksize_pos := by decide
  fits := by decide

/-- From the middle of the first erase block into the second. -/
theorem ftlFlush_stores_iff_across : ∃ dev', ftlFlush (norFlash smallGeometry) smallGeometry
    [1, 2, 3, 4, 5, 6] 2 3 (fun _ => 0) = .ret 3 dev' ∧
      dev' = overlay 4 [1, 2, 3, 4, 5, 6] (fun _ => 0) :=
  (ftlFlush_stores_iff (norFlash_works smallGeometry) (by decide) rfl fun _ => 0).mpr
    (by decide)

/-- One block inside an erase block: the copy goes on to the end of the erase block. -/
theorem ftlFlush_overruns : ¬ ∀ (startblock nblocks : Nat) (buffer : List UInt8)
    (dev : Nat → UInt8), startblock + nblocks ≤ 12 → buffer.length = nblocks * 2 →
    ∃ dev', ftlFlush (norFlash smallGeometry) smallGeometry buffer startblock nblocks dev =
      .ret nblocks dev' ∧ dev' = overlay (startblock * 2) buffer dev := by
  intro hall
  obtain ⟨dev', hret, -⟩ := hall 1 1 [1, 2] (fun _ => 0) (by decide) rfl
  have hover : ftlFlush (norFlash smallGeometry) smallGeometry [1, 2] 1 1 (fun _ => 0) =
      .overrun := by
    rfl
  rw [hover] at hret
  cases hret

end NuttxAvr32.Mtd
