import NuttxAvr32.Fat.Scan

/-! # Allocating an entry of a directory

`fat_allocatedirentry` looks for a deleted or unused entry. The code that would extend the
directory stands behind a loop that is left by `return` only.
-/

namespace NuttxAvr32.Fat.Allocate

open Scan

/-- The loop: `dirinfo` and the offset of `fd_entry` in the buffer, `none` where an error is
returned. -/
def allocLoop : Nat → Fatdir → State → Option (State × Fatdir × Option Nat)
  | 0, _, _ => none
  | fuel + 1, dir, s =>
      let r := cacheread .ok dir.fdCurrsector s
      if r.2 = false then some (r.1, dir, none)
      else
        let dirindex := dirsecBytendx r.1.fs dir.fdIndex
        let ch := r.1.fs.fsBuffer dirindex
        if ch = 0 ∨ ch = 0xe5 then some (r.1, dir, some dirindex)
        else
          let n := fatNextdirentry dir r.1
          if n.2.2 then allocLoop fuel n.2.1 n.1 else some (n.1, n.2.1, none)

/-- `fat_allocatedirentry` on a device that makes no error. -/
def fatAllocatedirentry (fuel : Nat) (dir : Fatdir) (s : State) :
    Option (State × Fatdir × Option Nat) :=
  let dir :=
    if dir.fdStartcluster ≠ 0 then
      { dir with
        fdCurrcluster := dir.fdStartcluster
        fdCurrsector := wrapInt (fatCluster2sector s.fs dir.fdStartcluster) }
    else { dir with fdCurrsector := s.fs.fsRootbase }
  allocLoop fuel { dir with fdIndex := 0 } s

def FreeSlot (s : State) (cs : List Nat) (i : Nat) : Prop :=
  slotAt s cs i 0 = 0 ∨ slotAt s cs i 0 = 0xe5

instance decidableFreeSlot (s : State) (cs : List Nat) (i : Nat) : Decidable (FreeSlot s cs i) :=
  inferInstanceAs (Decidable (_ ∨ _))

def HasSlot (s : State) (cs : List Nat) : Prop := ∃ i < total s.fs cs, FreeSlot s cs i

def HasCluster (s : State) : Prop := ∃ c, Valid s c ∧ entry s c = 0

/-- The entry `i` is free and is the one that is returned, with its sector in the buffer. -/
structure Found (s : State) (start : Nat) (cs : List Nat) (i : Nat)
    (r : State × Fatdir × Option Nat) : Prop where
  slot : i < total s.fs cs ∧ FreeSlot s cs i
  dir : r.2.1 = position s.fs start cs i
  entry : r.2.2 = some (dirsecBytendx s.fs i)
  sector : r.1.fs.fsCurrentsector = sectorAt s.fs cs (i / dirsecNdirs s.fs)
  same : ∀ x, view r.1 x = view s x

/-- The free cluster `c` was linked to the end of the directory and filled with zeros, and its
first entry is returned. -/
structure Appended (s : State) (start : Nat) (cs : List Nat) (c : Nat)
    (r : State × Fatdir × Option Nat) : Prop where
  free : Valid s c ∧ Fat.entry s c = 0
  chain : ChainFrom r.1 start (cs ++ [c])
  zero : ∀ j < s.fs.fsFatsecperclus, ∀ x < s.fs.fsHwsectorsize,
    r.1.dev (clusterSector s.fs c + j) x = 0
  entry : r.2.2 = some 0
  sector : r.1.fs.fsCurrentsector = clusterSector s.fs c

theorem freeSlot_reloaded {s s' : State} (h : Reloaded s s') (cs : List Nat) (i : Nat) :
    FreeSlot s' cs i ↔ FreeSlot s cs i := by
  unfold FreeSlot
  rw [h.slotAt]

structure Right (s : State) (start : Nat) (cs : List Nat) (r : State × Fatdir × Option Nat) :
    Prop where
  slot : HasSlot s cs → ∃ i, Found s start cs i r
  extend : start ≠ 0 → ¬ HasSlot s cs → HasCluster s → ∃ c, Appended s start cs c r
  full : ¬ HasSlot s cs → start = 0 ∨ ¬ HasCluster s →
    r.2.2 = none ∧ ∀ x, view r.1 x = view s x

section

variable {s s' : State} {start j fuel : Nat} {cs : List Nat} {dir : Fatdir}

def stopsFree (p : Sector) : Bool := p 0 = 0 ∨ p 0 = 0xe5

theorem stopsFree_slot (i : Nat) : stopsFree (slotAt s cs i) = true ↔ FreeSlot s cs i :=
  decide_eq_true_iff

theorem allocLoop_eq (fuel : Nat) (dir : Fatdir) (s : State) :
    allocLoop fuel dir s = scanDir stopsFree fuel dir s := by
  induction fuel generalizing dir s with
  | zero => rfl
  | succ fuel ih =>
      unfold allocLoop scanDir stopsFree
      simp only [decide_eq_true_eq, Nat.add_zero, ih]
      rfl

structure FirstFree (s : State) (start : Nat) (cs : List Nat) (j : Nat)
    (r : State × Fatdir × Option Nat) : Prop where
  stop : StopsAt s start cs j r
  free : FreeSlot s cs j
  used : ∀ k < j, ¬ FreeSlot s cs k

theorem FirstFree.found {r : State × Fatdir × Option Nat} (F : FirstFree s start cs j r) :
    Found s start cs j r where
  slot := ⟨F.stop.range, F.free⟩
  dir := F.stop.dir
  entry := F.stop.entry
  sector := F.stop.sector
  same := F.stop.same.view

theorem FirstFree.of_reloaded {r : State × Fatdir × Option Nat} (h : Reloaded s s')
    (F : FirstFree s' start cs j r) : FirstFree s start cs j r where
  stop := F.stop.of_reloaded h
  free := (freeSlot_reloaded h cs j).mp F.free
  used k hk hfree := F.used k hk ((freeSlot_reloaded h cs k).mpr hfree)

theorem allocate_first (T : Table s start cs) (hdir : dir.fdStartcluster = start)
    (hcluster : start = 0 → dir.fdCurrcluster = 0) :
    fatAllocatedirentry fuel dir s = allocLoop fuel (position s.fs start cs 0) s := by
  unfold fatAllocatedirentry
  by_cases hstart : start = 0
  · subst hstart
    rw [position_root T, hdir, if_neg (by decide), ← hcluster rfl]
  · rw [position_chain T hstart 0 (ndirs_pos T.sound.size), hdir, if_pos hstart]
    rfl

theorem allocate_spec (T : Table s start cs) (hdir : dir.fdStartcluster = start)
    (hcluster : start = 0 → dir.fdCurrcluster = 0) (hfuel : total s.fs cs < fuel) :
    ∃ r, fatAllocatedirentry fuel dir s = some r ∧
      ((∃ j, FirstFree s start cs j r) ∨ ¬ HasSlot s cs ∧ Ends s start r) := by
  obtain ⟨r, hr, hout⟩ := @scan_spec stopsFree s start 0 fuel cs T (total_pos T) (by omega)
  rw [← allocLoop_eq, ← allocate_first T hdir hcluster] at hr
  refine ⟨r, hr, ?_⟩
  rcases hout with ⟨j, -, S, hstop, hbefore⟩ | ⟨E, hnone⟩
  · refine .inl ⟨j, S, (stopsFree_slot j).mp hstop, fun k hk hfree => ?_⟩
    have hno := hbefore k (Nat.zero_le k) hk
    rw [(stopsFree_slot k).mpr hfree] at hno
    cases hno
  · refine .inr ⟨fun ⟨k, hk, hfree⟩ => ?_, E⟩
    have hno := hnone k (Nat.zero_le k) hk
    rw [(stopsFree_slot k).mpr hfree] at hno
    cases hno

end

/-- Allocating is right exactly where the directory need not grow or cannot. -/
theorem allocate_right_iff {s : State} {start fuel : Nat} {cs : List Nat} {dir : Fatdir}
    (T : Table s start cs) (hdir : dir.fdStartcluster = start)
    (hcluster : start = 0 → dir.fdCurrcluster = 0) (hfuel : total s.fs cs < fuel) :
    (∃ r, fatAllocatedirentry fuel dir s = some r ∧ Right s start cs r) ↔
      start = 0 ∨ HasSlot s cs ∨ ¬ HasCluster s := by
  obtain ⟨r, hr, hout⟩ := allocate_spec T hdir hcluster hfuel
  constructor
  · intro ⟨r', hr', R⟩
    have heq : r' = r := Option.some.inj (hr'.symm.trans hr)
    by_contra hno
    have hstart : start ≠ 0 := fun h => hno (.inl h)
    have hslot : ¬ HasSlot s cs := fun h => hno (.inr (.inl h))
    have hfree : HasCluster s := Classical.not_not.mp fun h => hno (.inr (.inr h))
    obtain ⟨c, A⟩ := R.extend hstart hslot hfree
    rcases hout with ⟨j, F⟩ | ⟨-, E⟩
    · exact hslot ⟨j, F.found.slot⟩
    · have hsome := A.entry
      rw [heq, E.entry] at hsome
      cases hsome
  · intro hcond
    refine ⟨r, hr, ?_⟩
    rcases hout with ⟨j, F⟩ | ⟨hslot, E⟩
    · have hhas : HasSlot s cs := ⟨j, F.found.slot⟩
      exact ⟨fun _ => ⟨j, F.found⟩, fun _ h _ => absurd hhas h, fun h _ => absurd hhas h⟩
    · refine ⟨fun h => absurd h hslot, fun hstart _ hfree => ?_,
        fun _ _ => ⟨E.entry, E.same.view⟩⟩
      rcases hcond with h | h | h
      · exact absurd h hstart
      · exact absurd h hslot
      · exact absurd hfree h

/-- The root has room. -/
theorem allocate_right_root : ∃ r,
    fatAllocatedirentry 17 ⟨0, 0, 0, 0⟩ (oneCluster 16) = some r ∧ Right (oneCluster 16) 0 [] r :=
  (allocate_right_iff (oneCluster_root 16) rfl (fun _ => rfl)
    (by decide)).mpr (.inl rfl)

theorem oneCluster_full : ¬ HasSlot (oneCluster 16) [2] := by
  have hall : ∀ i < 16, ¬ FreeSlot (oneCluster 16) [2] i := by decide +kernel
  intro ⟨i, hi, hfree⟩
  exact hall i hi hfree

/-- A full directory is not extended. -/
theorem allocate_stuck : ¬ ∀ (s : State) (start fuel : Nat) (cs : List Nat) (dir : Fatdir),
    Table s start cs → dir.fdStartcluster = start → (start = 0 → dir.fdCurrcluster = 0) →
      total s.fs cs < fuel → ∃ r, fatAllocatedirentry fuel dir s = some r ∧ Right s start cs r := by
  intro hall
  have T := oneCluster_chain 16
  let dir : Fatdir := ⟨2, 2, 10, 2⟩
  have hdir : dir.fdStartcluster = 2 := rfl
  have hcluster : 2 = 0 → dir.fdCurrcluster = 0 := fun h => by cases h
  have hfuel : total (oneCluster 16).fs [2] < 17 := by decide
  obtain ⟨r, hr, R⟩ := hall _ 2 17 [2] dir T hdir hcluster hfuel
  obtain ⟨r', hr', hout⟩ := allocate_spec T hdir hcluster hfuel
  have heq : r' = r := Option.some.inj (hr'.symm.trans hr)
  obtain ⟨c, A⟩ := R.extend (by decide) oneCluster_full ⟨3, ⟨by decide, by decide⟩, by decide⟩
  rcases hout with ⟨j, F⟩ | ⟨-, E⟩
  · exact oneCluster_full ⟨j, F.found.slot⟩
  · have hsome := A.entry
    rw [← heq, E.entry] at hsome
    cases hsome

end NuttxAvr32.Fat.Allocate
