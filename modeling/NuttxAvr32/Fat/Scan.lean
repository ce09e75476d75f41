import NuttxAvr32.Fat.Directory

/-! # A loop over a directory

The loops of `fat_finddirentry`, `fat_allocatedirentry` and `fat_remove` read the entries one after
the other up to the first that they look for. The device makes no errors here.
-/

namespace NuttxAvr32.Fat.Scan

/-- The loops over the entries of a directory: the offset in the buffer of the first entry at
which the loop stops. -/
def scanDir (stop : Sector → Bool) : Nat → Fatdir → State → Option (State × Fatdir × Option Nat)
  | 0, _, _ => none
  | fuel + 1, dir, s =>
    let r := cacheread .ok dir.fdCurrsector s
    if r.2 = false then some (r.1, dir, none)
    else
      let dirindex := dirsecBytendx r.1.fs dir.fdIndex
      if stop fun x => r.1.fs.fsBuffer (dirindex + x) then some (r.1, dir, some dirindex)
      else
        let n := fatNextdirentry dir r.1
        if n.2.2 then scanDir stop fuel n.2.1 n.1 else some (n.1, n.2.1, none)

def entryAt (fs : Mountpt) (e : Nat) : Sector := fun x => fs.fsBuffer (e + x)

variable {stop : Sector → Bool} {s s' : State} {start i j fuel : Nat} {cs : List Nat}

/-- The loop stands at entry `j`, whose sector is in the buffer. -/
structure StopsAt (s : State) (start : Nat) (cs : List Nat) (j : Nat)
    (r : State × Fatdir × Option Nat) : Prop where
  range : j < total s.fs cs
  same : Reloaded s r.1
  dir : r.2.1 = position s.fs start cs j
  entry : r.2.2 = some (dirsecBytendx s.fs j)
  sector : r.1.fs.fsCurrentsector = sectorAt s.fs cs (j / dirsecNdirs s.fs)

structure Ends (s : State) (start : Nat) (r : State × Fatdir × Option Nat) : Prop where
  same : Reloaded s r.1
  dir : r.2.1.fdStartcluster = start ∧ (start = 0 → r.2.1.fdCurrcluster = 0)
  entry : r.2.2 = none

theorem StopsAt.of_reloaded {r : State × Fatdir × Option Nat} (h : Reloaded s s')
    (S : StopsAt s' start cs j r) : StopsAt s start cs j r where
  range := by
    have hrange := S.range
    rwa [h.total] at hrange
  same := h.trans S.same
  dir := S.dir.trans h.position
  entry := by
    have hentry := S.entry
    obtain ⟨p, c, b, hfs⟩ := h.fs
    rw [hfs] at hentry
    exact hentry
  sector := by
    have hsector := S.sector
    obtain ⟨p, c, b, hfs⟩ := h.fs
    rw [hfs] at hsector
    exact hsector

theorem Ends.of_reloaded {r : State × Fatdir × Option Nat} (h : Reloaded s s')
    (E : Ends s' start r) : Ends s start r :=
  ⟨h.trans E.same, E.dir, E.entry⟩

theorem StopsAt.entryAt {r : State × Fatdir × Option Nat} (S : StopsAt s start cs j r) :
    entryAt r.1.fs (dirsecBytendx s.fs j) = slotAt s cs j := by
  funext x
  have hbuffer := view_current r.1
  rw [S.sector, S.same.view] at hbuffer
  unfold Scan.entryAt slotAt
  rw [← hbuffer]

theorem currcluster_root (T : Table s start cs) (i : Nat) (h : start = 0) :
    (position s.fs start cs i).fdCurrcluster = 0 := by
  rw [T.root.mp h]
  rfl

/-- From entry `i` on the loop stops at the next entry it stops for, or comes to the end. -/
theorem scan_spec (T : Table s start cs) (hi : i < total s.fs cs)
    (hfuel : total s.fs cs < i + fuel) :
    ∃ r, scanDir stop fuel (position s.fs start cs i) s = some r ∧
      ((∃ j, i ≤ j ∧ StopsAt s start cs j r ∧ stop (slotAt s cs j) = true ∧
          ∀ k, i ≤ k → k < j → stop (slotAt s cs k) = false) ∨
        Ends s start r ∧ ∀ k, i ≤ k → k < total s.fs cs → stop (slotAt s cs k) = false) := by
  induction fuel generalizing s i with
  | zero => omega
  | succ fuel ih =>
    have hload := T.reloaded_slot hi
    have T' := T.of_reloaded hload
    have S : StopsAt s start cs i
        (load (sectorAt s.fs cs (i / dirsecNdirs s.fs)) s, position s.fs start cs i,
          some (dirsecBytendx s.fs i)) :=
      ⟨hi, hload, rfl, rfl, load_current _ _⟩
    have hentry : (fun x => (load (sectorAt s.fs cs (i / dirsecNdirs s.fs)) s).fs.fsBuffer
        (dirsecBytendx s.fs i + x)) = slotAt s cs i := S.entryAt
    rw [scanDir, show (position s.fs start cs i).fdCurrsector =
      sectorAt s.fs cs (i / dirsecNdirs s.fs) from rfl, cacheread_ok T.sound]
    dsimp only
    rw [if_neg (by decide), show (position s.fs start cs i).fdIndex = wrap32 i from rfl,
      T.load_bytendx, hentry]
    by_cases hstop : stop (slotAt s cs i) = true
    · rw [if_pos hstop]
      exact ⟨_, rfl, .inl ⟨i, Nat.le_refl i, S, hstop, fun k h1 h2 => by omega⟩⟩
    · have hgo : stop (slotAt s cs i) = false := Bool.eq_false_of_not_eq_true hstop
      rw [if_neg hstop]
      by_cases hlast : i + 1 < total s.fs cs
      · obtain ⟨s', hre, hnext⟩ := next_within T' (hload.total.symm ▸ hlast)
        have hboth := hload.trans hre
        rw [hload.position] at hnext
        rw [hnext, if_pos rfl, hload.position]
        obtain ⟨r, hr, hout⟩ := ih (T.of_reloaded hboth) (i := i + 1)
          (hboth.total.symm ▸ hlast) (by rw [hboth.total]; omega)
        rw [hboth.position] at hr
        refine ⟨r, hr, ?_⟩
        rcases hout with ⟨j, hj, S', hat, hbefore⟩ | ⟨E, hnone⟩
        · rw [hboth.slotAt] at hat
          refine .inl ⟨j, by omega, S'.of_reloaded hboth, hat, fun k hk hkj => ?_⟩
          by_cases hki : k = i
          · rw [hki]
            exact hgo
          · have h := hbefore k (by omega) hkj
            rwa [hboth.slotAt] at h
        · refine .inr ⟨E.of_reloaded hboth, fun k hk hkt => ?_⟩
          by_cases hki : k = i
          · rw [hki]
            exact hgo
          · have h := hnone k (by omega) (hboth.total.symm ▸ hkt)
            rwa [hboth.slotAt] at h
      · obtain ⟨s', hre, hnext⟩ := next_end T' (i := i) (by rw [hload.total]; omega)
        rw [hload.position] at hnext
        rw [hnext, if_neg Bool.false_ne_true]
        refine ⟨_, rfl, .inr ⟨⟨hload.trans hre, ⟨rfl, currcluster_root T i⟩, rfl⟩, ?_⟩⟩
        intro k hk hkt
        rw [show k = i by omega]
        exact hgo

end NuttxAvr32.Fat.Scan
