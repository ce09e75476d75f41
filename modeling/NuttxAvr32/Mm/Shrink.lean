import NuttxAvr32.Mm.Free

/-! # What `mm_shrinkchunk` does to the heap

The tail of an allocated chunk becomes a free chunk, merged with the free chunk
that follows; without one the tail must hold a free node.
-/

namespace NuttxAvr32.Mm

open ByteMemory

/-- The heap after the allocated chunk of size `c` in the gap was cut to `s` bytes. -/
def Site.shrink (σ : Site) (c s : Nat) : List Region :=
  if s + 16 ≤ (σ.mergeRight c).2 then
    (σ.mergeRight c).1.fill [⟨s, true⟩, ⟨(σ.mergeRight c).2 - s, false⟩]
  else σ.fill [⟨c, true⟩]

section

variable {g : Nat} {σ : Site} {m : Memory} {c s t : Nat}

theorem RepOf.add_rest {x : List Chunk} {a : Nat} {u : Nat × Chunk} {m₁ : Memory}
    (R : RepOf g m₁ (σ.fill x) (σ.others (total x))) (k : Kept m m₁ (u :: σ.others (total x)))
    (hu : u.2.alloc = true) (hx : ∀ v, v ∈ place σ.addr x ↔ v = (a, ⟨t, false⟩) ∨ v = u)
    (h16 : 16 ≤ t) :
    ∃ m', Mm.mmAddfreechunk g m₁ a = some m' ∧ Rep g m' (σ.fill x) ∧
      Kept m m' (u :: σ.others (total x)) := by
  obtain ⟨m₂, e₂, R₂, k₂⟩ := R.add_gap ((hx _).mpr (.inl rfl)) h16
  refine ⟨m₂, e₂, R₂.close fun v ha => ?_, k.trans (k₂.mono fun v hv _ => ?_)⟩
  · rw [List.mem_cons, hx v]
    refine or_congr_left ⟨.inl, fun h => h.resolve_right fun he => ?_⟩
    rw [he, hu] at ha
    cases ha
  · rcases List.mem_cons.mp hv with rfl | hv
    · exact Site.mem_blocks_fill.mpr (.inl ((hx _).mpr (.inr rfl)))
    · exact Site.others_sub rfl v hv

theorem RepOf.cut_add {x : List Chunk} (R : RepOf g m (σ.fill x) (σ.others (s + t)))
    (hx : total x = s + t) (hs : ChunkOk ⟨s, true⟩) (ht : ChunkOk ⟨t, false⟩) (h16 : 16 ≤ t)
    (hp : preceding m σ.addr = precWord σ.prec true) (hlast : lastSize σ.prec x < 2 ^ 31) :
    ∃ m', Mm.mmAddfreechunk g (Mm.cut m σ.addr s t) (σ.addr + s) = some m' ∧
      Rep g m' (σ.fill [⟨s, true⟩, ⟨t, false⟩]) ∧
      Kept m m' ((σ.addr, ⟨s, true⟩) :: σ.others (s + t)) := by
  obtain ⟨R₁, k₁⟩ := R.cut hx hs ht hp hlast
  exact R₁.add_rest k₁ rfl (fun v => by simp [or_comm]) h16

theorem Rep.mmShrinkchunk (R : Rep g m (σ.fill [⟨c, true⟩])) (h8 : s % 8 = 0) (hs : 8 ≤ s)
    (hsc : s < c) :
    ∃ m', Mm.mmShrinkchunk g m σ.addr s = some m' ∧ Rep g m' (σ.shrink c s) ∧
      Kept m m' ((σ.addr, ⟨s, true⟩) :: σ.others c) := by
  have R₀ := R.open_alloc
  have hc : ChunkOk ⟨c, true⟩ :=
    R.layout.chunkOk (u := (σ.addr, ⟨c, true⟩))
      (Site.mem_blocks_fill.mpr (.inl List.mem_cons_self))
  have hc8 : c % 8 = 0 := hc.mult
  have hsize : c + 16 < 2 ^ 31 := R.layout.gap.size
  have hsok : ChunkOk ⟨s, true⟩ := ⟨h8, hs⟩
  obtain ⟨⟨hsz, hp, _⟩, hns, hn⟩ := site_tiles R₀.tiled
  simp only [total_cons, total_nil, lastSize_cons, lastSize_nil, Nat.add_zero] at hn hns
  have hsz' : nodeSize m σ.addr = c := hsz
  have hflag : isAllocated (preceding m (σ.addr + c)) = σ.next.alloc := by
    rw [hn, isAllocated_precWord (by omega)]
  unfold Mm.mmShrinkchunk Site.shrink
  dsimp only
  rw [hsz', hflag]
  rcases σ.next_cases with ⟨ha, hm⟩ | ⟨n, r, hright, hnext, hm⟩
  · rw [hm, ha, if_neg (by decide)]
    by_cases hrem : s + 16 ≤ c
    · obtain ⟨t, rfl⟩ : ∃ t, c = s + t := ⟨c - s, by omega⟩
      have htok : ChunkOk ⟨t, false⟩ := by
        constructor
        · show t % 8 = 0
          omega
        · show 8 ≤ t
          omega
      obtain ⟨m₂, e₂, R₂, k₂⟩ := R₀.cut_add rfl hsok htok (by omega) hp
        (by rw [lastSize_cons, lastSize_nil]; omega)
      have hcut : setPreceding (setSize (setPreceding (setSize m (σ.addr + s) t) (σ.addr + s) s)
          σ.addr s) (σ.addr + (s + t)) (setAlloc t) = Mm.cut m σ.addr s t := by
        have hread : preceding (setSize (setPreceding (setSize m (σ.addr + s) t) (σ.addr + s) s)
            σ.addr s) (σ.addr + (s + t)) = precWord (s + t) true := by
          rw [preceding_setSize (by omega), preceding_setPreceding_of_ne (by omega),
            preceding_setSize (by omega), hn, ha]
        unfold Mm.cut
        dsimp only
        rw [hread, keepAlloc, isAllocated_precWord (by omega), if_pos rfl]
      have hnew : nodeSize (setSize (setPreceding (setSize m (σ.addr + s) t) (σ.addr + s) s)
          σ.addr s) (σ.addr + s) = t := by
        rw [nodeSize_setSize_of_ne (by omega), nodeSize_setPreceding (by omega),
          nodeSize_setSize (by omega)]
      refine ⟨m₂, ?_, ?_, k₂⟩
      · rw [if_pos hrem, Nat.add_sub_cancel_left, hnew, hcut, e₂]
      · rw [if_pos hrem, Nat.add_sub_cancel_left]
        exact R₂
    · refine ⟨m, ?_, ?_, Kept.refl _ _⟩
      · rw [if_neg hrem]
      · rw [if_neg hrem]
        exact R
  · have hnsz : nodeSize m (σ.addr + c) = n := by rw [hns, hnext]
    have hn16 : 16 ≤ n :=
      R₀.low ((Site.mem_others_right hright).mpr (.inl rfl)) rfl
    obtain ⟨R₁, k₁⟩ := R₀.unlink_right hright
    have hn8 : n % 8 = 0 :=
      (R₁.layout.chunkOk (u := (σ.addr + c, ⟨n, false⟩))
        (Site.mem_blocks_fill.mpr (.inl (by simp [Site.addr])))).mult
    obtain ⟨⟨h1, h2, h3, h4, _⟩, _, h6⟩ := site_tiles R₁.tiled
    have h1' : nodeSize (Mm.unlink m (σ.addr + c)) σ.addr = c := h1
    have h3' : nodeSize (Mm.unlink m (σ.addr + c)) (σ.addr + c) = n := h3
    have hgap := R₁.layout.gap
    have hsize₁ : c + n + 16 < 2 ^ 31 := hgap.size
    obtain ⟨t, ht⟩ : ∃ t, c + n = s + t := ⟨c + n - s, by omega⟩
    have htok : ChunkOk ⟨t, false⟩ := by
      constructor
      · show t % 8 = 0
        omega
      · show 8 ≤ t
        omega
    have ht' : n + c - s = t := by omega
    have R₁' : RepOf g (Mm.unlink m (σ.addr + c))
        (Site.fill { σ with right := r } [⟨c, true⟩, ⟨n, false⟩])
        (Site.others { σ with right := r } (s + t)) := ht ▸ R₁
    have hlast : lastSize (Site.prec { σ with right := r }) [⟨c, true⟩, ⟨n, false⟩] < 2 ^ 31 := by
      show n < 2 ^ 31
      omega
    obtain ⟨m₂, e₂, R₂, k₂⟩ := R₁'.cut_add (by simpa using ht) hsok htok (by omega) h2 hlast
    have hnew : nodeSize (setSize (setPreceding (setSize (Mm.unlink m (σ.addr + c)) (σ.addr + s) t)
        (σ.addr + s) s) σ.addr s) (σ.addr + s) = t := by
      rw [nodeSize_setSize_of_ne (by omega), nodeSize_setPreceding (by omega),
        nodeSize_setSize (by omega)]
    refine ⟨m₂, ?_, ?_, ?_⟩
    · rw [hnext, if_pos rfl, hnsz, h1', h3', ht', hnew, Nat.add_assoc, ht]
      exact e₂
    · rw [hm, if_pos (by dsimp only; omega)]
      have ht'' : c + n - s = t := by omega
      dsimp only
      rw [ht'']
      exact R₂
    · have k₁' := (k₁.mono fun u hu _ => Site.mem_fill_one.mpr hu).narrow (Nat.le_refl _)
        (Nat.add_le_add_left (Nat.le_of_lt hsc) σ.addr)
      refine k₁'.trans (k₂.mono fun u hu ha => ?_)
      rcases List.mem_cons.mp hu with rfl | hu
      · exact List.mem_cons_self
      · have h := (Site.mem_mergeRight ha).mpr hu
        rw [hm, ht] at h
        exact List.mem_cons_of_mem _ h

end

end NuttxAvr32.Mm
