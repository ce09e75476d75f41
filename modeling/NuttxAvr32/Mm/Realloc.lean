import NuttxAvr32.Mm.Extend

/-! # What `realloc` does to the heap

A block is shrunk in place, extended in place when its free neighbours suffice,
and otherwise moved.
-/

namespace NuttxAvr32.Mm

open ByteMemory

theorem ite_bind {α β : Type} (p : Prop) [Decidable p] (x y : Option α) (f : α → Option β) :
    (if p then x >>= f else y >>= f) = (if p then x else y) >>= f := by
  split <;> rfl

/-- The size of the free chunk before the gap, zero if that chunk is allocated. -/
def Site.prevFree (σ : Site) : Nat := if σ.prevAlloc then 0 else σ.prec

def Site.nextFree (σ : Site) : Nat := if σ.next.alloc then 0 else σ.next.size

section

variable {g : Nat} {σ : Site} {m : Memory} {c : Nat} {b : Bool}

theorem site_freeNextsize (T : Tiled m (σ.fill [⟨c, b⟩])) (L : Layout g (σ.fill [⟨c, b⟩])) :
    freeNextsize m σ.addr = σ.nextFree := by
  obtain ⟨⟨hs, _, _⟩, hns, hn⟩ := site_tiles T
  simp only [total_cons, total_nil, lastSize_cons, lastSize_nil, Nat.add_zero] at hn hns
  have hs' : nodeSize m σ.addr = c := hs
  have hsize : c + 16 < 2 ^ 31 := L.gap.size
  unfold freeNextsize Site.nextFree
  dsimp only
  rw [hs', hn, hns, isAllocated_precWord (by omega)]

theorem site_freePrevsize (T : Tiled m (σ.fill [⟨c, b⟩])) (L : Layout g (σ.fill [⟨c, b⟩])) :
    freePrevsize m σ.addr = σ.prevFree := by
  obtain ⟨⟨_, hp, _⟩, _⟩ := site_tiles T
  have hclear : clearAlloc (preceding m σ.addr) = σ.prec := by
    rw [hp, clearAlloc_precWord L.gap.prec, precWord_false]
  obtain ⟨hps, hpa⟩ := site_prev T L
  unfold freePrevsize Site.prevFree
  dsimp only
  rw [hclear, hps, hpa]

theorem Site.merge_size (σ : Site) (c : Nat) :
    (σ.merge c).2 = σ.prevFree + (c + σ.nextFree) := by
  have hright : (σ.mergeRight c).2 = c + σ.nextFree ∧ (σ.mergeRight c).1.left = σ.left := by
    unfold Site.nextFree
    rcases σ.next_cases with ⟨ha, hm⟩ | ⟨n, r, _, hnext, hm⟩
    · rw [hm, if_pos ha]
      exact ⟨rfl, rfl⟩
    · rw [hm, hnext, if_neg (by simp)]
      exact ⟨rfl, rfl⟩
  have hprev : (σ.mergeRight c).1.prevFree = σ.prevFree := by
    unfold Site.prevFree Site.prevAlloc Site.prec
    rw [hright.2]
  unfold Site.merge
  rw [← hprev, ← hright.1]
  unfold Site.prevFree
  rcases (σ.mergeRight c).1.prev_cases with ⟨ha, hm⟩ | ⟨p, l, _, ha, hp, hm⟩
  · rw [hm, if_pos ha, Nat.zero_add]
  · rw [hm, ha, if_neg (by simp), hp]

end

section

variable {p n d : Nat}

theorem reallocTakes_spec (hd : 0 < d) (h : d ≤ p + n) :
    (reallocTakes p n d).1 ≤ p ∧ (reallocTakes p n d).2 ≤ n ∧
      (reallocTakes p n d).1 + (reallocTakes p n d).2 = d := by
  unfold reallocTakes
  split
  · split <;> dsimp only <;> omega
  · split
    · split <;> dsimp only <;> omega
    · dsimp only
      omega

theorem reallocTakes_mult {k : Nat} (hp : k ∣ p) (hn : k ∣ n) (hd : k ∣ d) :
    k ∣ (reallocTakes p n d).1 ∧ k ∣ (reallocTakes p n d).2 := by
  have hdp : k ∣ d - p := Nat.dvd_sub hd hp
  have hdn : k ∣ d - n := Nat.dvd_sub hd hn
  unfold reallocTakes
  split
  · split
    · exact ⟨hp, hdp⟩
    · exact ⟨hd, Nat.dvd_zero k⟩
  · split
    · split
      · exact ⟨hdn, hn⟩
      · exact ⟨Nat.dvd_zero k, hd⟩
    · exact ⟨Nat.dvd_zero k, Nat.dvd_zero k⟩

end

/-- The heap after the block in the gap, of size `c`, grew by `takes`. -/
def Site.extend (σ : Site) (takes : Nat × Nat) (c : Nat) : List Region :=
  ((σ.takeLeft takes.1).takeRight takes.2).fill [⟨c + takes.1 + takes.2, true⟩]

section

variable {g : Nat} {σ : Site} {m : Memory} {c s : Nat}

theorem Site.takeLeft_zero (L : Layout g (σ.fill [⟨c, true⟩])) : σ.takeLeft 0 = σ := by
  rcases h : σ.left.getLast? with _ | ⟨p, b⟩
  · simp [Site.takeLeft, h]
  · obtain ⟨l, hl⟩ := List.getLast?_eq_some_iff.mp h
    cases b with
    | true => simp [Site.takeLeft, h]
    | false =>
        have hp : 8 ≤ p := by
          rw [σ.fill_left l ⟨p, false⟩ hl] at L
          exact (L.chunkOk (u := (Site.addr { σ with left := l }, ⟨p, false⟩))
            (Site.mem_blocks_fill.mpr (.inl List.mem_cons_self))).pos
        have hpos : 0 < p := by omega
        rw [Site.takeLeft_eq hl, if_pos hpos, Nat.sub_zero, ← hl]

theorem Site.takeRight_zero (L : Layout g (σ.fill [⟨c, true⟩])) : σ.takeRight 0 = σ := by
  rcases h : σ.right with _ | ⟨⟨n, b⟩, r⟩
  · simp [Site.takeRight, h]
  · cases b with
    | true => simp [Site.takeRight, h]
    | false =>
        have hn : 8 ≤ n := by
          rw [σ.fill_right r ⟨n, false⟩ h] at L
          exact (L.chunkOk (u := (σ.addr + c, ⟨n, false⟩))
            (Site.mem_blocks_fill.mpr (.inl (by simp [Site.addr])))).pos
        have hpos : 0 < n := by omega
        have hsame : (⟨n, false⟩ :: r : List Chunk) = σ.right := h.symm
        rw [Site.takeRight_eq h, if_pos hpos, Nat.sub_zero, List.singleton_append, hsame]

theorem Site.takeLeft_right (σ : Site) (t : Nat) : (σ.takeLeft t).right = σ.right := by
  unfold Site.takeLeft
  split <;> rfl

theorem Site.nextFree_takeLeft (σ : Site) (t : Nat) : (σ.takeLeft t).nextFree = σ.nextFree := by
  unfold Site.nextFree Site.next
  rw [Site.takeLeft_right]

theorem Rep.extendLeft {t : Nat} (R : Rep g m (σ.fill [⟨c, true⟩])) (ht8 : t % 8 = 0)
    (htp : t ≤ σ.prevFree) (hrest : σ.prevFree - t ≠ 8) :
    ∃ m', (if t ≠ 0 then
        Mm.reallocTakeprev g m (σ.addr - σ.prec) σ.addr (σ.addr + c) σ.prevFree c t
        else some (m, σ.addr)) = some (m', (σ.takeLeft t).addr) ∧
      (σ.takeLeft t).addr = σ.addr - t ∧ t ≤ σ.addr ∧
      Rep g m' ((σ.takeLeft t).fill [⟨c + t, true⟩]) ∧ Kept m m' (σ.others c) ∧
      (∀ u, u.2.alloc = true → (u ∈ (σ.takeLeft t).others (c + t) ↔ u ∈ σ.others c)) ∧
      ∀ i < c - 8, m' ((σ.takeLeft t).addr + 8 + i) = m (σ.addr + 8 + i) := by
  by_cases ht : t = 0
  · subst ht
    rw [Site.takeLeft_zero R.layout]
    exact ⟨m, rfl, rfl, Nat.zero_le _, R, Kept.refl _ _, fun _ _ => Iff.rfl, fun _ _ => rfl⟩
  · rcases σ.prev_cases with ⟨ha, _⟩ | ⟨p, l, hleft, ha, hprec, _⟩
    · unfold Site.prevFree at htp
      rw [if_pos ha] at htp
      omega
    · have hfree : σ.prevFree = p := by
        unfold Site.prevFree
        rw [ha, if_neg (by simp), hprec]
      have hp8 : p % 8 = 0 := hprec ▸ R.layout.gap.prec_mult
      have haddr := R.layout.gap.prec_le
      rw [hfree] at htp hrest ⊢
      rw [hprec]
      obtain ⟨m', e, R', k, hcopy⟩ :=
        R.reallocTakeprev hleft ht8 (by omega) htp (by omega)
      refine ⟨m', by rw [if_pos ht, e], Site.takeLeft_addr hleft htp, by omega, R', k, ?_, hcopy⟩
      exact fun u hua => Site.mem_takeLeft hleft htp hua

theorem Rep.extendRight {t : Nat} (R : Rep g m (σ.fill [⟨c, true⟩])) (ht8 : t % 8 = 0)
    (htn : t ≤ σ.nextFree) (hrest : σ.nextFree - t ≠ 8) :
    ∃ m', (if t ≠ 0 then Mm.reallocTakenext g m σ.addr (σ.addr + c) σ.nextFree c t
        else some m) = some m' ∧
      Rep g m' ((σ.takeRight t).fill [⟨c + t, true⟩]) ∧
      Kept m m' ((σ.addr, ⟨c, true⟩) :: σ.others c) := by
  by_cases ht : t = 0
  · subst ht
    rw [Site.takeRight_zero R.layout]
    exact ⟨m, rfl, R, Kept.refl _ _⟩
  · rcases σ.next_cases with ⟨ha, _⟩ | ⟨n, r, hright, hnext, _⟩
    · unfold Site.nextFree at htn
      rw [if_pos ha] at htn
      omega
    · have hfree : σ.nextFree = n := by
        unfold Site.nextFree
        rw [hnext, if_neg (by simp)]
      have hn8 : n % 8 = 0 := by
        have L := R.layout
        rw [σ.fill_right r ⟨n, false⟩ hright] at L
        exact (L.chunkOk (u := (σ.addr + c, ⟨n, false⟩))
          (Site.mem_blocks_fill.mpr (.inl (by simp [Site.addr])))).mult
      rw [hfree] at htn hrest ⊢
      obtain ⟨m', e, R', k⟩ := R.reallocTakenext hright ht8 (by omega) htn (by omega)
      exact ⟨m', by rw [if_pos ht, e], R', k⟩

theorem Layout.prevFree_mult (L : Layout g (σ.fill [⟨c, true⟩])) : σ.prevFree % 8 = 0 := by
  unfold Site.prevFree
  split
  · rfl
  · exact L.gap.prec_mult

theorem Layout.nextFree_mult (L : Layout g (σ.fill [⟨c, true⟩])) : σ.nextFree % 8 = 0 := by
  unfold Site.nextFree
  rcases σ.next_cases with ⟨ha, _⟩ | ⟨n, r, hright, hnext, _⟩
  · rw [if_pos ha]
  · rw [hnext, if_neg (by simp)]
    rw [σ.fill_right r ⟨n, false⟩ hright] at L
    exact (L.chunkOk (u := (σ.addr + c, ⟨n, false⟩))
      (Site.mem_blocks_fill.mpr (.inl (by simp [Site.addr])))).mult

theorem Rep.reallocExtend (R : Rep g m (σ.fill [⟨c, true⟩])) (hs8 : s % 8 = 0) (hcs : c < s)
    (hfit : s ≤ σ.nextFree + σ.prevFree + c) {takes : Nat × Nat}
    (htakes : reallocTakes σ.prevFree σ.nextFree (s - c) = takes)
    (hrest : σ.prevFree - takes.1 ≠ 8 ∧ σ.nextFree - takes.2 ≠ 8) :
    ∃ m', Mm.reallocExtend g m σ.addr s = some (m', (σ.takeLeft takes.1).addr + 8) ∧
      Rep g m' (σ.extend takes c) ∧ Kept m m' (σ.others c) ∧
      ∀ i < c - 8, m' ((σ.takeLeft takes.1).addr + 8 + i) = m (σ.addr + 8 + i) := by
  have hc : ChunkOk ⟨c, true⟩ := R.layout.chunkOk (Site.mem_fill_one.mpr List.mem_cons_self)
  have hc8 : c % 8 = 0 := hc.mult
  obtain ⟨hle₁, hle₂, hsum⟩ :=
    reallocTakes_spec (p := σ.prevFree) (n := σ.nextFree) (d := s - c) (by omega) (by omega)
  have hp8 := R.layout.prevFree_mult
  have hn8 := R.layout.nextFree_mult
  obtain ⟨hm₁, hm₂⟩ := reallocTakes_mult (k := 8) (p := σ.prevFree) (n := σ.nextFree)
    (d := s - c) (by omega) (by omega) (by omega)
  rw [htakes] at hle₁ hle₂ hsum hm₁ hm₂
  obtain ⟨m₁, e₁, ha₁, ht₁, R₁, k₁, hmem, hcopy⟩ := R.extendLeft (Nat.mod_eq_zero_of_dvd hm₁) hle₁ hrest.1
  have hnf := σ.nextFree_takeLeft takes.1
  obtain ⟨m₂, e₂, R₂, k₂⟩ := R₁.extendRight (Nat.mod_eq_zero_of_dvd hm₂) (by rw [hnf]; exact hle₂)
    (by rw [hnf]; exact hrest.2)
  have hprev : clearAlloc (preceding m σ.addr) = σ.prec := by
    rw [(site_tiles R.tiled).1.2.1, clearAlloc_precWord R.layout.gap.prec, precWord_false]
  have hsz : nodeSize m σ.addr = c := (site_tiles R.tiled).1.1
  have hsz₁ : nodeSize m₁ (σ.takeLeft takes.1).addr = c + takes.1 := (site_tiles R₁.tiled).1.1
  have hnext : σ.addr + c = (σ.takeLeft takes.1).addr + (c + takes.1) := by omega
  refine ⟨m₂, ?_, R₂, ?_, ?_⟩
  · unfold Mm.reallocExtend
    dsimp only
    rw [hsz, site_freeNextsize R.tiled R.layout, site_freePrevsize R.tiled R.layout, hprev, htakes,
      ite_bind, e₁, Option.bind_eq_bind, Option.bind_some]
    dsimp only
    rw [hsz₁, hnext, ← hnf, ite_bind, e₂]
    rfl
  · refine k₁.trans (k₂.mono fun u hu ha => ?_)
    exact List.mem_cons_of_mem _ ((hmem u ha).mpr hu)
  · intro i hi
    rw [← hcopy i hi]
    apply k₂ _ List.mem_cons_self rfl
    · show _ + 8 ≤ _ + 8 + i
      omega
    · show _ + 8 + i < _ + (c + takes.1)
      omega

end

end NuttxAvr32.Mm
