import NuttxAvr32.Mm.Effect

/-! # What `memalign` does to the heap

A larger block is allocated, the part before the aligned address becomes a free
chunk and the tail is given back.
-/

namespace NuttxAvr32.Mm

open ByteMemory

section

variable {g : Nat} {m m₁ m₂ : Memory} {rs rs₁ rs₂ : List Region} {u v : Nat × Chunk}

theorem Effect.trans_replace (h : Effect g m m₁ rs rs₁ none (some u))
    (h' : Effect g m₁ m₂ rs₁ rs₂ (some u) (some v)) (hu : u ∉ blocks rs) :
    Effect g m m₂ rs rs₂ none (some v) := by
  refine ⟨h'.rep, ⟨h'.edit.bounds.trans h.edit.bounds, fun w ha => ?_⟩, fun w hw ha _ x h1 h2 => ?_⟩
  · rw [h'.edit.alloc w ha, h.edit.alloc w ha]
    simp only [ne_eq, reduceCtorEq, not_false_eq_true, and_true, Option.some.injEq]
    constructor
    · rintro (⟨hw | hw, hne⟩ | hw)
      · exact .inl hw
      · exact absurd hw hne
      · exact .inr hw
    · rintro (hw | hw)
      · exact .inl ⟨.inl hw, fun he => hu (he ▸ hw)⟩
      · exact .inr hw
  · have hw₁ : w ∈ blocks rs₁ := (h.edit.alloc w ha).mpr (.inl ⟨hw, by simp⟩)
    rw [h'.kept w hw₁ ha (fun he => hu (Option.some.inj he ▸ hw)) x h1 h2]
    exact h.kept w hw ha (by simp) x h1 h2

end

section

variable {g : Nat} {m : Memory} {rs : List Region} {σ : Site} {c s t n : Nat}

theorem Rep.shrink_effect (R : Rep g m (σ.fill [⟨c, true⟩])) (h8 : s % 8 = 0) (hs : 8 ≤ s)
    (hsc : s < c) :
    ∃ m' rs' d, Mm.mmShrinkchunk g m σ.addr s = some m' ∧ s ≤ d ∧
      Effect g m m' (σ.fill [⟨c, true⟩]) rs' (some (σ.addr, ⟨c, true⟩))
        (some (σ.addr, ⟨d, true⟩)) := by
  obtain ⟨m', e, R', k⟩ := R.mmShrinkchunk h8 hs hsc
  refine ⟨m', _, (σ.shrunk c s).size, e, ?_, R', shrink_edit R.layout s, fun u hu ha hne => ?_⟩
  · unfold Site.shrunk
    dsimp only
    split <;> omega
  · rcases List.mem_cons.mp (Site.mem_fill_one.mp hu) with rfl | hu
    · exact absurd rfl hne
    · exact k u (List.mem_cons_of_mem _ hu) ha

/-- The header writes of the leading part of `memalign`, in an order that
clears the flag first. -/
theorem memalignLead_eq {A : Nat} (h : 8 ≤ s) (hlt : t < 2 ^ 32) {F : Nat}
    (hclear : clearAlloc (preceding m A) = F) :
    (let m₁ := setSize m (A + s) t
     let m₂ := setPreceding m₁ (A + s) (setAlloc s)
     let m₃ := setSize m₂ A s
     let m₄ := setPreceding m₃ A (clearAlloc (preceding m₃ A))
     (setPreceding m₄ (A + (s + t)) (keepAlloc (nodeSize m₄ (A + s)) (preceding m₄ (A + (s + t)))))) =
      Mm.cutFront (setPreceding m A F) A s t := by
  have hread : clearAlloc (preceding (setSize (setPreceding (setSize m (A + s) t) (A + s)
      (setAlloc s)) A s) A) = F := by
    rw [preceding_setSize (by omega), preceding_setPreceding_of_ne (by omega),
      preceding_setSize (by omega), hclear]
  have hcomm : setPreceding (setSize (setPreceding (setSize m (A + s) t) (A + s) (setAlloc s)) A s)
      A F = setPreceding (setSize (setSize (setPreceding m A F) A s) (A + s) t) (A + s)
        (setAlloc s) := by
    rw [setPreceding_setSize_comm (by omega), setPreceding_comm (by omega),
      setPreceding_setSize_comm (by omega), ← setPreceding_setSize_comm (by omega),
      setSize_comm (by omega)]
  have hsz : nodeSize (setPreceding (setSize (setSize (setPreceding m A F) A s) (A + s) t) (A + s)
      (setAlloc s)) (A + s) = t := by
    rw [nodeSize_setPreceding (by omega), nodeSize_setSize hlt]
  dsimp only
  rw [hread, hcomm, hsz]
  rfl

theorem Rep.memalignLead (R : Rep g m (σ.fill [⟨s + t, true⟩])) (hs8 : s % 8 = 0) (h16 : 16 ≤ s)
    (ht : 8 ≤ t) {alignment aligned aligned' : Nat}
    (hal : (if aligned - sizeofMmAllocnode - σ.addr < sizeofMmFreenode then aligned + alignment
      else aligned) = aligned') (hs : aligned' = σ.addr + s + 8) :
    ∃ m' rs', Mm.memalignLead g m alignment (σ.addr + 8) aligned =
        some (m', σ.addr + s, aligned', t - 8) ∧
      Effect g m m' (σ.fill [⟨s + t, true⟩]) rs' (some (σ.addr, ⟨s + t, true⟩))
        (some (σ.addr + s, ⟨t, true⟩)) := by
  have hc : ChunkOk ⟨s + t, true⟩ := R.layout.chunkOk (Site.mem_fill_one.mpr List.mem_cons_self)
  have hc8 : (s + t) % 8 = 0 := hc.mult
  have hgap := R.layout.gap
  have hsize : s + t + 16 < 2 ^ 31 := hgap.size
  have hsok : ChunkOk ⟨s, false⟩ := ⟨hs8, by dsimp only; omega⟩
  have htok : ChunkOk ⟨t, true⟩ := ⟨by dsimp only; omega, ht⟩
  have R₀ := R.open_alloc
  obtain ⟨⟨hsz, hp, _⟩, _⟩ := site_tiles R₀.tiled
  have hsz' : nodeSize m σ.addr = s + t := hsz
  have hclear : clearAlloc (preceding m σ.addr) = precWord σ.prec false := by
    rw [hp, clearAlloc_precWord hgap.prec]
  obtain ⟨R₁, k₁⟩ := R₀.setFlag false
  have hp₁ := (site_tiles R₁.tiled).1.2.1
  have hlast : lastSize σ.prec [(⟨s + t, false⟩ : Chunk)] < 2 ^ 31 := by
    show s + t < 2 ^ 31
    omega
  obtain ⟨m₂, e₂, R₂, k₂⟩ := R₁.cutFront_add rfl hsok htok h16 hp₁ hlast
  have hsz₂ : nodeSize (Mm.cutFront (setPreceding m σ.addr (precWord σ.prec false)) σ.addr s t)
      (σ.addr + s) = t := by
    obtain ⟨R₃, _⟩ := R₁.cutFront rfl hsok htok hp₁ hlast
    exact (site_tiles R₃.tiled).1.2.2.1
  refine ⟨m₂, σ.fill [⟨s, false⟩, ⟨t, true⟩], ?_, R₂, front_edit R.layout, fun u hu ha hne => ?_⟩
  · have hnew : aligned' - sizeofMmAllocnode = σ.addr + s := by
      show aligned' - 8 = σ.addr + s
      omega
    have hrest : σ.addr + (s + t) - (σ.addr + s) = t := by omega
    have heq := memalignLead_eq (m := m) (A := σ.addr) (s := s) (t := t) (by omega) (by omega) hclear
    unfold Mm.memalignLead
    dsimp only at heq ⊢
    rw [Nat.add_sub_cancel, hal, hnew, hsz', hrest, Nat.add_sub_cancel_left, heq, hsz₂, e₂]
    rfl
  · have hu' : u ∈ σ.others (s + t) := by
      rcases List.mem_cons.mp (Site.mem_fill_one.mp hu) with rfl | hu
      · exact absurd rfl hne
      · exact hu
    intro x h1 h2
    rw [k₂ u (List.mem_cons_of_mem _ hu') ha x h1 h2]
    exact k₁ u (List.mem_cons_of_mem _ hu') ha x h1 h2

end

section

variable {g : Nat} {m : Memory} {rs : List Region} {n k : Nat}

/-- What a call leaves that returns a fresh block of at least `n` bytes, or `NULL`. -/
inductive AllocResult (g : Nat) (m : Memory) (rs : List Region) (n : Nat) : Memory → Nat → Prop
  | null : AllocResult g m rs n m 0
  | block (m' : Memory) (rs' : List Region) (a d : Nat) (hd : n + 8 ≤ d)
      (he : Effect g m m' rs rs' none (some (a, ⟨d, true⟩)))
      (hf : ∀ e, (a, (⟨e, true⟩ : Chunk)) ∉ blocks rs) : AllocResult g m rs n m' (a + 8)

theorem Rep.memalign_front {σ : Site} {d S : Nat} (R : Rep g m (σ.fill [⟨d, true⟩])) (hk : 5 ≤ k)
    (hd : S + 2 * 2 ^ k + 8 ≤ d) {aligned : Nat}
    (hal : andNot (σ.addr + 8 + (2 ^ k - 1)) (2 ^ k - 1) = aligned) :
    ∃ m' rs' s t size, (if aligned ≠ σ.addr + 8 then
        Mm.memalignLead g m (2 ^ k) (σ.addr + 8) aligned
        else some (m, σ.addr + 8 - sizeofMmAllocnode, aligned, S + 2 * 2 ^ k)) =
          some (m', σ.addr + s, σ.addr + s + 8, size) ∧
      S < size ∧ S + 8 < t ∧ s + t = d ∧ (σ.addr + s + 8) % 2 ^ k = 0 ∧
      Effect g m m' (σ.fill [⟨d, true⟩]) rs' (some (σ.addr, ⟨d, true⟩))
        (some (σ.addr + s, ⟨t, true⟩)) := by
  obtain ⟨b, hb⟩ : ∃ b, 2 ^ k = 32 * b := by
    obtain ⟨j, rfl⟩ : ∃ j, k = j + 5 := ⟨k - 5, by omega⟩
    exact ⟨2 ^ j, by rw [Nat.pow_add]; omega⟩
  have hpos : 0 < 2 ^ k := Nat.two_pow_pos k
  have haddr := R.layout.gap.aligned
  rw [andNot_two_pow] at hal
  have hmod := Nat.div_add_mod (σ.addr + 8 + (2 ^ k - 1)) (2 ^ k)
  have hlt := Nat.mod_lt (σ.addr + 8 + (2 ^ k - 1)) hpos
  rw [Nat.mul_comm, hal] at hmod
  have hamod : aligned % 2 ^ k = 0 := by
    rw [← hal]
    exact Nat.mul_mod_left _ _
  have ha8 : aligned % 8 = 0 := by
    have hdvd : 8 ∣ 2 ^ k := ⟨4 * b, by omega⟩
    exact Nat.mod_eq_zero_of_dvd (Nat.dvd_trans hdvd (Nat.dvd_of_mod_eq_zero hamod))
  by_cases hne : aligned ≠ σ.addr + 8
  · rw [if_pos hne]
    obtain ⟨aligned', hal'⟩ : ∃ x, (if aligned - sizeofMmAllocnode - σ.addr < sizeofMmFreenode
        then aligned + 2 ^ k else aligned) = x := ⟨_, rfl⟩
    have hmod' : aligned' % 2 ^ k = 0 := by
      rw [← hal']
      split
      · rw [Nat.add_mod_right]
        exact hamod
      · exact hamod
    obtain ⟨s, hs⟩ : ∃ s, aligned' = σ.addr + s + 8 := by
      refine ⟨aligned' - 8 - σ.addr, ?_⟩
      rw [← hal']
      split <;> omega
    have hbounds : 16 ≤ s ∧ s ≤ 2 ^ k + 8 ∧ s % 8 = 0 := by
      simp only [sizeofMmAllocnode, sizeofMmFreenode] at hal'
      split at hal' <;> omega
    obtain ⟨t, rfl⟩ : ∃ t, d = s + t := ⟨d - s, by omega⟩
    obtain ⟨m', rs', e, E⟩ := R.memalignLead hbounds.2.2 hbounds.1 (by omega) hal' hs
    rw [hs] at hmod' e
    exact ⟨m', rs', s, t, t - 8, e, by omega, by omega, rfl, hmod', E⟩
  · have heq : aligned = σ.addr + 8 := by omega
    refine ⟨m, _, 0, d, S + 2 * 2 ^ k, ?_, by omega, by omega, by omega, ?_,
      ⟨R, Edit.of_same (Site.mem_fill_one.mpr List.mem_cons_self), fun _ _ _ _ _ _ _ => rfl⟩⟩
    · rw [if_neg hne, heq]
      rfl
    · rw [Nat.add_zero, ← heq]
      exact hamod

theorem Rep.memalign (R : Rep g m rs) (hk : 5 ≤ k)
    (hw : (n + 15) / 16 * 16 + 2 * 2 ^ k + 23 < 2 ^ 32) :
    ∃ m' p, Mm.memalign g m (2 ^ k) n = some (m', p) ∧ AllocResult g m rs n m' p ∧
      p % 2 ^ k = 0 := by
  have hpow : 2 ^ 5 ≤ 2 ^ k := Nat.pow_le_pow_right (by decide) hk
  obtain ⟨S, hS⟩ : ∃ S, (n + 15) / 16 * 16 = S := ⟨_, rfl⟩
  have hup : mmAlignUp n = S := by rw [mmAlignUp_eq (by omega), hS]
  have hwrap : wrap (S + 2 * 2 ^ k) = S + 2 * 2 ^ k := Nat.mod_eq_of_lt (by omega)
  obtain ⟨m₁, p, e₁, hres⟩ := R.malloc (n := S + 2 * 2 ^ k) (by omega) (by omega)
  have hge := need_ge (S + 2 * 2 ^ k)
  have hbig : ¬ 2 ^ k ≤ mmMinChunk := by
    simp only [mmMinChunk, mmMinShift]
    omega
  unfold Mm.memalign
  dsimp only
  rw [if_neg hbig, hup, hwrap, e₁, Option.bind_eq_bind, Option.bind_some]
  dsimp only
  by_cases hp : p = 0
  · subst hp
    refine ⟨m₁, 0, by rw [if_pos rfl], ?_, Nat.zero_mod _⟩
    cases hres
    exact .null
  · rw [if_neg hp, ite_bind]
    obtain ⟨rs₁, a, c, rfl, hfree, hsc, _, E₁, _⟩ := hres.effect R (by omega)
    have hd := carved_size hsc
    have hdc : (carved c (need (S + 2 * 2 ^ k))).size ≤ c := by
      unfold carved
      dsimp only
      split <;> omega
    obtain ⟨d, hcd⟩ : ∃ d, carved c (need (S + 2 * 2 ^ k)) = ⟨d, true⟩ := ⟨_, rfl⟩
    rw [hcd] at E₁ hd hdc
    dsimp only at hd hdc
    have R₁ := E₁.rep
    obtain ⟨σ, hσ, haddr⟩ := Site.of_mem ((E₁.edit.alloc (a, ⟨d, true⟩) rfl).mpr (.inr rfl))
    dsimp only at hσ haddr
    subst hσ
    subst haddr
    obtain ⟨m₂, rs₂, s, t, size, e₂, hsize, ht, hst, hmod, E₂⟩ :=
      R₁.memalign_front (S := S) hk (by omega) rfl
    rw [e₂, Option.bind_eq_bind, Option.bind_some]
    dsimp only
    have hu : (σ.addr, (⟨d, true⟩ : Chunk)) ∉ blocks rs := by
      intro h
      cases R.layout.blocks_addr h hfree rfl
    have hv : ∀ e, (σ.addr + s, (⟨e, true⟩ : Chunk)) ∉ blocks rs := by
      intro e h
      have hpos := (R.layout.chunkOk h).pos
      dsimp only at hpos
      rcases R.layout.blocks_apart h hfree with he | he | he
      · exact absurd (congrArg (fun w : Nat × Chunk => w.2.alloc) he) (by simp)
      · dsimp only at he
        omega
      · dsimp only at he
        omega
    have E₁₂ := E₁.trans_replace E₂ hu
    have R₂ := E₂.rep
    obtain ⟨τ, hτ, hta⟩ := Site.of_mem ((E₂.edit.alloc (σ.addr + s, ⟨t, true⟩) rfl).mpr (.inr rfl))
    dsimp only at hτ hta
    subst hτ
    obtain ⟨m₃, rs₃, d', e₃, hd', E₃⟩ := R₂.shrink_effect (s := S + 8) (by omega) (by omega) ht
    rw [← hta] at e₃ E₃
    refine ⟨m₃, σ.addr + s + 8, ?_, .block m₃ rs₃ (σ.addr + s) d' (by omega)
      (E₁₂.trans_replace E₃ (hv t)) hv, hmod⟩
    rw [if_pos hsize, e₃]
    rfl

end

end NuttxAvr32.Mm
