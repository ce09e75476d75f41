import NuttxAvr32.Mm.Edit

/-! # What a call does to the heap and to the other blocks

`Effect` is the common form of the results of all calls: the new heap is
represented, at most one block is given up, at most one comes in, and the
contents of every other block stay.
-/

namespace NuttxAvr32.Mm

open ByteMemory

structure Effect (g : Nat) (m m' : Memory) (rs rs' : List Region)
    (old new : Option (Nat × Chunk)) : Prop where
  rep : Rep g m' rs'
  edit : Edit rs rs' old new
  kept : ∀ u ∈ blocks rs, u.2.alloc = true → old ≠ some u →
    ∀ x, u.1 + 8 ≤ x → x < u.1 + u.2.size → m' x = m x

/-- Heaps whose chunks are multiples of `MM_MIN_CHUNK` and whose free chunks are
never adjacent. -/
structure Tidy (rs : List Region) : Prop where
  quiet : Quiet rs
  gran : Gran rs

section

variable {g : Nat} {m m' : Memory} {rs : List Region} {σ : Site} {n s p c : Nat}

theorem carved_size (h : s ≤ c) : s ≤ (carved c s).size := by
  show s ≤ if c - s ≥ 16 then s else c
  split
  · exact Nat.le_refl s
  · exact h

theorem MallocResult.effect (R : Rep g m rs) (hn : 0 < p) (h : MallocResult g m rs s m' p) :
    ∃ rs' a c, p = a + 8 ∧ (a, (⟨c, false⟩ : Chunk)) ∈ blocks rs ∧ s ≤ c ∧
      (∀ u ∈ blocks rs, u.2.alloc = false → s ≤ u.2.size → c ≤ u.2.size) ∧
      Effect g m m' rs rs' none (some (a, carved c s)) ∧
      (s % 16 = 0 → Tidy rs → Tidy rs') ∧
      (∀ u ∈ blocks rs, u.2.size < s → u ∈ blocks rs') := by
  cases h with
  | null => omega
  | taken σ c m' hrs hs hmin hR hk =>
      subst hrs
      refine ⟨_, σ.addr, c, rfl, Site.mem_fill_one.mpr List.mem_cons_self, hs, hmin,
        ⟨hR, carve_edit hs, fun u hu ha _ => ?_⟩, fun h16 ht => ?_, fun u hu hus => ?_⟩
      · rcases List.mem_cons.mp (Site.mem_fill_one.mp hu) with rfl | hu
        · cases ha
        · exact hk u hu ha
      · exact ⟨carve_quiet ht.quiet, carve_gran ht.gran h16 hs⟩
      · rcases List.mem_cons.mp (Site.mem_fill_one.mp hu) with rfl | hu
        · dsimp only at hus
          omega
        · exact Site.mem_blocks_fill.mpr (.inr (by rw [total_carve hs]; exact hu))

theorem Rep.free_effect (R : Rep g m (σ.fill [⟨c, true⟩])) (h16 : 16 ≤ (σ.merge c).2) :
    ∃ m' rs', Mm.free g m (σ.addr + 8) = some m' ∧
      Effect g m m' (σ.fill [⟨c, true⟩]) rs' (some (σ.addr, ⟨c, true⟩)) none ∧
      (Tidy (σ.fill [⟨c, true⟩]) → Tidy rs') := by
  obtain ⟨m', e, R', k⟩ := R.free h16
  refine ⟨m', _, e, ⟨R', merge_edit R.layout, fun u hu ha hne => ?_⟩, fun ht =>
    ⟨merge_quiet ht.quiet, merge_gran ht.gran⟩⟩
  rcases List.mem_cons.mp (Site.mem_fill_one.mp hu) with rfl | hu
  · exact absurd rfl hne
  · exact k u hu ha

theorem Layout.prevFree_eq (L : Layout g (σ.fill [⟨c, true⟩])) {a p : Nat}
    (hu : (a, (⟨p, false⟩ : Chunk)) ∈ blocks (σ.fill [⟨c, true⟩])) (ha : a + p = σ.addr) :
    σ.prevFree = p := by
  have hp8 : 8 ≤ p := (L.chunkOk hu).pos
  rcases List.eq_nil_or_concat σ.left with hl | ⟨l, ⟨q, b⟩, hl⟩
  · have hbase : σ.addr = σ.base + 8 := by simp [Site.addr, hl]
    have hg : (σ.base, guard) ∈
        place σ.base (Region.chunks ⟨σ.base, σ.left ++ [⟨c, true⟩] ++ σ.right⟩) := by
      rw [(place_chunks ⟨σ.base, σ.left ++ [⟨c, true⟩] ++ σ.right⟩ :)]
      exact List.mem_append_left _ List.mem_cons_self
    rcases L.header_apart hu (σ.region_mem _) hg with he | he | he
    · cases he
    · dsimp only at he
      omega
    · dsimp only at he
      omega
  · rw [List.concat_eq_append] at hl
    obtain ⟨h1, h2, h3⟩ := Site.prec_concat hl
    have hv : (Site.addr { σ with left := l }, (⟨q, b⟩ : Chunk)) ∈
        blocks (σ.fill [⟨c, true⟩]) := by
      rw [σ.fill_left l ⟨q, b⟩ hl]
      exact Site.mem_blocks_fill.mpr (.inl List.mem_cons_self)
    have hq8 : 8 ≤ q := (L.chunkOk hv).pos
    dsimp only at h1 h2 h3
    rcases L.blocks_apart hu hv with he | he | he
    · cases he
      rw [Site.prevFree, h3, if_neg (by simp), h1]
    · dsimp only at he
      omega
    · dsimp only at he
      omega

theorem Layout.nextFree_eq (L : Layout g (σ.fill [⟨c, true⟩])) {p : Nat}
    (hu : (σ.addr + c, (⟨p, false⟩ : Chunk)) ∈ blocks (σ.fill [⟨c, true⟩])) :
    σ.nextFree = p := by
  have hp8 : 8 ≤ p := (L.chunkOk hu).pos
  rcases hr : σ.right with _ | ⟨⟨q, b⟩, r⟩
  · have hg : (σ.addr + c, guard) ∈
        place σ.base (Region.chunks ⟨σ.base, σ.left ++ [⟨c, true⟩] ++ σ.right⟩) := by
      have hstop : σ.addr + c = σ.base + 8 + total (σ.left ++ [⟨c, true⟩] ++ σ.right) := by
        rw [hr]
        simp only [Site.addr, total_append, total_cons, total_nil]
        omega
      rw [(place_chunks ⟨σ.base, σ.left ++ [⟨c, true⟩] ++ σ.right⟩ :), hstop]
      exact List.mem_append_right _ (List.mem_singleton.mpr rfl)
    rcases L.header_apart hu (σ.region_mem _) hg with he | he | he
    · cases he
    · dsimp only at he
      omega
    · dsimp only at he
      omega
  · have hv : (σ.addr + c, (⟨q, b⟩ : Chunk)) ∈ blocks (σ.fill [⟨c, true⟩]) := by
      rw [σ.fill_right r ⟨q, b⟩ hr]
      exact Site.mem_blocks_fill.mpr (.inl (by simp [Site.addr]))
    have he := L.blocks_addr hu hv rfl
    cases he
    simp [Site.nextFree, Site.next, hr]

theorem Site.prevFree_mem (σ : Site) (h : σ.prevFree ≠ 0) (x : List Chunk) :
    ∃ a, a + σ.prevFree = σ.addr ∧ (a, (⟨σ.prevFree, false⟩ : Chunk)) ∈ blocks (σ.fill x) := by
  unfold Site.prevFree at h ⊢
  rcases σ.prev_cases with ⟨ha, _⟩ | ⟨p, l, hleft, ha, hp, _⟩
  · exact absurd (if_pos ha) h
  · rw [ha, if_neg (by simp), hp]
    refine ⟨_, (Site.prec_concat hleft).2.1.symm, ?_⟩
    rw [σ.fill_left l ⟨p, false⟩ hleft]
    exact Site.mem_blocks_fill.mpr (.inl List.mem_cons_self)

theorem Site.nextFree_mem (σ : Site) (h : σ.nextFree ≠ 0) (c : Chunk) :
    (σ.addr + c.size, (⟨σ.nextFree, false⟩ : Chunk)) ∈ blocks (σ.fill [c]) := by
  unfold Site.nextFree at h ⊢
  rcases σ.next_cases with ⟨ha, _⟩ | ⟨n, r, hright, hn, _⟩
  · exact absurd (if_pos ha) h
  · rw [hn, if_neg (by simp), σ.fill_right r ⟨n, false⟩ hright]
    exact Site.mem_blocks_fill.mpr (.inl (by simp [Site.addr]))

theorem Layout.merge_size_eq {τ : Site} (L : Layout g (τ.fill [⟨c, true⟩])) (ha : τ.addr = σ.addr)
    (h : ∀ u ∈ blocks (σ.fill [⟨c, true⟩]),
      u.2.size = σ.prevFree ∨ u.2.size = σ.nextFree → u ∈ blocks (τ.fill [⟨c, true⟩])) :
    (σ.merge c).2 ≤ (τ.merge c).2 := by
  have hprev : σ.prevFree ≤ τ.prevFree := by
    by_cases h0 : σ.prevFree = 0
    · omega
    · obtain ⟨a, hsum, hmem⟩ := σ.prevFree_mem h0 [⟨c, true⟩]
      rw [L.prevFree_eq (h _ hmem (.inl rfl)) (by omega)]
  have hnext : σ.nextFree ≤ τ.nextFree := by
    by_cases h0 : σ.nextFree = 0
    · omega
    · have hmem := h _ (σ.nextFree_mem h0 ⟨c, true⟩) (.inr rfl)
      dsimp only at hmem
      rw [← ha] at hmem
      rw [L.nextFree_eq hmem]
  rw [Site.merge_size, Site.merge_size]
  omega

theorem Site.takeLeft_addr_add {t : Nat} (ht : t ≤ σ.prevFree) :
    (σ.takeLeft t).addr + t = σ.addr := by
  unfold Site.prevFree at ht
  rcases σ.prev_cases with ⟨ha, _⟩ | ⟨p, l, hleft, ha, hp, _⟩
  · rw [if_pos ha, Nat.le_zero] at ht
    rw [Site.takeLeft_of_alloc ha, ht]
    rfl
  · rw [ha, if_neg (by simp), hp] at ht
    have hle := (Site.prec_concat hleft).2.1
    dsimp only at hle
    rw [Site.takeLeft_addr hleft ht]
    omega

theorem Layout.takeLeft_fresh (L : Layout g (σ.fill [⟨c, true⟩])) {t e : Nat}
    (ht : t ≤ σ.prevFree)
    (he : ((σ.takeLeft t).addr, (⟨e, true⟩ : Chunk)) ∈ blocks (σ.fill [⟨c, true⟩])) :
    (σ.takeLeft t).addr = σ.addr := by
  have haddr : (σ.takeLeft t).addr + t = σ.addr := Site.takeLeft_addr_add ht
  by_cases h0 : t = 0
  · omega
  · obtain ⟨a, ha, hfree⟩ := σ.prevFree_mem (by omega) [⟨c, true⟩]
    have hpos := (L.chunkOk he).pos
    rcases L.blocks_apart he hfree with h | h
    · cases h
    · dsimp only at h hpos
      omega

/-- What in-place growth and moving must respect: a partly taken neighbour keeps
more than a header, and a moved block leaves room for a free node. -/
structure GrowOk (σ : Site) (rs : List Region) (c s : Nat) : Prop where
  extend : c < s → s ≤ σ.nextFree + σ.prevFree + c →
    σ.prevFree - (reallocTakes σ.prevFree σ.nextFree (s - c)).1 ≠ 8 ∧
      σ.nextFree - (reallocTakes σ.prevFree σ.nextFree (s - c)).2 ≠ 8
  move : ¬ s ≤ σ.nextFree + σ.prevFree + c →
    (∃ u ∈ blocks rs, u.2.alloc = false ∧ need s ≤ u.2.size) → 16 ≤ (σ.merge c).2

/-- A block of the heap `rs` at `(a, c)` after `realloc` to `n` bytes. -/
inductive ReallocResult (g : Nat) (m : Memory) (rs : List Region) (a c n : Nat) :
    Memory → Nat → Prop
  | null (h : ∀ u ∈ blocks rs, u.2.alloc = false → u.2.size < need (need n)) :
      ReallocResult g m rs a c n m 0
  | done (m' : Memory) (rs' : List Region) (a' d : Nat)
      (he : Effect g m m' rs rs' (some (a, ⟨c, true⟩)) (some (a', ⟨d, true⟩)))
      (hd : n + 8 ≤ d) (hcopy : ∀ i, i < c - 8 → i < n → m' (a' + 8 + i) = m (a + 8 + i))
      (hf : ∀ e, (a', (⟨e, true⟩ : Chunk)) ∈ blocks rs → a' = a)
      (ht : Tidy rs → Tidy rs') : ReallocResult g m rs a c n m' (a' + 8)

theorem Edit.trans_move {rs₁ rs₂ rs₃ : List Region} {old new : Nat × Chunk}
    (h : Edit rs₁ rs₂ none (some new)) (h' : Edit rs₂ rs₃ (some old) none) (hne : old ≠ new) :
    Edit rs₁ rs₃ (some old) (some new) where
  bounds := h'.bounds.trans h.bounds
  alloc u ha := by
    rw [h'.alloc u ha, h.alloc u ha]
    simp only [ne_eq, reduceCtorEq, not_false_eq_true, and_true, Option.some.injEq, or_false]
    constructor
    · rintro ⟨hu | hu, hold⟩
      · exact .inl ⟨hu, hold⟩
      · exact .inr hu
    · rintro (hu | hu)
      · exact ⟨.inl hu.1, hu.2⟩
      · exact ⟨.inr hu, fun ho => hne (ho.trans hu.symm)⟩

theorem realloc_null (g : Nat) (m : Memory) (n : Nat) :
    Mm.realloc g m 0 n = Mm.malloc g m n := if_pos rfl

theorem realloc_zero (g : Nat) (m : Memory) (a : Nat) :
    Mm.realloc g m (a + 8) 0 = (Mm.free g m (a + 8)).map fun m => (m, 0) := by
  rw [Mm.realloc, if_neg (by omega), if_pos rfl]
  cases Mm.free g m (a + 8) <;> rfl

theorem need_mult8 (n : Nat) : need n % 8 = 0 := by
  unfold need
  omega

theorem realloc_eq {a : Nat} (hn : 0 < n) (hw : n + 23 < 2 ^ 32) (hsz : nodeSize m a = c) :
    Mm.realloc g m (a + 8) n =
      if need n ≤ c then do
        let m ← if need n < c then Mm.mmShrinkchunk g m a (need n) else some m
        some (m, a + 8)
      else if freeNextsize m a + freePrevsize m a + c ≥ need n then
        Mm.reallocExtend g m a (need n)
      else Mm.reallocMove g m (a + 8) (need n) c := by
  rw [Mm.realloc, if_neg (by omega), if_neg (by omega)]
  dsimp only
  rw [mmAlignUp_need hw, Nat.add_sub_cancel, hsz]

theorem Rep.reallocMove (R : Rep g m (σ.fill [⟨c, true⟩])) (hs : 0 < s) (hw : s + 23 < 2 ^ 32)
    (hcs : c < s) (hfit : σ.nextFree + σ.prevFree + c < s)
    (hmerge : (∃ u ∈ blocks (σ.fill [⟨c, true⟩]), u.2.alloc = false ∧ need s ≤ u.2.size) →
      16 ≤ (σ.merge c).2) :
    ∃ m' p, Mm.reallocMove g m (σ.addr + 8) s c = some (m', p) ∧
      ((p = 0 ∧ m' = m ∧ ∀ u ∈ blocks (σ.fill [⟨c, true⟩]), u.2.alloc = false →
          u.2.size < need s) ∨
        ∃ rs' a d, p = a + 8 ∧ s + 8 ≤ d ∧
          Effect g m m' (σ.fill [⟨c, true⟩]) rs' (some (σ.addr, ⟨c, true⟩))
            (some (a, ⟨d, true⟩)) ∧
          (∀ i < c - 8, m' (a + 8 + i) = m (σ.addr + 8 + i)) ∧
          (∀ e, (a, (⟨e, true⟩ : Chunk)) ∉ blocks (σ.fill [⟨c, true⟩])) ∧
          (Tidy (σ.fill [⟨c, true⟩]) → Tidy rs')) := by
  have hold : (σ.addr, (⟨c, true⟩ : Chunk)) ∈ blocks (σ.fill [⟨c, true⟩]) :=
    Site.mem_fill_one.mpr List.mem_cons_self
  have hneed := need_ge s
  obtain ⟨m₁, p, e₁, hres⟩ := R.malloc hs hw
  by_cases hp : p = 0
  · refine ⟨m₁, p, ?_, ?_⟩
    · unfold Mm.reallocMove
      rw [e₁]
      simp [hp]
    · cases hres with
      | null h => exact .inl ⟨rfl, rfl, h⟩
      | taken => omega
  · obtain ⟨rs₁, a, d₀, rfl, hfree, hd₀, _, E₁, ht₁, hstay⟩ := hres.effect R (by omega)
    have hd := carved_size hd₀
    obtain ⟨d, hcd⟩ : ∃ d, carved d₀ (need s) = ⟨d, true⟩ := ⟨_, rfl⟩
    rw [hcd] at E₁ hd
    dsimp only at hd
    have R₁ := E₁.rep
    have hnew : (a, (⟨d, true⟩ : Chunk)) ∈ blocks rs₁ := (E₁.edit.alloc _ rfl).mpr (.inr rfl)
    have hold₁ : (σ.addr, (⟨c, true⟩ : Chunk)) ∈ blocks rs₁ := hstay _ hold (by dsimp only; omega)
    have hne : (σ.addr, (⟨c, true⟩ : Chunk)) ≠ (a, ⟨d, true⟩) := by
      intro he
      cases he
      omega
    have hdis : a + d ≤ σ.addr ∨ σ.addr + c ≤ a := by
      rcases R₁.layout.blocks_apart hnew hold₁ with he | he
      · exact absurd he.symm hne
      · exact he
    have hframe : ∀ x, x < a + 8 ∨ a + d ≤ x → copyUp m₁ (a + 8) (σ.addr + 8) c x = m₁ x :=
      fun x hx => copyUp_of_outside (by omega)
    obtain ⟨R₂, k₂⟩ := R₁.write hnew rfl hframe
    obtain ⟨τ, hτ, haddr⟩ := Site.of_mem hold₁
    dsimp only at hτ haddr
    subst hτ
    have hm16 : 16 ≤ (τ.merge c).2 := by
      have hle := R₂.layout.merge_size_eq haddr.symm fun u hu hsz => hstay u hu (by omega)
      have := hmerge ⟨_, hfree, rfl, hd₀⟩
      omega
    obtain ⟨m₃, rs₃, e₃, E₃, ht₃⟩ := R₂.free_effect hm16
    rw [← haddr] at e₃ E₃
    have hkept : ∀ u ∈ blocks (σ.fill [⟨c, true⟩]), u.2.alloc = true → (σ.addr, ⟨c, true⟩) ≠ u →
        ∀ x, u.1 + 8 ≤ x → x < u.1 + u.2.size → m₃ x = m x := by
      intro u hu ha hou x h1 h2
      have hu₁ : u ∈ blocks (τ.fill [⟨c, true⟩]) :=
        (E₁.edit.alloc u ha).mpr (.inl ⟨hu, by simp⟩)
      rw [E₃.kept u hu₁ ha (fun he => hou (Option.some.inj he)) x h1 h2]
      by_cases hun : u = (a, ⟨d, true⟩)
      · have he := R.layout.blocks_addr hu hfree (by rw [hun])
        rw [he] at ha
        cases ha
      · rw [k₂ u hu₁ hun x h1 h2]
        exact E₁.kept u hu ha (by simp) x h1 h2
    refine ⟨m₃, a + 8, ?_, .inr ⟨rs₃, a, d, rfl, by omega, ⟨E₃.rep,
      E₁.edit.trans_move E₃.edit hne, fun u hu ha hou => hkept u hu ha fun he => hou (congrArg some he)⟩,
      fun i hi => ?_, fun e he => ?_, fun ht => ht₃ (ht₁ (need_mult s) ht)⟩⟩
    · unfold Mm.reallocMove
      rw [e₁, Option.bind_eq_bind, Option.bind_some]
      dsimp only
      rw [if_pos hp, e₃]
      rfl
    · have hnewkept := E₃.kept (a, ⟨d, true⟩) hnew rfl (fun he => hne (Option.some.inj he))
        (a + 8 + i) (by dsimp only; omega) (by dsimp only; omega)
      rw [hnewkept, copyUp_apply (by omega) (by omega)]
      exact E₁.kept (σ.addr, ⟨c, true⟩) hold rfl (by simp) _ (by dsimp only; omega)
        (by dsimp only; omega)
    · cases R.layout.blocks_addr he hfree rfl

theorem Rep.realloc (R : Rep g m (σ.fill [⟨c, true⟩])) (hn : 0 < n) (hw : need n + 23 < 2 ^ 32)
    (hok : GrowOk σ (σ.fill [⟨c, true⟩]) c (need n)) :
    ∃ m' p, Mm.realloc g m (σ.addr + 8) n = some (m', p) ∧
      ReallocResult g m (σ.fill [⟨c, true⟩]) σ.addr c n m' p := by
  have hold : (σ.addr, (⟨c, true⟩ : Chunk)) ∈ blocks (σ.fill [⟨c, true⟩]) :=
    Site.mem_fill_one.mpr List.mem_cons_self
  have hge := need_ge n
  have hlow := need_low hn
  have hsz : nodeSize m σ.addr = c := (site_tiles R.tiled).1.1
  rw [realloc_eq hn (by omega) hsz]
  by_cases hshrink : need n ≤ c
  · rw [if_pos hshrink]
    by_cases hlt : need n < c
    · obtain ⟨m', e, R', k⟩ := R.mmShrinkchunk (need_mult8 n) (by omega) hlt
      refine ⟨m', σ.addr + 8, by rw [if_pos hlt, e]; rfl, .done m' (σ.shrink c (need n)) σ.addr
        (σ.shrunk c (need n)).size ⟨R', shrink_edit R.layout _, ?_⟩ ?_ ?_ (fun _ _ => rfl) ?_⟩
      · intro u hu ha hne
        rcases List.mem_cons.mp (Site.mem_fill_one.mp hu) with rfl | hu
        · exact absurd rfl hne
        · exact k u (List.mem_cons_of_mem _ hu) ha
      · unfold Site.shrunk
        dsimp only
        split <;> omega
      · intro i _ hi
        apply k (σ.addr, ⟨need n, true⟩) List.mem_cons_self rfl
        · show σ.addr + 8 ≤ σ.addr + 8 + i
          omega
        · show σ.addr + 8 + i < σ.addr + need n
          omega
      · exact fun ht => ⟨shrink_quiet ht.quiet, shrink_gran ht.gran (need_mult n)⟩
    · refine ⟨m, σ.addr + 8, by rw [if_neg hlt]; rfl, .done m _ σ.addr c
        ⟨R, Edit.of_same hold, fun _ _ _ _ _ _ _ => rfl⟩ (by omega) (fun _ _ _ => rfl) (fun _ _ => rfl) id⟩
  · rw [if_neg hshrink, site_freeNextsize R.tiled R.layout, site_freePrevsize R.tiled R.layout]
    by_cases hfit : σ.nextFree + σ.prevFree + c ≥ need n
    · obtain ⟨takes, htakes⟩ : ∃ t, reallocTakes σ.prevFree σ.nextFree (need n - c) = t := ⟨_, rfl⟩
      have hrest := hok.extend (by omega) hfit
      obtain ⟨h1, h2, h3⟩ := reallocTakes_spec (p := σ.prevFree) (n := σ.nextFree)
        (d := need n - c) (by omega) (by omega)
      rw [htakes] at hrest h1 h2 h3
      obtain ⟨m', e, R', k, hcopy⟩ :=
        R.reallocExtend (need_mult8 n) (by omega) hfit htakes hrest
      refine ⟨m', _, by rw [if_pos hfit, e], .done m' (σ.extend takes c) (σ.takeLeft takes.1).addr
        (c + takes.1 + takes.2) ⟨R', extend_edit R.layout h1 h2, ?_⟩ (by omega)
        (fun i hi _ => hcopy i hi) (fun e he => R.layout.takeLeft_fresh h1 he) fun ht =>
        ⟨extend_quiet ht.quiet h1 h2, ?_⟩⟩
      · intro u hu ha hne
        rcases List.mem_cons.mp (Site.mem_fill_one.mp hu) with rfl | hu
        · exact absurd rfl hne
        · exact k u hu ha
      · obtain ⟨hgran, hc⟩ := gran_fill.mp ht.gran
        have hc16 : c % 16 = 0 := hc _ (List.mem_singleton.mpr rfl)
        have hp16 := Site.prevFree_gran hgran
        have hn16 := Site.nextFree_gran hgran
        have hneed := need_mult n
        obtain ⟨h4, h5⟩ := reallocTakes_mult (k := 16) (p := σ.prevFree) (n := σ.nextFree)
          (d := need n - c) (by omega) (by omega) (by omega)
        rw [htakes] at h4 h5
        exact extend_gran ht.gran h1 h2 (Nat.mod_eq_zero_of_dvd h4) (Nat.mod_eq_zero_of_dvd h5)
    · rw [if_neg hfit]
      obtain ⟨m', p, e, h⟩ := R.reallocMove (by omega) hw (by omega) (by omega)
        (hok.move (by omega))
      refine ⟨m', p, e, ?_⟩
      rcases h with ⟨rfl, rfl, hnone⟩ | ⟨rs', a, d, rfl, hd, E, hcopy, hnew, ht⟩
      · exact .null hnone
      · exact .done m' rs' a d E (by omega) (fun i hi _ => hcopy i hi)
          (fun e he => absurd he (hnew e)) ht

end

end NuttxAvr32.Mm
