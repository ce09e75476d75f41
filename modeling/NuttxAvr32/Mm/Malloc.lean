import NuttxAvr32.Mm.Site

/-! # What `malloc` does to the heap

`malloc` takes a smallest free chunk that is large enough and cuts it in two
when a free node fits into the rest.
-/

namespace NuttxAvr32.Mm

open ByteMemory

/-- The size of the chunk that serves a request of `n` bytes. -/
def need (n : Nat) : Nat := (n + 23) / 16 * 16

/-- A free chunk of size `c` after `s` bytes were taken from it. -/
def carve (c s : Nat) : List Chunk :=
  if c - s ≥ 16 then [⟨s, true⟩, ⟨c - s, false⟩] else [⟨c, true⟩]

/-- A chunk of size `s + t` cut after `s` bytes: the header of the second part,
the size of the first and the `preceding` word that follows. -/
def cut (m : Memory) (node s t : Nat) : Memory :=
  let m := setSize m (node + s) t
  let m := setPreceding m (node + s) s
  let m := setSize m node s
  setPreceding m (node + (s + t)) (keepAlloc t (preceding m (node + (s + t))))

section

variable {g : Nat} {σ : Site} {m : Memory} {c s t : Nat} {b : Bool}

theorem total_carve (h : s ≤ c) : total (carve c s) = c := by
  unfold carve
  split
  · simp only [total_cons, total_nil]
    omega
  · rfl

theorem cut_of_outside {y : Nat} (h : σ.Outside (s + t) y) (h8 : 8 ≤ s) (ht : 8 ≤ t) :
    cut m σ.addr s t y = m y := by
  unfold Site.Outside at h
  unfold cut
  rw [setPreceding_of_outside (by omega), setSize_of_outside (by omega),
    setPreceding_of_outside (by omega), setSize_of_outside (by omega)]

theorem RepOf.behind_gap {x : List Chunk} (R : RepOf g m (σ.fill x) (σ.others (s + t)))
    (hx : total x = s + t) (ht : 8 ≤ t) (hlast : lastSize σ.prec x < 2 ^ 31) :
    s + t + 16 < 2 ^ 31 ∧
      preceding m (σ.addr + (s + t)) = precWord (lastSize σ.prec x) σ.next.alloc ∧
      keepAlloc t (precWord (lastSize σ.prec x) σ.next.alloc) = precWord t σ.next.alloc ∧
      precWord t σ.next.alloc < 2 ^ 32 := by
  have hsize : s + t + 16 < 2 ^ 31 := by simpa only [hx] using R.layout.gap.size
  obtain ⟨_, _, hn⟩ := site_tiles R.tiled
  rw [hx] at hn
  exact ⟨hsize, hn, keepAlloc_precWord hlast (by omega), precWord_lt (by omega)⟩

theorem RepOf.cut {x : List Chunk} (R : RepOf g m (σ.fill x) (σ.others (s + t)))
    (hx : total x = s + t) (hs : ChunkOk ⟨s, b⟩) (ht : ChunkOk ⟨t, false⟩)
    (hp : preceding m σ.addr = precWord σ.prec b) (hlast : lastSize σ.prec x < 2 ^ 31) :
    RepOf g (Mm.cut m σ.addr s t) (σ.fill [⟨s, b⟩, ⟨t, false⟩]) (σ.others (s + t)) ∧
      Kept m (Mm.cut m σ.addr s t) ((σ.addr, ⟨s, b⟩) :: σ.others (s + t)) := by
  have hs8 : 8 ≤ s := hs.pos
  have ht8 : 8 ≤ t := ht.pos
  obtain ⟨hsize, hn, hkeep, hlt⟩ := R.behind_gap hx ht8 hlast
  have hread : preceding (setSize (setPreceding (setSize m (σ.addr + s) t) (σ.addr + s) s)
      σ.addr s) (σ.addr + (s + t)) = precWord (lastSize σ.prec x) σ.next.alloc := by
    rw [preceding_setSize (by omega), preceding_setPreceding_of_ne (by omega),
      preceding_setSize (by omega), hn]
  have hown : Kept m (Mm.cut m σ.addr s t) [(σ.addr, ⟨s, b⟩)] := by
    intro u hu _ y h1 h2
    rw [List.mem_singleton.mp hu] at h1 h2
    simp only at h1 h2
    unfold Mm.cut
    rw [setPreceding_of_outside (by omega), setSize_of_outside (by omega),
      setPreceding_of_outside (by omega), setSize_of_outside (by omega)]
  have hcut : RepOf g (Mm.cut m σ.addr s t) (σ.fill [⟨s, b⟩, ⟨t, false⟩]) (σ.others (s + t)) ∧
      Kept m (Mm.cut m σ.addr s t) (σ.others (s + t)) := by
    apply R.retile_two hx rfl hs ht
    · exact fun y hy => cut_of_outside hy hs8 ht8
    · unfold Mm.cut
      rw [nodeSize_setPreceding (by omega), nodeSize_setSize (by omega)]
    · unfold Mm.cut
      rw [preceding_setPreceding_of_ne (by omega), preceding_setSize (by omega),
        preceding_setPreceding_of_ne (by omega), preceding_setSize (by omega), hp]
    · unfold Mm.cut
      rw [nodeSize_setPreceding (by omega), nodeSize_setSize_of_ne (by omega),
        nodeSize_setPreceding (by omega), nodeSize_setSize (by omega)]
    · unfold Mm.cut
      rw [preceding_setPreceding_of_ne (by omega), preceding_setSize (by omega),
        preceding_setPreceding (by omega)]
      rfl
    · show preceding (Mm.cut m σ.addr s t) (σ.addr + (s + t)) = precWord t σ.next.alloc
      unfold Mm.cut
      dsimp only
      rw [hread, hkeep, preceding_setPreceding hlt]
  refine ⟨hcut.1, fun u hu => ?_⟩
  rcases List.mem_cons.mp hu with rfl | hu
  · exact hown _ (List.mem_singleton.mpr rfl)
  · exact hcut.2 u hu

theorem RepOf.unlink_gap (R : Rep g m (σ.fill [⟨c, false⟩])) :
    RepOf g (Mm.unlink m σ.addr) (σ.fill [⟨c, false⟩]) (σ.others c) ∧
      Kept m (Mm.unlink m σ.addr) (σ.others c) := by
  have hmem : ∀ v, v ∈ blocks (σ.fill [⟨c, false⟩]) ↔
      v = (σ.addr, ⟨c, false⟩) ∨ v ∈ σ.others c := by
    intro v
    rw [Site.mem_blocks_fill, place_cons, place_nil, List.mem_singleton]
    rfl
  have hpos : 8 ≤ c := (R.layout.chunkOk ((hmem _).mpr (.inl rfl))).pos
  have hnot : (σ.addr, (⟨c, false⟩ : Chunk)) ∉ σ.others c :=
    R.layout.not_others (Nat.le_refl _) (by simp only [total_cons, total_nil]; omega)
  obtain ⟨hR, hf⟩ := RepOf.unlink (u := (σ.addr, ⟨c, false⟩)) R rfl hmem hnot
  exact ⟨hR, (hR.kept hf).mono fun u hu _ => (hmem u).mpr (.inr hu)⟩

theorem RepOf.add_gap {x : List Chunk} {a : Nat}
    (R : RepOf g m (σ.fill x) (σ.others (total x)))
    (hu : (a, (⟨t, false⟩ : Chunk)) ∈ place σ.addr x) (h16 : 16 ≤ t) :
    ∃ m', Mm.mmAddfreechunk g m a = some m' ∧
      RepOf g m' (σ.fill x) ((a, ⟨t, false⟩) :: σ.others (total x)) ∧
      Kept m m' (blocks (σ.fill x)) := by
  have hb := place_bounds hu
  dsimp only at hb
  have hnot : (a, (⟨t, false⟩ : Chunk)) ∉ σ.others (total x) :=
    R.layout.not_others hb.1 (by omega)
  obtain ⟨m', he, hR, hf⟩ :=
    R.mmAddfreechunk (Site.mem_blocks_fill.mpr (.inl hu)) rfl h16 hnot
  exact ⟨m', he, hR, hR.kept hf⟩

theorem RepOf.shift_right {k n : Chunk}
    (R : RepOf g m (σ.fill [k, n]) ((σ.addr + k.size, n) :: σ.others (k.size + n.size))) :
    RepOf g m (Site.fill { σ with right := n :: σ.right } [k])
      (Site.others { σ with right := n :: σ.right } k.size) := by
  have hfill : Site.fill { σ with right := n :: σ.right } [k] = σ.fill [k, n] :=
    Site.fill_right { σ with right := n :: σ.right } σ.right n rfl [k]
  have hmem : ∀ u, u ∈ Site.others { σ with right := n :: σ.right } k.size ↔
      u ∈ (σ.addr + k.size, n) :: σ.others (k.size + n.size) := by
    intro u
    rw [Site.mem_others_right rfl, List.mem_cons]
    rfl
  rw [hfill]
  exact R.congr_blocks (fun u hu => R.sub u ((hmem u).mp hu)) fun u _ => (hmem u).symm

theorem Rep.mallocTake (R : Rep g m (σ.fill [⟨c, false⟩])) (h8 : s % 8 = 0) (h16 : 16 ≤ s)
    (hsc : s ≤ c) :
    ∃ m', Mm.mallocTake g m σ.addr s = some (m', σ.addr + 8) ∧
      Rep g m' (σ.fill (carve c s)) ∧ Kept m m' (σ.others c) := by
  obtain ⟨R₁, k₁⟩ := R.unlink_gap
  have hgap := R₁.layout.gap
  obtain ⟨⟨hsz, hprec, _⟩, _, _⟩ := site_tiles R₁.tiled
  have hsz' : nodeSize (Mm.unlink m σ.addr) σ.addr = c := hsz
  have hok : ChunkOk ⟨c, false⟩ :=
    R₁.layout.chunkOk (Site.mem_blocks_fill.mpr (.inl (List.mem_singleton.mpr rfl)))
  have hmult : c % 8 = 0 := hok.mult
  unfold Mm.mallocTake
  dsimp only
  rw [hsz']
  by_cases hrem : c - s ≥ sizeofMmFreenode
  · obtain ⟨t, rfl⟩ : ∃ t, c = s + t := ⟨c - s, by omega⟩
    rw [Nat.add_sub_cancel_left] at hrem ⊢
    have ht : 16 ≤ t := hrem
    have hsize : s + t + 16 < 2 ^ 31 := hgap.size
    obtain ⟨R₂, k₂⟩ :=
      R₁.cut rfl ⟨h8, by dsimp only; omega⟩ ⟨by dsimp only; omega, by dsimp only; omega⟩ hprec
        (by rw [lastSize_cons, lastSize_nil]; omega)
    obtain ⟨m₃, he, R₃, k₃⟩ := RepOf.add_gap (t := t) (a := σ.addr + s) R₂ (by simp) ht
    have R₄ := R₃.shift_right
    have hp₄ : preceding m₃ σ.addr = precWord σ.prec false := (site_tiles R₄.tiled).1.2.1
    obtain ⟨R₅, k₅⟩ := R₄.setFlag true
    refine ⟨setPreceding m₃ σ.addr (precWord σ.prec true), ?_, ?_, ?_⟩
    · rw [if_pos hrem]
      show Option.bind (Mm.mmAddfreechunk g (Mm.cut (Mm.unlink m σ.addr) σ.addr s t) _) _ = _
      rw [he, Option.bind_some, hp₄, setAlloc_precWord hgap.prec]
    · have hcarve : carve (s + t) s = [⟨s, true⟩, ⟨t, false⟩] := by
        rw [carve, Nat.add_sub_cancel_left, if_pos ht]
      rw [hcarve]
      have h := R₅.close_alloc
      rw [Site.fill_right { σ with right := ⟨t, false⟩ :: σ.right } σ.right ⟨t, false⟩ rfl] at h
      exact h
    · have k₅' := k₅.mono fun u hu _ => List.mem_cons_of_mem _ hu
      have k₂' := k₂.mono fun u hu _ => List.mem_cons_of_mem _ hu
      refine ((k₁.trans k₂').trans (k₃.mono ?_)).trans (k₅'.mono ?_)
      · exact fun u hu _ => Site.others_sub rfl u hu
      · exact fun u hu _ => (Site.mem_others_right rfl).mpr (.inr hu)
  · have hp₁ : preceding (Mm.unlink m σ.addr) σ.addr = precWord σ.prec false := hprec
    obtain ⟨R₂, k₂⟩ := R₁.setFlag true
    refine ⟨setPreceding (Mm.unlink m σ.addr) σ.addr (precWord σ.prec true), ?_, ?_,
      k₁.trans (k₂.mono fun u hu _ => List.mem_cons_of_mem _ hu)⟩
    · rw [if_neg hrem]
      show some (setPreceding _ σ.addr (setAlloc (preceding _ σ.addr)), _) = _
      rw [hp₁, setAlloc_precWord hgap.prec]
    · rw [carve, if_neg hrem]
      exact R₂.close_alloc

end

/-- What a call of `malloc` that needs a chunk of `s` bytes leaves: nothing
changes when no free chunk is large enough, and otherwise a smallest one that
is large enough is carved. -/
inductive MallocResult (g : Nat) (m : Memory) (rs : List Region) (s : Nat) : Memory → Nat → Prop
  | null (h : ∀ u ∈ blocks rs, u.2.alloc = false → u.2.size < s) : MallocResult g m rs s m 0
  | taken (σ : Site) (c : Nat) (m' : Memory) (hrs : rs = σ.fill [⟨c, false⟩]) (hs : s ≤ c)
      (hmin : ∀ u ∈ blocks rs, u.2.alloc = false → s ≤ u.2.size → c ≤ u.2.size)
      (hR : Rep g m' (σ.fill (carve c s))) (hk : Kept m m' (σ.others c)) :
      MallocResult g m rs s m' (σ.addr + 8)

section

variable {g : Nat} {m : Memory} {rs : List Region} {n s : Nat}

theorem mmAlignUp_need (h : n + 23 < 2 ^ 32) : mmAlignUp (wrap (n + sizeofMmAllocnode)) = need n := by
  have hw : wrap (n + sizeofMmAllocnode) = n + 8 := by
    apply Nat.mod_eq_of_lt
    show n + 8 < 2 ^ 32
    omega
  rw [hw, mmAlignUp_eq (by omega)]
  rfl

theorem need_mult (n : Nat) : need n % 16 = 0 := by
  unfold need
  omega

theorem need_low (h : 0 < n) : 16 ≤ need n := by
  unfold need
  omega

theorem need_ge (n : Nat) : n + 8 ≤ need n := by
  unfold need
  omega

theorem Rep.fit (R : Rep g m rs) (h16 : 16 ≤ s) :
    ∃ node, Mm.searchFit m s loopBound (flink m (nodeAt g (mmSize2ndx s))) = some node ∧
      ((node = 0 ∧ ∀ u ∈ blocks rs, u.2.alloc = false → u.2.size < s) ∨
        ∃ c, (node, (⟨c, false⟩ : Chunk)) ∈ blocks rs ∧ node ≠ 0 ∧ s ≤ c ∧
          ∀ u ∈ blocks rs, u.2.alloc = false → s ≤ u.2.size → c ≤ u.2.size) := by
  obtain ⟨ns, hn, hm⟩ := R.nodes
  have hfree : ∀ u ∈ blocks rs, u.2.alloc = false → (u.1, u.2.size) ∈ ns := by
    intro u hu ha
    have h8 := (R.layout.chunkOk hu).pos
    refine (hm _ _ (by omega)).mpr ?_
    rw [← ha]
    exact hu
  obtain ⟨node, he, hfit⟩ := hn.searchFit h16
  refine ⟨node, he, ?_⟩
  cases hfit with
  | none h => exact .inl ⟨rfl, fun u hu ha => h _ (hfree u hu ha)⟩
  | some k hk hs hmin =>
      have hpos := (hn.range k hk).1
      have hkb := (hm k.1 k.2 (by omega)).mp hk
      exact .inr ⟨k.2, hkb, by omega, hs, fun u hu ha h => hmin _ (hfree u hu ha) h⟩

theorem Rep.malloc (R : Rep g m rs) (hn : 0 < n) (hw : n + 23 < 2 ^ 32) :
    ∃ m' p, Mm.malloc g m n = some (m', p) ∧ MallocResult g m rs (need n) m' p := by
  have h16 := need_low hn
  have hmult := need_mult n
  obtain ⟨node, he, h⟩ := R.fit h16
  have hcall : Mm.malloc g m n =
      if node = 0 then some (m, 0) else Mm.mallocTake g m node (need n) := by
    rw [Mm.malloc, if_neg (by omega)]
    dsimp only
    rw [mmAlignUp_need hw, malloc_ndx, he]
    rfl
  rcases h with ⟨h0, hnone⟩ | ⟨c, hc, h0, hs, hmin⟩
  · exact ⟨m, 0, by rw [hcall, if_pos h0], .null hnone⟩
  · obtain ⟨σ, rfl, ha⟩ := Site.of_mem hc
    dsimp only at ha R hmin
    subst ha
    obtain ⟨m', ht, hR, hk⟩ := Rep.mallocTake R (by omega) h16 hs
    exact ⟨m', σ.addr + 8, by rw [hcall, if_neg h0, ht], .taken σ c m' rfl hs hmin hR hk⟩

theorem malloc_zero (g : Nat) (m : Memory) : Mm.malloc g m 0 = some (m, 0) := if_pos rfl

end

end NuttxAvr32.Mm
