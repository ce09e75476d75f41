import NuttxAvr32.Mm.Memalign
import Mathlib.Order.Interval.Finset.Nat

/-! # Building the heap

`mm_initialize` sets up the empty free-node list, `mm_addregion` adds a region
that consists of one free chunk between two guard nodes.
-/

namespace NuttxAvr32.Mm

open ByteMemory Linked

section

variable {g : Nat} {m : Memory} {i j : Nat}

/-- The headers after the first `i` links were made. -/
structure Headers (g : Nat) (m : Memory) (i : Nat) : Prop where
  size : ∀ j < 19, nodeSize m (nodeAt g j) = 0
  flink : ∀ j < 19, flink m (nodeAt g j) = if j < i then nodeAt g (j + 1) else 0
  blink : ∀ j < 19, blink m (nodeAt g j) = if 0 < j ∧ j ≤ i then nodeAt g (j - 1) else 0

theorem nodeAt_apart (g : Nat) {i j : Nat} : EqOrApart (nodeAt g i) (nodeAt g j) := by
  unfold EqOrApart nodeAt
  simp only [sizeofMmFreenode]
  omega

theorem nodeAt_inj {g i j : Nat} : nodeAt g i = nodeAt g j ↔ i = j := by
  unfold nodeAt
  simp only [sizeofMmFreenode]
  omega

theorem headers_zero (g : Nat) (m : Memory) :
    Headers g (fillUp m g 0 (sizeofMmFreenode * mmNnodes)) 0 := by
  have hz : ∀ x, g ≤ x → x < g + 304 → fillUp m g 0 (sizeofMmFreenode * mmNnodes) x = 0 :=
    fun x h1 h2 => fillUp_apply h1 h2
  refine ⟨fun j hj => ?_, fun j hj => ?_, fun j hj => ?_⟩
  · apply loadWord_zero
    intro x h1 h2
    simp only [nodeAt, sizeofMmFreenode] at h1 h2
    exact hz x (by omega) (by omega)
  · rw [if_neg (by omega)]
    apply loadWord_zero
    intro x h1 h2
    simp only [nodeAt, sizeofMmFreenode] at h1 h2
    exact hz x (by omega) (by omega)
  · rw [if_neg (by omega)]
    apply loadWord_zero
    intro x h1 h2
    simp only [nodeAt, sizeofMmFreenode] at h1 h2
    exact hz x (by omega) (by omega)

theorem Headers.link (h : Headers g m i) (hi : i < 18) (hg : g + 304 ≤ 2 ^ 32) :
    Headers g (setBlink (setFlink m (nodeAt g i) (nodeAt g (i + 1))) (nodeAt g (i + 1))
      (nodeAt g i)) (i + 1) := by
  have hlt : ∀ k ≤ 18, nodeAt g k < 2 ^ 32 := by
    intro k hk
    simp only [nodeAt, sizeofMmFreenode]
    omega
  refine ⟨fun j hj => ?_, fun j hj => ?_, fun j hj => ?_⟩
  · rw [← h.size j hj]
    refine nodeSize_congr fun x h1 h2 => ?_
    rw [setBlink_of_outside, setFlink_of_outside]
    all_goals
      simp only [inLinks, nodeAt, sizeofMmFreenode] at *
      omega
  · rw [flink_setBlink (nodeAt_apart g), flink_setFlink (nodeAt_apart g) (hlt _ (by omega)),
      h.flink j hj]
    simp only [nodeAt_inj]
    by_cases he : j = i
    · subst he
      rw [if_pos rfl, if_pos (by omega)]
    · rw [if_neg he]
      by_cases hji : j < i
      · rw [if_pos hji, if_pos (by omega)]
      · rw [if_neg hji, if_neg (by omega)]
  · rw [blink_setBlink (nodeAt_apart g) (hlt _ (by omega)), blink_setFlink (nodeAt_apart g),
      h.blink j hj]
    simp only [nodeAt_inj]
    by_cases he : j = i + 1
    · subst he
      rw [if_pos rfl, if_pos (by omega)]
      rfl
    · rw [if_neg he]
      by_cases hji : 0 < j ∧ j ≤ i
      · rw [if_pos hji, if_pos (by omega)]
      · rw [if_neg hji, if_neg (by omega)]

theorem Headers.linkNodelist (h : Headers g m 0) (hg : g + 304 ≤ 2 ^ 32) (hi : i ≤ 18) :
    Headers g (linkNodelist g m i) i := by
  induction i with
  | zero => exact h
  | succ i ih => exact (ih (by omega)).link (by omega) hg

end

def headers (g : Nat) : List (Nat × Nat) := (List.range' 0 19).map fun i => (nodeAt g i, 0)

theorem mem_headers {g : Nat} {n : Nat × Nat} :
    n ∈ headers g ↔ ∃ i < 19, n = (nodeAt g i, 0) := by
  simp only [headers, List.mem_map, List.mem_range'_1]
  constructor
  · rintro ⟨i, ⟨_, hi⟩, rfl⟩
    exact ⟨i, by omega, rfl⟩
  · rintro ⟨i, hi, rfl⟩
    exact ⟨i, ⟨by omega, by omega⟩, rfl⟩

theorem Headers.nodeList {g : Nat} {m : Memory} (h : Headers g m 18) (h0 : 0 < g)
    (hg : g + 304 ≤ 2 ^ 32) : NodeList g m (headers g) := by
  have hpos : ∀ i, 0 < nodeAt g i := fun i => by
    simp only [nodeAt]
    omega
  have hsorted : (List.range' 0 19).Pairwise (· < ·) := List.pairwise_lt_range'
  refine ⟨?_, fun n hn => ?_, fun n hn => ?_, ?_, ?_, fun i hi => ?_, fun n hn _ => ?_,
    fun n hn h0 => ?_⟩
  · refine List.pairwise_map.mpr (hsorted.imp fun {i j} hij => ?_)
    simp only [NodesApart, nodeAt, sizeofMmFreenode]
    omega
  · obtain ⟨i, hi, rfl⟩ := mem_headers.mp hn
    refine ⟨hpos i, ?_⟩
    simp only [nodeAt, sizeofMmFreenode]
    omega
  · obtain ⟨i, hi, rfl⟩ := mem_headers.mp hn
    exact h.size i hi
  · have hmap : (headers g).map Prod.fst = (List.range' 0 19).map (nodeAt g) := by
      simp [headers, Function.comp_def]
    rw [hmap]
    refine Seg.of_array (nodeAt g) (fun i hi => ?_) fun i hi => ?_
    · rw [Nat.zero_add, bwd, h.blink i hi]
      by_cases hi0 : i = 0
      · subst hi0
        rfl
      · rw [if_pos (by omega), if_neg hi0]
        exact ptr_of_pos (hpos _)
    · rw [Nat.zero_add, fwd, h.flink i hi]
      by_cases hi18 : i + 1 = 19
      · rw [if_neg (by omega), if_pos hi18]
        rfl
      · rw [if_pos (by omega), if_neg hi18]
        exact ptr_of_pos (hpos _)
  · refine List.pairwise_map.mpr (hsorted.imp fun {i j} hij => ?_)
    have hpow : 2 ^ i ≤ 2 ^ j := Nat.pow_le_pow_right (by decide) (Nat.le_of_lt hij)
    rw [rank_head, rank_head]
    omega
  · exact mem_headers.mpr ⟨i, hi, rfl⟩
  · exact mem_headers.mp hn
  · obtain ⟨i, hi, rfl⟩ := mem_headers.mp hn
    exact absurd rfl h0

theorem rep_nil {g : Nat} (m : Memory) (h0 : 0 < g) (hg : g + 304 ≤ 2 ^ 32) :
    Rep g (linkNodelist g (fillUp m g 0 (sizeofMmFreenode * mmNnodes)) 18) [] := by
  have hn := ((headers_zero g m).linkNodelist hg (Nat.le_refl 18)).nodeList h0 hg
  refine ⟨⟨fun r hr => ?_, List.Pairwise.nil, fun r hr => ?_⟩, fun r hr => ?_, ⟨_, hn, fun a s hs => ?_⟩,
    fun u hu => hu⟩
  · cases hr
  · cases hr
  · cases hr
  · constructor
    · intro h
      obtain ⟨i, _, he⟩ := mem_headers.mp h
      exact absurd (congrArg Prod.snd he) hs
    · intro h
      cases h

/-- The region that `mm_addregion` makes of `[heapstart, heapstart + heapsize)`. -/
def newRegion (heapstart heapsize : Nat) : Region :=
  ⟨(heapstart + 15) / 16 * 16,
    [⟨(heapstart + heapsize) / 16 * 16 - (heapstart + 15) / 16 * 16 - 16, false⟩]⟩

/-- A memory area that can become a region beside the regions with the bounds
`bs`: it does not wrap, holds at least one free node between the guards once
aligned, and lies apart from the node list and from the other regions. -/
structure AreaOk (g : Nat) (bs : List (Nat × Nat)) (heapstart heapsize : Nat) : Prop where
  pos : 0 < heapstart
  wrap : heapstart + heapsize < 2 ^ 32
  room : (heapstart + 15) / 16 * 16 + 32 ≤ (heapstart + heapsize) / 16 * 16
  size : heapsize < 2 ^ 31
  table : g + 16 * 19 ≤ heapstart ∨ heapstart + heapsize ≤ g
  apart : ∀ b ∈ bs, heapstart + heapsize ≤ b.1 ∨ b.2 + sizeofMmAllocnode ≤ heapstart

instance (g : Nat) (bs : List (Nat × Nat)) (heapstart heapsize : Nat) :
    Decidable (AreaOk g bs heapstart heapsize) :=
  decidable_of_iff
    (0 < heapstart ∧ heapstart + heapsize < 2 ^ 32 ∧
      (heapstart + 15) / 16 * 16 + 32 ≤ (heapstart + heapsize) / 16 * 16 ∧ heapsize < 2 ^ 31 ∧
      (g + 16 * 19 ≤ heapstart ∨ heapstart + heapsize ≤ g) ∧
      ∀ b ∈ bs, heapstart + heapsize ≤ b.1 ∨ b.2 + sizeofMmAllocnode ≤ heapstart)
    ⟨fun ⟨h1, h2, h3, h4, h5, h6⟩ => ⟨h1, h2, h3, h4, h5, h6⟩,
      fun ⟨h1, h2, h3, h4, h5, h6⟩ => ⟨h1, h2, h3, h4, h5, h6⟩⟩

/-- The bounds of all regions, as `g_heapstart` and `g_heapend` hold them. -/
abbrev regionBounds (rs : List Region) : List (Nat × Nat) := rs.map Region.bounds

theorem AreaOk.region {g heapstart heapsize : Nat} {rs : List Region}
    (A : AreaOk g (regionBounds rs) heapstart heapsize) {r : Region} (hr : r ∈ rs) :
    heapstart + heapsize ≤ r.base ∨ r.stop ≤ heapstart :=
  A.apart r.bounds (List.mem_map_of_mem hr)

section

variable {g : Nat} {m : Memory} {rs : List Region} {heapstart heapsize : Nat}

def regionHeaders (m : Memory) (base z : Nat) : Memory :=
  let m := setSize m base 8
  let m := setPreceding m base mmAllocBit
  let m := setSize m (base + 8) z
  let m := setPreceding m (base + 8) 8
  let m := setSize m (base + 8 + z) 8
  setPreceding m (base + 8 + z) (setAlloc z)

theorem regionHeaders_of_outside {base z x : Nat} (h : x < base ∨ base + 8 + z + 8 ≤ x) :
    regionHeaders m base z x = m x := by
  unfold regionHeaders
  rw [setPreceding_of_outside (by omega), setSize_of_outside (by omega),
    setPreceding_of_outside (by omega), setSize_of_outside (by omega),
    setPreceding_of_outside (by omega), setSize_of_outside (by omega)]

theorem regionHeaders_tiles {base z : Nat} (hz : 8 ≤ z) (hlt : z < 2 ^ 31) :
    Tiles (regionHeaders m base z) 0 base (Region.chunks ⟨base, [⟨z, false⟩]⟩) := by
  have hset : setAlloc z = precWord z true := setAlloc_precWord (b := false) hlt
  have hpw : precWord z true < 2 ^ 32 := precWord_lt hlt
  have hbit : mmAllocBit < 2 ^ 32 := by decide
  refine ⟨?_, ?_, ?_, ?_, ?_, ?_, trivial⟩
  · show nodeSize (regionHeaders m base z) base = 8
    unfold regionHeaders
    rw [nodeSize_setPreceding (by omega), nodeSize_setSize_of_ne (by omega),
      nodeSize_setPreceding (by omega), nodeSize_setSize_of_ne (by omega),
      nodeSize_setPreceding (by omega), nodeSize_setSize (by decide)]
  · show preceding (regionHeaders m base z) base = precWord 0 true
    unfold regionHeaders
    rw [preceding_setPreceding_of_ne (by omega), preceding_setSize (by omega),
      preceding_setPreceding_of_ne (by omega), preceding_setSize (by omega),
      preceding_setPreceding hbit]
    exact (Nat.zero_add _).symm
  · show nodeSize (regionHeaders m base z) (base + 8) = z
    unfold regionHeaders
    rw [nodeSize_setPreceding (by omega), nodeSize_setSize_of_ne (by omega),
      nodeSize_setPreceding (by omega), nodeSize_setSize (by omega)]
  · show preceding (regionHeaders m base z) (base + 8) = precWord 8 false
    unfold regionHeaders
    rw [preceding_setPreceding_of_ne (by omega), preceding_setSize (by omega),
      preceding_setPreceding (by decide)]
    rfl
  · show nodeSize (regionHeaders m base z) (base + 8 + z) = 8
    unfold regionHeaders
    rw [nodeSize_setPreceding (by omega), nodeSize_setSize (by decide)]
  · show preceding (regionHeaders m base z) (base + 8 + z) = precWord z true
    unfold regionHeaders
    rw [hset, preceding_setPreceding hpw]

theorem AreaOk.layout (A : AreaOk g (regionBounds rs) heapstart heapsize) (L : Layout g rs) :
    Layout g (rs ++ [newRegion heapstart heapsize]) := by
  have h6 := fun r hr => A.region (r := r) hr
  obtain ⟨h1, h2, h3, h4, h5, _⟩ := A
  have hstop : (newRegion heapstart heapsize).stop ≤ heapstart + heapsize := by
    simp only [newRegion, Region.stop, total_cons, total_nil]
    omega
  have hbase : heapstart ≤ (newRegion heapstart heapsize).base := by
    show heapstart ≤ (heapstart + 15) / 16 * 16
    omega
  refine ⟨fun r hr => ?_, ?_, fun r hr => ?_⟩
  · rcases List.mem_append.mp hr with hr | hr
    · exact L.ok r hr
    · rw [List.mem_singleton.mp hr]
      refine ⟨by omega, ?_, fun c hc => ?_, ?_, by omega⟩
      · show (heapstart + 15) / 16 * 16 % 8 = 0
        omega
      · rw [List.mem_singleton.mp hc]
        constructor <;> dsimp only <;> omega
      · simp only [newRegion, total_cons, total_nil]
        omega
  · refine List.pairwise_append.mpr ⟨L.apart, List.pairwise_singleton _ _, fun r hr r' hr' => ?_⟩
    rw [List.mem_singleton.mp hr']
    have := h6 r hr
    unfold Apart
    omega
  · rcases List.mem_append.mp hr with hr | hr
    · exact L.table r hr
    · rw [List.mem_singleton.mp hr]
      omega

theorem newRegion_blocks (rs : List Region) (heapstart heapsize : Nat) :
    ∃ z, newRegion heapstart heapsize = ⟨(heapstart + 15) / 16 * 16, [⟨z, false⟩]⟩ ∧
      z = (heapstart + heapsize) / 16 * 16 - (heapstart + 15) / 16 * 16 - 16 ∧
      blocks (rs ++ [newRegion heapstart heapsize]) =
        blocks rs ++ [((heapstart + 15) / 16 * 16 + 8, ⟨z, false⟩)] := by
  refine ⟨_, rfl, rfl, ?_⟩
  rw [blocks_append, blocks_cons]
  simp [newRegion, Region.blocks, blocks]

theorem RepOf.addHeaders (R : Rep g m rs) (A : AreaOk g (regionBounds rs) heapstart heapsize) {z : Nat}
    (hz : (heapstart + heapsize) / 16 * 16 - (heapstart + 15) / 16 * 16 - 16 = z) :
    RepOf g (regionHeaders m ((heapstart + 15) / 16 * 16) z)
        (rs ++ [newRegion heapstart heapsize]) (blocks rs) ∧
      Kept m (regionHeaders m ((heapstart + 15) / 16 * 16) z) (blocks rs) := by
  have h6 := fun r hr => A.region (r := r) hr
  have h2 := A.wrap
  have h3 := A.room
  have h4 := A.size
  have h5 := A.table
  have hnew : newRegion heapstart heapsize = ⟨(heapstart + 15) / 16 * 16, [⟨z, false⟩]⟩ := by
    rw [← hz]
    rfl
  have hout : ∀ x, x < heapstart ∨ heapstart + heapsize ≤ x →
      regionHeaders m ((heapstart + 15) / 16 * 16) z x = m x := by
    intro x hx
    exact regionHeaders_of_outside (by omega)
  have hblock : ∀ u ∈ blocks rs, ∀ x, u.1 ≤ x → x < u.1 + u.2.size →
      regionHeaders m ((heapstart + 15) / 16 * 16) z x = m x := by
    intro u hu x hx1 hx2
    obtain ⟨r, hr, hur⟩ := mem_blocks.mp hu
    have := h6 r hr
    have := Region.blocks_bounds hur
    exact hout x (by omega)
  refine ⟨⟨A.layout R.layout, fun r hr => ?_, ?_, fun u hu => ?_⟩,
    fun u hu _ x hx1 hx2 => hblock u hu x (by omega) hx2⟩
  · rcases List.mem_append.mp hr with hr | hr
    · refine (R.tiled r hr).congr fun v hv x hx1 hx2 => hout x ?_
      have := h6 r hr
      rw [place_chunks] at hv
      simp only [List.cons_append, List.mem_cons, List.mem_append, List.not_mem_nil,
        or_false] at hv
      unfold Region.stop at this
      rcases hv with rfl | hv | rfl
      · dsimp only at hx1 hx2
        omega
      · have := Region.blocks_bounds hv
        have := (Region.blocks_ok (R.layout.ok r hr) hv).pos
        unfold Region.stop at *
        omega
      · dsimp only at hx1 hx2
        omega
    · rw [List.mem_singleton.mp hr, hnew]
      exact regionHeaders_tiles (by omega) (by omega)
  · refine R.nodes.congr (fun x hx => hout x ?_) fun u hu ha x hx => ?_
    · unfold inTable at hx
      omega
    · have h16 := R.low hu ha
      unfold inNode at hx
      exact hblock u hu x (by omega) (by omega)
  · rw [blocks_append]
    exact List.mem_append_left _ hu

theorem mmAddregion_spec {h : Heap} (R : Rep h.gNodelist h.mem rs)
    (A : AreaOk h.gNodelist (regionBounds rs) heapstart heapsize) :
    ∃ m', mmAddregion h heapstart heapsize = some
        { h with
          mem := m'
          gHeapsize := wrap (h.gHeapsize +
            ((newRegion heapstart heapsize).stop - (newRegion heapstart heapsize).base))
          regions := h.regions ++ [(newRegion heapstart heapsize).bounds] } ∧
      Rep h.gNodelist m' (rs ++ [newRegion heapstart heapsize]) ∧
      Kept h.mem m' (blocks rs) := by
  obtain ⟨z, hnew, hz, hbs⟩ := newRegion_blocks rs heapstart heapsize
  obtain ⟨R₁, k₁⟩ := RepOf.addHeaders R A hz.symm
  have hroom := A.room
  have hwrap := A.wrap
  have hsize := A.size
  have hup : mmAlignUp heapstart = (heapstart + 15) / 16 * 16 := mmAlignUp_eq (by omega)
  have hdown : mmAlignDown (wrap (heapstart + heapsize)) = (heapstart + heapsize) / 16 * 16 := by
    rw [wrap, Nat.mod_eq_of_lt hwrap, mmAlignDown_eq]
  have hu : ((heapstart + 15) / 16 * 16 + 8, (⟨z, false⟩ : Chunk)) ∈
      blocks (rs ++ [newRegion heapstart heapsize]) := by
    rw [hbs]
    exact List.mem_append_right _ (List.mem_singleton.mpr rfl)
  have hnot : ((heapstart + 15) / 16 * 16 + 8, (⟨z, false⟩ : Chunk)) ∉ blocks rs := by
    intro hmem
    obtain ⟨r, hr, hur⟩ := mem_blocks.mp hmem
    have := A.region hr
    have := Region.blocks_bounds hur
    dsimp only at this
    omega
  obtain ⟨m₂, e₂, R₂, f₂⟩ := RepOf.mmAddfreechunk R₁ hu rfl (by dsimp only; omega) hnot
  refine ⟨m₂, ?_, R₂.congr_blocks (fun u hu => hu) fun u _ => ?_, k₁.trans ?_⟩
  · have hz' : (heapstart + heapsize) / 16 * 16 - (heapstart + 15) / 16 * 16 -
        2 * sizeofMmAllocnode = z := hz.symm
    have htail : (heapstart + heapsize) / 16 * 16 - sizeofMmAllocnode =
        (heapstart + 15) / 16 * 16 + 8 + z := by
      show (heapstart + heapsize) / 16 * 16 - 8 = _
      omega
    have hread : nodeSize (setSize (setPreceding (setSize (setPreceding (setSize h.mem
        ((heapstart + 15) / 16 * 16) 8) ((heapstart + 15) / 16 * 16) mmAllocBit)
        ((heapstart + 15) / 16 * 16 + 8) z) ((heapstart + 15) / 16 * 16 + 8) 8)
        ((heapstart + 15) / 16 * 16 + 8 + z) 8) ((heapstart + 15) / 16 * 16 + 8) = z := by
      rw [nodeSize_setSize_of_ne (by omega), nodeSize_setPreceding (by omega),
        nodeSize_setSize (by omega)]
    have hstop : (newRegion heapstart heapsize).stop - (newRegion heapstart heapsize).base =
        (heapstart + heapsize) / 16 * 16 - (heapstart + 15) / 16 * 16 := by
      rw [hnew]
      simp only [Region.stop, total_cons, total_nil]
      omega
    have hbounds : (newRegion heapstart heapsize).bounds =
        ((heapstart + 15) / 16 * 16, (heapstart + 15) / 16 * 16 + 8 + z) := by
      rw [hnew]
      simp [Region.bounds]
    unfold mmAddregion
    dsimp only
    rw [hup, hdown, hz', htail, hread, hstop, hbounds]
    show Option.bind (Mm.mmAddfreechunk h.gNodelist (regionHeaders h.mem
      ((heapstart + 15) / 16 * 16) z) ((heapstart + 15) / 16 * 16 + 8)) _ = _
    rw [e₂]
    rfl
  · rw [hbs, List.mem_cons, List.mem_append, List.mem_singleton]
    exact or_comm
  · exact (R₂.kept f₂).mono fun u hu _ => R₁.sub u hu

theorem Tidy.newRegion (h : Tidy rs) (A : AreaOk g (regionBounds rs) heapstart heapsize) :
    Tidy (rs ++ [Mm.newRegion heapstart heapsize]) := by
  have hroom := A.room
  constructor
  · intro r hr
    rcases List.mem_append.mp hr with hr | hr
    · exact h.quiet r hr
    · rw [List.mem_singleton.mp hr]
      exact List.isChain_singleton _
  · intro r hr
    rcases List.mem_append.mp hr with hr | hr
    · exact h.gran r hr
    · intro c hc
      rw [List.mem_singleton.mp hr] at hc
      rw [List.mem_singleton.mp hc]
      dsimp only
      omega

end

def heapBytes (rs : List Region) : Nat := (rs.map fun r => r.stop - r.base).sum

def covered (rs : List Region) : Finset Nat := rs.foldr (fun r s => Finset.Ico r.base r.stop ∪ s) ∅

theorem mem_covered {rs : List Region} {x : Nat} :
    x ∈ covered rs ↔ ∃ r ∈ rs, r.base ≤ x ∧ x < r.stop := by
  induction rs with
  | nil => simp [covered]
  | cons r rs ih =>
      rw [covered, List.foldr_cons, Finset.mem_union, Finset.mem_Ico]
      change _ ∨ x ∈ covered rs ↔ _
      rw [ih]
      simp

theorem card_covered {rs : List Region} (h : rs.Pairwise Apart) :
    (covered rs).card = heapBytes rs := by
  induction rs with
  | nil => rfl
  | cons r rs ih =>
      obtain ⟨hr, hrs⟩ := List.pairwise_cons.mp h
      have hdis : Disjoint (Finset.Ico r.base r.stop) (covered rs) := by
        refine Finset.disjoint_left.mpr fun x hx hx' => ?_
        obtain ⟨r', hr', h1, h2⟩ := mem_covered.mp hx'
        have ha := hr r' hr'
        rw [Finset.mem_Ico] at hx
        unfold Apart at ha
        omega
      have hcard : (covered (r :: rs)).card = (r.stop - r.base) + (covered rs).card := by
        rw [← Nat.card_Ico, ← Finset.card_union_of_disjoint hdis]
        rfl
      rw [hcard, ih hrs]
      rfl

theorem Layout.heapBytes_lt {g : Nat} {rs : List Region} (L : Layout g rs) :
    heapBytes rs < 2 ^ 32 := by
  have hsub : covered rs ⊆ Finset.Ico 1 (2 ^ 32) := by
    intro x hx
    obtain ⟨r, hr, h1, h2⟩ := mem_covered.mp hx
    have hb := (L.ok r hr).base_pos
    have hs := (L.ok r hr).stop_le
    rw [Finset.mem_Ico]
    omega
  have hle := Finset.card_le_card hsub
  rw [card_covered L.apart, Nat.card_Ico] at hle
  omega

/-- The globals of the memory manager represent the heap `rs`. -/
structure HeapRep (h : Heap) (rs : List Region) : Prop where
  rep : Rep h.gNodelist h.mem rs
  bounds : h.regions = regionBounds rs
  size : h.gHeapsize = heapBytes rs

theorem HeapRep.mmAddregion {h : Heap} {rs : List Region} {heapstart heapsize : Nat}
    (H : HeapRep h rs) (A : AreaOk h.gNodelist h.regions heapstart heapsize) :
    ∃ h', Mm.mmAddregion h heapstart heapsize = some h' ∧
      h'.gNodelist = h.gNodelist ∧ Kept h.mem h'.mem (blocks rs) ∧
      HeapRep h' (rs ++ [newRegion heapstart heapsize]) := by
  rw [H.bounds] at A
  obtain ⟨m', e, R, k⟩ := mmAddregion_spec H.rep A
  refine ⟨_, e, rfl, k, R, ?_, ?_⟩
  · show h.regions ++ [(newRegion heapstart heapsize).bounds] = _
    rw [H.bounds]
    simp [regionBounds]
  · have hsum : heapBytes (rs ++ [newRegion heapstart heapsize]) = heapBytes rs +
        ((newRegion heapstart heapsize).stop - (newRegion heapstart heapsize).base) := by
      simp [heapBytes]
    show wrap (h.gHeapsize + _) = _
    rw [H.size, ← hsum]
    exact Nat.mod_eq_of_lt R.layout.heapBytes_lt

/-- Where `g_nodelist` may lie: it is an object of the program, so it does not
contain the null address. -/
structure TableOk (g : Nat) : Prop where
  pos : 0 < g
  wrap : g + 16 * 19 ≤ 2 ^ 32

theorem HeapRep.mmInitialize {g heapstart heapsize : Nat} (m : Memory) (G : TableOk g)
    (A : AreaOk g [] heapstart heapsize) :
    ∃ h, Mm.mmInitialize m g heapstart heapsize = some h ∧ h.gNodelist = g ∧
      HeapRep h [newRegion heapstart heapsize] := by
  have H : HeapRep ⟨linkNodelist g (fillUp m g 0 (sizeofMmFreenode * mmNnodes)) 18, g, 0, []⟩ [] :=
    ⟨rep_nil m G.pos G.wrap, rfl, rfl⟩
  obtain ⟨h', e, hg, _, H'⟩ := H.mmAddregion A
  exact ⟨h', e, hg, H'⟩

end NuttxAvr32.Mm
