import NuttxAvr32.Mm.Calls
import NuttxAvr32.Lib.Keyed

/-! # The free-node list and best fit

Without `memalign` every chunk is a multiple of `MM_MIN_CHUNK`, so no call leaves
a rest too small for a free node and the free-node list is exact: bin after bin,
the header and then the free chunks of the bin in the order of their sizes.
-/

namespace NuttxAvr32.Mm

open ByteMemory Linked Runs Keyed

/-- The free-node list holds the headers in order, each followed by the free
chunks of its bin, and no two neighbours in memory are both free. -/
structure FreeListExact (h : Heap) : Prop where
  list : ∃ bins : Nat → List Nat,
    Ends (fwd h.mem) (bwd h.mem)
        ((List.range mmNnodes).flatMap fun i => nodeAt h.gNodelist i :: bins i) ∧
      ∀ i < mmNnodes, (bins i).Nodup ∧
        (bins i).Pairwise (fun x y => nodeSize h.mem x ≤ nodeSize h.mem y) ∧
        ∀ x, x ∈ bins i ↔ x ∈ h.nodes ∧ IsFree h.mem x ∧ mmSize2ndx (nodeSize h.mem x) = i
  binned : ∀ x ∈ h.nodes, IsFree h.mem x → mmSize2ndx (nodeSize h.mem x) < mmNnodes
  apart : ∀ b ∈ h.regions, ∃ nodes, walk h.mem b.2 loopBound b.1 = some nodes ∧
    nodes.IsChain fun x y => ¬ (IsFree h.mem x ∧ IsFree h.mem y)

/-- `malloc` takes a smallest free chunk that fits, and fails only without one. -/
def BestFit (h : Heap) : Prop :=
  ∀ n, 0 < n → n + 23 < 2 ^ 32 → ∃ m' p, malloc h.gNodelist h.mem n = some (m', p) ∧
    (p = 0 → ∀ x ∈ h.nodes, IsFree h.mem x →
      nodeSize h.mem x < mmAlignUp (n + sizeofMmAllocnode)) ∧
    (p ≠ 0 → ∃ x ∈ h.nodes, IsFree h.mem x ∧ p = x + sizeofMmAllocnode ∧
      mmAlignUp (n + sizeofMmAllocnode) ≤ nodeSize h.mem x ∧
      ∀ y ∈ h.nodes, IsFree h.mem y → mmAlignUp (n + sizeofMmAllocnode) ≤ nodeSize h.mem y →
        nodeSize h.mem x ≤ nodeSize h.mem y)

section

variable {g : Nat} {m : Memory} {ns : List (Nat × Nat)} {n n' : Nat × Nat} {i : Nat}

def binOf (g : Nat) (n : Nat × Nat) : Nat := if n.2 = 0 then (n.1 - g) / 16 else mmSize2ndx n.2

theorem binOf_head (g i : Nat) : binOf g (nodeAt g i, 0) = i := by
  rw [binOf, if_pos rfl]
  simp only [nodeAt, sizeofMmFreenode]
  omega

theorem mmSize2ndx_lt {s : Nat} (h16 : 16 ≤ s) : mmSize2ndx s < 19 := by
  rcases Nat.lt_or_ge s (2 ^ 22) with hlt | hge
  · have := (mmSize2ndx_bounds h16 hlt).1
    omega
  · rw [mmSize2ndx_max hge]
    decide

/-- Ranks of nodes in bin `i` lie between the rank of its header and that of the next. -/
theorem NodeList.rank_bounds (h : NodeList g m ns) (hn : n ∈ ns) :
    binOf g n < 19 ∧ 32 * 2 ^ binOf g n ≤ rank g n + 1 ∧
      (binOf g n < 18 → rank g n + 1 < 32 * 2 ^ (binOf g n + 1)) := by
  by_cases h0 : n.2 = 0
  · obtain ⟨i, hi, rfl⟩ := h.zero n hn h0
    have hpos := Nat.two_pow_pos i
    rw [binOf_head, rank_head, Nat.pow_succ]
    omega
  · have h16 := (h.chunk n hn h0).1
    have hlt := mmSize2ndx_lt h16
    rw [binOf, if_neg h0, rank, if_neg h0]
    rcases Nat.lt_or_ge n.2 (2 ^ 22) with hmax | hmax
    · have := mmSize2ndx_bounds h16 hmax
      omega
    · rw [mmSize2ndx_max hmax]
      omega

theorem NodeList.binOf_sorted (h : NodeList g m ns) :
    ns.Pairwise fun x y => binOf g x ≤ binOf g y := by
  refine h.sorted.imp_of_mem fun {x y} hx hy hxy => ?_
  have hbx := h.rank_bounds hx
  have hby := h.rank_bounds hy
  by_contra hlt
  have hpow : 2 ^ (binOf g y + 1) ≤ 2 ^ binOf g x := Nat.pow_le_pow_right (by decide) (by omega)
  omega

/-- The nodes of bin `i` in the order of the list. -/
def bin (g : Nat) (ns : List (Nat × Nat)) (i : Nat) : List (Nat × Nat) :=
  ns.filter fun n => binOf g n = i

theorem mem_bin : n ∈ bin g ns i ↔ n ∈ ns ∧ binOf g n = i := by
  simp [bin]

theorem NodeList.flatMap_bin (h : NodeList g m ns) : (List.range 19).flatMap (bin g ns) = ns := by
  have hall := flatMap_classes h.binOf_sorted 19
  refine hall.trans (List.filter_eq_self.mpr fun n hn => ?_)
  exact decide_eq_true (h.rank_bounds hn).1

theorem NodeList.bin_cons (h : NodeList g m ns) (hi : i < 19) :
    ∃ t, bin g ns i = (nodeAt g i, 0) :: t := by
  apply eq_cons_of_least (h.sorted.filter _) (mem_bin.mpr ⟨h.heads i hi, binOf_head g i⟩)
  intro n hn hne
  obtain ⟨hn, hb⟩ := mem_bin.mp hn
  have h0 : n.2 ≠ 0 := by
    intro h0
    obtain ⟨j, _, rfl⟩ := h.zero n hn h0
    rw [binOf_head] at hb
    exact hne (by rw [hb])
  have hrank := (h.rank_bounds hn).2.1
  rw [hb, rank, if_neg h0] at hrank
  have hpos := Nat.two_pow_pos i
  rw [rank_head, rank, if_neg h0]
  omega

theorem NodeList.bin_tail (h : NodeList g m ns) {t : List (Nat × Nat)}
    (ht : bin g ns i = (nodeAt g i, 0) :: t) :
    (t.map Prod.fst).Nodup ∧ t.Pairwise (fun x y => x.2 ≤ y.2) ∧
      ∀ n, n ∈ t ↔ n ∈ ns ∧ n.2 ≠ 0 ∧ mmSize2ndx n.2 = i := by
  have hapart : (bin g ns i).Pairwise NodesApart := h.apart.filter _
  have hrank : (bin g ns i).Pairwise fun x y => rank g x ≤ rank g y := h.sorted.filter _
  rw [ht, List.pairwise_cons] at hapart hrank
  have hsub : ∀ n ∈ t, n ∈ ns ∧ binOf g n = i := fun n hn =>
    mem_bin.mp (by rw [ht]; exact List.mem_cons_of_mem _ hn)
  have hsize : ∀ n ∈ t, n.2 ≠ 0 := by
    intro n hn h0
    obtain ⟨hmem, hb⟩ := hsub n hn
    obtain ⟨j, _, rfl⟩ := h.zero n hmem h0
    rw [binOf_head] at hb
    have := hapart.1 _ hn
    rw [hb] at this
    unfold NodesApart at this
    omega
  refine ⟨?_, ?_, fun n => ?_⟩
  · refine List.pairwise_map.mpr (hapart.2.imp fun {x y} hxy => ?_)
    unfold NodesApart at hxy
    omega
  · refine hrank.2.imp_of_mem fun {x y} hx hy hxy => ?_
    rw [rank, rank, if_neg (hsize x hx), if_neg (hsize y hy)] at hxy
    omega
  · constructor
    · intro hn
      obtain ⟨hmem, hb⟩ := hsub n hn
      rw [binOf, if_neg (hsize n hn)] at hb
      exact ⟨hmem, hsize n hn, hb⟩
    · rintro ⟨hmem, h0, hb⟩
      have hin : n ∈ bin g ns i := mem_bin.mpr ⟨hmem, by rw [binOf, if_neg h0, hb]⟩
      rw [ht] at hin
      rcases List.mem_cons.mp hin with rfl | hin
      · exact absurd rfl h0
      · exact hin

end

section

variable {h : Heap} {rs : List Region}

theorem HeapRep.free_size (H : HeapRep h rs) {x : Nat} (hx : x ∈ h.nodes) (hf : IsFree h.mem x) :
    16 ≤ nodeSize h.mem x :=
  H.rep.low (H.free_node.mp ⟨hx, hf⟩) rfl

theorem HeapRep.exact_list (H : HeapRep h rs) : ∃ bins : Nat → List Nat,
    Ends (fwd h.mem) (bwd h.mem)
        ((List.range mmNnodes).flatMap fun i => nodeAt h.gNodelist i :: bins i) ∧
      ∀ i < mmNnodes, (bins i).Nodup ∧
        (bins i).Pairwise (fun x y => nodeSize h.mem x ≤ nodeSize h.mem y) ∧
        ∀ x, x ∈ bins i ↔ x ∈ h.nodes ∧ IsFree h.mem x ∧ mmSize2ndx (nodeSize h.mem x) = i := by
  obtain ⟨ns, N, hfree⟩ := H.rep.nodes
  have hmem : ∀ a, ((a, nodeSize h.mem a) ∈ ns ∧ nodeSize h.mem a ≠ 0) ↔
      a ∈ h.nodes ∧ IsFree h.mem a := by
    intro a
    rw [H.free_node]
    constructor
    · rintro ⟨hn, h0⟩
      exact (hfree a _ h0).mp hn
    · intro hb
      have h0 : nodeSize h.mem a ≠ 0 := by
        have := (H.rep.layout.chunkOk hb).pos
        dsimp only at this
        omega
      exact ⟨(hfree a _ h0).mpr hb, h0⟩
  refine ⟨fun i => ((bin h.gNodelist ns i).tail).map Prod.fst, ?_, fun i hi => ?_⟩
  · have hlist : ((List.range mmNnodes).flatMap fun i =>
        nodeAt h.gNodelist i :: ((bin h.gNodelist ns i).tail).map Prod.fst) = ns.map Prod.fst := by
      conv_rhs => rw [← N.flatMap_bin, List.map_flatMap]
      refine List.flatMap_congr fun i hi => ?_
      obtain ⟨t, ht⟩ := N.bin_cons (List.mem_range.mp hi)
      rw [ht]
      rfl
    rw [hlist]
    exact N.links
  · obtain ⟨t, ht⟩ := N.bin_cons hi
    obtain ⟨hnodup, hsorted, hin⟩ := N.bin_tail ht
    have hsizes : ∀ n ∈ t, nodeSize h.mem n.1 = n.2 := fun n hn => N.sizes n ((hin n).mp hn).1
    dsimp only
    rw [ht, List.tail_cons]
    refine ⟨hnodup, List.pairwise_map.mpr (hsorted.imp_of_mem fun {x y} hx hy hxy => ?_),
      fun x => ?_⟩
    · rw [hsizes x hx, hsizes y hy]
      exact hxy
    · rw [← and_assoc, ← hmem x]
      constructor
      · intro hx
        obtain ⟨n, hn, rfl⟩ := List.mem_map.mp hx
        obtain ⟨h1, h2, h3⟩ := (hin n).mp hn
        rw [hsizes n hn]
        exact ⟨⟨h1, h2⟩, h3⟩
      · rintro ⟨⟨h1, h2⟩, h3⟩
        exact List.mem_map.mpr ⟨_, (hin _).mpr ⟨h1, h2, h3⟩, rfl⟩

theorem isChain_place {m : Memory} {a : Nat} {cs : List Chunk} (hc : cs.IsChain Apart2)
    (ha : ∀ u ∈ place a cs, isAllocated (preceding m u.1) = u.2.alloc) :
    ((place a cs).map Prod.fst).IsChain fun x y => ¬ (IsFree m x ∧ IsFree m y) := by
  induction cs generalizing a with
  | nil => exact List.isChain_nil
  | cons c cs ih =>
    obtain ⟨hnext, hc⟩ := List.isChain_cons.mp hc
    have htail := ih hc fun u hu => ha u (List.mem_cons_of_mem _ hu)
    rw [place_cons, List.map_cons, List.isChain_cons]
    refine ⟨fun y hy => ?_, htail⟩
    cases cs with
    | nil => cases hy
    | cons d ds =>
      cases hy
      have h1 := ha (a, c) List.mem_cons_self
      have h2 := ha (a + c.size, d) (List.mem_cons_of_mem _ List.mem_cons_self)
      have hcd := hnext d rfl
      rintro ⟨hx, hy⟩
      unfold IsFree at hx hy
      dsimp only at h1 h2
      rw [hx] at h1
      rw [hy] at h2
      unfold Apart2 at hcd
      rw [← h1, ← h2] at hcd
      simp at hcd

theorem Region.chunks_apart {r : Region} (h : r.mid.IsChain Apart2) : r.chunks.IsChain Apart2 := by
  have hg : ∀ c, Apart2 guard c ∧ Apart2 c guard := fun c => ⟨.inl rfl, .inr rfl⟩
  rw [Region.chunks, List.isChain_append, List.isChain_cons]
  refine ⟨⟨fun c _ => (hg c).1, h⟩, List.isChain_singleton _, fun c _ d hd => ?_⟩
  cases hd
  exact (hg c).2

theorem HeapRep.freeListExact (H : HeapRep h rs) (ht : Tidy rs) : FreeListExact h := by
  refine ⟨H.exact_list, fun x hx hf => mmSize2ndx_lt (H.free_size hx hf), fun b hb => ?_⟩
  obtain ⟨r, hr, rfl, he⟩ := H.walk hb
  exact ⟨_, he, isChain_place (Region.chunks_apart (ht.quiet r hr))
    fun u hu => region_alloc H.rep.tiled H.rep.layout hr hu⟩

theorem HeapRep.bestFit (H : HeapRep h rs) : BestFit h := by
  intro n hn hw
  have hneed : mmAlignUp (n + sizeofMmAllocnode) = need n := by
    rw [mmAlignUp_eq (by simp only [sizeofMmAllocnode]; omega)]
    rfl
  rw [hneed]
  obtain ⟨m', p, _, e, _, _, hnull, hsome⟩ := H.malloc hw
  refine ⟨m', p, e, fun h0 x hx hf => ?_, fun h0 => ?_⟩
  · exact hnull h0 hn _ (H.free_node.mp ⟨hx, hf⟩) rfl
  · obtain ⟨a, c, _, rfl, hfree, hs, hmin, _⟩ := hsome h0
    obtain ⟨h1, h2, h3⟩ := H.free_block hfree
    refine ⟨a, h1, h2, rfl, ?_, fun y hy hf hfit => ?_⟩
    · rw [h3]
      exact hs
    · rw [h3]
      exact hmin _ (H.free_node.mp ⟨hy, hf⟩) rfl hfit

end

/-- In a run without `memalign` the free-node list is exact and `malloc` is best fit. -/
theorem free_list_exact {s : State} (h : Reach heapMachine Started (fun _ c => ¬ c.IsMemalign) s) :
    FreeListExact s.heap ∧ BestFit s.heap ∧
      ∀ c : Call, c.valid s → ¬ c.IsMemalign → ∃ s', heapMachine.exec s c = some s' := by
  obtain ⟨rs, I, ht⟩ := reach_tidy h
  refine ⟨I.heap.freeListExact ht, I.heap.bestFit, fun c hv hm => ?_⟩
  obtain ⟨s', _, e, _⟩ := I.step hv (I.tidy_safe ht hv hm)
  exact ⟨s', e⟩

theorem free_list_exact_run : ∃ s, runFrom (fun _ c => ¬ c.IsMemalign) (fun _ => 0xAA) 256 1024 512
    [.malloc 40, .calloc 3 20, .zalloc 8, .realloc 1040 72, .free 1088] = some s ∧
      FreeListExact s.heap := by
  obtain ⟨s, hs⟩ := Option.isSome_iff_exists.mp (show (runFrom (fun _ c => ¬ c.IsMemalign)
    (fun _ => 0xAA) 256 1024 512
    [.malloc 40, .calloc 3 20, .zalloc 8, .realloc 1040 72, .free 1088]).isSome by decide +kernel)
  exact ⟨s, hs, (free_list_exact (reach_runFrom ⟨by decide, by decide⟩ (by decide) hs)).1⟩

end NuttxAvr32.Mm
