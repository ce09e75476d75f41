import NuttxAvr32.Mm.NodeList
import NuttxAvr32.Mm.Tiling

/-! # The heap and its representation

`Rep g m rs` says that memory holds the heap `rs`: the headers of every region
tile it and the free-node list holds exactly the free chunks. An operation takes
chunks out of the list, rewrites the headers at one place and puts a chunk back;
`Site` is such a place, and each of the three stages has one lemma here.
-/

namespace NuttxAvr32.Mm

open ByteMemory

def inTable (g x : Nat) : Prop := g ≤ x ∧ x < g + 16 * 19

structure Layout (g : Nat) (rs : List Region) : Prop where
  ok : ∀ r ∈ rs, RegionOk r
  apart : rs.Pairwise Apart
  table : ∀ r ∈ rs, g + 16 * 19 ≤ r.base ∨ r.stop ≤ g

def Tiled (m : Memory) (rs : List Region) : Prop := ∀ r ∈ rs, Tiles m 0 r.base r.chunks

/-- The free-node list holds exactly the free chunks among `bs`. -/
def Nodes (g : Nat) (m : Memory) (bs : List (Nat × Chunk)) : Prop :=
  ∃ ns, NodeList g m ns ∧ ∀ a s, s ≠ 0 → ((a, s) ∈ ns ↔ (a, ⟨s, false⟩) ∈ bs)

/-- The heap `rs` with the list restricted to the chunks of `bs`, as it is while
an operation holds the others. -/
structure RepOf (g : Nat) (m : Memory) (rs : List Region) (bs : List (Nat × Chunk)) : Prop where
  layout : Layout g rs
  tiled : Tiled m rs
  nodes : Nodes g m bs
  sub : ∀ u ∈ bs, u ∈ blocks rs

abbrev Rep (g : Nat) (m : Memory) (rs : List Region) : Prop := RepOf g m rs (blocks rs)

section

variable {g : Nat} {rs : List Region} {u v : Nat × Chunk}

instance : Std.Symm Apart := ⟨fun _ _ h => h.symm⟩

theorem Region.blocks_ok {r : Region} (h : RegionOk r) (hu : u ∈ r.blocks) : ChunkOk u.2 :=
  h.chunk _ (mem_of_place hu)

theorem Layout.chunkOk (L : Layout g rs) (hu : u ∈ blocks rs) : ChunkOk u.2 := by
  obtain ⟨r, hr, hur⟩ := mem_blocks.mp hu
  exact Region.blocks_ok (L.ok r hr) hur

theorem Layout.bounds (L : Layout g rs) (hu : u ∈ blocks rs) :
    8 ≤ u.1 ∧ u.1 + u.2.size < 2 ^ 32 ∧ u.2.size < 2 ^ 31 ∧
      (g + 16 * 19 ≤ u.1 ∨ u.1 + u.2.size ≤ g) := by
  obtain ⟨r, hr, hur⟩ := mem_blocks.mp hu
  have hb := Region.blocks_bounds hur
  have ht := L.table r hr
  have hs := (L.ok r hr).size_lt
  have hstop := (L.ok r hr).stop_le
  have hlt : u.1 + u.2.size ≤ r.base + 8 + total r.mid := (place_bounds hur).2
  omega

theorem Layout.regions_apart (L : Layout g rs) {r r' : Region} (hr : r ∈ rs) (hr' : r' ∈ rs) :
    r = r' ∨ Apart r r' := by
  by_cases he : r = r'
  · exact .inl he
  · exact .inr (L.apart.forall hr hr' he)

theorem Layout.blocks_apart (L : Layout g rs) (hu : u ∈ blocks rs) (hv : v ∈ blocks rs) :
    u = v ∨ u.1 + u.2.size ≤ v.1 ∨ v.1 + v.2.size ≤ u.1 := by
  obtain ⟨r, hr, hur⟩ := mem_blocks.mp hu
  obtain ⟨r', hr', hvr⟩ := mem_blocks.mp hv
  rcases L.regions_apart hr hr' with rfl | ha
  · exact place_apart hur hvr
  · have h1 := Region.blocks_bounds hur
    have h2 := Region.blocks_bounds hvr
    unfold Apart at ha
    omega

theorem Layout.blocks_addr (L : Layout g rs) (hu : u ∈ blocks rs) (hv : v ∈ blocks rs)
    (h : u.1 = v.1) : u = v := by
  have h1 := (L.chunkOk hu).pos
  have h2 := (L.chunkOk hv).pos
  rcases L.blocks_apart hu hv with he | he
  · exact he
  · omega

theorem Layout.header_apart (L : Layout g rs) (hu : u ∈ blocks rs) {r : Region} (hr : r ∈ rs)
    (hv : v ∈ place r.base r.chunks) : u = v ∨ u.1 + u.2.size ≤ v.1 ∨ v.1 + 8 ≤ u.1 := by
  obtain ⟨r', hr', hur⟩ := mem_blocks.mp hu
  have hb := Region.blocks_bounds hur
  rw [place_chunks] at hv
  simp only [List.cons_append, List.mem_cons, List.mem_append, List.not_mem_nil, or_false] at hv
  have hrr := L.regions_apart hr hr'
  rcases hv with rfl | hv | rfl
  · rcases hrr with rfl | ha
    · dsimp only
      omega
    · unfold Apart Region.stop at *
      dsimp only
      omega
  · have hvb : v ∈ blocks rs := mem_blocks.mpr ⟨r, hr, hv⟩
    have := (L.chunkOk hvb).pos
    rcases L.blocks_apart hu hvb with he | he
    · exact .inl he
    · omega
  · rcases hrr with rfl | ha
    · unfold Region.stop at hb
      dsimp only
      omega
    · unfold Apart Region.stop at *
      dsimp only
      omega

theorem Layout.header_table (L : Layout g rs) {r : Region} (hr : r ∈ rs)
    (hv : v ∈ place r.base r.chunks) : g + 16 * 19 ≤ v.1 ∨ v.1 + 8 ≤ g := by
  have ht := L.table r hr
  rw [place_chunks] at hv
  simp only [List.cons_append, List.mem_cons, List.mem_append, List.not_mem_nil, or_false] at hv
  rcases hv with rfl | hv | rfl
  · unfold Region.stop at ht
    dsimp only
    omega
  · have hvb : v ∈ blocks rs := mem_blocks.mpr ⟨r, hr, hv⟩
    have := L.bounds hvb
    have := (L.chunkOk hvb).pos
    omega
  · unfold Region.stop at ht
    dsimp only
    omega

end

/-- The bytes that linking and unlinking may write: the table and the link words
of the free chunks of `bs`. -/
def Touch (g : Nat) (bs : List (Nat × Chunk)) (x : Nat) : Prop :=
  inTable g x ∨ ∃ u ∈ bs, u.2.alloc = false ∧ inLinks u.1 x

section

variable {g : Nat} {m m' : Memory} {rs : List Region} {bs bs' : List (Nat × Chunk)}
  {u : Nat × Chunk} {x : Nat}

theorem Touch.mono (h : ∀ u ∈ bs, u ∈ bs') (hx : Touch g bs x) : Touch g bs' x := by
  rcases hx with hx | ⟨u, hu, ha, hl⟩
  · exact .inl hx
  · exact .inr ⟨u, h u hu, ha, hl⟩

theorem NodeList.node_touch {ns : List (Nat × Nat)} (N : NodeList g m ns)
    (hm : ∀ a s, s ≠ 0 → ((a, s) ∈ ns ↔ (a, ⟨s, false⟩) ∈ bs)) {k : Nat × Nat} (hk : k ∈ ns)
    (hx : inLinks k.1 x) : Touch g bs x := by
  by_cases h0 : k.2 = 0
  · obtain ⟨i, hi, rfl⟩ := N.zero k hk h0
    simp only [inLinks, nodeAt, sizeofMmFreenode] at hx
    refine .inl ?_
    unfold inTable
    omega
  · exact .inr ⟨_, (hm k.1 k.2 h0).mp hk, rfl, hx⟩

theorem Nodes.low (N : Nodes g m bs) (hu : u ∈ bs) (ha : u.2.alloc = false)
    (h0 : u.2.size ≠ 0) : 16 ≤ u.2.size := by
  obtain ⟨ns, hn, hm⟩ := N
  have hk : (u.1, u.2.size) ∈ ns := (hm _ _ h0).mpr (by rw [← ha]; exact hu)
  exact (hn.chunk _ hk h0).1

theorem Nodes.congr_blocks (N : Nodes g m bs)
    (h : ∀ u, u.2.alloc = false → (u ∈ bs ↔ u ∈ bs')) : Nodes g m bs' := by
  obtain ⟨ns, hn, hm⟩ := N
  exact ⟨ns, hn, fun a s hs => (hm a s hs).trans (h (a, ⟨s, false⟩) rfl)⟩

theorem Nodes.congr (N : Nodes g m bs)
    (h : ∀ x, inTable g x → m' x = m x)
    (hb : ∀ u ∈ bs, u.2.alloc = false → ∀ x, inNode u.1 x → m' x = m x) : Nodes g m' bs := by
  obtain ⟨ns, hn, hm⟩ := N
  refine ⟨ns, hn.congr fun n hk x hx => ?_, hm⟩
  by_cases h0 : n.2 = 0
  · obtain ⟨i, hi, rfl⟩ := hn.zero n hk h0
    simp only [inNode, nodeAt, sizeofMmFreenode] at hx
    refine h x ?_
    unfold inTable
    omega
  · exact hb _ ((hm n.1 n.2 h0).mp hk) rfl x hx

theorem RepOf.low (R : RepOf g m rs bs) (hu : u ∈ bs) (ha : u.2.alloc = false) :
    16 ≤ u.2.size := by
  have h8 := (R.layout.chunkOk (R.sub u hu)).pos
  exact R.nodes.low hu ha (by omega)

theorem RepOf.header_untouched (R : RepOf g m rs bs) {r : Region} (hr : r ∈ rs)
    (hu : u ∈ place r.base r.chunks) (h1 : u.1 ≤ x) (h2 : x < u.1 + 8) : ¬ Touch g bs x := by
  rintro (hx | ⟨v, hv, ha, hx⟩)
  · have := R.layout.header_table hr hu
    unfold inTable at hx
    omega
  · have h16 := R.low hv ha
    unfold inLinks at hx
    rcases R.layout.header_apart (R.sub v hv) hr hu with rfl | h | h
    · omega
    · omega
    · omega

theorem RepOf.contents_untouched (R : RepOf g m rs bs) (hu : u ∈ blocks rs)
    (ha : u.2.alloc = true) (h1 : u.1 ≤ x) (h2 : x < u.1 + u.2.size) : ¬ Touch g bs x := by
  rintro (hx | ⟨v, hv, hav, hx⟩)
  · have := R.layout.bounds hu
    unfold inTable at hx
    omega
  · have h16 := R.low hv hav
    unfold inLinks at hx
    rcases R.layout.blocks_apart (R.sub v hv) hu with rfl | h | h
    · rw [ha] at hav
      cases hav
    · omega
    · omega

theorem RepOf.tiled_of_untouched (R : RepOf g m rs bs)
    (h : ∀ x, ¬ Touch g bs x → m' x = m x) : Tiled m' rs :=
  fun r hr => (R.tiled r hr).congr fun _ hu x h1 h2 => h x (R.header_untouched hr hu h1 h2)

theorem Tiled.size (T : Tiled m rs) (hu : u ∈ blocks rs) : nodeSize m u.1 = u.2.size := by
  obtain ⟨r, hr, hur⟩ := mem_blocks.mp hu
  refine (T r hr).header ?_
  rw [place_chunks]
  exact List.mem_append_left _ (List.mem_cons_of_mem _ hur)

end

/-- The contents of the allocated chunks among `bs` are the same in both memories. -/
def Kept (m m' : Memory) (bs : List (Nat × Chunk)) : Prop :=
  ∀ u ∈ bs, u.2.alloc = true → ∀ x, u.1 + 8 ≤ x → x < u.1 + u.2.size → m' x = m x

section

variable {g : Nat} {m m' m'' : Memory} {rs : List Region} {bs bs' : List (Nat × Chunk)}

theorem Kept.trans (h : Kept m m' bs) (h' : Kept m' m'' bs) : Kept m m'' bs :=
  fun u hu ha x h1 h2 => (h' u hu ha x h1 h2).trans (h u hu ha x h1 h2)

theorem Kept.refl (m : Memory) (bs : List (Nat × Chunk)) : Kept m m bs := fun _ _ _ _ _ _ => rfl

theorem Kept.mono (h : Kept m m' bs') (hb : ∀ u ∈ bs, u.2.alloc = true → u ∈ bs') :
    Kept m m' bs :=
  fun u hu ha => h u (hb u hu ha) ha

theorem Kept.narrow {a a' c c' : Nat} (h : Kept m m' ((a, ⟨c, true⟩) :: bs)) (ha : a ≤ a')
    (hc : a' + c' ≤ a + c) : Kept m m' ((a', ⟨c', true⟩) :: bs) := by
  intro u hu hua x h1 h2
  rcases List.mem_cons.mp hu with rfl | hu
  · dsimp only at h1 h2
    apply h (a, ⟨c, true⟩) List.mem_cons_self rfl x
    · show a + 8 ≤ x
      omega
    · show x < a + c
      omega
  · exact h u (List.mem_cons_of_mem _ hu) hua x h1 h2

theorem RepOf.kept (R : RepOf g m rs bs) (h : ∀ x, ¬ Touch g bs x → m'' x = m' x) :
    Kept m' m'' (blocks rs) :=
  fun _ hu ha x h1 h2 => h x (R.contents_untouched hu ha (by omega) h2)

theorem RepOf.congr_blocks (R : RepOf g m rs bs) (hs : ∀ u ∈ bs', u ∈ blocks rs)
    (h : ∀ u, u.2.alloc = false → (u ∈ bs ↔ u ∈ bs')) : RepOf g m rs bs' :=
  ⟨R.layout, R.tiled, R.nodes.congr_blocks h, hs⟩

end

section

variable {g : Nat} {m m' : Memory} {rs : List Region} {u : Nat × Chunk}

theorem RepOf.write (R : Rep g m rs) (hu : u ∈ blocks rs) (ha : u.2.alloc = true)
    (hf : ∀ x, x < u.1 + 8 ∨ u.1 + u.2.size ≤ x → m' x = m x) :
    Rep g m' rs ∧ ∀ v ∈ blocks rs, v ≠ u → ∀ x, v.1 + 8 ≤ x → x < v.1 + v.2.size → m' x = m x := by
  have h8 := (R.layout.chunkOk hu).pos
  have hother : ∀ v ∈ blocks rs, v ≠ u → ∀ x, v.1 ≤ x → x < v.1 + v.2.size → m' x = m x := by
    intro v hv hne x h1 h2
    rcases R.layout.blocks_apart hu hv with he | he | he
    · exact absurd he.symm hne
    · exact hf x (.inr (by omega))
    · exact hf x (.inl (by omega))
  refine ⟨⟨R.layout, fun r hr => ?_, ?_, R.sub⟩, fun v hv hne x h1 h2 =>
    hother v hv hne x (by omega) h2⟩
  · refine (R.tiled r hr).congr fun v hv x h1 h2 => hf x ?_
    rcases R.layout.header_apart hu hr hv with rfl | h | h
    · exact .inl h2
    · exact .inr (by omega)
    · exact .inl (by omega)
  · refine R.nodes.congr (fun x hx => hf x ?_) fun v hv hva x hx => ?_
    · have := R.layout.bounds hu
      unfold inTable at hx
      omega
    · have h16 := R.low hv hva
      unfold inNode at hx
      apply hother v hv _ x
      · omega
      · omega
      · rintro rfl
        rw [ha] at hva
        cases hva

end

section

variable {g : Nat} {m : Memory} {rs : List Region} {bs bs' : List (Nat × Chunk)}
  {u : Nat × Chunk}

theorem Nodes.unlink (N : Nodes g m bs) (ha : u.2.alloc = false) (h0 : u.2.size ≠ 0)
    (hbs : ∀ v, v ∈ bs ↔ v = u ∨ v ∈ bs') (hu : u ∉ bs') :
    Nodes g (unlink m u.1) bs' ∧ ∀ x, ¬ Touch g bs' x → Mm.unlink m u.1 x = m x := by
  obtain ⟨ns, hn, hm⟩ := N
  have hue : (u.1, (⟨u.2.size, false⟩ : Chunk)) = u := by rw [← ha]
  have hmem : (u.1, u.2.size) ∈ ns := (hm _ _ h0).mpr (hue.symm ▸ (hbs u).mpr (.inl rfl))
  obtain ⟨l₁, l₂, rfl⟩ := List.append_of_mem hmem
  obtain ⟨hn', hf⟩ := hn.unlink h0
  have hnd := hn.nodup
  rw [List.map_append, List.map_cons] at hnd
  have hnot : ∀ k ∈ l₁ ++ l₂, k.1 ≠ u.1 := by
    intro k hk he
    have hp := (List.nodup_cons.mp (List.nodup_middle.mp hnd)).1
    rw [← List.map_append] at hp
    exact hp (List.mem_map.mpr ⟨k, hk, he⟩)
  have hm' : ∀ a s, s ≠ 0 → ((a, s) ∈ l₁ ++ l₂ ↔ (a, (⟨s, false⟩ : Chunk)) ∈ bs') := by
    intro a s hs
    have h := hm a s hs
    rw [hbs, List.mem_append, List.mem_cons] at h
    constructor
    · intro hk
      rcases h.mp (by rw [List.mem_append] at hk; tauto) with he | he
      · exact absurd (congrArg Prod.fst he) (hnot _ hk)
      · exact he
    · intro hk
      rw [List.mem_append]
      rcases h.mpr (.inr hk) with he | he | he
      · exact .inl he
      · cases he
        exact absurd (hue ▸ hk) hu
      · exact .inr he
  refine ⟨⟨_, hn', hm'⟩, fun x hx => hf x fun k hk hl => hx ?_⟩
  exact hn'.node_touch hm' hk hl

theorem RepOf.unlink (R : RepOf g m rs bs) (ha : u.2.alloc = false)
    (hbs : ∀ v, v ∈ bs ↔ v = u ∨ v ∈ bs') (hu : u ∉ bs') :
    RepOf g (unlink m u.1) rs bs' ∧ ∀ x, ¬ Touch g bs' x → Mm.unlink m u.1 x = m x := by
  have hub : u ∈ bs := (hbs u).mpr (.inl rfl)
  have h16 := R.low hub ha
  obtain ⟨hn, hf⟩ := R.nodes.unlink ha (by omega) hbs hu
  have hsub : ∀ v ∈ bs', v ∈ bs := fun v hv => (hbs v).mpr (.inr hv)
  refine ⟨⟨R.layout, ?_, hn, fun v hv => R.sub v (hsub v hv)⟩, hf⟩
  exact R.tiled_of_untouched fun x hx => hf x fun ht => hx (ht.mono hsub)

theorem RepOf.mmAddfreechunk (R : RepOf g m rs bs) (hu : u ∈ blocks rs)
    (ha : u.2.alloc = false) (h16 : 16 ≤ u.2.size) (hub : u ∉ bs) :
    ∃ m', mmAddfreechunk g m u.1 = some m' ∧ RepOf g m' rs (u :: bs) ∧
      ∀ x, ¬ Touch g (u :: bs) x → m' x = m x := by
  obtain ⟨ns, hn, hm⟩ := R.nodes
  have hb := R.layout.bounds hu
  have hue : (u.1, (⟨u.2.size, false⟩ : Chunk)) = u := by rw [← ha]
  have hapart : ∀ k ∈ ns, k.1 + 16 ≤ u.1 ∨ u.1 + 16 ≤ k.1 := by
    intro k hk
    by_cases h0 : k.2 = 0
    · obtain ⟨i, hi, rfl⟩ := hn.zero k hk h0
      simp only [nodeAt, sizeofMmFreenode]
      omega
    · have hkb := (hm k.1 k.2 h0).mp hk
      have hk16 := (hn.chunk k hk h0).1
      rcases R.layout.blocks_apart (R.sub _ hkb) hu with he | he | he
      · exact absurd (he ▸ hkb) hub
      · dsimp only at he
        omega
      · dsimp only at he
        omega
  have hadd : Addable m ns u.1 u.2.size :=
    ⟨R.tiled.size hu, h16, hb.2.2.1, by omega, by omega, hapart⟩
  obtain ⟨m', ns', he, hn', hm', hf⟩ := hn.mmAddfreechunk hadd
  have hmem : ∀ a s, s ≠ 0 → ((a, s) ∈ ns' ↔ (a, (⟨s, false⟩ : Chunk)) ∈ u :: bs) := by
    intro a s hs
    rw [hm', hm a s hs, List.mem_cons]
    refine or_congr_left ⟨fun h => ?_, fun h => ?_⟩
    · cases h
      exact hue
    · rw [← h]
  have hsub : ∀ v ∈ u :: bs, v ∈ blocks rs := by
    intro v hv
    rcases List.mem_cons.mp hv with rfl | hv
    · exact hu
    · exact R.sub v hv
  have hframe : ∀ x, ¬ Touch g (u :: bs) x → m' x = m x := by
    refine fun x hx => hf x (fun k hk hl => hx ?_) fun hl => hx (.inr ⟨u, by simp, ha, hl⟩)
    exact (hn.node_touch hm hk hl).mono fun v hv => List.mem_cons_of_mem _ hv
  have hnodes : Nodes g m' (u :: bs) := ⟨ns', hn', hmem⟩
  refine ⟨m', he, ⟨R.layout, ?_, hnodes, hsub⟩, hframe⟩
  intro r hr
  refine (R.tiled r hr).congr fun v hv x h1 h2 => hframe x ?_
  rintro (hx | ⟨w, hw, hwa, hx⟩)
  · exact R.header_untouched hr hv h1 h2 (.inl hx)
  · rcases List.mem_cons.mp hw with rfl | hw
    · unfold inLinks at hx
      rcases R.layout.header_apart hu hr hv with rfl | h | h
      · omega
      · omega
      · omega
    · exact R.header_untouched hr hv h1 h2 (.inr ⟨w, hw, hwa, hx⟩)

end

end NuttxAvr32.Mm
