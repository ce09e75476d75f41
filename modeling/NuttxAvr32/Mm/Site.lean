import NuttxAvr32.Mm.Layout

/-! # Editing the chunks at one place

A `Site` is a heap with a gap: the regions before and after, and the chunks to
the left and to the right inside the region of the gap. `fill x` puts the
chunks `x` into the gap. Every operation of the allocator maps `fill x` to
`fill x'` with chunks of the same total size, and `RepOf.retile` says which
bytes it may write on the way.
-/

namespace NuttxAvr32.Mm

open ByteMemory

structure Site where
  before : List Region
  base : Nat
  left : List Chunk
  right : List Chunk
  after : List Region

namespace Site

variable (σ : Site)

def fill (x : List Chunk) : List Region :=
  σ.before ++ ⟨σ.base, σ.left ++ x ++ σ.right⟩ :: σ.after

def addr : Nat := σ.base + 8 + total σ.left

def prec : Nat := lastSize 8 σ.left

def next : Chunk := σ.right.headD guard

/-- The flag of the chunk just before the gap, which may be the guard. -/
def prevAlloc : Bool := (σ.left.getLast?.map Chunk.alloc).getD true

/-- The chunks outside the gap, which is `n` bytes wide. -/
def others (n : Nat) : List (Nat × Chunk) :=
  blocks σ.before ++ place (σ.base + 8) σ.left ++ place (σ.addr + n) σ.right ++ blocks σ.after

/-- The bytes an edit of the gap leaves alone: all but the gap and the
`preceding` word that follows it. -/
def Outside (n y : Nat) : Prop :=
  y < σ.addr ∨ σ.addr + n + 8 ≤ y ∨ (σ.addr + n ≤ y ∧ y < σ.addr + n + 4)

end Site

section

variable {σ : Site} {x : List Chunk} {u : Nat × Chunk}

theorem Site.mem_blocks_fill :
    u ∈ blocks (σ.fill x) ↔ u ∈ place σ.addr x ∨ u ∈ σ.others (total x) := by
  simp only [Site.fill, Site.others, blocks_append, blocks_cons, Region.blocks, place_append,
    List.mem_append, Site.addr, total_append, Nat.add_assoc]
  tauto

theorem Site.of_mem {rs : List Region} (h : u ∈ blocks rs) :
    ∃ σ : Site, rs = σ.fill [u.2] ∧ u.1 = σ.addr := by
  obtain ⟨r, hr, hur⟩ := mem_blocks.mp h
  obtain ⟨before, after, rfl⟩ := List.append_of_mem hr
  obtain ⟨l, rr, hl, ha⟩ := place_split hur
  refine ⟨⟨before, r.base, l, rr, after⟩, ?_, ha⟩
  cases r
  simp only at hl
  subst hl
  simp [Site.fill]

theorem Site.fill_left (σ : Site) (l : List Chunk) (p : Chunk) (h : σ.left = l ++ [p])
    (x : List Chunk) : σ.fill x = Site.fill { σ with left := l } (p :: x) := by
  simp [Site.fill, h]

theorem Site.fill_right (σ : Site) (r : List Chunk) (n : Chunk) (h : σ.right = n :: r)
    (x : List Chunk) : σ.fill x = Site.fill { σ with right := r } (x ++ [n]) := by
  simp [Site.fill, h]

theorem Site.mem_others_right {r : List Chunk} {n : Chunk} {k : Nat} (h : σ.right = n :: r) :
    u ∈ σ.others k ↔
      u = (σ.addr + k, n) ∨ u ∈ Site.others { σ with right := r } (k + n.size) := by
  simp only [Site.others, h, place_cons, List.mem_append, List.mem_cons, Site.addr,
    Nat.add_assoc]
  tauto

theorem Site.mem_others_left {l : List Chunk} {p : Chunk} {k : Nat} (h : σ.left = l ++ [p]) :
    u ∈ σ.others k ↔
      u = (Site.addr { σ with left := l }, p) ∨
        u ∈ Site.others { σ with left := l } (p.size + k) := by
  simp only [Site.others, h, place_append, place_cons, place_nil, List.mem_append, List.mem_cons,
    List.not_mem_nil, Site.addr, total_append, total_cons, total_nil, Nat.add_assoc, Nat.add_zero,
    or_false]
  tauto

end

section

variable {g : Nat} {σ : Site} {x : List Chunk} {u : Nat × Chunk} {m : Memory}
  {bs : List (Nat × Chunk)}

theorem Site.region_mem (σ : Site) (x : List Chunk) :
    (⟨σ.base, σ.left ++ x ++ σ.right⟩ : Region) ∈ σ.fill x := by
  simp [Site.fill]

structure Site.Bounds (σ : Site) (g n : Nat) : Prop where
  low : 8 < σ.addr
  base : σ.base + 8 ≤ σ.addr
  high : σ.addr + n + 8 ≤ 2 ^ 32
  size : n + 16 < 2 ^ 31
  prec : σ.prec < 2 ^ 31
  table : g + 16 * 19 + 8 ≤ σ.addr ∨ σ.addr + n + 8 ≤ g
  aligned : σ.addr % 8 = 0
  prec_low : 8 ≤ σ.prec
  prec_le : σ.base + σ.prec ≤ σ.addr
  prec_mult : σ.prec % 8 = 0

theorem lastSize_bound {p : Nat} (cs : List Chunk) (h : ∀ c ∈ cs, ChunkOk c) (hp : p % 8 = 0)
    (h8 : 8 ≤ p) : 8 ≤ lastSize p cs ∧ lastSize p cs ≤ p + total cs ∧ lastSize p cs % 8 = 0 := by
  induction cs generalizing p with
  | nil => simpa using ⟨h8, hp⟩
  | cons c cs ih =>
      have hc := h c (by simp)
      have := ih (fun d hd => h d (by simp [hd])) hc.mult hc.pos
      rw [lastSize_cons, total_cons]
      omega

theorem total_mult {cs : List Chunk} (h : ∀ c ∈ cs, ChunkOk c) : total cs % 8 = 0 := by
  induction cs with
  | nil => rfl
  | cons c cs ih =>
      have hc := (h c (by simp)).mult
      have := ih fun d hd => h d (by simp [hd])
      rw [total_cons]
      omega

theorem Layout.gap (L : Layout g (σ.fill x)) : σ.Bounds g (total x) := by
  have hr := L.ok _ (σ.region_mem x)
  have ht := L.table _ (σ.region_mem x)
  have hs := hr.size_lt
  have hp := hr.base_pos
  have hm := hr.base_mult
  have hstop := hr.stop_le
  have hleft : ∀ c ∈ σ.left, ChunkOk c := fun c hc => hr.chunk c (by simp [hc])
  have hmult := total_mult hleft
  obtain ⟨h1, h2, h3⟩ := lastSize_bound σ.left hleft (p := 8) rfl (Nat.le_refl 8)
  simp only [Region.stop, total_append] at hs hstop ht hp hm
  have ha : σ.addr = σ.base + 8 + total σ.left := rfl
  have hprec : σ.prec = lastSize 8 σ.left := rfl
  constructor <;> omega

theorem Layout.others_apart (L : Layout g (σ.fill x)) (hu : u ∈ σ.others (total x)) :
    u.1 + u.2.size ≤ σ.addr ∨ u.1 = σ.addr + total x ∨ σ.addr + total x + 8 ≤ u.1 := by
  have hok := L.ok _ (σ.region_mem x)
  have hra : ∀ r ∈ σ.before ++ σ.after,
      Apart r ⟨σ.base, σ.left ++ x ++ σ.right⟩ := by
    have hp := List.pairwise_append.mp L.apart
    intro r hr
    rcases List.mem_append.mp hr with hr | hr
    · exact hp.2.2 r hr _ List.mem_cons_self
    · exact ((List.pairwise_cons.mp hp.2.1).1 r hr).symm
  have hout : ∀ r ∈ σ.before ++ σ.after, u ∈ r.blocks →
      u.1 + u.2.size ≤ σ.addr ∨ u.1 = σ.addr + total x ∨ σ.addr + total x + 8 ≤ u.1 := by
    intro r hr hur
    have hb := Region.blocks_bounds hur
    have ha := hra r hr
    simp only [Apart, Region.stop, total_append] at ha hb
    unfold Site.addr
    omega
  simp only [Site.others, List.mem_append] at hu
  rcases hu with ((hu | hu) | hu) | hu
  · obtain ⟨r, hr, hur⟩ := mem_blocks.mp hu
    exact hout r (by simp [hr]) hur
  · exact .inl (place_bounds hu).2
  · cases hright : σ.right with
    | nil => simp [hright] at hu
    | cons c r =>
        rw [hright, place_cons, List.mem_cons] at hu
        have h8 := (hok.chunk c (by simp [hright])).pos
        rcases hu with rfl | hu
        · exact .inr (.inl rfl)
        · have := (place_bounds hu).1
          omega
  · obtain ⟨r, hr, hur⟩ := mem_blocks.mp hu
    exact hout r (by simp [hr]) hur

theorem Layout.others_ok (L : Layout g (σ.fill x)) (hu : u ∈ σ.others (total x)) :
    ChunkOk u.2 :=
  L.chunkOk (Site.mem_blocks_fill.mpr (.inr hu))

theorem Layout.others_outside (L : Layout g (σ.fill x)) (hu : u ∈ σ.others (total x)) {y : Nat}
    (h1 : u.1 + 8 ≤ y) (h2 : y < u.1 + u.2.size) : σ.Outside (total x) y := by
  have h8 := (L.others_ok hu).pos
  unfold Site.Outside
  rcases L.others_apart hu with h | h | h
  · omega
  · omega
  · omega

theorem Layout.next_low (L : Layout g (σ.fill x)) : 8 ≤ σ.next.size := by
  have hok := L.ok _ (σ.region_mem x)
  unfold Site.next
  cases hright : σ.right with
  | nil => exact Nat.le_refl 8
  | cons n r => exact (hok.chunk n (by simp [hright])).pos

theorem Layout.not_others (L : Layout g (σ.fill x)) {a : Nat} {c : Chunk} (h1 : σ.addr ≤ a)
    (h2 : a < σ.addr + total x) : (a, c) ∉ σ.others (total x) := by
  intro hu
  have h8 := (L.others_ok hu).pos
  rcases L.others_apart hu with h | h | h
  · dsimp only at h h8
    omega
  · dsimp only at h
    omega
  · dsimp only at h
    omega

theorem chunks_split (σ : Site) (x : List Chunk) :
    ∃ r, σ.right ++ [guard] = σ.next :: r ∧
      Region.chunks ⟨σ.base, σ.left ++ x ++ σ.right⟩ = (guard :: σ.left) ++ x ++ σ.next :: r := by
  have h : σ.right ++ [guard] = σ.next :: (σ.right ++ [guard]).tail := by
    unfold Site.next
    cases σ.right <;> rfl
  refine ⟨(σ.right ++ [guard]).tail, h, ?_⟩
  rw [← h]
  simp [Region.chunks]

theorem site_tiles (T : Tiled m (σ.fill x)) :
    Tiles m σ.prec σ.addr x ∧ nodeSize m (σ.addr + total x) = σ.next.size ∧
      preceding m (σ.addr + total x) = precWord (lastSize σ.prec x) σ.next.alloc := by
  obtain ⟨r, hr, hc⟩ := chunks_split σ x
  have h := T _ (σ.region_mem x)
  rw [hc] at h
  have ha : σ.base + total (guard :: σ.left) = σ.addr := by
    simp only [total_cons, guard, Site.addr]
    omega
  simp only [tiles_append, tiles_cons, total_append, lastSize_append, ← Nat.add_assoc, ha] at h
  exact ⟨h.1.2, h.2.1, h.2.2.1⟩

theorem Site.prec_concat {l : List Chunk} {p : Chunk} (h : σ.left = l ++ [p]) :
    σ.prec = p.size ∧ σ.addr = Site.addr { σ with left := l } + p.size ∧
      σ.prevAlloc = p.alloc := by
  refine ⟨?_, ?_, ?_⟩
  · simp [Site.prec, h]
  · simp [Site.addr, h, Nat.add_assoc]
  · simp [Site.prevAlloc, h]

theorem site_prev (T : Tiled m (σ.fill x)) (L : Layout g (σ.fill x)) :
    nodeSize m (σ.addr - σ.prec) = σ.prec ∧
      isAllocated (preceding m (σ.addr - σ.prec)) = σ.prevAlloc := by
  rcases List.eq_nil_or_concat σ.left with h | ⟨l, p, h⟩
  · have ha : σ.addr - σ.prec = σ.base := by simp [Site.addr, Site.prec, h]
    obtain ⟨h1, h2, _⟩ := T _ (σ.region_mem x)
    rw [ha, Site.prec, h, Site.prevAlloc, h]
    refine ⟨h1, ?_⟩
    rw [h2]
    exact isAllocated_precWord (by omega)
  · rw [List.concat_eq_append] at h
    obtain ⟨h1, h2, h3⟩ := Site.prec_concat h
    rw [σ.fill_left l p h] at T L
    obtain ⟨⟨h4, h5, _⟩, _⟩ := site_tiles T
    have ha : σ.addr - σ.prec = Site.addr { σ with left := l } := by omega
    rw [ha, h1, h3, h5]
    exact ⟨h4, isAllocated_precWord L.gap.prec⟩

end

section

variable {g : Nat} {σ : Site} {x x' : List Chunk} {m m' : Memory}

theorem Layout.refill (L : Layout g (σ.fill x)) (hx : ∀ c ∈ x', ChunkOk c)
    (ht : total x' = total x) : Layout g (σ.fill x') := by
  have hr := L.ok _ (σ.region_mem x)
  have hok : RegionOk ⟨σ.base, σ.left ++ x' ++ σ.right⟩ := by
    refine ⟨hr.base_pos, hr.base_mult, fun c hc => ?_, ?_, ?_⟩
    · simp only [List.mem_append] at hc
      rcases hc with (hc | hc) | hc
      · exact hr.chunk c (by simp [hc])
      · exact hx c hc
      · exact hr.chunk c (by simp [hc])
    · have := hr.size_lt
      simp only [total_append, ht] at this ⊢
      exact this
    · have := hr.stop_le
      simp only [Region.stop, total_append, ht] at this ⊢
      exact this
  have hstop : (⟨σ.base, σ.left ++ x' ++ σ.right⟩ : Region).stop =
      (⟨σ.base, σ.left ++ x ++ σ.right⟩ : Region).stop := by
    simp [Region.stop, ht]
  have hmem : ∀ r ∈ σ.fill x', r = ⟨σ.base, σ.left ++ x' ++ σ.right⟩ ∨
      r ∈ σ.fill x := by
    intro r hr
    simp only [Site.fill, List.mem_append, List.mem_cons] at hr ⊢
    tauto
  refine ⟨fun r hr => ?_, ?_, fun r hr => ?_⟩
  · rcases hmem r hr with rfl | hr
    · exact hok
    · exact L.ok r hr
  · obtain ⟨h1, h2, h3⟩ := List.pairwise_append.mp L.apart
    obtain ⟨h4, h5⟩ := List.pairwise_cons.mp h2
    refine List.pairwise_append.mpr ⟨h1, List.pairwise_cons.mpr ⟨fun r hr => ?_, h5⟩,
      fun r hr r' hr' => ?_⟩
    · have := h4 r hr
      unfold Apart at this ⊢
      rw [hstop]
      exact this
    · rcases List.mem_cons.mp hr' with rfl | hr'
      · have := h3 r hr _ List.mem_cons_self
        unfold Apart at this ⊢
        rw [hstop]
        exact this
      · exact h3 r hr r' (List.mem_cons_of_mem _ hr')
  · rcases hmem r hr with rfl | hr
    · have := L.table _ (σ.region_mem x)
      rw [hstop]
      exact this
    · exact L.table r hr

theorem Tiled.retile (T : Tiled m (σ.fill x)) (L : Layout g (σ.fill x))
    (ht : total x' = total x) (hf : ∀ y, σ.Outside (total x) y → m' y = m y)
    (hx : Tiles m' σ.prec σ.addr x')
    (hp : preceding m' (σ.addr + total x) = precWord (lastSize σ.prec x') σ.next.alloc) :
    Tiled m' (σ.fill x') := by
  have hgap := L.gap
  have hbase := hgap.base
  have ha : σ.base + total (guard :: σ.left) = σ.addr := by
    simp only [total_cons, guard, Site.addr]
    omega
  have hout : ∀ r ∈ σ.before ++ σ.after, Tiles m' 0 r.base r.chunks := by
    intro r hr
    have hrf : r ∈ σ.fill x := by
      simp only [Site.fill, List.mem_append, List.mem_cons] at hr ⊢
      tauto
    have hra : Apart r ⟨σ.base, σ.left ++ x ++ σ.right⟩ := by
      have hp := List.pairwise_append.mp L.apart
      rcases List.mem_append.mp hr with hr | hr
      · exact hp.2.2 r hr _ List.mem_cons_self
      · exact ((List.pairwise_cons.mp hp.2.1).1 r hr).symm
    refine (T r hrf).congr fun u hu y h1 h2 => hf y ?_
    have hub : r.base ≤ u.1 ∧ u.1 + 8 ≤ r.stop := by
      rw [place_chunks] at hu
      simp only [List.cons_append, List.mem_cons, List.mem_append, List.not_mem_nil,
        or_false] at hu
      rcases hu with rfl | hu | rfl
      · unfold Region.stop
        dsimp only
        omega
      · have := Region.blocks_bounds hu
        have := (Region.blocks_ok (L.ok r hrf) hu).pos
        omega
      · unfold Region.stop
        dsimp only
        omega
    simp only [Apart, Region.stop, total_append] at hra hub
    unfold Site.Outside Site.addr
    omega
  intro r hr
  simp only [Site.fill, List.mem_append, List.mem_cons] at hr
  rcases hr with hr | rfl | hr
  · exact hout r (by simp [hr])
  · obtain ⟨rr, hrr, hc⟩ := chunks_split σ x
    obtain ⟨rr', hrr', hc'⟩ := chunks_split σ x'
    have he : rr' = rr := by
      rw [hrr] at hrr'
      injection hrr'.symm
    subst he
    have hT := T _ (σ.region_mem x)
    have hok := L.ok _ (σ.region_mem x)
    rw [hc] at hT
    rw [hc']
    refine hT.splice ?_ ht ?_ ?_ ?_ ?_
    · rw [ha]
      exact hx
    · intro u hu y h1 h2
      have hu8 : u.1 + 8 ≤ σ.addr := by
        simp only [place_cons, List.mem_cons] at hu
        rcases hu with rfl | hu
        · dsimp only
          omega
        · have h8 := (hok.chunk u.2 (by simp [mem_of_place hu])).pos
          have := (place_bounds hu).2
          unfold Site.addr
          simp only [guard] at this
          omega
      exact hf y (.inl (by omega))
    · rw [ha]
      have hs := (site_tiles T).2.1
      rw [← hs]
      exact nodeSize_congr fun y h1 h2 => hf y (.inr (.inr ⟨h1, h2⟩))
    · rw [ha]
      exact hp
    · rw [ha]
      intro u hu y h1 h2
      have hn8 : 8 ≤ σ.next.size := by
        exact L.next_low
      have := (place_bounds hu).1
      exact hf y (.inr (.inl (by omega)))
  · exact hout r (by simp [hr])

theorem RepOf.retile (R : RepOf g m (σ.fill x) (σ.others (total x)))
    (hok : ∀ c ∈ x', ChunkOk c) (ht : total x' = total x)
    (hf : ∀ y, σ.Outside (total x) y → m' y = m y) (hx : Tiles m' σ.prec σ.addr x')
    (hp : preceding m' (σ.addr + total x) = precWord (lastSize σ.prec x') σ.next.alloc) :
    RepOf g m' (σ.fill x') (σ.others (total x)) := by
  have L := R.layout
  have hgap := L.gap
  refine ⟨L.refill hok ht, R.tiled.retile L ht hf hx hp, ?_, fun u hu => ?_⟩
  · refine R.nodes.congr (fun y hy => hf y ?_) fun u hu ha y hy => hf y ?_
    · have := hgap.table
      unfold inTable at hy
      unfold Site.Outside
      omega
    · have h16 := R.low hu ha
      unfold inNode at hy
      unfold Site.Outside
      rcases L.others_apart hu with h | h | h
      · omega
      · omega
      · omega
  · rw [Site.mem_blocks_fill, ht]
    exact .inr hu

theorem Layout.kept_of_outside (L : Layout g (σ.fill x))
    (hf : ∀ y, σ.Outside (total x) y → m' y = m y) : Kept m m' (σ.others (total x)) :=
  fun _ hu _ y h1 h2 => hf y (L.others_outside hu h1 h2)

theorem Site.others_sub {n : Nat} (hn : total x = n) : ∀ u ∈ σ.others n, u ∈ blocks (σ.fill x) :=
  fun _ hu => Site.mem_blocks_fill.mpr (.inr (hn.symm ▸ hu))

theorem Site.mem_fill_one {c : Chunk} {u : Nat × Chunk} :
    u ∈ blocks (σ.fill [c]) ↔ u ∈ (σ.addr, c) :: σ.others c.size := by
  rw [Site.mem_blocks_fill, place_cons, place_nil, List.mem_singleton, List.mem_cons]
  rfl

theorem RepOf.close {bs : List (Nat × Chunk)} (R : RepOf g m (σ.fill x) bs)
    (h : ∀ u, u.2.alloc = false → (u ∈ bs ↔ u ∈ place σ.addr x ∨ u ∈ σ.others (total x))) :
    Rep g m (σ.fill x) :=
  R.congr_blocks (fun _ hu => hu) fun _ ha => (h _ ha).trans Site.mem_blocks_fill.symm

theorem Rep.open_alloc {s : Nat} (R : Rep g m (σ.fill [⟨s, true⟩])) :
    RepOf g m (σ.fill [⟨s, true⟩]) (σ.others s) := by
  refine R.congr_blocks (Site.others_sub rfl) fun u ha => ?_
  rw [Site.mem_blocks_fill, place_cons, place_nil, List.mem_singleton]
  refine ⟨fun h => ?_, .inr⟩
  rcases h with rfl | h
  · cases ha
  · exact h

theorem RepOf.close_alloc {s : Nat} (R : RepOf g m (σ.fill [⟨s, true⟩]) (σ.others s)) :
    Rep g m (σ.fill [⟨s, true⟩]) := by
  refine R.close fun u ha => ?_
  rw [place_cons, place_nil, List.mem_singleton]
  refine ⟨.inr, fun h => ?_⟩
  rcases h with rfl | h
  · cases ha
  · exact h

theorem RepOf.retile_one {n : Nat} {b : Bool} (R : RepOf g m (σ.fill x) (σ.others n))
    (hx : total x = n) (hc : ChunkOk ⟨n, b⟩) (hf : ∀ y, σ.Outside n y → m' y = m y)
    (hs : nodeSize m' σ.addr = n) (hp : preceding m' σ.addr = precWord σ.prec b)
    (hn : preceding m' (σ.addr + n) = precWord n σ.next.alloc) :
    RepOf g m' (σ.fill [⟨n, b⟩]) (σ.others n) ∧ Kept m m' (σ.others n) := by
  subst hx
  refine ⟨R.retile ?_ rfl hf ⟨hs, hp, trivial⟩ hn, R.layout.kept_of_outside hf⟩
  intro c h
  rw [List.mem_singleton.mp h]
  exact hc

theorem RepOf.retile_two {n s t : Nat} {b b' : Bool} (R : RepOf g m (σ.fill x) (σ.others n))
    (hx : total x = n) (hst : s + t = n) (hs : ChunkOk ⟨s, b⟩) (ht : ChunkOk ⟨t, b'⟩)
    (hf : ∀ y, σ.Outside n y → m' y = m y)
    (hs₁ : nodeSize m' σ.addr = s) (hp₁ : preceding m' σ.addr = precWord σ.prec b)
    (hs₂ : nodeSize m' (σ.addr + s) = t) (hp₂ : preceding m' (σ.addr + s) = precWord s b')
    (hn : preceding m' (σ.addr + n) = precWord t σ.next.alloc) :
    RepOf g m' (σ.fill [⟨s, b⟩, ⟨t, b'⟩]) (σ.others n) ∧ Kept m m' (σ.others n) := by
  subst hx
  refine ⟨R.retile ?_ hst hf ⟨hs₁, hp₁, hs₂, hp₂, trivial⟩ hn, R.layout.kept_of_outside hf⟩
  intro c h
  simp only [List.mem_cons, List.not_mem_nil, or_false] at h
  rcases h with rfl | rfl
  · exact hs
  · exact ht

theorem RepOf.setFlag {s : Nat} {b : Bool} (R : RepOf g m (σ.fill [⟨s, b⟩]) (σ.others s))
    (b' : Bool) :
    RepOf g (setPreceding m σ.addr (precWord σ.prec b')) (σ.fill [⟨s, b'⟩]) (σ.others s) ∧
      Kept m (setPreceding m σ.addr (precWord σ.prec b')) ((σ.addr, ⟨s, true⟩) :: σ.others s) := by
  have hgap := R.layout.gap
  have hs := R.layout.chunkOk (Site.mem_blocks_fill.mpr (.inl (List.mem_singleton.mpr rfl)))
  obtain ⟨hT, _, hn⟩ := site_tiles R.tiled
  have h8 : 8 ≤ s := hs.pos
  have hsz : nodeSize m σ.addr = s := hT.1
  have hpw : precWord σ.prec b' < 2 ^ 32 := precWord_lt hgap.prec
  have hok : ChunkOk ⟨s, b'⟩ := ⟨hs.mult, hs.pos⟩
  have hflag : RepOf g (setPreceding m σ.addr (precWord σ.prec b')) (σ.fill [⟨s, b'⟩])
      (σ.others s) ∧ Kept m (setPreceding m σ.addr (precWord σ.prec b')) (σ.others s) := by
    apply R.retile_one rfl hok
    · intro y hy
      unfold Site.Outside at hy
      exact setPreceding_of_outside (by omega)
    · rw [nodeSize_setPreceding (by omega), hsz]
    · exact preceding_setPreceding hpw
    · rw [preceding_setPreceding_of_ne (by omega)]
      exact hn
  refine ⟨hflag.1, fun u hu ha y h1 h2 => ?_⟩
  rcases List.mem_cons.mp hu with rfl | hu
  · dsimp only at h1 h2
    exact setPreceding_of_outside (by omega)
  · exact hflag.2 u hu ha y h1 h2

end

end NuttxAvr32.Mm
