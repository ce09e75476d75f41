import NuttxAvr32.Mm.Realloc
import Mathlib.Data.List.Chain

/-! # The edits of the chunk lists

What the four edits of the allocator, carving a free chunk, merging a freed one,
shrinking and extending an allocated one, do to the regions, to the allocated
chunks, to adjacent free chunks and to the granularity of the sizes.
-/

namespace NuttxAvr32.Mm

/-- The guard nodes of a region: `g_heapstart[i]` and `g_heapend[i]`. -/
def Region.bounds (r : Region) : Nat × Nat := (r.base, r.base + 8 + total r.mid)

/-- From `rs` to `rs'` the allocated chunk `old` is given up and `new` comes in;
the regions stay where they are. -/
structure Edit (rs rs' : List Region) (old new : Option (Nat × Chunk)) : Prop where
  bounds : rs'.map Region.bounds = rs.map Region.bounds
  alloc : ∀ u, u.2.alloc = true →
    (u ∈ blocks rs' ↔ (u ∈ blocks rs ∧ old ≠ some u) ∨ new = some u)

def Apart2 (c d : Chunk) : Prop := c.alloc = true ∨ d.alloc = true

def Quiet (rs : List Region) : Prop := ∀ r ∈ rs, List.IsChain Apart2 r.mid

def Gran (rs : List Region) : Prop := ∀ r ∈ rs, ∀ c ∈ r.mid, c.size % 16 = 0

section

variable {σ : Site} {x x' : List Chunk} {a b c : Chunk} {u : Nat × Chunk} {n s t : Nat}

theorem bounds_fill (h : total x' = total x) :
    (σ.fill x').map Region.bounds = (σ.fill x).map Region.bounds := by
  simp [Site.fill, Region.bounds, h]

structure Site.Rest (σ : Site) : Prop where
  before : ∀ r ∈ σ.before, List.IsChain Apart2 r.mid
  left : List.IsChain Apart2 σ.left
  right : List.IsChain Apart2 σ.right
  after : ∀ r ∈ σ.after, List.IsChain Apart2 r.mid

theorem prevAlloc_iff : σ.prevAlloc = true ↔ ∀ p ∈ σ.left.getLast?, p.alloc = true := by
  unfold Site.prevAlloc
  cases σ.left.getLast? <;> simp

theorem nextAlloc_iff : σ.next.alloc = true ↔ ∀ n ∈ σ.right.head?, n.alloc = true := by
  unfold Site.next
  cases σ.right <;> simp [guard]

theorem quiet_fill : Quiet (σ.fill (a :: x)) ↔
    σ.Rest ∧ List.IsChain Apart2 (a :: x) ∧ (σ.prevAlloc = true ∨ a.alloc = true) ∧
      (((a :: x).getLast (by simp)).alloc = true ∨ σ.next.alloc = true) := by
  have hleft : (∀ p ∈ σ.left.getLast?, Apart2 p a) ↔ σ.prevAlloc = true ∨ a.alloc = true := by
    rw [prevAlloc_iff]
    cases σ.left.getLast? <;> simp [Apart2]
  have hright : (∀ n ∈ σ.right.head?, Apart2 ((a :: x).getLast (by simp)) n) ↔
      ((a :: x).getLast (by simp)).alloc = true ∨ σ.next.alloc = true := by
    rw [nextAlloc_iff]
    cases σ.right.head? <;> simp [Apart2]
  have hmid : List.IsChain Apart2 (σ.left ++ (a :: x) ++ σ.right) ↔
      List.IsChain Apart2 σ.left ∧ List.IsChain Apart2 σ.right ∧
      List.IsChain Apart2 (a :: x) ∧ (σ.prevAlloc = true ∨ a.alloc = true) ∧
      (((a :: x).getLast (by simp)).alloc = true ∨ σ.next.alloc = true) := by
    rw [← hleft, ← hright, List.append_assoc, List.isChain_append, List.isChain_append,
      List.getLast?_eq_some_getLast (List.cons_ne_nil a x)]
    simp only [List.cons_append, List.head?_cons, Option.mem_def, Option.some.injEq,
      forall_eq']
    tauto
  constructor
  · intro h
    obtain ⟨h1, h2, h3⟩ := hmid.mp (h _ (σ.region_mem _))
    refine ⟨⟨fun r hr => h r ?_, h1, h2, fun r hr => h r ?_⟩, h3⟩
    · simp [Site.fill, hr]
    · simp [Site.fill, hr]
  · rintro ⟨⟨h1, h2, h3, h4⟩, h5⟩ r hr
    simp only [Site.fill, List.mem_append, List.mem_cons] at hr
    rcases hr with hr | rfl | hr
    · exact h1 r hr
    · exact hmid.mpr ⟨h2, h3, h5⟩
    · exact h4 r hr

theorem quiet_one : Quiet (σ.fill [c]) ↔
    σ.Rest ∧ (σ.prevAlloc = true ∨ c.alloc = true) ∧ (c.alloc = true ∨ σ.next.alloc = true) := by
  rw [quiet_fill]
  simp

structure Site.GranRest (σ : Site) : Prop where
  before : ∀ r ∈ σ.before, ∀ c ∈ r.mid, c.size % 16 = 0
  left : ∀ c ∈ σ.left, c.size % 16 = 0
  right : ∀ c ∈ σ.right, c.size % 16 = 0
  after : ∀ r ∈ σ.after, ∀ c ∈ r.mid, c.size % 16 = 0

theorem gran_fill : Gran (σ.fill x) ↔ σ.GranRest ∧ ∀ c ∈ x, c.size % 16 = 0 := by
  constructor
  · intro h
    have hm := h _ (σ.region_mem x)
    simp only [List.mem_append] at hm
    refine ⟨⟨fun r hr => h r ?_, fun c hc => hm c (.inl (.inl hc)), fun c hc => hm c (.inr hc),
      fun r hr => h r ?_⟩, fun c hc => hm c (.inl (.inr hc))⟩
    · simp [Site.fill, hr]
    · simp [Site.fill, hr]
  · rintro ⟨⟨h1, h2, h3, h4⟩, h5⟩ r hr
    simp only [Site.fill, List.mem_append, List.mem_cons] at hr
    rcases hr with hr | rfl | hr
    · exact h1 r hr
    · intro c hc
      simp only [List.mem_append] at hc
      rcases hc with (hc | hc) | hc
      · exact h2 c hc
      · exact h5 c hc
      · exact h3 c hc
    · exact h4 r hr

theorem place_one_alloc {a : Nat} :
    u ∈ place a [(⟨n, true⟩ : Chunk)] ↔ some (a, (⟨n, true⟩ : Chunk)) = some u := by
  rw [place_cons, place_nil, List.mem_singleton, Option.some.injEq, eq_comm]

theorem place_one_free {a : Nat} (ha : u.2.alloc = true) :
    u ∉ place a [(⟨n, false⟩ : Chunk)] := by
  rw [place_cons, place_nil, List.mem_singleton]
  rintro rfl
  cases ha

end

section

variable {g : Nat} {σ : Site} {c s : Nat}

def carved (c s : Nat) : Chunk := ⟨if c - s ≥ 16 then s else c, true⟩

theorem carve_edit (h : s ≤ c) :
    Edit (σ.fill [⟨c, false⟩]) (σ.fill (carve c s)) none (some (σ.addr, carved c s)) := by
  refine ⟨bounds_fill (by rw [total_carve h]; rfl), fun u ha => ?_⟩
  have hcarve : u ∈ place σ.addr (carve c s) ↔ some (σ.addr, carved c s) = some u := by
    unfold carve carved
    rw [Option.some.injEq, eq_comm]
    split
    · simp only [place_cons, place_nil, List.mem_cons, List.not_mem_nil, or_false, or_iff_left_iff_imp]
      rintro rfl
      cases ha
    · simp only [place_cons, place_nil, List.mem_singleton]
  rw [Site.mem_blocks_fill, Site.mem_blocks_fill, total_carve h, hcarve]
  simp only [place_one_free ha, false_or, ne_eq, reduceCtorEq, not_false_eq_true, and_true, total_cons,
    total_nil, Nat.add_zero]
  exact or_comm

theorem carve_quiet (h : Quiet (σ.fill [⟨c, false⟩])) : Quiet (σ.fill (carve c s)) := by
  obtain ⟨hrest, hp, hn⟩ := quiet_one.mp h
  have hn' : σ.next.alloc = true := by simpa using hn
  unfold carve
  split
  · rw [quiet_fill]
    exact ⟨hrest, by simp [Apart2], .inr rfl, .inr hn'⟩
  · rw [quiet_one]
    exact ⟨hrest, .inr rfl, .inl rfl⟩

theorem carve_gran (h : Gran (σ.fill [⟨c, false⟩])) (hs : s % 16 = 0) (hc : s ≤ c) :
    Gran (σ.fill (carve c s)) := by
  rw [gran_fill] at h ⊢
  have hc16 : c % 16 = 0 := h.2 _ (List.mem_singleton.mpr rfl)
  refine ⟨h.1, fun d hd => ?_⟩
  unfold carve at hd
  split at hd
  · simp only [List.mem_cons, List.not_mem_nil, or_false] at hd
    rcases hd with rfl | rfl
    · exact hs
    · dsimp only
      omega
  · rw [List.mem_singleton.mp hd]
    exact hc16

end

section

variable {g : Nat} {σ : Site} {c s : Nat}

theorem Site.mergeRight_rest (h : σ.Rest) (s : Nat) : (σ.mergeRight s).1.Rest ∧
    (σ.mergeRight s).1.next.alloc = true ∧ (σ.mergeRight s).1.prevAlloc = σ.prevAlloc := by
  rcases σ.next_cases with ⟨ha, hm⟩ | ⟨n, r, hright, _, hm⟩
  · rw [hm]
    exact ⟨h, ha, rfl⟩
  · have hr := h.right
    rw [hright, List.isChain_cons] at hr
    rw [hm]
    refine ⟨⟨h.before, h.left, hr.2, h.after⟩, ?_, rfl⟩
    rw [nextAlloc_iff]
    intro d hd
    have hnd : Apart2 ⟨n, false⟩ d := hr.1 d hd
    simpa [Apart2] using hnd

theorem Site.mergeLeft_rest (h : σ.Rest) (s : Nat) : (σ.mergeLeft s).1.Rest ∧
    (σ.mergeLeft s).1.prevAlloc = true ∧ (σ.mergeLeft s).1.next = σ.next := by
  rcases σ.prev_cases with ⟨ha, hm⟩ | ⟨p, l, hleft, _, _, hm⟩
  · rw [hm]
    exact ⟨h, ha, rfl⟩
  · have hl := h.left
    rw [hleft, List.isChain_append] at hl
    rw [hm]
    refine ⟨⟨h.before, hl.1, h.right, h.after⟩, ?_, rfl⟩
    rw [prevAlloc_iff]
    intro d hd
    have hdp : Apart2 d ⟨p, false⟩ := hl.2.2 d hd _ rfl
    simpa [Apart2] using hdp

theorem bounds_mergeRight (σ : Site) (s : Nat) (b : Bool) :
    ((σ.mergeRight s).1.fill [⟨(σ.mergeRight s).2, b⟩]).map Region.bounds =
      (σ.fill [⟨s, b⟩]).map Region.bounds := by
  rcases σ.next_cases with ⟨_, hm⟩ | ⟨n, r, hright, _, hm⟩
  · rw [hm]
  · rw [hm, σ.fill_right r _ hright]
    exact bounds_fill (by simp)

theorem bounds_mergeLeft (σ : Site) (s : Nat) (b : Bool) :
    ((σ.mergeLeft s).1.fill [⟨(σ.mergeLeft s).2, b⟩]).map Region.bounds =
      (σ.fill [⟨s, b⟩]).map Region.bounds := by
  rcases σ.prev_cases with ⟨_, hm⟩ | ⟨p, l, hleft, _, _, hm⟩
  · rw [hm]
  · rw [hm, σ.fill_left l _ hleft]
    exact bounds_fill (by simp)

theorem bounds_flag (σ : Site) (s : Nat) (b b' : Bool) :
    (σ.fill [⟨s, b⟩]).map Region.bounds = (σ.fill [⟨s, b'⟩]).map Region.bounds :=
  bounds_fill rfl

theorem merge_edit (L : Layout g (σ.fill [⟨s, true⟩])) :
    Edit (σ.fill [⟨s, true⟩]) ((σ.merge s).1.fill [⟨(σ.merge s).2, false⟩])
      (some (σ.addr, ⟨s, true⟩)) none := by
  have h8 : 8 ≤ s := (L.chunkOk (Site.mem_fill_one.mpr List.mem_cons_self)).pos
  refine ⟨?_, fun u ha => ?_⟩
  · rw [Site.merge, bounds_mergeLeft, bounds_mergeRight]
    exact bounds_flag σ s _ _
  · have hnot : (σ.addr, (⟨s, true⟩ : Chunk)) ∉ σ.others s :=
      L.not_others (Nat.le_refl _) (by simp only [total_cons, total_nil]; omega)
    have hothers : u ∈ (σ.merge s).1.others (total [⟨(σ.merge s).2, false⟩]) ↔ u ∈ σ.others s :=
      Site.mem_merge ha
    rw [Site.mem_blocks_fill, hothers, Site.mem_blocks_fill, place_one_alloc]
    simp only [place_one_free ha, false_or, reduceCtorEq, or_false]
    constructor
    · intro hu
      refine ⟨.inr hu, fun he => hnot ?_⟩
      rw [Option.some.inj he]
      exact hu
    · rintro ⟨he | hu, hne⟩
      · exact absurd he hne
      · exact hu

theorem merge_quiet (h : Quiet (σ.fill [⟨s, true⟩])) :
    Quiet ((σ.merge s).1.fill [⟨(σ.merge s).2, false⟩]) := by
  obtain ⟨hrest, _, _⟩ := quiet_one.mp h
  obtain ⟨h1, h2, _⟩ := Site.mergeRight_rest hrest s
  obtain ⟨h4, h5, h6⟩ := Site.mergeLeft_rest h1 (σ.mergeRight s).2
  rw [quiet_one]
  refine ⟨h4, .inl h5, .inr ?_⟩
  rw [Site.merge, h6]
  exact h2

theorem Site.mergeRight_gran (h : σ.GranRest) (hs : s % 16 = 0) :
    (σ.mergeRight s).1.GranRest ∧ (σ.mergeRight s).2 % 16 = 0 := by
  rcases σ.next_cases with ⟨_, hm⟩ | ⟨n, r, hright, _, hm⟩
  · rw [hm]
    exact ⟨h, hs⟩
  · have hr := h.right
    rw [hright] at hr
    have hn : n % 16 = 0 := hr _ List.mem_cons_self
    rw [hm]
    refine ⟨⟨h.before, h.left, fun d hd => hr d (List.mem_cons_of_mem _ hd), h.after⟩, ?_⟩
    dsimp only
    omega

theorem Site.mergeLeft_gran (h : σ.GranRest) (hs : s % 16 = 0) :
    (σ.mergeLeft s).1.GranRest ∧ (σ.mergeLeft s).2 % 16 = 0 := by
  rcases σ.prev_cases with ⟨_, hm⟩ | ⟨p, l, hleft, _, _, hm⟩
  · rw [hm]
    exact ⟨h, hs⟩
  · have hl := h.left
    rw [hleft] at hl
    have hp : p % 16 = 0 := hl _ (List.mem_append_right _ (List.mem_singleton.mpr rfl))
    rw [hm]
    refine ⟨⟨h.before, fun d hd => hl d (List.mem_append_left _ hd), h.right, h.after⟩, ?_⟩
    dsimp only
    omega

theorem merge_gran (h : Gran (σ.fill [⟨s, true⟩])) :
    Gran ((σ.merge s).1.fill [⟨(σ.merge s).2, false⟩]) := by
  obtain ⟨hrest, hs⟩ := gran_fill.mp h
  obtain ⟨h1, h2⟩ := Site.mergeRight_gran hrest (hs _ (List.mem_singleton.mpr rfl))
  obtain ⟨h3, h4⟩ := Site.mergeLeft_gran h1 h2
  rw [gran_fill]
  refine ⟨h3, fun d hd => ?_⟩
  rw [List.mem_singleton.mp hd]
  exact h4

end

section

variable {g : Nat} {σ : Site} {c s t : Nat}

/-- The chunk that `mm_shrinkchunk` leaves to the block. -/
def Site.shrunk (σ : Site) (c s : Nat) : Chunk :=
  ⟨if s + 16 ≤ (σ.mergeRight c).2 then s else c, true⟩

theorem Edit.of_same {rs : List Region} {u : Nat × Chunk} (hu : u ∈ blocks rs) :
    Edit rs rs (some u) (some u) where
  bounds := rfl
  alloc v _ := by
    constructor
    · intro hv
      by_cases he : u = v
      · exact .inr (congrArg some he)
      · exact .inl ⟨hv, fun h => he (Option.some.inj h)⟩
    · rintro (⟨hv, _⟩ | he)
      · exact hv
      · rw [← Option.some.inj he]
        exact hu

theorem Edit.of_site {x : List Chunk} {new : Nat × Chunk} {σ' : Site}
    (L : Layout g (σ.fill [⟨c, true⟩]))
    (hb : (σ'.fill x).map Region.bounds = (σ.fill [⟨c, true⟩]).map Region.bounds)
    (hx : ∀ u, u.2.alloc = true → (u ∈ place σ'.addr x ↔ new = u))
    (ho : ∀ u, u.2.alloc = true → (u ∈ σ'.others (total x) ↔ u ∈ σ.others c)) :
    Edit (σ.fill [⟨c, true⟩]) (σ'.fill x) (some (σ.addr, ⟨c, true⟩)) (some new) := by
  have h8 : 8 ≤ c := (L.chunkOk (Site.mem_fill_one.mpr List.mem_cons_self)).pos
  have hnot : (σ.addr, (⟨c, true⟩ : Chunk)) ∉ σ.others c :=
    L.not_others (Nat.le_refl _) (by simp only [total_cons, total_nil]; omega)
  refine ⟨hb, fun u ha => ?_⟩
  rw [Site.mem_blocks_fill, hx u ha, ho u ha, Site.mem_fill_one, List.mem_cons]
  simp only [ne_eq, Option.some.injEq]
  constructor
  · rintro (h | h)
    · exact .inr h
    · refine .inl ⟨.inr h, fun he => hnot ?_⟩
      rw [he]
      exact h
  · rintro (⟨h | h, hne⟩ | h)
    · exact absurd h.symm hne
    · exact .inr h
    · exact .inl h

theorem shrink_edit (L : Layout g (σ.fill [⟨c, true⟩])) (s : Nat) :
    Edit (σ.fill [⟨c, true⟩]) (σ.shrink c s) (some (σ.addr, ⟨c, true⟩))
      (some (σ.addr, σ.shrunk c s)) := by
  unfold Site.shrink Site.shrunk
  by_cases hrem : s + 16 ≤ (σ.mergeRight c).2
  · rw [if_pos hrem, if_pos hrem]
    have ht : total [⟨s, true⟩, ⟨(σ.mergeRight c).2 - s, false⟩] = (σ.mergeRight c).2 := by
      simp only [total_cons, total_nil]
      omega
    apply Edit.of_site L
    · rw [← bounds_mergeRight σ c true]
      exact bounds_fill (by rw [ht]; rfl)
    · intro u ha
      simp only [place_cons, place_nil, List.mem_cons, List.not_mem_nil, or_false,
        Site.mergeRight_addr]
      constructor
      · rintro (rfl | rfl)
        · rfl
        · cases ha
      · rintro rfl
        exact .inl rfl
    · intro u ha
      rw [ht]
      exact Site.mem_mergeRight ha
  · rw [if_neg hrem, if_neg hrem]
    exact Edit.of_same (Site.mem_fill_one.mpr List.mem_cons_self)

theorem shrink_quiet (h : Quiet (σ.fill [⟨c, true⟩])) : Quiet (σ.shrink c s) := by
  unfold Site.shrink
  split
  · obtain ⟨hrest, _, _⟩ := quiet_one.mp h
    obtain ⟨h1, h2, _⟩ := Site.mergeRight_rest hrest c
    rw [quiet_fill]
    exact ⟨h1, by simp [Apart2], .inr rfl, .inr h2⟩
  · exact h

theorem shrink_gran (h : Gran (σ.fill [⟨c, true⟩])) (hs : s % 16 = 0) : Gran (σ.shrink c s) := by
  unfold Site.shrink
  split
  · rename_i hrem
    obtain ⟨hrest, hc⟩ := gran_fill.mp h
    have hc16 : c % 16 = 0 := hc _ (List.mem_singleton.mpr rfl)
    obtain ⟨h1, h2⟩ := Site.mergeRight_gran hrest hc16
    rw [gran_fill]
    refine ⟨h1, fun d hd => ?_⟩
    simp only [List.mem_cons, List.not_mem_nil, or_false] at hd
    rcases hd with rfl | rfl
    · exact hs
    · dsimp only
      omega
  · exact h

end

section

variable {g : Nat} {σ : Site} {c t : Nat} {takes : Nat × Nat}

theorem Site.takeLeft_of_alloc (h : σ.prevAlloc = true) (t : Nat) : σ.takeLeft t = σ := by
  unfold Site.prevAlloc at h
  unfold Site.takeLeft
  rcases hl : σ.left.getLast? with _ | ⟨p, b⟩
  · rfl
  · rw [hl] at h
    have hb : b = true := h
    rw [hb]

theorem Site.takeRight_of_alloc (h : σ.next.alloc = true) (t : Nat) : σ.takeRight t = σ := by
  unfold Site.next at h
  unfold Site.takeRight
  rcases hr : σ.right with _ | ⟨⟨n, b⟩, r⟩
  · rfl
  · rw [hr] at h
    have hb : b = true := h
    rw [hb]

/-- What taking `t` bytes from one neighbour keeps of the rest of the heap. -/
structure Site.Taken (σ τ : Site) (c t : Nat) : Prop where
  bounds : (τ.fill [⟨c + t, true⟩]).map Region.bounds = (σ.fill [⟨c, true⟩]).map Region.bounds
  others : ∀ u : Nat × Chunk, u.2.alloc = true → (u ∈ τ.others (c + t) ↔ u ∈ σ.others c)
  rest : σ.Rest → τ.Rest
  gran : t % 16 = 0 → σ.GranRest → τ.GranRest

theorem Site.Taken.zero (σ : Site) (c : Nat) : σ.Taken σ c 0 :=
  ⟨rfl, fun _ _ => Iff.rfl, id, fun _ => id⟩

theorem Site.takeLeft_taken (c : Nat) (ht : t ≤ σ.prevFree) : σ.Taken (σ.takeLeft t) c t := by
  unfold Site.prevFree at ht
  rcases σ.prev_cases with ⟨ha, _⟩ | ⟨p, l, hleft, ha, hp, _⟩
  · rw [if_pos ha, Nat.le_zero] at ht
    rw [Site.takeLeft_of_alloc ha, ht]
    exact .zero σ c
  · rw [ha, if_neg (by simp), hp] at ht
    refine ⟨?_, fun u hu => Site.mem_takeLeft hleft ht hu, fun h => ?_, fun ht16 h => ?_⟩
    · rw [Site.takeLeft_eq hleft, σ.fill_left l _ hleft]
      simp only [Site.fill, Region.bounds, List.map_append, List.map_cons, total_append,
        total_cons, total_nil]
      by_cases hlt : t < p
      · simp only [if_pos hlt, total_cons, total_nil]
        congr 4
        omega
      · simp only [if_neg hlt, total_nil]
        congr 4
        omega
    · have hl := h.left
      rw [hleft, List.isChain_append] at hl
      rw [Site.takeLeft_eq hleft]
      refine ⟨h.before, List.isChain_append.mpr ⟨hl.1, ?_, fun x hx y hy => ?_⟩, h.right, h.after⟩
      · split <;> simp
      · have hxp := hl.2.2 x hx _ rfl
        split at hy
        · simp only [List.head?_cons, Option.mem_def, Option.some.injEq] at hy
          subst hy
          exact hxp
        · cases hy
    · have hl := h.left
      rw [hleft] at hl
      have hp16 : p % 16 = 0 := hl _ (List.mem_append_right _ (List.mem_singleton.mpr rfl))
      rw [Site.takeLeft_eq hleft]
      refine ⟨h.before, fun d hd => ?_, h.right, h.after⟩
      rcases List.mem_append.mp hd with hd | hd
      · exact hl d (List.mem_append_left _ hd)
      · split at hd
        · rw [List.mem_singleton.mp hd]
          dsimp only
          omega
        · cases hd

theorem Site.takeRight_taken (c : Nat) (ht : t ≤ σ.nextFree) :
    σ.Taken (σ.takeRight t) c t := by
  unfold Site.nextFree at ht
  rcases σ.next_cases with ⟨ha, _⟩ | ⟨n, r, hright, hn, _⟩
  · rw [if_pos ha, Nat.le_zero] at ht
    rw [Site.takeRight_of_alloc ha, ht]
    exact .zero σ c
  · rw [hn, if_neg (by simp)] at ht
    dsimp only at ht
    refine ⟨?_, fun u hu => Site.mem_takeRight hright ht hu, fun h => ?_, fun ht16 h => ?_⟩
    · rw [Site.takeRight_eq hright, σ.fill_right r _ hright]
      simp only [Site.fill, Region.bounds, List.map_append, List.map_cons, total_append,
        total_cons, total_nil]
      by_cases hlt : t < n
      · simp only [if_pos hlt, total_cons, total_nil]
        congr 4
        omega
      · simp only [if_neg hlt, total_nil]
        congr 4
        omega
    · have hr := h.right
      rw [hright, List.isChain_cons] at hr
      rw [Site.takeRight_eq hright]
      refine ⟨h.before, h.left, List.isChain_append.mpr ⟨?_, hr.2, fun x hx y hy => ?_⟩, h.after⟩
      · split <;> simp
      · split at hx
        · simp only [List.getLast?_singleton, Option.mem_def, Option.some.injEq] at hx
          subst hx
          exact hr.1 y hy
        · cases hx
    · have hr := h.right
      rw [hright] at hr
      have hn16 : n % 16 = 0 := hr _ List.mem_cons_self
      rw [Site.takeRight_eq hright]
      refine ⟨h.before, h.left, fun d hd => ?_, h.after⟩
      rcases List.mem_append.mp hd with hd | hd
      · split at hd
        · rw [List.mem_singleton.mp hd]
          dsimp only
          omega
        · cases hd
      · exact hr d (List.mem_cons_of_mem _ hd)

/-- The chunk a block has after it grew by `takes`. -/
def Site.extended (σ : Site) (takes : Nat × Nat) (c : Nat) : Nat × Chunk :=
  ((σ.takeLeft takes.1).addr, ⟨c + takes.1 + takes.2, true⟩)

theorem extend_edit (L : Layout g (σ.fill [⟨c, true⟩])) (h1 : takes.1 ≤ σ.prevFree)
    (h2 : takes.2 ≤ σ.nextFree) :
    Edit (σ.fill [⟨c, true⟩]) (σ.extend takes c) (some (σ.addr, ⟨c, true⟩))
      (some (σ.extended takes c)) := by
  have hl := Site.takeLeft_taken c h1
  have hr := Site.takeRight_taken (c + takes.1) ((σ.nextFree_takeLeft takes.1).symm ▸ h2)
  apply Edit.of_site L
  · exact hr.bounds.trans hl.bounds
  · intro u _
    rw [place_one_alloc, Site.takeRight_addr, Option.some.injEq]
    rfl
  · exact fun u ha => (hr.others u ha).trans (hl.others u ha)

theorem extend_quiet (h : Quiet (σ.fill [⟨c, true⟩])) (h1 : takes.1 ≤ σ.prevFree)
    (h2 : takes.2 ≤ σ.nextFree) : Quiet (σ.extend takes c) := by
  have hl := Site.takeLeft_taken c h1
  have hr := Site.takeRight_taken (c + takes.1) ((σ.nextFree_takeLeft takes.1).symm ▸ h2)
  exact quiet_one.mpr ⟨hr.rest (hl.rest (quiet_one.mp h).1), .inr rfl, .inl rfl⟩

theorem extend_gran (h : Gran (σ.fill [⟨c, true⟩])) (h1 : takes.1 ≤ σ.prevFree)
    (h2 : takes.2 ≤ σ.nextFree) (h1' : takes.1 % 16 = 0) (h2' : takes.2 % 16 = 0) :
    Gran (σ.extend takes c) := by
  have hl := Site.takeLeft_taken c h1
  have hr := Site.takeRight_taken (c + takes.1) ((σ.nextFree_takeLeft takes.1).symm ▸ h2)
  obtain ⟨hrest, hc⟩ := gran_fill.mp h
  have hc16 : c % 16 = 0 := hc _ (List.mem_singleton.mpr rfl)
  refine gran_fill.mpr ⟨hr.gran h2' (hl.gran h1' hrest), fun d hd => ?_⟩
  rw [List.mem_singleton.mp hd]
  dsimp only
  omega

theorem Site.prevFree_gran (h : σ.GranRest) : σ.prevFree % 16 = 0 := by
  unfold Site.prevFree
  rcases σ.prev_cases with ⟨ha, _⟩ | ⟨p, l, hleft, ha, hp, _⟩
  · rw [if_pos ha]
  · have hl := h.left
    rw [hleft] at hl
    rw [ha, if_neg (by simp), hp]
    exact hl ⟨p, false⟩ (List.mem_append_right _ (List.mem_singleton.mpr rfl))

theorem Site.nextFree_gran (h : σ.GranRest) : σ.nextFree % 16 = 0 := by
  unfold Site.nextFree
  rcases σ.next_cases with ⟨ha, _⟩ | ⟨n, r, hright, hn, _⟩
  · rw [if_pos ha]
  · have hr := h.right
    rw [hright] at hr
    rw [hn, if_neg (by simp)]
    exact hr ⟨n, false⟩ List.mem_cons_self

end

section

variable {g : Nat} {σ : Site} {s t : Nat}

theorem front_edit (L : Layout g (σ.fill [⟨s + t, true⟩])) :
    Edit (σ.fill [⟨s + t, true⟩]) (σ.fill [⟨s, false⟩, ⟨t, true⟩])
      (some (σ.addr, ⟨s + t, true⟩)) (some (σ.addr + s, ⟨t, true⟩)) := by
  apply Edit.of_site L
  · exact bounds_fill rfl
  · intro u ha
    simp only [place_cons, place_nil, List.mem_cons, List.not_mem_nil, or_false]
    constructor
    · rintro (rfl | rfl)
      · cases ha
      · rfl
    · rintro rfl
      exact .inr rfl
  · exact fun u _ => Iff.rfl

end

end NuttxAvr32.Mm
