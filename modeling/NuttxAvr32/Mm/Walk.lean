import NuttxAvr32.Mm.Regions

/-! # Walking the regions

From `g_heapstart` on, `node->size` leads from chunk to chunk. `walk` lists the
nodes met on the way; `mallinfo` adds up their sizes.
-/

namespace NuttxAvr32.Mm

open ByteMemory

/-- The nodes from `node` to `heapend`, both included. Fails where the sizes do
not lead exactly to `heapend`. -/
def walk (m : Memory) (heapend : Nat) : Nat → Nat → Option (List Nat)
  | 0, _ => none
  | fuel + 1, node =>
    if node < heapend then (walk m heapend fuel (node + nodeSize m node)).map (node :: ·)
    else if node = heapend then some [node] else none

def Heap.nodes (h : Heap) : List Nat :=
  h.regions.flatMap fun b => (walk h.mem b.2 loopBound b.1).getD []

/-- `(preceding & ~MM_ALLOC_BIT)` of a node is the size of the one before. -/
def Follows (m : Memory) (x y : Nat) : Prop := clearAlloc (preceding m y) = nodeSize m x

instance (m : Memory) : DecidableRel (Follows m) := fun _ _ => inferInstanceAs (Decidable (_ = _))

def IsFree (m : Memory) (x : Nat) : Prop := isAllocated (preceding m x) = false

instance (m : Memory) : DecidablePred (IsFree m) := fun _ => inferInstanceAs (Decidable (_ = _))

section

variable {m : Memory} {p a : Nat} {c : Chunk} {cs : List Chunk}

theorem total_pos (h : ∀ c ∈ cs, 8 ≤ c.size) : 8 * cs.length ≤ total cs := by
  induction cs with
  | nil => exact Nat.le_refl 0
  | cons c cs ih =>
    have h1 := h c List.mem_cons_self
    have h2 := ih fun d hd => h d (List.mem_cons_of_mem _ hd)
    rw [List.length_cons, total_cons]
    omega

theorem walk_eq {fuel : Nat} (h : Tiles m p a (cs ++ [guard])) (hpos : ∀ c ∈ cs, 8 ≤ c.size)
    (hf : cs.length < fuel) :
    walk m (a + total cs) fuel a = some ((place a (cs ++ [guard])).map Prod.fst) := by
  induction cs generalizing fuel p a with
  | nil =>
    obtain ⟨fuel, rfl⟩ : ∃ k, fuel = k + 1 := ⟨fuel - 1, by simp at hf; omega⟩
    simp [walk]
  | cons c cs ih =>
    obtain ⟨fuel, rfl⟩ : ∃ k, fuel = k + 1 := ⟨fuel - 1, by simp at hf; omega⟩
    obtain ⟨hsize, _, hrest⟩ := h
    have hc := hpos c List.mem_cons_self
    have hnext : walk m (a + c.size + total cs) fuel (a + c.size) = _ :=
      ih hrest (fun d hd => hpos d (List.mem_cons_of_mem _ hd)) (by simpa using hf)
    have htot : a + total (c :: cs) = a + c.size + total cs := by
      rw [total_cons]
      omega
    rw [walk, if_pos (by rw [htot]; omega), hsize, htot, hnext]
    rfl

theorem Tiles.follows (h : Tiles m p a cs) (hlt : ∀ c ∈ cs, c.size < 2 ^ 31) :
    ((place a cs).map Prod.fst).IsChain (Follows m) := by
  induction cs generalizing p a with
  | nil => exact List.isChain_nil
  | cons c cs ih =>
    obtain ⟨hsize, _, hrest⟩ := h
    have hc := hlt c List.mem_cons_self
    have htail := ih hrest fun d hd => hlt d (List.mem_cons_of_mem _ hd)
    rw [place_cons, List.map_cons, List.isChain_cons]
    refine ⟨fun y hy => ?_, htail⟩
    cases cs with
    | nil => cases hy
    | cons d ds =>
      obtain ⟨_, hprec, _⟩ := hrest
      cases hy
      show clearAlloc (preceding m (a + c.size)) = nodeSize m a
      rw [hprec, hsize, clearAlloc_precWord hc]
      exact precWord_false _

theorem Tiles.alloc (h : Tiles m p a cs) (hp : p < 2 ^ 31) (hlt : ∀ c ∈ cs, c.size < 2 ^ 31)
    {u : Nat × Chunk} (hu : u ∈ place a cs) : isAllocated (preceding m u.1) = u.2.alloc := by
  induction cs generalizing p a with
  | nil => cases hu
  | cons c cs ih =>
    obtain ⟨_, hprec, hrest⟩ := h
    rcases List.mem_cons.mp hu with rfl | hu
    · rw [hprec]
      exact isAllocated_precWord hp
    · exact ih hrest (hlt c List.mem_cons_self) (fun d hd => hlt d (List.mem_cons_of_mem _ hd)) hu

end

section

variable {g : Nat} {m : Memory} {h : Heap} {rs : List Region} {r : Region}

theorem RegionOk.chunk_bounds (hr : RegionOk r) {c : Chunk} (hc : c ∈ r.chunks) :
    8 ≤ c.size ∧ c.size < 2 ^ 31 := by
  have hlt := hr.size_lt
  simp only [Region.chunks, List.cons_append, List.mem_cons, List.mem_append, List.not_mem_nil,
    or_false] at hc
  rcases hc with rfl | hc | rfl
  · decide
  · obtain ⟨l, t, he⟩ := List.append_of_mem hc
    have hpos := (hr.chunk c hc).pos
    rw [he, total_append, total_cons] at hlt
    omega
  · decide

theorem walk_region (T : Tiled m rs) (L : Layout g rs) (hr : r ∈ rs) :
    walk m r.bounds.2 loopBound r.bounds.1 = some ((place r.base r.chunks).map Prod.fst) := by
  have hok := L.ok r hr
  have hlen := total_pos fun c hc => (hok.chunk c hc).pos
  have hlt := hok.size_lt
  have hbound : r.bounds.2 = r.base + total (guard :: r.mid) := by
    show r.base + 8 + total r.mid = r.base + (8 + total r.mid)
    omega
  rw [hbound]
  apply walk_eq (p := 0) (T r hr)
  · intro c hc
    exact (hok.chunk_bounds (List.mem_append_left _ hc)).1
  · simp only [List.length_cons, loopBound]
    omega

theorem region_follows (T : Tiled m rs) (L : Layout g rs) (hr : r ∈ rs) :
    ((place r.base r.chunks).map Prod.fst).IsChain (Follows m) :=
  (T r hr).follows fun _ hc => ((L.ok r hr).chunk_bounds hc).2

theorem region_alloc (T : Tiled m rs) (L : Layout g rs) (hr : r ∈ rs) {u : Nat × Chunk}
    (hu : u ∈ place r.base r.chunks) : isAllocated (preceding m u.1) = u.2.alloc :=
  (T r hr).alloc (by decide) (fun _ hc => ((L.ok r hr).chunk_bounds hc).2) hu

theorem region_free (T : Tiled m rs) (L : Layout g rs) (hr : r ∈ rs) {x : Nat} :
    x ∈ (place r.base r.chunks).map Prod.fst ∧ IsFree m x ↔
      (x, (⟨nodeSize m x, false⟩ : Chunk)) ∈ r.blocks := by
  have hmem : ∀ u, u ∈ place r.base r.chunks ↔ u = (r.base, guard) ∨ u ∈ r.blocks ∨
      u = (r.base + 8 + total r.mid, guard) := fun u => by
    rw [place_chunks]
    simp
  constructor
  · rintro ⟨hx, hfree⟩
    obtain ⟨u, hu, rfl⟩ := List.mem_map.mp hx
    have ha := region_alloc T L hr hu
    have hs := (T r hr).header hu
    rw [IsFree, ha] at hfree
    rcases (hmem u).mp hu with rfl | hb | rfl
    · cases hfree
    · rw [hs, ← hfree]
      exact hb
    · cases hfree
  · intro hb
    have hu := (hmem _).mpr (.inr (.inl hb))
    have ha := region_alloc T L hr hu
    exact ⟨List.mem_map.mpr ⟨_, hu, rfl⟩, ha⟩

theorem HeapRep.walk (H : HeapRep h rs) {b : Nat × Nat} (hb : b ∈ h.regions) :
    ∃ r ∈ rs, b = r.bounds ∧
      Mm.walk h.mem b.2 loopBound b.1 = some ((place r.base r.chunks).map Prod.fst) := by
  rw [H.bounds] at hb
  obtain ⟨r, hr, rfl⟩ := List.mem_map.mp hb
  exact ⟨r, hr, rfl, walk_region H.rep.tiled H.rep.layout hr⟩

theorem HeapRep.mem_nodes (H : HeapRep h rs) {x : Nat} :
    x ∈ h.nodes ↔ ∃ r ∈ rs, x ∈ (place r.base r.chunks).map Prod.fst := by
  rw [Heap.nodes, List.mem_flatMap]
  constructor
  · rintro ⟨b, hb, hx⟩
    obtain ⟨r, hr, rfl, he⟩ := H.walk hb
    rw [he] at hx
    exact ⟨r, hr, hx⟩
  · rintro ⟨r, hr, hx⟩
    refine ⟨r.bounds, by rw [H.bounds]; exact List.mem_map_of_mem hr, ?_⟩
    rw [walk_region H.rep.tiled H.rep.layout hr]
    exact hx

theorem HeapRep.free_node (H : HeapRep h rs) {x : Nat} :
    x ∈ h.nodes ∧ IsFree h.mem x ↔ (x, (⟨nodeSize h.mem x, false⟩ : Chunk)) ∈ blocks rs := by
  rw [H.mem_nodes, mem_blocks]
  constructor
  · rintro ⟨⟨r, hr, hx⟩, hf⟩
    exact ⟨r, hr, (region_free H.rep.tiled H.rep.layout hr).mp ⟨hx, hf⟩⟩
  · rintro ⟨r, hr, hb⟩
    obtain ⟨hx, hf⟩ := (region_free H.rep.tiled H.rep.layout hr).mpr hb
    exact ⟨⟨r, hr, hx⟩, hf⟩

theorem HeapRep.free_block (H : HeapRep h rs) {a s : Nat}
    (hb : (a, (⟨s, false⟩ : Chunk)) ∈ blocks rs) :
    a ∈ h.nodes ∧ IsFree h.mem a ∧ nodeSize h.mem a = s := by
  have hs := H.rep.tiled.size hb
  dsimp only at hs
  have hb' : (a, (⟨nodeSize h.mem a, false⟩ : Chunk)) ∈ blocks rs := hs.symm ▸ hb
  have hn := H.free_node.mpr hb'
  exact ⟨hn.1, hn.2, hs⟩

end

section

def Mallinfo.count (info : Mallinfo) (c : Chunk) : Mallinfo :=
  if c.alloc then { info with uordblks := wrap (info.uordblks + c.size) }
  else
    { info with
      ordblks := info.ordblks + 1
      fordblks := wrap (info.fordblks + c.size)
      mxordblk := max info.mxordblk c.size }

variable {m : Memory} {p a : Nat} {cs : List Chunk} {info : Mallinfo} {rs : List Region}
  {g : Nat} {h : Heap}

theorem mallinfoWalk_eq {fuel : Nat} (T : Tiles m p a (cs ++ [guard])) (hp : p < 2 ^ 31)
    (hcs : ∀ c ∈ cs, 8 ≤ c.size ∧ c.size < 2 ^ 31) (hf : cs.length < fuel) :
    mallinfoWalk m (a + total cs) fuel a info = some (cs.foldl Mallinfo.count info) := by
  induction cs generalizing fuel p a info with
  | nil =>
    obtain ⟨fuel, rfl⟩ : ∃ k, fuel = k + 1 := ⟨fuel - 1, by simp at hf; omega⟩
    simp [mallinfoWalk]
  | cons c cs ih =>
    obtain ⟨fuel, rfl⟩ : ∃ k, fuel = k + 1 := ⟨fuel - 1, by simp at hf; omega⟩
    obtain ⟨hsize, hprec, hrest⟩ := T
    obtain ⟨hc, hlt⟩ := hcs c List.mem_cons_self
    have htot : a + total (c :: cs) = a + c.size + total cs := by
      rw [total_cons]
      omega
    have hnext : mallinfoWalk m (a + c.size + total cs) fuel (a + c.size) (info.count c) = _ :=
      ih hrest hlt (fun d hd => hcs d (List.mem_cons_of_mem _ hd)) (by simpa using hf)
    rw [mallinfoWalk, if_pos (by rw [htot]; omega), htot, hsize, hprec,
      isAllocated_precWord hp]
    exact hnext

theorem Mallinfo.count_sum (info : Mallinfo) (cs : List Chunk)
    (hw : info.uordblks + info.fordblks + total cs < 2 ^ 32) :
    (cs.foldl Mallinfo.count info).uordblks + (cs.foldl Mallinfo.count info).fordblks =
      info.uordblks + info.fordblks + total cs := by
  induction cs generalizing info with
  | nil => rfl
  | cons c cs ih =>
    rw [total_cons] at hw
    have hstep : (info.count c).uordblks + (info.count c).fordblks =
        info.uordblks + info.fordblks + c.size := by
      unfold Mallinfo.count wrap
      split
      · dsimp only
        omega
      · dsimp only
        omega
    rw [List.foldl_cons, ih _ (by omega), hstep, total_cons]
    omega

theorem Mallinfo.le_count_mxordblk (info : Mallinfo) (cs : List Chunk) :
    info.mxordblk ≤ (cs.foldl Mallinfo.count info).mxordblk := by
  induction cs generalizing info with
  | nil => exact Nat.le_refl _
  | cons c cs ih =>
    refine Nat.le_trans ?_ (ih (info.count c))
    unfold Mallinfo.count
    split
    · exact Nat.le_refl _
    · exact Nat.le_max_left _ _

theorem Mallinfo.count_mxordblk (info : Mallinfo) {c : Chunk} (hc : c ∈ cs) (ha : c.alloc = false) :
    c.size ≤ (cs.foldl Mallinfo.count info).mxordblk := by
  induction cs generalizing info with
  | nil => cases hc
  | cons d cs ih =>
    rcases List.mem_cons.mp hc with rfl | hc
    · refine Nat.le_trans ?_ (Mallinfo.le_count_mxordblk (info.count c) cs)
      rw [Mallinfo.count, if_neg (by simp [ha])]
      exact Nat.le_max_right _ _
    · exact ih _ hc

theorem mallinfoWalk_region (T : Tiled m rs) (L : Layout g rs) {r : Region} (hr : r ∈ rs) :
    mallinfoWalk m r.bounds.2 loopBound r.bounds.1 info =
      some ((guard :: r.mid).foldl Mallinfo.count info) := by
  have hok := L.ok r hr
  have hlen := total_pos fun c hc => (hok.chunk c hc).pos
  have hlt := hok.size_lt
  have hbound : r.bounds.2 = r.base + total (guard :: r.mid) := by
    show r.base + 8 + total r.mid = r.base + (8 + total r.mid)
    omega
  rw [hbound]
  apply mallinfoWalk_eq (p := 0) (T r hr) (by decide)
  · intro c hc
    exact hok.chunk_bounds (List.mem_append_left _ hc)
  · simp only [List.length_cons, loopBound]
    omega

theorem mallinfoRegions_spec (T : Tiled m rs) (L : Layout g rs) (info : Mallinfo)
    {ss : List Region} (hs : ∀ r ∈ ss, r ∈ rs) (hw : info.uordblks + info.fordblks + heapBytes ss < 2 ^ 32) :
    ∃ out, mallinfoRegions m (regionBounds ss) info = some out ∧
      out.uordblks + out.fordblks = info.uordblks + info.fordblks + heapBytes ss ∧
      info.mxordblk ≤ out.mxordblk ∧
      ∀ r ∈ ss, ∀ c ∈ r.mid, c.alloc = false → c.size ≤ out.mxordblk := by
  induction ss generalizing info with
  | nil =>
    refine ⟨info, rfl, rfl, Nat.le_refl _, ?_⟩
    intro r hr
    cases hr
  | cons r ss ih =>
    have hr := hs r List.mem_cons_self
    have hbytes : heapBytes (r :: ss) = total (guard :: r.mid) + 8 + heapBytes ss := by
      show r.stop - r.base + heapBytes ss = 8 + total r.mid + 8 + heapBytes ss
      unfold Region.stop
      omega
    rw [hbytes] at hw
    have hsum := Mallinfo.count_sum info (guard :: r.mid) (by rw [total_cons] at *; omega)
    obtain ⟨mid, hmid⟩ : ∃ i, (guard :: r.mid).foldl Mallinfo.count info = i := ⟨_, rfl⟩
    have hmx := Mallinfo.le_count_mxordblk info (guard :: r.mid)
    have hall : ∀ c ∈ r.mid, c.alloc = false →
        c.size ≤ ((guard :: r.mid).foldl Mallinfo.count info).mxordblk :=
      fun c hc => Mallinfo.count_mxordblk info (List.mem_cons_of_mem guard hc)
    rw [hmid] at hsum hmx hall
    have hwrap : wrap (mid.uordblks + sizeofMmAllocnode) = mid.uordblks + 8 :=
      Nat.mod_eq_of_lt (by simp only [sizeofMmAllocnode]; omega)
    obtain ⟨out, e, h1, h2, h3⟩ := ih { mid with uordblks := mid.uordblks + 8 }
      (fun r' hr' => hs r' (List.mem_cons_of_mem _ hr')) (by dsimp only; omega)
    dsimp only at h1 h2
    refine ⟨out, ?_, by omega, by omega, fun r' hr' c hc ha => ?_⟩
    · show (mallinfoWalk m r.bounds.2 loopBound r.bounds.1 info).bind _ = _
      rw [mallinfoWalk_region T L hr, hmid, Option.bind_some, hwrap]
      exact e
    · rcases List.mem_cons.mp hr' with rfl | hr'
      · exact Nat.le_trans (hall c hc ha) h2
      · exact h3 r' hr' c hc ha

theorem HeapRep.mallinfo (H : HeapRep h rs) :
    ∃ info, Mm.mallinfo h = some info ∧ info.uordblks + info.fordblks = h.gHeapsize ∧
      ∀ u ∈ blocks rs, u.2.alloc = false → u.2.size ≤ info.mxordblk := by
  have hlt := H.rep.layout.heapBytes_lt
  obtain ⟨out, e, h1, _, h3⟩ := mallinfoRegions_spec H.rep.tiled H.rep.layout
    ⟨h.gHeapsize, 0, 0, 0, 0⟩ (fun r hr => hr) (by dsimp only; omega)
  refine ⟨out, ?_, ?_, fun u hu ha => ?_⟩
  · rw [Mm.mallinfo, H.bounds]
    exact e
  · rw [H.size, h1]
    dsimp only
    omega
  · obtain ⟨r, hr, hur⟩ := mem_blocks.mp hu
    exact h3 r hr u.2 (mem_of_place hur) ha

end

end NuttxAvr32.Mm
