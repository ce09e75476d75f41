import NuttxAvr32.Mm.Walk
import NuttxAvr32.Lib.Runs

/-! # The program and its heap

The program calls the memory manager with pointers to blocks it holds and
writes into these blocks. A state is the heap with the list of the live blocks,
and every call that the program may make has one outcome: the blocks other than
the one given up stay, contents included.
-/

namespace NuttxAvr32.Mm

open ByteMemory Runs

inductive Call
  | mmAddregion (heapstart heapsize : Nat)
  | malloc (size : Nat)
  | zalloc (size : Nat)
  | calloc (n elemSize : Nat)
  | realloc (oldmem size : Nat)
  | memalign (alignment size : Nat)
  | free (mem : Nat)
  | write (mem i : Nat) (byte : UInt8)

def Heap.set (h : Heap) (r : Memory × Nat) : Heap × Nat := ({ h with mem := r.1 }, r.2)

/-- The heap after the call and the pointer it returns, `NULL` where it returns none. -/
def Call.run (h : Heap) : Call → Option (Heap × Nat)
  | mmAddregion heapstart heapsize => (Mm.mmAddregion h heapstart heapsize).map (·, 0)
  | malloc size => (Mm.malloc h.gNodelist h.mem size).map h.set
  | zalloc size => (Mm.zalloc h.gNodelist h.mem size).map h.set
  | calloc n elemSize => (Mm.calloc h.gNodelist h.mem n elemSize).map h.set
  | realloc oldmem size => (Mm.realloc h.gNodelist h.mem oldmem size).map h.set
  | memalign alignment size => (Mm.memalign h.gNodelist h.mem alignment size).map h.set
  | free mem => (Mm.free h.gNodelist h.mem mem).map fun m => h.set (m, 0)
  | write mem i byte => some (h.set (storeByte h.mem (mem + i) byte, 0))

/-- The block that the call gives up, `NULL` where it gives up none. -/
def Call.gone (ret : Nat) : Call → Nat
  | realloc oldmem size => if size ≠ 0 ∧ ret = 0 then 0 else oldmem
  | free mem => mem
  | _ => 0

def Heap.payload (h : Heap) (p : Nat) : Nat := nodeSize h.mem (p - sizeofMmAllocnode) - sizeofMmAllocnode

structure State where
  heap : Heap
  live : List Nat

/-- The calls the program may make: the pointer is a live block or `NULL`, the
sizes do not wrap, the alignment is a power of two and a new region is free memory. -/
def Call.valid (s : State) : Call → Prop
  | mmAddregion heapstart heapsize => AreaOk s.heap.gNodelist s.heap.regions heapstart heapsize
  | malloc size => size + 23 < 2 ^ 32
  | zalloc size => size + 23 < 2 ^ 32
  | calloc n elemSize => n * elemSize + 23 < 2 ^ 32
  | realloc oldmem size => (oldmem = 0 ∨ oldmem ∈ s.live) ∧ need size + 23 < 2 ^ 32
  | memalign alignment size =>
    alignment = 2 ^ alignment.log2 ∧ size + 15 + 2 * alignment + 23 < 2 ^ 32
  | free mem => mem = 0 ∨ mem ∈ s.live
  | write mem i _ => mem ∈ s.live ∧ i < s.heap.payload mem

instance (s : State) : DecidablePred (Call.valid s)
  | .mmAddregion _ _ => inferInstanceAs (Decidable (AreaOk _ _ _ _))
  | .malloc _ => inferInstanceAs (Decidable (_ < _))
  | .zalloc _ => inferInstanceAs (Decidable (_ < _))
  | .calloc _ _ => inferInstanceAs (Decidable (_ < _))
  | .realloc _ _ => inferInstanceAs (Decidable (_ ∧ _))
  | .memalign _ _ => inferInstanceAs (Decidable (_ ∧ _))
  | .free _ => inferInstanceAs (Decidable (_ ∨ _))
  | .write _ _ _ => inferInstanceAs (Decidable (_ ∧ _))

def State.after (s : State) (c : Call) (r : Heap × Nat) : State :=
  ⟨r.1, (if r.2 ≠ 0 then [r.2] else []) ++ s.live.filter (· ≠ c.gone r.2)⟩

def heapMachine : Machine State Call where
  valid s c := c.valid s
  exec s c := (c.run s.heap).map (s.after c)

instance (s : State) (c : Call) : Decidable (heapMachine.valid s c) :=
  inferInstanceAs (Decidable (c.valid s))

/-- The states in which `mm_initialize` leaves the heap. -/
def Started (s : State) : Prop :=
  ∃ m g heapstart heapsize, TableOk g ∧ AreaOk g [] heapstart heapsize ∧
    mmInitialize m g heapstart heapsize = some s.heap ∧ s.live = []

/-- The size of the chunk that `free` makes of the block at `p`. -/
def freedSize (m : Memory) (p : Nat) : Nat :=
  let node := p - sizeofMmAllocnode
  freePrevsize m node + (nodeSize m node + freeNextsize m node)

/-- What `realloc` leaves of the neighbours when the block at `p` grows in place. -/
def neighbourRests (m : Memory) (p size : Nat) : Nat × Nat :=
  let node := p - sizeofMmAllocnode
  let takes := reallocTakes (freePrevsize m node) (freeNextsize m node) (size - nodeSize m node)
  (freePrevsize m node - takes.1, freeNextsize m node - takes.2)

/-- The largest free chunk, as `mallinfo` reports it. -/
def largestFree (h : Heap) : Nat := ((mallinfo h).map Mallinfo.mxordblk).getD 0

/-- No free chunk of eight bytes comes into being: not by freeing a block of
eight bytes between allocated chunks, and not by growing into all but eight
bytes of a neighbour. -/
def Call.safe (h : Heap) : Call → Prop
  | free mem => mem ≠ 0 → sizeofMmFreenode ≤ freedSize h.mem mem
  | realloc oldmem size => oldmem ≠ 0 →
      if size = 0 then sizeofMmFreenode ≤ freedSize h.mem oldmem
      else nodeSize h.mem (oldmem - sizeofMmAllocnode) < need size →
        if need size ≤ freedSize h.mem oldmem then
          (neighbourRests h.mem oldmem (need size)).1 ≠ sizeofMmAllocnode ∧
            (neighbourRests h.mem oldmem (need size)).2 ≠ sizeofMmAllocnode
        else need (need size) ≤ largestFree h → sizeofMmFreenode ≤ freedSize h.mem oldmem
  | _ => True

def Call.IsMemalign : Call → Prop
  | memalign _ _ => True
  | _ => False

def Owned (rs : List Region) (p : Nat) : Prop :=
  ∃ a d, p = a + 8 ∧ (a, (⟨d, true⟩ : Chunk)) ∈ blocks rs

/-- What a call that gives up `gone` and returns `ret` does to the heap. -/
structure Outcome (h h' : Heap) (rs rs' : List Region) (gone ret : Nat) : Prop where
  heap : HeapRep h' rs'
  table : h'.gNodelist = h.gNodelist
  owned : ∀ p, Owned rs' p ↔ (Owned rs p ∧ p ≠ gone) ∨ (p = ret ∧ ret ≠ 0)
  kept : ∀ a d, (a, (⟨d, true⟩ : Chunk)) ∈ blocks rs → a + 8 ≠ gone →
    (a, (⟨d, true⟩ : Chunk)) ∈ blocks rs' ∧ ∀ x, a + 8 ≤ x → x < a + d → h'.mem x = h.mem x
  fresh : ret ≠ 0 → Owned rs ret → ret = gone

theorem heapBytes_bounds (rs : List Region) :
    heapBytes rs = ((regionBounds rs).map fun b => b.2 + 8 - b.1).sum := by
  rw [heapBytes, regionBounds, List.map_map]
  rfl

theorem HeapRep.set {h : Heap} {rs rs' : List Region} (H : HeapRep h rs) {m' : Memory}
    (R : Rep h.gNodelist m' rs') (hb : regionBounds rs' = regionBounds rs) :
    HeapRep { h with mem := m' } rs' := by
  refine ⟨R, ?_, ?_⟩
  · rw [hb]
    exact H.bounds
  · rw [heapBytes_bounds, hb, ← heapBytes_bounds]
    exact H.size

section

variable {h : Heap} {m' : Memory} {rs rs' : List Region} {a b c d : Nat}

theorem Effect.owned_kept {g : Nat} {m : Memory} {old new : Option (Nat × Chunk)}
    (E : Effect g m m' rs rs' old new) {u : Nat × Chunk} (hu : u ∈ blocks rs)
    (ha : u.2.alloc = true) (hne : old ≠ some u) : u ∈ blocks rs' :=
  (E.edit.alloc u ha).mpr (.inl ⟨hu, hne⟩)

theorem Effect.outcome_new (H : HeapRep h rs)
    (E : Effect h.gNodelist h.mem m' rs rs' none (some (a, ⟨d, true⟩)))
    (hf : ∀ e, (a, (⟨e, true⟩ : Chunk)) ∉ blocks rs) :
    Outcome h { h with mem := m' } rs rs' 0 (a + 8) := by
  refine ⟨H.set E.rep E.edit.bounds, rfl, fun p => ?_, fun b e hb _ => ?_, ?_⟩
  · constructor
    · rintro ⟨b, e, rfl, hb⟩
      rcases (E.edit.alloc _ rfl).mp hb with ⟨hb, _⟩ | he
      · exact .inl ⟨⟨b, e, rfl, hb⟩, by omega⟩
      · cases he
        exact .inr ⟨rfl, by omega⟩
    · rintro (⟨⟨b, e, rfl, hb⟩, _⟩ | ⟨rfl, _⟩)
      · exact ⟨b, e, rfl, E.owned_kept hb rfl (by simp)⟩
      · exact ⟨a, d, rfl, (E.edit.alloc _ rfl).mpr (.inr rfl)⟩
  · exact ⟨E.owned_kept hb rfl (by simp), E.kept (b, ⟨e, true⟩) hb rfl (by simp)⟩
  · rintro _ ⟨x, e, hx, hb⟩
    cases (Nat.add_right_cancel hx : a = x)
    exact absurd hb (hf e)

theorem some_ne_of_add {x e : Nat} (hx : x + 8 ≠ b + 8) :
    some (b, (⟨c, true⟩ : Chunk)) ≠ some (x, ⟨e, true⟩) := by
  intro he
  cases he
  exact hx rfl

theorem Effect.outcome_old (H : HeapRep h rs) (hold : (b, (⟨c, true⟩ : Chunk)) ∈ blocks rs)
    (E : Effect h.gNodelist h.mem m' rs rs' (some (b, ⟨c, true⟩)) none) :
    Outcome h { h with mem := m' } rs rs' (b + 8) 0 := by
  refine ⟨H.set E.rep E.edit.bounds, rfl, fun p => ?_, fun x e hx hxb => ?_,
    fun h0 => absurd rfl h0⟩
  · constructor
    · rintro ⟨x, e, rfl, hx⟩
      rcases (E.edit.alloc _ rfl).mp hx with ⟨hx, ho⟩ | he
      · refine .inl ⟨⟨x, e, rfl, hx⟩, fun hxb => ho ?_⟩
        rw [H.rep.layout.blocks_addr hold hx (by dsimp only; omega)]
      · cases he
    · rintro (⟨⟨x, e, rfl, hx⟩, hxb⟩ | ⟨_, h0⟩)
      · exact ⟨x, e, rfl, E.owned_kept hx rfl (some_ne_of_add hxb)⟩
      · exact absurd rfl h0
  · exact ⟨E.owned_kept hx rfl (some_ne_of_add hxb), E.kept (x, ⟨e, true⟩) hx rfl (some_ne_of_add hxb)⟩

theorem Effect.outcome_move (H : HeapRep h rs) (hold : (b, (⟨c, true⟩ : Chunk)) ∈ blocks rs)
    (E : Effect h.gNodelist h.mem m' rs rs' (some (b, ⟨c, true⟩)) (some (a, ⟨d, true⟩)))
    (hf : ∀ e, (a, (⟨e, true⟩ : Chunk)) ∈ blocks rs → a = b) :
    Outcome h { h with mem := m' } rs rs' (b + 8) (a + 8) := by
  refine ⟨H.set E.rep E.edit.bounds, rfl, fun p => ?_, fun x e hx hxb => ?_, ?_⟩
  · constructor
    · rintro ⟨x, e, rfl, hx⟩
      rcases (E.edit.alloc _ rfl).mp hx with ⟨hx, ho⟩ | he
      · refine .inl ⟨⟨x, e, rfl, hx⟩, fun hxb => ho ?_⟩
        rw [H.rep.layout.blocks_addr hold hx (by dsimp only; omega)]
      · cases he
        exact .inr ⟨rfl, by omega⟩
    · rintro (⟨⟨x, e, rfl, hx⟩, hxb⟩ | ⟨rfl, _⟩)
      · exact ⟨x, e, rfl, E.owned_kept hx rfl (some_ne_of_add hxb)⟩
      · exact ⟨a, d, rfl, (E.edit.alloc _ rfl).mpr (.inr rfl)⟩
  · exact ⟨E.owned_kept hx rfl (some_ne_of_add hxb), E.kept (x, ⟨e, true⟩) hx rfl (some_ne_of_add hxb)⟩
  · rintro _ ⟨x, e, hx, hb⟩
    cases (Nat.add_right_cancel hx : a = x)
    rw [hf e hb]

theorem Outcome.refl (H : HeapRep h rs) : Outcome h h rs rs 0 0 := by
  refine ⟨H, rfl, fun p => ?_, fun x e hx _ => ⟨hx, fun _ _ _ => rfl⟩, fun h0 => absurd rfl h0⟩
  constructor
  · rintro ⟨x, e, rfl, hx⟩
    exact .inl ⟨⟨x, e, rfl, hx⟩, by omega⟩
  · rintro (⟨ho, _⟩ | ⟨_, h0⟩)
    · exact ho
    · exact absurd rfl h0

end

section

variable {h : Heap} {rs : List Region} {n : Nat}

theorem Effect.fill {g : Nat} {m m₁ m₂ : Memory} {rs' : List Region} {a d : Nat}
    (E : Effect g m m₁ rs rs' none (some (a, ⟨d, true⟩)))
    (hu : (a, (⟨d, true⟩ : Chunk)) ∉ blocks rs)
    (hf : ∀ x, x < a + 8 ∨ a + d ≤ x → m₂ x = m₁ x) :
    Effect g m m₂ rs rs' none (some (a, ⟨d, true⟩)) := by
  have hnew : (a, (⟨d, true⟩ : Chunk)) ∈ blocks rs' := (E.edit.alloc _ rfl).mpr (.inr rfl)
  obtain ⟨R, k⟩ := E.rep.write hnew rfl hf
  refine ⟨R, E.edit, fun v hv ha hne x h1 h2 => ?_⟩
  rw [k v (E.owned_kept hv ha hne) (fun he => hu (he ▸ hv)) x h1 h2]
  exact E.kept v hv ha hne x h1 h2

theorem AllocResult.outcome (H : HeapRep h rs) {m' : Memory} {ret : Nat}
    (hr : AllocResult h.gNodelist h.mem rs n m' ret) :
    ∃ rs', Outcome h { h with mem := m' } rs rs' 0 ret := by
  cases hr with
  | null => exact ⟨rs, Outcome.refl H⟩
  | block _ rs' a d _ E hf => exact ⟨rs', E.outcome_new H hf⟩

theorem HeapRep.malloc (H : HeapRep h rs) (hw : n + 23 < 2 ^ 32) :
    ∃ m' ret rs', Mm.malloc h.gNodelist h.mem n = some (m', ret) ∧
      Outcome h { h with mem := m' } rs rs' 0 ret ∧ (Tidy rs → Tidy rs') ∧
      (ret = 0 → 0 < n → ∀ u ∈ blocks rs, u.2.alloc = false → u.2.size < need n) ∧
      (ret ≠ 0 → ∃ a c d, ret = a + 8 ∧ (a, (⟨c, false⟩ : Chunk)) ∈ blocks rs ∧ need n ≤ c ∧
        (∀ u ∈ blocks rs, u.2.alloc = false → need n ≤ u.2.size → c ≤ u.2.size) ∧
        n + 8 ≤ d ∧ Effect h.gNodelist h.mem m' rs rs' none (some (a, ⟨d, true⟩))) := by
  by_cases hn : n = 0
  · subst hn
    exact ⟨h.mem, 0, rs, malloc_zero _ _, Outcome.refl H, id, fun _ h0 => absurd h0 (by omega),
      fun h0 => absurd rfl h0⟩
  · obtain ⟨m', ret, e, hr⟩ := H.rep.malloc (n := n) (by omega) hw
    by_cases h0 : ret = 0
    · subst h0
      cases hr with
      | null hnone =>
        exact ⟨h.mem, 0, rs, e, Outcome.refl H, id, fun _ _ => hnone, fun h0 => absurd rfl h0⟩
    · obtain ⟨rs', a, c, rfl, hfree, hs, hmin, E, ht, _⟩ := hr.effect H.rep (by omega)
      have hge := need_ge n
      have hd := carved_size hs
      have hf : ∀ e, (a, (⟨e, true⟩ : Chunk)) ∉ blocks rs := by
        intro e he
        cases H.rep.layout.blocks_addr he hfree rfl
      exact ⟨m', a + 8, rs', e, E.outcome_new H hf, ht (need_mult n), fun h => absurd h h0, fun _ =>
        ⟨a, c, (carved c (need n)).size, rfl, hfree, hs, hmin, by omega, E⟩⟩

theorem HeapRep.zalloc (H : HeapRep h rs) (hw : n + 23 < 2 ^ 32) :
    ∃ m' ret rs', Mm.zalloc h.gNodelist h.mem n = some (m', ret) ∧
      Outcome h { h with mem := m' } rs rs' 0 ret ∧ (Tidy rs → Tidy rs') := by
  obtain ⟨m₁, ret, rs', e, O, ht, _, hnew⟩ := H.malloc hw
  by_cases h0 : ret = 0
  · refine ⟨m₁, ret, rs', ?_, O, ht⟩
    rw [Mm.zalloc, e, Option.bind_eq_bind, Option.bind_some]
    dsimp only
    rw [if_neg (by omega)]
  · obtain ⟨a, c, d, rfl, hfree, _, _, hd, E⟩ := hnew h0
    have hu : ∀ e, (a, (⟨e, true⟩ : Chunk)) ∉ blocks rs := by
      intro e hu
      cases H.rep.layout.blocks_addr hu hfree rfl
    have hf : ∀ x, x < a + 8 ∨ a + d ≤ x → fillUp m₁ (a + 8) 0 n x = m₁ x :=
      fun x hx => fillUp_of_outside (by omega)
    have E' := E.fill (hu d) hf
    refine ⟨_, a + 8, rs', ?_, E'.outcome_new H hu, ht⟩
    rw [Mm.zalloc, e, Option.bind_eq_bind, Option.bind_some]
    dsimp only
    rw [if_pos (by omega)]

theorem HeapRep.calloc (H : HeapRep h rs) {k : Nat} (hw : n * k + 23 < 2 ^ 32) :
    ∃ m' ret rs', Mm.calloc h.gNodelist h.mem n k = some (m', ret) ∧
      Outcome h { h with mem := m' } rs rs' 0 ret ∧ (Tidy rs → Tidy rs') := by
  by_cases hpos : n > 0 ∧ k > 0
  · have hwrap : wrap (n * k) = n * k := Nat.mod_eq_of_lt (by omega)
    rw [Mm.calloc, if_pos hpos, hwrap]
    exact H.zalloc hw
  · rw [Mm.calloc, if_neg hpos]
    exact ⟨h.mem, 0, rs, rfl, Outcome.refl H, id⟩

theorem HeapRep.memalign (H : HeapRep h rs) {k : Nat} (hk : k = 2 ^ k.log2)
    (hw : n + 15 + 2 * k + 23 < 2 ^ 32) :
    ∃ m' ret rs', Mm.memalign h.gNodelist h.mem k n = some (m', ret) ∧
      Outcome h { h with mem := m' } rs rs' 0 ret := by
  by_cases h16 : k ≤ 16
  · obtain ⟨m', ret, rs', e, O, _⟩ := H.malloc (n := n) (by omega)
    have hmin : k ≤ mmMinChunk := h16
    exact ⟨m', ret, rs', by rw [Mm.memalign, if_pos hmin, e], O⟩
  · have h5 : 5 ≤ k.log2 := by
      by_contra hlt
      have : 2 ^ k.log2 ≤ 2 ^ 4 := Nat.pow_le_pow_right (by decide) (by omega)
      omega
    rw [hk] at hw
    obtain ⟨m', ret, e, hr, _⟩ := H.rep.memalign (n := n) h5 (by omega)
    rw [← hk] at e
    obtain ⟨rs', O⟩ := hr.outcome H
    exact ⟨m', ret, rs', e, O⟩

theorem HeapRep.freedSize {σ : Site} {c : Nat} (H : HeapRep h (σ.fill [⟨c, true⟩])) :
    Mm.freedSize h.mem (σ.addr + 8) = (σ.merge c).2 := by
  have hsz : nodeSize h.mem σ.addr = c := (site_tiles H.rep.tiled).1.1
  unfold Mm.freedSize
  dsimp only
  rw [Nat.add_sub_cancel, site_freePrevsize H.rep.tiled H.rep.layout,
    site_freeNextsize H.rep.tiled H.rep.layout, hsz, Site.merge_size]

theorem HeapRep.free (H : HeapRep h rs) {p : Nat} (hp : p = 0 ∨ Owned rs p)
    (hs : (Call.free p).safe h) :
    ∃ m' rs', Mm.free h.gNodelist h.mem p = some m' ∧
      Outcome h { h with mem := m' } rs rs' p 0 ∧ (Tidy rs → Tidy rs') := by
  rcases hp with rfl | ⟨a, c, rfl, hb⟩
  · exact ⟨h.mem, rs, free_null _ _, Outcome.refl H, id⟩
  · obtain ⟨σ, rfl, ha⟩ := Site.of_mem hb
    dsimp only at ha H
    subst ha
    have h16 : sizeofMmFreenode ≤ Mm.freedSize h.mem (σ.addr + 8) := hs (by omega)
    rw [H.freedSize] at h16
    obtain ⟨m', rs', e, E, ht⟩ := H.rep.free_effect h16
    exact ⟨m', rs', e, E.outcome_old H hb, ht⟩

theorem HeapRep.growOk {σ : Site} {c : Nat} (H : HeapRep h (σ.fill [⟨c, true⟩])) (hn : n ≠ 0)
    (hs : (Call.realloc (σ.addr + 8) n).safe h) : GrowOk σ (σ.fill [⟨c, true⟩]) c (need n) := by
  have hsz : nodeSize h.mem σ.addr = c := (site_tiles H.rep.tiled).1.1
  have hs' := hs (by omega)
  rw [if_neg hn, H.freedSize, Site.merge_size] at hs'
  unfold neighbourRests at hs'
  dsimp only at hs'
  rw [Nat.add_sub_cancel, hsz, site_freePrevsize H.rep.tiled H.rep.layout,
    site_freeNextsize H.rep.tiled H.rep.layout] at hs'
  constructor
  · intro hlt hfit
    have hrest := hs' hlt
    rw [if_pos (by omega)] at hrest
    exact hrest
  · rintro hfit ⟨u, hu, ha, hle⟩
    have hmove := hs' (by omega)
    rw [if_neg (by omega)] at hmove
    obtain ⟨info, he, _, hmax⟩ := H.mallinfo
    have hlargest : largestFree h = info.mxordblk := by
      rw [largestFree, he]
      rfl
    rw [Site.merge_size]
    apply hmove
    rw [hlargest]
    exact Nat.le_trans hle (hmax u hu ha)

theorem HeapRep.realloc (H : HeapRep h rs) {p : Nat} (hp : p = 0 ∨ Owned rs p)
    (hw : need n + 23 < 2 ^ 32) (hs : (Call.realloc p n).safe h) :
    ∃ m' ret rs', Mm.realloc h.gNodelist h.mem p n = some (m', ret) ∧
      Outcome h { h with mem := m' } rs rs' ((Call.realloc p n).gone ret) ret ∧
      (Tidy rs → Tidy rs') ∧
      (p ≠ 0 → n ≠ 0 → (ret = 0 → m' = h.mem) ∧
        (ret ≠ 0 → n ≤ ({ h with mem := m' } : Heap).payload ret ∧
          ∀ i, i < h.payload p → i < n → m' (ret + i) = h.mem (p + i))) := by
  rcases hp with rfl | ⟨a, c, rfl, hb⟩
  · have hge := need_ge n
    obtain ⟨m', ret, rs', e, O, ht, _⟩ := H.malloc (n := n) (by omega)
    have hgone : (Call.realloc 0 n).gone ret = 0 := ite_self 0
    exact ⟨m', ret, rs', by rw [realloc_null, e], by rw [hgone]; exact O, ht,
      fun h0 => absurd rfl h0⟩
  · obtain ⟨σ, rfl, ha⟩ := Site.of_mem hb
    dsimp only at ha H
    subst ha
    by_cases hn : n = 0
    · subst hn
      have hfree : (Call.free (σ.addr + 8)).safe h := fun h0 => by
        have := hs h0
        rw [if_pos rfl] at this
        exact this
      obtain ⟨m', rs', e, O, ht⟩ := H.free (.inr ⟨_, c, rfl, hb⟩) hfree
      have hgone : (Call.realloc (σ.addr + 8) 0).gone 0 = σ.addr + 8 := by
        rw [Call.gone, if_neg fun hc => hc.1 rfl]
      exact ⟨m', 0, rs', by rw [realloc_zero, e]; rfl, by rw [hgone]; exact O, ht,
        fun _ h0 => absurd rfl h0⟩
    · have hsz : nodeSize h.mem σ.addr = c := (site_tiles H.rep.tiled).1.1
      have hpay : h.payload (σ.addr + 8) = c - 8 := by
        show nodeSize h.mem (σ.addr + 8 - 8) - 8 = c - 8
        rw [Nat.add_sub_cancel, hsz]
      obtain ⟨m', ret, e, hr⟩ := H.rep.realloc (n := n) (by omega) hw (H.growOk hn hs)
      cases hr with
      | null hnone =>
        have hgone : (Call.realloc (σ.addr + 8) n).gone 0 = 0 := if_pos ⟨hn, rfl⟩
        exact ⟨h.mem, 0, _, e, by rw [hgone]; exact Outcome.refl H, id, fun _ _ =>
          ⟨fun _ => rfl, fun h0 => absurd rfl h0⟩⟩
      | done m' rs' a' d E hd hcopy hf ht =>
        have hgone : (Call.realloc (σ.addr + 8) n).gone (a' + 8) = σ.addr + 8 :=
          if_neg fun hc => by omega
        refine ⟨m', a' + 8, rs', e, by rw [hgone]; exact E.outcome_move H hb hf, ht, fun _ _ =>
          ⟨fun h0 => absurd h0 (by omega), fun _ => ⟨?_, fun i hi hin => ?_⟩⟩⟩
        · have hnew : (a', (⟨d, true⟩ : Chunk)) ∈ blocks rs' :=
            (E.edit.alloc _ rfl).mpr (.inr rfl)
          have hsz' := E.rep.tiled.size hnew
          dsimp only at hsz'
          show n ≤ nodeSize m' (a' + 8 - 8) - 8
          rw [Nat.add_sub_cancel, hsz']
          omega
        · rw [hpay] at hi
          exact hcopy i hi hin

theorem HeapRep.write (H : HeapRep h rs) {p i : Nat} (hp : Owned rs p) (hi : i < h.payload p)
    (byte : UInt8) : HeapRep { h with mem := storeByte h.mem (p + i) byte } rs := by
  obtain ⟨a, d, rfl, hb⟩ := hp
  have hsz := H.rep.tiled.size hb
  dsimp only at hsz
  have hlt : i < d - 8 := by
    unfold Heap.payload at hi
    rw [Nat.add_sub_cancel, hsz] at hi
    exact hi
  have hf : ∀ x, x < a + 8 ∨ a + d ≤ x → storeByte h.mem (a + 8 + i) byte x = h.mem x :=
    fun x hx => storeByte_of_ne (by omega)
  exact H.set (H.rep.write hb rfl hf).1 rfl

end

/-- The live blocks are the allocated chunks of the represented heap. -/
structure Inv (s : State) (rs : List Region) : Prop where
  heap : HeapRep s.heap rs
  live : ∀ p, p ∈ s.live ↔ Owned rs p
  nodup : s.live.Nodup

section

variable {s : State} {c : Call} {rs : List Region}

theorem Inv.held (I : Inv s rs) {p : Nat} (h : p = 0 ∨ p ∈ s.live) : p = 0 ∨ Owned rs p :=
  h.imp_right (I.live p).mp

def Call.IsWrite : Call → Prop
  | write _ _ _ => True
  | _ => False

theorem Outcome.addregion {h : Heap} {heapstart heapsize : Nat} (H : HeapRep h rs)
    (A : AreaOk h.gNodelist h.regions heapstart heapsize) :
    ∃ h', Mm.mmAddregion h heapstart heapsize = some h' ∧
      Outcome h h' rs (rs ++ [newRegion heapstart heapsize]) 0 0 := by
  obtain ⟨h', e, hg, k, H'⟩ := H.mmAddregion A
  have hnew : ∀ a d, (a, (⟨d, true⟩ : Chunk)) ∈ blocks (rs ++ [newRegion heapstart heapsize]) ↔
      (a, (⟨d, true⟩ : Chunk)) ∈ blocks rs := fun a d => by
    obtain ⟨z, _, _, hbs⟩ := newRegion_blocks rs heapstart heapsize
    rw [hbs, List.mem_append, List.mem_singleton]
    simp
  refine ⟨h', e, H', hg, fun p => ?_, fun a d hb _ => ⟨(hnew a d).mpr hb, k _ hb rfl⟩,
    fun h0 => absurd rfl h0⟩
  constructor
  · rintro ⟨a, d, rfl, hb⟩
    exact .inl ⟨⟨a, d, rfl, (hnew a d).mp hb⟩, by omega⟩
  · rintro (⟨⟨a, d, rfl, hb⟩, _⟩ | ⟨_, h0⟩)
    · exact ⟨a, d, rfl, (hnew a d).mpr hb⟩
    · exact absurd rfl h0

theorem Inv.outcome (I : Inv s rs) (hv : c.valid s) (hs : c.safe s.heap) (hw : ¬ c.IsWrite) :
    ∃ h' ret rs', c.run s.heap = some (h', ret) ∧ Outcome s.heap h' rs rs' (c.gone ret) ret ∧
      (¬ c.IsMemalign → Tidy rs → Tidy rs') := by
  cases c with
  | mmAddregion heapstart heapsize =>
    obtain ⟨h', e, O⟩ := Outcome.addregion I.heap hv
    refine ⟨h', 0, _, ?_, O, fun _ ht => ht.newRegion (g := s.heap.gNodelist) ?_⟩
    · show (Mm.mmAddregion _ _ _).map _ = _
      rw [e]
      rfl
    · rw [← I.heap.bounds]
      exact hv
  | malloc size =>
    obtain ⟨m', ret, rs', e, O, ht, _⟩ := I.heap.malloc hv
    exact ⟨_, ret, rs', congrArg (Option.map s.heap.set) e, O, fun _ => ht⟩
  | zalloc size =>
    obtain ⟨m', ret, rs', e, O, ht⟩ := I.heap.zalloc hv
    exact ⟨_, ret, rs', congrArg (Option.map s.heap.set) e, O, fun _ => ht⟩
  | calloc n elemSize =>
    obtain ⟨m', ret, rs', e, O, ht⟩ := I.heap.calloc hv
    exact ⟨_, ret, rs', congrArg (Option.map s.heap.set) e, O, fun _ => ht⟩
  | realloc oldmem size =>
    obtain ⟨m', ret, rs', e, O, ht, _⟩ := I.heap.realloc (I.held hv.1) hv.2 hs
    exact ⟨_, ret, rs', congrArg (Option.map s.heap.set) e, O, fun _ => ht⟩
  | memalign alignment size =>
    obtain ⟨m', ret, rs', e, O⟩ := I.heap.memalign hv.1 hv.2
    exact ⟨_, ret, rs', congrArg (Option.map s.heap.set) e, O, fun hm => absurd trivial hm⟩
  | free mem =>
    obtain ⟨m', rs', e, O, ht⟩ := I.heap.free (I.held hv) hs
    exact ⟨_, 0, rs', congrArg (Option.map fun m => s.heap.set (m, 0)) e, O, fun _ => ht⟩
  | write mem i byte => exact absurd trivial hw

theorem Outcome.inv {h' : Heap} {rs' : List Region} {ret : Nat} (I : Inv s rs)
    (O : Outcome s.heap h' rs rs' (c.gone ret) ret) : Inv (s.after c (h', ret)) rs' := by
  refine ⟨O.heap, fun p => ?_, ?_⟩
  · rw [O.owned p, ← I.live p]
    show p ∈ (if ret ≠ 0 then [ret] else []) ++ s.live.filter (· ≠ c.gone ret) ↔ _
    by_cases h0 : ret = 0
    · rw [if_neg (by simpa using h0)]
      simp [h0]
    · rw [if_pos h0]
      simp [h0, or_comm]
  · show ((if ret ≠ 0 then [ret] else []) ++ s.live.filter (· ≠ c.gone ret)).Nodup
    have hfilter := I.nodup.filter (· ≠ c.gone ret)
    by_cases h0 : ret = 0
    · rw [if_neg (by simpa using h0)]
      exact hfilter
    · rw [if_pos h0]
      refine List.nodup_cons.mpr ⟨fun hmem => ?_, hfilter⟩
      obtain ⟨hlive, hne⟩ := List.mem_filter.mp hmem
      exact of_decide_eq_true hne (O.fresh h0 ((I.live ret).mp hlive))

theorem Inv.step (I : Inv s rs) (hv : c.valid s) (hs : c.safe s.heap) :
    ∃ s' rs', heapMachine.exec s c = some s' ∧ Inv s' rs' ∧
      (¬ c.IsMemalign → Tidy rs → Tidy rs') := by
  by_cases hw : c.IsWrite
  · cases c with
    | write mem i byte =>
      have H := I.heap.write ((I.live mem).mp hv.1) hv.2 byte
      refine ⟨_, rs, rfl, ⟨H, fun p => ?_, I.nodup.filter _⟩, fun _ => id⟩
      rw [← I.live p]
      show p ∈ s.live.filter (· ≠ 0) ↔ _
      rw [List.mem_filter]
      have hpos : p ∈ s.live → p ≠ 0 := fun hp => by
        obtain ⟨a, d, rfl, _⟩ := (I.live p).mp hp
        omega
      simpa using hpos
    | _ => cases hw
  · obtain ⟨h', ret, rs', e, O, ht⟩ := I.outcome hv hs hw
    exact ⟨_, rs', congrArg (Option.map (s.after c)) e, O.inv I, ht⟩

theorem Started.inv (h : Started s) : ∃ rs, Inv s rs ∧ Tidy rs := by
  obtain ⟨m, g, heapstart, heapsize, G, A, e, hl⟩ := h
  obtain ⟨h', e', _, H⟩ := HeapRep.mmInitialize m G A
  rw [e] at e'
  cases e'
  have ht : Tidy ([] ++ [newRegion heapstart heapsize]) :=
    Tidy.newRegion (g := g) ⟨fun r hr => (by cases hr), fun r hr => (by cases hr)⟩ A
  refine ⟨_, ⟨H, fun p => ?_, by rw [hl]; exact List.nodup_nil⟩, ht⟩
  rw [hl]
  constructor
  · intro hp
    cases hp
  · rintro ⟨a, d, _, hb⟩
    obtain ⟨z, _, _, hbs⟩ := newRegion_blocks [] heapstart heapsize
    rw [List.nil_append] at hbs
    rw [hbs] at hb
    rcases List.mem_append.mp hb with hb | hb
    · cases hb
    · cases List.mem_singleton.mp hb

instance (h : Heap) : DecidablePred (Call.safe h)
  | .free _ => inferInstanceAs (Decidable (_ → _))
  | .realloc _ _ => inferInstanceAs (Decidable (_ → _))
  | .mmAddregion _ _ => inferInstanceAs (Decidable True)
  | .malloc _ => inferInstanceAs (Decidable True)
  | .zalloc _ => inferInstanceAs (Decidable True)
  | .calloc _ _ => inferInstanceAs (Decidable True)
  | .memalign _ _ => inferInstanceAs (Decidable True)
  | .write _ _ _ => inferInstanceAs (Decidable True)

instance : DecidablePred Call.IsMemalign
  | .memalign _ _ => .isTrue trivial
  | .free _ => .isFalse id
  | .realloc _ _ => .isFalse id
  | .mmAddregion _ _ => .isFalse id
  | .malloc _ => .isFalse id
  | .zalloc _ => .isFalse id
  | .calloc _ _ => .isFalse id
  | .write _ _ _ => .isFalse id

theorem Tidy.chunk {u : Nat × Chunk} (ht : Tidy rs) (hu : u ∈ blocks rs) : u.2.size % 16 = 0 := by
  obtain ⟨r, hr, hur⟩ := mem_blocks.mp hu
  exact ht.gran r hr u.2 (mem_of_place hur)

theorem Inv.tidy_safe (I : Inv s rs) (ht : Tidy rs) (hv : c.valid s) (hm : ¬ c.IsMemalign) :
    c.safe s.heap := by
  have hfreed : ∀ p, p ≠ 0 → (p = 0 ∨ p ∈ s.live) → sizeofMmFreenode ≤ freedSize s.heap.mem p := by
    intro p h0 hp
    rcases I.held hp with rfl | ⟨a, d, rfl, hb⟩
    · exact absurd rfl h0
    · have h16 := ht.chunk hb
      have h8 := (I.heap.rep.layout.chunkOk hb).pos
      have hsz := I.heap.rep.tiled.size hb
      dsimp only at h16 h8 hsz
      unfold freedSize
      dsimp only
      rw [Nat.add_sub_cancel, hsz]
      simp only [sizeofMmFreenode]
      omega
  cases c with
  | free mem => exact fun h0 => hfreed mem h0 hv
  | realloc oldmem size =>
    intro h0
    have hsize := hfreed oldmem h0 hv.1
    by_cases hz : size = 0
    · rw [if_pos hz]
      exact hsize
    · rw [if_neg hz]
      intro hlt
      split
      · rcases I.held hv.1 with rfl | ⟨a, d, rfl, hb⟩
        · exact absurd rfl h0
        · have H := I.heap
          obtain ⟨σ, rfl, ha⟩ := Site.of_mem hb
          dsimp only at ha H
          subst ha
          have hsz : nodeSize s.heap.mem σ.addr = d := (site_tiles H.rep.tiled).1.1
          obtain ⟨hgran, hd⟩ := gran_fill.mp ht.gran
          have hd16 : d % 16 = 0 := hd _ (List.mem_singleton.mpr rfl)
          have hp16 := Site.prevFree_gran hgran
          have hn16 := Site.nextFree_gran hgran
          have hneed := need_mult size
          obtain ⟨h1, h2⟩ := reallocTakes_mult (k := 16) (p := σ.prevFree) (n := σ.nextFree)
            (d := need size - d) (by omega) (by omega) (by omega)
          unfold neighbourRests
          dsimp only
          rw [Nat.add_sub_cancel, site_freePrevsize H.rep.tiled H.rep.layout,
            site_freeNextsize H.rep.tiled H.rep.layout, hsz]
          simp only [sizeofMmAllocnode]
          omega
      · exact fun _ => hsize
  | memalign alignment size => exact absurd trivial hm
  | _ => exact trivial

theorem reach_safe (h : Reach heapMachine Started (fun s c => c.safe s.heap) s) :
    ∃ rs, Inv s rs := by
  apply Reach.invariant (I := fun s => ∃ rs, Inv s rs) _ _ h
  · intro s hs
    obtain ⟨rs, I, _⟩ := hs.inv
    exact ⟨rs, I⟩
  · intro s c s' hI hv hs he
    obtain ⟨rs, I⟩ := hI
    obtain ⟨t, rs', e, I', _⟩ := I.step hv hs
    cases e.symm.trans he
    exact ⟨rs', I'⟩

theorem reach_tidy (h : Reach heapMachine Started (fun _ c => ¬ c.IsMemalign) s) :
    ∃ rs, Inv s rs ∧ Tidy rs := by
  apply Reach.invariant (I := fun s => ∃ rs, Inv s rs ∧ Tidy rs) (fun _ hs => hs.inv) _ h
  intro s c s' hI hv hm he
  obtain ⟨rs, I, ht⟩ := hI
  obtain ⟨t, rs', e, I', ht'⟩ := I.step hv (I.tidy_safe ht hv hm)
  cases e.symm.trans he
  exact ⟨rs', I', ht' hm ht⟩

end

def runFrom (ok : State → Call → Prop) [∀ s c, Decidable (ok s c)] (m : Memory)
    (g heapstart heapsize : Nat) (calls : List Call) : Option State :=
  (mmInitialize m g heapstart heapsize).bind fun h => runAll heapMachine ok ⟨h, []⟩ calls

theorem reach_runFrom {ok : State → Call → Prop} [∀ s c, Decidable (ok s c)] {m : Memory}
    {g heapstart heapsize : Nat} {calls : List Call} {s : State} (G : TableOk g)
    (A : AreaOk g [] heapstart heapsize)
    (h : runFrom ok m g heapstart heapsize calls = some s) : Reach heapMachine Started ok s := by
  obtain ⟨h₀, e, hr⟩ := Option.bind_eq_some_iff.mp h
  exact Reach.runAll (.init ⟨m, g, heapstart, heapsize, G, A, e, rfl⟩) hr

end NuttxAvr32.Mm
