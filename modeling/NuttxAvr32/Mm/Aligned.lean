import NuttxAvr32.Mm.Sizes

/-! # Aligned blocks

`memalign` leaves alignments up to `MM_MIN_CHUNK` to `malloc`, which aligns to
`MM_MIN_CHUNK` only as long as every chunk is a multiple of it. Larger alignments
cut the blocks themselves, to odd multiples of eight bytes.
-/

namespace NuttxAvr32.Mm

open ByteMemory Runs

/-- The sizes of `memalign (1 << k, n)` do not wrap. -/
def AlignFits (k n : Nat) : Prop :=
  if k < 5 then n + 23 < 2 ^ 32 else (n + 15) / 16 * 16 + 2 * 2 ^ k + 23 < 2 ^ 32

/-- The block at `p` is the payload of one live chunk, at a multiple of the
alignment and with room for `n` bytes. -/
structure AlignedBlock (s : State) (alignment n p : Nat) : Prop where
  address : p % alignment = 0
  chunk : p ∈ s.live ∧ p - sizeofMmAllocnode ∈ s.heap.nodes ∧
    ¬ IsFree s.heap.mem (p - sizeofMmAllocnode)
  room : n ≤ s.heap.payload p

/-- `memalign` returns `NULL` or an aligned block, and every free chunk that it
leaves holds a free node. -/
def AlignsTo (s : State) (alignment n : Nat) : Prop :=
  ∃ r, (Call.memalign alignment n).run s.heap = some r ∧
    (r.2 ≠ 0 → AlignedBlock (s.after (.memalign alignment n) r) alignment n r.2) ∧
    ∀ x ∈ r.1.nodes, IsFree r.1.mem x → sizeofMmFreenode ≤ nodeSize r.1.mem x

/-- The first node of the free-node list that serves `n` bytes, `NULL` without one. -/
def firstFit (h : Heap) (n : Nat) : Nat :=
  (searchFit h.mem (chunkSize n) loopBound
    (flink h.mem (nodeAt h.gNodelist (mmSize2ndx (chunkSize n))))).getD 0

def Call.CutsOdd : Call → Prop
  | memalign alignment _ => mmMinChunk < alignment
  | _ => False

section

variable {h : Heap} {rs : List Region} {g n a d ret : Nat} {m m' : Memory}

theorem mallocTake_address {node size : Nat} (h : mallocTake g m node size = some (m', ret)) :
    ret = node + 8 := by
  unfold mallocTake at h
  dsimp only at h
  split at h
  · obtain ⟨m₁, _, h₁⟩ := Option.bind_eq_some_iff.mp h
    cases h₁
    rfl
  · cases h
    rfl

theorem malloc_address {h : Heap} (hn : n ≠ 0)
    (he : Mm.malloc h.gNodelist h.mem n = some (m', ret)) :
    ret = if firstFit h n = 0 then 0 else firstFit h n + 8 := by
  rw [Mm.malloc, if_neg hn] at he
  dsimp only at he
  rw [malloc_ndx] at he
  obtain ⟨node, hnode, hrest⟩ := Option.bind_eq_some_iff.mp he
  have hfit : firstFit h n = node := by
    rw [firstFit, chunkSize, hnode]
    rfl
  rw [hfit]
  split at hrest
  · rename_i h0
    cases hrest
    rw [if_pos h0]
  · rename_i h0
    rw [if_neg h0]
    exact mallocTake_address hrest

theorem place_mod {cs : List Chunk} (hcs : ∀ c ∈ cs, c.size % 16 = 0) {u : Nat × Chunk}
    (hu : u ∈ place a cs) : u.1 % 16 = a % 16 := by
  induction cs generalizing a with
  | nil => cases hu
  | cons c cs ih =>
      rcases List.mem_cons.mp hu with rfl | hu
      · rfl
      · have hc := hcs c List.mem_cons_self
        rw [ih (fun d hd => hcs d (List.mem_cons_of_mem _ hd)) hu]
        omega

theorem Layout.block_aligned {g : Nat} (L : Layout g rs) {u : Nat × Chunk} (hu : u ∈ blocks rs) :
    u.1 % 8 = 0 := by
  obtain ⟨σ, rfl, ha⟩ := Site.of_mem hu
  rw [ha]
  exact L.gap.aligned

theorem HeapRep.alloc_block (H : HeapRep h rs) (hb : (a, (⟨d, true⟩ : Chunk)) ∈ blocks rs) :
    a ∈ h.nodes ∧ ¬ IsFree h.mem a := by
  have hin : a ∈ h.nodes := by
    obtain ⟨r, hr, hbr⟩ := mem_blocks.mp hb
    refine H.mem_nodes.mpr ⟨r, hr, List.mem_map.mpr ⟨(a, ⟨d, true⟩), ?_, rfl⟩⟩
    rw [place_chunks]
    simp only [List.cons_append, List.mem_cons, List.mem_append]
    exact .inr (.inl hbr)
  refine ⟨hin, fun hf => ?_⟩
  have hfree := H.free_node.mp ⟨hin, hf⟩
  cases H.rep.layout.blocks_addr hb hfree rfl

end

section

variable {s : State} {rs rs' : List Region} {k n ret : Nat} {m' : Memory}

theorem Inv.aligns_iff (I : Inv s rs) (hw : Room s (.memalign (2 ^ k) n) n)
    (he : Mm.memalign s.heap.gNodelist s.heap.mem (2 ^ k) n = some (m', ret))
    (O : Outcome s.heap { s.heap with mem := m' } rs rs' 0 ret) :
    AlignsTo s (2 ^ k) n ↔ (ret ≠ 0 → ret % 2 ^ k = 0) := by
  have hrun : (Call.memalign (2 ^ k) n).run s.heap = some (s.heap.set (m', ret)) :=
    congrArg (Option.map s.heap.set) he
  constructor
  · rintro ⟨r, hr, hblock, _⟩
    rw [hrun] at hr
    cases hr
    exact fun h0 => (hblock h0).address
  · intro hmod
    refine ⟨_, hrun, fun h0 => ⟨hmod h0, ?_, hw _ _ hrun h0⟩,
      fun x hx hf => O.heap.free_size hx hf⟩
    have hret : ret ≠ 0 := h0
    have I' : Inv (s.after (.memalign (2 ^ k) n) (s.heap.set (m', ret))) rs' := O.inv I
    have howned : Owned rs' ret := (O.owned ret).mpr (.inr ⟨rfl, hret⟩)
    refine ⟨(I'.live ret).mpr howned, ?_⟩
    obtain ⟨a, d, rfl, hb⟩ := howned
    exact O.heap.alloc_block hb

theorem Inv.memalign_fits (I : Inv s rs) (hw : AlignFits k n) :
    Room s (.memalign (2 ^ k) n) n := by
  unfold AlignFits at hw
  split at hw
  · rename_i hk
    exact (I.memalign_small_room (by omega) hk).mpr (.inl hw)
  · exact I.memalign_room (by omega) hw

theorem Inv.memalign_large (I : Inv s rs) (hk : 5 ≤ k) (hw : AlignFits k n) :
    AlignsTo s (2 ^ k) n := by
  have hroom := I.memalign_fits hw
  rw [AlignFits, if_neg (by omega)] at hw
  obtain ⟨m', ret, he, hres, hmod⟩ := I.heap.rep.memalign hk hw
  obtain ⟨rs', O⟩ := hres.outcome I.heap
  exact (I.aligns_iff hroom he O).mpr fun _ => hmod

theorem Inv.memalign_small (I : Inv s rs) (hk : k < 5) (hw : AlignFits k n) :
    AlignsTo s (2 ^ k) n ↔
      (n ≠ 0 → firstFit s.heap n ≠ 0 → (firstFit s.heap n + 8) % 2 ^ k = 0) := by
  have hroom := I.memalign_fits hw
  rw [AlignFits, if_pos hk] at hw
  obtain ⟨m', ret, rs', he, O, _⟩ := I.heap.malloc hw
  have hmin : 2 ^ k ≤ mmMinChunk := Nat.pow_le_pow_right (by decide) (by omega : k ≤ 4)
  have hcall : Mm.memalign s.heap.gNodelist s.heap.mem (2 ^ k) n = some (m', ret) := by
    rw [Mm.memalign, if_pos hmin, he]
  rw [I.aligns_iff hroom hcall O]
  by_cases hn : n = 0
  · subst hn
    rw [malloc_zero] at he
    cases he
    exact ⟨fun _ h0 => absurd rfl h0, fun _ h0 => absurd rfl h0⟩
  · have hret := malloc_address hn he
    split at hret
    · rename_i h0
      subst hret
      exact ⟨fun _ _ h1 => absurd h0 h1, fun _ h1 => absurd rfl h1⟩
    · rename_i h0
      subst hret
      exact ⟨fun h _ _ => h (by omega), fun h _ => h hn h0⟩

theorem Inv.firstFit_mod (I : Inv s rs) (hw : n + 23 < 2 ^ 32) (hn : n ≠ 0)
    (h0 : firstFit s.heap n ≠ 0) :
    ∃ c, (firstFit s.heap n, (⟨c, false⟩ : Chunk)) ∈ blocks rs := by
  obtain ⟨m', ret, rs', he, _, _, _, hsome⟩ := I.heap.malloc hw
  have hret := malloc_address hn he
  rw [if_neg h0] at hret
  obtain ⟨a, c, _, ha, hfree, _⟩ := hsome (by omega)
  have haddr : firstFit s.heap n = a := by omega
  exact ⟨c, haddr ▸ hfree⟩

/-- `memalign` aligns as asked unless an alignment of sixteen meets a chunk that
lies at a multiple of sixteen. -/
theorem Inv.aligns (I : Inv s rs) (hw : AlignFits k n) : AlignsTo s (2 ^ k) n ↔
    (k = 4 → n ≠ 0 → firstFit s.heap n ≠ 0 → firstFit s.heap n % 16 = 8) := by
  by_cases hk : k < 5
  · rw [I.memalign_small hk hw]
    rw [AlignFits, if_pos hk] at hw
    by_cases h4 : k = 4
    · subst h4
      constructor
      · intro h _ hn h0
        have := h hn h0
        omega
      · intro h hn h0
        have := h rfl hn h0
        omega
    · refine ⟨fun _ h => absurd h h4, fun _ hn h0 => ?_⟩
      obtain ⟨c, hb⟩ := I.firstFit_mod hw hn h0
      have h8 : firstFit s.heap n % 8 = 0 := I.heap.rep.layout.block_aligned hb
      have hdvd : 2 ^ k ∣ 2 ^ 3 := Nat.pow_dvd_pow 2 (by omega)
      refine Nat.mod_eq_zero_of_dvd (Nat.dvd_trans hdvd (Nat.dvd_of_mod_eq_zero ?_))
      omega
  · exact ⟨fun _ h => absurd h (by omega), fun _ => I.memalign_large (by omega) hw⟩

end

section

variable {s s' : State} {rs : List Region} {c : Call} {k n : Nat}

def Granular (s : State) : Prop := ∀ b ∈ s.heap.regions, b.1 % 16 = 0

theorem mmAlignUp_mult (a : Nat) : mmAlignUp a % 16 = 0 := by
  have h : mmAlignUp a = wrap (a + 15) / 2 ^ 4 * 2 ^ 4 := andNot_two_pow _ 4
  omega

theorem mmAddregion_mult {h h' : Heap} {heapstart heapsize : Nat}
    (he : Mm.mmAddregion h heapstart heapsize = some h') {b : Nat × Nat} (hb : b ∈ h'.regions) :
    b ∈ h.regions ∨ b.1 % 16 = 0 := by
  obtain ⟨m', _, hm'⟩ := Option.bind_eq_some_iff.mp he
  cases hm'
  rcases List.mem_append.mp hb with hb | hb
  · exact .inl hb
  · rw [List.mem_singleton.mp hb]
    exact .inr (mmAlignUp_mult heapstart)

theorem Granular.step (h : Granular s) (he : heapMachine.exec s c = some s') : Granular s' := by
  obtain ⟨r, hr, rfl⟩ := Option.map_eq_some_iff.mp he
  have hkeep : ∀ {x : Option (Memory × Nat)}, x.map s.heap.set = some r →
      r.1.regions = s.heap.regions := by
    intro x hx
    obtain ⟨y, _, rfl⟩ := Option.map_eq_some_iff.mp hx
    rfl
  have hsame : r.1.regions = s.heap.regions → Granular (s.after c r) := by
    intro heq b hb
    exact h b (heq ▸ hb)
  cases c with
  | mmAddregion heapstart heapsize =>
      obtain ⟨h', hadd, rfl⟩ := Option.map_eq_some_iff.mp hr
      exact fun b hb => (mmAddregion_mult hadd hb).elim (h b) id
  | free mem =>
      obtain ⟨m', _, rfl⟩ := Option.map_eq_some_iff.mp hr
      exact hsame rfl
  | write mem i byte =>
      cases hr
      exact hsame rfl
  | malloc size => exact hsame (hkeep hr)
  | zalloc size => exact hsame (hkeep hr)
  | calloc count elemSize => exact hsame (hkeep hr)
  | realloc oldmem size => exact hsame (hkeep hr)
  | memalign alignment size => exact hsame (hkeep hr)

theorem exec_memalign_small {alignment : Nat} (h : alignment ≤ mmMinChunk) :
    heapMachine.exec s (.memalign alignment n) = heapMachine.exec s (.malloc n) := by
  show ((Mm.memalign _ _ alignment n).map _).map _ = ((Mm.malloc _ _ n).map _).map _
  rw [Mm.memalign, if_pos h]
  rfl

theorem Inv.tidy_step (I : Inv s rs) (ht : Tidy rs) (hv : c.valid s) (hc : ¬ c.CutsOdd)
    (he : heapMachine.exec s c = some s') : ∃ rs', Inv s' rs' ∧ Tidy rs' := by
  have hplain : ∀ {d : Call}, d.valid s → ¬ d.IsMemalign → heapMachine.exec s d = some s' →
      ∃ rs', Inv s' rs' ∧ Tidy rs' := by
    intro d hd hm hed
    obtain ⟨t, rs', het, I', ht'⟩ := I.step hd (I.tidy_safe ht hd hm)
    cases het.symm.trans hed
    exact ⟨rs', I', ht' hm ht⟩
  by_cases hm : c.IsMemalign
  · cases c with
    | memalign alignment size =>
        rw [exec_memalign_small (Nat.le_of_not_lt hc)] at he
        have hsize : (Call.malloc size).valid s := by
          have := hv.2
          show size + 23 < 2 ^ 32
          omega
        exact hplain hsize id he
    | _ => cases hm
  · exact hplain hv hm he

theorem Started.granular (h : Started s) : Granular s := by
  obtain ⟨m, g, heapstart, heapsize, _, _, e, _⟩ := h
  intro b hb
  rcases mmAddregion_mult e hb with hb | hb
  · cases hb
  · exact hb

theorem reach_granular (h : Reach heapMachine Started (fun _ c => ¬ c.CutsOdd) s) :
    ∃ rs, Inv s rs ∧ Tidy rs ∧ Granular s := by
  apply Reach.invariant (I := fun s => ∃ rs, Inv s rs ∧ Tidy rs ∧ Granular s) _ _ h
  · intro s hs
    obtain ⟨rs, I, ht⟩ := hs.inv
    exact ⟨rs, I, ht, hs.granular⟩
  · intro s c s' hI hv hc he
    obtain ⟨rs, I, ht, hg⟩ := hI
    obtain ⟨rs', I', ht'⟩ := I.tidy_step ht hv hc he
    exact ⟨rs', I', ht', hg.step he⟩

theorem Inv.tidy_block (I : Inv s rs) (ht : Tidy rs) (hg : Granular s) {u : Nat × Chunk}
    (hu : u ∈ blocks rs) : u.1 % 16 = 8 := by
  obtain ⟨r, hr, hur⟩ := mem_blocks.mp hu
  have hbase : r.base % 16 = 0 := by
    have hb : r.bounds ∈ s.heap.regions := by
      rw [I.heap.bounds]
      exact List.mem_map_of_mem hr
    exact hg _ hb
  rw [place_mod (ht.gran r hr) hur]
  omega

theorem Inv.aligns_tidy (I : Inv s rs) (ht : Tidy rs) (hg : Granular s) (hw : AlignFits k n) :
    AlignsTo s (2 ^ k) n := by
  refine (I.aligns hw).mpr fun hk hn h0 => ?_
  subst hk
  obtain ⟨c, hb⟩ := I.firstFit_mod hw hn h0
  exact I.tidy_block ht hg hb

end

/-- In a heap without eight-byte rests `memalign` returns what it promises exactly
when an alignment of sixteen meets a chunk that `malloc` aligns so. As long as no
earlier call aligned to more than that, every chunk is one of these. -/
theorem memalign_aligns (s : State) (k n : Nat) (hw : AlignFits k n) :
    (Reach heapMachine Started (fun s c => c.safe s.heap) s →
      (AlignsTo s (2 ^ k) n ↔
        (k = 4 → n ≠ 0 → firstFit s.heap n ≠ 0 → firstFit s.heap n % 16 = 8))) ∧
      (Reach heapMachine Started (fun _ c => ¬ c.CutsOdd) s → AlignsTo s (2 ^ k) n) := by
  constructor
  · intro h
    obtain ⟨rs, I⟩ := reach_safe h
    exact I.aligns hw
  · intro h
    obtain ⟨rs, I, ht, hg⟩ := reach_granular h
    exact I.aligns_tidy ht hg hw

instance (k n : Nat) : Decidable (AlignFits k n) :=
  inferInstanceAs (Decidable (if k < 5 then n + 23 < 2 ^ 32
    else (n + 15) / 16 * 16 + 2 * 2 ^ k + 23 < 2 ^ 32))

instance : DecidablePred Call.CutsOdd
  | .memalign _ _ => inferInstanceAs (Decidable (_ < _))
  | .free _ => .isFalse id
  | .realloc _ _ => .isFalse id
  | .mmAddregion _ _ => .isFalse id
  | .malloc _ => .isFalse id
  | .zalloc _ => .isFalse id
  | .calloc _ _ => .isFalse id
  | .write _ _ _ => .isFalse id

theorem memalign_aligns_run : ∃ s t, runFrom (fun s c => c.safe s.heap) (fun _ => 0xAA) 256 1024 512
      [.malloc 40, .memalign 64 20] = some s ∧ AlignsTo s (2 ^ 6) 30 ∧
    runFrom (fun _ c => ¬ c.CutsOdd) (fun _ => 0xAA) 256 1024 512
      [.malloc 40, .memalign 16 20] = some t ∧ AlignsTo t (2 ^ 4) 30 := by
  obtain ⟨s, hs⟩ := Option.isSome_iff_exists.mp (show (runFrom (fun s c => c.safe s.heap)
    (fun _ => 0xAA) 256 1024 512 [.malloc 40, .memalign 64 20]).isSome by decide +kernel)
  obtain ⟨t, ht⟩ := Option.isSome_iff_exists.mp (show (runFrom (fun _ c => ¬ c.CutsOdd)
    (fun _ => 0xAA) 256 1024 512 [.malloc 40, .memalign 16 20]).isSome by decide +kernel)
  have hstart := reach_runFrom ⟨by decide, by decide⟩ (by decide) hs
  have htidy := reach_runFrom ⟨by decide, by decide⟩ (by decide) ht
  exact ⟨s, t, hs, ((memalign_aligns s 6 30 (by decide)).1 hstart).mpr (fun h => by cases h), ht,
    (memalign_aligns t 4 30 (by decide)).2 htidy⟩

/-- The block that `memalign (16, n)` returns is not a multiple of sixteen. -/
def misaligned (s : State) (n : Nat) : Bool :=
  ((Call.memalign (2 ^ 4) n).run s.heap).any fun r => decide (r.2 % 16 ≠ 0)

theorem not_alignsTo {s : State} {n : Nat} (h : misaligned s n = true) :
    ¬ AlignsTo s (2 ^ 4) n := by
  rintro ⟨r, hr, hblock, _⟩
  rw [misaligned, hr, Option.any_some] at h
  have hmod := of_decide_eq_true h
  exact hmod (hblock fun h0 => hmod (by rw [h0])).address

/-- After `memalign (32, 16)` the heap goes on at a multiple of sixteen, and so
does the block of `memalign (16, 40)`. -/
theorem memalign_misaligned : ¬ ∀ s, Reach heapMachine Started (fun s c => c.safe s.heap) s →
    ∀ k n, AlignFits k n → AlignsTo s (2 ^ k) n := by
  intro hall
  obtain ⟨s, hs, hmis⟩ := (Option.any_eq_true _ _).mp (show (runFrom (fun s c => c.safe s.heap)
    (fun _ => 0xAA) 256 1024 256 [.memalign 32 16]).any (fun s => misaligned s 40) = true
      by decide +kernel)
  have hstart := reach_runFrom ⟨by decide, by decide⟩ (by decide) hs
  exact not_alignsTo hmis (hall s hstart 4 40 (by decide))

end NuttxAvr32.Mm
