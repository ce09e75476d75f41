import NuttxAvr32.Mm.Isolation
import NuttxAvr32.Mm.BestFit

/-! # Sizes near the limit

Every entry of the allocator adds headers and rounds up in 32 bits before it
looks at the free chunks, and `calloc` multiplies in 32 bits. A request whose
arithmetic wraps is served as a small one.
-/

namespace NuttxAvr32.Mm

open ByteMemory Runs

def chunkSize (n : Nat) : Nat := mmAlignUp (wrap (n + sizeofMmAllocnode))

def Room (s : State) (c : Call) (n : Nat) : Prop :=
  ∀ h ret, c.run s.heap = some (h, ret) → ret ≠ 0 → n ≤ h.payload ret

/-- No free chunk holds `size` bytes. The headers of the bins have size zero, so
a search for zero bytes always ends at a node. -/
def NoFit (h : Heap) (size : Nat) : Prop :=
  size ≠ 0 ∧ ∀ x ∈ h.nodes, IsFree h.mem x → nodeSize h.mem x < size

theorem chunkSize_of_lt {n : Nat} (h : n + 23 < 2 ^ 32) : chunkSize n = need n := mmAlignUp_need h

theorem chunkSize_wrapped {n : Nat} (hn : n < 2 ^ 32) (h : 2 ^ 32 ≤ n + 23) :
    chunkSize n = 0 ∨ chunkSize n = 16 := by
  have hw : chunkSize n = (n + 8) % 2 ^ 32 + 15 - (n + 8) % 2 ^ 32 - 15 +
      ((n + 8) % 2 ^ 32 + 15) % 2 ^ 32 / 2 ^ 4 * 2 ^ 4 := by
    rw [chunkSize, mmAlignUp, wrap, wrap]
    simp only [mmGranMask, mmMinChunk, mmMinShift, sizeofMmAllocnode, andNot_two_pow]
    omega
  omega

theorem malloc_congr {g n k : Nat} {m : Memory} (hn : n ≠ 0) (hk : k ≠ 0)
    (h : chunkSize n = chunkSize k) : malloc g m n = malloc g m k := by
  unfold chunkSize at h
  unfold malloc
  rw [if_neg hn, if_neg hk, h]

section

variable {g n : Nat} {m : Memory} {rs : List Region} {ns : List (Nat × Nat)}

theorem searchFit_zero (m : Memory) (node : Nat) : searchFit m 0 loopBound node = some node := by
  obtain ⟨f, hf⟩ : ∃ f, loopBound = f + 1 := ⟨loopBound - 1, rfl⟩
  rw [hf, searchFit, if_neg fun h => Nat.not_lt_zero _ h.2]

theorem mmAddfreechunk_empty {a : Nat} (h : nodeSize m a = 0) :
    Mm.mmAddfreechunk g m a = some (linkIn m (nodeAt g 0) a (flink m (nodeAt g 0))) := by
  obtain ⟨f, hf⟩ : ∃ f, loopBound = f + 1 := ⟨loopBound - 1, rfl⟩
  have hndx : mmSize2ndx 0 = 0 := rfl
  have hsearch : ∀ next, searchBin m 0 loopBound (nodeAt g 0) next = some (nodeAt g 0, next) := by
    intro next
    rw [hf, searchBin, if_neg fun h => Nat.not_lt_zero _ h.2.2]
  rw [Mm.mmAddfreechunk, h, hndx]
  dsimp only
  rw [hsearch]
  rfl

theorem NodeList.first_split (h : NodeList g m ns) :
    ∃ l k r, ns = l ++ [(nodeAt g 0, 0)] ++ k :: r := by
  obtain ⟨l, r, rfl⟩ := List.append_of_mem (h.heads 0 (by decide))
  cases r with
  | cons k r => exact ⟨l, k, r, by simp⟩
  | nil =>
      have hs := (List.pairwise_append.mp h.sorted).2.2
      have hk := h.heads 1 (by decide)
      rcases List.mem_append.mp hk with hk | hk
      · have hr := hs _ hk _ List.mem_cons_self
        rw [rank_head, rank_head] at hr
        omega
      · have he := List.mem_singleton.mp hk
        simp only [nodeAt, sizeofMmFreenode, Prod.mk.injEq] at he
        omega

theorem Rep.mallocTake_empty {l r : List (Nat × Nat)} {k : Nat × Nat} (R : Rep g m rs)
    (N : NodeList g m (l ++ [(nodeAt g 0, 0)] ++ k :: r))
    (hfree : k.2 ≠ 0 → (k.1, (⟨k.2, false⟩ : Chunk)) ∈ blocks rs) :
    ∃ m', Mm.mallocTake g m k.1 0 = some (m', k.1 + 8) ∧ nodeSize m' k.1 = 0 := by
  have hk : k ∈ l ++ [(nodeAt g 0, 0)] ++ k :: r := by simp
  have hap : ∀ q ∈ l ++ [(nodeAt g 0, 0)] ++ k :: r, EqOrApart k.1 q.1 :=
    fun q hq => N.apart_of_mem hk hq
  have hhead : EqOrApart k.1 (nodeAt g 0) := hap (nodeAt g 0, 0) (by simp)
  have hr : ∀ q ∈ r, EqOrApart k.1 q.1 := fun q hq => hap q (by simp [hq])
  have hunlink := N.unlink_eq
  have hsize : nodeSize (Mm.unlink m k.1) k.1 = k.2 := by
    rw [← N.sizes k hk]
    refine nodeSize_congr fun x h1 h2 => ?_
    unfold EqOrApart at hhead hr
    rw [hunlink]
    cases r with
    | nil => exact setFlink_of_outside (by unfold inLinks; dsimp only; omega)
    | cons q r =>
        have hq := hr q List.mem_cons_self
        dsimp only
        rw [setBlink_of_outside (by unfold inLinks; omega),
          setFlink_of_outside (by unfold inLinks; omega)]
  unfold Mm.mallocTake
  dsimp only
  rw [hsize, Nat.sub_zero, Nat.add_zero]
  by_cases h0 : k.2 = 0
  · rw [if_neg (by simp [h0])]
    refine ⟨_, rfl, ?_⟩
    rw [nodeSize_setPreceding (by omega), hsize, h0]
  · have hb := hfree h0
    obtain ⟨h16, h31⟩ := N.chunk k hk h0
    have htable := (R.layout.bounds hb).2.2.2
    dsimp only at htable
    rw [if_pos h16]
    obtain ⟨m₂, hm₂⟩ : ∃ m₂, setPreceding (setSize (setPreceding (setSize (Mm.unlink m k.1) k.1 k.2)
        k.1 0) k.1 0) (k.1 + k.2) (keepAlloc k.2 (preceding (setSize (setPreceding
          (setSize (Mm.unlink m k.1) k.1 k.2) k.1 0) k.1 0) (k.1 + k.2))) = m₂ := ⟨_, rfl⟩
    have hempty : nodeSize m₂ k.1 = 0 := by
      rw [← hm₂, nodeSize_setPreceding (by omega), nodeSize_setSize (by omega)]
    have hlinks : flink m₂ (nodeAt g 0) = flink (Mm.unlink m k.1) (nodeAt g 0) := by
      refine flink_congr fun x hx => ?_
      simp only [inLinks, nodeAt, sizeofMmFreenode] at hx
      rw [← hm₂, setPreceding_of_outside (by omega), setSize_of_outside (by omega),
        setPreceding_of_outside (by omega), setSize_of_outside (by omega)]
    have hnext : flink m₂ (nodeAt g 0) = headAddr r := by
      have N₁ : NodeList g (Mm.unlink m k.1) (l ++ (nodeAt g 0, 0) :: r) := by
        rw [List.append_cons]
        exact (N.unlink h0).1
      rw [hlinks]
      exact N₁.flink_eq
    rw [hm₂, mmAddfreechunk_empty hempty]
    refine ⟨_, rfl, ?_⟩
    have hnodes : ∀ q ∈ l ++ (nodeAt g 0, 0) :: r, EqOrApart k.1 q.1 := by
      intro q hq
      apply hap
      rcases List.mem_append.mp hq with hl | hq
      · simp [hl]
      · rcases List.mem_cons.mp hq with hh | hr
        · simp [hh]
        · simp [hr]
    have hkeep := linkIn_size (m := m₂) (p := (nodeAt g 0, 0)) (a := k.1) hnodes (.inl rfl)
    dsimp only at hkeep
    rw [nodeSize_setPreceding (by omega), hnext, hkeep, hempty]

theorem Rep.malloc_empty (R : Rep g m rs) (hn : n ≠ 0) (h : chunkSize n = 0) :
    ∃ m' p, Mm.malloc g m n = some (m', p) ∧ 8 ≤ p ∧ nodeSize m' (p - 8) = 0 := by
  obtain ⟨ns, N, hfree⟩ := R.nodes
  obtain ⟨l, k, r, rfl⟩ := N.first_split
  have hk := (N.range k (by simp)).1
  have hlink : flink m (nodeAt g 0) = k.1 := by
    have N₁ : NodeList g m (l ++ (nodeAt g 0, 0) :: k :: r) := by
      rw [List.append_cons]
      exact N
    exact N₁.flink_eq
  obtain ⟨m', e, hsize⟩ := R.mallocTake_empty N fun h0 => (hfree k.1 k.2 h0).mp (by simp)
  refine ⟨m', k.1 + 8, ?_, by omega, by rw [Nat.add_sub_cancel]; exact hsize⟩
  have hndx : mmSize2ndx 0 = 0 := rfl
  unfold chunkSize at h
  rw [Mm.malloc, if_neg hn]
  dsimp only
  rw [h, malloc_ndx, hndx, hlink, searchFit_zero, Option.bind_eq_bind, Option.bind_some,
    if_neg (by omega), e]

end

section

variable {h : Heap} {rs : List Region} {n : Nat}

/-- What `malloc` does for any size: when it returns `NULL`, and how much room a block has. -/
structure Served (h : Heap) (n : Nat) (m' : Memory) (ret : Nat) : Prop where
  null : ret = 0 ↔ n = 0 ∨ NoFit h (chunkSize n)
  header : ret ≠ 0 → 8 ≤ ret
  small : ret ≠ 0 → ({ h with mem := m' } : Heap).payload ret < 2 ^ 31
  room : ret ≠ 0 → n + 23 < 2 ^ 32 → n ≤ ({ h with mem := m' } : Heap).payload ret

theorem HeapRep.malloc_fits (H : HeapRep h rs) (hw : n + 23 < 2 ^ 32) :
    ∃ m' ret, Mm.malloc h.gNodelist h.mem n = some (m', ret) ∧ Served h n m' ret := by
  obtain ⟨m', ret, rs', e, O, _, hnull, hsome⟩ := H.malloc hw
  have hpay : ret ≠ 0 → 8 ≤ ret ∧ n ≤ ({ h with mem := m' } : Heap).payload ret ∧
      ({ h with mem := m' } : Heap).payload ret < 2 ^ 31 := by
    intro h0
    obtain ⟨a, c, d, rfl, _, _, _, hd, E⟩ := hsome h0
    have hb : (a, (⟨d, true⟩ : Chunk)) ∈ blocks rs' := (E.edit.alloc _ rfl).mpr (.inr rfl)
    have hbounds := (O.heap.rep.layout.bounds hb).2.2.1
    dsimp only at hbounds
    rw [O.heap.payload_eq hb]
    omega
  refine ⟨m', ret, e, ⟨?_, fun h0 => (hpay h0).1, fun h0 => (hpay h0).2.2,
    fun h0 _ => (hpay h0).2.1⟩⟩
  rw [chunkSize_of_lt hw]
  constructor
  · intro h0
    by_cases hn : n = 0
    · exact .inl hn
    · have hlow := need_low (n := n) (by omega)
      exact .inr ⟨by omega, fun x hx hf => hnull h0 (by omega) _ (H.free_node.mp ⟨hx, hf⟩) rfl⟩
  · rintro (rfl | ⟨_, hfit⟩)
    · rw [malloc_zero] at e
      cases e
      rfl
    · by_contra h0
      obtain ⟨a, c, d, rfl, hfree, hs, _⟩ := hsome h0
      obtain ⟨h1, h2, h3⟩ := H.free_block hfree
      have := hfit a h1 h2
      omega

theorem HeapRep.malloc_served (H : HeapRep h rs) (hn : n < 2 ^ 32) :
    ∃ m' ret, Mm.malloc h.gNodelist h.mem n = some (m', ret) ∧ Served h n m' ret := by
  by_cases hw : n + 23 < 2 ^ 32
  · exact H.malloc_fits hw
  · rcases chunkSize_wrapped hn (by omega) with hsize | hsize
    · obtain ⟨m', ret, e, hret, hpay⟩ := H.rep.malloc_empty (n := n) (by omega) hsize
      have hzero : ({ h with mem := m' } : Heap).payload ret = 0 := by
        show nodeSize m' (ret - 8) - 8 = 0
        rw [hpay]
      refine ⟨m', ret, e, ⟨⟨fun h0 => absurd h0 (by omega), ?_⟩, fun _ => hret,
        fun _ => by rw [hzero]; omega, fun _ h0 => absurd h0 hw⟩⟩
      rintro (h0 | ⟨h0, _⟩)
      · omega
      · exact absurd hsize h0
    · -- The request is served as one for eight bytes.
      have hsmall : chunkSize n = chunkSize 8 := by
        rw [hsize]
        rfl
      obtain ⟨m', ret, e, hres⟩ := H.malloc_fits (n := 8) (by decide)
      refine ⟨m', ret, by rw [malloc_congr (by omega) (by decide) hsmall, e], ⟨?_, hres.header,
        hres.small, fun _ h0 => absurd h0 hw⟩⟩
      rw [hres.null, hsmall]
      constructor
      · rintro (h0 | h0)
        · cases h0
        · exact .inr h0
      · rintro (h0 | h0)
        · omega
        · exact .inr h0

end

section

variable {s : State} {rs : List Region} {c : Call} {m' : Memory} {n e k p ret : Nat}

theorem room_of_run {r : Heap × Nat} (h : c.run s.heap = some r) :
    Room s c n ↔ (r.2 ≠ 0 → n ≤ r.1.payload r.2) := by
  constructor
  · exact fun hr => hr r.1 r.2 h
  · intro hr h' ret he
    rw [h] at he
    cases he
    exact hr

/-- A call that hands its request to `malloc` has room exactly when the request
does not wrap or nothing fits. -/
theorem Served.room_iff (hs : Served s.heap n m' ret) (hn : n < 2 ^ 32)
    (h : c.run s.heap = some (s.heap.set (m', ret))) :
    Room s c n ↔ n + 23 < 2 ^ 32 ∨ NoFit s.heap (chunkSize n) := by
  rw [room_of_run h]
  constructor
  · intro hroom
    by_cases h0 : ret = 0
    · rcases hs.null.mp h0 with hn0 | hfit
      · exact .inl (by omega)
      · exact .inr hfit
    · have h1 : n ≤ (s.heap.set (m', ret)).1.payload ret := hroom h0
      have h2 : (s.heap.set (m', ret)).1.payload ret < 2 ^ 31 := hs.small h0
      exact .inl (by omega)
  · rintro (hw | hfit) h0
    · exact hs.room h0 hw
    · exact absurd (hs.null.mpr (.inr hfit)) h0

theorem Inv.malloc_room (I : Inv s rs) (hn : n < 2 ^ 32) :
    Room s (.malloc n) n ↔ n + 23 < 2 ^ 32 ∨ NoFit s.heap (chunkSize n) := by
  obtain ⟨m', ret, he, hs⟩ := I.heap.malloc_served hn
  exact hs.room_iff hn (congrArg (Option.map s.heap.set) he)

theorem Inv.realloc_null_room (I : Inv s rs) (hn : n < 2 ^ 32) :
    Room s (.realloc 0 n) n ↔ n + 23 < 2 ^ 32 ∨ NoFit s.heap (chunkSize n) := by
  obtain ⟨m', ret, he, hs⟩ := I.heap.malloc_served hn
  have hrun : (Call.realloc 0 n).run s.heap = some (s.heap.set (m', ret)) := by
    rw [Call.run, realloc_null, he]
    rfl
  exact hs.room_iff hn hrun

theorem Inv.memalign_small_room (I : Inv s rs) (hn : n < 2 ^ 32) (hk : k < 5) :
    Room s (.memalign (2 ^ k) n) n ↔ n + 23 < 2 ^ 32 ∨ NoFit s.heap (chunkSize n) := by
  obtain ⟨m', ret, he, hs⟩ := I.heap.malloc_served hn
  have hmin : 2 ^ k ≤ mmMinChunk := Nat.pow_le_pow_right (by decide) (by omega : k ≤ 4)
  have hrun : (Call.memalign (2 ^ k) n).run s.heap = some (s.heap.set (m', ret)) := by
    rw [Call.run, Mm.memalign, if_pos hmin, he]
    rfl
  exact hs.room_iff hn hrun

theorem Inv.realloc_room (I : Inv s rs) (hp : p ∈ s.live) (hw : n + 39 < 2 ^ 32)
    (hs : (Call.realloc p n).safe s.heap) : Room s (.realloc p n) n := by
  have hneed : need n + 23 < 2 ^ 32 := by
    unfold need
    omega
  have h0 : p ≠ 0 := by
    obtain ⟨a, d, rfl, _⟩ := (I.live p).mp hp
    omega
  obtain ⟨m', ret, rs', he, _, _, hres⟩ := I.heap.realloc (I.held (.inr hp)) hneed hs
  have hrun : (Call.realloc p n).run s.heap = some (s.heap.set (m', ret)) :=
    congrArg (Option.map s.heap.set) he
  rw [room_of_run hrun]
  intro hret
  by_cases hn : n = 0
  · omega
  · exact ((hres h0 hn).2 hret).1

theorem Inv.memalign_room (I : Inv s rs) (hk : 5 ≤ k)
    (hw : (n + 15) / 16 * 16 + 2 * 2 ^ k + 23 < 2 ^ 32) : Room s (.memalign (2 ^ k) n) n := by
  obtain ⟨m', ret, he, hres, _⟩ := I.heap.rep.memalign hk hw
  have hrun : (Call.memalign (2 ^ k) n).run s.heap = some (s.heap.set (m', ret)) :=
    congrArg (Option.map s.heap.set) he
  rw [room_of_run hrun]
  intro hret
  cases hres with
  | null => exact absurd rfl hret
  | block _ rs' a d hd E hf =>
      have O := E.outcome_new I.heap hf
      have hb : (a, (⟨d, true⟩ : Chunk)) ∈ blocks rs' := (E.edit.alloc _ rfl).mpr (.inr rfl)
      show n ≤ ({ s.heap with mem := m' } : Heap).payload (a + 8)
      rw [O.heap.payload_eq hb]
      omega

theorem Inv.calloc_room (I : Inv s rs) :
    Room s (.calloc n e) (n * e) ↔ n * e + 23 < 2 ^ 32 ∨ wrap (n * e) = 0 ∨
      NoFit s.heap (chunkSize (wrap (n * e))) := by
  by_cases hz : n > 0 ∧ e > 0
  · have hpos : 0 < n * e := Nat.mul_pos hz.1 hz.2
    have hlt : wrap (n * e) < 2 ^ 32 := Nat.mod_lt _ (by decide)
    have hle : wrap (n * e) ≤ n * e := Nat.mod_le _ _
    have hmod : n * e < 2 ^ 32 → wrap (n * e) = n * e := fun h => Nat.mod_eq_of_lt h
    obtain ⟨m', ret, he, hs⟩ := I.heap.malloc_served hlt
    obtain ⟨m₂, hm₂⟩ : ∃ m₂, (if ret ≠ 0 then fillUp m' ret 0 (wrap (n * e)) else m') = m₂ :=
      ⟨_, rfl⟩
    have hrun : (Call.calloc n e).run s.heap = some (s.heap.set (m₂, ret)) := by
      rw [Call.run, Mm.calloc, if_pos hz, Mm.zalloc, he, Option.bind_eq_bind, Option.bind_some]
      dsimp only
      rw [hm₂]
      rfl
    have hpay : ret ≠ 0 → ({ s.heap with mem := m₂ } : Heap).payload ret =
        ({ s.heap with mem := m' } : Heap).payload ret := by
      intro h0
      have h8 := hs.header h0
      unfold Heap.payload
      rw [← hm₂, if_pos h0]
      refine congrArg (· - sizeofMmAllocnode) (nodeSize_congr fun x _ h2 => ?_)
      simp only [sizeofMmAllocnode] at h2
      exact fillUp_of_outside (by omega)
    rw [room_of_run hrun]
    constructor
    · intro hroom
      by_cases h0 : ret = 0
      · exact .inr (hs.null.mp h0)
      · have h1 : n * e ≤ (s.heap.set (m₂, ret)).1.payload ret := hroom h0
        have h2 : (s.heap.set (m', ret)).1.payload ret < 2 ^ 31 := hs.small h0
        have h3 : (s.heap.set (m₂, ret)).1.payload ret = (s.heap.set (m', ret)).1.payload ret :=
          hpay h0
        exact .inl (by omega)
    · intro hcond h0
      show n * e ≤ ({ s.heap with mem := m₂ } : Heap).payload ret
      rcases hcond with hw | hnull
      · have hroom := hs.room h0
        rw [hmod (by omega)] at hroom
        rw [hpay h0]
        exact hroom hw
      · exact absurd (hs.null.mpr hnull) h0
  · have hrun : (Call.calloc n e).run s.heap = some (s.heap.set (s.heap.mem, 0)) := by
      rw [Call.run, Mm.calloc, if_neg hz]
      rfl
    have hprod : n * e = 0 := by
      rcases Nat.eq_zero_or_pos n with hn | hn
      · rw [hn, Nat.zero_mul]
      · have he : e = 0 := by omega
        rw [he, Nat.mul_zero]
    rw [room_of_run hrun]
    exact ⟨fun _ => .inl (by omega), fun _ h0 => absurd rfl h0⟩

end

/-- The call returns a block with less room than `n` bytes. -/
def shortBlock (s : State) (c : Call) (n : Nat) : Bool :=
  (c.run s.heap).any fun r => decide (r.2 ≠ 0 ∧ r.1.payload r.2 < n)

theorem not_room {s : State} {c : Call} {n : Nat} (h : shortBlock s c n = true) : ¬ Room s c n := by
  intro hroom
  obtain ⟨r, hr, hshort⟩ := (Option.any_eq_true _ _).mp h
  obtain ⟨h0, hlt⟩ := of_decide_eq_true hshort
  have := hroom r.1 r.2 hr h0
  omega

end NuttxAvr32.Mm
