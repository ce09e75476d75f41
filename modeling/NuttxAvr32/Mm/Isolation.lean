import NuttxAvr32.Mm.Calls

/-! # Blocks are isolated from each other

The payload of a live block belongs to the program: no call writes to it except
the one that is given the block, and `realloc` carries it over.
-/

namespace NuttxAvr32.Mm

open ByteMemory Runs

def PayloadsApart (h : Heap) (p q : Nat) : Prop :=
  p + h.payload p ≤ q ∨ q + h.payload q ≤ p

/-- The payloads of the live blocks are disjoint and lie inside a region. -/
structure Separated (s : State) : Prop where
  apart : s.live.Pairwise (PayloadsApart s.heap)
  inside : ∀ p ∈ s.live, ∃ b ∈ s.heap.regions, b.1 + sizeofMmAllocnode ≤ p ∧
    p + s.heap.payload p ≤ b.2

/-- The block at `q` is live after the call, with its contents. -/
structure Untouched (s s' : State) (q : Nat) : Prop where
  live : q ∈ s'.live
  payload : s'.heap.payload q = s.heap.payload q
  contents : ∀ i < s.heap.payload q, s'.heap.mem (q + i) = s.heap.mem (q + i)

/-- What `realloc(p, n)` with `n > 0` returns, and what it does to the block. -/
structure Resized (s s' : State) (p n ret : Nat) : Prop where
  null : ret = 0 → Untouched s s' p
  room : ret ≠ 0 → ret ∈ s'.live ∧ n ≤ s'.heap.payload ret
  copied : ret ≠ 0 → ∀ i < min (s.heap.payload p) n, s'.heap.mem (ret + i) = s.heap.mem (p + i)

section

variable {s : State} {c : Call} {rs rs' : List Region} {h' : Heap} {ret q : Nat}

theorem HeapRep.payload_eq {h : Heap} (H : HeapRep h rs) {a d : Nat}
    (hb : (a, (⟨d, true⟩ : Chunk)) ∈ blocks rs) : h.payload (a + 8) = d - 8 := by
  have hsz := H.rep.tiled.size hb
  dsimp only at hsz
  show nodeSize h.mem (a + 8 - 8) - 8 = d - 8
  rw [Nat.add_sub_cancel, hsz]

theorem Inv.separated (I : Inv s rs) : Separated s := by
  constructor
  · apply I.nodup.imp_of_mem
    intro p q hp hq hne
    obtain ⟨a, d, rfl, ha⟩ := (I.live p).mp hp
    obtain ⟨b, e, rfl, hb⟩ := (I.live q).mp hq
    have hpos := (I.heap.rep.layout.chunkOk ha).pos
    have hpos' := (I.heap.rep.layout.chunkOk hb).pos
    unfold PayloadsApart
    rw [I.heap.payload_eq ha, I.heap.payload_eq hb]
    dsimp only at hpos hpos'
    rcases I.heap.rep.layout.blocks_apart ha hb with he | he | he
    · cases he
      exact absurd rfl hne
    · dsimp only at he
      omega
    · dsimp only at he
      omega
  · intro p hp
    obtain ⟨a, d, rfl, ha⟩ := (I.live p).mp hp
    obtain ⟨r, hr, har⟩ := mem_blocks.mp ha
    have hb := place_bounds har
    have hpos := (I.heap.rep.layout.chunkOk ha).pos
    dsimp only at hb hpos
    refine ⟨r.bounds, ?_, ?_, ?_⟩
    · rw [I.heap.bounds]
      exact List.mem_map_of_mem hr
    · show r.base + 8 ≤ a + 8
      omega
    · rw [I.heap.payload_eq ha]
      show a + 8 + (d - 8) ≤ r.base + 8 + total r.mid
      omega

theorem Outcome.untouched (I : Inv s rs) (O : Outcome s.heap h' rs rs' (c.gone ret) ret)
    (hq : q ∈ s.live) (hne : q ≠ c.gone ret) : Untouched s (s.after c (h', ret)) q := by
  obtain ⟨a, d, rfl, ha⟩ := (I.live q).mp hq
  obtain ⟨hin, hkept⟩ := O.kept a d ha hne
  have I' := O.inv I
  refine ⟨(I'.live _).mpr ⟨a, d, rfl, hin⟩, ?_, fun i hi => ?_⟩
  · show h'.payload (a + 8) = s.heap.payload (a + 8)
    rw [O.heap.payload_eq hin, I.heap.payload_eq ha]
  · rw [I.heap.payload_eq ha] at hi
    exact hkept (a + 8 + i) (by omega) (by omega)

end

/-- In a run without `memalign` the live blocks are disjoint, a call leaves every
live block but the one it gives up as it was, and `realloc` keeps the contents. -/
theorem blocks_isolated {s : State} (h : Reach heapMachine Started (fun _ c => ¬ c.IsMemalign) s) :
    Separated s ∧
      (∀ c : Call, c.valid s → ¬ c.IsMemalign → ¬ c.IsWrite →
        ∃ h' ret, c.run s.heap = some (h', ret) ∧
          ∀ q ∈ s.live, q ≠ c.gone ret → Untouched s (s.after c (h', ret)) q) ∧
      ∀ p ∈ s.live, ∀ n > 0, (Call.realloc p n).valid s →
        ∃ h' ret, (Call.realloc p n).run s.heap = some (h', ret) ∧
          Resized s (s.after (.realloc p n) (h', ret)) p n ret := by
  obtain ⟨rs, I, ht⟩ := reach_tidy h
  refine ⟨I.separated, fun c hv hm hw => ?_, fun p hp n hn hv => ?_⟩
  · obtain ⟨h', ret, rs', e, O, _⟩ := I.outcome hv (I.tidy_safe ht hv hm) hw
    exact ⟨h', ret, e, fun q hq hne => O.untouched I hq hne⟩
  · obtain ⟨m', ret, rs', e, O, _, hres⟩ :=
      I.heap.realloc (I.held hv.1) hv.2 (I.tidy_safe ht hv id)
    obtain ⟨a, d, hpa, ha⟩ := (I.live p).mp hp
    obtain ⟨_, hdone⟩ := hres (by omega) (by omega)
    refine ⟨{ s.heap with mem := m' }, ret, congrArg (Option.map s.heap.set) e,
      fun h0 => ?_, fun h0 => ⟨?_, (hdone h0).1⟩, fun h0 i hi => ?_⟩
    · have hgone : (Call.realloc p n).gone ret = 0 := if_pos ⟨by omega, h0⟩
      exact O.untouched I hp (by omega)
    · exact ((O.inv I).live ret).mpr ((O.owned ret).mpr (.inr ⟨rfl, h0⟩))
    · exact (hdone h0).2 i (by omega) (by omega)

theorem blocks_isolated_run : ∃ s, runFrom (fun _ c => ¬ c.IsMemalign) (fun _ => 0xAA) 256 1024 512
    [.malloc 40, .malloc 24, .write 1088 3 7, .free 1040, .realloc 1088 60] = some s ∧
      Separated s := by
  obtain ⟨s, hs⟩ := Option.isSome_iff_exists.mp (show (runFrom (fun _ c => ¬ c.IsMemalign)
    (fun _ => 0xAA) 256 1024 512
    [.malloc 40, .malloc 24, .write 1088 3 7, .free 1040, .realloc 1088 60]).isSome
      by decide +kernel)
  exact ⟨s, hs, (blocks_isolated (reach_runFrom ⟨by decide, by decide⟩ (by decide) hs)).1⟩

end NuttxAvr32.Mm
