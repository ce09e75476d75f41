import NuttxAvr32.Mm.Calls

/-! # The heap stays tiled

`mm_realloc.c` and `mm_free.c` make free chunks out of what is left of others,
and a chunk that `memalign` cut to an odd multiple of eight bytes can leave eight
bytes: too few for the links of a free node, which then lie in the next header.
As long as no call leaves such a rest, every region stays tiled.
-/

namespace NuttxAvr32.Mm

open ByteMemory Runs

/-- The walks of all regions end at `g_heapend`, every `preceding` word is the
size of the node before, every free chunk holds a free node, and `mallinfo`
accounts for the whole heap. -/
structure HeapTiled (h : Heap) : Prop where
  walks : ∀ b ∈ h.regions, ∃ nodes, walk h.mem b.2 loopBound b.1 = some nodes ∧
    nodes.IsChain (Follows h.mem) ∧ ∀ x ∈ nodes, IsFree h.mem x → sizeofMmFreenode ≤ nodeSize h.mem x
  info : ∃ info, mallinfo h = some info ∧ info.uordblks + info.fordblks = h.gHeapsize

theorem HeapRep.tiled {h : Heap} {rs : List Region} (H : HeapRep h rs) : HeapTiled h := by
  refine ⟨fun b hb => ?_, ?_⟩
  · obtain ⟨r, hr, rfl, he⟩ := H.walk hb
    refine ⟨_, he, region_follows H.rep.tiled H.rep.layout hr, fun x hx hf => ?_⟩
    have hfree := (region_free H.rep.tiled H.rep.layout hr).mp ⟨hx, hf⟩
    exact H.rep.low (mem_blocks.mpr ⟨r, hr, hfree⟩) rfl
  · obtain ⟨info, e, hsum, _⟩ := H.mallinfo
    exact ⟨info, e, hsum⟩

/-- In a run without eight-byte rests the heap is tiled throughout, and every
call that is again of this kind returns. -/
theorem heap_tiled {s : State} (h : Reach heapMachine Started (fun s c => c.safe s.heap) s) :
    HeapTiled s.heap ∧
      ∀ c : Call, c.valid s → c.safe s.heap → ∃ s', heapMachine.exec s c = some s' := by
  obtain ⟨rs, I⟩ := reach_safe h
  refine ⟨I.heap.tiled, fun c hv hs => ?_⟩
  obtain ⟨s', _, e, _⟩ := I.step hv hs
  exact ⟨s', e⟩

theorem heap_tiled_run : ∃ s, runFrom (fun s c => c.safe s.heap) (fun _ => 0xAA) 256 1024 256
    [.malloc 40, .memalign 32 16, .realloc 1040 24, .free 1040] = some s ∧ HeapTiled s.heap := by
  obtain ⟨s, hs⟩ := Option.isSome_iff_exists.mp (show (runFrom (fun s c => c.safe s.heap)
    (fun _ => 0xAA) 256 1024 256
    [.malloc 40, .memalign 32 16, .realloc 1040 24, .free 1040]).isSome by decide +kernel)
  exact ⟨s, hs, (heap_tiled (reach_runFrom ⟨by decide, by decide⟩ (by decide) hs)).1⟩

/-- Some walk meets a free chunk that is too small for a free node. -/
def smallFree (h : Heap) : Bool :=
  h.regions.any fun b => ((walk h.mem b.2 loopBound b.1).getD []).any fun x =>
    decide (IsFree h.mem x ∧ nodeSize h.mem x < sizeofMmFreenode)

theorem HeapTiled.not_smallFree {h : Heap} (H : HeapTiled h) : smallFree h = false := by
  rw [smallFree, List.any_eq_false]
  intro b hb hany
  obtain ⟨nodes, e, _, hfree⟩ := H.walks b hb
  rw [e] at hany
  obtain ⟨x, hx, hsmall⟩ := List.any_eq_true.mp hany
  obtain ⟨hf, hlt⟩ := of_decide_eq_true hsmall
  have := hfree x hx hf
  omega

/-- `memalign` leaves a free chunk of 24 bytes behind the second block, which
`realloc` then takes but for eight bytes. -/
theorem heap_tiling_broken : ∃ s, runFrom (fun _ _ => True) (fun _ => 0xAA) 256 1024 256
      [.memalign 32 16, .malloc 168, .realloc 1080 184] = some s ∧
    Reachable heapMachine Started s ∧ ¬ HeapTiled s.heap := by
  obtain ⟨s, hs, hsmall⟩ := (Option.any_eq_true _ _).mp (show (runFrom (fun _ _ => True)
    (fun _ => 0xAA) 256 1024 256 [.memalign 32 16, .malloc 168, .realloc 1080 184]).any
      (fun s => smallFree s.heap) = true by decide +kernel)
  refine ⟨s, hs, reach_runFrom ⟨by decide, by decide⟩ (by decide) hs, fun H => ?_⟩
  rw [H.not_smallFree] at hsmall
  cases hsmall

end NuttxAvr32.Mm
