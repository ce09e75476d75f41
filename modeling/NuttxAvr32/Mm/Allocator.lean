import NuttxAvr32.Mm.Internal

/-! # The allocator

`malloc`, `free`, `realloc`, `memalign` and their helpers over the flat memory.
`g` is the address of `g_nodelist`. Every function returns `none` only where a
list loop of the source would not end. The semaphore calls, which order the
callers and touch none of this state, are left out.
-/

namespace NuttxAvr32.Mm

open ByteMemory

/-- `node->blink->flink = node->flink; if (node->flink) node->flink->blink = node->blink;` -/
def unlink (m : Memory) (node : Nat) : Memory :=
  let m := setFlink m (blink m node) (flink m node)
  if flink m node ≠ 0 then setBlink m (flink m node) (blink m node) else m

/-- The search of `mm_addfreechunk`: advance while
`next && next->size && next->size < size`. -/
def searchBin (m : Memory) (size : Nat) : Nat → Nat → Nat → Option (Nat × Nat)
  | 0, _, _ => none
  | fuel + 1, prev, next =>
    if next ≠ 0 ∧ nodeSize m next ≠ 0 ∧ nodeSize m next < size then
      searchBin m size fuel next (flink m next)
    else some (prev, next)

def mmAddfreechunk (g : Nat) (m : Memory) (node : Nat) : Option Memory := do
  let head := nodeAt g (mmSize2ndx (nodeSize m node))
  let (prev, next) ← searchBin m (nodeSize m node) loopBound head (flink m head)
  let m := setFlink m prev node
  let m := setBlink m node prev
  let m := setFlink m node next
  some (if next ≠ 0 then setBlink m next node else m)

/-- The search of `malloc`: advance while `node && node->size < size`. -/
def searchFit (m : Memory) (size : Nat) : Nat → Nat → Option Nat
  | 0, _ => none
  | fuel + 1, node =>
    if node ≠ 0 ∧ nodeSize m node < size then searchFit m size fuel (flink m node)
    else some node

/-- The block of `malloc` that takes `size` bytes from the free chunk `node`. -/
def mallocTake (g : Nat) (m : Memory) (node size : Nat) : Option (Memory × Nat) := do
  let m := unlink m node
  let remaining := nodeSize m node - size
  let m ←
    if remaining ≥ sizeofMmFreenode then
      let next := node + nodeSize m node
      let remainder := node + size
      let m := setSize m remainder remaining
      let m := setPreceding m remainder size
      let m := setSize m node size
      let m := setPreceding m next (keepAlloc remaining (preceding m next))
      mmAddfreechunk g m remainder
    else some m
  some (setPreceding m node (setAlloc (preceding m node)), node + sizeofMmAllocnode)

def malloc (g : Nat) (m : Memory) (size : Nat) : Option (Memory × Nat) :=
  if size = 0 then some (m, 0)
  else do
    let size := mmAlignUp (wrap (size + sizeofMmAllocnode))
    let ndx := if size ≥ mmMaxChunk then mmNnodes - 1 else mmSize2ndx size
    let node ← searchFit m size loopBound (flink m (nodeAt g ndx))
    if node = 0 then some (m, 0) else mallocTake g m node size

def zalloc (g : Nat) (m : Memory) (size : Nat) : Option (Memory × Nat) := do
  let (m, alloc) ← malloc g m size
  some (if alloc ≠ 0 then fillUp m alloc 0 size else m, alloc)

def calloc (g : Nat) (m : Memory) (n elemSize : Nat) : Option (Memory × Nat) :=
  if n > 0 ∧ elemSize > 0 then zalloc g m (wrap (n * elemSize)) else some (m, 0)

/-- The first half of `free`: the chunk after `node` is merged into it when it
is free. Returns the chunk that now follows. -/
def freeMergeNext (m : Memory) (node : Nat) : Memory × Nat :=
  let next := node + nodeSize m node
  if isAllocated (preceding m next) then (m, next)
  else
    let andbeyond := next + nodeSize m next
    let m := unlink m next
    let m := setSize m node (nodeSize m node + nodeSize m next)
    let m := setPreceding m andbeyond (keepAlloc (nodeSize m node) (preceding m andbeyond))
    (m, andbeyond)

/-- The second half of `free`: `node` is merged into the chunk before it when
that one is free. Returns the chunk that is to be linked in. -/
def freeMergePrev (m : Memory) (node next : Nat) : Memory × Nat :=
  let prev := node - preceding m node
  if isAllocated (preceding m prev) then (m, node)
  else
    let m := unlink m prev
    let m := setSize m prev (nodeSize m prev + nodeSize m node)
    let m := setPreceding m next (keepAlloc (nodeSize m prev) (preceding m next))
    (m, prev)

def free (g : Nat) (m : Memory) (mem : Nat) : Option Memory :=
  if mem = 0 then some m
  else
    let node := mem - sizeofMmAllocnode
    let m := setPreceding m node (clearAlloc (preceding m node))
    let afterNext := freeMergeNext m node
    let afterPrev := freeMergePrev afterNext.1 node afterNext.2
    mmAddfreechunk g afterPrev.1 afterPrev.2

def mmShrinkchunk (g : Nat) (m : Memory) (node size : Nat) : Option Memory :=
  let next := node + nodeSize m node
  if isAllocated (preceding m next) = false then
    let andbeyond := next + nodeSize m next
    let m := unlink m next
    let newnode := node + size
    let m := setSize m newnode (nodeSize m next + nodeSize m node - size)
    let m := setPreceding m newnode size
    let m := setSize m node size
    let m := setPreceding m andbeyond (keepAlloc (nodeSize m newnode) (preceding m andbeyond))
    mmAddfreechunk g m newnode
  else if nodeSize m node ≥ size + sizeofMmFreenode then
    let newnode := node + size
    let m := setSize m newnode (nodeSize m node - size)
    let m := setPreceding m newnode size
    let m := setSize m node size
    let m := setPreceding m next (setAlloc (nodeSize m newnode))
    mmAddfreechunk g m newnode
  else some m

/-- How many bytes `realloc` takes from the free chunk before the block and
from the one after it; a neighbour of size zero is not free. -/
def reallocTakes (prevsize nextsize needed : Nat) : Nat × Nat :=
  if prevsize > 0 ∧ (nextsize ≥ prevsize ∨ nextsize = 0) then
    if needed > prevsize then (prevsize, needed - prevsize) else (needed, 0)
  else if nextsize > 0 ∧ needed ≠ 0 then
    if needed > nextsize then (needed - nextsize, nextsize) else (0, needed)
  else (0, 0)

/-- Extend into the previous free chunk and move the contents down. Returns the
chunk that now holds the block. -/
def reallocTakeprev (g : Nat) (m : Memory) (prev oldnode next prevsize oldsize takeprev : Nat) :
    Option (Memory × Nat) := do
  let m := unlink m prev
  let newnode := oldnode - takeprev
  let m ←
    if takeprev < prevsize then
      let m := setSize m prev (nodeSize m prev - takeprev)
      let m := setSize m newnode (oldsize + takeprev)
      let m := setPreceding m newnode (setAlloc (nodeSize m prev))
      let m := setPreceding m next (keepAlloc (nodeSize m newnode) (preceding m next))
      mmAddfreechunk g m prev
    else
      let m := setSize m newnode (nodeSize m newnode + oldsize)
      let m := setPreceding m newnode (setAlloc (preceding m newnode))
      some (setPreceding m next (keepAlloc (nodeSize m newnode) (preceding m next)))
  some (copyUp m (newnode + sizeofMmAllocnode) (oldnode + sizeofMmAllocnode)
    (nodeSize m newnode - sizeofMmAllocnode), newnode)

def reallocTakenext (g : Nat) (m : Memory) (oldnode next nextsize oldsize takenext : Nat) :
    Option Memory :=
  let andbeyond := next + nextsize
  let m := unlink m next
  let m := setSize m oldnode (oldsize + takenext)
  let newnode := oldnode + nodeSize m oldnode
  if takenext < nextsize then
    let m := setSize m newnode (nextsize - takenext)
    let m := setPreceding m newnode (nodeSize m oldnode)
    let m := setPreceding m andbeyond (keepAlloc (nodeSize m newnode) (preceding m andbeyond))
    mmAddfreechunk g m newnode
  else
    some (setPreceding m andbeyond (keepAlloc (nodeSize m oldnode) (preceding m andbeyond)))

/-- Sizes of the free neighbours of a chunk, zero where a neighbour is allocated. -/
def freeNextsize (m : Memory) (node : Nat) : Nat :=
  let next := node + nodeSize m node
  if isAllocated (preceding m next) then 0 else nodeSize m next

def freePrevsize (m : Memory) (node : Nat) : Nat :=
  let prev := node - clearAlloc (preceding m node)
  if isAllocated (preceding m prev) then 0 else nodeSize m prev

def reallocExtend (g : Nat) (m : Memory) (oldnode size : Nat) : Option (Memory × Nat) := do
  let oldsize := nodeSize m oldnode
  let next := oldnode + oldsize
  let nextsize := freeNextsize m oldnode
  let prevsize := freePrevsize m oldnode
  let prev := oldnode - clearAlloc (preceding m oldnode)
  let takes := reallocTakes prevsize nextsize (size - oldsize)
  let (m, oldnode) ←
    if takes.1 ≠ 0 then reallocTakeprev g m prev oldnode next prevsize oldsize takes.1
    else some (m, oldnode)
  let m ←
    if takes.2 ≠ 0 then
      reallocTakenext g m oldnode next nextsize (nodeSize m oldnode) takes.2
    else some m
  some (m, oldnode + sizeofMmAllocnode)

/-- The last resort of `realloc`: allocate, copy, free. -/
def reallocMove (g : Nat) (m : Memory) (oldmem size oldsize : Nat) : Option (Memory × Nat) := do
  let (m, newmem) ← malloc g m size
  if newmem ≠ 0 then
    let m ← free g (copyUp m newmem oldmem oldsize) oldmem
    some (m, newmem)
  else some (m, newmem)

def realloc (g : Nat) (m : Memory) (oldmem size : Nat) : Option (Memory × Nat) :=
  if oldmem = 0 then malloc g m size
  else if size = 0 then do
    let m ← free g m oldmem
    some (m, 0)
  else
    let size := mmAlignUp (wrap (size + sizeofMmAllocnode))
    let oldnode := oldmem - sizeofMmAllocnode
    let oldsize := nodeSize m oldnode
    if size ≤ oldsize then do
      let m ← if size < oldsize then mmShrinkchunk g m oldnode size else some m
      some (m, oldmem)
    else if freeNextsize m oldnode + freePrevsize m oldnode + oldsize ≥ size then
      reallocExtend g m oldnode size
    else reallocMove g m oldmem size oldsize

/-- The leading part of `memalign`: the chunk at `rawchunk` is cut so that the
block starts at an aligned address. Returns the node of the block, its address
and its size without the header. -/
def memalignLead (g : Nat) (m : Memory) (alignment rawchunk alignedchunk : Nat) :
    Option (Memory × Nat × Nat × Nat) := do
  let node := rawchunk - sizeofMmAllocnode
  let next := node + nodeSize m node
  let alignedchunk :=
    if alignedchunk - sizeofMmAllocnode - node < sizeofMmFreenode then alignedchunk + alignment
    else alignedchunk
  let newnode := alignedchunk - sizeofMmAllocnode
  let precedingsize := newnode - node
  let m := setSize m newnode (next - newnode)
  let m := setPreceding m newnode (setAlloc precedingsize)
  let m := setSize m node precedingsize
  let m := setPreceding m node (clearAlloc (preceding m node))
  let m := setPreceding m next (keepAlloc (nodeSize m newnode) (preceding m next))
  let allocsize := nodeSize m newnode - sizeofMmAllocnode
  let m ← mmAddfreechunk g m node
  some (m, newnode, alignedchunk, allocsize)

def memalign (g : Nat) (m : Memory) (alignment size : Nat) : Option (Memory × Nat) :=
  if alignment ≤ mmMinChunk then malloc g m size
  else do
    let mask := alignment - 1
    let size := mmAlignUp size
    let allocsize := wrap (size + 2 * alignment)
    let (m, rawchunk) ← malloc g m allocsize
    if rawchunk = 0 then some (m, 0)
    else
      let alignedchunk := andNot (rawchunk + mask) mask
      let (m, node, alignedchunk, allocsize) ←
        if alignedchunk ≠ rawchunk then memalignLead g m alignment rawchunk alignedchunk
        else some (m, rawchunk - sizeofMmAllocnode, alignedchunk, allocsize)
      let m ←
        if allocsize > size then mmShrinkchunk g m node (size + sizeofMmAllocnode) else some m
      some (m, alignedchunk)

/-- The globals of the memory manager: `regions` lists
`(g_heapstart[i], g_heapend[i])` for `i < g_nregions`. -/
structure Heap where
  mem : Memory
  gNodelist : Nat
  gHeapsize : Nat
  regions : List (Nat × Nat)

def mmAddregion (h : Heap) (heapstart heapsize : Nat) : Option Heap := do
  let heapbase := mmAlignUp heapstart
  let heapend := mmAlignDown (wrap (heapstart + heapsize))
  let heapsize := heapend - heapbase
  let node := heapbase + sizeofMmAllocnode
  let tail := heapend - sizeofMmAllocnode
  let m := setSize h.mem heapbase sizeofMmAllocnode
  let m := setPreceding m heapbase mmAllocBit
  let m := setSize m node (heapsize - 2 * sizeofMmAllocnode)
  let m := setPreceding m node sizeofMmAllocnode
  let m := setSize m tail sizeofMmAllocnode
  let m := setPreceding m tail (setAlloc (nodeSize m node))
  let m ← mmAddfreechunk h.gNodelist m node
  some { h with
    mem := m
    gHeapsize := wrap (h.gHeapsize + heapsize)
    regions := h.regions ++ [(heapbase, tail)] }

/-- `for (i = 1; i < MM_NNODES; i++)` linking `g_nodelist[i-1]` and `g_nodelist[i]`. -/
def linkNodelist (g : Nat) (m : Memory) : Nat → Memory
  | 0 => m
  | i + 1 =>
    let m := linkNodelist g m i
    setBlink (setFlink m (nodeAt g i) (nodeAt g (i + 1))) (nodeAt g (i + 1)) (nodeAt g i)

def mmInitialize (m : Memory) (g heapstart heapsize : Nat) : Option Heap :=
  let m := fillUp m g 0 (sizeofMmFreenode * mmNnodes)
  let m := linkNodelist g m (mmNnodes - 1)
  mmAddregion ⟨m, g, 0, []⟩ heapstart heapsize

structure Mallinfo where
  arena : Nat
  ordblks : Nat
  mxordblk : Nat
  uordblks : Nat
  fordblks : Nat

/-- The loop of `mallinfo` over one region, from `node` up to `heapend`. Fails
where the loop does not end exactly at `heapend`. -/
def mallinfoWalk (m : Memory) (heapend : Nat) : Nat → Nat → Mallinfo → Option Mallinfo
  | 0, _, _ => none
  | fuel + 1, node, info =>
    if node < heapend then
      let size := nodeSize m node
      mallinfoWalk m heapend fuel (node + size) <|
        if isAllocated (preceding m node) then
          { info with uordblks := wrap (info.uordblks + size) }
        else
          { info with
            ordblks := info.ordblks + 1
            fordblks := wrap (info.fordblks + size)
            mxordblk := max info.mxordblk size }
    else if node = heapend then some info else none

def mallinfoRegions (m : Memory) : List (Nat × Nat) → Mallinfo → Option Mallinfo
  | [], info => some info
  | (start, tail) :: rest, info => do
    let info ← mallinfoWalk m tail loopBound start info
    mallinfoRegions m rest { info with uordblks := wrap (info.uordblks + sizeofMmAllocnode) }

def mallinfo (h : Heap) : Option Mallinfo :=
  mallinfoRegions h.mem h.regions ⟨h.gHeapsize, 0, 0, 0, 0⟩

end NuttxAvr32.Mm
