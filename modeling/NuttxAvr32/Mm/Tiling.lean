import NuttxAvr32.Mm.Allocator
import Mathlib.Data.List.Pairwise

/-! # Chunk lists and the headers that represent them

A region is a list of chunks between two guard nodes. `Tiles m p a cs` says
that the headers in memory from address `a` on are those of `cs`, the chunk
before `a` having size `p`. All edits of the allocator replace a few adjacent
chunks by others of the same total size and rewrite the `preceding` word of the
chunk that follows; `Tiles.splice` is that edit.
-/

namespace NuttxAvr32.Mm

open ByteMemory

structure Chunk where
  size : Nat
  alloc : Bool
deriving DecidableEq, Repr

def total : List Chunk → Nat
  | [] => 0
  | c :: cs => c.size + total cs

def lastSize : Nat → List Chunk → Nat
  | p, [] => p
  | _, c :: cs => lastSize c.size cs

/-- The `preceding` word of a chunk that follows one of size `p`. -/
def precWord (p : Nat) (alloc : Bool) : Nat := p + if alloc then mmAllocBit else 0

def Tiles (m : Memory) : Nat → Nat → List Chunk → Prop
  | _, _, [] => True
  | p, a, c :: cs =>
    nodeSize m a = c.size ∧ preceding m a = precWord p c.alloc ∧ Tiles m c.size (a + c.size) cs

def place : Nat → List Chunk → List (Nat × Chunk)
  | _, [] => []
  | a, c :: cs => (a, c) :: place (a + c.size) cs

@[simp] theorem total_nil : total [] = 0 := rfl

@[simp] theorem total_cons (c : Chunk) (cs : List Chunk) : total (c :: cs) = c.size + total cs :=
  rfl

@[simp] theorem total_append (xs ys : List Chunk) : total (xs ++ ys) = total xs + total ys := by
  induction xs with
  | nil => simp
  | cons x xs ih => simp [ih, Nat.add_assoc]

@[simp] theorem lastSize_nil (p : Nat) : lastSize p [] = p := rfl

@[simp] theorem lastSize_cons (p : Nat) (c : Chunk) (cs : List Chunk) :
    lastSize p (c :: cs) = lastSize c.size cs := rfl

@[simp] theorem lastSize_append (p : Nat) (xs ys : List Chunk) :
    lastSize p (xs ++ ys) = lastSize (lastSize p xs) ys := by
  induction xs generalizing p with
  | nil => rfl
  | cons x xs ih => exact ih x.size

@[simp] theorem tiles_nil (m : Memory) (p a : Nat) : Tiles m p a [] := trivial

@[simp] theorem tiles_cons {m : Memory} {p a : Nat} {c : Chunk} {cs : List Chunk} :
    Tiles m p a (c :: cs) ↔ nodeSize m a = c.size ∧ preceding m a = precWord p c.alloc ∧
      Tiles m c.size (a + c.size) cs := Iff.rfl

@[simp] theorem tiles_append {m : Memory} {p a : Nat} {xs ys : List Chunk} :
    Tiles m p a (xs ++ ys) ↔ Tiles m p a xs ∧ Tiles m (lastSize p xs) (a + total xs) ys := by
  induction xs generalizing p a with
  | nil => simp
  | cons x xs ih => simp [ih, and_assoc, Nat.add_assoc]

@[simp] theorem place_nil (a : Nat) : place a [] = [] := rfl

@[simp] theorem place_cons (a : Nat) (c : Chunk) (cs : List Chunk) :
    place a (c :: cs) = (a, c) :: place (a + c.size) cs := rfl

@[simp] theorem place_append (a : Nat) (xs ys : List Chunk) :
    place a (xs ++ ys) = place a xs ++ place (a + total xs) ys := by
  induction xs generalizing a with
  | nil => simp
  | cons x xs ih => simp [ih, Nat.add_assoc]

theorem place_bounds {a : Nat} {cs : List Chunk} {u : Nat × Chunk} (h : u ∈ place a cs) :
    a ≤ u.1 ∧ u.1 + u.2.size ≤ a + total cs := by
  induction cs generalizing a with
  | nil => simp at h
  | cons c cs ih =>
    simp only [place_cons, List.mem_cons, total_cons] at h ⊢
    rcases h with rfl | h
    · dsimp only
      omega
    · have := ih h
      omega

theorem mem_of_place {a : Nat} {cs : List Chunk} {u : Nat × Chunk} (h : u ∈ place a cs) :
    u.2 ∈ cs := by
  induction cs generalizing a with
  | nil => simp at h
  | cons c cs ih =>
    simp only [place_cons, List.mem_cons] at h ⊢
    rcases h with rfl | h
    · exact .inl rfl
    · exact .inr (ih h)

theorem place_split {a : Nat} {cs : List Chunk} {u : Nat × Chunk} (h : u ∈ place a cs) :
    ∃ l r, cs = l ++ u.2 :: r ∧ u.1 = a + total l := by
  induction cs generalizing a with
  | nil => simp at h
  | cons c cs ih =>
    simp only [place_cons, List.mem_cons] at h
    rcases h with rfl | h
    · exact ⟨[], cs, rfl, rfl⟩
    · obtain ⟨l, r, hl, hu⟩ := ih h
      exact ⟨c :: l, r, by rw [hl]; rfl, by rw [hu, total_cons]; omega⟩

theorem place_pairwise (a : Nat) (cs : List Chunk) :
    (place a cs).Pairwise fun u v => u.1 + u.2.size ≤ v.1 := by
  induction cs generalizing a with
  | nil => simp
  | cons c cs ih =>
    simp only [place_cons, List.pairwise_cons]
    exact ⟨fun v hv => (place_bounds hv).1, ih _⟩

theorem place_apart {a : Nat} {cs : List Chunk} {u v : Nat × Chunk} (hu : u ∈ place a cs)
    (hv : v ∈ place a cs) : u = v ∨ u.1 + u.2.size ≤ v.1 ∨ v.1 + v.2.size ≤ u.1 := by
  have h := place_pairwise a cs
  by_cases he : u = v
  · exact .inl he
  · let R : Nat × Chunk → Nat × Chunk → Prop := fun u v =>
      u.1 + u.2.size ≤ v.1 ∨ v.1 + v.2.size ≤ u.1
    have hsym : Std.Symm R := ⟨fun _ _ hx => hx.symm⟩
    have hs : (place a cs).Pairwise R := h.imp fun hx => .inl hx
    exact .inr (hs.forall hu hv he)

section

variable {m : Memory} {a b v x : Nat}

theorem nodeSize_setSize (hv : v < 2 ^ 32) : nodeSize (setSize m a v) a = v :=
  loadWord_storeWord hv

theorem nodeSize_setSize_of_ne (h : b + 4 ≤ a ∨ a + 4 ≤ b) :
    nodeSize (setSize m a v) b = nodeSize m b := loadWord_storeWord_of_disjoint h

theorem nodeSize_setPreceding (h : b ≤ a ∨ a + 8 ≤ b) :
    nodeSize (setPreceding m a v) b = nodeSize m b := loadWord_storeWord_of_disjoint (by omega)

theorem preceding_setPreceding (hv : v < 2 ^ 32) : preceding (setPreceding m a v) a = v :=
  loadWord_storeWord hv

theorem preceding_setPreceding_of_ne (h : b + 4 ≤ a ∨ a + 4 ≤ b) :
    preceding (setPreceding m a v) b = preceding m b := loadWord_storeWord_of_disjoint (by omega)

theorem preceding_setSize (h : b + 8 ≤ a ∨ a ≤ b) :
    preceding (setSize m a v) b = preceding m b := loadWord_storeWord_of_disjoint (by omega)

theorem setPreceding_comm {w : Nat} (h : a + 4 ≤ b ∨ b + 4 ≤ a) :
    setPreceding (setPreceding m a v) b w = setPreceding (setPreceding m b w) a v :=
  storeWord_comm (by omega)

theorem setSize_comm {w : Nat} (h : a + 4 ≤ b ∨ b + 4 ≤ a) :
    setSize (setSize m a v) b w = setSize (setSize m b w) a v :=
  storeWord_comm h

theorem setPreceding_setSize_comm {w : Nat} (h : a ≤ b ∨ b + 8 ≤ a) :
    setPreceding (setSize m a v) b w = setSize (setPreceding m b w) a v :=
  storeWord_comm (by omega)

theorem setSize_of_outside (h : x < a ∨ a + 4 ≤ x) : setSize m a v x = m x :=
  storeWord_of_outside h

theorem setPreceding_of_outside (h : x < a + 4 ∨ a + 8 ≤ x) : setPreceding m a v x = m x :=
  storeWord_of_outside (by omega)

end

section

variable {p : Nat} {b : Bool}

theorem precWord_lt (hp : p < 2 ^ 31) : precWord p b < 2 ^ 32 := by
  unfold precWord mmAllocBit
  split <;> omega

theorem isAllocated_precWord (hp : p < 2 ^ 31) : isAllocated (precWord p b) = b :=
  isAllocated_add b hp

theorem clearAlloc_precWord (hp : p < 2 ^ 31) : clearAlloc (precWord p b) = precWord p false :=
  clearAlloc_add b hp

theorem setAlloc_precWord (hp : p < 2 ^ 31) : setAlloc (precWord p b) = precWord p true := by
  have hc : precWord p b % 2 ^ 31 = p := clearAlloc_add b hp
  unfold setAlloc
  rw [hc]
  rfl

theorem keepAlloc_precWord {q : Nat} (hp : p < 2 ^ 31) (hq : q < 2 ^ 31) :
    keepAlloc q (precWord p b) = precWord q b := by
  rw [keepAlloc_of_lt hq, isAllocated_precWord hp]
  rfl

theorem precWord_false (p : Nat) : precWord p false = p := rfl

end

def SameHeader (m m' : Memory) (a : Nat) : Prop := ∀ x, a ≤ x → x < a + 8 → m' x = m x

theorem SameHeader.size {m m' : Memory} {a : Nat} (h : SameHeader m m' a) :
    nodeSize m' a = nodeSize m a := loadWord_congr fun x h1 h2 => h x h1 (by omega)

theorem SameHeader.preceding {m m' : Memory} {a : Nat} (h : SameHeader m m' a) :
    preceding m' a = preceding m a :=
  loadWord_congr fun x h1 h2 => h x (by omega) (by omega)

theorem Tiles.congr {m m' : Memory} {p a : Nat} {cs : List Chunk} (h : Tiles m p a cs)
    (hs : ∀ u ∈ place a cs, SameHeader m m' u.1) : Tiles m' p a cs := by
  induction cs generalizing p a with
  | nil => trivial
  | cons c cs ih =>
    obtain ⟨h1, h2, h3⟩ := h
    have ha := hs (a, c) (by simp)
    exact ⟨ha.size.trans h1, ha.preceding.trans h2, ih h3 fun u hu => hs u (by simp [hu])⟩

theorem Tiles.header {m : Memory} {p a : Nat} {cs : List Chunk} (h : Tiles m p a cs)
    {u : Nat × Chunk} (hu : u ∈ place a cs) : nodeSize m u.1 = u.2.size := by
  obtain ⟨l, r, rfl, he⟩ := place_split hu
  have hr := (tiles_append.mp h).2
  rw [he]
  exact hr.1

theorem Tiles.splice {m m' : Memory} {p a : Nat} {l x x' r : List Chunk} {c : Chunk}
    (h : Tiles m p a (l ++ x ++ c :: r))
    (hx : Tiles m' (lastSize p l) (a + total l) x') (ht : total x' = total x)
    (hl : ∀ u ∈ place a l, SameHeader m m' u.1)
    (hc : nodeSize m' (a + total l + total x) = c.size)
    (hp : preceding m' (a + total l + total x) = precWord (lastSize (lastSize p l) x') c.alloc)
    (hr : ∀ u ∈ place (a + total l + total x + c.size) r, SameHeader m m' u.1) :
    Tiles m' p a (l ++ x' ++ c :: r) := by
  simp only [List.append_assoc, tiles_append, tiles_cons, ht] at h ⊢
  obtain ⟨h1, _, _, _, h5⟩ := h
  exact ⟨h1.congr hl, hx, hc, hp, h5.congr hr⟩

def guard : Chunk := ⟨8, true⟩

structure Region where
  base : Nat
  mid : List Chunk

namespace Region

def chunks (r : Region) : List Chunk := guard :: r.mid ++ [guard]

def stop (r : Region) : Nat := r.base + 8 + total r.mid + 8

/-- The chunks between the guards, with their addresses. -/
def blocks (r : Region) : List (Nat × Chunk) := place (r.base + 8) r.mid

end Region

/-- What every chunk between the guards is: a multiple of eight bytes that
holds at least its own header. -/
structure ChunkOk (c : Chunk) : Prop where
  mult : c.size % 8 = 0
  pos : 8 ≤ c.size

structure RegionOk (r : Region) : Prop where
  base_pos : 0 < r.base
  base_mult : r.base % 8 = 0
  chunk : ∀ c ∈ r.mid, ChunkOk c
  size_lt : total r.mid + 16 < 2 ^ 31
  stop_le : r.stop ≤ 2 ^ 32

def blocks (rs : List Region) : List (Nat × Chunk) := rs.flatMap Region.blocks

def Apart (r r' : Region) : Prop := r.stop ≤ r'.base ∨ r'.stop ≤ r.base

theorem blocks_append (rs rs' : List Region) : blocks (rs ++ rs') = blocks rs ++ blocks rs' := by
  simp [blocks]

theorem blocks_cons (r : Region) (rs : List Region) :
    blocks (r :: rs) = r.blocks ++ blocks rs := by
  simp [blocks]

theorem mem_blocks {rs : List Region} {u : Nat × Chunk} :
    u ∈ blocks rs ↔ ∃ r ∈ rs, u ∈ r.blocks := by
  simp [blocks]

theorem place_chunks (r : Region) : place r.base r.chunks =
    (r.base, guard) :: r.blocks ++ [(r.base + 8 + total r.mid, guard)] := by
  simp [Region.chunks, Region.blocks, guard]

theorem Region.blocks_bounds {r : Region} {u : Nat × Chunk} (h : u ∈ r.blocks) :
    r.base + 8 ≤ u.1 ∧ u.1 + u.2.size + 8 ≤ r.stop := by
  have := place_bounds h
  unfold Region.stop
  omega

end NuttxAvr32.Mm
