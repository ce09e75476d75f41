import NuttxAvr32.Inode.Namespace
import Mathlib.Algebra.Ring.Nat
import Mathlib.Data.List.Flatten
import Mathlib.Data.List.Perm.Basic

/-! # References to inodes

Descriptors, directory streams and mounted file systems hold references to inodes, which
`i_crefs` counts. A removed inode that is referenced stays, marked as deleted and with what is
below it, until its last reference goes. A step that touches an inode after it was freed is a
fault.
-/

namespace NuttxAvr32.Fs

open Runs

variable {χ : Type} [PathChar χ]

def Inode.head : Inode χ → Option Nat
  | .null => none
  | .node i _ _ => some i.addr

/-- The `i_peer` of the inode at an address, if it is there. -/
def Inode.peerOf (a : Nat) : Inode χ → Option (Option Nat)
  | .null => none
  | .node i child peer =>
    if i.addr = a then some peer.head
    else
      match child.peerOf a with
      | some r => some r
      | none => peer.peerOf a

/-- The tree, the inodes marked as deleted with their children, and whether a step has touched
an inode that is neither. -/
structure Core (χ : Type) where
  root : Inode χ
  deleted : List (Info χ × Inode χ)
  fault : Bool

def Core.infos (c : Core χ) : List (Info χ) :=
  c.root.infos ++ c.deleted.flatMap fun d => d.1 :: d.2.infos

def Core.addrs (c : Core χ) : List Nat := c.infos.map Info.addr

def incr (i : Info χ) : Info χ := { i with crefs := i.crefs + 1 }

def decr (i : Info χ) : Info χ := { i with crefs := i.crefs - 1 }

def Core.update (a : Nat) (f : Info χ → Info χ) (c : Core χ) : Core χ :=
  if a ∈ c.addrs then
    { c with
      root := c.root.setInfo a f
      deleted := c.deleted.map fun d => (if d.1.addr = a then f d.1 else d.1, d.2.setInfo a f) }
  else { c with fault := true }

def inodeAddref (a : Nat) (c : Core χ) : Core χ := c.update a incr

/-- A deleted inode whose last reference goes is freed with what is below it. -/
def inodeRelease (a : Nat) (c : Core χ) : Core χ :=
  let c := c.update a decr
  { c with deleted := c.deleted.filter fun d => ¬(d.1.addr = a ∧ d.1.crefs = 0) }

def releaseNext (next : Option Nat) (c : Core χ) : Core χ :=
  match next with
  | none => c
  | some a => inodeRelease a c

def addrefNext (next : Option Nat) (c : Core χ) : Core χ :=
  match next with
  | none => c
  | some a => inodeAddref a c

def Core.touch (a : Nat) (c : Core χ) : Core χ :=
  if a ∈ c.addrs then c else { c with fault := true }

/-- The `i_peer` of an inode; a deleted one has none. -/
def Core.peer (a : Nat) (c : Core χ) : Option Nat :=
  match c.root.peerOf a with
  | some r => r
  | none => (c.deleted.findSome? fun d => d.2.peerOf a).getD none

/-- A directory stream: `fd_root` and, in the tree, `fd_next` and `fd_position`. The kind of
`fd_root` is what it was when the stream was opened: only a new inode is made a mountpoint. -/
inductive Dir
  | psuedo (root : Nat) (next : Option Nat) (position : Nat)
  | mountpt (root : Nat)
deriving DecidableEq

def Dir.refs : Dir → List Nat
  | .psuedo root next _ => root :: next.toList
  | .mountpt root => [root]

structure Fs (χ : Type) where
  core : Core χ
  /-- What `inode_find` returned, and the inodes of descriptors. -/
  handles : List Nat
  /-- The block drivers of mounted file systems. -/
  drivers : List Nat
  streams : List Dir

def Fs.refs (s : Fs χ) : List Nat := s.handles ++ (s.drivers ++ s.streams.flatMap Dir.refs)

/-- The inode that `inode_find` returns with a new reference. -/
def inodeFind (path : List χ) (c : Core χ) : Option Nat × Core χ :=
  match (inodeSearch c.root path).node with
  | .null => (none, c)
  | .node i _ _ => (some i.addr, inodeAddref i.addr c)

inductive Answer
  | refused
  | failed
  | done
deriving DecidableEq

/-- `open` releases the inode again if its driver refuses it. -/
def openCall (path : List χ) (ok : Bool) (s : Fs χ) : Fs χ :=
  match inodeFind path s.core with
  | (none, _) => s
  | (some a, c) =>
    if ok then
      { s with
        core := c
        handles := a :: s.handles }
    else { s with core := inodeRelease a c }

def closeCall (a : Nat) (s : Fs χ) : Fs χ :=
  { s with
    core := inodeRelease a s.core
    handles := s.handles.erase a }

def dirInode (path : Option (List χ)) (c : Core χ) : Inode χ :=
  match path with
  | none => c.root
  | some path => (inodeSearch c.root path).node

/-- `mem` is whether the stream gets memory. In a directory other than the root both references
are counted at the first child. -/
def opendir (path : Option (List χ)) (mem ok : Bool) (s : Fs χ) : Fs χ :=
  match dirInode path s.core with
  | .null => s
  | .node i child _ =>
    if mem = false then s
    else if i.mountpt then
      let c := inodeAddref i.addr s.core
      if ok then
        { s with
          core := c
          streams := .mountpt i.addr :: s.streams }
      else { s with core := c.update i.addr decr }
    else if path = none then
      { s with
        core := inodeAddref i.addr (inodeAddref i.addr s.core)
        streams := .psuedo i.addr (some i.addr) 0 :: s.streams }
    else
      match child with
      | .null => s
      | .node j _ _ =>
        { s with
          core := inodeAddref j.addr (inodeAddref j.addr s.core)
          streams := .psuedo i.addr (some j.addr) 0 :: s.streams }

def readdir (k : Nat) (s : Fs χ) : Fs χ :=
  match s.streams[k]? with
  | some (.psuedo root (some a) position) =>
    let next := s.core.peer a
    { s with
      core := inodeRelease a (addrefNext next (s.core.touch root))
      streams := s.streams.set k (.psuedo root next (position + 1)) }
  | _ => s

def seekPeers (c : Core χ) : Nat → Option Nat → Nat → Option Nat × Nat
  | 0, curr, pos => (curr, pos)
  | _ + 1, none, pos => (none, pos)
  | n + 1, some a, pos => seekPeers c n (c.peer a) (pos + 1)

/-- The inode and the position that `seekpsuedodir` comes to. -/
def seekTarget (c : Core χ) (root : Nat) (next : Option Nat) (position offset : Nat) :
    Option Nat × Nat :=
  if offset < position then seekPeers c offset (some root) 0
  else seekPeers c (offset - position) next position

def seekdir (k offset : Nat) (s : Fs χ) : Fs χ :=
  match s.streams[k]? with
  | some (.psuedo root next position) =>
    let r := seekTarget s.core root next position offset
    { s with
      core := releaseNext next (addrefNext r.1 (s.core.touch root))
      streams := s.streams.set k (.psuedo root r.1 r.2) }
  | _ => s

def closedir (k : Nat) (s : Fs χ) : Fs χ :=
  match s.streams[k]? with
  | some (.psuedo root next _) =>
    { s with
      core := inodeRelease root (releaseNext next s.core)
      streams := s.streams.eraseIdx k }
  | some (.mountpt root) =>
    { s with
      core := inodeRelease root s.core
      streams := s.streams.eraseIdx k }
  | none => s

def removeCore (path : List χ) (c : Core χ) : Core χ :=
  match inodeRemove path c.root with
  | (root, _, .null) => { c with root := root }
  | (root, _, .node i child _) =>
    { c with
      root := root
      deleted := (i, child) :: c.deleted }

/-- `mount`, where `find_blockdriver` refuses the source, `bind` fails or all is done. The
error exit releases the mountpoint after it was removed. -/
def mount (source target : List χ) (mem : List Nat) (answer : Answer) (s : Fs χ) : Fs χ :=
  match inodeFind source s.core with
  | (none, _) => s
  | (some a, c) =>
    if answer = .refused then { s with core := inodeRelease a c }
    else
      match inodeReserve mem target c.root with
      | (root, none) => { s with core := inodeRelease a { c with root := root } }
      | (root, some m) =>
        let c := inodeAddref a { c with root := root }
        if answer = .failed then
          let c := (c.update a decr).update m (setCrefs 0)
          { s with core := inodeRelease m (inodeRelease a (removeCore target c)) }
        else
          { s with
            core := inodeRelease a (c.update m inodeSetMountpt)
            drivers := a :: s.drivers }

inductive Call (χ : Type)
  | find (p : Path χ) (trailing : Bool)
  | release (a : Nat)
  | openFile (p : Path χ) (trailing ok : Bool)
  | close (a : Nat)
  | opendir (p : Option (Path χ)) (trailing mem ok : Bool)
  | readdir (k : Nat)
  | seekdir (k offset : Nat)
  | closedir (k : Nat)
  | mount (source target : Path χ) (trailing : Bool) (mem : List Nat) (answer : Answer)
  | remove (p : Path χ) (trailing : Bool)

def execCall : Call χ → Fs χ → Option (Fs χ)
  | .find p trailing, s => some (openCall (absolute trailing p) true s)
  | .release a, s => some (closeCall a s)
  | .openFile p trailing ok, s => some (openCall (absolute trailing p) ok s)
  | .close a, s => some (closeCall a s)
  | .opendir p trailing mem ok, s => some (opendir (p.map (absolute trailing)) mem ok s)
  | .readdir k, s => some (readdir k s)
  | .seekdir k offset, s => some (seekdir k offset s)
  | .closedir k, s => some (closedir k s)
  | .mount source target trailing mem answer, s =>
    some (mount (absolute trailing source) (absolute trailing target) mem answer s)
  | .remove p trailing, s => some { s with core := removeCore (absolute trailing p) s.core }

/-- Only references that were given out are released; paths are as for the namespace. -/
def Call.valid (s : Fs χ) : Call χ → Prop
  | .find p _ | .openFile p _ _ | .remove p _ => PathOk p
  | .release a | .close a => a ∈ s.handles
  | .opendir p _ _ _ => ∀ q ∈ p, PathOk q
  | .mount source target _ mem _ =>
    PathOk source ∧ PathOk target ∧ mem.Nodup ∧ ∀ a ∈ mem, a ∉ s.core.addrs
  | .readdir _ | .seekdir _ _ | .closedir _ => True

def lifeMachine : Machine (Fs χ) (Call χ) where
  valid s i := i.valid s
  exec s i := execCall i s

def Unreferenced (s : Fs χ) : Prop :=
  s.handles = [] ∧ s.drivers = [] ∧ s.streams = [] ∧ s.core.deleted = [] ∧
    s.core.fault = false ∧ s.core.root.Sorted ∧ s.core.root.addrs.Nodup ∧
    ∀ i ∈ s.core.root.infos, i.crefs = 0

/-- The references that a call takes from inodes that can be marked as deleted. -/
def Call.released (s : Fs χ) : Call χ → List Nat
  | .release a | .close a => [a]
  | .readdir k =>
    match s.streams[k]? with
    | some (.psuedo _ (some a) _) => [a]
    | _ => []
  | .seekdir k offset =>
    match s.streams[k]? with
    | some (.psuedo root next position) =>
      if (seekTarget s.core root next position offset).1 = next then [] else next.toList
    | _ => []
  | .closedir k =>
    match s.streams[k]? with
    | some d => d.refs
    | none => []
  | _ => []

/-- A deleted inode that has no references besides those in `released` has no inode in `l`
below it. -/
def FreeOk (c : Core χ) (l released : List Nat) : Prop :=
  ∀ d ∈ c.deleted, d.1.crefs ≤ released.count d.1.addr → ∀ a ∈ d.2.addrs, a ∉ l

/-- No directory with entries is opened but the root, no mount fails after its mountpoint was
reserved, and no inode is freed, by its removal or with its last reference, while one below it
is referenced. The counters have 16 bits. Streams stand in the root directory then, so that
none is below an inode. -/
def Call.keeps (s : Fs χ) (i : Call χ) : Prop :=
  s.refs.length + 2 < 2 ^ 15 ∧ FreeOk s.core s.refs (i.released s) ∧
    match i with
    | .opendir (some p) trailing _ _ =>
      match (inodeSearch s.core.root (absolute trailing p)).node with
      | .null => True
      | .node i child _ => i.mountpt = true ∨ child.head = none
    | .mount source target trailing mem .failed =>
      (inodeSearch s.core.root (absolute trailing source)).node.head = none ∨
        (inodeReserve mem (absolute trailing target) s.core.root).2 = none
    | .remove p trailing =>
      match (inodeSearch s.core.root (absolute trailing p)).node with
      | .null => True
      | .node i child _ =>
        (i.crefs = 0 → ∀ a ∈ child.addrs, a ∉ s.refs) ∧
          ∀ a ∈ child.addrs, a ∉ s.streams.flatMap Dir.refs
    | _ => True

/-- The counters are right, references are to inodes that have not been freed, a removed inode
is kept just while it is referenced, and no freed inode was touched. -/
structure Lifetime (s : Fs χ) : Prop where
  nodup : s.core.addrs.Nodup
  counted : ∀ i ∈ s.core.infos, i.crefs = s.refs.count i.addr
  live : ∀ a ∈ s.refs, a ∈ s.core.addrs
  pinned : ∀ d ∈ s.core.deleted, d.1.crefs ≠ 0
  untouched : s.core.fault = false

/-- The counters agree with the references in `l`, which are to inodes in memory. -/
structure Held (c : Core χ) (l : List Nat) : Prop where
  sorted : c.root.Sorted
  nodup : c.addrs.Nodup
  counted : ∀ i ∈ c.infos, i.crefs = l.count i.addr
  live : ∀ a ∈ l, a ∈ c.addrs
  pinned : ∀ d ∈ c.deleted, d.1.crefs ≠ 0
  untouched : c.fault = false

/-- Whether an inode is in the tree or marked as deleted, not below one so marked. -/
def Core.Placed (c : Core χ) (a : Nat) : Prop :=
  a ∈ c.root.addrs ∨ ∃ d ∈ c.deleted, d.1.addr = a

section

variable {c : Core χ} {l l' : List Nat} {a b : Nat} {f : Info χ → Info χ} {t : Inode χ}

omit [PathChar χ] in
theorem setInfo_infos (a : Nat) (f : Info χ → Info χ) (t : Inode χ) :
    (t.setInfo a f).infos = t.infos.map fun i => if i.addr = a then f i else i := by
  induction t with
  | null => rfl
  | node i child peer ihc ihp =>
    simp only [Inode.setInfo, Inode.infos, ihc, ihp, List.map_cons, List.map_append]

omit [PathChar χ] in
theorem mem_infos_addr {i : Info χ} (h : i ∈ t.infos) : i.addr ∈ t.addrs := by
  rw [← infos_addr]
  exact List.mem_map_of_mem h

omit [PathChar χ] in
theorem Core.Placed.mem (h : c.Placed a) : a ∈ c.addrs := by
  unfold Core.addrs Core.infos
  rw [List.map_append, infos_addr]
  rcases h with h | ⟨d, hd, rfl⟩
  · exact List.mem_append_left _ h
  · refine List.mem_append_right _ (List.mem_map_of_mem ?_)
    exact List.mem_flatMap.mpr ⟨d, hd, List.mem_cons_self⟩

omit [PathChar χ] in
theorem update_eq (h : a ∈ c.addrs) (f : Info χ → Info χ) :
    c.update a f =
      { c with
        root := c.root.setInfo a f
        deleted := c.deleted.map fun d =>
          (if d.1.addr = a then f d.1 else d.1, d.2.setInfo a f) } :=
  if_pos h

omit [PathChar χ] in
theorem update_infos (h : a ∈ c.addrs) (f : Info χ → Info χ) :
    (c.update a f).infos = c.infos.map fun i => if i.addr = a then f i else i := by
  rw [update_eq h]
  unfold Core.infos
  dsimp only
  rw [setInfo_infos, List.map_append, List.flatMap_map, List.map_flatMap]
  simp only [List.map_cons, setInfo_infos]

omit [PathChar χ] in
theorem update_addr (hf : ∀ i, (f i).addr = i.addr) (i : Info χ) :
    (if i.addr = a then f i else i).addr = i.addr := by
  split
  · exact hf i
  · rfl

omit [PathChar χ] in
theorem update_addrs (h : a ∈ c.addrs) (hf : ∀ i, (f i).addr = i.addr) :
    (c.update a f).addrs = c.addrs := by
  unfold Core.addrs
  rw [update_infos h, List.map_map]
  exact List.map_congr_left fun i _ => update_addr hf i

omit [PathChar χ] in
theorem update_placed (h : a ∈ c.addrs) (hf : ∀ i, (f i).addr = i.addr) :
    (c.update a f).Placed b ↔ c.Placed b := by
  rw [update_eq h]
  unfold Core.Placed
  dsimp only
  rw [setInfo_addrs hf]
  refine or_congr Iff.rfl ⟨?_, ?_⟩
  · rintro ⟨d, hd, rfl⟩
    obtain ⟨d, hd', rfl⟩ := List.mem_map.mp hd
    exact ⟨d, hd', (update_addr hf d.1).symm⟩
  · rintro ⟨d, hd, rfl⟩
    exact ⟨_, List.mem_map_of_mem hd, update_addr hf d.1⟩

theorem Held.perm (H : Held c l) (h : l.Perm l') : Held c l' :=
  ⟨H.sorted, H.nodup, fun i hi => (H.counted i hi).trans (h.count_eq _),
    fun a ha => H.live a (h.mem_iff.mpr ha), H.pinned, H.untouched⟩

theorem Held.update (H : Held c l) (ha : a ∈ c.addrs) (hn : ∀ i, (f i).name = i.name)
    (hf : ∀ i, (f i).addr = i.addr) (hl : ∀ b, b ≠ a → l'.count b = l.count b)
    (hcount : ∀ i, i.addr = a → i.crefs = l.count a → (f i).crefs = l'.count a)
    (hmem : ∀ b ∈ l', b = a ∨ b ∈ l)
    (hpin : ∀ d ∈ c.deleted, d.1.addr = a → (f d.1).crefs ≠ 0) : Held (c.update a f) l' := by
  refine ⟨?_, ?_, fun i hi => ?_, fun b hb => ?_, fun d hd => ?_, ?_⟩
  · rw [update_eq ha]
    exact (setInfo_sorted hn H.sorted).1
  · rw [update_addrs ha hf]
    exact H.nodup
  · rw [update_infos ha] at hi
    obtain ⟨j, hj, rfl⟩ := List.mem_map.mp hi
    have hcj := H.counted j hj
    by_cases hja : j.addr = a
    · rw [if_pos hja, hf, hja]
      exact hcount j hja (hja ▸ hcj)
    · rw [if_neg hja, hcj, hl _ hja]
  · rw [update_addrs ha hf]
    rcases hmem b hb with rfl | hb
    · exact ha
    · exact H.live b hb
  · rw [update_eq ha] at hd
    obtain ⟨d, hd', rfl⟩ := List.mem_map.mp hd
    dsimp only
    split
    · rename_i hda
      exact hpin d hd' hda
    · exact H.pinned d hd'
  · rw [update_eq ha]
    exact H.untouched

theorem Held.addref (H : Held c l) (ha : a ∈ c.addrs) : Held (inodeAddref a c) (a :: l) := by
  refine H.update ha (fun _ => rfl) (fun _ => rfl) (fun b hb => ?_) (fun i _ hi => ?_)
    (fun b hb => List.mem_cons.mp hb) fun d _ _ => Nat.succ_ne_zero _
  · exact List.count_cons_of_ne (Ne.symm hb)
  · rw [List.count_cons_self, ← hi]
    rfl

theorem Held.takeBack (H : Held c (a :: l)) (ha : a ∈ c.root.addrs) :
    Held (c.update a decr) l := by
  have hlive : a ∈ c.addrs := Core.Placed.mem (.inl ha)
  refine H.update hlive (fun _ => rfl) (fun _ => rfl) (fun b hb => ?_) (fun i _ hi => ?_)
    (fun b hb => .inr (List.mem_cons_of_mem _ hb)) fun d hd hda => ?_
  · exact (List.count_cons_of_ne (Ne.symm hb)).symm
  · show i.crefs - 1 = _
    rw [hi, List.count_cons_self]
    rfl
  · have hnd := H.nodup
    unfold Core.addrs Core.infos at hnd
    rw [List.map_append, infos_addr] at hnd
    have hdis := (List.nodup_append.mp hnd).2.2 a ha d.1.addr
      (List.mem_map_of_mem (List.mem_flatMap.mpr ⟨d, hd, List.mem_cons_self⟩))
    exact absurd hda.symm hdis

omit [PathChar χ] in
theorem deleted_apart {deleted : List (Info χ × Inode χ)}
    (hn : ((deleted.flatMap fun d => d.1 :: d.2.infos).map Info.addr).Nodup)
    {d e : Info χ × Inode χ} (hd : d ∈ deleted) (he : e ∈ deleted) : d.1.addr ∉ e.2.addrs := by
  have hmem : ∀ {x : Nat} {y : Info χ × Inode χ} {ys : List (Info χ × Inode χ)}, y ∈ ys →
      x = y.1.addr ∨ x ∈ y.2.addrs → x ∈ (ys.flatMap fun d => d.1 :: d.2.infos).map Info.addr := by
    intro x y ys hy hx
    rcases hx with rfl | hx
    · exact List.mem_map_of_mem (List.mem_flatMap.mpr ⟨y, hy, List.mem_cons_self⟩)
    · rw [← infos_addr] at hx
      obtain ⟨i, hi, rfl⟩ := List.mem_map.mp hx
      exact List.mem_map_of_mem (List.mem_flatMap.mpr ⟨y, hy, List.mem_cons_of_mem _ hi⟩)
  induction deleted with
  | nil => cases hd
  | cons x xs ih =>
    rw [List.flatMap_cons, List.map_append, List.map_cons, infos_addr] at hn
    obtain ⟨hx, hxs, hdis⟩ := List.nodup_append.mp hn
    obtain ⟨hself, -⟩ := List.nodup_cons.mp hx
    intro h
    rcases List.mem_cons.mp hd with rfl | hd'
    · rcases List.mem_cons.mp he with rfl | he'
      · exact hself h
      · exact hdis _ List.mem_cons_self _ (hmem he' (.inr h)) rfl
    · rcases List.mem_cons.mp he with rfl | he'
      · exact hdis _ (List.mem_cons_of_mem _ h) _ (hmem hd' (.inl rfl)) rfl
      · exact ih hxs hd' he' h

omit [PathChar χ] in
theorem mem_core_addrs :
    b ∈ c.addrs ↔ b ∈ c.root.addrs ∨ ∃ d ∈ c.deleted, d.1.addr = b ∨ b ∈ d.2.addrs := by
  unfold Core.addrs Core.infos
  rw [List.map_append, infos_addr, List.mem_append]
  refine or_congr Iff.rfl ?_
  rw [List.mem_map]
  simp only [List.mem_flatMap, List.mem_cons]
  constructor
  · rintro ⟨i, ⟨d, hd, rfl | hi⟩, rfl⟩
    · exact ⟨d, hd, .inl rfl⟩
    · exact ⟨d, hd, .inr (mem_infos_addr hi)⟩
  · rintro ⟨d, hd, rfl | hb⟩
    · exact ⟨d.1, ⟨d, hd, .inl rfl⟩, rfl⟩
    · rw [← infos_addr] at hb
      obtain ⟨i, hi, rfl⟩ := List.mem_map.mp hb
      exact ⟨i, ⟨d, hd, .inr hi⟩, rfl⟩

theorem Held.counted_decr (H : Held c (a :: l)) :
    ∀ i ∈ (c.update a decr).infos, i.crefs = l.count i.addr := by
  intro i hi
  rw [update_infos (H.live a List.mem_cons_self)] at hi
  obtain ⟨j, hj, rfl⟩ := List.mem_map.mp hi
  have hcj := H.counted j hj
  by_cases hja : j.addr = a
  · rw [if_pos hja]
    show j.crefs - 1 = l.count j.addr
    rw [hcj, hja, List.count_cons_self]
    rfl
  · rw [if_neg hja, hcj, List.count_cons_of_ne (Ne.symm hja)]

omit [PathChar χ] in
theorem mem_release {d : Info χ × Inode χ} (hd : d ∈ (c.update a decr).deleted) :
    d ∈ (inodeRelease a c).deleted ∨ d.1.addr = a ∧ d.1.crefs = 0 := by
  by_cases hfree : d.1.addr = a ∧ d.1.crefs = 0
  · exact .inr hfree
  · exact .inl (List.mem_filter.mpr ⟨hd, decide_eq_true hfree⟩)

/-- The last reference to a deleted inode frees it; nothing that is freed is referenced. -/
theorem Held.release {r : List Nat} (H : Held c (a :: l)) (hf : FreeOk c l (a :: r)) :
    Held (inodeRelease a c) l := by
  have ha : a ∈ c.addrs := H.live a List.mem_cons_self
  have haddrs := update_addrs (f := decr) ha fun _ => rfl
  have hcounted := H.counted_decr
  have hkeep : (inodeRelease a c).infos.Sublist (c.update a decr).infos :=
    (List.Sublist.flatMap List.filter_sublist _).append_left _
  refine ⟨?_, ?_, fun i hi => hcounted i (hkeep.subset hi), fun b hb => ?_, fun d hd => ?_, ?_⟩
  · show (c.update a decr).root.Sorted
    rw [update_eq ha]
    exact (setInfo_sorted (f := decr) (fun _ => rfl) H.sorted).1
  · have hnd : (c.update a decr).addrs.Nodup := haddrs ▸ H.nodup
    exact hnd.sublist (hkeep.map _)
  · have hb' : b ∈ (c.update a decr).addrs := haddrs ▸ H.live b (List.mem_cons_of_mem a hb)
    rcases mem_core_addrs.mp hb' with hb' | ⟨d, hd, hdb⟩
    · exact mem_core_addrs.mpr (.inl hb')
    · rcases mem_release hd with hd' | ⟨hda, hzero⟩
      · exact mem_core_addrs.mpr (.inr ⟨d, hd', hdb⟩)
      · exfalso
        rcases hdb with rfl | hdb
        · have hmem : d.1 ∈ (c.update a decr).infos :=
            List.mem_append_right _ (List.mem_flatMap.mpr ⟨d, hd, List.mem_cons_self⟩)
          have hcd := hcounted d.1 hmem
          rw [hzero] at hcd
          exact absurd hb (List.count_eq_zero.mp hcd.symm)
        · rw [update_eq ha] at hd
          obtain ⟨e, he, rfl⟩ := List.mem_map.mp hd
          dsimp only at hda hzero hdb
          rw [setInfo_addrs (f := decr) fun _ => rfl] at hdb
          have hea : e.1.addr = a := (update_addr (f := decr) (fun _ => rfl) e.1).symm.trans hda
          rw [if_pos hea] at hzero
          have hone : e.1.crefs - 1 = 0 := hzero
          refine hf e he ?_ b hdb hb
          rw [hea, List.count_cons_self]
          omega
  · obtain ⟨hd, hkept⟩ := List.mem_filter.mp hd
    have hkept := of_decide_eq_true hkept
    rw [update_eq ha] at hd
    obtain ⟨e, he, rfl⟩ := List.mem_map.mp hd
    dsimp only at hkept ⊢
    by_cases hea : e.1.addr = a
    · exact fun h => hkept ⟨(update_addr (f := decr) (fun _ => rfl) e.1).trans hea, h⟩
    · rw [if_neg hea]
      exact H.pinned e he
  · show (c.update a decr).fault = false
    rw [update_eq ha]
    exact H.untouched

theorem Held.release_placed (H : Held c (a :: l)) (hb : b ∈ l) (hp : c.Placed b) :
    (inodeRelease a c).Placed b := by
  rcases (update_placed (f := decr) (H.live a List.mem_cons_self) fun _ => rfl).mpr hp with
    hb' | ⟨d, hd, rfl⟩
  · exact .inl hb'
  · rcases mem_release hd with hd' | ⟨-, hzero⟩
    · exact .inr ⟨d, hd', rfl⟩
    · exfalso
      have hmem : d.1 ∈ (c.update a decr).infos :=
        List.mem_append_right _ (List.mem_flatMap.mpr ⟨d, hd, List.mem_cons_self⟩)
      have hcd := H.counted_decr d.1 hmem
      rw [hzero] at hcd
      exact absurd hb (List.count_eq_zero.mp hcd.symm)

theorem Held.touch (H : Held c l) (ha : a ∈ l) : c.touch a = c := if_pos (H.live a ha)

section

variable {r : List Nat} {x : Nat}

omit [PathChar χ] in
theorem FreeOk.mono (hf : FreeOk c l r) (hl : ∀ b ∈ l', b ∈ l) : FreeOk c l' r :=
  fun d hd hr b hb hb' => hf d hd hr b hb (hl b hb')

omit [PathChar χ] in
theorem FreeOk.perm {r' : List Nat} (hf : FreeOk c l r) (hr : r.Perm r') : FreeOk c l r' :=
  fun d hd h => hf d hd (by rw [hr.count_eq]; exact h)

theorem Held.placed_apart (H : Held c l) (hx : c.Placed x) {d : Info χ × Inode χ}
    (hd : d ∈ c.deleted) : x ∉ d.2.addrs := by
  have hnd := H.nodup
  unfold Core.addrs Core.infos at hnd
  rw [List.map_append, infos_addr] at hnd
  obtain ⟨-, hnd', hdis⟩ := List.nodup_append.mp hnd
  rcases hx with hx | ⟨e, he, rfl⟩
  · intro h
    rw [← infos_addr] at h
    obtain ⟨i, hi, rfl⟩ := List.mem_map.mp h
    exact hdis _ hx _ (List.mem_map_of_mem
      (List.mem_flatMap.mpr ⟨d, hd, List.mem_cons_of_mem _ hi⟩)) rfl
  · exact deleted_apart hnd' he hd

theorem Held.free_addref (H : Held c l) (hx : c.Placed x) (hf : FreeOk c l' r) :
    FreeOk (inodeAddref x c) (x :: l') r := by
  intro d hd hr b hb hb'
  unfold inodeAddref at hd
  rw [update_eq hx.mem] at hd
  obtain ⟨e, he, rfl⟩ := List.mem_map.mp hd
  dsimp only at hr hb
  rw [setInfo_addrs (f := incr) fun _ => rfl] at hb
  rw [update_addr (f := incr) fun _ => rfl] at hr
  have hle : e.1.crefs ≤ r.count e.1.addr := by
    by_cases hex : e.1.addr = x
    · rw [if_pos hex] at hr
      exact Nat.le_of_succ_le hr
    · rw [if_neg hex] at hr
      exact hr
  rcases List.mem_cons.mp hb' with rfl | hb'
  · exact H.placed_apart hx he hb
  · exact hf e he hle b hb hb'

theorem Held.free_again (H : Held c l) (hx : c.Placed x) : FreeOk (inodeAddref x c) l' [x] := by
  intro d hd hr
  exfalso
  unfold inodeAddref at hd
  rw [update_eq hx.mem] at hd
  obtain ⟨e, he, rfl⟩ := List.mem_map.mp hd
  dsimp only at hr
  have hpin := H.pinned e he
  rw [update_addr (f := incr) fun _ => rfl] at hr
  by_cases hex : e.1.addr = x
  · rw [if_pos hex, hex, List.count_cons_self] at hr
    have hone : e.1.crefs + 1 ≤ 1 := hr
    omega
  · rw [if_neg hex, List.count_cons_of_ne (Ne.symm hex)] at hr
    exact hpin (Nat.le_zero.mp hr)

theorem Held.free_tree (H : Held c l) (ha : a ∈ c.root.addrs) : FreeOk c l' [a] := by
  intro d hd hr
  exfalso
  have hda : d.1.addr ≠ a := by
    have hnd := H.nodup
    unfold Core.addrs Core.infos at hnd
    rw [List.map_append, infos_addr] at hnd
    have hdis := (List.nodup_append.mp hnd).2.2 a ha d.1.addr
      (List.mem_map_of_mem (List.mem_flatMap.mpr ⟨d, hd, List.mem_cons_self⟩))
    exact Ne.symm hdis
  rw [List.count_cons_of_ne (Ne.symm hda)] at hr
  exact H.pinned d hd (Nat.le_zero.mp hr)

omit [PathChar χ] in
theorem free_release (ha : a ∈ c.addrs) (hf : FreeOk c l (a :: r)) :
    FreeOk (inodeRelease a c) l r := by
  intro d hd hr b hb
  have hd' := (List.mem_filter.mp hd).1
  rw [update_eq ha] at hd'
  obtain ⟨e, he, rfl⟩ := List.mem_map.mp hd'
  dsimp only at hr hb
  rw [setInfo_addrs (f := decr) fun _ => rfl] at hb
  rw [update_addr (f := decr) fun _ => rfl] at hr
  refine hf e he ?_ b hb
  by_cases hea : e.1.addr = a
  · rw [if_pos hea] at hr
    have hone : e.1.crefs - 1 ≤ r.count e.1.addr := hr
    rw [hea, List.count_cons_self, ← hea]
    omega
  · rw [if_neg hea] at hr
    rw [List.count_cons_of_ne (Ne.symm hea)]
    exact hr

end

theorem Held.addref_next {next : Option Nat} (H : Held c l) (hn : ∀ b ∈ next, c.Placed b) :
    Held (addrefNext next c) (next.toList ++ l) ∧
      ∀ b, (addrefNext next c).Placed b ↔ c.Placed b := by
  cases next with
  | none => exact ⟨H, fun b => Iff.rfl⟩
  | some x =>
    have hx := (hn x rfl).mem
    exact ⟨H.addref hx, fun b => update_placed (f := incr) hx fun _ => rfl⟩

theorem Held.free_next {next : Option Nat} {r : List Nat} (H : Held c l)
    (hn : ∀ b ∈ next, c.Placed b) (hf : FreeOk c l' r) :
    FreeOk (addrefNext next c) (next.toList ++ l') r := by
  cases next with
  | none => exact hf
  | some x => exact H.free_addref (hn x rfl) hf

theorem Held.release_next {next : Option Nat} {r : List Nat} (H : Held c (next.toList ++ l))
    (hf : FreeOk c l (next.toList ++ r)) :
    Held (releaseNext next c) l ∧ FreeOk (releaseNext next c) l r ∧
      ∀ b ∈ l, c.Placed b → (releaseNext next c).Placed b := by
  cases next with
  | none => exact ⟨H, hf, fun b _ hp => hp⟩
  | some x =>
    exact ⟨H.release hf, free_release (H.live x List.mem_cons_self) hf,
      fun b hb hp => H.release_placed hb hp⟩

omit [PathChar χ] in
theorem head_mem {b : Nat} (h : t.head = some b) : b ∈ t.addrs := by
  cases t with
  | null => cases h
  | node i child peer =>
    cases h
    exact List.mem_cons_self

omit [PathChar χ] in
theorem peerOf_mem {r : Option Nat} (h : t.peerOf a = some r) :
    a ∈ t.addrs ∧ ∀ b ∈ r, b ∈ t.addrs := by
  induction t with
  | null => cases h
  | node i child peer ihc ihp =>
    unfold Inode.peerOf at h
    split at h
    · rename_i hi
      cases h
      exact ⟨hi ▸ List.mem_cons_self, fun b hb =>
        List.mem_cons_of_mem _ (List.mem_append_right _ (head_mem hb))⟩
    · split at h
      · rename_i r' hc
        cases h
        obtain ⟨h1, h2⟩ := ihc hc
        exact ⟨List.mem_cons_of_mem _ (List.mem_append_left _ h1), fun b hb =>
          List.mem_cons_of_mem _ (List.mem_append_left _ (h2 b hb))⟩
      · obtain ⟨h1, h2⟩ := ihp h
        exact ⟨List.mem_cons_of_mem _ (List.mem_append_right _ h1), fun b hb =>
          List.mem_cons_of_mem _ (List.mem_append_right _ (h2 b hb))⟩

omit [PathChar χ] in
theorem peerOf_some (h : a ∈ t.addrs) : ∃ r, t.peerOf a = some r := by
  induction t with
  | null => cases h
  | node i child peer ihc ihp =>
    unfold Inode.peerOf
    split
    · exact ⟨_, rfl⟩
    · rename_i hi
      split
      · exact ⟨_, rfl⟩
      · rename_i hc
        rcases List.mem_cons.mp h with h | h
        · exact absurd h.symm hi
        · rcases List.mem_append.mp h with h | h
          · obtain ⟨r, hr⟩ := ihc h
            rw [hr] at hc
            cases hc
          · exact ihp h

theorem Held.peer (H : Held c l) (ha : c.Placed a) : ∀ b ∈ c.peer a, c.Placed b := by
  intro b hb
  unfold Core.peer at hb
  split at hb
  · rename_i r hr
    exact .inl ((peerOf_mem hr).2 b hb)
  · rename_i hr
    rcases ha with ha | ⟨d, hd, rfl⟩
    · obtain ⟨r, hr'⟩ := peerOf_some ha
      rw [hr'] at hr
      cases hr
    · exfalso
      have hnone : (c.deleted.findSome? fun e => e.2.peerOf d.1.addr) = none := by
        refine List.findSome?_eq_none_iff.mpr fun e he => ?_
        cases hp : e.2.peerOf d.1.addr with
        | none => rfl
        | some r => exact absurd (peerOf_mem hp).1 (H.placed_apart (.inr ⟨d, hd, rfl⟩) he)
      rw [hnone] at hb
      cases hb

theorem infos_edit_remove {p : Path χ} {i : Info χ} {child peer : Inode χ}
    (h : (t.walk p).1 = .node i child peer) :
    t.infos.Perm (i :: child.infos ++ (t.edit (fun _ => peer) p).infos) := by
  refine walk_induct (motive := fun t p =>
    t.infos.Perm (i :: child.infos ++ (t.edit (fun _ => peer) p).infos)) ?_ ?_ ?_ h
  · intro p hp
    rw [(turn_end rfl hp).2.1]
    exact .refl _
  · intro k c r p hp _ ih
    rw [(turn_down rfl hp).2.1]
    exact perm_below ih
  · intro k c r n p hgt _ ih
    rw [(turn_gt hgt).2.1]
    exact perm_beside ih

omit [PathChar χ] in
theorem Spells.info {q : Path χ} {j : Info χ} (h : Spells t q j) : j ∈ t.infos := by
  induction h with
  | here => exact List.mem_cons_self
  | down _ ih => exact List.mem_cons_of_mem _ (List.mem_append_left _ ih)
  | next _ ih => exact List.mem_cons_of_mem _ (List.mem_append_right _ ih)

theorem Held.root_nodup (H : Held c l) : c.root.addrs.Nodup := by
  have hnd := H.nodup
  unfold Core.addrs Core.infos at hnd
  rw [List.map_append, infos_addr] at hnd
  exact (List.nodup_append.mp hnd).1

variable {p : Path χ} {i : Info χ} {child peer : Inode χ}

/-- A removed inode is kept with its references, or freed when it has none; then nothing below
it may be referenced. -/
theorem Held.remove (H : Held c l) (trailing : Bool) (hp : PathOk p)
    (hbelow : ∀ i child peer, (c.root.walk p).1 = .node i child peer →
      i.crefs = 0 → ∀ a ∈ child.addrs, a ∉ l) :
    Held (removeCore (absolute trailing p) c) l ∧
      ∀ b ∈ l, (∀ i child peer, (c.root.walk p).1 = .node i child peer → b ∉ child.addrs) →
        c.Placed b → (removeCore (absolute trailing p) c).Placed b := by
  have hn := H.root_nodup
  cases hw : (c.root.walk p).1 with
  | null =>
    unfold removeCore
    rw [remove_null hn trailing hp hw]
    exact ⟨H, fun b _ _ hb => hb⟩
  | node i child peer =>
    have hroot := infos_edit_remove hw
    have hsorted := (edit_remove_keeps H.sorted hw).1
    have hbelow := hbelow i child peer hw
    have haddrs : ∀ a ∈ c.root.addrs,
        a = i.addr ∨ a ∈ child.addrs ∨ a ∈ (c.root.edit (fun _ => peer) p).addrs := by
      intro a ha
      rw [← infos_addr] at ha
      have ha' := (hroot.map Info.addr).mem_iff.mp ha
      rw [List.cons_append, List.map_cons, List.map_append, infos_addr, infos_addr] at ha'
      exact (List.mem_cons.mp ha').imp id List.mem_append.mp
    unfold removeCore
    rw [remove_edit hn trailing hp hw]
    by_cases hc : i.crefs ≠ 0
    · rw [if_pos hc]
      have hperm : c.infos.Perm (Core.infos
          { c with
            root := c.root.edit (fun _ => peer) p
            deleted := (i, child) :: c.deleted }) := by
        unfold Core.infos
        rw [List.flatMap_cons, ← List.append_assoc]
        exact (hroot.trans List.perm_append_comm).append_right _
      refine ⟨⟨hsorted, (hperm.map _).nodup_iff.mp H.nodup,
        fun j hj => H.counted j (hperm.mem_iff.mpr hj),
        fun a ha => (hperm.map _).mem_iff.mp (H.live a ha), fun d hd => ?_, H.untouched⟩,
        fun b hb hout hplaced => ?_⟩
      · rcases List.mem_cons.mp hd with rfl | hd
        · exact hc
        · exact H.pinned d hd
      · rcases hplaced with h | ⟨d, hd, hdb⟩
        · rcases haddrs b h with rfl | h | h
          · exact .inr ⟨_, List.mem_cons_self, rfl⟩
          · exact absurd h (hout i child peer rfl)
          · exact .inl h
        · exact .inr ⟨d, List.mem_cons_of_mem _ hd, hdb⟩
    · rw [if_neg hc]
      have hzero := not_not.mp hc
      have hperm : c.infos.Perm (i :: child.infos ++
          Core.infos { c with root := c.root.edit (fun _ => peer) p }) := by
        unfold Core.infos
        rw [← List.append_assoc]
        exact hroot.append_right _
      have hnd := (hperm.map Info.addr).nodup_iff.mp H.nodup
      rw [List.map_append] at hnd
      have hself : i.addr ∉ l := by
        obtain ⟨q, -, hs, -⟩ := walk_found hw
        have hcount := H.counted i (List.mem_append_left _ hs.info)
        rw [hzero] at hcount
        exact List.count_eq_zero.mp hcount.symm
      refine ⟨⟨hsorted, (List.nodup_append.mp hnd).2.1,
        fun j hj => H.counted j (hperm.mem_iff.mpr (List.mem_append_right _ hj)),
        fun a ha => ?_, H.pinned, H.untouched⟩, fun b hb hout hplaced => ?_⟩
      · have ha' := (hperm.map Info.addr).mem_iff.mp (H.live a ha)
        rw [List.map_append, List.map_cons, infos_addr] at ha'
        rcases List.mem_append.mp ha' with h | h
        · rcases List.mem_cons.mp h with rfl | h
          · exact absurd ha hself
          · exact absurd ha (hbelow hzero a h)
        · exact h
      · refine hplaced.imp (fun h => ?_) id
        rcases haddrs b h with rfl | h | h
        · exact absurd hb hself
        · exact absurd h (hout i child peer rfl)
        · exact h

theorem Held.reserve (H : Held c l) {mem : List Nat} (trailing : Bool) (hp : PathOk p)
    (hm : mem.Nodup) (hfresh : ∀ a ∈ mem, a ∉ c.addrs) :
    Held { c with root := (inodeReserve mem (absolute trailing p) c.root).1 } l ∧
      (∀ m, (inodeReserve mem (absolute trailing p) c.root).2 = some m →
        m ∈ (inodeReserve mem (absolute trailing p) c.root).1.addrs) ∧
      ∀ b ∈ c.root.addrs, b ∈ (inodeReserve mem (absolute trailing p) c.root).1.addrs := by
  have hn := H.root_nodup
  have hfresh' : ∀ a ∈ mem, a ∉ c.root.addrs := fun a ha h => hfresh a ha (Core.Placed.mem (.inl h))
  by_cases hw : (c.root.walk p).1 = .null
  · have M := walk_missed H.sorted hp.1 hw
    rw [reserve_edit hn trailing hp (M.rest_ok hp) hm hfresh' hw]
    dsimp only
    have hinfos := infos_edit_add (t := c.root) (f := branch mem (c.root.walk p).2)
      (fun r => .of_eq (branch_infos_append mem _ r)) hp.1 hw
    have hnew := branch_infos mem (c.root.walk p).2
    have hroot : (Core.infos { c with root := c.root.edit (branch mem (c.root.walk p).2) p }).Perm
        ((branch mem (c.root.walk p).2 .null).infos ++ c.infos) := by
      unfold Core.infos
      rw [← List.append_assoc]
      exact hinfos.append_right _
    have hfreshl : ∀ a ∈ mem, a ∉ l := fun a ha h => hfresh a ha (H.live a h)
    have hgrow : ∀ b ∈ c.root.addrs, b ∈ (c.root.edit (branch mem (c.root.walk p).2) p).addrs := by
      intro b hb
      rw [← infos_addr] at hb ⊢
      exact (hinfos.map _).mem_iff.mpr (by rw [List.map_append]; exact List.mem_append_right _ hb)
    refine ⟨⟨?_, ?_, fun j hj => ?_, fun a ha => ?_, H.pinned, H.untouched⟩, fun m hm' => ?_, hgrow⟩
    · cases mem with
      | nil =>
        show (c.root.edit (branch [] (c.root.walk p).2) p).Sorted
        rw [edit_id fun r => branch_nil _ r]
        exact H.sorted
      | cons a mem =>
        obtain ⟨n, p, rfl⟩ := List.exists_cons_of_ne_nil hp.1
        exact (sorted_edit_add H.sorted hw).1
    · refine (hroot.map _).nodup_iff.mpr ?_
      rw [List.map_append, infos_addr, branch_addrs, Inode.addrs, List.append_nil]
      refine List.nodup_append.mpr ⟨hm.sublist (List.take_sublist _ _), H.nodup,
        fun a ha b hb hab => ?_⟩
      exact hfresh a (List.mem_of_mem_take ha) (hab ▸ hb)
    · rcases List.mem_append.mp (hroot.mem_iff.mp hj) with h | h
      · rw [(hnew j h).2]
        exact (List.count_eq_zero.mpr (hfreshl _ (hnew j h).1)).symm
      · exact H.counted j h
    · refine (hroot.map _).mem_iff.mpr ?_
      rw [List.map_append]
      exact List.mem_append_right _ (H.live a ha)
    · obtain ⟨j, rfl, hj⟩ := lastNode_spells hm'
      rw [← infos_addr]
      refine (hinfos.map _).mem_iff.mpr ?_
      rw [List.map_append]
      exact List.mem_append_left _ (List.mem_map_of_mem hj.info)
  · rw [reserve_found mem hn trailing hp hw]
    refine ⟨H, fun m hm' => ?_, fun b hb => hb⟩
    cases hm'

theorem Held.search (H : Held c l) (trailing : Bool) (hp : PathOk p)
    (h : (inodeSearch c.root (absolute trailing p)).node = .node i child peer) :
    (c.root.walk p).1 = .node i child peer ∧ i.addr ∈ c.root.addrs := by
  obtain ⟨h1, -, -⟩ := search_walk H.root_nodup trailing hp
  have hw := h1.symm.trans h
  obtain ⟨q, -, hs, -⟩ := walk_found hw
  exact ⟨hw, hs.addr⟩

end

structure Kept (s : Fs χ) : Prop where
  held : Held s.core s.refs
  stands : ∀ d ∈ s.streams, ∀ a ∈ d.refs, s.core.Placed a

section

variable {s s' : Fs χ} {p : Path χ} {a : Nat} {c : Core χ}

omit [PathChar χ] in
theorem stream_refs {d : Dir} (hd : d ∈ s.streams) (ha : a ∈ d.refs) : a ∈ s.refs :=
  List.mem_append_right _ (List.mem_append_right _ (List.mem_flatMap.mpr ⟨d, hd, ha⟩))

omit [PathChar χ] in
theorem update_root {f : Info χ → Info χ} (h : a ∈ c.addrs) (hf : ∀ i, (f i).addr = i.addr) :
    (c.update a f).root.addrs = c.root.addrs := by
  rw [update_eq h]
  exact setInfo_addrs hf

theorem inodeFind_held {l : List Nat} (H : Held c l) (trailing : Bool) (hp : PathOk p) :
    inodeFind (absolute trailing p) c = (none, c) ∨
      ∃ a, a ∈ c.root.addrs ∧ inodeFind (absolute trailing p) c = (some a, inodeAddref a c) ∧
        (inodeSearch c.root (absolute trailing p)).node.head = some a := by
  unfold inodeFind
  cases hn : (inodeSearch c.root (absolute trailing p)).node with
  | null => exact .inl rfl
  | node i child peer => exact .inr ⟨i.addr, (H.search trailing hp hn).2, rfl, rfl⟩

theorem openCall_kept (K : Kept s) (trailing ok : Bool) (hp : PathOk p) :
    Kept (openCall (absolute trailing p) ok s) := by
  unfold openCall
  rcases inodeFind_held K.held trailing hp with h | ⟨a, ha, h, -⟩
  · rw [h]
    exact K
  · rw [h]
    have hlive : a ∈ s.core.addrs := Core.Placed.mem (.inl ha)
    have H₁ : Held (inodeAddref a s.core) (a :: s.refs) := K.held.addref hlive
    have hstands : ∀ d ∈ s.streams, ∀ b ∈ d.refs, (inodeAddref a s.core).Placed b :=
      fun d hd b hb => (update_placed (f := incr) hlive fun _ => rfl).mpr (K.stands d hd b hb)
    cases ok with
    | true => exact ⟨H₁, hstands⟩
    | false =>
      have ha₁ : a ∈ (inodeAddref a s.core).root.addrs :=
        update_root (f := incr) hlive (fun _ => rfl) ▸ ha
      exact ⟨H₁.release (H₁.free_tree ha₁), fun d hd b hb =>
        H₁.release_placed (stream_refs hd hb) (hstands d hd b hb)⟩

theorem closeCall_kept (K : Kept s) (ha : a ∈ s.handles) (hf : FreeOk s.core s.refs [a]) :
    Kept (closeCall a s) := by
  have hperm : s.refs.Perm (a :: (closeCall a s).refs) :=
    (List.perm_cons_erase ha).append_right _
  have H := K.held.perm hperm
  have hf' : FreeOk s.core (closeCall a s).refs [a] :=
    hf.mono fun b hb => hperm.mem_iff.mpr (List.mem_cons_of_mem _ hb)
  refine ⟨H.release hf', fun d hd b hb => H.release_placed ?_ (K.stands d hd b hb)⟩
  exact stream_refs (s := closeCall a s) hd hb

omit [PathChar χ] in
theorem perm_streams (s : Fs χ) (d : Dir) :
    (s.handles ++ (s.drivers ++ (d :: s.streams).flatMap Dir.refs)).Perm (d.refs ++ s.refs) := by
  unfold Fs.refs
  rw [List.flatMap_cons, ← List.append_assoc, ← List.append_assoc, ← List.append_assoc,
    ← List.append_assoc]
  refine List.Perm.append_right _ ?_
  rw [List.append_assoc d.refs]
  exact List.perm_append_comm

theorem opendir_kept (K : Kept s) {path : Option (Path χ)} (trailing mem ok : Bool)
    (hp : ∀ q ∈ path, PathOk q)
    (hk : ∀ q ∈ path, ∀ i child peer,
      (inodeSearch s.core.root (absolute trailing q)).node = .node i child peer →
        i.mountpt = true ∨ child.head = none) :
    Kept (opendir (path.map (absolute trailing)) mem ok s) := by
  unfold opendir
  have hroot : ∀ i child peer, dirInode (path.map (absolute trailing)) s.core =
      .node i child peer → i.addr ∈ s.core.root.addrs := by
    intro i child peer h
    cases path with
    | none =>
      have h' : s.core.root = .node i child peer := h
      rw [h']
      exact List.mem_cons_self
    | some q => exact (K.held.search trailing (hp q rfl) h).2
  cases hd : dirInode (path.map (absolute trailing)) s.core with
  | null => exact K
  | node i child peer =>
    dsimp only
    have hi := hroot i child peer hd
    have hlive : i.addr ∈ s.core.addrs := Core.Placed.mem (.inl hi)
    have H₁ : Held (inodeAddref i.addr s.core) (i.addr :: s.refs) := K.held.addref hlive
    have hi₁ : i.addr ∈ (inodeAddref i.addr s.core).root.addrs :=
      update_root (f := incr) hlive (fun _ => rfl) ▸ hi
    have hlive₁ : i.addr ∈ (inodeAddref i.addr s.core).addrs := Core.Placed.mem (.inl hi₁)
    have hstands₁ : ∀ d ∈ s.streams, ∀ b ∈ d.refs, (inodeAddref i.addr s.core).Placed b :=
      fun d hd b hb => (update_placed (f := incr) hlive fun _ => rfl).mpr (K.stands d hd b hb)
    by_cases hmem : mem = false
    · rw [if_pos hmem]
      exact K
    rw [if_neg hmem]
    by_cases hmt : i.mountpt = true
    · rw [if_pos hmt]
      cases ok with
      | true =>
        rw [if_pos rfl]
        refine ⟨H₁.perm (perm_streams s (.mountpt i.addr)).symm, fun d hd b hb => ?_⟩
        rcases List.mem_cons.mp hd with rfl | hd
        · rw [List.mem_singleton.mp hb]
          exact .inl hi₁
        · exact hstands₁ d hd b hb
      | false =>
        rw [if_neg (by simp)]
        exact ⟨H₁.takeBack hi₁, fun d hd b hb =>
          (update_placed (f := decr) hlive₁ fun _ => rfl).mpr (hstands₁ d hd b hb)⟩
    rw [if_neg hmt]
    cases path with
    | none =>
      rw [if_pos (show (none : Option (Path χ)).map (absolute trailing) = none from rfl)]
      have hstands₂ : ∀ b, (inodeAddref i.addr s.core).Placed b →
          (inodeAddref i.addr (inodeAddref i.addr s.core)).Placed b :=
        fun b => (update_placed (f := incr) hlive₁ fun _ => rfl).mpr
      refine ⟨(H₁.addref hlive₁).perm
        (perm_streams s (.psuedo i.addr (some i.addr) 0)).symm, fun d hd b hb => ?_⟩
      rcases List.mem_cons.mp hd with rfl | hd
      · have hb' : b = i.addr := by
          rcases List.mem_cons.mp hb with hb | hb
          · exact hb
          · exact List.mem_singleton.mp hb
        exact hstands₂ b (.inl (hb' ▸ hi₁))
      · exact hstands₂ b (hstands₁ d hd b hb)
    | some q =>
      rw [if_neg (by simp)]
      rcases hk q rfl i child peer hd with h | h
      · exact absurd h hmt
      · cases child with
        | null => exact K
        | node j c r => cases h

omit [PathChar χ] in
theorem perm_stream {k : Nat} {d : Dir} (hd : s.streams[k]? = some d) (e : Dir) :
    s.refs.Perm (d.refs ++ (s.handles ++ (s.drivers ++ (s.streams.eraseIdx k).flatMap Dir.refs))) ∧
      (s.handles ++ (s.drivers ++ (s.streams.set k e).flatMap Dir.refs)).Perm
        (e.refs ++ (s.handles ++ (s.drivers ++ (s.streams.eraseIdx k).flatMap Dir.refs))) := by
  obtain ⟨hk, rfl⟩ := List.getElem?_eq_some_iff.mp hd
  have hmove : ∀ (x : Dir) (l : List Dir), l.Perm (x :: s.streams.eraseIdx k) →
      (s.handles ++ (s.drivers ++ l.flatMap Dir.refs)).Perm
        (x.refs ++ (s.handles ++ (s.drivers ++ (s.streams.eraseIdx k).flatMap Dir.refs))) := by
    intro x l hl
    have hflat : (l.flatMap Dir.refs).Perm (x.refs ++ (s.streams.eraseIdx k).flatMap Dir.refs) := by
      rw [← List.flatMap_cons]
      exact hl.flatMap_right _
    refine ((hflat.append_left _).append_left _).trans ?_
    exact perm_streams { s with streams := s.streams.eraseIdx k } x
  exact ⟨hmove _ _ (List.getElem_cons_eraseIdx_perm hk).symm,
    hmove _ _ (List.set_perm_cons_eraseIdx hk e)⟩

theorem perm_exchange (x : Nat) (l₁ l₂ l : List Nat) :
    (l₁ ++ (x :: l₂ ++ l)).Perm (l₂ ++ (x :: l₁ ++ l)) := by
  have hswap : (l₁ ++ (l₂ ++ l)).Perm (l₂ ++ (l₁ ++ l)) := by
    rw [← List.append_assoc, ← List.append_assoc]
    exact List.perm_append_comm.append_right _
  exact List.perm_middle.trans ((hswap.cons x).trans List.perm_middle.symm)

theorem seekPeers_placed {l : List Nat} (H : Held c l) (n : Nat) {curr : Option Nat} {pos : Nat}
    (hc : ∀ b ∈ curr, c.Placed b) : ∀ b ∈ (seekPeers c n curr pos).1, c.Placed b := by
  induction n generalizing curr pos with
  | zero => exact hc
  | succ n ih =>
    cases curr with
    | none =>
      intro b hb
      cases hb
    | some a => exact ih (H.peer (hc a rfl))

/-- A stream goes on to another inode: that is referenced, and the one before it released. -/
theorem step_kept (K : Kept s) {k root : Nat} {next curr : Option Nat} {position pos : Nat}
    (hd : s.streams[k]? = some (.psuedo root next position)) (hto : ∀ b ∈ curr, s.core.Placed b)
    (hf : FreeOk (addrefNext curr s.core) (curr.toList ++ s.refs) next.toList) :
    Kept
      { s with
        core := releaseNext next (addrefNext curr (s.core.touch root))
        streams := s.streams.set k (.psuedo root curr pos) } := by
  obtain ⟨hold, hnew⟩ := perm_stream hd (.psuedo root curr pos)
  have hmem := List.mem_of_getElem? hd
  have H₀ := K.held.perm hold
  rw [H₀.touch List.mem_cons_self]
  obtain ⟨H₁, hplaced⟩ := H₀.addref_next hto
  have hsub : ∀ b ∈ root :: curr.toList ++ (s.handles ++ (s.drivers ++
      (s.streams.eraseIdx k).flatMap Dir.refs)), b ∈ curr.toList ++ s.refs := by
    intro b hb
    rcases List.mem_append.mp hb with hb | hb
    · rcases List.mem_cons.mp hb with rfl | hb
      · exact List.mem_append_right _ (hold.mem_iff.mpr List.mem_cons_self)
      · exact List.mem_append_left _ hb
    · exact List.mem_append_right _ (hold.mem_iff.mpr (List.mem_append_right _ hb))
  obtain ⟨H₂, -, hkeep⟩ := (H₁.perm (perm_exchange root _ _ _)).release_next (r := [])
    ((List.append_nil next.toList).symm ▸ hf.mono hsub)
  refine ⟨H₂.perm hnew.symm, fun d hd' b hb => ?_⟩
  refine hkeep b ?_ ((hplaced b).mpr ?_)
  · refine hnew.mem_iff.mp (List.mem_append_right _ (List.mem_append_right _ ?_))
    exact List.mem_flatMap.mpr ⟨d, hd', hb⟩
  · rcases List.mem_or_eq_of_mem_set hd' with hd' | rfl
    · exact K.stands d hd' b hb
    · rcases List.mem_cons.mp hb with rfl | hb
      · exact K.stands _ hmem b List.mem_cons_self
      · exact hto b (Option.mem_toList.mp hb)

theorem readdir_kept (K : Kept s) (k : Nat)
    (hf : FreeOk s.core s.refs ((Call.readdir (χ := χ) k).released s)) : Kept (readdir k s) := by
  unfold readdir
  split
  · rename_i root a position hd
    unfold Call.released at hf
    dsimp only at hf
    rw [hd] at hf
    have ha := K.stands _ (List.mem_of_getElem? hd) a (List.mem_cons_of_mem _ List.mem_cons_self)
    have hpeer := K.held.peer ha
    exact step_kept K hd hpeer (K.held.free_next hpeer hf)
  · exact K

theorem seekdir_kept (K : Kept s) (k offset : Nat)
    (hf : FreeOk s.core s.refs ((Call.seekdir (χ := χ) k offset).released s)) :
    Kept (seekdir k offset s) := by
  unfold seekdir
  split
  · rename_i root next position hd
    unfold Call.released at hf
    dsimp only at hf ⊢
    rw [hd] at hf
    dsimp only at hf
    have hmem := List.mem_of_getElem? hd
    have hroot : s.core.Placed root := K.stands _ hmem root List.mem_cons_self
    have hnext : ∀ b ∈ next, s.core.Placed b := fun b hb =>
      K.stands _ hmem b (List.mem_cons_of_mem _ (Option.mem_toList.mpr hb))
    have hto : ∀ b ∈ (seekTarget s.core root next position offset).1, s.core.Placed b := by
      unfold seekTarget
      split
      · refine seekPeers_placed K.held _ fun b hb => ?_
        cases hb
        exact hroot
      · exact seekPeers_placed K.held _ hnext
    refine step_kept K hd hto ?_
    split at hf
    · rename_i heq
      rw [heq]
      cases next with
      | none => exact fun d hd hr => absurd (Nat.le_zero.mp hr) (K.held.pinned d hd)
      | some x => exact K.held.free_again (hnext x rfl)
    · exact K.held.free_next hto hf
  · exact K

theorem closedir_kept (K : Kept s) (k : Nat)
    (hf : FreeOk s.core s.refs ((Call.closedir (χ := χ) k).released s)) :
    Kept (closedir k s) := by
  unfold Call.released at hf
  dsimp only at hf
  unfold closedir
  split
  · rename_i root next position hd
    rw [hd] at hf
    obtain ⟨hold, -⟩ := perm_stream hd (.psuedo root next position)
    have H₀ := (K.held.perm hold).perm List.perm_middle.symm
    have hf₀ : FreeOk s.core (root :: (s.handles ++ (s.drivers ++
        (s.streams.eraseIdx k).flatMap Dir.refs))) (next.toList ++ [root]) := by
      refine (FreeOk.mono hf fun b hb => hold.mem_iff.mpr ?_).perm
        (show ([root] ++ next.toList).Perm (next.toList ++ [root]) from List.perm_append_comm)
      rcases List.mem_cons.mp hb with rfl | hb
      · exact List.mem_cons_self
      · exact List.mem_append_right _ hb
    obtain ⟨H₁, hf₁, hkeep⟩ := H₀.release_next hf₀
    refine ⟨H₁.release (hf₁.mono fun b hb => List.mem_cons_of_mem _ hb), fun d hd' b hb => ?_⟩
    have hb' : b ∈ s.handles ++ (s.drivers ++ (s.streams.eraseIdx k).flatMap Dir.refs) :=
      stream_refs (s := { s with streams := s.streams.eraseIdx k }) hd' hb
    refine H₁.release_placed hb' (hkeep b (List.mem_cons_of_mem _ hb') ?_)
    exact K.stands d (List.mem_of_mem_eraseIdx hd') b hb
  · rename_i root hd
    rw [hd] at hf
    obtain ⟨hold, -⟩ := perm_stream hd (.mountpt root)
    have H₀ := K.held.perm hold
    have hf₀ : FreeOk s.core (s.handles ++ (s.drivers ++
        (s.streams.eraseIdx k).flatMap Dir.refs)) [root] :=
      FreeOk.mono hf fun b hb => hold.mem_iff.mpr (List.mem_append_right _ hb)
    refine ⟨Held.release H₀ hf₀, fun d hd' b hb => ?_⟩
    have hb' : b ∈ s.handles ++ (s.drivers ++ (s.streams.eraseIdx k).flatMap Dir.refs) :=
      stream_refs (s := { s with streams := s.streams.eraseIdx k }) hd' hb
    exact Held.release_placed H₀ hb' (K.stands d (List.mem_of_mem_eraseIdx hd') b hb)
  · exact K

theorem walk_setInfo {t : Inode χ} {f : Info χ → Info χ} (hf : ∀ i, (f i).name = i.name)
    (hm : ∀ i, (f i).mountpt = i.mountpt) (p : Path χ) :
    ((t.setInfo a f).walk p).2 = (t.walk p).2 ∧
      (((t.setInfo a f).walk p).1 = .null ↔ (t.walk p).1 = .null) := by
  induction t generalizing p with
  | null => exact ⟨rfl, Iff.rfl⟩
  | node i child peer ihc ihp =>
    have hname : (if i.addr = a then f i else i).name = i.name := by
      split
      · exact hf i
      · rfl
    have hmount : (if i.addr = a then f i else i).mountpt = i.mountpt := by
      split
      · exact hm i
      · rfl
    cases p with
    | nil => exact ⟨rfl, Iff.rfl⟩
    | cons n p =>
      simp only [Inode.setInfo, Inode.walk, hname, hmount]
      split
      · exact ⟨rfl, Iff.rfl⟩
      split
      · exact ihp _
      split
      · exact ⟨rfl, ⟨fun h => (by cases h), fun h => (by cases h)⟩⟩
      · exact ihc _

theorem reserve_addref (K : Kept s) (trailing : Bool) {mem : List Nat} (hp : PathOk p)
    (hm : mem.Nodup) (hfresh : ∀ b ∈ mem, b ∉ s.core.addrs) (ha : a ∈ s.core.root.addrs) :
    (inodeReserve mem (absolute trailing p) s.core.root).2 =
      (inodeReserve mem (absolute trailing p) (inodeAddref a s.core).root).2 := by
  have hn := K.held.root_nodup
  have hroot : (inodeAddref a s.core).root = s.core.root.setInfo a incr := by
    unfold inodeAddref
    rw [update_eq (Core.Placed.mem (.inl ha))]
  have hfresh' : ∀ b ∈ mem, b ∉ s.core.root.addrs :=
    fun b hb h => hfresh b hb (Core.Placed.mem (.inl h))
  have haddrs : (s.core.root.setInfo a incr).addrs = s.core.root.addrs :=
    setInfo_addrs (f := incr) fun _ => rfl
  obtain ⟨h2, h1⟩ := walk_setInfo (t := s.core.root) (a := a) (f := incr) (fun _ => rfl)
    (fun _ => rfl) p
  rw [hroot]
  by_cases hw : (s.core.root.walk p).1 = .null
  · have M := walk_missed K.held.sorted hp.1 hw
    have hrest := M.rest_ok hp
    rw [reserve_edit hn trailing hp hrest hm hfresh' hw,
      reserve_edit (haddrs ▸ hn) trailing hp (h2 ▸ hrest) hm (haddrs ▸ hfresh') (h1.mpr hw), h2]
  · rw [reserve_found mem hn trailing hp hw,
      reserve_found mem (haddrs ▸ hn) trailing hp fun h => hw (h1.mp h)]

theorem mount_kept (K : Kept s) {source target : Path χ} (trailing : Bool) {mem : List Nat}
    {answer : Answer} (hs : PathOk source) (ht : PathOk target) (hm : mem.Nodup)
    (hfresh : ∀ a ∈ mem, a ∉ s.core.addrs)
    (hk : answer = .failed →
      (inodeSearch s.core.root (absolute trailing source)).node.head = none ∨
        (inodeReserve mem (absolute trailing target) s.core.root).2 = none) :
    Kept (mount (absolute trailing source) (absolute trailing target) mem answer s) := by
  unfold mount
  rcases inodeFind_held K.held trailing hs with h | ⟨a, ha, h, hhead⟩
  · rw [h]
    exact K
  · rw [h]
    dsimp only
    have hlive : a ∈ s.core.addrs := Core.Placed.mem (.inl ha)
    have H₁ : Held (inodeAddref a s.core) (a :: s.refs) := K.held.addref hlive
    have ha₁ : a ∈ (inodeAddref a s.core).root.addrs :=
      update_root (f := incr) hlive (fun _ => rfl) ▸ ha
    have hstands₁ : ∀ d ∈ s.streams, ∀ b ∈ d.refs, (inodeAddref a s.core).Placed b :=
      fun d hd b hb => (update_placed (f := incr) hlive fun _ => rfl).mpr (K.stands d hd b hb)
    by_cases hr : answer = .refused
    · rw [if_pos hr]
      exact ⟨H₁.release (H₁.free_tree ha₁), fun d hd b hb =>
        H₁.release_placed (stream_refs hd hb) (hstands₁ d hd b hb)⟩
    rw [if_neg hr]
    have hfresh₁ : ∀ b ∈ mem, b ∉ (inodeAddref a s.core).addrs := by
      unfold inodeAddref
      rw [update_addrs (f := incr) hlive fun _ => rfl]
      exact hfresh
    obtain ⟨H₂, hnew, hgrow⟩ := H₁.reserve trailing ht hm hfresh₁
    have hsame := reserve_addref K trailing ht hm hfresh ha
    cases hres : inodeReserve mem (absolute trailing target) (inodeAddref a s.core).root with
    | mk root r =>
      rw [hres] at H₂ hnew hsame hgrow
      have ha₂ : a ∈ root.addrs := hgrow a ha₁
      have hstands₂ : ∀ d ∈ s.streams, ∀ b ∈ d.refs,
          Core.Placed { inodeAddref a s.core with root := root } b :=
        fun d hd b hb => (hstands₁ d hd b hb).imp (hgrow b) id
      cases r with
      | none =>
        exact ⟨H₂.release (H₂.free_tree ha₂), fun d hd b hb =>
          H₂.release_placed (stream_refs hd hb) (hstands₂ d hd b hb)⟩
      | some m =>
        dsimp only
        have hlive₂ : a ∈ Core.addrs { inodeAddref a s.core with root := root } :=
          Core.Placed.mem (.inl ha₂)
        have H₃ := H₂.addref hlive₂
        by_cases hf : answer = .failed
        · exfalso
          rcases hk hf with h' | h'
          · rw [hhead] at h'
            cases h'
          · rw [h'] at hsame
            cases hsame
        · rw [if_neg hf]
          have hroot₃ : (inodeAddref a { inodeAddref a s.core with root := root }).root.addrs =
              root.addrs := update_root (f := incr) hlive₂ fun _ => rfl
          have hm₃ : m ∈ (inodeAddref a { inodeAddref a s.core with root := root }).addrs :=
            Core.Placed.mem (.inl (hroot₃ ▸ hnew m rfl))
          have H₄ := H₃.update (f := inodeSetMountpt) hm₃ (fun _ => rfl) (fun _ => rfl)
            (fun _ _ => rfl) (fun i _ hi => hi) (fun b hb => .inr hb)
            fun d hd _ => H₃.pinned d hd
          have ha₄ : a ∈ ((inodeAddref a { inodeAddref a s.core with root := root }).update m
              inodeSetMountpt).root.addrs :=
            update_root (f := inodeSetMountpt) hm₃ (fun _ => rfl) ▸ hroot₃ ▸ ha₂
          refine ⟨(H₄.release (H₄.free_tree ha₄)).perm List.perm_middle.symm,
            fun d hd b hb => ?_⟩
          refine H₄.release_placed (List.mem_cons_of_mem _ (stream_refs hd hb)) ?_
          refine (update_placed (f := inodeSetMountpt) hm₃ fun _ => rfl).mpr ?_
          exact (update_placed (f := incr) hlive₂ fun _ => rfl).mpr (hstands₂ d hd b hb)

theorem Kept.step {i : Call χ} (K : Kept s) (hv : i.valid s) (hk : i.keeps s)
    (he : execCall i s = some s') : Kept s' := by
  obtain ⟨-, hf, hk⟩ := hk
  cases i with
  | find p trailing =>
    cases he
    exact openCall_kept K trailing true hv
  | release a =>
    cases he
    exact closeCall_kept K hv hf
  | openFile p trailing ok =>
    cases he
    exact openCall_kept K trailing ok hv
  | close a =>
    cases he
    exact closeCall_kept K hv hf
  | opendir p trailing mem ok =>
    cases he
    refine opendir_kept K trailing mem ok hv fun q hq i child peer hn => ?_
    cases hq
    dsimp only at hk
    rw [hn] at hk
    exact hk
  | readdir k =>
    cases he
    exact readdir_kept K k hf
  | seekdir k offset =>
    cases he
    exact seekdir_kept K k offset hf
  | closedir k =>
    cases he
    exact closedir_kept K k hf
  | mount source target trailing mem answer =>
    cases he
    obtain ⟨hs, ht, hm, hfresh⟩ := hv
    refine mount_kept K trailing hs ht hm hfresh fun ha => ?_
    subst ha
    exact hk
  | remove p trailing =>
    cases he
    obtain ⟨h1, -, -⟩ := search_walk K.held.root_nodup trailing hv
    have hk' : ∀ i child peer, (s.core.root.walk p).1 = .node i child peer →
        (i.crefs = 0 → ∀ a ∈ child.addrs, a ∉ s.refs) ∧
          ∀ a ∈ child.addrs, a ∉ s.streams.flatMap Dir.refs := by
      intro i child peer hw
      dsimp only at hk
      rw [h1.trans hw] at hk
      exact hk
    obtain ⟨H, hstands⟩ := K.held.remove trailing hv fun i child peer hw => (hk' i child peer hw).1
    refine ⟨H, fun d hd b hb => hstands b (stream_refs hd hb) (fun i child peer hw hmem => ?_)
      (K.stands d hd b hb)⟩
    exact (hk' i child peer hw).2 b hmem (List.mem_flatMap.mpr ⟨d, hd, hb⟩)

end

/-- References to inodes are counted, and inodes freed, rightly in every run without the
calls that `Call.keeps` excludes. -/
theorem lifetime_kept {s : Fs χ} (h : Reach lifeMachine Unreferenced (fun s i => i.keeps s) s) :
    Lifetime s := by
  have K : Kept s := by
    apply Reach.invariant (I := Kept) _ _ h
    · intro s hs
      obtain ⟨hh, hd, hst, hdel, hfault, hsorted, hnodup, hzero⟩ := hs
      have hrefs : s.refs = [] := by
        unfold Fs.refs
        rw [hh, hd, hst]
        rfl
      have hinfos : s.core.infos = s.core.root.infos := by
        unfold Core.infos
        rw [hdel]
        exact List.append_nil _
      refine ⟨?_, fun d hd => ?_⟩
      · rw [hrefs]
        refine ⟨hsorted, ?_, fun i hi => ?_, fun a ha => (by cases ha), fun d hd => ?_, hfault⟩
        · unfold Core.addrs
          rw [hinfos, infos_addr]
          exact hnodup
        · rw [hinfos] at hi
          exact hzero i hi
        · rw [hdel] at hd
          cases hd
      · rw [hst] at hd
        cases hd
    · exact fun s i s' K hv hk he => K.step hv hk he
  exact ⟨K.held.nodup, K.held.counted, K.held.live, K.held.pinned, K.held.untouched⟩

def driverTree : Fs Nat where
  core :=
    { root := .node ⟨1, [100], 0, false⟩ (.node ⟨2, [98], 0, false⟩ .null .null) .null
      deleted := []
      fault := false }
  handles := []
  drivers := []
  streams := []

theorem driverTree_unreferenced : Unreferenced driverTree := by
  refine ⟨rfl, rfl, rfl, rfl, rfl, ?_, by decide, by decide⟩
  exact ⟨fun n hn => (by cases hn), ⟨fun n hn => (by cases hn), trivial, trivial⟩, trivial⟩

/-- The driver is opened and removed: it stays with its reference. -/
theorem lifetime_run : ∃ s : Fs Nat, s.core.deleted.length = 1 ∧ s.refs = [2] ∧ Lifetime s := by
  let s₁ := openCall (absolute false [[100], [98]]) true driverTree
  let s₂ : Fs Nat := { s₁ with core := removeCore (absolute false [[100], [98]]) s₁.core }
  have h₁ : Reach lifeMachine Unreferenced (fun s i => i.keeps s) s₁ :=
    .step (i := .openFile [[100], [98]] false true) (.init driverTree_unreferenced)
      (show PathOk [[100], [98]] by decide) ⟨by decide, fun d hd => (by cases hd), trivial⟩ rfl
  have hkeeps : Call.keeps s₁ (.remove [[100], [98]] false) := by
    refine ⟨by decide +kernel, fun d hd => ?_, ?_⟩
    · have hnone : s₁.core.deleted.length = 0 := by decide +kernel
      rw [List.length_eq_zero_iff.mp hnone] at hd
      cases hd
    · have hnode : (inodeSearch s₁.core.root (absolute false [[100], [98]])).node =
          .node ⟨2, [98], 1, false⟩ .null .null := by
        decide +kernel
      dsimp only
      rw [hnode]
      exact ⟨fun h => (by cases h), fun a ha => (by cases ha)⟩
  have h₂ : Reach lifeMachine Unreferenced (fun s i => i.keeps s) s₂ :=
    .step (i := .remove [[100], [98]] false) h₁ (show PathOk [[100], [98]] by decide) hkeeps rfl
  exact ⟨s₂, by decide +kernel, by decide +kernel, lifetime_kept h₂⟩

/-- `opendir` counts both references of the stream at the first entry of the directory, none
at the directory. -/
theorem opendir_uncounted : ¬∀ s : Fs Nat, Reachable lifeMachine Unreferenced s → Lifetime s := by
  intro hall
  let s₁ := opendir (some (absolute false [[100]])) true true driverTree
  have h₁ : Reachable lifeMachine Unreferenced s₁ :=
    .step (i := .opendir (some [[100]]) false true true) (.init driverTree_unreferenced)
      (fun q hq => by cases hq; decide) trivial rfl
  have hinfo : (⟨1, [100], 0, false⟩ : Info Nat) ∈ s₁.core.infos ∧ s₁.refs.count 1 = 1 := by
    decide +kernel
  have hcount := (hall s₁ h₁).counted _ hinfo.1
  rw [hinfo.2] at hcount
  cases hcount

end NuttxAvr32.Fs
