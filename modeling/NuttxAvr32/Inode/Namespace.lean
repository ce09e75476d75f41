import NuttxAvr32.Inode.Spelling
import NuttxAvr32.Lib.Runs

/-! # The namespace

The state carries, beside the tree, the names that the calls so far make: every prefix of a
reserved path, without the paths that were removed or lie below a removed one. The tree
spells these names and no others.
-/

namespace NuttxAvr32.Fs

open Runs

variable {χ : Type} [PathChar χ]

section

variable {t child peer : Inode χ} {i : Info χ} {p w : Path χ}

theorem spells_edit_remove (hs : t.Sorted) (h : (t.walk p).1 = .node i child peer)
    (hw : p = w ++ (t.walk p).2) (q : Path χ) (j : Info χ) :
    Spells (t.edit (fun _ => peer) p) q j ↔ Spells t q j ∧ ¬ w <+: q := by
  refine walk_induct (motive := fun t p => ∀ w q, t.Sorted → p = w ++ (t.walk p).2 →
    (Spells (t.edit (fun _ => peer) p) q j ↔ Spells t q j ∧ ¬ w <+: q)) ?_ ?_ ?_ h w q hs hw
  · intro p hp w q hs hw
    rw [(turn_end (f := id) rfl hp).1] at hw
    rw [(turn_end rfl hp).2.1]
    have hw' : w = [i.name] :=
      (List.append_cancel_right (show [i.name] ++ p = w ++ p from hw)).symm
    subst hw'
    constructor
    · intro hq
      refine ⟨.next hq, fun hpre => ?_⟩
      obtain ⟨q', rfl⟩ := hpre
      exact lt_irrefl _ (spells_peer_lt hs hq)
    · rintro ⟨hq, hpre⟩
      rcases spells_node.mp hq with ⟨rfl, -⟩ | ⟨r, rfl, -⟩ | h1
      · exact absurd List.prefix_rfl hpre
      · exact absurd ⟨r, rfl⟩ hpre
      · exact h1
  · intro k c r p hp h ih w q hs hw
    rw [(turn_down (f := id) rfl hp).1] at hw
    rw [(turn_down rfl hp).2.1]
    obtain ⟨v, hv, hvs, -⟩ := walk_found h
    have hw' : w = k.name :: v := by
      have happ : w ++ (c.walk p).2 = k.name :: v ++ (c.walk p).2 := by
        rw [← hw]
        exact congrArg _ hv
      exact List.append_cancel_right happ
    subst hw'
    have hih := fun q => ih v q hs.2.1 hv
    have hne := hvs.ne_nil
    rw [spells_node, spells_node]
    constructor
    · rintro (⟨rfl, rfl⟩ | ⟨s, rfl, h1⟩ | h1)
      · refine ⟨.inl ⟨rfl, rfl⟩, fun hpre => hne ?_⟩
        exact List.prefix_nil.mp (List.cons_prefix_cons.mp hpre).2
      · obtain ⟨h2, h3⟩ := (hih s).mp h1
        exact ⟨.inr (.inl ⟨s, rfl, h2⟩), fun hpre => h3 (List.cons_prefix_cons.mp hpre).2⟩
      · refine ⟨.inr (.inr h1), fun hpre => ?_⟩
        obtain ⟨q', rfl⟩ := hpre
        exact lt_irrefl _ (spells_peer_lt hs h1)
    · rintro ⟨h1 | ⟨s, rfl, h1⟩ | h1, hpre⟩
      · exact .inl h1
      · refine .inr (.inl ⟨s, rfl, (hih s).mpr ⟨h1, fun h => hpre ?_⟩⟩)
        exact List.cons_prefix_cons.mpr ⟨rfl, h⟩
      · exact .inr (.inr h1)
  · intro k c r n p hgt h ih w q hs hw
    rw [(turn_gt (f := id) hgt).1] at hw
    rw [(turn_gt hgt).2.1]
    obtain ⟨v, hv, hvs, -⟩ := walk_found h
    have hwv : w = v := List.append_cancel_right (hw.symm.trans hv)
    obtain ⟨m, v, rfl⟩ := List.exists_cons_of_ne_nil hvs.ne_nil
    obtain ⟨rfl, -⟩ := List.cons_eq_cons.mp hv
    subst hwv
    have hih : Spells (r.edit (fun _ => peer) (n :: p)) q j ↔
        Spells r q j ∧ ¬ (n :: v) <+: q := ih _ q hs.2.2 hw
    have hhead : ∀ s, ¬ (n :: v) <+: k.name :: s := fun s hpre =>
      ne_of_gt hgt (List.cons_prefix_cons.mp hpre).1
    rw [spells_node, spells_node, hih]
    constructor
    · rintro (⟨rfl, rfl⟩ | ⟨s, rfl, h1⟩ | ⟨h1, h2⟩)
      · exact ⟨.inl ⟨rfl, rfl⟩, hhead []⟩
      · exact ⟨.inr (.inl ⟨s, rfl, h1⟩), hhead s⟩
      · exact ⟨.inr (.inr h1), h2⟩
    · rintro ⟨h1 | h1 | h1, h2⟩
      · exact .inl h1
      · exact .inr (.inl h1)
      · exact .inr (.inr ⟨h1, h2⟩)

theorem edit_remove_keeps (hs : t.Sorted) (h : (t.walk p).1 = .node i child peer) :
    (t.edit (fun _ => peer) p).Sorted ∧
      (∀ m ∈ (t.edit (fun _ => peer) p).level, m ∈ t.level) ∧
      (t.edit (fun _ => peer) p).addrs.Sublist t.addrs := by
  refine walk_induct (motive := fun t p => t.Sorted → (t.edit (fun _ => peer) p).Sorted ∧
    (∀ m ∈ (t.edit (fun _ => peer) p).level, m ∈ t.level) ∧
    (t.edit (fun _ => peer) p).addrs.Sublist t.addrs) ?_ ?_ ?_ h hs
  · intro p hp hs
    rw [(turn_end rfl hp).2.1]
    exact ⟨hs.2.2, fun m hm => List.mem_cons_of_mem _ hm, (List.sublist_append_right _ _).cons _⟩
  · intro k c r p hp _ ih hs
    rw [(turn_down rfl hp).2.1]
    obtain ⟨h1, -, h3⟩ := ih hs.2.1
    exact ⟨⟨hs.1, h1, hs.2.2⟩, fun m hm => hm, (h3.append_right _).cons_cons _⟩
  · intro k c r n p hgt _ ih hs
    rw [(turn_gt hgt).2.1]
    obtain ⟨h1, h2, h3⟩ := ih hs.2.2
    refine ⟨⟨fun m hm => hs.1 m (h2 m hm), hs.2.1, h1⟩, fun m hm => ?_,
      (h3.append_left _).cons_cons _⟩
    exact (List.mem_cons.mp hm).elim (fun h => List.mem_cons.mpr (.inl h))
      fun h => List.mem_cons_of_mem _ (h2 m h)

end

section

variable {t : Inode χ} {a : Nat} {f : Info χ → Info χ}

omit [PathChar χ] in
theorem setInfo_addrs (hf : ∀ i, (f i).addr = i.addr) : (t.setInfo a f).addrs = t.addrs := by
  induction t with
  | null => rfl
  | node i child peer ihc ihp =>
    have hi : (if i.addr = a then f i else i).addr = i.addr := by
      split
      · exact hf i
      · rfl
    simp only [Inode.setInfo, Inode.addrs, hi, ihc, ihp]

theorem setInfo_sorted (hf : ∀ i, (f i).name = i.name) (hs : t.Sorted) :
    (t.setInfo a f).Sorted ∧ (t.setInfo a f).level = t.level := by
  induction t with
  | null => exact ⟨hs, rfl⟩
  | node i child peer ihc ihp =>
    have hi : (if i.addr = a then f i else i).name = i.name := by
      split
      · exact hf i
      · rfl
    obtain ⟨h1, -⟩ := ihc hs.2.1
    obtain ⟨h2, h3⟩ := ihp hs.2.2
    refine ⟨⟨?_, h1, h2⟩, ?_⟩
    · rw [hi, h3]
      exact hs.1
    · show _ :: (peer.setInfo a f).level = _
      rw [hi, h3]
      rfl

omit [PathChar χ] in
theorem setInfo_spells (hf : ∀ i, (f i).name = i.name) (q : Path χ) (j : Info χ) :
    Spells (t.setInfo a f) q j ↔
      ∃ i, Spells t q i ∧ j = if i.addr = a then f i else i := by
  induction t generalizing q with
  | null => exact ⟨fun h => absurd h not_spells_null, fun ⟨i, h, _⟩ => absurd h not_spells_null⟩
  | node k child peer ihc ihp =>
    have hk : (if k.addr = a then f k else k).name = k.name := by
      split
      · exact hf k
      · rfl
    unfold Inode.setInfo
    rw [spells_node, hk]
    constructor
    · rintro (⟨rfl, rfl⟩ | ⟨r, rfl, h⟩ | h)
      · exact ⟨k, .here, rfl⟩
      · obtain ⟨i, hi, hj⟩ := (ihc r).mp h
        exact ⟨i, .down hi, hj⟩
      · obtain ⟨i, hi, hj⟩ := (ihp q).mp h
        exact ⟨i, .next hi, hj⟩
    · rintro ⟨i, hi, hj⟩
      rcases spells_node.mp hi with ⟨rfl, rfl⟩ | ⟨r, rfl, h⟩ | h
      · exact .inl ⟨rfl, hj⟩
      · exact .inr (.inl ⟨r, rfl, (ihc r).mpr ⟨i, h, hj⟩⟩)
      · exact .inr (.inr ((ihp q).mpr ⟨i, h, hj⟩))

end

/-- `names` and `mounts` are the names that the calls so far have made. -/
structure State (χ : Type) where
  root : Inode χ
  deleted : List (Inode χ)
  names : List (Path χ)
  mounts : List (Path χ)

/-- The prefixes of a path, itself included, but not the empty one. -/
def subpaths (p : Path χ) : List (Path χ) := (List.range p.length).map fun k => p.take (k + 1)

def inodeSetMountpt (i : Info χ) : Info χ := { i with mountpt := true }

def setCrefs (crefs : Nat) (i : Info χ) : Info χ := { i with crefs := crefs }

inductive Op (χ : Type)
  /-- The caller makes the new node a mountpoint or not. -/
  | reserve (mem : List Nat) (p : Path χ) (trailing mountpt : Bool)
  | remove (p : Path χ) (trailing : Bool)
  /-- References to a node are given out or come back. -/
  | setcrefs (addr crefs : Nat)

def Op.exec : Op χ → State χ → Option (State χ)
  | .reserve mem p trailing mountpt, s =>
    let r := inodeReserve mem (absolute trailing p) s.root
    match r.2 with
    | none => some { s with root := r.1 }
    | some a =>
      some
        { s with
          root := if mountpt then r.1.setInfo a inodeSetMountpt else r.1
          names := s.names ++ subpaths p
          mounts := if mountpt then s.mounts ++ [p] else s.mounts }
  | .remove p trailing, s =>
    let r := inodeRemove (absolute trailing p) s.root
    if r.2.1 = .ok ∨ r.2.1 = .ebusy then
      some
        { root := r.1
          deleted := if r.2.1 = .ebusy then r.2.2 :: s.deleted else s.deleted
          names := s.names.filter fun q => ¬ p <+: q
          mounts := s.mounts.filter fun q => ¬ p <+: q }
    else some { s with root := r.1 }
  | .setcrefs addr crefs, s =>
    some { s with root := s.root.setInfo addr (setCrefs crefs) }

/-- Paths have non-empty names, and `zalloc` returns memory that holds no inode. -/
def Op.valid (s : State χ) : Op χ → Prop
  | .reserve mem p _ _ =>
    PathOk p ∧ mem.Nodup ∧ ∀ a ∈ mem, a ∉ s.root.addrs ∧ ∀ t ∈ s.deleted, a ∉ t.addrs
  | .remove p _ => PathOk p
  | .setcrefs _ _ => True

def inodeMachine : Machine (State χ) (Op χ) where
  valid s i := i.valid s
  exec s i := i.exec s

def Initial (s : State χ) : Prop := s = ⟨.null, [], [], []⟩

/-- Whether a path resolves, to a node or to a mountpoint above it. -/
def Resolves (s : State χ) (p : Path χ) : Prop := p ∈ s.names ∨ ∃ q ∈ s.mounts, q <+: p

/-- Memory for the inodes of a path: one for each prefix that has none. -/
def Enough (s : State χ) (mem : List Nat) (p : Path χ) : Prop :=
  ∀ k < p.length, p.take (k + 1) ∉ s.names → p.length ≤ mem.length + k

/-- `inode_reserve` gets all inodes that it needs or none, and `inode_remove` is not called
with a path below a mountpoint. -/
def Op.keeps (s : State χ) : Op χ → Prop
  | .reserve mem p _ _ => Resolves s p ∨ mem = [] ∨ Enough s mem p
  | .remove p _ => ∀ q ∈ s.mounts, q <+: p → q = p
  | .setcrefs _ _ => True

instance decidableValid (s : State χ) (i : Op χ) : Decidable (i.valid s) := by
  cases i <;> unfold Op.valid <;> infer_instance

instance decidableEnough (s : State χ) (mem : List Nat) (p : Path χ) :
    Decidable (Enough s mem p) := by
  unfold Enough
  infer_instance

instance decidableResolves (s : State χ) (p : Path χ) : Decidable (Resolves s p) := by
  unfold Resolves
  infer_instance

instance decidableKeeps (s : State χ) (i : Op χ) : Decidable (i.keeps s) := by
  cases i <;> unfold Op.keeps <;> infer_instance

instance decidableMachineValid (s : State χ) (i : Op χ) : Decidable (inodeMachine.valid s i) :=
  inferInstanceAs (Decidable (i.valid s))

/-- A search ends at the mountpoint that is the longest prefix, at the node of the path, or
at no node. -/
structure SearchCorrect (s : State χ) (p : Path χ) (trailing : Bool) : Prop where
  mountpt : ∀ q ∈ s.mounts, q <+: p →
    (∃ i child peer, (inodeSearch s.root (absolute trailing p)).node = .node i child peer ∧
      Spells s.root q i) ∧
    (inodeSearch s.root (absolute trailing p)).rest = join trailing (p.drop q.length) ∧
    ∀ q' ∈ s.names, q' <+: p → q' <+: q
  node : (∀ q ∈ s.mounts, ¬ q <+: p) → p ∈ s.names →
    (∃ i child peer, (inodeSearch s.root (absolute trailing p)).node = .node i child peer ∧
      Spells s.root p i) ∧
    (inodeSearch s.root (absolute trailing p)).rest = []
  missing : ¬ Resolves s p → (inodeSearch s.root (absolute trailing p)).node = .null

/-- `inode_reserve` fails if the path resolves or memory runs out, and then leaves the tree
as it was; otherwise it returns the node of the path and moves no other. -/
structure ReserveCorrect (s : State χ) (mem : List Nat) (p : Path χ) (trailing : Bool) :
    Prop where
  fails : (inodeReserve mem (absolute trailing p) s.root).2 = none ↔
    Resolves s p ∨ ¬ Enough s mem p
  failed : (inodeReserve mem (absolute trailing p) s.root).2 = none →
    (inodeReserve mem (absolute trailing p) s.root).1 = s.root
  node : ∀ a, (inodeReserve mem (absolute trailing p) s.root).2 = some a →
    (∃ i, i.addr = a ∧ Spells (inodeReserve mem (absolute trailing p) s.root).1 p i) ∧
    ∀ q i, Spells s.root q i → Spells (inodeReserve mem (absolute trailing p) s.root).1 q i

/-- The tree is sorted, and searches and reservations of it, where `ok` holds, are right. -/
structure Namespace (ok : State χ → Op χ → Prop) (s : State χ) : Prop where
  sorted : s.root.Sorted
  search : ∀ p trailing, PathOk p → SearchCorrect s p trailing
  reserve : ∀ mem p trailing mountpt, (Op.reserve mem p trailing mountpt).valid s →
    ok s (.reserve mem p trailing mountpt) → ReserveCorrect s mem p trailing
  remove : ∀ p trailing, PathOk p →
    (inodeRemove (absolute trailing p) s.root).2.1 = .enoent →
    (inodeRemove (absolute trailing p) s.root).1 = s.root

structure Tied (s : State χ) : Prop where
  sorted : s.root.Sorted
  nodup : s.root.addrs.Nodup
  leaf : MountLeaf s.root
  names : ∀ q, q ∈ s.names ↔ ∃ i, Spells s.root q i
  mounts : ∀ q, q ∈ s.mounts ↔ ∃ i, Spells s.root q i ∧ i.mountpt = true

section

variable {s s' : State χ} {p q : Path χ} {i : Info χ} {child peer : Inode χ} {mem : List Nat}

structure Ended (s : State χ) (p : Path χ) (i : Info χ) (q : Path χ) : Prop where
  split : p = q ++ (s.root.walk p).2
  spells : Spells s.root q i
  stop : (s.root.walk p).2 = [] ∨ i.mountpt = true

theorem Ended.mount_eq (T : Tied s) (E : Ended s p i q) {m : Path χ} (hm : m ∈ s.mounts)
    (hp : m <+: p) : m = q := by
  obtain ⟨j, hj, hmt⟩ := (T.mounts m).mp hm
  have hq : q <+: p := ⟨_, E.split.symm⟩
  rcases List.prefix_or_prefix_of_prefix hp hq with h | h
  · obtain ⟨r, rfl⟩ := h
    rw [T.leaf m j r i hj hmt E.spells, List.append_nil]
  · rcases E.stop with he | he
    · have hpq : p = q := by
        rw [E.split, he, List.append_nil]
      exact List.IsPrefix.eq_of_length hp
        (Nat.le_antisymm hp.length_le (hpq ▸ h.length_le))  |>.trans hpq
    · obtain ⟨r, rfl⟩ := h
      rw [T.leaf q i r j E.spells he hj, List.append_nil]

theorem Tied.missed (T : Tied s) (hp : PathOk p) (h : (s.root.walk p).1 = .null) :
    Missed s.root p ∧ ¬ Resolves s p := by
  have M := walk_missed T.sorted hp.1 h
  refine ⟨M, ?_⟩
  rintro (hq | ⟨q, hq, hpre⟩)
  · have hlen := congrArg List.length M.split
    rw [List.length_append] at hlen
    have hrest := List.length_pos_of_ne_nil M.rest
    have hk := (M.prefixes (p.length - 1) (by omega)).mp ?_
    · omega
    · rw [Nat.sub_add_cancel (by omega), List.take_length]
      exact (T.names p).mp hq
  · obtain ⟨i, hi, hm⟩ := (T.mounts q).mp hq
    have hm' := M.mounts q i hpre hi
    rw [hm] at hm'
    cases hm'

theorem Tied.ended (h : (s.root.walk p).1 = .node i child peer) : ∃ q, Ended s p i q := by
  obtain ⟨q, h1, h2, h3⟩ := walk_found h
  exact ⟨q, h1, h2, h3⟩

theorem Ended.resolves (T : Tied s) (E : Ended s p i q) : Resolves s p := by
  rcases E.stop with h | h
  · refine .inl ((T.names p).mpr ⟨i, ?_⟩)
    have hpq := E.split
    rw [h, List.append_nil] at hpq
    rw [hpq]
    exact E.spells
  · exact .inr ⟨q, (T.mounts q).mpr ⟨i, E.spells, h⟩, _, E.split.symm⟩

theorem Tied.walk_null (T : Tied s) (hp : PathOk p) :
    (s.root.walk p).1 = .null ↔ ¬ Resolves s p := by
  constructor
  · exact fun h => (T.missed hp h).2
  · intro h
    cases hw : (s.root.walk p).1 with
    | null => rfl
    | node i child peer =>
      obtain ⟨q, E⟩ := Tied.ended hw
      exact absurd (E.resolves T) h

theorem Tied.search (T : Tied s) (trailing : Bool) (hp : PathOk p) :
    SearchCorrect s p trailing := by
  obtain ⟨h1, h2, -⟩ := search_walk T.nodup trailing hp
  refine ⟨fun q hq hpre => ?_, fun hno hmem => ?_, fun h => ?_⟩
  · cases hw : (s.root.walk p).1 with
    | null => exact absurd (.inr ⟨q, hq, hpre⟩) (T.missed hp hw).2
    | node i child peer =>
      obtain ⟨m, E⟩ := Tied.ended hw
      have hqm := E.mount_eq T hq hpre
      subst hqm
      refine ⟨⟨i, child, peer, h1.trans hw, E.spells⟩, ?_, fun r hr hrp => ?_⟩
      · rw [h2]
        congr 1
        conv_rhs => rw [E.split]
        rw [List.drop_left]
      · rcases List.prefix_or_prefix_of_prefix hrp hpre with h | h
        · exact h
        · obtain ⟨r', rfl⟩ := h
          obtain ⟨j, hj⟩ := (T.names _).mp hr
          obtain ⟨k, hk, hm⟩ := (T.mounts _).mp hq
          have hnil : q ++ r' = q := by rw [T.leaf _ k r' j hk hm hj, List.append_nil]
          exact ⟨[], by rw [hnil, List.append_nil]⟩
  · cases hw : (s.root.walk p).1 with
    | null => exact absurd (.inl hmem) (T.missed hp hw).2
    | node i child peer =>
      obtain ⟨m, E⟩ := Tied.ended hw
      rcases E.stop with he | he
      · have hpm := E.split
        rw [he, List.append_nil] at hpm
        refine ⟨⟨i, child, peer, h1.trans hw, hpm ▸ E.spells⟩, ?_⟩
        rw [h2, he]
        rfl
      · exact absurd ⟨_, E.split.symm⟩ (hno m ((T.mounts m).mpr ⟨i, E.spells, he⟩))
  · exact h1.trans ((T.walk_null hp).mpr h)

omit [PathChar χ] in
theorem mem_subpaths : q ∈ subpaths p ↔ q ≠ [] ∧ q <+: p := by
  unfold subpaths
  simp only [List.mem_map, List.mem_range]
  constructor
  · rintro ⟨k, hk, rfl⟩
    refine ⟨fun h => ?_, List.take_prefix _ _⟩
    have hlen := congrArg List.length h
    rw [List.length_take, List.length_nil] at hlen
    omega
  · rintro ⟨hne, hpre⟩
    have hpos := List.length_pos_of_ne_nil hne
    have hle := hpre.length_le
    refine ⟨q.length - 1, by omega, ?_⟩
    rw [Nat.sub_add_cancel hpos]
    exact (List.prefix_iff_eq_take.mp hpre).symm

theorem Missed.rest_ok {t : Inode χ} (M : Missed t p) (hp : PathOk p) : PathOk (t.walk p).2 := by
  refine ⟨M.rest, fun n hn => hp.2 n ?_⟩
  rw [M.split]
  exact List.mem_append_right _ hn

theorem Missed.length (M : Missed s.root p) :
    p.length = (s.root.stem p).length + (s.root.walk p).2.length := by
  rw [← List.length_append, ← M.split]

theorem Missed.enough (T : Tied s) (M : Missed s.root p) :
    Enough s mem p ↔ (s.root.walk p).2.length ≤ mem.length := by
  have hlen := M.length
  have hrest := List.length_pos_of_ne_nil M.rest
  constructor
  · intro h
    have hk := h (s.root.stem p).length (by omega) fun hn =>
      lt_irrefl _ ((M.prefixes _ (by omega)).mp ((T.names _).mp hn))
    omega
  · intro h k hk hn
    have hge : ¬ k < (s.root.stem p).length := fun hlt =>
      hn ((T.names _).mpr ((M.prefixes k hk).mpr hlt))
    omega

theorem spells_reserved (mem : List Nat) (hp : PathOk p) (h : (s.root.walk p).1 = .null)
    (q : Path χ) (j : Info χ) :
    Spells (s.root.edit (branch mem (s.root.walk p).2) p) q j ↔
      Spells s.root q j ∨
        ∃ r, q = s.root.stem p ++ r ∧ Spells (branch mem (s.root.walk p).2 .null) r j :=
  spells_edit_add (fun r q j => branch_spells r q j) hp.1 h q j

theorem Missed.new_prefix (M : Missed s.root p) {r : Path χ} {j : Info χ}
    (h : Spells (branch mem (s.root.walk p).2 .null) r j) :
    s.root.stem p ++ r <+: p ∧ j.mountpt = false := by
  obtain ⟨h1, h2⟩ := branch_prefix h
  refine ⟨?_, h2⟩
  conv_rhs => rw [M.split]
  exact (List.prefix_append_right_inj _).mpr h1

/-- The state after a reservation, before its caller makes the node a mountpoint. -/
def afterReserve (s : State χ) (mem : List Nat) (p : Path χ) : State χ :=
  { s with
    root := s.root.edit (branch mem (s.root.walk p).2) p
    names := s.names ++ subpaths p }

theorem Missed.reserved (T : Tied s) (M : Missed s.root p) (hp : PathOk p)
    (h : (s.root.walk p).1 = .null) (hm : mem.Nodup) (hfresh : ∀ a ∈ mem, a ∉ s.root.addrs)
    (hlen : (s.root.walk p).2.length ≤ mem.length) : Tied (afterReserve s mem p) := by
  have hnew := spells_reserved mem hp h
  have hpos := List.length_pos_of_ne_nil M.rest
  refine ⟨?_, ?_, fun q i q' j hq hmt hq' => ?_, fun q => ?_, fun q => ?_⟩
  · obtain ⟨n, p, rfl⟩ := List.exists_cons_of_ne_nil hp.1
    cases mem with
    | nil => exact absurd hlen (Nat.not_le_of_lt hpos)
    | cons a mem => exact (sorted_edit_add T.sorted h).1
  · have hperm := addrs_edit_add (t := s.root) (f := branch mem (s.root.walk p).2)
      (fun r => .of_eq (branch_infos_append mem _ r)) hp.1 h
    rw [infos_addr, branch_addrs, Inode.addrs, List.append_nil] at hperm
    refine hperm.nodup_iff.mpr (List.nodup_append.mpr ⟨hm.sublist (List.take_sublist _ _),
      T.nodup, fun a ha b hb hab => ?_⟩)
    exact hfresh a (List.mem_of_mem_take ha) (hab ▸ hb)
  · rcases (hnew q i).mp hq with hq | ⟨r, rfl, hr⟩
    · rcases (hnew _ j).mp hq' with hq' | ⟨r, hr, hr'⟩
      · exact T.leaf q i q' j hq hmt hq'
      · have hpre : q <+: p := (List.prefix_append q q').trans (hr ▸ (M.new_prefix hr').1)
        have hno := M.mounts q i hpre hq
        rw [hmt] at hno
        cases hno
    · rw [(M.new_prefix hr).2] at hmt
      cases hmt
  · show q ∈ s.names ++ subpaths p ↔ _
    rw [List.mem_append, mem_subpaths, T.names q]
    constructor
    · rintro (⟨i, hi⟩ | ⟨hne, hpre⟩)
      · exact ⟨i, (hnew q i).mpr (.inl hi)⟩
      · rcases Nat.lt_or_ge (s.root.stem p).length q.length with hlt | hge
        · have hsplit : q <+: s.root.stem p ++ (s.root.walk p).2 := M.split ▸ hpre
          have hstem : s.root.stem p <+: q :=
            List.prefix_of_prefix_length_le (List.prefix_append _ _) hsplit (Nat.le_of_lt hlt)
          obtain ⟨r, rfl⟩ := hstem
          have hr := (List.prefix_append_right_inj _).mp hsplit
          have hrne : r ≠ [] := by
            rintro rfl
            rw [List.append_nil] at hlt
            exact lt_irrefl _ hlt
          obtain ⟨j, hj⟩ := branch_full hlen hr hrne
          exact ⟨j, (hnew _ j).mpr (.inr ⟨r, rfl, hj⟩)⟩
        · have hqpos := List.length_pos_of_ne_nil hne
          have hqle := hpre.length_le
          obtain ⟨i, hi⟩ := (M.prefixes (q.length - 1) (by omega)).mpr (by omega)
          rw [Nat.sub_add_cancel hqpos, ← List.prefix_iff_eq_take.mp hpre] at hi
          exact ⟨i, (hnew q i).mpr (.inl hi)⟩
    · rintro ⟨i, hi⟩
      rcases (hnew q i).mp hi with hi | ⟨r, rfl, hr⟩
      · exact .inl ⟨i, hi⟩
      · exact .inr ⟨fun h => hr.ne_nil (List.append_eq_nil_iff.mp h).2, (M.new_prefix hr).1⟩
  · show q ∈ s.mounts ↔ _
    rw [T.mounts q]
    constructor
    · rintro ⟨i, hi, hmt⟩
      exact ⟨i, (hnew q i).mpr (.inl hi), hmt⟩
    · rintro ⟨i, hi, hmt⟩
      rcases (hnew q i).mp hi with hi | ⟨r, rfl, hr⟩
      · exact ⟨i, hi, hmt⟩
      · rw [(M.new_prefix hr).2] at hmt
        cases hmt

theorem Missed.new_node (M : Missed s.root p) (hp : PathOk p)
    (h : (s.root.walk p).1 = .null) {a : Nat} (ha : lastNode mem (s.root.walk p).2 = some a) :
    (∃ i, i.addr = a ∧ Spells (afterReserve s mem p).root p i) ∧
      ∀ r j, Spells (afterReserve s mem p).root (p ++ r) j → r = [] := by
  have hnew := spells_reserved mem hp h
  constructor
  · obtain ⟨j, hj, hs⟩ := lastNode_spells ha
    exact ⟨j, hj, (hnew p j).mpr (.inr ⟨_, M.split, hs⟩)⟩
  · intro r j hr
    rcases (hnew _ j).mp hr with hold | ⟨r', hr', hs⟩
    · exfalso
      obtain ⟨i, hi⟩ := hold.append hp.1
      have hlen := M.length
      have hrest := List.length_pos_of_ne_nil M.rest
      have hk := (M.prefixes (p.length - 1) (by omega)).mp ?_
      · omega
      · rw [Nat.sub_add_cancel (by omega), List.take_length]
        exact ⟨i, hi⟩
    · have hpre : p ++ r <+: p := hr' ▸ (M.new_prefix hs).1
      have hlen := hpre.length_le
      rw [List.length_append] at hlen
      exact List.length_eq_zero_iff.mp (by omega)

theorem Tied.reserve (T : Tied s) {trailing mountpt : Bool}
    (hv : (Op.reserve mem p trailing mountpt).valid s)
    (hk : (Op.reserve mem p trailing mountpt).keeps s) : ReserveCorrect s mem p trailing := by
  obtain ⟨hp, hm, hfresh⟩ := hv
  by_cases hw : (s.root.walk p).1 = .null
  · obtain ⟨M, hno⟩ := T.missed hp hw
    have hr := reserve_edit T.nodup trailing hp (M.rest_ok hp) hm
      (fun a ha => (hfresh a ha).1) hw
    refine ⟨?_, fun hfail => ?_, fun a ha => ?_⟩
    · rw [hr, M.enough T, Nat.not_le]
      rw [or_iff_right hno]
      exact lastNode_none M.rest
    · rw [hr] at hfail ⊢
      have hlt := (lastNode_none M.rest).mp hfail
      rcases hk with h | rfl | h
      · exact absurd h hno
      · exact edit_id fun r => branch_nil _ r
      · exact absurd ((M.enough T).mp h) (Nat.not_le_of_lt hlt)
    · rw [hr] at ha ⊢
      exact ⟨(M.new_node hp hw ha).1, fun q i hq => (spells_reserved mem hp hw q i).mpr (.inl hq)⟩
  · have hr := reserve_found mem T.nodup trailing hp hw
    have hyes : Resolves s p := not_not.mp fun h => hw ((T.walk_null hp).mpr h)
    refine ⟨?_, fun _ => ?_, fun a ha => ?_⟩
    · rw [hr]
      exact ⟨fun _ => .inl hyes, fun _ => rfl⟩
    · rw [hr]
    · rw [hr] at ha
      cases ha

omit [PathChar χ] in
theorem setInfo_names {t : Inode χ} {a : Nat} {f : Info χ → Info χ}
    (hf : ∀ i, (f i).name = i.name) (q : Path χ) :
    (∃ j, Spells (t.setInfo a f) q j) ↔ ∃ i, Spells t q i := by
  constructor
  · rintro ⟨j, hj⟩
    obtain ⟨i, hi, -⟩ := (setInfo_spells hf q j).mp hj
    exact ⟨i, hi⟩
  · rintro ⟨i, hi⟩
    exact ⟨_, (setInfo_spells hf q _).mpr ⟨i, hi, rfl⟩⟩

theorem Tied.setMountpt (T : Tied s) (hi : Spells s.root p i)
    (hleaf : ∀ r j, Spells s.root (p ++ r) j → r = []) :
    Tied
      { s with
        root := s.root.setInfo i.addr inodeSetMountpt
        mounts := s.mounts ++ [p] } := by
  have hspells := setInfo_spells (t := s.root) (a := i.addr)
    (f := inodeSetMountpt) fun _ => rfl
  have hnames := setInfo_names (t := s.root) (a := i.addr)
    (f := inodeSetMountpt) fun _ => rfl
  refine ⟨(setInfo_sorted (f := inodeSetMountpt) (fun _ => rfl) T.sorted).1, ?_,
    fun q j q' k hj hmt hk => ?_, fun q => (T.names q).trans (hnames q).symm, fun q => ?_⟩
  · show (s.root.setInfo _ _).addrs.Nodup
    rw [setInfo_addrs (f := inodeSetMountpt) fun _ => rfl]
    exact T.nodup
  · obtain ⟨j₀, hj₀, rfl⟩ := (hspells q j).mp hj
    obtain ⟨k₀, hk₀, -⟩ := (hspells _ k).mp hk
    by_cases ha : j₀.addr = i.addr
    · obtain rfl := hj₀.addr_unique T.nodup hi ha
      exact hleaf q' k₀ hk₀
    · rw [if_neg ha] at hmt
      exact T.leaf q j₀ q' k₀ hj₀ hmt hk₀
  · show q ∈ s.mounts ++ [p] ↔ _
    rw [List.mem_append, T.mounts q, List.mem_singleton]
    constructor
    · rintro (⟨j, hj, hmt⟩ | rfl)
      · refine ⟨_, (hspells q _).mpr ⟨j, hj, rfl⟩, ?_⟩
        split
        · rfl
        · exact hmt
      · exact ⟨_, (hspells q _).mpr ⟨i, hi, rfl⟩, by rw [if_pos rfl]; rfl⟩
    · rintro ⟨j, hj, hmt⟩
      obtain ⟨j₀, hj₀, rfl⟩ := (hspells q j).mp hj
      by_cases ha : j₀.addr = i.addr
      · exact .inr (hj₀.addr_unique T.nodup hi ha)
      · rw [if_neg ha] at hmt
        exact .inl ⟨j₀, hj₀, hmt⟩

theorem Tied.setcrefs (T : Tied s) (a crefs : Nat) :
    Tied { s with root := s.root.setInfo a (setCrefs crefs) } := by
  have hspells := setInfo_spells (t := s.root) (a := a)
    (f := (setCrefs crefs)) fun _ => rfl
  have hnames := setInfo_names (t := s.root) (a := a)
    (f := (setCrefs crefs)) fun _ => rfl
  have hmount : ∀ i : Info χ,
      (if i.addr = a then setCrefs crefs i else i).mountpt = i.mountpt := by
    intro i
    split <;> rfl
  refine ⟨(setInfo_sorted (f := setCrefs crefs) (fun _ => rfl) T.sorted).1, ?_,
    fun q j q' k hj hmt hk => ?_, fun q => (T.names q).trans (hnames q).symm,
    fun q => (T.mounts q).trans ?_⟩
  · show (s.root.setInfo _ _).addrs.Nodup
    rw [setInfo_addrs (f := setCrefs crefs) fun _ => rfl]
    exact T.nodup
  · obtain ⟨j₀, hj₀, rfl⟩ := (hspells q j).mp hj
    obtain ⟨k₀, hk₀, -⟩ := (hspells _ k).mp hk
    rw [hmount] at hmt
    exact T.leaf q j₀ q' k₀ hj₀ hmt hk₀
  · constructor
    · rintro ⟨i, hi, hmt⟩
      exact ⟨_, (hspells q _).mpr ⟨i, hi, rfl⟩, by rw [hmount]; exact hmt⟩
    · rintro ⟨j, hj, hmt⟩
      obtain ⟨i, hi, rfl⟩ := (hspells q j).mp hj
      rw [hmount] at hmt
      exact ⟨i, hi, hmt⟩

def afterRemove (s : State χ) (p : Path χ) (peer : Inode χ) (deleted : List (Inode χ)) :
    State χ where
  root := s.root.edit (fun _ => peer) p
  deleted := deleted
  names := s.names.filter fun q => ¬ p <+: q
  mounts := s.mounts.filter fun q => ¬ p <+: q

theorem Tied.afterRemove (T : Tied s) (hw : (s.root.walk p).1 = .node i child peer)
    (hrest : (s.root.walk p).2 = []) (deleted : List (Inode χ)) :
    Tied (afterRemove s p peer deleted) := by
  have hspells := spells_edit_remove (w := p) T.sorted hw (by rw [hrest, List.append_nil])
  obtain ⟨hs, -, hsub⟩ := edit_remove_keeps T.sorted hw
  refine ⟨hs, T.nodup.sublist hsub, fun q j q' k hj hmt hk => ?_, fun q => ?_, fun q => ?_⟩
  · exact T.leaf q j q' k ((hspells q j).mp hj).1 hmt ((hspells _ k).mp hk).1
  · show q ∈ s.names.filter _ ↔ _
    rw [List.mem_filter, T.names q, decide_eq_true_iff]
    constructor
    · rintro ⟨⟨j, hj⟩, hpre⟩
      exact ⟨j, (hspells q j).mpr ⟨hj, hpre⟩⟩
    · rintro ⟨j, hj⟩
      obtain ⟨hj, hpre⟩ := (hspells q j).mp hj
      exact ⟨⟨j, hj⟩, hpre⟩
  · show q ∈ s.mounts.filter _ ↔ _
    rw [List.mem_filter, T.mounts q, decide_eq_true_iff]
    constructor
    · rintro ⟨⟨j, hj, hmt⟩, hpre⟩
      exact ⟨j, (hspells q j).mpr ⟨hj, hpre⟩, hmt⟩
    · rintro ⟨j, hj, hmt⟩
      obtain ⟨hj, hpre⟩ := (hspells q j).mp hj
      exact ⟨⟨j, hj, hmt⟩, hpre⟩

theorem Tied.step {o : Op χ} (T : Tied s) (hv : o.valid s) (hk : o.keeps s)
    (he : o.exec s = some s') : Tied s' := by
  cases o with
  | reserve mem p trailing mountpt =>
    have R := T.reserve hv hk
    obtain ⟨hp, hm, hfresh⟩ := hv
    simp only [Op.exec] at he
    by_cases hw : (s.root.walk p).1 = .null
    · obtain ⟨M, -⟩ := T.missed hp hw
      have hr := reserve_edit T.nodup trailing hp (M.rest_ok hp) hm
        (fun a ha => (hfresh a ha).1) hw
      cases ha : lastNode mem (s.root.walk p).2 with
      | none =>
        have hroot := R.failed (by rw [hr]; exact ha)
        have hnone : (inodeReserve mem (absolute trailing p) s.root).2 = none := by
          rw [hr]
          exact ha
        rw [hnone, hroot] at he
        cases he
        exact T
      | some a =>
        have hlen : (s.root.walk p).2.length ≤ mem.length := by
          refine Nat.not_lt.mp fun h => ?_
          rw [(lastNode_none M.rest).mpr h] at ha
          cases ha
        have T₁ := M.reserved T hp hw hm (fun a ha => (hfresh a ha).1) hlen
        obtain ⟨⟨i, rfl, hi⟩, hleaf⟩ := M.new_node hp hw ha
        rw [hr, ha] at he
        cases mountpt with
        | false =>
          cases he
          exact T₁
        | true =>
          cases he
          exact T₁.setMountpt hi hleaf
    · rw [reserve_found mem T.nodup trailing hp hw] at he
      cases he
      exact T
  | remove p trailing =>
    simp only [Op.exec] at he
    cases hw : (s.root.walk p).1 with
    | null =>
      rw [remove_null T.nodup trailing hv hw] at he
      rw [if_neg (by simp)] at he
      cases he
      exact T
    | node i child peer =>
      obtain ⟨q, E⟩ := Tied.ended hw
      have hrest : (s.root.walk p).2 = [] := by
        rcases E.stop with h | h
        · exact h
        · have hqp := hk q ((T.mounts q).mpr ⟨i, E.spells, h⟩) ⟨_, E.split.symm⟩
          have hsplit := E.split
          rw [← hqp] at hsplit
          exact List.self_eq_append_right.mp (hqp ▸ hsplit)
      rw [remove_edit T.nodup trailing hv hw] at he
      by_cases hc : i.crefs ≠ 0
      · rw [if_pos hc, if_pos (.inr rfl)] at he
        cases he
        exact T.afterRemove hw hrest _
      · rw [if_neg hc, if_pos (.inl rfl)] at he
        cases he
        exact T.afterRemove hw hrest _
  | setcrefs a crefs =>
    cases he
    exact T.setcrefs a crefs

end

/-- The tree is a namespace in every state of a run in which `inode_reserve` does not run out
of memory between two inodes of a path and no path below a mountpoint is removed. -/
theorem namespace_kept {s : State χ}
    (h : Reach inodeMachine Initial (fun s i => i.keeps s) s) :
    Namespace (fun s i => i.keeps s) s := by
  have T : Tied s := by
    apply Reach.invariant (I := Tied) _ _ h
    · rintro s rfl
      refine ⟨trivial, List.nodup_nil, fun q i q' j hq => absurd hq not_spells_null,
        fun q => ⟨fun h => (by cases h), fun ⟨i, hi⟩ => absurd hi not_spells_null⟩,
        fun q => ⟨fun h => (by cases h), fun ⟨i, hi, _⟩ => absurd hi not_spells_null⟩⟩
    · exact fun s i s' T hv hk he => T.step hv hk he
  refine ⟨T.sorted, fun p trailing hp => T.search trailing hp,
    fun mem p trailing mountpt hv hk => T.reserve hv hk, fun p trailing hp he => ?_⟩
  cases hw : (s.root.walk p).1 with
  | null => rw [remove_null T.nodup trailing hp hw]
  | node i child peer =>
    rw [remove_edit T.nodup trailing hp hw] at he
    split at he <;> cases he

instance natPath : PathChar Nat where
  slash := 47

/-- A driver in a directory, a mountpoint beside the directory, and the driver removed. -/
theorem namespace_run : ∃ s : State Nat, s.names = [[[100]], [[109]]] ∧
    Namespace (fun s i => i.keeps s) s := by
  let ops : List (Op Nat) :=
    [.reserve [1, 2] [[100], [98]] false false, .reserve [3] [[109]] true true,
      .remove [[100], [98]] false]
  have hrun : (runAll inodeMachine (fun s i => i.keeps s) ⟨.null, [], [], []⟩ ops).any
      (fun s => s.names = [[[100]], [[109]]]) = true := by
    decide +kernel
  obtain ⟨s, hs, hn⟩ := (Option.any_eq_true _ _).mp hrun
  exact ⟨s, of_decide_eq_true hn, namespace_kept (Reach.runAll (.init rfl) hs)⟩

/-- Memory runs out after the first inode of a path, which stays in the tree. -/
theorem reserve_leaves_inode :
    ¬ ∀ s : State Nat, Reachable inodeMachine Initial s → Namespace (fun _ _ => True) s := by
  intro h
  have hN := h ⟨.null, [], [], []⟩ (.init rfl)
  have hR := hN.reserve [1] [[100], [98]] false false (by decide +kernel) trivial
  have hkept := hR.failed (by decide +kernel)
  revert hkept
  decide +kernel

end NuttxAvr32.Fs
