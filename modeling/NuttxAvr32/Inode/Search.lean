import NuttxAvr32.Inode.Tree

/-! # Where a search ends

`inode_search` names the place where it ends by the companions of the node. `Inode.walk`
and `Inode.edit` follow the same way over the names of a path: the one gives the end of it,
the other changes the link there.
-/

namespace NuttxAvr32.Fs

variable {χ : Type} [PathChar χ]

def Inode.addrs : Inode χ → List Nat
  | .null => []
  | .node i child peer => i.addr :: (child.addrs ++ peer.addrs)

def Inode.infos : Inode χ → List (Info χ)
  | .null => []
  | .node i child peer => i :: (child.infos ++ peer.infos)

omit [PathChar χ] in
theorem infos_addr (t : Inode χ) : t.infos.map Info.addr = t.addrs := by
  induction t with
  | null => rfl
  | node i child peer ihc ihp =>
    simp only [Inode.infos, Inode.addrs, List.map_cons, List.map_append, ihc, ihp]

def Inode.level : Inode χ → List (List χ)
  | .null => []
  | .node i _ peer => i.name :: peer.level

def Inode.Sorted : Inode χ → Prop
  | .null => True
  | .node i child peer => (∀ n ∈ peer.level, i.name < n) ∧ child.Sorted ∧ peer.Sorted

def Inode.Leaves : Inode χ → Prop
  | .null => True
  | .node i child peer => (i.mountpt = true → child = .null) ∧ child.Leaves ∧ peer.Leaves

/-- The node and the unmatched names where a search ends. -/
def Inode.walk : Inode χ → Path χ → Inode χ × Path χ
  | .null, p => (.null, p)
  | .node _ _ _, [] => (.null, [])
  | .node i child peer, n :: p =>
    if n < i.name then (.null, n :: p)
    else if i.name < n then peer.walk (n :: p)
    else if p = [] ∨ i.mountpt then (.node i child peer, p)
    else child.walk p

def Inode.edit (f : Inode χ → Inode χ) : Inode χ → Path χ → Inode χ
  | .null, _ => f .null
  | .node i child peer, [] => .node i child peer
  | .node i child peer, n :: p =>
    if n < i.name then f (.node i child peer)
    else if i.name < n then .node i child (peer.edit f (n :: p))
    else if p = [] ∨ i.mountpt then f (.node i child peer)
    else .node i (child.edit f p) peer

def Inode.stem : Inode χ → Path χ → Path χ
  | .null, _ => []
  | .node _ _ _, [] => []
  | .node i child peer, n :: p =>
    if n < i.name then []
    else if i.name < n then peer.stem (n :: p)
    else if p = [] ∨ i.mountpt then []
    else n :: child.stem p

section

variable {i : Info χ} {c r : Inode χ} {n : List χ} {p : Path χ} {f : Inode χ → Inode χ}

theorem turn_lt (h : n < i.name) :
    (Inode.node i c r).walk (n :: p) = (.null, n :: p) ∧
      (Inode.node i c r).edit f (n :: p) = f (.node i c r) ∧
      (Inode.node i c r).stem (n :: p) = [] :=
  ⟨if_pos h, if_pos h, if_pos h⟩

theorem turn_gt (h : i.name < n) :
    (Inode.node i c r).walk (n :: p) = r.walk (n :: p) ∧
      (Inode.node i c r).edit f (n :: p) = .node i c (r.edit f (n :: p)) ∧
      (Inode.node i c r).stem (n :: p) = r.stem (n :: p) := by
  simp only [Inode.walk, Inode.edit, Inode.stem, if_neg (lt_asymm h), if_pos h, and_self]

theorem turn_end (h : i.name = n) (hp : p = [] ∨ i.mountpt = true) :
    (Inode.node i c r).walk (n :: p) = (.node i c r, p) ∧
      (Inode.node i c r).edit f (n :: p) = f (.node i c r) ∧
      (Inode.node i c r).stem (n :: p) = [] := by
  simp only [Inode.walk, Inode.edit, Inode.stem, h, if_neg (lt_irrefl n), if_pos hp, and_self]

theorem turn_down (h : i.name = n) (hp : ¬(p = [] ∨ i.mountpt = true)) :
    (Inode.node i c r).walk (n :: p) = c.walk p ∧
      (Inode.node i c r).edit f (n :: p) = .node i (c.edit f p) r ∧
      (Inode.node i c r).stem (n :: p) = n :: c.stem p := by
  simp only [Inode.walk, Inode.edit, Inode.stem, h, if_neg (lt_irrefl n), if_neg hp, and_self]

/-- An induction along a search that finds a node. -/
theorem walk_induct {j : Info χ} {child peer : Inode χ} {motive : Inode χ → Path χ → Prop}
    (here : ∀ p, p = [] ∨ j.mountpt = true → motive (.node j child peer) (j.name :: p))
    (down : ∀ i c r p, ¬(p = [] ∨ i.mountpt = true) → (c.walk p).1 = .node j child peer →
      motive c p → motive (.node i c r) (i.name :: p))
    (next : ∀ i c r n p, i.name < n → (r.walk (n :: p)).1 = .node j child peer →
      motive r (n :: p) → motive (.node i c r) (n :: p))
    {t : Inode χ} (h : (t.walk p).1 = .node j child peer) : motive t p := by
  induction t generalizing p with
  | null => cases h
  | node i c r ihc ihp =>
    cases p with
    | nil => cases h
    | cons n p =>
      rcases lt_trichotomy n i.name with hlt | rfl | hgt
      · rw [(turn_lt (f := id) hlt).1] at h
        cases h
      · by_cases hp : p = [] ∨ i.mountpt = true
        · rw [(turn_end (f := id) rfl hp).1] at h
          cases h
          exact here p hp
        · rw [(turn_down (f := id) rfl hp).1] at h
          exact down i c r p hp h (ihc h)
      · rw [(turn_gt (f := id) hgt).1] at h
        exact next i c r n p hgt h (ihp h)

end

section

variable {f : Inode χ → Inode χ} {t : Inode χ} {x : Nat}

omit [PathChar χ] in
theorem setPeer_of_notMem (h : x ∉ t.addrs) : t.setPeer x f = t := by
  induction t with
  | null => rfl
  | node i child peer ihc ihp =>
    simp only [Inode.addrs, List.mem_cons, List.mem_append, not_or] at h
    simp only [Inode.setPeer, if_neg (Ne.symm h.1), ihc h.2.1, ihp h.2.2]

omit [PathChar χ] in
theorem setChild_of_notMem (h : x ∉ t.addrs) : t.setChild x f = t := by
  induction t with
  | null => rfl
  | node i child peer ihc ihp =>
    simp only [Inode.addrs, List.mem_cons, List.mem_append, not_or] at h
    simp only [Inode.setChild, if_neg (Ne.symm h.1), ihc h.2.1, ihp h.2.2]

/-- The companions name the end of a search from `t`: they are those of `t` itself if it ends
in front of `t`. -/
inductive Names (t : Inode χ) (p : Path χ) (left above : Option Nat) (s : Found χ) : Prop
  | here : s.peer = left → s.parent = above → (∀ f, t.edit f p = f t) → Names t p left above s
  | peer {x : Nat} : s.peer = some x → x ∈ t.addrs → (∀ f, t.setPeer x f = t.edit f p) →
      Names t p left above s
  | child {x : Nat} : s.peer = none → s.parent = some x → x ∈ t.addrs →
      (∀ f, t.setChild x f = t.edit f p) → Names t p left above s

theorem searchFrom_walk (hn : t.addrs.Nodup) (trailing : Bool) {p : Path χ} (hp : PathOk p)
    (left above : Option Nat) :
    (inodeSearchFrom t (join trailing p) left above).node = (t.walk p).1 ∧
      (inodeSearchFrom t (join trailing p) left above).rest = join trailing (t.walk p).2 ∧
      Names t p left above (inodeSearchFrom t (join trailing p) left above) := by
  induction t generalizing p left above with
  | null => exact ⟨rfl, rfl, .here rfl rfl fun f => rfl⟩
  | node i child peer ihc ihp =>
    obtain ⟨hne, hok⟩ := hp
    obtain ⟨n, p, rfl⟩ := List.exists_cons_of_ne_nil hne
    have hnok : slash ∉ n := (hok n List.mem_cons_self).2
    have hprest : ∀ m ∈ p, NameOk m := fun m hm => hok m (List.mem_cons_of_mem _ hm)
    obtain ⟨hi, hnd⟩ := List.nodup_cons.mp hn
    obtain ⟨hnc, hnp, hdis⟩ := List.nodup_append.mp hnd
    unfold inodeSearchFrom
    rw [compare_join hnok, nextname_join hnok]
    rcases compare_spec hnok (m := i.name) with ⟨hc, h⟩ | ⟨hc, h⟩ | ⟨hc, h⟩
    · rw [hc]
      obtain ⟨hw, -, -⟩ := turn_lt (c := child) (r := peer) (p := p) (f := id) h
      rw [hw]
      exact ⟨rfl, rfl, .here rfl rfl fun f => (turn_lt h).2.1⟩
    · rw [hc]
      obtain ⟨hw, -, -⟩ := turn_gt (c := child) (r := peer) (p := p) (f := id) h
      obtain ⟨h1, h2, h3⟩ := ihp hnp ⟨hne, hok⟩ (some i.addr) above
      rw [hw]
      refine ⟨h1, h2, ?_⟩
      cases h3 with
      | here hl ha he =>
        refine .peer hl List.mem_cons_self fun f => ?_
        rw [(turn_gt h).2.1, he]
        exact if_pos rfl
      | peer hl hx he =>
        have hx' := List.mem_append_right child.addrs hx
        have hxi : i.addr ≠ _ := fun h => hi (by rw [h]; exact hx')
        refine .peer hl (List.mem_cons_of_mem _ hx') fun f => ?_
        rw [(turn_gt h).2.1, ← he]
        have hc' := setPeer_of_notMem (f := f) fun hc => hdis _ hc _ hx rfl
        exact (if_neg hxi).trans (by rw [hc'])
      | child hl ha hx he =>
        have hx' := List.mem_append_right child.addrs hx
        have hxi : i.addr ≠ _ := fun h => hi (by rw [h]; exact hx')
        refine .child hl ha (List.mem_cons_of_mem _ hx') fun f => ?_
        rw [(turn_gt h).2.1, ← he]
        have hc' := setChild_of_notMem (f := f) fun hc => hdis _ hc _ hx rfl
        exact (if_neg hxi).trans (by rw [hc'])
    · rw [hc]
      have hiff : (join trailing p = [] ∨ i.mountpt = true) ↔ (p = [] ∨ i.mountpt = true) := by
        rw [join_eq_nil hprest]
      by_cases hp : p = [] ∨ i.mountpt = true
      · obtain ⟨hw, -, -⟩ := turn_end (c := child) (r := peer) (f := id) h.symm hp
        rw [hw]
        dsimp only
        rw [if_pos (hiff.mpr hp)]
        exact ⟨rfl, rfl, .here rfl rfl fun f => (turn_end h.symm hp).2.1⟩
      · obtain ⟨hw, -, -⟩ := turn_down (c := child) (r := peer) (f := id) h.symm hp
        rw [hw]
        dsimp only
        rw [if_neg fun h => hp (hiff.mp h)]
        obtain ⟨h1, h2, h3⟩ := ihc hnc ⟨fun h => hp (.inl h), hprest⟩ none (some i.addr)
        refine ⟨h1, h2, ?_⟩
        cases h3 with
        | here hl ha he =>
          refine .child hl ha List.mem_cons_self fun f => ?_
          rw [(turn_down h.symm hp).2.1, he]
          exact if_pos rfl
        | peer hl hx he =>
          have hx' := List.mem_append_left peer.addrs hx
          have hxi : i.addr ≠ _ := fun h => hi (by rw [h]; exact hx')
          refine .peer hl (List.mem_cons_of_mem _ hx') fun f => ?_
          rw [(turn_down h.symm hp).2.1, ← he]
          have hc' := setPeer_of_notMem (f := f) fun hc => hdis _ hx _ hc rfl
          exact (if_neg hxi).trans (by rw [hc'])
        | child hl ha hx he =>
          have hx' := List.mem_append_left peer.addrs hx
          have hxi : i.addr ≠ _ := fun h => hi (by rw [h]; exact hx')
          refine .child hl ha (List.mem_cons_of_mem _ hx') fun f => ?_
          rw [(turn_down h.symm hp).2.1, ← he]
          have hc' := setChild_of_notMem (f := f) fun hc => hdis _ hx _ hc rfl
          exact (if_neg hxi).trans (by rw [hc'])

theorem search_walk (hn : t.addrs.Nodup) (trailing : Bool) {p : Path χ} (hp : PathOk p) :
    (inodeSearch t (absolute trailing p)).node = (t.walk p).1 ∧
      (inodeSearch t (absolute trailing p)).rest = join trailing (t.walk p).2 ∧
      ∀ f, place (inodeSearch t (absolute trailing p)).peer
        (inodeSearch t (absolute trailing p)).parent f t = t.edit f p := by
  obtain ⟨h1, h2, h3⟩ := searchFrom_walk hn trailing hp none none
  refine ⟨h1, h2, fun f => ?_⟩
  show place (inodeSearchFrom t (join trailing p) none none).peer
    (inodeSearchFrom t (join trailing p) none none).parent f t = _
  cases h3 with
  | here hl ha he => rw [hl, ha, he f]; rfl
  | peer hl _ he => rw [hl]; exact he f
  | child hl ha _ he => rw [hl, ha]; exact he f

end

/-- The nodes that `inode_reserve` makes for the names that it did not find. -/
def branch : List Nat → Path χ → Inode χ → Inode χ
  | a :: mem, n :: p, next => .node ⟨a, n, 0, false⟩ (branch mem p .null) next
  | _, _, next => next

def lastNode : List Nat → Path χ → Option Nat
  | a :: _, [_] => some a
  | _ :: mem, _ :: p => lastNode mem p
  | _, _ => none

section

variable {t : Inode χ} {a b : Nat} {n : List χ} {x : Inode χ}

omit [PathChar χ] in
theorem setPeer_id (p : Nat) (t : Inode χ) : t.setPeer p (fun r => r) = t := by
  induction t with
  | null => rfl
  | node i child peer ihc ihp => simp only [Inode.setPeer, ihc, ihp, ite_self]

omit [PathChar χ] in
theorem setChild_id (p : Nat) (t : Inode χ) : t.setChild p (fun r => r) = t := by
  induction t with
  | null => rfl
  | node i child peer ihc ihp => simp only [Inode.setChild, ihc, ihp, ite_self]

omit [PathChar χ] in
theorem place_id (l r : Option Nat) (t : Inode χ) : place l r (fun r => r) t = t := by
  cases l with
  | some p => exact setPeer_id p t
  | none =>
    cases r with
    | some q => exact setChild_id q t
    | none => rfl

omit [PathChar χ] in
theorem setChild_place (l r : Option Nat) (i : Info χ) (g : Inode χ → Inode χ)
    (h : i.addr ∉ t.addrs) :
    (place l r (fun next => .node i x next) t).setChild i.addr g =
      place l r (fun next => .node i (g x) next) t := by
  have hself : ∀ next : Inode χ, i.addr ∉ next.addrs →
      (Inode.node i x next).setChild i.addr g = .node i (g x) next := by
    intro next _
    exact if_pos rfl
  cases l with
  | some p =>
    show (t.setPeer p _).setChild i.addr g = t.setPeer p _
    induction t with
    | null => rfl
    | node j child peer ihc ihp =>
      simp only [Inode.addrs, List.mem_cons, List.mem_append, not_or] at h
      by_cases hj : j.addr = p
      · simp only [Inode.setPeer, if_pos hj, Inode.setChild, if_neg (Ne.symm h.1), if_true,
          setChild_of_notMem h.2.1]
      · simp only [Inode.setPeer, if_neg hj, Inode.setChild, if_neg (Ne.symm h.1),
          ihc h.2.1, ihp h.2.2]
  | none =>
    cases r with
    | none => exact hself t h
    | some q =>
      show (t.setChild q _).setChild i.addr g = t.setChild q _
      induction t with
      | null => rfl
      | node j child peer ihc ihp =>
        simp only [Inode.addrs, List.mem_cons, List.mem_append, not_or] at h
        by_cases hj : j.addr = q
        · simp only [if_pos hj, Inode.setChild, if_neg (Ne.symm h.1), if_true,
            setChild_of_notMem h.2.2]
        · simp only [Inode.setChild, if_neg hj, if_neg (Ne.symm h.1), ihc h.2.1, ihp h.2.2]

omit [PathChar χ] in
theorem addrs_place (l r : Option Nat) (i : Info χ) :
    ∀ y ∈ (place l r (fun next => .node i .null next) t).addrs, y = i.addr ∨ y ∈ t.addrs := by
  have hpeer : ∀ p, ∀ y ∈ (t.setPeer p fun next => .node i .null next).addrs,
      y = i.addr ∨ y ∈ t.addrs := by
    intro p
    induction t with
    | null =>
      intro y hy
      cases hy
    | node j child peer ihc ihp =>
      intro y hy
      unfold Inode.setPeer at hy
      split at hy
      · simp only [Inode.addrs, List.mem_cons, List.mem_append, List.nil_append] at hy ⊢
        tauto
      · simp only [Inode.addrs, List.mem_cons, List.mem_append] at hy ⊢
        rcases hy with hy | hy | hy
        · exact .inr (.inl hy)
        · exact (ihc y hy).imp id fun h => .inr (.inl h)
        · exact (ihp y hy).imp id fun h => .inr (.inr h)
  have hchild : ∀ p, ∀ y ∈ (t.setChild p fun next => .node i .null next).addrs,
      y = i.addr ∨ y ∈ t.addrs := by
    intro p
    clear hpeer
    induction t with
    | null =>
      intro y hy
      cases hy
    | node j child peer ihc ihp =>
      intro y hy
      unfold Inode.setChild at hy
      split at hy
      · simp only [Inode.addrs, List.mem_cons, List.mem_append, List.nil_append] at hy ⊢
        tauto
      · simp only [Inode.addrs, List.mem_cons, List.mem_append] at hy ⊢
        rcases hy with hy | hy | hy
        · exact .inr (.inl hy)
        · exact (ihc y hy).imp id fun h => .inr (.inl h)
        · exact (ihp y hy).imp id fun h => .inr (.inr h)
  cases l with
  | some p => exact hpeer p
  | none =>
    cases r with
    | some q => exact hchild q
    | none =>
      intro y hy
      simpa only [place, Inode.addrs, List.nil_append, List.mem_cons] using hy

theorem reserveLoop_branch {mem : List Nat} (trailing : Bool) {p : Path χ} (hp : PathOk p)
    (hm : mem.Nodup) (ht : ∀ y ∈ mem, y ∉ t.addrs) (l r : Option Nat) :
    reserveLoop mem t (join trailing p) l r =
      (place l r (branch mem p) t, lastNode mem p) := by
  induction mem generalizing t p l r with
  | nil =>
    have hb : branch [] p = fun r : Inode χ => r := by
      funext r
      unfold branch
      rfl
    have hl : lastNode [] p = none := by
      unfold lastNode
      rfl
    rw [hb, hl, place_id]
    rfl
  | cons a mem ih =>
    obtain ⟨hne, hok⟩ := hp
    obtain ⟨n, p, rfl⟩ := List.exists_cons_of_ne_nil hne
    have hnok : slash ∉ n := (hok n List.mem_cons_self).2
    have hprest : ∀ m ∈ p, NameOk m := fun m hm => hok m (List.mem_cons_of_mem _ hm)
    obtain ⟨ha, hmem⟩ := List.nodup_cons.mp hm
    have hat : a ∉ t.addrs := ht a List.mem_cons_self
    unfold reserveLoop inodeInsert inodeAlloc
    rw [nextname_join hnok, namecpy_join hnok]
    dsimp only
    cases p with
    | nil =>
      rw [if_neg (by simp [join])]
      have hb : ∀ next : Inode χ, branch mem [] next = next := by
        intro next
        cases mem <;> rfl
      have hbr : branch (a :: mem) [n] =
          fun next : Inode χ => .node ⟨a, n, 0, false⟩ .null next := by
        funext next
        show Inode.node ⟨a, n, 0, false⟩ (branch mem [] .null) next = _
        rw [hb]
      rw [hbr]
      rfl
    | cons m p =>
      have hj : join trailing (m :: p) ≠ [] := fun h => by
        cases (join_eq_nil hprest).mp h
      rw [if_pos hj, ih ⟨List.cons_ne_nil _ _, hprest⟩ hmem]
      · show (((place l r _ t).setChild a (branch mem (m :: p))), _) = _
        rw [setChild_place l r ⟨a, n, 0, false⟩ (branch mem (m :: p)) hat]
        rfl
      · intro y hy h
        rcases addrs_place l r _ y h with h | h
        · exact ha ((show y = a from h) ▸ hy)
        · exact ht y (List.mem_cons_of_mem _ hy) h

theorem reserve_edit {mem : List Nat} (hn : t.addrs.Nodup) (trailing : Bool) {p : Path χ}
    (hp : PathOk p) (hw : PathOk (t.walk p).2) (hm : mem.Nodup) (ht : ∀ y ∈ mem, y ∉ t.addrs)
    (hnull : (t.walk p).1 = .null) :
    inodeReserve mem (absolute trailing p) t =
      (t.edit (branch mem (t.walk p).2) p, lastNode mem (t.walk p).2) := by
  obtain ⟨h1, h2, h3⟩ := search_walk hn trailing hp
  unfold inodeReserve
  rw [if_neg (by simp [absolute])]
  dsimp only
  rw [h1, hnull]
  dsimp only
  rw [h2, reserveLoop_branch trailing hw hm ht, h3]

theorem reserve_found (mem : List Nat) (hn : t.addrs.Nodup) (trailing : Bool) {p : Path χ}
    (hp : PathOk p) (hnull : (t.walk p).1 ≠ .null) :
    inodeReserve mem (absolute trailing p) t = (t, none) := by
  obtain ⟨h1, -, -⟩ := search_walk hn trailing hp
  unfold inodeReserve
  rw [if_neg (by simp [absolute])]
  dsimp only
  rw [h1]
  cases hw : (t.walk p).1 with
  | null => exact absurd hw hnull
  | node i child peer => rfl

theorem remove_null (hn : t.addrs.Nodup) (trailing : Bool) {p : Path χ} (hp : PathOk p)
    (hnull : (t.walk p).1 = .null) :
    inodeRemove (absolute trailing p) t = (t, .enoent, .null) := by
  obtain ⟨h1, -, -⟩ := search_walk hn trailing hp
  unfold inodeRemove
  rw [if_neg (by simp [absolute])]
  dsimp only
  rw [h1, hnull]

theorem remove_edit (hn : t.addrs.Nodup) (trailing : Bool) {p : Path χ} (hp : PathOk p)
    {i : Info χ} {child peer : Inode χ} (hw : (t.walk p).1 = .node i child peer) :
    inodeRemove (absolute trailing p) t =
      if i.crefs ≠ 0 then (t.edit (fun _ => peer) p, .ebusy, .node i child .null)
      else (t.edit (fun _ => peer) p, .ok, .null) := by
  obtain ⟨h1, -, h3⟩ := search_walk hn trailing hp
  unfold inodeRemove
  rw [if_neg (by simp [absolute])]
  dsimp only
  rw [h1, hw]
  dsimp only
  unfold inodeUnlink
  rw [h3]

end

end NuttxAvr32.Fs
