import NuttxAvr32.Inode.Search

/-! # The names that a tree spells

`Spells t q i` says that the names from the list `t` down to the inode `i` are `q`. It is
all that a path can mean; the ends of searches and the changes of the tree are told by it.
-/

namespace NuttxAvr32.Fs

variable {χ : Type} [PathChar χ]

inductive Spells : Inode χ → Path χ → Info χ → Prop
  | here {i : Info χ} {child peer : Inode χ} : Spells (.node i child peer) [i.name] i
  | down {i j : Info χ} {child peer : Inode χ} {q : Path χ} :
      Spells child q j → Spells (.node i child peer) (i.name :: q) j
  | next {i j : Info χ} {child peer : Inode χ} {q : Path χ} :
      Spells peer q j → Spells (.node i child peer) q j

def MountLeaf (t : Inode χ) : Prop :=
  ∀ q i q' j, Spells t q i → i.mountpt = true → Spells t (q ++ q') j → q' = []

section

variable {t child peer : Inode χ} {i j : Info χ} {q q' : Path χ} {n : List χ}

omit [PathChar χ] in
theorem not_spells_null : ¬ Spells (.null : Inode χ) q j := by
  intro h
  cases h

omit [PathChar χ] in
theorem spells_node :
    Spells (.node i child peer) q j ↔
      (q = [i.name] ∧ j = i) ∨ (∃ r, q = i.name :: r ∧ Spells child r j) ∨ Spells peer q j := by
  constructor
  · intro h
    cases h with
    | here => exact .inl ⟨rfl, rfl⟩
    | down h => exact .inr (.inl ⟨_, rfl, h⟩)
    | next h => exact .inr (.inr h)
  · rintro (⟨rfl, rfl⟩ | ⟨r, rfl, h⟩ | h)
    · exact .here
    · exact .down h
    · exact .next h

omit [PathChar χ] in
theorem Spells.ne_nil (h : Spells t q j) : q ≠ [] := by
  induction h with
  | here => exact List.cons_ne_nil _ _
  | down _ _ => exact List.cons_ne_nil _ _
  | next _ ih => exact ih

omit [PathChar χ] in
theorem Spells.addr (h : Spells t q j) : j.addr ∈ t.addrs := by
  induction h with
  | here => exact List.mem_cons_self
  | down _ ih => exact List.mem_cons_of_mem _ (List.mem_append_left _ ih)
  | next _ ih => exact List.mem_cons_of_mem _ (List.mem_append_right _ ih)

omit [PathChar χ] in
theorem Spells.level (h : Spells t q j) : ∃ n r, q = n :: r ∧ n ∈ t.level := by
  induction h with
  | here => exact ⟨_, _, rfl, List.mem_cons_self⟩
  | down _ _ => exact ⟨_, _, rfl, List.mem_cons_self⟩
  | next _ ih =>
    obtain ⟨n, r, hq, hn⟩ := ih
    exact ⟨n, r, hq, List.mem_cons_of_mem _ hn⟩

omit [PathChar χ] in
theorem Spells.append (h : Spells t (q ++ q') j) (hq : q ≠ []) : ∃ i, Spells t q i := by
  induction t generalizing q with
  | null => exact absurd h not_spells_null
  | node i child peer ihc ihp =>
    rcases spells_node.mp h with ⟨h1, -⟩ | ⟨r, h1, h2⟩ | h2
    · rcases List.append_eq_singleton_iff.mp h1 with ⟨h2, -⟩ | ⟨h2, -⟩
      · exact absurd h2 hq
      · exact ⟨i, h2 ▸ .here⟩
    · obtain ⟨n, q, rfl⟩ := List.exists_cons_of_ne_nil hq
      obtain ⟨rfl, h3⟩ := List.cons_eq_cons.mp h1
      cases q with
      | nil => exact ⟨i, .here⟩
      | cons m q =>
        obtain ⟨k, hk⟩ := ihc (h3 ▸ h2) (List.cons_ne_nil _ _)
        exact ⟨k, .down hk⟩
    · obtain ⟨k, hk⟩ := ihp h2 hq
      exact ⟨k, .next hk⟩

omit [PathChar χ] in
theorem Spells.addr_unique (hn : t.addrs.Nodup) (h : Spells t q i) (h' : Spells t q' j)
    (ha : i.addr = j.addr) : q = q' := by
  induction t generalizing q q' with
  | null => exact absurd h not_spells_null
  | node k child peer ihc ihp =>
    obtain ⟨hk, hnd⟩ := List.nodup_cons.mp hn
    obtain ⟨hnc, hnp, hdis⟩ := List.nodup_append.mp hnd
    have hchild : ∀ {x}, x ∈ child.addrs → x ≠ k.addr :=
      fun hx h => hk (h ▸ List.mem_append_left _ hx)
    have hpeer : ∀ {x}, x ∈ peer.addrs → x ≠ k.addr :=
      fun hx h => hk (h ▸ List.mem_append_right _ hx)
    rcases spells_node.mp h with ⟨rfl, rfl⟩ | ⟨r, rfl, h1⟩ | h1
    · rcases spells_node.mp h' with ⟨rfl, -⟩ | ⟨r', rfl, h2⟩ | h2
      · rfl
      · exact absurd ha.symm (hchild h2.addr)
      · exact absurd ha.symm (hpeer h2.addr)
    · rcases spells_node.mp h' with ⟨rfl, rfl⟩ | ⟨r', rfl, h2⟩ | h2
      · exact absurd ha (hchild h1.addr)
      · rw [ihc hnc h1 h2]
      · exact absurd ha (hdis _ h1.addr _ h2.addr)
    · rcases spells_node.mp h' with ⟨rfl, rfl⟩ | ⟨r', rfl, h2⟩ | h2
      · exact absurd ha (hpeer h1.addr)
      · exact absurd ha.symm (hdis _ h2.addr _ h1.addr)
      · exact ihp hnp h1 h2

theorem spells_peer_lt (hs : (Inode.node i child peer).Sorted) (h : Spells peer (n :: q) j) :
    i.name < n := by
  obtain ⟨m, r, hq, hm⟩ := h.level
  obtain ⟨rfl, -⟩ := List.cons_eq_cons.mp hq
  exact hs.1 n hm

theorem not_spells_lt (hs : (Inode.node i child peer).Sorted) (h : n < i.name) :
    ¬ Spells (.node i child peer) (n :: q) j := by
  intro hq
  rcases spells_node.mp hq with ⟨h1, -⟩ | ⟨r, h1, -⟩ | h1
  · obtain ⟨rfl, -⟩ := List.cons_eq_cons.mp h1
    exact lt_irrefl _ h
  · obtain ⟨rfl, -⟩ := List.cons_eq_cons.mp h1
    exact lt_irrefl _ h
  · exact lt_asymm h (spells_peer_lt hs h1)

omit [PathChar χ] in
theorem spells_ne (h : n ≠ i.name) :
    Spells (.node i child peer) (n :: q) j ↔ Spells peer (n :: q) j := by
  constructor
  · intro hq
    rcases spells_node.mp hq with ⟨h1, -⟩ | ⟨r, h1, -⟩ | h1
    · exact absurd (List.cons_eq_cons.mp h1).1 h
    · exact absurd (List.cons_eq_cons.mp h1).1 h
    · exact h1
  · exact .next

theorem spells_eq (hs : (Inode.node i child peer).Sorted) :
    Spells (.node i child peer) (i.name :: q) j ↔ (q = [] ∧ j = i) ∨ Spells child q j := by
  constructor
  · intro hq
    rcases spells_node.mp hq with ⟨h1, h2⟩ | ⟨r, h1, h2⟩ | h1
    · exact .inl ⟨(List.cons_eq_cons.mp h1).2, h2⟩
    · exact .inr ((List.cons_eq_cons.mp h1).2 ▸ h2)
    · exact absurd (spells_peer_lt hs h1) (lt_irrefl _)
  · rintro (⟨rfl, rfl⟩ | h)
    · exact .here
    · exact .down h

end

section

variable {t child peer : Inode χ} {i : Info χ} {p : Path χ}

/-- A search that finds a node has followed its names; it leaves names only at a mountpoint. -/
theorem walk_found (h : (t.walk p).1 = .node i child peer) :
    ∃ q, p = q ++ (t.walk p).2 ∧ Spells t q i ∧ ((t.walk p).2 = [] ∨ i.mountpt = true) := by
  refine walk_induct (motive := fun t p => ∃ q, p = q ++ (t.walk p).2 ∧ Spells t q i ∧
    ((t.walk p).2 = [] ∨ i.mountpt = true)) ?_ ?_ ?_ h
  · intro p hp
    rw [(turn_end (f := id) rfl hp).1]
    exact ⟨[i.name], rfl, .here, hp⟩
  · rintro k c r p hp - ⟨q, hq, hs, he⟩
    rw [(turn_down (f := id) rfl hp).1]
    exact ⟨k.name :: q, congrArg _ hq, .down hs, he⟩
  · rintro k c r n p hgt - ⟨q, hq, hs, he⟩
    rw [(turn_gt (f := id) hgt).1]
    exact ⟨q, hq, .next hs, he⟩

/-- A search that finds nothing has gone down the longest prefix that is there. -/
structure Missed (t : Inode χ) (p : Path χ) : Prop where
  split : p = t.stem p ++ (t.walk p).2
  rest : (t.walk p).2 ≠ []
  prefixes : ∀ k < p.length, (∃ i, Spells t (p.take (k + 1)) i) ↔ k < (t.stem p).length
  mounts : ∀ q i, q <+: p → Spells t q i → i.mountpt = false

theorem walk_missed (hs : t.Sorted) (hp : p ≠ []) (h : (t.walk p).1 = .null) : Missed t p := by
  induction t generalizing p with
  | null =>
    refine ⟨rfl, hp, fun k _ => ⟨fun ⟨i, hi⟩ => absurd hi not_spells_null, fun h => ?_⟩,
      fun q i _ hq => absurd hq not_spells_null⟩
    exact absurd h (Nat.not_lt_zero k)
  | node i child peer ihc ihp =>
    obtain ⟨n, p, rfl⟩ := List.exists_cons_of_ne_nil hp
    have hprefix : ∀ {q : Path χ} {j : Info χ}, q <+: n :: p →
        Spells (.node i child peer) q j → ∃ r, q = n :: r ∧ r <+: p := by
      intro q j hq hj
      obtain ⟨m, r, rfl⟩ := List.exists_cons_of_ne_nil hj.ne_nil
      obtain ⟨rfl, hr⟩ := List.cons_prefix_cons.mp hq
      exact ⟨r, rfl, hr⟩
    rcases lt_trichotomy n i.name with hlt | heq | hgt
    · obtain ⟨hw, -, hst⟩ :=
        turn_lt (c := child) (r := peer) (p := p) (f := id) hlt
      refine ⟨by rw [hw, hst]; rfl, by rw [hw]; exact hp, fun k _ => ?_, fun q j hq hj => ?_⟩
      · rw [hst]
        exact ⟨fun ⟨j, hj⟩ => absurd hj (not_spells_lt hs hlt), fun h => absurd h (Nat.not_lt_zero k)⟩
      · obtain ⟨r, rfl, -⟩ := hprefix hq hj
        exact absurd hj (not_spells_lt hs hlt)
    · subst heq
      by_cases he : p = [] ∨ i.mountpt = true
      · rw [(turn_end (f := id) rfl he).1] at h
        cases h
      · obtain ⟨hw, -, hst⟩ :=
          turn_down (c := child) (r := peer) (p := p) (f := id) rfl he
        rw [hw] at h
        have M := ihc hs.2.1 (fun h => he (.inl h)) h
        refine ⟨?_, by rw [hw]; exact M.rest, fun k hk => ?_, fun q j hq hj => ?_⟩
        · rw [hw, hst]
          exact congrArg _ M.split
        · rw [hst]
          cases k with
          | zero => exact ⟨fun _ => Nat.succ_pos _, fun _ => ⟨i, .here⟩⟩
          | succ k =>
            have hk' := Nat.lt_of_succ_lt_succ hk
            have hM := M.prefixes k hk'
            constructor
            · rintro ⟨j, hj⟩
              rcases (spells_eq hs).mp hj with ⟨h1, -⟩ | h1
              · have hlen := congrArg List.length h1
                rw [List.length_take, List.length_nil] at hlen
                omega
              · exact Nat.succ_lt_succ (hM.mp ⟨j, h1⟩)
            · intro h1
              obtain ⟨j, hj⟩ := hM.mpr (Nat.lt_of_succ_lt_succ h1)
              exact ⟨j, .down hj⟩
        · obtain ⟨r, rfl, hr⟩ := hprefix hq hj
          rcases (spells_eq hs).mp hj with ⟨-, rfl⟩ | h1
          · exact Bool.not_eq_true _ |>.mp fun h => he (.inr h)
          · exact M.mounts r j hr h1
    · obtain ⟨hw, -, hst⟩ :=
        turn_gt (c := child) (r := peer) (p := p) (f := id) hgt
      rw [hw] at h
      have M := ihp hs.2.2 hp h
      have hne : n ≠ i.name := ne_of_gt hgt
      refine ⟨?_, by rw [hw]; exact M.rest, fun k hk => ?_, fun q j hq hj => ?_⟩
      · rw [hw, hst]
        exact M.split
      · rw [hst, ← M.prefixes k hk]
        exact exists_congr fun j => spells_ne hne
      · obtain ⟨r, rfl, -⟩ := hprefix hq hj
        exact M.mounts _ j hq ((spells_ne hne).mp hj)

end

section

variable {t : Inode χ} {p : Path χ} {mem : List Nat} {f : Inode χ → Inode χ}

theorem spells_edit_add {N : Path χ → Info χ → Prop}
    (hf : ∀ r q j, Spells (f r) q j ↔ Spells r q j ∨ N q j) (hp : p ≠ [])
    (h : (t.walk p).1 = .null) (q : Path χ) (j : Info χ) :
    Spells (t.edit f p) q j ↔ Spells t q j ∨ ∃ r, q = t.stem p ++ r ∧ N r j := by
  have hhere : ∀ r : Inode χ, Spells (f r) q j ↔ Spells r q j ∨ ∃ r, q = [] ++ r ∧ N r j := by
    intro r
    rw [hf]
    simp
  induction t generalizing p q with
  | null => exact hhere _
  | node i child peer ihc ihp =>
    obtain ⟨n, p, rfl⟩ := List.exists_cons_of_ne_nil hp
    rcases lt_trichotomy n i.name with hlt | heq | hgt
    · obtain ⟨-, he, hst⟩ := turn_lt (c := child) (r := peer) (p := p) (f := f) hlt
      rw [he, hst]
      exact hhere _
    · by_cases hend : p = [] ∨ i.mountpt = true
      · rw [(turn_end (f := id) heq.symm hend).1] at h
        cases h
      · obtain ⟨hw, he, hst⟩ :=
          turn_down (c := child) (r := peer) (p := p) (f := f) heq.symm hend
        rw [hw] at h
        have hne : p ≠ [] := fun h => hend (.inl h)
        rw [he, hst, spells_node, spells_node]
        have hih : ∀ r, Spells (child.edit f p) r j ↔
            Spells child r j ∨ ∃ s, r = child.stem p ++ s ∧ N s j := by
          intro r
          refine ihc hne h r fun r => ?_
          rw [hf]
          simp
        constructor
        · rintro (h1 | ⟨r, rfl, h1⟩ | h1)
          · exact .inl (.inl h1)
          · rcases (hih r).mp h1 with h2 | ⟨s, rfl, h2⟩
            · exact .inl (.inr (.inl ⟨r, rfl, h2⟩))
            · exact .inr ⟨s, by rw [heq]; rfl, h2⟩
          · exact .inl (.inr (.inr h1))
        · rintro ((h1 | ⟨r, rfl, h1⟩ | h1) | ⟨s, rfl, h1⟩)
          · exact .inl h1
          · exact .inr (.inl ⟨r, rfl, (hih r).mpr (.inl h1)⟩)
          · exact .inr (.inr h1)
          · exact .inr (.inl ⟨child.stem p ++ s, by rw [heq]; rfl, (hih _).mpr (.inr ⟨s, rfl, h1⟩)⟩)
    · obtain ⟨hw, he, hst⟩ := turn_gt (c := child) (r := peer) (p := p) (f := f) hgt
      rw [hw] at h
      have hih : Spells (peer.edit f (n :: p)) q j ↔
          Spells peer q j ∨ ∃ r, q = peer.stem (n :: p) ++ r ∧ N r j := ihp hp h q hhere
      rw [he, hst, spells_node, spells_node, hih, or_assoc, or_assoc]

omit [PathChar χ] in
theorem branch_spells (next : Inode χ) (q : Path χ) (j : Info χ) :
    Spells (branch mem p next) q j ↔ Spells next q j ∨ Spells (branch mem p .null) q j := by
  cases mem with
  | nil =>
    have hb : ∀ r : Inode χ, branch [] p r = r := by
      intro r
      cases p <;> rfl
    rw [hb, hb]
    exact ⟨.inl, fun h => h.elim id fun h => absurd h not_spells_null⟩
  | cons a mem =>
    cases p with
    | nil => exact ⟨.inl, fun h => h.elim id fun h => absurd h not_spells_null⟩
    | cons n p =>
      unfold branch
      simp only [spells_node, or_iff_left not_spells_null]
      rw [← or_assoc, or_comm]

omit [PathChar χ] in
theorem branch_prefix {q : Path χ} {j : Info χ} (h : Spells (branch mem p .null) q j) :
    q <+: p ∧ j.mountpt = false := by
  induction mem generalizing p q with
  | nil =>
    cases p with
    | nil => exact absurd h not_spells_null
    | cons n p => exact absurd h not_spells_null
  | cons a mem ih =>
    cases p with
    | nil => exact absurd h not_spells_null
    | cons n p =>
      unfold branch at h
      rcases spells_node.mp h with ⟨rfl, rfl⟩ | ⟨r, rfl, h1⟩ | h1
      · exact ⟨List.cons_prefix_cons.mpr ⟨rfl, List.nil_prefix⟩, rfl⟩
      · exact ⟨List.cons_prefix_cons.mpr ⟨rfl, (ih h1).1⟩, (ih h1).2⟩
      · exact absurd h1 not_spells_null

omit [PathChar χ] in
theorem branch_full (hm : p.length ≤ mem.length) {q : Path χ} (hq : q <+: p) (hne : q ≠ []) :
    ∃ j, Spells (branch mem p .null) q j := by
  induction mem generalizing p q with
  | nil =>
    have hp := List.length_eq_zero_iff.mp (Nat.le_zero.mp hm)
    rw [hp] at hq
    exact absurd (List.prefix_nil.mp hq) hne
  | cons a mem ih =>
    obtain ⟨n, q, rfl⟩ := List.exists_cons_of_ne_nil hne
    cases p with
    | nil => cases List.prefix_nil.mp hq
    | cons m p =>
      obtain ⟨rfl, hr⟩ := List.cons_prefix_cons.mp hq
      cases q with
      | nil => exact ⟨_, .here⟩
      | cons m q =>
        obtain ⟨j, hj⟩ := ih (Nat.le_of_succ_le_succ hm) hr (List.cons_ne_nil _ _)
        exact ⟨j, .down hj⟩

omit [PathChar χ] in
theorem lastNode_none (hp : p ≠ []) : lastNode mem p = none ↔ mem.length < p.length := by
  induction mem generalizing p with
  | nil =>
    obtain ⟨n, p, rfl⟩ := List.exists_cons_of_ne_nil hp
    exact ⟨fun _ => Nat.succ_pos _, fun _ => (by cases p <;> rfl)⟩
  | cons a mem ih =>
    obtain ⟨n, p, rfl⟩ := List.exists_cons_of_ne_nil hp
    cases p with
    | nil =>
      constructor
      · intro h
        cases h
      · intro h
        simp at h
    | cons m p =>
      show lastNode mem (m :: p) = none ↔ _
      rw [ih (List.cons_ne_nil _ _)]
      exact Nat.succ_lt_succ_iff.symm

omit [PathChar χ] in
theorem lastNode_spells {a : Nat} (h : lastNode mem p = some a) :
    ∃ j, j.addr = a ∧ Spells (branch mem p .null) p j := by
  induction mem generalizing p with
  | nil =>
    cases p with
    | nil => cases h
    | cons n p => cases p <;> cases h
  | cons b mem ih =>
    cases p with
    | nil => cases h
    | cons n p =>
      cases p with
      | nil =>
        cases h
        exact ⟨_, rfl, .here⟩
      | cons m p =>
        obtain ⟨j, hj, hs⟩ := ih (p := m :: p) h
        exact ⟨j, hj, .down hs⟩

omit [PathChar χ] in
theorem edit_id (hf : ∀ r, f r = r) [PathChar χ] : t.edit f p = t := by
  induction t generalizing p with
  | null => exact hf _
  | node i child peer ihc ihp =>
    cases p with
    | nil => rfl
    | cons n p => simp only [Inode.edit, hf, ihc, ihp, ite_self]

omit [PathChar χ] in
theorem branch_nil (p : Path χ) (r : Inode χ) : branch [] p r = r := by
  cases p <;> rfl

theorem branch_sorted (mem : List Nat) (p : Path χ) :
    (branch mem p .null).Sorted ∧ ∀ m ∈ (branch mem p .null).level, ∃ r, p = m :: r := by
  induction mem generalizing p with
  | nil =>
    rw [branch_nil]
    exact ⟨trivial, fun m hm => (by cases hm)⟩
  | cons a mem ih =>
    cases p with
    | nil => exact ⟨trivial, fun m hm => (by cases hm)⟩
    | cons n p =>
      refine ⟨⟨fun m hm => (by cases hm), (ih p).1, trivial⟩, fun m hm => ?_⟩
      cases List.mem_singleton.mp hm
      exact ⟨p, rfl⟩

theorem sorted_edit_add (hs : t.Sorted) {n : List χ} (h : (t.walk (n :: p)).1 = .null)
    {a : Nat} :
    (t.edit (branch (a :: mem) (t.walk (n :: p)).2) (n :: p)).Sorted ∧
      ∀ m ∈ (t.edit (branch (a :: mem) (t.walk (n :: p)).2) (n :: p)).level,
        m ∈ t.level ∨ m = n := by
  induction t generalizing n p with
  | null =>
    refine ⟨⟨fun m hm => (by cases hm), (branch_sorted mem p).1, trivial⟩, fun m hm => ?_⟩
    exact .inr (List.mem_singleton.mp hm)
  | node i child peer ihc ihp =>
    rcases lt_trichotomy n i.name with hlt | heq | hgt
    · obtain ⟨hw, -, -⟩ := turn_lt (c := child) (r := peer) (p := p) (f := id) hlt
      rw [hw, (turn_lt hlt).2.1]
      refine ⟨⟨fun m hm => ?_, (branch_sorted mem p).1, hs⟩, fun m hm => ?_⟩
      · rcases List.mem_cons.mp hm with rfl | hm
        · exact hlt
        · exact lt_trans hlt (hs.1 m hm)
      · exact (List.mem_cons.mp hm).symm
    · by_cases hend : p = [] ∨ i.mountpt = true
      · rw [(turn_end (f := id) heq.symm hend).1] at h
        cases h
      · obtain ⟨hw, -, -⟩ :=
          turn_down (c := child) (r := peer) (p := p) (f := id) heq.symm hend
        rw [hw] at h
        rw [hw, (turn_down heq.symm hend).2.1]
        obtain ⟨m, p, rfl⟩ := List.exists_cons_of_ne_nil fun h : p = [] => hend (.inl h)
        obtain ⟨h1, -⟩ := ihc hs.2.1 h
        exact ⟨⟨hs.1, h1, hs.2.2⟩, fun m hm => .inl hm⟩
    · obtain ⟨hw, -, -⟩ := turn_gt (c := child) (r := peer) (p := p) (f := id) hgt
      rw [hw] at h
      rw [hw, (turn_gt hgt).2.1]
      obtain ⟨h1, h2⟩ := ihp hs.2.2 h
      refine ⟨⟨fun m hm => ?_, hs.2.1, h1⟩, fun m hm => ?_⟩
      · rcases h2 m hm with h3 | rfl
        · exact hs.1 m h3
        · exact hgt
      · rcases List.mem_cons.mp hm with rfl | hm
        · exact .inl List.mem_cons_self
        · exact (h2 m hm).imp (List.mem_cons_of_mem _) id

theorem perm_below {α : Type*} {k : α} {x y l r : List α} (h : x.Perm (l ++ y)) :
    (k :: (x ++ r)).Perm (l ++ k :: (y ++ r)) := by
  have hcons : (k :: (x ++ r)).Perm (k :: (l ++ (y ++ r))) := by
    rw [← List.append_assoc]
    exact (h.append_right _).cons _
  exact hcons.trans List.perm_middle.symm

theorem perm_beside {α : Type*} {k : α} {x y l c : List α} (h : x.Perm (l ++ y)) :
    (k :: (c ++ x)).Perm (l ++ k :: (c ++ y)) := by
  have hcomm : (c ++ x).Perm (x ++ c) := List.perm_append_comm
  have hback : (l ++ k :: (y ++ c)).Perm (l ++ k :: (c ++ y)) :=
    (List.perm_append_comm.cons k).append_left l
  exact (hcomm.cons k).trans ((perm_below h).trans hback)

theorem infos_edit_add {l : List (Info χ)} (hf : ∀ r, (f r).infos.Perm (l ++ r.infos)) (hp : p ≠ [])
    (h : (t.walk p).1 = .null) : (t.edit f p).infos.Perm (l ++ t.infos) := by
  induction t generalizing p with
  | null => exact hf _
  | node i child peer ihc ihp =>
    obtain ⟨n, p, rfl⟩ := List.exists_cons_of_ne_nil hp
    rcases lt_trichotomy n i.name with hlt | heq | hgt
    · rw [(turn_lt hlt).2.1]
      exact hf _
    · by_cases hend : p = [] ∨ i.mountpt = true
      · rw [(turn_end (f := id) heq.symm hend).1] at h
        cases h
      · rw [(turn_down (f := id) heq.symm hend).1] at h
        rw [(turn_down heq.symm hend).2.1]
        exact perm_below (ihc (fun h => hend (.inl h)) h)
    · rw [(turn_gt (f := id) hgt).1] at h
      rw [(turn_gt hgt).2.1]
      exact perm_beside (ihp hp h)

theorem addrs_edit_add {l : List (Info χ)} (hf : ∀ r, (f r).infos.Perm (l ++ r.infos))
    (hp : p ≠ []) (h : (t.walk p).1 = .null) :
    (t.edit f p).addrs.Perm (l.map Info.addr ++ t.addrs) := by
  have hinfos := (infos_edit_add hf hp h).map Info.addr
  rw [infos_addr, List.map_append, infos_addr] at hinfos
  exact hinfos

omit [PathChar χ] in
theorem branch_infos_append (mem : List Nat) (p : Path χ) (r : Inode χ) :
    (branch mem p r).infos = (branch mem p .null).infos ++ r.infos := by
  cases mem with
  | nil =>
    rw [branch_nil, branch_nil]
    rfl
  | cons a mem =>
    cases p with
    | nil => rfl
    | cons n p =>
      show _ :: ((branch mem p .null).infos ++ r.infos) =
        (_ :: ((branch mem p .null).infos ++ [])) ++ r.infos
      rw [List.append_nil]
      rfl

omit [PathChar χ] in
theorem branch_infos (mem : List Nat) (p : Path χ) :
    ∀ i ∈ (branch mem p .null).infos, i.addr ∈ mem ∧ i.crefs = 0 := by
  induction mem generalizing p with
  | nil =>
    rw [branch_nil]
    intro i hi
    cases hi
  | cons a mem ih =>
    cases p with
    | nil =>
      intro i hi
      cases hi
    | cons n p =>
      intro i hi
      have hi' : i ∈ _ :: ((branch mem p .null).infos ++ []) := hi
      rw [List.append_nil] at hi'
      rcases List.mem_cons.mp hi' with rfl | hi'
      · exact ⟨List.mem_cons_self, rfl⟩
      · exact ⟨List.mem_cons_of_mem _ (ih p i hi').1, (ih p i hi').2⟩

omit [PathChar χ] in
theorem branch_addrs (mem : List Nat) (p : Path χ) (r : Inode χ) :
    (branch mem p r).addrs = mem.take p.length ++ r.addrs := by
  induction mem generalizing p r with
  | nil =>
    rw [branch_nil, List.take_nil]
    rfl
  | cons a mem ih =>
    cases p with
    | nil => rfl
    | cons n p =>
      show a :: ((branch mem p .null).addrs ++ r.addrs) = _
      rw [ih]
      simp [Inode.addrs]

end

end NuttxAvr32.Fs
