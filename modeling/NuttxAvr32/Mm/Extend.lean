import NuttxAvr32.Mm.Shrink

/-! # Extending an allocated chunk into its free neighbours

The two stages of the growth in place of `realloc`: bytes taken from the end of
the free chunk before the block, whose contents then move down, and bytes taken
from the start of the one after it. A neighbour that is taken in part must keep
room for a free node.
-/

namespace NuttxAvr32.Mm

open ByteMemory

/-- The header writes that make a free chunk of size `s` before an allocated
one of size `t`. -/
def cutFront (m : Memory) (node s t : Nat) : Memory :=
  let m := setSize m node s
  let m := setSize m (node + s) t
  let m := setPreceding m (node + s) (setAlloc s)
  setPreceding m (node + (s + t)) (keepAlloc t (preceding m (node + (s + t))))

section

variable {g : Nat} {σ : Site} {m : Memory} {s t : Nat}

theorem RepOf.cutFront {x : List Chunk} (R : RepOf g m (σ.fill x) (σ.others (s + t)))
    (hx : total x = s + t) (hs : ChunkOk ⟨s, false⟩) (ht : ChunkOk ⟨t, true⟩)
    (hp : preceding m σ.addr = precWord σ.prec false) (hlast : lastSize σ.prec x < 2 ^ 31) :
    RepOf g (Mm.cutFront m σ.addr s t) (σ.fill [⟨s, false⟩, ⟨t, true⟩]) (σ.others (s + t)) ∧
      Kept m (Mm.cutFront m σ.addr s t) ((σ.addr + s, ⟨t, true⟩) :: σ.others (s + t)) := by
  have hs8 : 8 ≤ s := hs.pos
  have ht8 : 8 ≤ t := ht.pos
  obtain ⟨hsize, hn, hkeep, hlt⟩ := R.behind_gap hx ht8 hlast
  have hlt₂ : precWord s true < 2 ^ 32 := precWord_lt (by omega)
  have hset : setAlloc s = precWord s true := setAlloc_precWord (b := false) (by omega)
  have hread : preceding (setPreceding (setSize (setSize m σ.addr s) (σ.addr + s) t) (σ.addr + s)
      (setAlloc s)) (σ.addr + (s + t)) = precWord (lastSize σ.prec x) σ.next.alloc := by
    rw [preceding_setPreceding_of_ne (by omega), preceding_setSize (by omega),
      preceding_setSize (by omega), hn]
  have hframe : ∀ y, σ.Outside (s + t) y ∨ (σ.addr + s + 8 ≤ y ∧ y < σ.addr + (s + t)) →
      Mm.cutFront m σ.addr s t y = m y := by
    intro y hy
    unfold Site.Outside at hy
    unfold Mm.cutFront
    rw [setPreceding_of_outside (by omega), setPreceding_of_outside (by omega),
      setSize_of_outside (by omega), setSize_of_outside (by omega)]
  have hcut : RepOf g (Mm.cutFront m σ.addr s t) (σ.fill [⟨s, false⟩, ⟨t, true⟩])
      (σ.others (s + t)) ∧ Kept m (Mm.cutFront m σ.addr s t) (σ.others (s + t)) := by
    apply R.retile_two hx rfl hs ht
    · exact fun y hy => hframe y (.inl hy)
    · unfold Mm.cutFront
      rw [nodeSize_setPreceding (by omega), nodeSize_setPreceding (by omega),
        nodeSize_setSize_of_ne (by omega), nodeSize_setSize (by omega)]
    · unfold Mm.cutFront
      rw [preceding_setPreceding_of_ne (by omega), preceding_setPreceding_of_ne (by omega),
        preceding_setSize (by omega), preceding_setSize (by omega), hp]
    · unfold Mm.cutFront
      rw [nodeSize_setPreceding (by omega), nodeSize_setPreceding (by omega),
        nodeSize_setSize (by omega)]
    · unfold Mm.cutFront
      rw [preceding_setPreceding_of_ne (by omega), hset, preceding_setPreceding hlt₂]
    · show preceding (Mm.cutFront m σ.addr s t) (σ.addr + (s + t)) = precWord t σ.next.alloc
      unfold Mm.cutFront
      dsimp only
      rw [hread, hkeep, preceding_setPreceding hlt]
  refine ⟨hcut.1, fun u hu ha y h1 h2 => ?_⟩
  rcases List.mem_cons.mp hu with rfl | hu
  · dsimp only at h1 h2
    exact hframe y (.inr (by omega))
  · exact hcut.2 u hu ha y h1 h2

theorem RepOf.cutFront_add {x : List Chunk} (R : RepOf g m (σ.fill x) (σ.others (s + t)))
    (hx : total x = s + t) (hs : ChunkOk ⟨s, false⟩) (ht : ChunkOk ⟨t, true⟩) (h16 : 16 ≤ s)
    (hp : preceding m σ.addr = precWord σ.prec false) (hlast : lastSize σ.prec x < 2 ^ 31) :
    ∃ m', Mm.mmAddfreechunk g (Mm.cutFront m σ.addr s t) σ.addr = some m' ∧
      Rep g m' (σ.fill [⟨s, false⟩, ⟨t, true⟩]) ∧
      Kept m m' ((σ.addr + s, ⟨t, true⟩) :: σ.others (s + t)) := by
  obtain ⟨R₁, k₁⟩ := R.cutFront hx hs ht hp hlast
  exact R₁.add_rest k₁ rfl (fun v => by simp) h16

end

/-- The gap after `t` bytes of the free chunk on its left went into it. -/
def Site.takeLeft (σ : Site) (t : Nat) : Site :=
  match σ.left.getLast? with
  | some ⟨p, false⟩ =>
      { σ with left := σ.left.dropLast ++ if t < p then [⟨p - t, false⟩] else [] }
  | _ => σ

def Site.takeRight (σ : Site) (t : Nat) : Site :=
  match σ.right with
  | ⟨n, false⟩ :: r => { σ with right := (if t < n then [⟨n - t, false⟩] else []) ++ r }
  | _ => σ

section

variable {g : Nat} {σ : Site} {m : Memory} {c p n t : Nat} {l r : List Chunk}

theorem Site.takeLeft_eq (h : σ.left = l ++ [⟨p, false⟩]) :
    σ.takeLeft t = { σ with left := l ++ if t < p then [⟨p - t, false⟩] else [] } := by
  simp [Site.takeLeft, h]

theorem Site.takeRight_eq (h : σ.right = ⟨n, false⟩ :: r) :
    σ.takeRight t = { σ with right := (if t < n then [⟨n - t, false⟩] else []) ++ r } := by
  simp [Site.takeRight, h]

theorem Site.takeLeft_addr (h : σ.left = l ++ [⟨p, false⟩]) (ht : t ≤ p) :
    (σ.takeLeft t).addr = σ.addr - t := by
  have ha := (Site.prec_concat h).2.1
  rw [Site.takeLeft_eq h]
  by_cases hlt : t < p
  · simp only [Site.addr, if_pos hlt, total_append, total_cons, total_nil] at ha ⊢
    omega
  · simp only [Site.addr, if_neg hlt, total_append, total_nil] at ha ⊢
    omega

theorem Site.takeRight_addr (σ : Site) (t : Nat) : (σ.takeRight t).addr = σ.addr := by
  rcases h : σ.right with _ | ⟨⟨n, b⟩, r⟩
  · simp [Site.takeRight, h]
  · cases b with
    | true => simp [Site.takeRight, h]
    | false => rw [Site.takeRight_eq h]; rfl

theorem Rep.takeprev (R : Rep g m (σ.fill [⟨c, true⟩])) (hleft : σ.left = l ++ [⟨p, false⟩])
    (ht8 : t % 8 = 0) (ht0 : 0 < t) (htp : t ≤ p) (hrest : t < p → 16 ≤ p - t) :
    ∃ m', Mm.reallocTakeprev g m (σ.addr - p) σ.addr (σ.addr + c) p c t =
        some (copyUp m' (σ.addr - t + 8) (σ.addr + 8) (c + t - 8), σ.addr - t) ∧
      Rep g m' ((σ.takeLeft t).fill [⟨c + t, true⟩]) ∧
      Kept m m' ((σ.addr, ⟨c, true⟩) :: σ.others c) := by
  have R₀ := R.open_alloc
  have haddr : σ.addr = Site.addr { σ with left := l } + p := (Site.prec_concat hleft).2.1
  have hc : ChunkOk ⟨c, true⟩ := R.layout.chunkOk (Site.mem_fill_one.mpr List.mem_cons_self)
  have hc8 : c % 8 = 0 := hc.mult
  have hcpos : 8 ≤ c := hc.pos
  obtain ⟨R₁, hk₁⟩ := R₀.unlink_left hleft
  have hp8 : p % 8 = 0 :=
    (R₁.layout.chunkOk (u := (Site.addr { σ with left := l }, ⟨p, false⟩))
      (Site.mem_blocks_fill.mpr (.inl List.mem_cons_self))).mult
  have k₁ := hk₁.mono fun u hu _ => Site.mem_fill_one.mpr hu
  obtain ⟨⟨h1, h2, _⟩, _, h6⟩ := site_tiles R₁.tiled
  have hgap := R₁.layout.gap
  simp only [total_cons, total_nil, lastSize_cons, lastSize_nil, Nat.add_zero] at h6 hgap
  have hothers : ∀ u ∈ σ.others c, u.2.alloc = true →
      u ∈ Site.others { σ with left := l } (p + c) := by
    intro u hu ha
    rcases (Site.mem_others_left hleft).mp hu with rfl | hu
    · cases ha
    · exact hu
  generalize hσ : ({ σ with left := l } : Site) = σ' at *
  have hprev : σ.addr - p = σ'.addr := by omega
  have hm₁ : Mm.unlink m (σ.addr - p) = Mm.unlink m σ'.addr := by rw [hprev]
  have hsz := hgap.size
  unfold Mm.reallocTakeprev
  dsimp only
  rw [hprev]
  by_cases hlt : t < p
  · obtain ⟨s, rfl⟩ : ∃ s, p = s + t := ⟨p - t, by omega⟩
    have hs16 := hrest hlt
    rw [Nat.add_sub_cancel] at hs16
    have hnew : σ.addr - t = σ'.addr + s := by omega
    have hnext : σ.addr + c = σ'.addr + (s + (c + t)) := by omega
    have htotal : s + t + c = s + (c + t) := by omega
    have hsok : ChunkOk ⟨s, false⟩ := by
      constructor
      · show s % 8 = 0
        omega
      · show 8 ≤ s
        omega
    have htok : ChunkOk ⟨c + t, true⟩ := by
      constructor
      · show (c + t) % 8 = 0
        omega
      · show 8 ≤ c + t
        omega
    rw [htotal] at R₁
    obtain ⟨m₂, e₂, R₂, k₂⟩ := R₁.cutFront_add (by simp [htotal]) hsok htok hs16 h2
      (by simp only [lastSize_cons, lastSize_nil]; omega)
    have hsz₁ : nodeSize (setSize (setSize (Mm.unlink m σ'.addr) σ'.addr s) (σ'.addr + s) (c + t))
        σ'.addr = s := by
      rw [nodeSize_setSize_of_ne (by omega), nodeSize_setSize (by omega)]
    have hsz₂ : nodeSize (setPreceding (setSize (setSize (Mm.unlink m σ'.addr) σ'.addr s)
        (σ'.addr + s) (c + t)) (σ'.addr + s) (setAlloc s)) (σ'.addr + s) = c + t := by
      rw [nodeSize_setPreceding (by omega), nodeSize_setSize (by omega)]
    have hsz₃ : nodeSize m₂ (σ'.addr + s) = c + t := by
      have h := (site_tiles R₂.tiled).1.2.2.1
      exact h
    refine ⟨m₂, ?_, ?_, k₁.trans ?_⟩
    · rw [if_pos hlt, hnew, hnext, h1, Nat.add_sub_cancel, hsz₁, hsz₂]
      show (Mm.mmAddfreechunk g (Mm.cutFront (Mm.unlink m σ'.addr) σ'.addr s (c + t))
        σ'.addr).bind _ = _
      rw [e₂, Option.bind_some, hsz₃]
    · have htake : σ.takeLeft t = { σ with left := l ++ [⟨s, false⟩] } := by
        rw [Site.takeLeft_eq hleft, if_pos hlt, Nat.add_sub_cancel]
      rw [htake, Site.fill_left _ l ⟨s, false⟩ rfl]
      show Rep g m₂ (Site.fill { σ with left := l } _)
      rw [hσ]
      exact R₂
    · have k₂' : Kept (Mm.unlink m σ'.addr) m₂ ((σ.addr, ⟨c, true⟩) :: σ'.others (s + (c + t))) :=
        k₂.narrow (by omega) (by omega)
      refine k₂'.mono fun u hu ha => ?_
      rcases List.mem_cons.mp hu with rfl | hu
      · exact List.mem_cons_self
      · have h := hothers u hu ha
        rw [htotal] at h
        exact List.mem_cons_of_mem _ h
  · obtain rfl : t = p := by omega
    have hnew : σ.addr - t = σ'.addr := by omega
    have hnext : σ.addr + c = σ'.addr + (t + c) := by omega
    obtain ⟨R₂, k₂⟩ := R₁.join
    obtain ⟨R₃, k₃⟩ := R₂.setFlag true
    have hprec : setAlloc (preceding (setSize (Mm.unlink m σ'.addr) σ'.addr (t + c)) σ'.addr) =
        precWord σ'.prec true := by
      rw [preceding_setSize (by omega), h2, setAlloc_precWord hgap.prec]
    have hsz₁ : nodeSize (setPreceding (setSize (Mm.unlink m σ'.addr) σ'.addr (t + c)) σ'.addr
        (precWord σ'.prec true)) σ'.addr = t + c := by
      rw [nodeSize_setPreceding (by omega), nodeSize_setSize (by omega)]
    have hword : preceding (setPreceding (setSize (Mm.unlink m σ'.addr) σ'.addr (t + c)) σ'.addr
        (precWord σ'.prec true)) (σ'.addr + (t + c)) =
        preceding (setSize (Mm.unlink m σ'.addr) σ'.addr (t + c)) (σ'.addr + (t + c)) := by
      rw [preceding_setPreceding_of_ne (by omega)]
    have hsz₃ : nodeSize (setPreceding (Mm.join (Mm.unlink m σ'.addr) σ'.addr t c) σ'.addr
        (precWord σ'.prec true)) σ'.addr = c + t := by
      rw [Nat.add_comm c t]
      exact (site_tiles R₃.tiled).1.1
    have htake : σ.takeLeft t = σ' := by
      rw [Site.takeLeft_eq hleft, if_neg hlt, List.append_nil, hσ]
    refine ⟨setPreceding (Mm.join (Mm.unlink m σ'.addr) σ'.addr t c) σ'.addr
      (precWord σ'.prec true), ?_, ?_, k₁.trans ?_⟩
    · rw [if_neg hlt, hnew, hnext, h1, hprec, hsz₁, hword,
        setPreceding_comm (by omega : σ'.addr + 4 ≤ σ'.addr + (t + c) ∨ _)]
      show Option.bind (some (setPreceding (Mm.join (Mm.unlink m σ'.addr) σ'.addr t c) σ'.addr
        (precWord σ'.prec true))) _ = _
      rw [Option.bind_some, hsz₃]
    · rw [htake, Nat.add_comm c t]
      exact R₃.close_alloc
    · have k₃' : Kept (Mm.unlink m σ'.addr) (setPreceding (Mm.join (Mm.unlink m σ'.addr) σ'.addr t c)
          σ'.addr (precWord σ'.prec true)) ((σ.addr, ⟨c, true⟩) :: σ'.others (t + c)) :=
        (k₂.trans k₃).narrow (by omega) (by omega)
      refine k₃'.mono fun u hu ha => ?_
      rcases List.mem_cons.mp hu with rfl | hu
      · exact List.mem_cons_self
      · exact List.mem_cons_of_mem _ (hothers u hu ha)

theorem Site.mem_takeLeft {u : Nat × Chunk} (hleft : σ.left = l ++ [⟨p, false⟩]) (htp : t ≤ p)
    (ha : u.2.alloc = true) : u ∈ (σ.takeLeft t).others (c + t) ↔ u ∈ σ.others c := by
  have haddr := Site.takeLeft_addr hleft htp
  have hpa : σ.addr = Site.addr { σ with left := l } + p := (Site.prec_concat hleft).2.1
  have he : (σ.takeLeft t).addr + (c + t) = σ.addr + c := by
    rw [haddr]
    omega
  have hfree : ∀ a k, u ∉ place a (if t < p then [⟨p - t, false⟩] else []) ∧
      u ∉ place k [(⟨p, false⟩ : Chunk)] := by
    intro a k
    constructor
    · split
      · rw [place_cons, place_nil, List.mem_singleton]
        rintro rfl
        cases ha
      · exact List.not_mem_nil
    · rw [place_cons, place_nil, List.mem_singleton]
      rintro rfl
      cases ha
  rw [Site.takeLeft_eq hleft] at he ⊢
  simp only [Site.others, hleft, place_append, List.mem_append, (hfree _ 0).1, (hfree 0 _).2,
    or_false, he]

theorem Site.mem_takeRight {u : Nat × Chunk} (hright : σ.right = ⟨n, false⟩ :: r) (htn : t ≤ n)
    (ha : u.2.alloc = true) : u ∈ (σ.takeRight t).others (c + t) ↔ u ∈ σ.others c := by
  have hrest : u ∈ σ.others c ↔ u ∈ Site.others { σ with right := r } (c + n) := by
    rw [Site.mem_others_right hright]
    refine ⟨fun h => ?_, .inr⟩
    rcases h with rfl | h
    · cases ha
    · exact h
  rw [hrest, Site.takeRight_eq hright]
  by_cases hlt : t < n
  · have he : c + t + (n - t) = c + n := by omega
    have hmem := Site.mem_others_right (σ := { σ with right := ⟨n - t, false⟩ :: r }) (u := u)
      (k := c + t) rfl
    simp only [if_pos hlt, List.singleton_append, hmem, he]
    refine ⟨fun h => ?_, .inr⟩
    rcases h with rfl | h
    · cases ha
    · exact h
  · rw [if_neg hlt, List.nil_append]
    have he : t = n := by omega
    rw [he]

theorem Rep.reallocTakeprev (R : Rep g m (σ.fill [⟨c, true⟩]))
    (hleft : σ.left = l ++ [⟨p, false⟩]) (ht8 : t % 8 = 0) (ht0 : 0 < t) (htp : t ≤ p)
    (hrest : t < p → 16 ≤ p - t) :
    ∃ m', Mm.reallocTakeprev g m (σ.addr - p) σ.addr (σ.addr + c) p c t =
        some (m', (σ.takeLeft t).addr) ∧
      Rep g m' ((σ.takeLeft t).fill [⟨c + t, true⟩]) ∧ Kept m m' (σ.others c) ∧
      ∀ i < c - 8, m' ((σ.takeLeft t).addr + 8 + i) = m (σ.addr + 8 + i) := by
  have hc : ChunkOk ⟨c, true⟩ := R.layout.chunkOk (Site.mem_fill_one.mpr List.mem_cons_self)
  have hcpos : 8 ≤ c := hc.pos
  have hbase := R.layout.gap.prec_le
  have haddr := Site.takeLeft_addr hleft htp
  have hpa : σ.addr = Site.addr { σ with left := l } + p := (Site.prec_concat hleft).2.1
  obtain ⟨m₁, e₁, R₁, k₁⟩ := R.takeprev hleft ht8 ht0 htp hrest
  have hu : ((σ.takeLeft t).addr, (⟨c + t, true⟩ : Chunk)) ∈
      blocks ((σ.takeLeft t).fill [⟨c + t, true⟩]) := Site.mem_fill_one.mpr List.mem_cons_self
  have hframe : ∀ x, x < (σ.takeLeft t).addr + 8 ∨ (σ.takeLeft t).addr + (c + t) ≤ x →
      copyUp m₁ (σ.addr - t + 8) (σ.addr + 8) (c + t - 8) x = m₁ x := by
    intro x hx
    rw [haddr] at hx
    exact copyUp_of_outside (by omega)
  obtain ⟨R₂, k₂⟩ := R₁.write hu rfl hframe
  refine ⟨_, by rw [e₁, haddr], R₂, ?_, ?_⟩
  · refine (k₁.mono fun u hu _ => List.mem_cons_of_mem _ hu).trans fun u hu ha x h1 h2 => ?_
    have hmem := (Site.mem_takeLeft hleft htp ha).mpr hu
    apply k₂ u (Site.others_sub rfl u hmem) _ x h1 h2
    rintro rfl
    exact R₁.layout.not_others (Nat.le_refl _)
      (by simp only [total_cons, total_nil]; omega) hmem
  · intro i hi
    rw [haddr, copyUp_apply (by omega) (by omega)]
    apply k₁ (σ.addr, ⟨c, true⟩) List.mem_cons_self rfl
    · show σ.addr + 8 ≤ σ.addr + 8 + i
      omega
    · show σ.addr + 8 + i < σ.addr + c
      omega

theorem Rep.reallocTakenext (R : Rep g m (σ.fill [⟨c, true⟩]))
    (hright : σ.right = ⟨n, false⟩ :: r) (ht8 : t % 8 = 0) (ht0 : 0 < t) (htn : t ≤ n)
    (hrest : t < n → 16 ≤ n - t) :
    ∃ m', Mm.reallocTakenext g m σ.addr (σ.addr + c) n c t = some m' ∧
      Rep g m' ((σ.takeRight t).fill [⟨c + t, true⟩]) ∧
      Kept m m' ((σ.addr, ⟨c, true⟩) :: σ.others c) := by
  have R₀ := R.open_alloc
  have hc : ChunkOk ⟨c, true⟩ := R.layout.chunkOk (Site.mem_fill_one.mpr List.mem_cons_self)
  have hc8 : c % 8 = 0 := hc.mult
  have hcpos : 8 ≤ c := hc.pos
  obtain ⟨R₁, hk₁⟩ := R₀.unlink_right hright
  have hn8 : n % 8 = 0 :=
    (R₁.layout.chunkOk (u := (σ.addr + c, ⟨n, false⟩))
      (Site.mem_blocks_fill.mpr (.inl (by simp [Site.addr])))).mult
  have k₁ := hk₁.mono fun u hu _ => Site.mem_fill_one.mpr hu
  obtain ⟨⟨h1, h2, _⟩, _, h6⟩ := site_tiles R₁.tiled
  have hgap := R₁.layout.gap
  simp only [total_cons, total_nil, lastSize_cons, lastSize_nil, Nat.add_zero] at h6 hgap
  have hsz := hgap.size
  have hothers : ∀ u ∈ σ.others c, u.2.alloc = true →
      u ∈ Site.others { σ with right := r } (c + n) := by
    intro u hu ha
    rcases (Site.mem_others_right hright).mp hu with rfl | hu
    · cases ha
    · exact hu
  have hnext : σ.addr + c + n = σ.addr + (c + n) := Nat.add_assoc _ _ _
  have hsz₁ : nodeSize (setSize (Mm.unlink m (σ.addr + c)) σ.addr (c + t)) σ.addr = c + t :=
    nodeSize_setSize (by omega)
  unfold Mm.reallocTakenext
  dsimp only
  rw [hsz₁, hnext]
  by_cases hlt : t < n
  · obtain ⟨s, rfl⟩ : ∃ s, n = t + s := ⟨n - t, by omega⟩
    have hs16 := hrest hlt
    rw [Nat.add_sub_cancel_left] at hs16 ⊢
    have hsok : ChunkOk ⟨s, false⟩ := by
      constructor
      · show s % 8 = 0
        omega
      · show 8 ≤ s
        omega
    have htok : ChunkOk ⟨c + t, true⟩ := by
      constructor
      · show (c + t) % 8 = 0
        omega
      · show 8 ≤ c + t
        omega
    have htotal : c + (t + s) = c + t + s := (Nat.add_assoc _ _ _).symm
    have hlast : lastSize (Site.prec { σ with right := r }) [⟨c, true⟩, ⟨t + s, false⟩] < 2 ^ 31 := by
      show t + s < 2 ^ 31
      omega
    rw [htotal] at R₁ ⊢
    obtain ⟨m₂, e₂, R₂, k₂⟩ := R₁.cut_add (by simp [htotal]) htok hsok hs16 h2 hlast
    have hword : nodeSize (setSize (setSize (Mm.unlink m (σ.addr + c)) σ.addr (c + t))
        (σ.addr + (c + t)) s) σ.addr = c + t := by
      rw [nodeSize_setSize_of_ne (by omega), hsz₁]
    have hcomm : setPreceding (setSize (setSize (Mm.unlink m (σ.addr + c)) σ.addr (c + t))
        (σ.addr + (c + t)) s) (σ.addr + (c + t)) (c + t) =
        setSize (setPreceding (setSize (Mm.unlink m (σ.addr + c)) (σ.addr + (c + t)) s)
          (σ.addr + (c + t)) (c + t)) σ.addr (c + t) := by
      rw [setSize_comm (by omega), setPreceding_setSize_comm (by omega)]
    have hsz₂ : nodeSize (setSize (setPreceding (setSize (Mm.unlink m (σ.addr + c))
        (σ.addr + (c + t)) s) (σ.addr + (c + t)) (c + t)) σ.addr (c + t)) (σ.addr + (c + t)) = s := by
      rw [nodeSize_setSize_of_ne (by omega), nodeSize_setPreceding (by omega),
        nodeSize_setSize (by omega)]
    refine ⟨m₂, ?_, ?_, ?_⟩
    · rw [if_pos hlt, hword, hcomm, hsz₂]
      exact e₂
    · have htake : σ.takeRight t = { σ with right := ⟨s, false⟩ :: r } := by
        rw [Site.takeRight_eq hright, if_pos hlt, Nat.add_sub_cancel_left]
        rfl
      rw [htake, Site.fill_right _ r ⟨s, false⟩ rfl]
      exact R₂
    · have k₂' : Kept (Mm.unlink m (σ.addr + c)) m₂
          ((σ.addr, ⟨c, true⟩) :: Site.others { σ with right := r } (c + t + s)) :=
        k₂.narrow (Nat.le_refl _) (by show σ.addr + c ≤ σ.addr + (c + t); omega)
      refine k₁.trans (k₂'.mono fun u hu ha => ?_)
      rcases List.mem_cons.mp hu with rfl | hu
      · exact List.mem_cons_self
      · have h := hothers u hu ha
        rw [htotal] at h
        exact List.mem_cons_of_mem _ h
  · obtain rfl : t = n := by omega
    obtain ⟨R₂, k₂⟩ := R₁.join
    have htake : σ.takeRight t = { σ with right := r } := by
      rw [Site.takeRight_eq hright, if_neg hlt, List.nil_append]
    refine ⟨Mm.join (Mm.unlink m (σ.addr + c)) σ.addr c t, ?_, ?_, ?_⟩
    · rw [if_neg hlt]
      rfl
    · rw [htake]
      exact R₂.close_alloc
    · have k₂' : Kept (Mm.unlink m (σ.addr + c)) (Mm.join (Mm.unlink m (σ.addr + c)) σ.addr c t)
          ((σ.addr, ⟨c, true⟩) :: Site.others { σ with right := r } (c + t)) :=
        k₂.narrow (Nat.le_refl _) (by show σ.addr + c ≤ σ.addr + (c + t); omega)
      refine k₁.trans (k₂'.mono fun u hu ha => ?_)
      rcases List.mem_cons.mp hu with rfl | hu
      · exact List.mem_cons_self
      · exact List.mem_cons_of_mem _ (hothers u hu ha)

end

end NuttxAvr32.Mm
