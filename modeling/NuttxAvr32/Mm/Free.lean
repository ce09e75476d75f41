import NuttxAvr32.Mm.Malloc

/-! # What `free` does to the heap

`free` clears the flag of the chunk, merges it with the free chunks on both
sides and links the result in.
-/

namespace NuttxAvr32.Mm

open ByteMemory

/-- The gap widened by the free chunk on its right, if there is one. -/
def Site.mergeRight (σ : Site) (s : Nat) : Site × Nat :=
  match σ.right with
  | ⟨n, false⟩ :: r => ({ σ with right := r }, s + n)
  | _ => (σ, s)

def Site.mergeLeft (σ : Site) (s : Nat) : Site × Nat :=
  match σ.left.getLast? with
  | some ⟨p, false⟩ => ({ σ with left := σ.left.dropLast }, p + s)
  | _ => (σ, s)

def Site.merge (σ : Site) (s : Nat) : Site × Nat :=
  (σ.mergeRight s).1.mergeLeft (σ.mergeRight s).2

theorem Site.next_cases (σ : Site) :
    (σ.next.alloc = true ∧ ∀ s, σ.mergeRight s = (σ, s)) ∨
      ∃ n r, σ.right = ⟨n, false⟩ :: r ∧ σ.next = ⟨n, false⟩ ∧
        ∀ s, σ.mergeRight s = ({ σ with right := r }, s + n) := by
  rcases h : σ.right with _ | ⟨⟨n, b⟩, r⟩
  · exact .inl ⟨by simp [Site.next, h, guard], by simp [Site.mergeRight, h]⟩
  · cases b with
    | true => exact .inl ⟨by simp [Site.next, h], by simp [Site.mergeRight, h]⟩
    | false => exact .inr ⟨n, r, rfl, by simp [Site.next, h], by simp [Site.mergeRight, h]⟩

theorem Site.prev_cases (σ : Site) :
    (σ.prevAlloc = true ∧ ∀ s, σ.mergeLeft s = (σ, s)) ∨
      ∃ p l, σ.left = l ++ [⟨p, false⟩] ∧ σ.prevAlloc = false ∧ σ.prec = p ∧
        ∀ s, σ.mergeLeft s = ({ σ with left := l }, p + s) := by
  rcases List.eq_nil_or_concat σ.left with h | ⟨l, ⟨p, b⟩, h⟩
  · exact .inl ⟨by simp [Site.prevAlloc, h], by simp [Site.mergeLeft, h]⟩
  · rw [List.concat_eq_append] at h
    obtain ⟨h1, _, h3⟩ := Site.prec_concat h
    cases b with
    | true => exact .inl ⟨h3, by simp [Site.mergeLeft, h]⟩
    | false => exact .inr ⟨p, l, h, h3, h1, by simp [Site.mergeLeft, h]⟩

def join (m : Memory) (node s t : Nat) : Memory :=
  let m := setSize m node (s + t)
  setPreceding m (node + (s + t)) (keepAlloc (s + t) (preceding m (node + (s + t))))

section

variable {g : Nat} {σ : Site} {m : Memory} {s t : Nat} {b b' : Bool}

theorem RepOf.join (R : RepOf g m (σ.fill [⟨s, b⟩, ⟨t, b'⟩]) (σ.others (s + t))) :
    RepOf g (Mm.join m σ.addr s t) (σ.fill [⟨s + t, b⟩]) (σ.others (s + t)) ∧
      Kept m (Mm.join m σ.addr s t) ((σ.addr, ⟨s + t, true⟩) :: σ.others (s + t)) := by
  have hgap := R.layout.gap
  have hsize : s + t + 16 < 2 ^ 31 := hgap.size
  have hs := R.layout.chunkOk (Site.mem_blocks_fill.mpr (.inl List.mem_cons_self))
  have ht := R.layout.chunkOk
    (Site.mem_blocks_fill.mpr (.inl (List.mem_cons_of_mem _ (List.mem_singleton.mpr rfl))))
  have hs8 : 8 ≤ s := hs.pos
  have hsm : s % 8 = 0 := hs.mult
  have htm : t % 8 = 0 := ht.mult
  obtain ⟨⟨_, hp, _⟩, _, hn⟩ := site_tiles R.tiled
  simp only [total_cons, total_nil, lastSize_cons, lastSize_nil, Nat.add_zero] at hn
  have hkeep : keepAlloc (s + t) (precWord t σ.next.alloc) = precWord (s + t) σ.next.alloc :=
    keepAlloc_precWord (by omega) (by omega)
  have hlt : precWord (s + t) σ.next.alloc < 2 ^ 32 := precWord_lt (by omega)
  have hread : preceding (setSize m σ.addr (s + t)) (σ.addr + (s + t)) =
      precWord t σ.next.alloc := by
    rw [preceding_setSize (by omega), hn]
  have hok : ChunkOk ⟨s + t, b⟩ := by
    constructor
    · show (s + t) % 8 = 0
      omega
    · show 8 ≤ s + t
      omega
  have hframe : ∀ y, y < σ.addr ∨ (σ.addr + 8 ≤ y ∧ y < σ.addr + (s + t) + 4) ∨
      σ.addr + (s + t) + 8 ≤ y → Mm.join m σ.addr s t y = m y := by
    intro y hy
    unfold Mm.join
    rw [setPreceding_of_outside (by omega), setSize_of_outside (by omega)]
  have hjoin : RepOf g (Mm.join m σ.addr s t) (σ.fill [⟨s + t, b⟩]) (σ.others (s + t)) ∧
      Kept m (Mm.join m σ.addr s t) (σ.others (s + t)) := by
    apply R.retile_one rfl hok
    · intro y hy
      unfold Site.Outside at hy
      exact hframe y (by omega)
    · unfold Mm.join
      rw [nodeSize_setPreceding (by omega), nodeSize_setSize (by omega)]
    · unfold Mm.join
      rw [preceding_setPreceding_of_ne (by omega), preceding_setSize (by omega), hp]
    · unfold Mm.join
      dsimp only
      rw [hread, hkeep, preceding_setPreceding hlt]
  refine ⟨hjoin.1, fun u hu ha y h1 h2 => ?_⟩
  rcases List.mem_cons.mp hu with rfl | hu
  · dsimp only at h1 h2
    exact hframe y (by omega)
  · exact hjoin.2 u hu ha y h1 h2

theorem RepOf.unlink_right {k : Chunk} {r : List Chunk} {n : Nat}
    (R : RepOf g m (σ.fill [k]) (σ.others k.size)) (h : σ.right = ⟨n, false⟩ :: r) :
    RepOf g (Mm.unlink m (σ.addr + k.size)) (Site.fill { σ with right := r } [k, ⟨n, false⟩])
        (Site.others { σ with right := r } (k.size + n)) ∧
      Kept m (Mm.unlink m (σ.addr + k.size)) (blocks (σ.fill [k])) := by
  rw [σ.fill_right r ⟨n, false⟩ h [k]] at R
  have hn : 8 ≤ n :=
    (R.layout.chunkOk (u := (σ.addr + k.size, ⟨n, false⟩))
      (Site.mem_blocks_fill.mpr (.inl (by simp [Site.addr])))).pos
  have hnot : (σ.addr + k.size, (⟨n, false⟩ : Chunk)) ∉
      Site.others { σ with right := r } (k.size + n) := by
    apply R.layout.not_others
    · show σ.addr ≤ σ.addr + k.size
      omega
    · show σ.addr + k.size < σ.addr + (k.size + (n + 0))
      omega
  obtain ⟨R₁, f₁⟩ := R.unlink (u := (σ.addr + k.size, ⟨n, false⟩)) rfl
    (fun v => Site.mem_others_right h) hnot
  refine ⟨R₁, ?_⟩
  rw [σ.fill_right r ⟨n, false⟩ h [k]]
  exact R₁.kept f₁

theorem RepOf.unlink_left {k : Chunk} {l : List Chunk} {p : Nat}
    (R : RepOf g m (σ.fill [k]) (σ.others k.size)) (h : σ.left = l ++ [⟨p, false⟩]) :
    RepOf g (Mm.unlink m (Site.addr { σ with left := l }))
        (Site.fill { σ with left := l } [⟨p, false⟩, k])
        (Site.others { σ with left := l } (p + k.size)) ∧
      Kept m (Mm.unlink m (Site.addr { σ with left := l })) (blocks (σ.fill [k])) := by
  rw [σ.fill_left l ⟨p, false⟩ h [k]] at R
  have hp : 8 ≤ p :=
    (R.layout.chunkOk (u := (Site.addr { σ with left := l }, ⟨p, false⟩))
      (Site.mem_blocks_fill.mpr (.inl (by simp)))).pos
  have hnot : (Site.addr { σ with left := l }, (⟨p, false⟩ : Chunk)) ∉
      Site.others { σ with left := l } (p + k.size) := by
    apply R.layout.not_others (x := [⟨p, false⟩, k])
    · exact Nat.le_refl _
    · simp only [total_cons, total_nil]
      omega
  obtain ⟨R₁, f₁⟩ := R.unlink (u := (Site.addr { σ with left := l }, ⟨p, false⟩)) rfl
    (fun v => Site.mem_others_left h) hnot
  refine ⟨R₁, ?_⟩
  rw [σ.fill_left l ⟨p, false⟩ h [k]]
  exact R₁.kept f₁

theorem RepOf.freeMergeNext (R : RepOf g m (σ.fill [⟨s, false⟩]) (σ.others s)) :
    ∃ m', Mm.freeMergeNext m σ.addr = (m', σ.addr + (σ.mergeRight s).2) ∧
      RepOf g m' ((σ.mergeRight s).1.fill [⟨(σ.mergeRight s).2, false⟩])
        ((σ.mergeRight s).1.others (σ.mergeRight s).2) ∧
      Kept m m' (σ.others s) := by
  obtain ⟨⟨hs, _, _⟩, hns, hn⟩ := site_tiles R.tiled
  simp only [total_cons, total_nil, lastSize_cons, lastSize_nil, Nat.add_zero] at hn hns
  have hs' : nodeSize m σ.addr = s := hs
  have hsize : s + 16 < 2 ^ 31 := R.layout.gap.size
  have hflag : isAllocated (preceding m (σ.addr + s)) = σ.next.alloc := by
    rw [hn, isAllocated_precWord (by omega)]
  unfold Mm.freeMergeNext
  dsimp only
  rw [hs', hflag]
  rcases σ.next_cases with ⟨ha, hm⟩ | ⟨n, r, hright, hnext, hm⟩
  · rw [if_pos ha, hm]
    exact ⟨m, rfl, R, Kept.refl _ _⟩
  · have hns' : nodeSize m (σ.addr + s) = n := by rw [hns, hnext]
    obtain ⟨R₁, hk₁⟩ := R.unlink_right hright
    have k₁ := hk₁.mono fun u hu _ => Site.others_sub rfl u hu
    obtain ⟨⟨h1, _, h3, _⟩, _⟩ := site_tiles R₁.tiled
    have h1' : nodeSize (Mm.unlink m (σ.addr + s)) σ.addr = s := h1
    have h3' : nodeSize (Mm.unlink m (σ.addr + s)) (σ.addr + s) = n := h3
    obtain ⟨R₂, k₂⟩ := R₁.join
    have hgap := R₂.layout.gap
    have hsize₂ : s + n + 16 < 2 ^ 31 := hgap.size
    have h4 : nodeSize (setSize (Mm.unlink m (σ.addr + s)) σ.addr (s + n)) σ.addr = s + n :=
      nodeSize_setSize (by omega)
    rw [hnext, hm, if_neg (by simp), hns', h1', h3', h4]
    refine ⟨Mm.join (Mm.unlink m (σ.addr + s)) σ.addr s n, ?_, R₂, k₁.trans (k₂.mono ?_)⟩
    · rw [Nat.add_assoc]
      rfl
    · intro u hu ha
      rcases (Site.mem_others_right hright).mp hu with rfl | hu
      · cases ha
      · exact List.mem_cons_of_mem _ hu

theorem RepOf.freeMergePrev (R : RepOf g m (σ.fill [⟨s, false⟩]) (σ.others s)) :
    ∃ m', Mm.freeMergePrev m σ.addr (σ.addr + s) = (m', (σ.mergeLeft s).1.addr) ∧
      RepOf g m' ((σ.mergeLeft s).1.fill [⟨(σ.mergeLeft s).2, false⟩])
        ((σ.mergeLeft s).1.others (σ.mergeLeft s).2) ∧
      Kept m m' (σ.others s) := by
  obtain ⟨⟨_, hp, _⟩, _⟩ := site_tiles R.tiled
  have hp' : preceding m σ.addr = σ.prec := hp
  obtain ⟨_, hflag⟩ := site_prev R.tiled R.layout
  unfold Mm.freeMergePrev
  dsimp only
  rw [hp', hflag]
  rcases σ.prev_cases with ⟨ha, hm⟩ | ⟨p, l, hleft, ha, hprec, hm⟩
  · rw [if_pos ha, hm]
    exact ⟨m, rfl, R, Kept.refl _ _⟩
  · have haddr : σ.addr = Site.addr { σ with left := l } + p := (Site.prec_concat hleft).2.1
    have hprev : σ.addr - σ.prec = Site.addr { σ with left := l } := by omega
    obtain ⟨R₁, hk₁⟩ := R.unlink_left hleft
    have k₁ := hk₁.mono fun u hu _ => Site.others_sub rfl u hu
    obtain ⟨⟨h1, _, h3, _⟩, _⟩ := site_tiles R₁.tiled
    have h3' : nodeSize (Mm.unlink m (Site.addr { σ with left := l })) σ.addr = s := by
      rw [haddr]
      exact h3
    obtain ⟨R₂, k₂⟩ := R₁.join
    have hgap := R₂.layout.gap
    have hsize₂ : p + s + 16 < 2 ^ 31 := hgap.size
    have h4 : nodeSize (setSize (Mm.unlink m (Site.addr { σ with left := l }))
        (Site.addr { σ with left := l }) (p + s)) (Site.addr { σ with left := l }) = p + s :=
      nodeSize_setSize (by omega)
    rw [ha, hm, hprev, if_neg (by simp), h1, h3', h4, haddr]
    refine ⟨Mm.join (Mm.unlink m (Site.addr { σ with left := l }))
      (Site.addr { σ with left := l }) p s, ?_, R₂, k₁.trans (k₂.mono ?_)⟩
    · rw [Nat.add_assoc]
      rfl
    · intro u hu hua
      rcases (Site.mem_others_left hleft).mp hu with rfl | hu
      · cases hua
      · exact List.mem_cons_of_mem _ hu

end

section

variable {g : Nat} {σ : Site} {m : Memory} {s : Nat}

theorem Site.mergeRight_addr (σ : Site) (s : Nat) : (σ.mergeRight s).1.addr = σ.addr := by
  rcases σ.next_cases with ⟨_, hm⟩ | ⟨n, r, _, _, hm⟩
  · rw [hm]
  · rw [hm]
    rfl

theorem Site.mem_mergeRight {u : Nat × Chunk} (ha : u.2.alloc = true) :
    u ∈ (σ.mergeRight s).1.others (σ.mergeRight s).2 ↔ u ∈ σ.others s := by
  rcases σ.next_cases with ⟨_, hm⟩ | ⟨n, r, hright, _, hm⟩
  · rw [hm]
  · rw [hm, Site.mem_others_right hright]
    refine ⟨.inr, fun h => ?_⟩
    rcases h with rfl | h
    · cases ha
    · exact h

theorem Site.mem_mergeLeft {u : Nat × Chunk} (ha : u.2.alloc = true) :
    u ∈ (σ.mergeLeft s).1.others (σ.mergeLeft s).2 ↔ u ∈ σ.others s := by
  rcases σ.prev_cases with ⟨_, hm⟩ | ⟨p, l, hleft, _, _, hm⟩
  · rw [hm]
  · rw [hm, Site.mem_others_left hleft]
    refine ⟨.inr, fun h => ?_⟩
    rcases h with rfl | h
    · cases ha
    · exact h

theorem Site.mem_merge {u : Nat × Chunk} (ha : u.2.alloc = true) :
    u ∈ (σ.merge s).1.others (σ.merge s).2 ↔ u ∈ σ.others s :=
  (Site.mem_mergeLeft ha).trans (Site.mem_mergeRight ha)

theorem free_eq {node next node' : Nat} {m₁ m₂ m₃ : Memory}
    (h₁ : setPreceding m node (clearAlloc (preceding m node)) = m₁)
    (h₂ : Mm.freeMergeNext m₁ node = (m₂, next)) (h₃ : Mm.freeMergePrev m₂ node next = (m₃, node')) :
    Mm.free g m (node + 8) = Mm.mmAddfreechunk g m₃ node' := by
  subst h₁
  have hne : ¬ node + 8 = 0 := by omega
  rw [Mm.free, if_neg hne]
  dsimp only
  rw [Nat.add_sub_cancel, h₂, h₃]

/-- A chunk is freed when its merger with the free chunks around it holds a free node. -/
theorem Rep.free (R : Rep g m (σ.fill [⟨s, true⟩])) (h16 : 16 ≤ (σ.merge s).2) :
    ∃ m', Mm.free g m (σ.addr + 8) = some m' ∧
      Rep g m' ((σ.merge s).1.fill [⟨(σ.merge s).2, false⟩]) ∧ Kept m m' (σ.others s) := by
  unfold Site.merge at h16 ⊢
  have R₀ := R.open_alloc
  obtain ⟨⟨_, hp, _⟩, _⟩ := site_tiles R₀.tiled
  have hclear : clearAlloc (preceding m σ.addr) = precWord σ.prec false := by
    rw [hp, clearAlloc_precWord R.layout.gap.prec]
  obtain ⟨R₁, k₁⟩ := R₀.setFlag false
  obtain ⟨m₂, e₂, R₂, k₂⟩ := R₁.freeMergeNext
  obtain ⟨m₃, e₃, R₃, k₃⟩ := R₂.freeMergePrev
  rw [Site.mergeRight_addr] at e₃
  obtain ⟨m₄, e₄, R₄, k₄⟩ := R₃.add_gap (List.mem_singleton.mpr rfl) h16
  have k₁' := k₁.mono fun u hu _ => List.mem_cons_of_mem _ hu
  refine ⟨m₄, ?_, ?_, ?_⟩
  · rw [← e₄]
    exact free_eq (by rw [hclear]) e₂ e₃
  · refine R₄.close fun u _ => ?_
    rw [List.mem_cons, place_cons, place_nil, List.mem_singleton]
  · refine ((k₁'.trans k₂).trans (k₃.mono fun u hu ha => ?_)).trans (k₄.mono fun u hu ha => ?_)
    · exact (Site.mem_mergeRight ha).mpr hu
    · exact Site.mem_blocks_fill.mpr
        (.inr ((Site.mem_merge ha).mpr hu))

theorem free_null (g : Nat) (m : Memory) : Mm.free g m 0 = some m := if_pos rfl

end

end NuttxAvr32.Mm
