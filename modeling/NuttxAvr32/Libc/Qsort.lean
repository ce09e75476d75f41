import NuttxAvr32.Lib.Rearranged

/-! # Sorting

`qsort` on an array whose size in bytes fits in an `int`. A pointer is the index of an element, and
`swap` exchanges two elements whatever `swaptype` says of their representation.
-/

namespace NuttxAvr32.Qsort

variable {α : Type}

section

variable (compar : α → α → Int)

def med3 (m : Nat → α) (a b c : Nat) : Nat :=
  if compar (m a) (m b) < 0 then
    if compar (m b) (m c) < 0 then b else if compar (m a) (m c) < 0 then c else a
  else if compar (m b) (m c) > 0 then b
  else if compar (m a) (m c) < 0 then a else c

/-- The inner loop of the insertion sort, from `pl` down. -/
def sink (base : Nat) : Nat → (Nat → α) → Nat → α
  | 0, m => m
  | pl + 1, m =>
    if base < pl + 1 ∧ compar (m pl) (m (pl + 1)) > 0 then sink base pl (swap m (pl + 1) pl)
    else m

def insertionSort (base pn pm : Nat) (m : Nat → α) : Nat → α :=
  if pm < pn then insertionSort base pn (pm + 1) (sink compar base pm m) else m
termination_by pn - pm

/-- The variables of the partition; `pb` starts behind the pivot. -/
structure Pass (α : Type) where
  m : Nat → α
  pa : Nat
  pb : Nat
  pc : Nat
  pd : Nat
  swapCnt : Nat
  pb_pos : 0 < pb

def scanUp (base : Nat) (s : Pass α) : Pass α :=
  if s.pb ≤ s.pc ∧ compar (s.m s.pb) (s.m base) ≤ 0 then
    if compar (s.m s.pb) (s.m base) = 0 then
      scanUp base { s with
        m := swap s.m s.pa s.pb, pa := s.pa + 1, pb := s.pb + 1, swapCnt := 1, pb_pos := by omega }
    else scanUp base { s with pb := s.pb + 1, pb_pos := by omega }
  else s
termination_by s.pc + 1 - s.pb

def scanDown (base : Nat) (s : Pass α) : Pass α :=
  if s.pb ≤ s.pc ∧ compar (s.m s.pc) (s.m base) ≥ 0 then
    if compar (s.m s.pc) (s.m base) = 0 then
      scanDown base { s with
        m := swap s.m s.pc s.pd, pc := s.pc - 1, pd := s.pd - 1, swapCnt := 1 }
    else scanDown base { s with pc := s.pc - 1 }
  else s
termination_by s.pc
decreasing_by all_goals have := s.pb_pos; omega

theorem scanUp_pc (base : Nat) (s : Pass α) :
    (scanUp compar base s).pc = s.pc ∧ s.pb ≤ (scanUp compar base s).pb := by
  fun_induction scanUp compar base s with
  | case1 s _ _ ih => exact ⟨ih.1, by have := ih.2; simp only at this; omega⟩
  | case2 s _ _ ih => exact ⟨ih.1, by have := ih.2; simp only at this; omega⟩
  | case3 s => exact ⟨rfl, Nat.le_refl _⟩

theorem scanDown_pc (base : Nat) (s : Pass α) :
    (scanDown compar base s).pc ≤ s.pc ∧ (scanDown compar base s).pb = s.pb := by
  fun_induction scanDown compar base s with
  | case1 s _ _ ih => exact ⟨by have := ih.1; simp only at this; omega, ih.2⟩
  | case2 s _ _ ih => exact ⟨by have := ih.1; simp only at this; omega, ih.2⟩
  | case3 s => exact ⟨Nat.le_refl _, rfl⟩

def scans (base : Nat) (s : Pass α) : Pass α := scanDown compar base (scanUp compar base s)

theorem scans_pc (base : Nat) (s : Pass α) :
    (scans compar base s).pc ≤ s.pc ∧ s.pb ≤ (scans compar base s).pb := by
  have hup := scanUp_pc compar base s
  have hdown := scanDown_pc compar base (scanUp compar base s)
  unfold scans
  omega

def partition (base : Nat) (s : Pass α) : Pass α :=
  let t := scans compar base s
  if t.pb > t.pc then t
  else partition base { t with
    m := swap t.m t.pb t.pc, swapCnt := 1, pb := t.pb + 1, pc := t.pc - 1, pb_pos := by omega }
termination_by s.pc + 1 - s.pb
decreasing_by
  have hle : (scans compar base s).pb ≤ (scans compar base s).pc := Nat.le_of_not_gt ‹_›
  have := scans_pc compar base s
  have := (scans compar base s).pb_pos
  omega

def pivot (m : Nat → α) (base nmemb : Nat) : Nat :=
  let pm := base + nmemb / 2
  if nmemb > 7 then
    let pn := base + (nmemb - 1)
    if nmemb > 40 then
      let d := nmemb / 8
      med3 compar m (med3 compar m base (base + d) (base + 2 * d))
        (med3 compar m (pm - d) pm (pm + d)) (med3 compar m (pn - 2 * d) (pn - d) pn)
    else med3 compar m base pm pn
  else pm

def start (m : Nat → α) (base nmemb : Nat) : Pass α where
  m := swap m base (pivot compar m base nmemb)
  pa := base + 1
  pb := base + 1
  pc := base + (nmemb - 1)
  pd := base + (nmemb - 1)
  swapCnt := 0
  pb_pos := by omega

def vecswap (m : Nat → α) (i j : Nat) : Nat → Nat → α
  | 0 => m
  | n + 1 => vecswap (swap m i j) (i + 1) (j + 1) n

/-- The elements that equal the pivot go from both ends to the middle. -/
def gather (base pn : Nat) (s : Pass α) : Nat → α :=
  let r := min (s.pa - base) (s.pb - s.pa)
  let m := vecswap s.m base (s.pb - r) r
  let r := min (s.pd - s.pc) (pn - s.pd - 1)
  vecswap m s.pb (pn - r) r

end

section

variable {compar : α → α → Int} {m : Nat → α} {base pn pm pl : Nat}

/-- What the documentation of `qsort` asks of the comparison. -/
structure Consistent (compar : α → α → Int) : Prop where
  antisymm : ∀ x y, compar x y < 0 ↔ 0 < compar y x
  trans : ∀ x y z, compar x y ≤ 0 → compar y z ≤ 0 → compar x z ≤ 0

theorem Consistent.self {compar : α → α → Int} (hc : Consistent compar) (x : α) :
    compar x x = 0 := by
  have := hc.antisymm x x
  omega

def Sorted (compar : α → α → Int) (m : Nat → α) (lo hi : Nat) : Prop :=
  ∀ i j, lo ≤ i → i < j → j < hi → compar (m i) (m j) ≤ 0

theorem sink_rearranged (h : pl < pn) (m : Nat → α) :
    Rearranged m (sink compar base pl m) base pn := by
  induction pl generalizing m with
  | zero => exact .refl _ _ _
  | succ pl ih =>
    unfold sink
    split_ifs with hgt
    · exact (Rearranged.swap m (by omega) h (by omega) (by omega)).trans (ih (by omega) _)
    · exact .refl _ _ _

theorem insertionSort_rearranged :
    Rearranged m (insertionSort compar base pn pm m) base pn := by
  fun_induction insertionSort compar base pn pm m with
  | case1 pm m hlt ih => exact (sink_rearranged hlt m).trans ih
  | case2 pm m => exact .refl _ _ _

/-- Only the element at `pl` may be smaller than those in front of it. -/
theorem sink_sorted (hc : Consistent compar)
    (h : ∀ i j, base ≤ i → i < j → j < pn → j ≠ pl → compar (m i) (m j) ≤ 0) :
    Sorted compar (sink compar base pl m) base pn := by
  induction pl generalizing m with
  | zero => exact fun i j hi hij hj => h i j hi hij hj (by omega)
  | succ pl ih =>
    unfold sink
    split_ifs with hgt
    · refine ih fun i j hi hij hj hne => ?_
      have hlt := (hc.antisymm (m (pl + 1)) (m pl)).mpr hgt.2
      rw [swap_apply, swap_apply]
      split_ifs
      all_goals
        first
        | omega
        | exact Int.le_of_lt hlt
        | exact h _ _ (by omega) (by omega) (by omega) (by omega)
    · intro i j hi hij hj
      by_cases hpl : j = pl + 1
      · have hle : compar (m pl) (m (pl + 1)) ≤ 0 := by
          by_contra hpos
          exact hgt ⟨by omega, by omega⟩
        subst hpl
        by_cases hi' : i = pl
        · exact hi' ▸ hle
        · exact hc.trans _ _ _ (h i pl hi (by omega) (by omega) (by omega)) hle
      · exact h i j hi hij hj hpl

theorem insertionSort_sorted (hc : Consistent compar) (h : Sorted compar m base pm) :
    Sorted compar (insertionSort compar base pn pm m) base pn := by
  fun_induction insertionSort compar base pn pm m with
  | case1 pm m hlt ih =>
    refine ih (sink_sorted hc fun i j hi hij hj hne => h i j hi hij ?_)
    omega
  | case2 pm m hge => exact fun i j hi hij hj => h i j hi hij (by omega)

end

section

variable {compar : α → α → Int} {m : Nat → α} {base pn i j n : Nat} {s : Pass α}

/-- Where the pointers are and how the elements in each zone compare with the pivot. -/
structure Zones (compar : α → α → Int) (base pn : Nat) (s : Pass α) : Prop where
  base_pa : base < s.pa
  pa_pb : s.pa ≤ s.pb
  pb_pc : s.pb ≤ s.pc + 1
  pc_pd : s.pc ≤ s.pd
  pd_pn : s.pd < pn
  left : ∀ k, base < k → k < s.pa → compar (s.m k) (s.m base) = 0
  less : ∀ k, s.pa ≤ k → k < s.pb → compar (s.m k) (s.m base) < 0
  greater : ∀ k, s.pc < k → k ≤ s.pd → 0 < compar (s.m k) (s.m base)
  right : ∀ k, s.pd < k → k < pn → compar (s.m k) (s.m base) = 0

theorem scanUp_zones (h : Zones compar base pn s) :
    Zones compar base pn (scanUp compar base s) ∧
      Rearranged s.m (scanUp compar base s).m base pn ∧
      ((scanUp compar base s).pb ≤ (scanUp compar base s).pc →
        0 < compar ((scanUp compar base s).m (scanUp compar base s).pb)
          ((scanUp compar base s).m base)) := by
  fun_induction scanUp compar base s with
  | case1 s hle heq ih =>
    obtain ⟨h₁, h₂, h₃, h₄, h₅, h₆, h₇, h₈, h₉⟩ := h
    have hbase : swap s.m s.pa s.pb base = s.m base := swap_other _ (by omega) (by omega)
    have hz := ih (by
      constructor
      all_goals dsimp only
      any_goals omega
      all_goals
        intro k hk hk'
        rw [hbase, swap_apply]
        split_ifs
      all_goals
        first
        | omega
        | exact heq
        | exact h₆ _ (by omega) (by omega)
        | exact h₇ _ (by omega) (by omega)
        | exact h₈ _ (by omega) (by omega)
        | exact h₉ _ (by omega) (by omega))
    exact ⟨hz.1, (Rearranged.swap s.m (by omega) (by omega) (by omega) (by omega)).trans hz.2.1,
      hz.2.2⟩
  | case2 s hle hne ih =>
    obtain ⟨h₁, h₂, h₃, h₄, h₅, h₆, h₇, h₈, h₉⟩ := h
    have hless : ∀ k, s.pa ≤ k → k < s.pb + 1 → compar (s.m k) (s.m base) < 0 := fun k hk hk' => by
      rcases Nat.lt_or_eq_of_le (Nat.le_of_lt_succ hk') with hlt | rfl
      · exact h₇ k hk hlt
      · omega
    exact ih ⟨h₁, Nat.le_succ_of_le h₂, Nat.succ_le_succ hle.1, h₄, h₅, h₆, hless, h₈, h₉⟩
  | case3 s hgt => exact ⟨h, .refl _ _ _, fun hle => by by_contra hpos; exact hgt ⟨hle, by omega⟩⟩

/-- The element that stopped the first loop stays where it is. -/
theorem scanDown_zones (h : Zones compar base pn s)
    (hpb : s.pb ≤ s.pc → 0 < compar (s.m s.pb) (s.m base)) :
    Zones compar base pn (scanDown compar base s) ∧
      Rearranged s.m (scanDown compar base s).m base pn ∧
      ((scanDown compar base s).pb ≤ (scanDown compar base s).pc →
        compar ((scanDown compar base s).m (scanDown compar base s).pc)
          ((scanDown compar base s).m base) < 0 ∧
        0 < compar ((scanDown compar base s).m (scanDown compar base s).pb)
          ((scanDown compar base s).m base)) := by
  fun_induction scanDown compar base s with
  | case1 s hle heq ih =>
    obtain ⟨h₁, h₂, h₃, h₄, h₅, h₆, h₇, h₈, h₉⟩ := h
    have hbase : swap s.m s.pc s.pd base = s.m base := swap_other _ (by omega) (by omega)
    have hz := ih (by
      constructor
      all_goals dsimp only
      any_goals omega
      all_goals
        intro k hk hk'
        rw [hbase, swap_apply]
        split_ifs
      all_goals
        first
        | omega
        | exact heq
        | exact h₆ _ (by omega) (by omega)
        | exact h₇ _ (by omega) (by omega)
        | exact h₈ _ (by omega) (by omega)
        | exact h₉ _ (by omega) (by omega)
        | exact (show s.pc = s.pd by omega) ▸ heq)
      (fun hle' => by
        dsimp only at hle' ⊢
        have hstay := swap_other s.m (k := s.pb) (i := s.pc) (j := s.pd) (by omega) (by omega)
        rw [hbase, hstay]
        exact hpb hle.1)
    exact ⟨hz.1, (Rearranged.swap s.m (by omega) (by omega) (by omega) (by omega)).trans hz.2.1,
      hz.2.2⟩
  | case2 s hle hne ih =>
    obtain ⟨h₁, h₂, h₃, h₄, h₅, h₆, h₇, h₈, h₉⟩ := h
    have hgreater : ∀ k, s.pc - 1 < k → k ≤ s.pd → 0 < compar (s.m k) (s.m base) :=
      fun k hk hk' => by
        rcases Nat.lt_or_eq_of_le (show s.pc ≤ k by omega) with hlt | rfl
        · exact h₈ k hlt hk'
        · omega
    exact ih ⟨h₁, h₂, show s.pb ≤ s.pc - 1 + 1 by omega, show s.pc - 1 ≤ s.pd by omega, h₅, h₆, h₇,
      hgreater, h₉⟩ fun _ => hpb hle.1
  | case3 s hgt =>
    exact ⟨h, .refl _ _ _, fun hle =>
      ⟨by by_contra hneg; exact hgt ⟨hle, by omega⟩, hpb hle⟩⟩

theorem partition_zones (h : Zones compar base pn s) :
    Zones compar base pn (partition compar base s) ∧
      Rearranged s.m (partition compar base s).m base pn ∧
      (partition compar base s).pb = (partition compar base s).pc + 1 := by
  fun_induction partition compar base s with
  | case1 s t hgt =>
    have hup := scanUp_zones h
    have hdown := scanDown_zones hup.1 hup.2.2
    exact ⟨hdown.1, hup.2.1.trans hdown.2.1, Nat.le_antisymm hdown.1.pb_pc hgt⟩
  | case2 s t hle ih =>
    have hup := scanUp_zones h
    have hdown := scanDown_zones hup.1 hup.2.2
    obtain ⟨hpc, hpb⟩ := hdown.2.2 (Nat.le_of_not_gt hle)
    have hmoved : Rearranged s.m t.m base pn := hup.2.1.trans hdown.2.1
    obtain ⟨h₁, h₂, h₃, h₄, h₅, h₆, h₇, h₈, h₉⟩ : Zones compar base pn t := hdown.1
    -- the two loops stopped at elements of the other side
    change compar (t.m t.pc) (t.m base) < 0 at hpc
    change 0 < compar (t.m t.pb) (t.m base) at hpb
    have hne : t.pb ≠ t.pc := fun he => by
      rw [he] at hpb
      omega
    have hbase : swap t.m t.pb t.pc base = t.m base := swap_other _ (by omega) (by omega)
    have hz := ih (by
      constructor
      all_goals dsimp only
      any_goals omega
      all_goals
        intro k hk hk'
        rw [hbase, swap_apply]
        split_ifs
      all_goals
        first
        | omega
        | exact hpc
        | exact hpb
        | exact h₆ _ (by omega) (by omega)
        | exact h₇ _ (by omega) (by omega)
        | exact h₈ _ (by omega) (by omega)
        | exact h₉ _ (by omega) (by omega))
    exact ⟨hz.1, hmoved.trans ((Rearranged.swap t.m (by omega) (by omega) (by omega)
      (by omega)).trans hz.2.1), hz.2.2⟩

theorem vecswap_apply (m : Nat → α) (h : i + n ≤ j) (k : Nat) :
    vecswap m i j n k =
      if i ≤ k ∧ k < i + n then m (k + (j - i))
      else if j ≤ k ∧ k < j + n then m (k - (j - i)) else m k := by
  induction n generalizing m i j with
  | zero => rw [vecswap, if_neg (by omega), if_neg (by omega)]
  | succ n ih =>
    rw [vecswap, ih _ (by omega)]
    simp only [swap_apply]
    grind

theorem vecswap_rearranged (base pn : Nat) (m : Nat → α) (hi : base ≤ i) (hj : base ≤ j)
    (hin : i + n ≤ pn) (hjn : j + n ≤ pn) : Rearranged m (vecswap m i j n) base pn := by
  induction n generalizing m i j with
  | zero => exact .refl _ _ _
  | succ n ih =>
    exact (Rearranged.swap m hi (by omega) hj (by omega)).trans
      (ih _ (by omega) (by omega) (by omega) (by omega))

theorem gather_rearranged (h : Zones compar base pn s) :
    Rearranged s.m (gather base pn s) base pn := by
  obtain ⟨h₁, h₂, h₃, h₄, h₅, -⟩ := h
  have hr := Nat.min_le_right (s.pa - base) (s.pb - s.pa)
  have hx := Nat.min_le_left (s.pd - s.pc) (pn - s.pd - 1)
  have hy := Nat.min_le_right (s.pd - s.pc) (pn - s.pd - 1)
  unfold gather
  dsimp only
  generalize min (s.pa - base) (s.pb - s.pa) = r at *
  generalize min (s.pd - s.pc) (pn - s.pd - 1) = r' at *
  exact (vecswap_rearranged _ _ s.m (by omega) (by omega) (by omega) (by omega)).trans
    (vecswap_rearranged _ _ _ (by omega) (by omega) (by omega) (by omega))

/-- Exchanging the ends of two neighbouring blocks puts the second block in front of the first. -/
theorem vecswap_blocks {P Q : α → Prop} {u v : Nat} (h₁ : ∀ k, i ≤ k → k < i + u → P (m k))
    (h₂ : ∀ k, i + u ≤ k → k < i + u + v → Q (m k)) (hj : j + min u v = i + u + v) :
    (∀ k, i ≤ k → k < i + v → Q (vecswap m i j (min u v) k)) ∧
      ∀ k, i + v ≤ k → k < i + u + v → P (vecswap m i j (min u v) k) := by
  constructor
  all_goals
    intro k hk hk'
    rw [vecswap_apply _ (by omega)]
    split_ifs
  all_goals
    first
    | omega
    | exact h₁ _ (by omega) (by omega)
    | exact h₂ _ (by omega) (by omega)

/-- Two such exchanges bring the outer blocks of four together. -/
theorem vecswap_gather {P Q R : α → Prop} {u v x y b : Nat} (hb : b = i + u + v)
    (h₁ : ∀ k, i ≤ k → k < i + u → P (m k)) (h₂ : ∀ k, i + u ≤ k → k < i + u + v → Q (m k))
    (h₃ : ∀ k, b ≤ k → k < b + x → R (m k)) (h₄ : ∀ k, b + x ≤ k → k < b + x + y → P (m k)) :
    let g := vecswap (vecswap m i (b - min u v) (min u v)) b (b + x + y - min x y) (min x y)
    (∀ k, i ≤ k → k < i + v → Q (g k)) ∧ (∀ k, i + v ≤ k → k < b + y → P (g k)) ∧
      ∀ k, b + y ≤ k → k < b + x + y → R (g k) := by
  dsimp only
  have hr := Nat.min_le_right u v
  have hr' := Nat.min_le_right x y
  obtain ⟨hfirst, hmiddle⟩ := vecswap_blocks h₁ h₂ (j := b - min u v) (by omega)
  have hmoved : Rearranged m (vecswap m i (b - min u v) (min u v)) i b :=
    vecswap_rearranged _ _ m (Nat.le_refl i) (by omega) (by omega) (by omega)
  generalize vecswap m i (b - min u v) (min u v) = a at *
  have hkeep : ∀ k, b ≤ k → a k = m k := fun k hk => hmoved.outside (.inr hk)
  obtain ⟨hmiddle', hlast⟩ := vecswap_blocks (m := a) (i := b) (P := R) (Q := P)
    (j := b + x + y - min x y) (fun k hk hk' => (hkeep k hk).symm ▸ h₃ k hk hk')
    (fun k hk hk' => (hkeep k (by omega)).symm ▸ h₄ k hk hk') (by omega)
  have hback : Rearranged a (vecswap a b (b + x + y - min x y) (min x y)) b (b + x + y) :=
    vecswap_rearranged _ _ a (Nat.le_refl b) (by omega) (by omega) (by omega)
  generalize vecswap a b (b + x + y - min x y) (min x y) = g at *
  have hfront : ∀ k, k < b → g k = a k := fun k hk => hback.outside (.inl hk)
  refine ⟨fun k hk hk' => ?_, fun k hk hk' => ?_, hlast⟩
  · rw [hfront k (by omega)]
    exact hfirst k hk hk'
  · rcases Nat.lt_or_ge k b with hlt | hge
    · rw [hfront k hlt]
      exact hmiddle k hk (by omega)
    · exact hmiddle' k hge hk'

/-- The elements in front of the middle are smaller than the pivot, those behind it greater. -/
theorem gather_zones (h : Zones compar base pn s) (hend : s.pb = s.pc + 1)
    (hself : compar (s.m base) (s.m base) = 0) :
    (∀ k, base ≤ k → k < base + (s.pb - s.pa) → compar (gather base pn s k) (s.m base) < 0) ∧
      (∀ k, base + (s.pb - s.pa) ≤ k → k < pn - (s.pd - s.pc) →
        compar (gather base pn s k) (s.m base) = 0) ∧
      ∀ k, pn - (s.pd - s.pc) ≤ k → k < pn → 0 < compar (gather base pn s k) (s.m base) := by
  obtain ⟨h₁, h₂, h₃, h₄, h₅, hleft, hless, hgreater, hright⟩ := h
  have heq : ∀ k, base ≤ k → k < s.pa → compar (s.m k) (s.m base) = 0 := fun k hk hk' => by
    rcases Nat.eq_or_lt_of_le hk with rfl | hlt
    · exact hself
    · exact hleft k hlt hk'
  have hpa : base + (s.pa - base) = s.pa := by omega
  have hpb : s.pa + (s.pb - s.pa) = s.pb := by omega
  have hpd : s.pb + (s.pd - s.pc) = s.pd + 1 := by omega
  have hpn : s.pd + 1 + (pn - s.pd - 1) = pn := by omega
  have hall := vecswap_gather (m := s.m) (i := base) (b := s.pb) (u := s.pa - base)
    (v := s.pb - s.pa) (x := s.pd - s.pc) (y := pn - s.pd - 1)
    (P := fun x => compar x (s.m base) = 0) (Q := fun x => compar x (s.m base) < 0)
    (R := fun x => 0 < compar x (s.m base)) (by rw [hpa, hpb])
  rw [hpa, hpb, hpd, hpn, show s.pb + (pn - s.pd - 1) = pn - (s.pd - s.pc) by omega] at hall
  exact hall heq hless (fun k hk hk' => hgreater k (by omega) (by omega))
    fun k hk hk' => hright k hk hk'

theorem med3_range {a b c lo hi : Nat} (ha : lo ≤ a ∧ a < hi) (hb : lo ≤ b ∧ b < hi)
    (hc : lo ≤ c ∧ c < hi) : lo ≤ med3 compar m a b c ∧ med3 compar m a b c < hi := by
  unfold med3
  split_ifs <;> assumption

theorem pivot_lt (compar : α → α → Int) (m : Nat → α) (base : Nat) (h : 7 ≤ n) :
    base ≤ pivot compar m base n ∧ pivot compar m base n < base + n := by
  unfold pivot
  dsimp only
  split_ifs
  · exact med3_range (med3_range (by omega) (by omega) (by omega))
      (med3_range (by omega) (by omega) (by omega))
      (med3_range (by omega) (by omega) (by omega))
  · exact med3_range (by omega) (by omega) (by omega)
  · omega

theorem start_zones (compar : α → α → Int) (m : Nat → α) (base : Nat) (h : 7 ≤ n) :
    Zones compar base (base + n) (start compar m base n) ∧
      Rearranged m (start compar m base n).m base (base + n) := by
  have hp := pivot_lt compar m base h
  refine ⟨by constructor <;> simp only [start] <;> grind, ?_⟩
  exact Rearranged.swap m (by omega) (by omega) hp.1 hp.2

theorem split_zones (compar : α → α → Int) (m : Nat → α) (base : Nat) (h : 7 ≤ n) :
    let s := partition compar base (start compar m base n)
    Zones compar base (base + n) s ∧ Rearranged m s.m base (base + n) ∧ s.pb = s.pc + 1 := by
  have hs := start_zones compar m base h
  have hp := partition_zones hs.1
  exact ⟨hp.1, hs.2.trans hp.2.1, hp.2.2⟩

theorem split_lt (compar : α → α → Int) (m : Nat → α) (base : Nat) (h : 7 ≤ n) :
    let s := partition compar base (start compar m base n)
    s.pb - s.pa < n ∧ s.pd - s.pc < n := by
  obtain ⟨h₁, h₂, h₃, h₄, h₅, -⟩ := (split_zones compar m base h).1
  dsimp only
  omega

end

section

variable (compar : α → α → Int)

def qsort (m : Nat → α) (base nmemb : Nat) : Nat → α :=
  let pn := base + nmemb
  if h : nmemb < 7 then insertionSort compar base pn (base + 1) m
  else
    let s := partition compar base (start compar m base nmemb)
    if s.swapCnt = 0 then insertionSort compar base pn (base + 1) s.m
    else
      let r := s.pb - s.pa
      let m₁ := gather base pn s
      let m₂ := if r > 1 then qsort m₁ base r else m₁
      let r' := s.pd - s.pc
      if r' > 1 then qsort m₂ (pn - r') r' else m₂
termination_by nmemb
decreasing_by
  · exact (split_lt compar m base (Nat.le_of_not_lt h)).1
  · exact (split_lt compar m base (Nat.le_of_not_lt h)).2

variable {compar}

/-- The three zones around the pivot `v`, the outer two of them sorted. -/
theorem sorted_of_zones (hc : Consistent compar) {m : Nat → α} {v : α} {lo p q hi : Nat}
    (hless : ∀ k, lo ≤ k → k < p → compar (m k) v < 0)
    (heq : ∀ k, p ≤ k → k < q → compar (m k) v = 0)
    (hgreater : ∀ k, q ≤ k → k < hi → 0 < compar (m k) v)
    (hfirst : Sorted compar m lo p) (hlast : Sorted compar m q hi) : Sorted compar m lo hi := by
  intro i j hi' hij hj
  by_cases hp : j < p
  · exact hfirst i j hi' hij hp
  by_cases hq : q ≤ i
  · exact hlast i j hq hij hj
  have hiv : compar (m i) v ≤ 0 := by
    by_cases hip : i < p
    · exact Int.le_of_lt (hless i hi' hip)
    · exact Int.le_of_eq (heq i (by omega) (by omega))
  have hvj : compar v (m j) ≤ 0 := by
    by_contra hpos
    have hneg := (hc.antisymm (m j) v).mpr (by omega)
    by_cases hjq : j < q
    · exact absurd (heq j (by omega) hjq) (by omega)
    · exact absurd (hgreater j (by omega) hj) (by omega)
  exact hc.trans _ _ _ hiv hvj

theorem sorted_short {m : Nat → α} {lo n : Nat} (h : n ≤ 1) : Sorted compar m lo (lo + n) :=
  fun _ _ _ _ _ => by omega

/-- Whatever the comparison answers, `qsort` ends and only exchanges elements of the array; a
consistent comparison gets the array sorted. -/
theorem qsort_correct (compar : α → α → Int) (m : Nat → α) (base nmemb : Nat) :
    Rearranged m (qsort compar m base nmemb) base (base + nmemb) ∧
      (Consistent compar → Sorted compar (qsort compar m base nmemb) base (base + nmemb)) := by
  induction nmemb using Nat.strongRecOn generalizing m base with
  | ind nmemb ih =>
    have hcall : ∀ (m : Nat → α) (lo r : Nat), r < nmemb →
        Rearranged m (if r > 1 then qsort compar m lo r else m) lo (lo + r) ∧
          (Consistent compar →
            Sorted compar (if r > 1 then qsort compar m lo r else m) lo (lo + r)) := by
      intro m lo r hr
      split_ifs with hr'
      · exact ih r hr m lo
      · exact ⟨.refl _ _ _, fun _ => sorted_short (by omega)⟩
    have hone : ∀ m : Nat → α, Sorted compar m base (base + 1) :=
      fun m => sorted_short (Nat.le_refl 1)
    rw [qsort]
    dsimp only
    split
    · exact ⟨insertionSort_rearranged, fun hc => insertionSort_sorted hc (hone m)⟩
    next hlarge =>
      obtain ⟨hz, hmoved, hend⟩ := split_zones compar m base (Nat.le_of_not_lt hlarge)
      obtain ⟨hlt, hlt'⟩ := split_lt compar m base (Nat.le_of_not_lt hlarge)
      generalize partition compar base (start compar m base nmemb) = s at *
      split
      · exact ⟨hmoved.trans insertionSort_rearranged,
          fun hc => insertionSort_sorted hc (hone s.m)⟩
      have hgather := gather_rearranged hz
      have hzones := gather_zones hz hend
      obtain ⟨h₁, h₂, h₃, h₄, h₅, -⟩ := hz
      generalize gather base (base + nmemb) s = m₁ at *
      obtain ⟨hmoved₂, hsorted₂⟩ := hcall m₁ base (s.pb - s.pa) hlt
      generalize (if s.pb - s.pa > 1 then qsort compar m₁ base (s.pb - s.pa) else m₁) = m₂ at *
      obtain ⟨hmoved₃, hsorted₃⟩ :=
        hcall m₂ (base + nmemb - (s.pd - s.pc)) (s.pd - s.pc) hlt'
      rw [Nat.sub_add_cancel (by omega)] at hmoved₃ hsorted₃
      generalize (if s.pd - s.pc > 1 then
        qsort compar m₂ (base + nmemb - (s.pd - s.pc)) (s.pd - s.pc) else m₂) = m₃ at *
      refine ⟨(hmoved.trans hgather).trans ((hmoved₂.mono (Nat.le_refl _) (by omega)).trans
        (hmoved₃.mono (by omega) (Nat.le_refl _))), fun hc => ?_⟩
      obtain ⟨hless, heq, hgreater⟩ := hzones (hc.self _)
      -- the second call leaves the first two zones alone, the first call the last two
      have hkeep : ∀ k, k < base + nmemb - (s.pd - s.pc) → m₃ k = m₂ k :=
        fun k hk => hmoved₃.outside (.inl hk)
      have hkeep' : ∀ k, base + (s.pb - s.pa) ≤ k → m₂ k = m₁ k :=
        fun k hk => hmoved₂.outside (.inr hk)
      refine sorted_of_zones hc (v := s.m base) (p := base + (s.pb - s.pa))
        (fun k hk hk' => ?_) (fun k hk hk' => ?_)
        (hmoved₃.forall_inside (P := fun x => 0 < compar x (s.m base)) fun k hk hk' => ?_)
        (fun i j hi hij hj => ?_) (hsorted₃ hc)
      · rw [hkeep k (by omega)]
        exact hmoved₂.forall_inside (P := fun x => compar x (s.m base) < 0) hless k hk hk'
      · rw [hkeep k hk', hkeep' k hk]
        exact heq k hk hk'
      · rw [hkeep' k (by omega)]
        exact hgreater k hk hk'
      · rw [hkeep i (by omega), hkeep j (by omega)]
        exact hsorted₂ hc i j hi hij hj

end

end NuttxAvr32.Qsort
