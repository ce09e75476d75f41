import Mathlib.Order.Lattice
import Mathlib.Order.Nat
import Mathlib.Tactic.Common

/-! # Symbol tables

The four searches of `binfmt`. A table is the function of its entries, a result the index of one.
`strcmp` puts the names in a linear order, and so are the values, which are addresses.
-/

namespace NuttxAvr32.Symtab

variable {N V : Type}

structure SymtabS (N V : Type) where
  symName : N
  symValue : V

def threeSymbols (i : Nat) : SymtabS Nat Nat := ⟨i, 8 * i⟩

/-- The loop of both ordered searches and their final check; `cmp` compares with an entry. -/
def search (cmp : Nat → Ordering) (low high : Int) : Option Nat :=
  if low < high then
    let mid := (low + high) / 2
    match cmp mid.toNat with
    | .lt => search cmp low (mid - 1)
    | .gt => search cmp (mid + 1) high
    | .eq => some mid.toNat
  else if cmp low.toNat = .eq then some low.toNat else none
termination_by (high - low).toNat

section

variable {α : Type} {cmp : Nat → Ordering} {k n : Nat} {low high : Int}

theorem search_sound (h : search cmp low high = some k) (hlow : 0 ≤ low) (hlow' : low < n)
    (hhigh : high < n) : cmp k = .eq ∧ k < n := by
  fun_induction search cmp low high with
  | case1 low high hlt mid hmid ih => exact ih h hlow hlow' (by omega)
  | case2 low high hlt mid hmid ih => exact ih h (by omega) (by omega) hhigh
  | case3 low high hlt mid hmid =>
    cases h
    exact ⟨hmid, by omega⟩
  | case4 low high hge heq =>
    cases h
    exact ⟨heq, by omega⟩
  | case5 => cases h

/-- The entry stays between `low` and `high`. -/
theorem search_complete (hk : cmp k = .eq) (hkn : k < n) (hbelow : ∀ i < k, cmp i = .gt)
    (habove : ∀ i, k < i → i < n → cmp i = .lt) (hlow : 0 ≤ low) (hlow' : low ≤ k)
    (hhigh : k ≤ high) (hhigh' : high < n) : search cmp low high = some k := by
  fun_induction search cmp low high with
  | case1 low high hlt mid hmid ih =>
    refine ih hlow hlow' ?_ (by omega)
    rcases Nat.lt_trichotomy k mid.toNat with h | h | h
    · omega
    · rw [← h, hk] at hmid
      cases hmid
    · rw [hbelow _ h] at hmid
      cases hmid
  | case2 low high hlt mid hmid ih =>
    refine ih (by omega) ?_ hhigh hhigh'
    rcases Nat.lt_trichotomy k mid.toNat with h | h | h
    · rw [habove _ h (by omega)] at hmid
      cases hmid
    · rw [← h, hk] at hmid
      cases hmid
    · omega
  | case3 low high hlt mid hmid =>
    rcases Nat.lt_trichotomy k mid.toNat with h | h | h
    · rw [habove _ h (by omega)] at hmid
      cases hmid
    · rw [h]
    · rw [hbelow _ h] at hmid
      cases hmid
  | case4 low high hge heq => rw [show k = low.toNat by omega]
  | case5 low high hge hne => exact absurd (show k = low.toNat by omega ▸ hk) hne

/-- A key in front of which the entries are less and behind which they are greater. -/
theorem search_iff [LinearOrder α] {f : Nat → α} {x : α}
    (hf : ∀ i j, i < j → j < n → f i < f j) (hn : 0 < n) :
    search (fun i => compare x (f i)) 0 (n - 1) = some k ↔ k < n ∧ f k = x := by
  constructor
  · intro h
    have hs := search_sound h (Int.le_refl 0) (by omega) (show ((n : Int) - 1 < n) by omega)
    exact ⟨hs.2, (compare_eq_iff_eq.mp hs.1).symm⟩
  · rintro ⟨hk, rfl⟩
    exact search_complete (compare_eq_iff_eq.mpr rfl) hk
      (fun i hi => compare_gt_iff_gt.mpr (hf i k hi hk))
      (fun i hi hin => compare_lt_iff_lt.mpr (hf k i hi hin)) (Int.le_refl 0) (by omega) (by omega)
      (by omega)

end

section

variable [LinearOrder N] (symtab : Nat → SymtabS N V) (name : N)

def findbynameFrom (i : Nat) : Nat → Option Nat
  | 0 => none
  | nsyms + 1 => if name = (symtab i).symName then some i else findbynameFrom (i + 1) nsyms

def symtabFindbyname (nsyms : Nat) : Option Nat := findbynameFrom symtab name 0 nsyms

def symtabFindorderedbyname (nsyms : Nat) : Option Nat :=
  search (fun i => compare name (symtab i).symName) 0 (nsyms - 1)

variable {symtab name} {i k n : Nat}

theorem findbynameFrom_eq (h : findbynameFrom symtab name i n = some k) :
    i ≤ k ∧ k < i + n ∧ (symtab k).symName = name := by
  induction n generalizing i with
  | zero => cases h
  | succ n ih =>
    unfold findbynameFrom at h
    split_ifs at h with heq
    · cases h
      exact ⟨Nat.le_refl _, by omega, heq.symm⟩
    · have := ih h
      exact ⟨by omega, by omega, this.2.2⟩

theorem findbynameFrom_none (h : findbynameFrom symtab name i n = none) :
    ∀ j, i ≤ j → j < i + n → (symtab j).symName ≠ name := by
  induction n generalizing i with
  | zero => exact fun j _ _ => by omega
  | succ n ih =>
    unfold findbynameFrom at h
    split_ifs at h with heq
    intro j hij hj
    rcases Nat.eq_or_lt_of_le hij with rfl | hlt
    · exact fun he => heq he.symm
    · exact ih h j hlt (by omega)

end

section

variable [LinearOrder V] (symtab : Nat → SymtabS N V) (value : V)

def findbyvalueFrom (i : Nat) (retval : Option Nat) : Nat → Option Nat
  | 0 => retval
  | nsyms + 1 =>
    if (symtab i).symValue ≤ value ∧
        ∀ r ∈ retval, (symtab r).symValue < (symtab i).symValue then
      if (symtab i).symValue = value then some i else findbyvalueFrom (i + 1) (some i) nsyms
    else findbyvalueFrom (i + 1) retval nsyms

def symtabFindbyvalue (nsyms : Nat) : Option Nat := findbyvalueFrom symtab value 0 none nsyms

def symtabFindorderedbyvalue (nsyms : Nat) : Option Nat :=
  search (fun i => compare value (symtab i).symValue) 0 (nsyms - 1)

/-- The closest value that is not greater, among the first `n` entries. -/
def Closest (n : Nat) : Option Nat → Prop
  | none => ∀ i < n, value < (symtab i).symValue
  | some k => k < n ∧ (symtab k).symValue ≤ value ∧
      ∀ i < n, (symtab i).symValue ≤ value → (symtab i).symValue ≤ (symtab k).symValue

variable {symtab value} {i k n : Nat}

theorem Closest.skip {retval : Option Nat} (h : Closest symtab value i retval)
    (hi : ¬((symtab i).symValue ≤ value ∧
      ∀ r ∈ retval, (symtab r).symValue < (symtab i).symValue)) :
    Closest symtab value (i + 1) retval := by
  cases retval with
  | none =>
    intro j hj
    rcases Nat.lt_succ_iff_lt_or_eq.mp hj with hlt | rfl
    · exact h j hlt
    · exact lt_of_not_ge fun hle => hi ⟨hle, fun _ hr => by cases hr⟩
  | some k =>
    obtain ⟨hk, hle, hbest⟩ := h
    refine ⟨by omega, hle, fun j hj hjle => ?_⟩
    rcases Nat.lt_succ_iff_lt_or_eq.mp hj with hlt | rfl
    · exact hbest j hlt hjle
    · refine le_of_not_gt fun hgt => hi ⟨hjle, fun r hr => ?_⟩
      cases hr
      exact hgt

theorem Closest.take {retval : Option Nat} (h : Closest symtab value i retval)
    (hi : (symtab i).symValue ≤ value)
    (hr : ∀ r ∈ retval, (symtab r).symValue < (symtab i).symValue) :
    Closest symtab value (i + 1) (some i) := by
  refine ⟨by omega, hi, fun j hj hjle => ?_⟩
  rcases Nat.lt_succ_iff_lt_or_eq.mp hj with hlt | rfl
  · cases retval with
    | none => exact absurd hjle (not_le_of_gt (h j hlt))
    | some k => exact le_trans (h.2.2 j hlt hjle) (le_of_lt (hr k rfl))
  · exact le_refl _

theorem findbyvalueFrom_closest {retval : Option Nat} (h : Closest symtab value i retval) :
    Closest symtab value (i + n) (findbyvalueFrom symtab value i retval n) := by
  induction n generalizing i retval with
  | zero => exact h
  | succ n ih =>
    unfold findbyvalueFrom
    split_ifs with htake heq
    · exact ⟨by omega, htake.1, fun j _ hjle => heq ▸ hjle⟩
    · rw [Nat.add_succ, ← Nat.succ_add]
      exact ih (h.take htake.1 htake.2)
    · rw [Nat.add_succ, ← Nat.succ_add]
      exact ih (h.skip htake)

/-- The ordered search for a value has no notion of the closest one: it agrees with the linear
search where the value is in the table, or all values are greater. -/
theorem findorderedbyvalue_agrees_iff (hn : 0 < n)
    (hs : ∀ i j, i < j → j < n → (symtab i).symValue < (symtab j).symValue) :
    symtabFindorderedbyvalue symtab value n = symtabFindbyvalue symtab value n ↔
      (∃ i < n, (symtab i).symValue = value) ∨ ∀ i < n, value < (symtab i).symValue := by
  have hlinear : Closest symtab value (0 + n) (symtabFindbyvalue symtab value n) :=
    findbyvalueFrom_closest fun i hi => by omega
  rw [Nat.zero_add] at hlinear
  constructor
  · intro heq
    cases hfind : symtabFindbyvalue symtab value n with
    | none =>
      rw [hfind] at hlinear
      exact .inr hlinear
    | some k =>
      rw [hfind] at heq
      exact .inl ⟨k, (search_iff hs hn).mp heq⟩
  · rintro (⟨k, hk, rfl⟩ | hall)
    · rw [symtabFindorderedbyvalue, (search_iff hs hn).mpr ⟨hk, rfl⟩]
      cases hfind : symtabFindbyvalue symtab (symtab k).symValue n with
      | none =>
        rw [hfind] at hlinear
        exact absurd (hlinear k hk) (lt_irrefl _)
      | some j =>
        rw [hfind] at hlinear
        obtain ⟨hj, hle, hbest⟩ := hlinear
        have he := le_antisymm hle (hbest k hk (le_refl _))
        rcases Nat.lt_trichotomy j k with h | rfl | h
        · exact absurd he (ne_of_lt (hs j k h hk))
        · rfl
        · exact absurd he.symm (ne_of_lt (hs k j h hj))
    · have hnone : symtabFindorderedbyvalue symtab value n = none := by
        refine Option.eq_none_iff_forall_ne_some.mpr fun k hsearch => ?_
        obtain ⟨hk, rfl⟩ := (search_iff hs hn).mp hsearch
        exact lt_irrefl _ (hall k hk)
      cases hfind : symtabFindbyvalue symtab value n with
      | none => exact hnone
      | some k =>
        rw [hfind] at hlinear
        exact absurd (hall k hlinear.1) (not_lt_of_ge hlinear.2.1)

theorem findorderedbyvalue_agrees_three :
    symtabFindorderedbyvalue threeSymbols 9 3 = symtabFindbyvalue threeSymbols 9 3 ↔
      (∃ i < 3, 8 * i = 9) ∨ ∀ i < 3, 9 < 8 * i :=
  findorderedbyvalue_agrees_iff (by decide) fun i j h _ => by
    change 8 * i < 8 * j
    omega

end

end NuttxAvr32.Symtab
