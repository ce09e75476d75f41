import Mathlib.Data.Finset.Card
import NuttxAvr32.Fat.Entries

/-! # Chains of clusters

`fat_extendchain` looks for a free cluster in a circle and links it to the end of a chain;
`fat_removechain` frees a chain. The device makes no errors here.
-/

namespace NuttxAvr32.Fat

/-- The updates of `fs_fsinextfree` and `fs_fsifreecount`. -/
def setNextfree (newcluster : Nat) (s : State) : State :=
  { s with fs := { s.fs with fsFsinextfree := newcluster } }

def countFree (d : Int) (s : State) : State :=
  if s.fs.fsFsifreecount ≠ 0xffffffff then
    { s with
      fs :=
        { s.fs with
          fsFsifreecount := wrapInt (s.fs.fsFsifreecount + d)
          fsFsidirty := true } }
  else s

/-- `fat_removechain`. `beyond` are the half words that the calls of `fat_putuint32` read behind
their arguments. The flag is false where an error is returned. -/
def fatRemovechain (beyond : Nat → Nat) : Nat → Nat → State → Option (State × Bool)
  | 0, _, _ => none
  | fuel + 1, cluster, s =>
    if 2 ≤ cluster ∧ cluster < s.fs.fsNclusters then
      let g := fatGetcluster .ok .ok cluster s
      match g.2 with
      | none => some (g.1, false)
      | some nextcluster =>
        let p := fatPutcluster .ok .ok (beyond fuel) cluster 0 g.1
        if p.2 = false then some (p.1, false)
        else fatRemovechain beyond fuel nextcluster (countFree 1 p.1)
    else some (s, true)

inductive Search
  | full
  | error
  | free (newcluster : Nat)
deriving DecidableEq, Repr

def freeLoop (startcluster : Nat) : Nat → Nat → State → Option (State × Search)
  | 0, _, _ => none
  | fuel + 1, newcluster, s =>
    let next := wrap32 (newcluster + 1)
    let newcluster := if s.fs.fsNclusters ≤ next then 2 else next
    if s.fs.fsNclusters ≤ next ∧ startcluster < newcluster then some (s, .full)
    else
      let g := fatGetcluster .ok .ok newcluster s
      match g.2 with
      | none => some (g.1, .error)
      | some 0 => some (g.1, .free newcluster)
      | some (_ + 1) =>
        if newcluster = startcluster then some (g.1, .full)
        else freeLoop startcluster fuel newcluster g.1

def linkCluster (beyond beyond' cluster newcluster : Nat) (s : State) : State × Option Nat :=
  let p := fatPutcluster .ok .ok beyond newcluster 0x0fffffff s
  if p.2 = false then (p.1, none)
  else if cluster ≠ 0 then
    let p' := fatPutcluster .ok .ok beyond' cluster newcluster p.1
    if p'.2 = false then (p'.1, none)
    else (countFree (-1) (setNextfree newcluster p'.1), some newcluster)
  else (countFree (-1) (setNextfree newcluster p.1), some newcluster)

def findAndLink (beyond beyond' fuel cluster startcluster : Nat) (s : State) :
    Option (State × Option Nat) :=
  match freeLoop startcluster fuel startcluster s with
  | none => none
  | some (s, .full) => some (s, some 0)
  | some (s, .error) => some (s, none)
  | some (s, .free newcluster) => some (linkCluster beyond beyond' cluster newcluster s)

/-- `fat_extendchain`; a result of `none` is negative. -/
def fatExtendchain (beyond beyond' fuel cluster : Nat) (s : State) : Option (State × Option Nat) :=
  if cluster = 0 then
    let startcluster :=
      if s.fs.fsFsinextfree = 0 ∨ s.fs.fsNclusters ≤ s.fs.fsFsinextfree then 1
      else s.fs.fsFsinextfree
    findAndLink beyond beyond' fuel cluster startcluster s
  else
    let g := fatGetcluster .ok .ok cluster s
    match g.2 with
    | none => some (g.1, none)
    | some startsector =>
      if startsector < 2 then some (g.1, some 0)
      else if startsector < g.1.fs.fsNclusters then some (g.1, some startsector)
      else findAndLink beyond beyond' fuel cluster cluster g.1

section

variable {s s' : State}

theorem view_eq (s : State) (x : Nat) : view s x =
    if x = s.fs.fsCurrentsector then s.fs.fsBuffer
    else if s.fs.fsDirty = true ∧ x ∈ sectors s.fs then s.fs.fsBuffer else s.dev x := by
  unfold view
  split
  · rfl
  · cases hd : s.fs.fsDirty with
    | false =>
      rw [flush_clean hd]
      exact (if_neg fun h => Bool.false_ne_true h.1).symm
    | true =>
      rw [(flush_none hd).2.2.1]
      simp

theorem view_congr (hdev : s'.dev = s.dev)
    (hfs : ∃ count next b, s'.fs =
      { s.fs with
        fsFsifreecount := count
        fsFsinextfree := next
        fsFsidirty := b }) : view s' = view s := by
  obtain ⟨count, next, b, hfs⟩ := hfs
  funext x
  rw [view_eq, view_eq, hdev, hfs]
  rfl

structure Counted (s s' : State) : Prop where
  nclusters : s'.fs.fsNclusters = s.fs.fsNclusters
  type : s'.fs.fsType = s.fs.fsType
  sound : Sound s → Sound s'
  entry : ∀ c, entry s' c = entry s c

theorem counted (hdev : s'.dev = s.dev)
    (hfs : ∃ count next b, s'.fs =
      { s.fs with
        fsFsifreecount := count
        fsFsinextfree := next
        fsFsidirty := b }) : Counted s s' := by
  have hview := view_congr hdev hfs
  obtain ⟨count, next, b, hfs⟩ := hfs
  refine ⟨by rw [hfs], by rw [hfs], ?_, ?_⟩
  · intro hs
    obtain ⟨h1, h2, h3, h4, h5, h6, h7⟩ := hs
    constructor <;> rw [hfs] <;> try rw [hdev]
    all_goals assumption
  · intro c
    unfold entry fatByte
    rw [hview, hfs]

theorem Counted.trans {s'' : State} (h : Counted s s') (h' : Counted s' s'') : Counted s s'' where
  nclusters := h'.nclusters.trans h.nclusters
  type := h'.type.trans h.type
  sound hs := h'.sound (h.sound hs)
  entry c := (h'.entry c).trans (h.entry c)

theorem setNextfree_counted (n : Nat) (s : State) : Counted s (setNextfree n s) :=
  counted rfl ⟨_, _, _, rfl⟩

theorem countFree_counted (d : Int) (s : State) : Counted s (countFree d s) := by
  unfold countFree
  split
  · exact counted rfl ⟨_, _, _, rfl⟩
  · exact counted rfl ⟨_, _, _, rfl⟩

end

section

variable {s : State} {start m : Nat}

/-- The clusters that a search from `start` has examined when `m` was the last. -/
def Examined (s : State) (start m d : Nat) : Prop :=
  if start ≤ m then start < d ∧ d ≤ m
  else (start < d ∧ d < s.fs.fsNclusters) ∨ (2 ≤ d ∧ d ≤ m)

/-- Where a search may stand: not yet past the last cluster, or past it and before `start`. -/
def Standing (s : State) (start m : Nat) : Prop :=
  (start ≤ m ∧ (m < s.fs.fsNclusters ∨ m = start)) ∨ (2 ≤ m ∧ m < start)

def leftOver (s : State) (start m : Nat) : Nat :=
  if start ≤ m then (s.fs.fsNclusters - m) + start else start - m

def Finds (s : State) : Search → Prop
  | .full => ∀ d, Valid s d → entry s d ≠ 0
  | .error => False
  | .free x => Valid s x ∧ entry s x = 0

theorem Kept.valid {s' : State} (h : Kept s s') (d : Nat) : Valid s' d ↔ Valid s d := by
  unfold Valid
  rw [h.same.nclusters]

theorem Kept.finds {s' : State} (h : Kept s s') {r : Search} (hr : Finds s' r) : Finds s r := by
  cases r with
  | full =>
    intro d hd
    have hfull := hr d ((h.valid d).mpr hd)
    rw [h.entry] at hfull
    exact hfull
  | error => exact hr
  | free x => exact ⟨(h.valid x).mp hr.1, (h.entry x).symm.trans hr.2⟩

theorem Kept.refl (hs : Sound s) : Kept s s :=
  ⟨⟨rfl, rfl, rfl, rfl, rfl, rfl, rfl, rfl⟩, hs, fun _ => rfl⟩

theorem freeLoop_spec {fuel : Nat} (hs : Sound s) (hstart : start = 1 ∨ Valid s start)
    (hm : Standing s start m) (hfuel : leftOver s start m < fuel)
    (hex : ∀ d, Examined s start m d → entry s d ≠ 0) :
    ∃ s' r, freeLoop start fuel m s = some (s', r) ∧ Kept s s' ∧ Finds s r := by
  induction fuel generalizing m s with
  | zero => omega
  | succ fuel ih =>
    have hn : s.fs.fsNclusters < 2 ^ 28 :=
      Nat.lt_of_lt_of_le hs.nclusters (entryRange_le _)
    have hwrap : wrap32 (m + 1) = m + 1 := by
      apply wrap32_of_lt
      unfold Standing Valid at *
      omega
    unfold freeLoop
    rw [hwrap]
    dsimp only
    by_cases hstop : s.fs.fsNclusters ≤ m + 1 ∧
        start < if s.fs.fsNclusters ≤ m + 1 then 2 else m + 1
    · -- the search began before the first cluster and has come to the last
      rw [if_pos hstop]
      refine ⟨s, .full, rfl, Kept.refl hs, ?_⟩
      intro d hd
      apply hex
      rw [if_pos hstop.1] at hstop
      unfold Examined Valid Standing at *
      split
      · omega
      · omega
    · rw [if_neg hstop]
      have hnext : ∃ x, x = (if s.fs.fsNclusters ≤ m + 1 then 2 else m + 1) := ⟨_, rfl⟩
      obtain ⟨x, hx⟩ := hnext
      rw [← hx] at hstop ⊢
      have hxv : Valid s x := by
        unfold Standing Valid at *
        split at hx <;> omega
      obtain ⟨hget, hkept⟩ := getcluster_ok hs hxv
      rw [hget]
      cases hentry : entry s x with
      | zero => exact ⟨_, _, rfl, hkept, hxv, hentry⟩
      | succ e =>
        dsimp only
        have hex' : ∀ d, Examined s start x d → entry s d ≠ 0 := by
          intro d hd
          by_cases hdx : d = x
          · rw [hdx, hentry]
            exact Nat.succ_ne_zero e
          · apply hex
            unfold Examined Standing Valid at *
            split at hx <;> split at hd <;> split <;> omega
        by_cases hend : x = start
        · rw [if_pos hend]
          refine ⟨_, .full, rfl, hkept, ?_⟩
          intro d hd
          by_cases hdx : d = x
          · rw [hdx, hentry]
            exact Nat.succ_ne_zero e
          · apply hex
            unfold Examined Standing Valid at *
            split at hx <;> split <;> omega
        · rw [if_neg hend]
          have hsame := hkept.same.nclusters
          obtain ⟨s', r, hloop, hkept', hr⟩ := @ih (fatGetcluster .ok .ok x s).1 x hkept.sound
            (hstart.imp id (hkept.valid start).mpr) (by
              unfold Standing Valid at *
              rw [hsame]
              split at hx <;> omega) (by
              unfold leftOver Standing Valid at *
              rw [hsame]
              split at hx <;> split at hfuel <;> split <;> omega) (by
              intro d hd
              rw [hkept.entry]
              apply hex'
              unfold Examined at *
              rw [hsame] at hd
              exact hd)
          exact ⟨s', r, hloop, hkept.trans hkept', hkept.finds hr⟩

theorem search_spec {fuel : Nat} (hs : Sound s) (hstart : start = 1 ∨ Valid s start)
    (hfuel : s.fs.fsNclusters + 1 < fuel) :
    ∃ s' r, freeLoop start fuel start s = some (s', r) ∧ Kept s s' ∧ Finds s r := by
  apply freeLoop_spec hs hstart
  · exact .inl ⟨Nat.le_refl _, .inr rfl⟩
  · unfold leftOver Valid at *
    rw [if_pos (Nat.le_refl _)]
    omega
  · intro d hd
    unfold Examined at hd
    rw [if_pos (Nat.le_refl _)] at hd
    omega

end

/-- The last value of the width, which marks the end of a chain. -/
def endMark (type : FsType) : Nat := entryRange type - 1

def Stores (type : FsType) (beyond v : Nat) : Prop :=
  readBack type beyond v = v % entryRange type

def Untouched (s s' : State) : Prop := ∀ d, Valid s d → entry s' d = entry s d

structure Linked (beyond beyond' c x : Nat) (s s' : State) : Prop where
  valid : Valid s x
  free : entry s x = 0
  marked : Stores s.fs.fsType beyond 0x0fffffff → entry s' x = endMark s.fs.fsType
  linked : c ≠ 0 → Stores s.fs.fsType beyond' x → entry s' c = x
  others : ∀ d, Valid s d → d ≠ x → d ≠ c → entry s' d = entry s d

/-- What `fat_extendchain` of `c` owes, for each place that `c` may have. -/
structure Extended (beyond beyond' c : Nat) (s s' : State) (r : Option Nat) : Prop where
  outside : c ≠ 0 → ¬ Valid s c → r = none ∧ Untouched s s'
  absent : Valid s c → entry s c < 2 → r = some 0 ∧ Untouched s s'
  followed : Valid s c → 2 ≤ entry s c → entry s c < s.fs.fsNclusters →
    r = some (entry s c) ∧ Untouched s s'
  last : c = 0 ∨ (Valid s c ∧ s.fs.fsNclusters ≤ entry s c) →
    (r = some 0 ∧ (∀ d, Valid s d → entry s d ≠ 0) ∧ Untouched s s') ∨
      ∃ x, r = some x ∧ Linked beyond beyond' c x s s'

section

variable {s s' : State} {beyond beyond' c x : Nat}

theorem Kept.untouched (h : Kept s s') : Untouched s s' := fun d _ => h.entry d

theorem marked_range (hs : Sound s) : 0x0fffffff % entryRange s.fs.fsType = endMark s.fs.fsType := by
  have htype := hs.type
  cases h : s.fs.fsType with
  | none => exact absurd h htype
  | fat12 => decide
  | fat16 => decide
  | fat32 => decide

theorem Written.valid {v : Nat} (h : Written s s' c v) (d : Nat) : Valid s' d ↔ Valid s d := by
  unfold Valid
  rw [h.same.nclusters]

theorem finish_counted (x : Nat) (s : State) : Counted s (countFree (-1) (setNextfree x s)) :=
  (setNextfree_counted x s).trans (countFree_counted _ _)

theorem Linked.of_kept {s1 : State} (h : Kept s s1) (L : Linked beyond beyond' c x s1 s') :
    Linked beyond beyond' c x s s' where
  valid := (h.valid x).mp L.valid
  free := (h.entry x).symm.trans L.free
  marked := h.same.type ▸ L.marked
  linked := h.same.type ▸ L.linked
  others d hd hdx hdc := by rw [L.others d ((h.valid d).mpr hd) hdx hdc, h.entry]

theorem linkCluster_spec (beyond beyond' : Nat) (hs : Sound s) (hx : Valid s x) (hfree : entry s x = 0)
    (hc : c = 0 ∨ (Valid s c ∧ entry s c ≠ 0)) :
    ∃ s', linkCluster beyond beyond' c x s = (s', some x) ∧
      Linked beyond beyond' c x s s' := by
  obtain ⟨hok, W⟩ := putcluster_ok hs hx beyond 0x0fffffff
  have hlt : x % entryRange s.fs.fsType = x :=
    Nat.mod_eq_of_lt (Nat.lt_trans hx.2 hs.nclusters)
  unfold linkCluster
  dsimp only
  rw [hok, if_neg (by decide)]
  by_cases h0 : c = 0
  · rw [if_neg (not_not.mpr h0)]
    have C := finish_counted x (fatPutcluster .ok .ok beyond x 0x0fffffff s).1
    refine ⟨_, rfl, hx, hfree, ?_, ?_, ?_⟩
    · intro hstores
      rw [C.entry, W.entry x hx, if_pos rfl, hstores, marked_range hs]
    · intro hne
      exact absurd h0 hne
    · intro d hd hdx _
      rw [C.entry, W.entry d hd, if_neg hdx]
  · obtain ⟨hcv, hcused⟩ := hc.resolve_left h0
    have hcx : c ≠ x := by
      rintro rfl
      exact hcused hfree
    obtain ⟨hok', W'⟩ := putcluster_ok W.sound ((W.valid c).mpr hcv) beyond' x
    rw [if_pos h0, hok', if_neg (by decide)]
    have C := finish_counted x (fatPutcluster .ok .ok beyond' c x
      (fatPutcluster .ok .ok beyond x 0x0fffffff s).1).1
    rw [W.same.type] at W'
    refine ⟨_, rfl, hx, hfree, ?_, ?_, ?_⟩
    · intro hstores
      rw [C.entry, W'.entry x ((W.valid x).mpr hx), if_neg (Ne.symm hcx), W.entry x hx, if_pos rfl,
        hstores, marked_range hs]
    · intro _ hstores
      rw [C.entry, W'.entry c ((W.valid c).mpr hcv), if_pos rfl, hstores, hlt]
    · intro d hd hdx hdc
      rw [C.entry, W'.entry d ((W.valid d).mpr hd), if_neg hdc, W.entry d hd, if_neg hdx]

theorem findAndLink_spec (beyond beyond' : Nat) {start fuel : Nat} (hs : Sound s) (hstart : start = 1 ∨ Valid s start)
    (hfuel : s.fs.fsNclusters + 1 < fuel) (hc : c = 0 ∨ (Valid s c ∧ entry s c ≠ 0)) :
    ∃ s' r, findAndLink beyond beyond' fuel c start s = some (s', r) ∧
      ((r = some 0 ∧ (∀ d, Valid s d → entry s d ≠ 0) ∧ Untouched s s') ∨
        ∃ x, r = some x ∧ Linked beyond beyond' c x s s') := by
  obtain ⟨s1, r, hloop, hkept, hfinds⟩ := search_spec hs hstart hfuel
  unfold findAndLink
  rw [hloop]
  cases r with
  | full => exact ⟨s1, some 0, rfl, .inl ⟨rfl, hfinds, hkept.untouched⟩⟩
  | error => exact hfinds.elim
  | free x =>
    have hc1 : c = 0 ∨ (Valid s1 c ∧ entry s1 c ≠ 0) := by
      rw [hkept.entry, hkept.valid]
      exact hc
    obtain ⟨s2, hlink, L⟩ := linkCluster_spec beyond beyond' hkept.sound
      ((hkept.valid x).mpr hfinds.1) ((hkept.entry x).trans hfinds.2) hc1
    exact ⟨s2, some x, congrArg some hlink, .inr ⟨x, rfl, L.of_kept hkept⟩⟩

theorem extendchain_spec {fuel : Nat} (hs : Sound s) (hfuel : s.fs.fsNclusters + 1 < fuel)
    (beyond beyond' c : Nat) : ∃ s' r, fatExtendchain beyond beyond' fuel c s = some (s', r) ∧
      Extended beyond beyond' c s s' r := by
  unfold fatExtendchain
  by_cases h0 : c = 0
  · rw [if_pos h0]
    have hnot : ¬ Valid s c := by
      unfold Valid
      omega
    dsimp only
    have hstart : (if s.fs.fsFsinextfree = 0 ∨ s.fs.fsNclusters ≤ s.fs.fsFsinextfree then 1
        else s.fs.fsFsinextfree) = 1 ∨ Valid s (if s.fs.fsFsinextfree = 0 ∨
          s.fs.fsNclusters ≤ s.fs.fsFsinextfree then 1 else s.fs.fsFsinextfree) := by
      unfold Valid
      split <;> omega
    obtain ⟨s', r, hfind, hr⟩ := findAndLink_spec beyond beyond' hs hstart hfuel (.inl h0)
    exact ⟨s', r, hfind, fun h => absurd h0 h, fun h => absurd h hnot, fun h => absurd h hnot,
      fun _ => hr⟩
  · rw [if_neg h0]
    by_cases hv : Valid s c
    · obtain ⟨hget, hkept⟩ := getcluster_ok hs hv
      dsimp only
      rw [hget]
      dsimp only
      by_cases hlow : entry s c < 2
      · rw [if_pos hlow]
        refine ⟨_, _, rfl, fun _ h => absurd hv h, fun _ _ => ⟨rfl, hkept.untouched⟩, ?_, ?_⟩
        · intro _ h2
          omega
        · rintro (h | ⟨-, h⟩)
          · exact absurd h h0
          · have hn := hv
            unfold Valid at hn
            omega
      · rw [if_neg hlow, hkept.same.nclusters]
        by_cases hnext : entry s c < s.fs.fsNclusters
        · rw [if_pos hnext]
          refine ⟨_, _, rfl, fun _ h => absurd hv h, fun _ h => absurd h hlow,
            fun _ _ _ => ⟨rfl, hkept.untouched⟩, ?_⟩
          rintro (h | ⟨-, h⟩)
          · exact absurd h h0
          · omega
        · rw [if_neg hnext]
          have hn : (fatGetcluster .ok .ok c s).1.fs.fsNclusters + 1 < fuel := by
            rw [hkept.same.nclusters]
            exact hfuel
          have hused : Valid (fatGetcluster .ok .ok c s).1 c ∧
              entry (fatGetcluster .ok .ok c s).1 c ≠ 0 := by
            rw [hkept.valid, hkept.entry]
            exact ⟨hv, by omega⟩
          obtain ⟨s', r, hfind, hr⟩ := findAndLink_spec beyond beyond' hkept.sound
            (.inr hused.1) hn (.inr hused)
          refine ⟨s', r, hfind, fun _ h => absurd hv h, fun _ h => absurd h hlow,
            fun _ _ h => absurd h hnext, fun _ => ?_⟩
          rcases hr with ⟨hr0, hfull, hsame⟩ | ⟨x, hx, L⟩
          · refine .inl ⟨hr0, ?_, ?_⟩
            · intro d hd
              have hd0 := hfull d ((hkept.valid d).mpr hd)
              rw [hkept.entry] at hd0
              exact hd0
            · intro d hd
              rw [hsame d ((hkept.valid d).mpr hd), hkept.entry]
          · exact .inr ⟨x, hx, L.of_kept hkept⟩
    · have hget : fatGetcluster .ok .ok c s = (s, none) := if_neg hv
      dsimp only
      rw [hget]
      exact ⟨s, none, rfl, fun _ _ => ⟨rfl, fun _ _ => rfl⟩, fun h => absurd h hv,
        fun h => absurd h hv, fun h => absurd (h.resolve_left h0).1 hv⟩

end

/-- The clusters of a chain from `c`, up to a number that is no cluster. -/
inductive ChainFrom (s : State) : Nat → List Nat → Prop
  | done {c : Nat} : ¬ Valid s c → ChainFrom s c []
  | next {c : Nat} {l : List Nat} :
      Valid s c → ChainFrom s (entry s c) l → ChainFrom s c (c :: l)

def used (s : State) : Finset Nat :=
  (Finset.range s.fs.fsNclusters).filter fun d => 2 ≤ d ∧ entry s d ≠ 0

section

variable {s s' : State} {beyond : Nat → Nat} {c d : Nat} {l : List Nat}

theorem ChainFrom.unique {l' : List Nat} (h : ChainFrom s c l) (h' : ChainFrom s c l') :
    l = l' := by
  induction h generalizing l' with
  | done hc =>
    cases h' with
    | done _ => rfl
    | next hc' _ => exact absurd hc' hc
  | next hc _ ih =>
    cases h' with
    | done hc' => exact absurd hc hc'
    | next _ h' => rw [ih h']

theorem ChainFrom.tail (h : ChainFrom s c l) (hd : d ∈ l) :
    ∃ l', ChainFrom s d l' ∧ l'.length ≤ l.length := by
  induction h with
  | done _ => cases hd
  | next hc hl ih =>
    rcases List.mem_cons.mp hd with rfl | hd
    · exact ⟨_, .next hc hl, Nat.le_refl _⟩
    · obtain ⟨l', hl', hle⟩ := ih hd
      exact ⟨l', hl', Nat.le_succ_of_le hle⟩

theorem ChainFrom.not_mem (h : ChainFrom s c (c :: l)) : c ∉ l := by
  intro hc
  cases h with
  | next hv hl =>
    obtain ⟨l', hl', hle⟩ := hl.tail hc
    have heq := hl'.unique (.next hv hl)
    rw [heq, List.length_cons] at hle
    omega

theorem ChainFrom.of_same (h : ChainFrom s c l) (hv : ∀ d, Valid s' d ↔ Valid s d)
    (hsame : ∀ d ∈ l, Valid s d → entry s' d = entry s d) : ChainFrom s' c l := by
  induction h with
  | done hc => exact .done (mt (hv _).mp hc)
  | next hc _ ih =>
    refine .next ((hv _).mpr hc) ?_
    rw [hsame _ List.mem_cons_self hc]
    exact ih fun d hd => hsame d (List.mem_cons_of_mem _ hd)

theorem used_card (s : State) : (used s).card ≤ s.fs.fsNclusters := by
  have hle := Finset.card_filter_le (Finset.range s.fs.fsNclusters)
    fun d => 2 ≤ d ∧ entry s d ≠ 0
  rw [Finset.card_range] at hle
  exact hle

theorem used_lt (hv : ∀ d, Valid s' d ↔ Valid s d) (hc : Valid s c) (hused : entry s c ≠ 0)
    (hentry : ∀ d, Valid s d → entry s' d = if d = c then 0 else entry s d) :
    (used s').card < (used s).card := by
  apply Finset.card_lt_card
  rw [Finset.ssubset_iff_of_subset]
  · refine ⟨c, ?_, ?_⟩
    · exact Finset.mem_filter.mpr ⟨Finset.mem_range.mpr hc.2, hc.1, hused⟩
    · intro hmem
      have hzero := (Finset.mem_filter.mp hmem).2.2
      rw [hentry c hc, if_pos rfl] at hzero
      exact hzero rfl
  · intro d hd
    obtain ⟨hlt, h2, h0⟩ := Finset.mem_filter.mp hd
    have hdv : Valid s d := (hv d).mp ⟨h2, Finset.mem_range.mp hlt⟩
    rw [hentry d hdv] at h0
    refine Finset.mem_filter.mpr ⟨Finset.mem_range.mpr hdv.2, h2, ?_⟩
    by_cases hdc : d = c
    · rw [if_pos hdc] at h0
      exact absurd rfl h0
    · rw [if_neg hdc] at h0
      exact h0

theorem removechain_succ (hs : Sound s) (hv : Valid s c) (fuel : Nat)
    (hzero : readBack s.fs.fsType (beyond fuel) 0 = 0) :
    ∃ s1, fatRemovechain beyond (fuel + 1) c s = fatRemovechain beyond fuel (entry s c) s1 ∧ Sound s1 ∧
      s1.fs.fsNclusters = s.fs.fsNclusters ∧ s1.fs.fsType = s.fs.fsType ∧
      ∀ d, Valid s d → entry s1 d = if d = c then 0 else entry s d := by
  obtain ⟨hget, hkept⟩ := getcluster_ok hs hv
  obtain ⟨hput, W⟩ := putcluster_ok hkept.sound ((hkept.valid c).mpr hv) (beyond fuel) 0
  have C := countFree_counted 1
    (fatPutcluster .ok .ok (beyond fuel) c 0 (fatGetcluster .ok .ok c s).1).1
  rw [hkept.same.type, hzero] at W
  refine ⟨_, ?_, C.sound W.sound, C.nclusters.trans (W.same.nclusters.trans hkept.same.nclusters),
    C.type.trans (W.same.type.trans hkept.same.type), ?_⟩
  · have hin : 2 ≤ c ∧ c < s.fs.fsNclusters := hv
    rw [fatRemovechain, if_pos hin]
    dsimp only
    rw [hget]
    dsimp only
    rw [hput, if_neg (by decide)]
  · intro d hd
    rw [C.entry, W.entry d ((hkept.valid d).mpr hd), hkept.entry]

theorem removechain_done (hc : ¬ Valid s c) (fuel : Nat) :
    fatRemovechain beyond (fuel + 1) c s = some (s, true) :=
  if_neg hc

/-- The loop ends on every content, since what it has visited is free; a chain that ends is freed. -/
theorem removechain_spec {fuel : Nat} (hs : Sound s)
    (hzero : ∀ k, readBack s.fs.fsType (beyond k) 0 = 0) (hfuel : (used s).card + 1 < fuel) :
    ∃ s', fatRemovechain beyond fuel c s = some (s', true) ∧ ∀ l, ChainFrom s c l →
      ∀ d, Valid s d → entry s' d = if d ∈ l then 0 else entry s d := by
  induction fuel generalizing s c with
  | zero => omega
  | succ fuel ih =>
    by_cases hc : Valid s c
    · obtain ⟨s1, hstep, hs1, hn, htype, hentry⟩ := removechain_succ hs hc fuel (hzero fuel)
      have hv : ∀ d, Valid s1 d ↔ Valid s d := by
        intro d
        unfold Valid
        rw [hn]
      rw [hstep]
      by_cases hused : entry s c = 0
      · -- a free cluster ends the walk
        have hnot : ¬ Valid s1 (entry s c) := by
          unfold Valid
          omega
        obtain ⟨k, rfl⟩ : ∃ k, fuel = k + 1 := ⟨fuel - 1, by omega⟩
        refine ⟨s1, removechain_done hnot k, ?_⟩
        intro l hl d hd
        have hone : l = [c] :=
          hl.unique (.next hc (.done (mt (hv _).mpr hnot)))
        rw [hentry d hd, hone]
        simp only [List.mem_singleton]
      · have hless := used_lt hv hc hused hentry
        obtain ⟨s', hrest, hfreed⟩ := @ih s1 (entry s c) hs1 (htype ▸ hzero) (by omega)
        refine ⟨s', hrest, ?_⟩
        intro l hl d hd
        cases hl with
        | done hc' => exact absurd hc hc'
        | @next _ l' _ hl' =>
          have hnot : c ∉ l' := (ChainFrom.next hc hl').not_mem
          have hl1 : ChainFrom s1 (entry s c) l' := by
            apply hl'.of_same hv
            intro d hdl hdv
            rw [hentry d hdv, if_neg]
            rintro rfl
            exact hnot hdl
          rw [hfreed l' hl1 d ((hv d).mpr hd), hentry d hd]
          by_cases hdc : d = c
          · rw [hdc, if_neg hnot, if_pos rfl, if_pos List.mem_cons_self]
          · rw [if_neg hdc]
            simp only [List.mem_cons, hdc, false_or]
    · refine ⟨s, removechain_done hc fuel, ?_⟩
      intro l hl d _
      have hnil : l = [] := hl.unique (.done hc)
      rw [hnil]
      exact (if_neg List.not_mem_nil).symm

end

/-- On every content and with every hint, `fat_extendchain` ends and does what it owes for the
place of `c`; `fat_removechain` ends and frees the chain, as far as the zeros that it puts are
stored. -/
theorem cluster_chains {s : State} (hs : Sound s) :
    (∀ beyond beyond' fuel c, s.fs.fsNclusters + 1 < fuel →
      ∃ s' r, fatExtendchain beyond beyond' fuel c s = some (s', r) ∧
        Extended beyond beyond' c s s' r) ∧
    ∀ (beyond : Nat → Nat) (fuel c : Nat), (∀ k, Stores s.fs.fsType (beyond k) 0) →
      s.fs.fsNclusters + 1 < fuel →
      ∃ s', fatRemovechain beyond fuel c s = some (s', true) ∧ ∀ l, ChainFrom s c l →
        ∀ d, Valid s d → entry s' d = if d ∈ l then 0 else entry s d := by
  constructor
  · intro beyond beyond' fuel c hfuel
    exact extendchain_spec hs hfuel beyond beyond' c
  · intro beyond fuel c hzero hfuel
    have hcard := used_card s
    exact removechain_spec hs (fun k => (hzero k).trans (Nat.zero_mod _)) (by omega)

/-- A first cluster for a new chain, and the removal of it. -/
theorem cluster_chains_empty :
    (∃ s' r, fatExtendchain 0 0 402 0 (emptyVolume .fat12) = some (s', r) ∧
      Extended 0 0 0 (emptyVolume .fat12) s' r) ∧
    ∃ s', fatRemovechain (fun _ => 0) 402 2 (emptyVolume .fat12) = some (s', true) ∧
      ∀ l, ChainFrom (emptyVolume .fat12) 2 l → ∀ d, Valid (emptyVolume .fat12) d →
        entry s' d = if d ∈ l then 0 else entry (emptyVolume .fat12) d :=
  have h := cluster_chains (@emptyVolume_sound .fat12 (by decide))
  ⟨h.1 0 0 402 0 (by decide), h.2 (fun _ => 0) 402 2 (fun _ => rfl) (by decide)⟩

/-- The result is 0 for a cluster that is not in use, although it is free. -/
theorem extendchain_absent : ¬ ∀ (s : State) (beyond beyond' fuel c : Nat), Sound s → Valid s c →
    s.fs.fsNclusters + 1 < fuel → ∃ s' r, fatExtendchain beyond beyond' fuel c s = some (s', r) ∧
      (r = some 0 → ∀ d, Valid s d → entry s d ≠ 0) := by
  intro hall
  have hs := @emptyVolume_sound .fat12 (by decide)
  have hv : Valid (emptyVolume .fat12) 2 := ⟨by decide, by decide⟩
  have hfree : entry (emptyVolume .fat12) 2 = 0 := by decide
  have hfuel : (emptyVolume .fat12).fs.fsNclusters + 1 < 402 := by decide
  obtain ⟨s', r, he, hr⟩ := hall _ 0 0 402 2 hs hv hfuel
  obtain ⟨s1, r1, he1, E⟩ := extendchain_spec hs hfuel 0 0 2
  rw [he] at he1
  cases he1
  exact hr (E.absent hv (by omega)).1 2 hv hfree

end NuttxAvr32.Fat
