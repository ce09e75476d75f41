import NuttxAvr32.Fat.PathCalls

/-! # Creating an entry

What `fat_open`, `fat_rename` and `fat_mkdir` do by where the path leads: the entry that they
make, and that nothing else changes behind the FATs.
-/

namespace NuttxAvr32.Fat.Paths

open Scan Lookup Allocate
open Function (update update_self update_apply update_of_ne)

section

variable {s s' : State} {dirs : Nat → List Nat} {start first j k x : Nat} {p q : Sector}

theorem bytendx_dvd (V : Tree s dirs) (D : Dir s dirs start first) (j : Nat) :
    32 ∣ dirsecBytendx s.fs j := by
  rw [bytendx_eq (V.table D).sound.size]
  exact Nat.dvd_mul_left _ _

theorem start_zero (V : Tree s dirs) (D : Dir s dirs start first) (h : start = 0) :
    rootStart s.fs = 0 := by
  cases D with
  | root => exact h
  | sub D L hdir => exact absurd h (V.sub (.sub D L hdir)).1

theorem sectorAt_chain {fs : Mountpt} {cs : List Nat} (hcs : cs ≠ []) (k : Nat) :
    sectorAt fs cs k = clusterSector fs (cs.getD (k / fs.fsFatsecperclus) 0) +
      k % fs.fsFatsecperclus := if_neg hcs

theorem slot_behind (V : Volume s dirs) (D : Dir s dirs start first) (j : Nat) :
    Behind s.fs (sectorAt s.fs (dirs start) (j / dirsecNdirs s.fs)) := by
  by_cases hcs : dirs start = []
  · have hroot := (V.rootdata (start_zero V.toTree D ((V.table D).root.mpr hcs))).1
    unfold sectorAt
    rw [if_pos hcs]
    exact Nat.le_trans hroot (Nat.le_add_right _ _)
  · have hdata := V.data
    rw [sectorAt_chain hcs]
    unfold clusterSector
    exact Nat.le_trans hdata (Nat.le_trans (Nat.le_add_right _ _) (Nat.le_add_right _ _))

theorem slot_not_free (V : Volume s dirs) (D : Dir s dirs start first)
    (hj : j < total s.fs (dirs start)) (o : Nat) :
    ¬ InFree s (sectorAt s.fs (dirs start) (j / dirsecNdirs s.fs)) o := by
  intro ⟨c, hv, hfree, hlo, hhi⟩
  have T := V.table D
  have hspc := secperclus_pos T
  by_cases hcs : dirs start = []
  · have hstart := T.root.mpr hcs
    have hroot := (V.rootdata (start_zero V.toTree D hstart)).2
    have hend := (sector_bounds T hj).2
    unfold sectorsEnd at hend
    unfold clusterSector at hlo
    rw [if_pos hcs] at hend
    omega
  · have hq := cluster_lt hcs hj
    have hmem : (dirs start).getD (j / dirsecNdirs s.fs / s.fs.fsFatsecperclus) 0 ∈ dirs start := by
      rw [List.getD_eq_getElem?_getD, List.getElem?_eq_getElem hq]
      exact List.getElem_mem hq
    have hv' := (chain_step T hcs hj).1
    have hused := V.used D _ hmem
    rw [sectorAt_chain hcs] at hlo hhi
    generalize (dirs start).getD (j / dirsecNdirs s.fs / s.fs.fsFatsecperclus) 0 = d at *
    have hmod := Nat.mod_lt (j / dirsecNdirs s.fs) hspc
    have hne : c ≠ d := fun h => hused (h ▸ hfree)
    have hc : 2 ≤ c := hv.1
    have hd : 2 ≤ d := hv'.1
    unfold clusterSector at hlo hhi
    rcases Nat.lt_or_gt_of_ne hne with hlt | hgt
    · have hmul : (c - 2 + 1) * s.fs.fsFatsecperclus ≤ (d - 2) * s.fs.fsFatsecperclus :=
        Nat.mul_le_mul_right _ (by omega)
      rw [Nat.succ_mul] at hmul
      omega
    · have hmul : (d - 2 + 1) * s.fs.fsFatsecperclus ≤ (c - 2) * s.fs.fsFatsecperclus :=
        Nat.mul_le_mul_right _ (by omega)
      rw [Nat.succ_mul] at hmul
      omega

theorem behind_sector (hx : Behind s.fs x) : s.fs.fsFatbase + s.fs.fsNfatsects ≤ x := by
  unfold Behind at hx
  have hone : 1 * s.fs.fsNfatsects ≤ max 1 s.fs.fsFatnumfats * s.fs.fsNfatsects :=
    Nat.mul_le_mul_right _ (by omega)
  omega

theorem view_put (h : s.fs.fsFatbase + s.fs.fsNfatsects ≤ s.fs.fsCurrentsector) (q : Sector)
    (x : Nat) :
    view (setDirty (setBuffer q s)) x = if x = s.fs.fsCurrentsector then q else view s x := by
  have hsectors : ∀ p b, sectors { s.fs with fsBuffer := p, fsDirty := b } =
      [s.fs.fsCurrentsector] := by
    intro p b
    have hcopies : copies { s.fs with fsBuffer := p, fsDirty := b } = 0 := copies_behind h
    unfold sectors
    rw [hcopies]
    rfl
  rw [view_eq, view_eq]
  by_cases hx : x = s.fs.fsCurrentsector
  · rw [if_pos (show x = (setDirty (setBuffer q s)).fs.fsCurrentsector from hx), if_pos hx]
    rfl
  · have hno : ∀ p b, x ∉ sectors { s.fs with fsBuffer := p, fsDirty := b } := by
      intro p b
      rw [hsectors, List.mem_singleton]
      exact hx
    rw [if_neg (show ¬ x = (setDirty (setBuffer q s)).fs.fsCurrentsector from hx), if_neg hx,
      if_neg hx, if_neg fun hd => hno q true hd.2, if_neg fun hd => hno _ _ hd.2]
    rfl

theorem apart_of_used (V : Tree s dirs) (D : Dir s dirs start first) {start' first' : Nat}
    (hfree : FreeSlot s (dirs start) j) (hused : ¬ FreeSlot s (dirs start') k) {o : Nat}
    (D' : Dir s dirs start' first')
    (ho : dirsecBytendx s.fs k ≤ o ∧ o < dirsecBytendx s.fs k + 32) :
    ¬ InSlot s.fs (dirs start) j (sectorAt s.fs (dirs start') (k / dirsecNdirs s.fs)) o := by
  intro ⟨hsector, hlo, hhi⟩
  obtain ⟨a, ha⟩ := bytendx_dvd V D j
  obtain ⟨b, hb⟩ := bytendx_dvd V D' k
  have heq : dirsecBytendx s.fs j = dirsecBytendx s.fs k := by omega
  apply hused
  unfold FreeSlot slotAt at hfree ⊢
  rw [hsector, ← heq]
  exact hfree

end

section

variable {name : Nat → Nat} {e time cluster : Nat} {p old : Sector}

/-- An entry at `e` has got this name and these attributes, and nothing else has changed. -/
structure NewEntry (name : Nat → Nat) (attributes : UInt8) (e : Nat) (p q : Sector) : Prop where
  outside : ∀ x, x < e ∨ e + 32 ≤ x → q x = p x
  name : ∀ k < 11, q (e + k) = UInt8.ofNat (name k)
  attributes : q (e + 11) = attributes

theorem initEntry_new : (∀ x, x < e ∨ e + 32 ≤ x → initEntry name e p x = p x) ∧
    ∀ k < 11, initEntry name e p (e + k) = UInt8.ofNat (name k) := by
  refine ⟨fun x hx => ?_, fun k hk => ?_⟩
  · unfold initEntry
    rw [if_neg (by omega), if_neg (by omega)]
  · unfold initEntry
    rw [if_pos (by omega), Nat.add_sub_cancel_left]

theorem fileEntry_new : NewEntry name 0x20 e p (fileEntry time name e p) := by
  obtain ⟨hout, hname⟩ := @initEntry_new name e p
  have hput : ∀ x, x < e + 11 ∨ e + 32 ≤ x → fileEntry time name e p x = initEntry name e p x := by
    intro x hx
    unfold fileEntry
    rw [Sync.put_apart (by omega), Sync.put_apart (by omega), Sync.put_apart (by omega),
      Sync.put_apart (by omega)]
    unfold ubytePut
    rw [update_of_ne (by omega), update_of_ne (by omega)]
  refine ⟨fun x hx => ?_, fun k hk => ?_, ?_⟩
  · rw [hput x (by omega), hout x hx]
  · rw [hput _ (by omega), hname k hk]
  · unfold fileEntry
    rw [Sync.put_apart (by omega), Sync.put_apart (by omega), Sync.put_apart (by omega),
      Sync.put_apart (by omega)]
    exact update_self _ _ _

theorem putTimes_apart {x : Nat} (hx : x < e + 14 ∨ e + 32 ≤ x) : putTimes time e p x = p x := by
  unfold putTimes
  rw [Sync.put_apart (by omega), Sync.put_apart (by omega), Sync.put_apart (by omega),
    Sync.put_apart (by omega)]

theorem dirEntry_new : NewEntry name 0x10 e p (dirEntry time cluster name e p) := by
  obtain ⟨hout, hname⟩ := @initEntry_new name e p
  have hput : ∀ x, x < e + 14 ∨ e + 32 ≤ x →
      dirEntry time cluster name e p x = ubytePut (initEntry name e p) (e + 11) 0x10 x := by
    intro x hx
    unfold dirEntry
    rw [Sync.put_apart (by omega), Sync.put_apart (by omega), putTimes_apart hx]
  refine ⟨fun x hx => ?_, fun k hk => ?_, ?_⟩
  · rw [hput x (by omega), ← hout x hx]
    exact update_of_ne (by omega) _ _
  · rw [hput _ (by omega), ← hname k hk]
    exact update_of_ne (by omega) _ _
  · rw [hput _ (by omega)]
    exact update_self _ _ _

theorem movedEntry_new : NewEntry name (old 11) e p (movedEntry old name e p) := by
  have hput : ∀ x, x ≠ e + 12 → movedEntry old name e p x =
      if e ≤ x ∧ x < e + 11 then UInt8.ofNat (name (x - e))
      else if e + 11 ≤ x ∧ x < e + 32 then old (x - e) else p x := by
    intro x hx
    unfold movedEntry ubytePut
    exact update_of_ne hx _ _
  refine ⟨fun x hx => ?_, fun k hk => ?_, ?_⟩
  · rw [hput x (by omega), if_neg (by omega), if_neg (by omega)]
  · rw [hput _ (by omega), if_pos (by omega), Nat.add_sub_cancel_left]
  · rw [hput _ (by omega), if_neg (by omega), if_pos (by omega), Nat.add_sub_cancel_left]

theorem dirname_bounds (c : Component) (k : Nat) : 0x20 ≤ c.dirname k ∧ c.dirname k < 0x7f := by
  have hchar : ∀ ch, Names.Permitted ch → 0x20 ≤ Names.toupper ch ∧ Names.toupper ch < 0x7f := by
    intro ch h
    have hgraph := h.1
    unfold Names.isgraph at hgraph
    have hrange : 0x20 < ch ∧ ch < 0x7f := by simpa using hgraph
    unfold Names.toupper
    split
    · rename_i hlower
      unfold Names.islower at hlower
      have hl : 0x61 ≤ ch ∧ ch ≤ 0x7a := by simpa using hlower
      omega
    · omega
  have hpart : ∀ (l : List Nat) (b : Nat) (f : Nat → Nat), (∀ ch ∈ l, Names.Permitted ch) →
      (0x20 ≤ f k ∧ f k < 0x7f) → 0x20 ≤ Overlay.overlay b (l.map Names.toupper) f k ∧
        Overlay.overlay b (l.map Names.toupper) f k < 0x7f := by
    intro l b f hl hf
    unfold Overlay.overlay
    split
    · rw [List.getElem?_map]
      cases hget : l[k - b]? with
      | none => exact hf
      | some ch => exact hchar ch (hl ch (List.mem_of_getElem? hget))
    · exact hf
  exact hpart _ _ _ c.isExt.permitted (hpart _ _ _ c.isBase.permitted
    ⟨by decide, by decide⟩)

end

section

variable {s s₁ s₂ s' : State} {dirs : Nat → List Nat} {start first fuel j : Nat} {dir : Fatdir}
  {c : Component} {cs : List Component} {hole : Nat → Nat → Prop} {t : Destination} {b : Bool}
  {room : Nat → Prop}

/-- The first free entry of the directory in which the lookup has failed. -/
structure Allocated (s : State) (dirs : Nat → List Nat) (start first j : Nat)
    (r : State × Fatdir × Option Nat) : Prop extends FirstFree s start (dirs start) j r where
  first : first ≤ j

theorem allocated_spec (V : Volume s dirs) (D : Dir s dirs start first) (h : Reloaded s s₁)
    (hturns : Enough s dirs fuel) (hdir : dir.fdStartcluster = start)
    (hcluster : start = 0 → dir.fdCurrcluster = 0) :
    ∃ r, fatAllocatedirentry fuel dir s₁ = some r ∧
      ((∃ j, Allocated s dirs start first j r) ∨
        ¬ HasSlot s (dirs start) ∧ r.2.2 = none ∧ Reloaded s r.1) := by
  have hfuel := hturns start first D
  obtain ⟨r, hr, hout⟩ := allocate_spec ((V.table D).of_reloaded h) hdir hcluster
    (h.total.symm ▸ hfuel)
  refine ⟨r, hr, ?_⟩
  rcases hout with ⟨j, F₁⟩ | ⟨hno, E⟩
  · have F : FirstFree s start (dirs start) j r := F₁.of_reloaded h
    refine .inl ⟨j, F, ?_⟩
    by_contra hlt
    cases D with
    | root => exact hlt (Nat.zero_le j)
    | sub D L hisdir =>
      obtain ⟨-, h0, h1⟩ := V.sub (.sub D L hisdir)
      rcases (show j = 0 ∨ j = 1 by omega) with rfl | rfl
      · exact h0 F.free
      · exact h1 F.free
  · refine .inr ⟨fun ⟨k, hk, hfree⟩ => hno ⟨k, ?_, ?_⟩, E.entry, (E.of_reloaded h).same⟩
    · rwa [h.total]
    · exact (freeSlot_reloaded h _ k).mpr hfree

theorem slotAt_view (h : SameGeometry s s') (cs : List Nat) (i : Nat) : slotAt s' cs i =
    fun x => view s' (sectorAt s.fs cs (i / dirsecNdirs s.fs)) (dirsecBytendx s.fs i + x) := by
  obtain ⟨p, c, b, free, next, dirty, hfs⟩ := h
  unfold slotAt
  rw [hfs]
  rfl

theorem total_same (h : SameGeometry s s') (cs : List Nat) : total s'.fs cs = total s.fs cs := by
  obtain ⟨p, c, b, free, next, dirty, hfs⟩ := h
  rw [hfs]
  rfl

theorem created_of {r : State × Fatdir × Option Nat} {p q : Sector} {a : UInt8}
    (A : Allocated s dirs start first j r)
    (hsame : SameGeometry s s') (N : NewEntry c.dirname a (dirsecBytendx s.fs j) p q)
    (ha : a.toNat &&& 0x08 = 0) (hb : decide (a.toNat &&& 0x10 ≠ 0) = b)
    (hview : view s' (sectorAt s.fs (dirs start) (j / dirsecNdirs s.fs)) = q)
    (hbefore : ∀ k, first ≤ k → k < j → slotAt s' (dirs start) k 0 ≠ 0)
    (hrest : ∀ x o, Behind s.fs x → ¬ InSlot s.fs (dirs start) j x o → ¬ hole x o →
      view s' x o = view s x o) :
    Created s s' (dirs start) first c.dirname b hole := by
  have hslot : ∀ x, slotAt s' (dirs start) j x = q (dirsecBytendx s.fs j + x) := by
    intro x
    rw [slotAt_view hsame, hview]
  have hname : ∀ k < 11, (slotAt s' (dirs start) j k).toNat = c.dirname k := by
    intro k hk
    have hbounds := dirname_bounds c k
    rw [hslot, N.name k hk, UInt8.toNat_ofNat']
    exact Nat.mod_eq_of_lt (by omega)
  have hattr : slotAt s' (dirs start) j 11 = a := (hslot 11).trans N.attributes
  have hzero := hname 0 (by decide)
  have hbounds := dirname_bounds c 0
  have hlive : Readdir.isLive (slotAt s' (dirs start) j) = true := by
    have hne : slotAt s' (dirs start) j 0 ≠ 0xe5 := by
      intro h
      rw [h] at hzero
      have : (0xe5 : UInt8).toNat = 0xe5 := rfl
      omega
    unfold Readdir.isLive
    rw [hattr]
    exact decide_eq_true ⟨hne, ha⟩
  refine ⟨j, A.free, ⟨A.first, ?_, fun k hk hkj => ?_, hlive⟩, ?_, ?_, hrest⟩
  · rw [total_same hsame]
    exact A.stop.range
  · by_cases hkj' : k = j
    · intro h
      rw [hkj'] at h
      rw [h] at hzero
      have : (0 : UInt8).toNat = 0 := rfl
      omega
    · exact hbefore k hk (by omega)
  · unfold isNamed
    rw [hlive, Bool.true_and, List.all_eq_true]
    intro k hk
    rw [hname k (List.mem_range.mp hk)]
    exact beq_self_eq_true _
  · unfold isDirectory
    rw [hattr]
    exact hb

structure Outcome (s : State) (dirs : Nat → List Nat) (t : Destination) (b : Bool)
    (hole : Nat → Nat → Prop) (room : Nat → Prop) (r : State × Ret) : Prop where
  present : ∀ start first j, t = .found start first j → Unchanged s r.1
  notdir : t = .notdir → r.2 = .enotdir ∧ Unchanged s r.1
  creates : ∀ start first c last, t = .missing start first c last → room start →
    r.2 = .ok ∧ Created s r.1 (dirs start) first c.dirname b hole
  full : ∀ start first c last, t = .missing start first c last → ¬ room start →
    r.2 ≠ .ok ∧ r.2 ≠ .enoent ∧ r.2 ≠ .enotdir

theorem Outcome.right_iff {r : State × Ret} (O : Outcome s dirs t b hole room r) :
    CreatesRight s dirs t b hole r ↔ Room t room := by
  constructor
  · intro R start first c last ht
    by_cases hroom : room start
    · refine ⟨?_, hroom⟩
      by_contra hlast
      rw [Bool.eq_false_of_not_eq_true hlast] at ht
      have hok := (O.creates start first c false ht hroom).1
      rcases (R.absent start first c ht).1 with h | h
      · rw [hok] at h
        cases h
      · rw [hok] at h
        cases h
    · obtain ⟨hok, hno, hno'⟩ := O.full start first c last ht hroom
      cases last with
      | true => exact absurd (R.create start first c ht).1 hok
      | false =>
        rcases (R.absent start first c ht).1 with h | h
        · exact absurd h hno
        · exact absurd h hno'
  · intro H
    refine ⟨fun start first c ht => O.creates start first c true ht (H _ _ _ _ ht).2,
      fun start first c ht => ?_, fun ht => ⟨.inr (O.notdir ht).1, (O.notdir ht).2⟩, O.present⟩
    have hfalse := (H _ _ _ _ ht).1
    cases hfalse

theorem Outcome.of_found {r : State × Ret} (h : Unchanged s r.1) :
    Outcome s dirs (.found start first j) b hole room r :=
  ⟨fun _ _ _ _ => h, fun ht => (by cases ht), fun _ _ _ _ ht => (by cases ht),
    fun _ _ _ _ ht => (by cases ht)⟩

theorem Outcome.of_notdir (h : Unchanged s s') :
    Outcome s dirs .notdir b hole room (s', .enotdir) :=
  ⟨fun _ _ _ ht => (by cases ht), fun _ => ⟨rfl, h⟩, fun _ _ _ _ ht => (by cases ht),
    fun _ _ _ _ ht => (by cases ht)⟩

theorem Outcome.of_created {last : Bool} (hroom : room start)
    (h : Created s s' (dirs start) first c.dirname b hole) :
    Outcome s dirs (.missing start first c last) b hole room (s', .ok) := by
  refine ⟨fun _ _ _ ht => (by cases ht), fun ht => (by cases ht), fun _ _ _ _ ht _ => ?_,
    fun _ _ _ _ ht hno => ?_⟩
  · cases ht
    exact ⟨rfl, h⟩
  · cases ht
    exact absurd hroom hno

theorem Outcome.of_full {last : Bool} {ret : Ret} (hroom : ¬ room start)
    (hret : ret ≠ .ok ∧ ret ≠ .enoent ∧ ret ≠ .enotdir) :
    Outcome s dirs (.missing start first c last) b hole room (s', ret) := by
  refine ⟨fun _ _ _ ht => (by cases ht), fun ht => (by cases ht), fun _ _ _ _ ht h => ?_,
    fun _ _ _ _ _ _ => hret⟩
  cases ht
  exact absurd h hroom

end

section

variable {env : Env} {s s₁ : State} {dirs : Nat → List Nat} {start first j : Nat}
  {c : Component} {cs : List Component}

theorem find_spec (env : Env) (c : Component) (cs : List Component) (V : Tree s dirs)
    (h : Reloaded s s₁) (hturns : Enough s dirs env.fuel) (hfuel : cs.length < env.fuel) :
    ∃ r, find env (pathOf c cs) s₁ = some r ∧ Locates s dirs (target s dirs c cs) r :=
  finddirentry_spec V h hturns hfuel env.fdName

theorem put_slot (V : Volume s dirs) (D : Dir s dirs start first)
    {r : State × Fatdir × Option Nat} (S : StopsAt s start (dirs start) j r) (q : Sector) :
    SameGeometry s (setDirty (setBuffer q r.1)) ∧ ∀ x,
      view (setDirty (setBuffer q r.1)) x =
        if x = sectorAt s.fs (dirs start) (j / dirsecNdirs s.fs) then q else view s x := by
  have F := S.same.frames (D := fun _ => True)
  have hbehind := F.same.behind.mpr (slot_behind V D j)
  rw [← S.sector] at hbehind
  refine ⟨F.same.trans ⟨q, r.1.fs.fsCurrentsector, true, r.1.fs.fsFsifreecount,
    r.1.fs.fsFsinextfree, r.1.fs.fsFsidirty, rfl⟩, fun x => ?_⟩
  rw [view_put (behind_sector hbehind), S.sector, S.same.view]

theorem slot_buffer {r : State × Fatdir × Option Nat} (S : StopsAt s start (dirs start) j r) :
    r.1.fs.fsBuffer = view s (sectorAt s.fs (dirs start) (j / dirsecNdirs s.fs)) := by
  rw [← S.same.view, ← S.sector, view_current]

theorem put_outside {r : State × Fatdir × Option Nat} (S : StopsAt s start (dirs start) j r)
    {name : Nat → Nat} {a : UInt8} {q : Sector} {x o : Nat}
    (N : NewEntry name a (dirsecBytendx s.fs j) r.1.fs.fsBuffer q)
    (hno : ¬ InSlot s.fs (dirs start) j x o) :
    (if x = sectorAt s.fs (dirs start) (j / dirsecNdirs s.fs) then q else view s x) o =
      view s x o := by
  by_cases hx : x = sectorAt s.fs (dirs start) (j / dirsecNdirs s.fs)
  · have hout : o < dirsecBytendx s.fs j ∨ dirsecBytendx s.fs j + 32 ≤ o := by
      by_contra hin
      exact hno ⟨hx, by omega, by omega⟩
    rw [if_pos hx, N.outside o hout, slot_buffer S, hx]
  · rw [if_neg hx]

theorem before_used (V : Volume s dirs) (D : Dir s dirs start first) {s' : State}
    {r : State × Fatdir × Option Nat} (A : Allocated s dirs start first j r)
    (hsame : SameGeometry s s') {k : Nat} (hk : k < j)
    (hat : ¬ InSlot s.fs (dirs start) j (sectorAt s.fs (dirs start) (k / dirsecNdirs s.fs))
        (dirsecBytendx s.fs k) →
      view s' (sectorAt s.fs (dirs start) (k / dirsecNdirs s.fs)) (dirsecBytendx s.fs k) =
          view s (sectorAt s.fs (dirs start) (k / dirsecNdirs s.fs)) (dirsecBytendx s.fs k) ∨
        view s' (sectorAt s.fs (dirs start) (k / dirsecNdirs s.fs)) (dirsecBytendx s.fs k) ≠ 0) :
    slotAt s' (dirs start) k 0 ≠ 0 := by
  have hused := A.used k hk
  have hno := apart_of_used V.toTree D A.free hused (o := dirsecBytendx s.fs k) D
    ⟨Nat.le_refl _, by omega⟩
  rw [slotAt_view hsame]
  rcases hat hno with heq | hne
  · intro hzero
    apply hused
    left
    unfold slotAt
    exact heq.symm.trans hzero
  · exact hne

theorem open_outcome (V : Volume s dirs) (hturns : Enough s dirs env.fuel)
    (hfuel : cs.length < env.fuel) (excl wronly : Bool) :
    ∃ r, fatOpen env excl wronly (pathOf c cs) s = some r ∧
      Outcome s dirs (target s dirs c cs) false (fun _ _ => False)
        (fun start => HasSlot s (dirs start)) r := by
  have hs := (V.table .root).sound
  obtain ⟨⟨s₂, info, ret⟩, hfind, F⟩ := find_spec env c cs V.toTree
    (.refl hs) hturns hfuel
  unfold fatOpen
  rw [hfind]
  cases ht : target s dirs c cs with
  | found start first j =>
    rw [ht] at F
    obtain ⟨hret, D, L, S⟩ := F
    have hret' : ret = .ok := hret
    have he : info.fdEntry = some (dirsecBytendx s.fs j) := S.entry
    subst hret'
    dsimp only
    rw [he]
    dsimp only
    split
    · exact ⟨_, rfl, .of_found S.same.view⟩
    split
    · exact ⟨_, rfl, .of_found S.same.view⟩
    split
    · exact ⟨_, rfl, .of_found S.same.view⟩
    · exact ⟨_, rfl, .of_found S.same.view⟩
  | notdir =>
    rw [ht] at F
    have hret : ret = .enotdir := F.1
    subst hret
    exact ⟨_, rfl, .of_notdir F.2.view⟩
  | missing start first c last =>
    rw [ht] at F
    obtain ⟨(rfl : ret = .enoent), D, hre, hname, hdir, hcluster⟩ := F
    dsimp only at hre hname hdir hcluster ⊢
    unfold fatDircreate
    obtain ⟨⟨s₃, dir, e⟩, halloc, hout⟩ := allocated_spec V D hre hturns hdir hcluster
    rw [halloc]
    rcases hout with ⟨j, A⟩ | ⟨hslot, hnone, -⟩
    · obtain rfl : e = some (dirsecBytendx s.fs j) := A.stop.entry
      have N := @fileEntry_new info.fdName (dirsecBytendx s.fs j) env.time s₃.fs.fsBuffer
      obtain ⟨hsame, hview⟩ := put_slot V D A.stop
        (fileEntry env.time info.fdName (dirsecBytendx s.fs j) s₃.fs.fsBuffer)
      rw [hname] at N
      have hrest : ∀ x o, ¬ InSlot s.fs (dirs start) j x o →
          view (setDirty (setBuffer (fileEntry env.time info.fdName (dirsecBytendx s.fs j)
            s₃.fs.fsBuffer) s₃)) x o = view s x o := by
        intro x o hno
        rw [hview, hname]
        exact put_outside A.stop N hno
      refine ⟨_, rfl, .of_created ⟨j, A.stop.range, A.free⟩ ?_⟩
      refine created_of A hsame N (by decide) (by decide) ?_ (fun k _ hkj => ?_)
        fun x o _ hno _ => hrest x o hno
      · rw [hview, if_pos rfl, hname]
      · exact before_used V D A hsame hkj fun hno => .inl (hrest _ _ hno)
    · obtain rfl : e = none := hnone
      exact ⟨_, rfl, .of_full hslot (by decide)⟩

end

/-- The sectors of `D` are read as `W`, on the volume of `s`. -/
structure Shows (D : Nat → Prop) (s : State) (W : Nat → Sector) (s' : State) : Prop where
  same : SameGeometry s s'
  sound : Sound s'
  view : ∀ x, D x → view s' x = W x

section

variable {D : Nat → Prop} {s s' s'' : State} {W : Nat → Sector} {q : Sector} {x o e : Nat}
  {v : UInt8}

theorem Shows.of_reloaded (h : Reloaded s s') : Shows D s (Fat.view s) s' :=
  ⟨(h.frames (D := D)).same, h.sound, fun x _ => h.view x⟩

theorem Shows.frames (h : Shows D s W s') (F : Frames D s' s'') : Shows D s W s'' :=
  ⟨h.same.trans F.same, F.sound, fun x hx => (F.view x hx).trans (h.view x hx)⟩

theorem Shows.put (h : Shows D s W s') (hx : s'.fs.fsCurrentsector = x) (hbehind : Behind s.fs x) :
    Shows D s (update W x q) (setDirty (setBuffer q s')) where
  same := h.same.trans ⟨q, s'.fs.fsCurrentsector, true, s'.fs.fsFsifreecount,
    s'.fs.fsFsinextfree, s'.fs.fsFsidirty, rfl⟩
  sound := setBuffer_sound h.sound q
  view y hy := by
    have hcur := h.same.behind.mpr hbehind
    rw [← hx] at hcur
    rw [view_put (behind_sector hcur), hx, update_apply, h.view y hy]

theorem Shows.load (h : Shows D s W s') (hx : x < 2 ^ 32) :
    Shows D s W (cacheread .ok x s').1 ∧
      (cacheread .ok x s').1.fs.fsCurrentsector = x ∧
        (D x → (cacheread .ok x s').1.fs.fsBuffer = W x) := by
  rw [cacheread_ok h.sound]
  refine ⟨h.frames (Reloaded.load h.sound hx).frames, load_current x s', fun hD => ?_⟩
  rw [load_view]
  exact h.view x hD

theorem Shows.updatefsinfo (h : Shows D s W s') (hD : ∀ x, D x → Behind s.fs x)
    (hfsinfo : s.fs.fsType = .fat32 → s.fs.fsFsinfo < s.fs.fsFatbase) (beyond : Nat) :
    Shows D s W (fatUpdatefsinfo beyond none none s').1 := by
  refine h.frames (updatefsinfo_frames h.sound beyond ?_ fun x hx =>
    h.same.behind.mpr (hD x hx)).2
  obtain ⟨p, c, b, free, next, dirty, hfs⟩ := h.same
  rw [hfs]
  exact hfsinfo

theorem NewEntry.put {name : Nat → Nat} {a : UInt8} {p : Sector} (N : NewEntry name a e p q)
    (ho : o < e ∨ e + 32 ≤ o) :
    NewEntry name a e (update p o v) (update q o v) where
  outside x hx := by
    by_cases hxo : x = o
    · rw [hxo, update_self, update_self]
    · rw [update_of_ne hxo, update_of_ne hxo, N.outside x hx]
  name k hk := (update_of_ne (by omega) _ _).trans (N.name k hk)
  attributes := (update_of_ne (by omega) _ _).trans N.attributes

end

section

variable {env : Env} {s : State} {dirs : Nat → List Nat} {start first j : Nat}
  {c old : Component} {cs olds : List Component}

theorem liveAt_used {cs : List Nat} (L : LiveAt s cs first j) : ¬ FreeSlot s cs j := by
  have hlive := L.2.2.2
  unfold Readdir.isLive at hlive
  have h := of_decide_eq_true hlive
  rintro (hzero | hdeleted)
  · exact L.2.2.1 j L.1 (Nat.le_refl j) hzero
  · exact h.1 hdeleted

theorem liveAt_attributes {cs : List Nat} (L : LiveAt s cs first j) :
    (slotAt s cs j 11).toNat &&& 0x08 = 0 := by
  have hlive := L.2.2.2
  unfold Readdir.isLive at hlive
  exact (of_decide_eq_true hlive).2

theorem moved_created (V : Volume s dirs) {start₀ first₀ j₀ : Nat} (D : Dir s dirs start first)
    (D₀ : Dir s dirs start₀ first₀) (L : LiveAt s (dirs start₀) first₀ j₀)
    {r : State × Fatdir × Option Nat} (A : Allocated s dirs start first j r) (beyond : Nat)
    {name : Nat → Nat} (hname : name = c.dirname) :
    let q := movedEntry (slotAt s (dirs start₀) j₀) name (dirsecBytendx s.fs j) r.1.fs.fsBuffer
    let s₄ := setDirty (setBuffer q r.1)
    let s₅ := (cacheread .ok (sectorAt s.fs (dirs start₀) (j₀ / dirsecNdirs s.fs)) s₄).1
    let s₆ := setDirty (setBuffer (ubytePut s₅.fs.fsBuffer (dirsecBytendx s.fs j₀) 0xe5) s₅)
    Created s (fatUpdatefsinfo beyond none none s₆).1 (dirs start) first c.dirname
      (isDirectory (slotAt s (dirs start₀) j₀)) (InSlot s.fs (dirs start₀) j₀) := by
  intro q s₄ s₅ s₆
  subst hname
  have hbehind := slot_behind V D j
  have hbehind₀ := slot_behind V D₀ j₀
  have N : NewEntry c.dirname (slotAt s (dirs start₀) j₀ 11) (dirsecBytendx s.fs j)
      r.1.fs.fsBuffer q := movedEntry_new
  have hlt₀ : sectorAt s.fs (dirs start₀) (j₀ / dirsecNdirs s.fs) < 2 ^ 32 :=
    Nat.lt_trans (sector_bounds (V.table D₀) L.2.1).2 (sectorsEnd_lt (V.table D₀))
  have S₄ : Shows (Behind s.fs) s _ s₄ :=
    (Shows.of_reloaded A.stop.same).put (q := q) A.stop.sector hbehind
  obtain ⟨S₅, hcur₅, hbuf₅⟩ := S₄.load hlt₀
  have S₆ := S₅.put (q := ubytePut s₅.fs.fsBuffer (dirsecBytendx s.fs j₀) 0xe5) hcur₅ hbehind₀
  have S₇ := S₆.updatefsinfo (fun _ h => h) V.fsinfo beyond
  -- what is read in the end
  have hread : ∀ y, Behind s.fs y → view (fatUpdatefsinfo beyond none none s₆).1 y =
      if y = sectorAt s.fs (dirs start₀) (j₀ / dirsecNdirs s.fs) then
        update
          (if y = sectorAt s.fs (dirs start) (j / dirsecNdirs s.fs) then q else view s y)
          (dirsecBytendx s.fs j₀) 0xe5
      else if y = sectorAt s.fs (dirs start) (j / dirsecNdirs s.fs) then q else view s y := by
    intro y hy
    rw [S₇.view y hy, update_apply]
    by_cases hy₀ : y = sectorAt s.fs (dirs start₀) (j₀ / dirsecNdirs s.fs)
    · rw [if_pos hy₀, if_pos hy₀, hbuf₅ hbehind₀, update_apply, hy₀]
      rfl
    · rw [if_neg hy₀, if_neg hy₀, update_apply]
  have hkey : ∀ y o, Behind s.fs y → ¬ InSlot s.fs (dirs start) j y o →
      ¬ (y = sectorAt s.fs (dirs start₀) (j₀ / dirsecNdirs s.fs) ∧
        o = dirsecBytendx s.fs j₀) →
      view (fatUpdatefsinfo beyond none none s₆).1 y o = view s y o := by
    intro y o hy hno hno₀
    rw [hread y hy]
    by_cases hy₀ : y = sectorAt s.fs (dirs start₀) (j₀ / dirsecNdirs s.fs)
    · rw [if_pos hy₀, update_of_ne fun ho => hno₀ ⟨hy₀, ho⟩]
      exact put_outside A.stop N hno
    · rw [if_neg hy₀]
      exact put_outside A.stop N hno
  have hold := apart_of_used V.toTree D A.free (liveAt_used L) D₀
    (o := dirsecBytendx s.fs j₀) ⟨Nat.le_refl _, by omega⟩
  have hN : ∃ p, NewEntry c.dirname (slotAt s (dirs start₀) j₀ 11) (dirsecBytendx s.fs j) p
      (view (fatUpdatefsinfo beyond none none s₆).1
        (sectorAt s.fs (dirs start) (j / dirsecNdirs s.fs))) := by
    rw [hread _ hbehind, if_pos rfl]
    split
    · rename_i hsame
      refine ⟨_, N.put ?_⟩
      by_contra hin
      exact hold ⟨hsame.symm, by omega, by omega⟩
    · exact ⟨_, N⟩
  obtain ⟨p, hN⟩ := hN
  refine created_of A S₇.same hN (liveAt_attributes L) rfl rfl (fun k _ hkj => ?_)
    fun y o hy hno hno₀ => hkey y o hy hno fun h => hno₀ ⟨h.1, by omega, by omega⟩
  apply before_used V D A S₇.same hkj
  intro hno
  by_cases hat : sectorAt s.fs (dirs start) (k / dirsecNdirs s.fs) =
      sectorAt s.fs (dirs start₀) (j₀ / dirsecNdirs s.fs) ∧
        dirsecBytendx s.fs k = dirsecBytendx s.fs j₀
  · right
    rw [hread _ (slot_behind V D k), if_pos hat.1, hat.2, update_self]
    decide
  · left
    exact hkey _ _ (slot_behind V D k) hno hat

theorem rename_outcome (V : Volume s dirs) (hturns : Enough s dirs env.fuel)
    (hfuel : cs.length < env.fuel) (hfuel' : olds.length < env.fuel) {start₀ first₀ j₀ : Nat}
    (hold : target s dirs old olds = .found start₀ first₀ j₀) :
    ∃ r, fatRename env (pathOf old olds) (pathOf c cs) s = some r ∧
      Outcome s dirs (target s dirs c cs) (isDirectory (slotAt s (dirs start₀) j₀))
        (InSlot s.fs (dirs start₀) j₀) (fun start => HasSlot s (dirs start)) r := by
  have hs := (V.table .root).sound
  obtain ⟨⟨s₁, info₁, ret₁⟩, hfind₁, F₁⟩ := find_spec env old olds V.toTree
    (.refl hs) hturns hfuel'
  rw [hold] at F₁
  obtain ⟨hret₁, D₀, L, S₀⟩ := F₁
  have hret₁' : ret₁ = .ok := hret₁
  have he₁ : info₁.fdEntry = some (dirsecBytendx s.fs j₀) := S₀.entry
  have hat₁ : entryAt s₁.fs (dirsecBytendx s.fs j₀) = slotAt s (dirs start₀) j₀ := S₀.entryAt
  have hsec₁ : s₁.fs.fsCurrentsector = _ := S₀.sector
  subst hret₁'
  obtain ⟨⟨s₂, info, ret⟩, hfind, F⟩ := find_spec env c cs V.toTree
    S₀.same hturns hfuel
  unfold fatRename
  rw [hfind₁]
  dsimp only
  rw [he₁]
  dsimp only
  rw [hfind]
  cases ht : target s dirs c cs with
  | found start first j =>
    rw [ht] at F
    obtain ⟨(rfl : ret = .ok), D, L', S⟩ := F
    exact ⟨_, rfl, .of_found S.same.view⟩
  | notdir =>
    rw [ht] at F
    have hret : ret = .enotdir := F.1
    subst hret
    exact ⟨_, rfl, .of_notdir F.2.view⟩
  | missing start first c last =>
    rw [ht] at F
    obtain ⟨(rfl : ret = .enoent), D, hre, hname, hdir, hcluster⟩ := F
    dsimp only at hre hname hdir hcluster ⊢
    obtain ⟨⟨s₃, dir, e⟩, halloc, hout⟩ := allocated_spec V D hre hturns hdir hcluster
    rw [halloc]
    rcases hout with ⟨j, A⟩ | ⟨hslot, hnone, -⟩
    · obtain rfl : e = some (dirsecBytendx s.fs j) := A.stop.entry
      have hcreated := moved_created V D D₀ L A (env.beyond 2) hname
      dsimp only at hcreated ⊢
      rw [hat₁, hsec₁]
      exact ⟨_, rfl, .of_created ⟨j, A.stop.range, A.free⟩ hcreated⟩
    · obtain rfl : e = none := hnone
      exact ⟨_, rfl, .of_full hslot (by decide)⟩

end

section

variable {env : Env} {s s' : State} {dirs : Nat → List Nat} {start first j cluster parent : Nat}
  {c : Component} {cs : List Component} {D : Nat → Prop}

theorem zeroSectors_fs (n k : Nat) (s : State) : (zeroSectors n k s).fs = s.fs := by
  induction n generalizing k s with
  | zero => rfl
  | succ n ih => exact ih (k + 1) _

theorem zeroSectors_dev {n k x : Nat} (hx : x ≤ k ∨ k + n < x) :
    (zeroSectors n k s).dev x = s.dev x := by
  induction n generalizing k s with
  | zero => rfl
  | succ n ih =>
    have hrest := ih (s := { s with
      dev := update s.dev (k + 1) s.fs.fsBuffer
      written := s.written ++ [k + 1] }) (k := k + 1) (by omega)
    exact hrest.trans (update_of_ne (by omega) _ _)

theorem cluster2sector_same (h : SameGeometry s s') (cluster : Nat) :
    fatCluster2sector s'.fs cluster = fatCluster2sector s.fs cluster := by
  obtain ⟨p, c, b, free, next, dirty, hfs⟩ := h
  rw [hfs]
  rfl

theorem fillCluster_frames (hs : Sound s)
    (hsector : wrapInt (fatCluster2sector s.fs cluster) = clusterSector s.fs cluster)
    (hbehind : Behind s.fs (clusterSector s.fs cluster))
    (hlt : clusterSector s.fs cluster < 2 ^ 32)
    (hspc : 0 < s.fs.fsFatsecperclus)
    (hD : ∀ x, D x → Behind s.fs x ∧ ¬ (clusterSector s.fs cluster ≤ x ∧
      x < clusterSector s.fs cluster + s.fs.fsFatsecperclus)) :
    Frames D s (fillCluster env cluster parent s) := by
  have hflush := Reloaded.flush hs
  obtain ⟨c, hfs⟩ := flush_fs s
  unfold fillCluster
  rw [hsector]
  dsimp only
  generalize hzero : (fun x => if x < (fatFscacheflush none s).1.fs.fsHwsectorsize then 0
    else (fatFscacheflush none s).1.fs.fsBuffer x : Sector) = zero
  let s₁ : State :=
    { (fatFscacheflush none s).1 with
      fs :=
        { (fatFscacheflush none s).1.fs with
          fsBuffer := zero
          fsCurrentsector := clusterSector s.fs cluster } }
  let s₂ := zeroSectors (s₁.fs.fsFatsecperclus - 1) (clusterSector s.fs cluster) s₁
  have hfs₂ : s₂.fs = s₁.fs := zeroSectors_fs _ _ _
  have hfilled : ∀ q, (setDirty (setBuffer q s₂)).fs =
      { s.fs with
        fsBuffer := q
        fsCurrentsector := clusterSector s.fs cluster
        fsDirty := true } := by
    intro q
    show ({ s₂.fs with fsBuffer := q, fsDirty := true } : Mountpt) = _
    rw [hfs₂]
    show ({ (fatFscacheflush none s).1.fs with
      fsBuffer := q
      fsCurrentsector := clusterSector s.fs cluster
      fsDirty := true } : Mountpt) = _
    rw [hfs]
    rfl
  show Frames D s (setDirty (setBuffer _ s₂))
  generalize dotEntries env.time cluster _ _ = q
  have hcur : (setDirty (setBuffer q s₂)).fs.fsCurrentsector = clusterSector s.fs cluster := by
    show s₂.fs.fsCurrentsector = _
    rw [hfs₂]
  have hgeometry : SameGeometry s (setDirty (setBuffer q s₂)) :=
    ⟨q, clusterSector s.fs cluster, true, s.fs.fsFsifreecount, s.fs.fsFsinextfree,
      s.fs.fsFsidirty, hfilled q⟩
  refine ⟨hgeometry, ?_, fun x hx => ?_⟩
  · have hsame : SameVolume s (setDirty (setBuffer q s₂)) := by
      constructor <;> rw [hfilled]
    exact hsame.sound hs (fun h => by cases h) (hcur ▸ hlt)
  · obtain ⟨hbx, hout⟩ := hD x hx
    have hcopies : copies (setDirty (setBuffer q s₂)).fs = 0 := by
      apply copies_behind
      have hb := behind_sector hbehind
      rw [hcur, hfilled]
      exact hb
    have hspc₁ : s₁.fs.fsFatsecperclus = s.fs.fsFatsecperclus := by
      show (fatFscacheflush none s).1.fs.fsFatsecperclus = _
      rw [hfs]
      rfl
    have hne : x ≠ clusterSector s.fs cluster := fun h => hout ⟨Nat.le_of_eq h.symm, by omega⟩
    have hdev : s₂.dev x = s₁.dev x := zeroSectors_dev (by rw [hspc₁]; omega)
    rw [view_eq, hcur, if_neg hne]
    unfold sectors
    rw [hcopies, hcur]
    rw [if_neg fun h => hne (List.mem_singleton.mp h.2)]
    exact hdev.trans (flush_dev hs x)

/-- The sectors behind the FATs that are in no free cluster. -/
def Used (s : State) (x : Nat) : Prop := Behind s.fs x ∧ ¬ InFree s x 0

theorem made_created (cluster : Nat) (V : Volume s dirs) (D : Dir s dirs start first)
    {r : State × Fatdir × Option Nat} (A : Allocated s dirs start first j r) {s₅ : State}
    (S₅ : Shows (Used s) s (view s) s₅) (beyond : Nat) {name : Nat → Nat}
    (hname : name = c.dirname) (time : Nat) :
    let s₆ := (cacheread .ok r.1.fs.fsCurrentsector s₅).1
    let s₇ := setDirty (setBuffer
      (dirEntry time cluster name (dirsecBytendx s.fs j) s₆.fs.fsBuffer) s₆)
    Created s (fatUpdatefsinfo beyond none none s₇).1 (dirs start) first c.dirname true
      (InFree s) := by
  intro s₆ s₇
  subst hname
  have hbehind := slot_behind V D j
  have hused : ∀ k < total s.fs (dirs start),
      Used s (sectorAt s.fs (dirs start) (k / dirsecNdirs s.fs)) :=
    fun k hk => ⟨slot_behind V D k, slot_not_free V D hk 0⟩
  have hrange := A.stop.range
  have hlt : r.1.fs.fsCurrentsector < 2 ^ 32 := by
    rw [A.stop.sector]
    exact Nat.lt_trans (sector_bounds (V.table D) hrange).2 (sectorsEnd_lt (V.table D))
  obtain ⟨S₆, hcur, hbuf⟩ := S₅.load hlt
  have hbuf' : s₆.fs.fsBuffer = r.1.fs.fsBuffer := by
    rw [slot_buffer A.stop, ← A.stop.sector]
    exact hbuf (by rw [A.stop.sector]; exact hused j hrange)
  have N : NewEntry c.dirname 0x10 (dirsecBytendx s.fs j) r.1.fs.fsBuffer
      (dirEntry time cluster c.dirname (dirsecBytendx s.fs j) r.1.fs.fsBuffer) := dirEntry_new
  have S₇ := (S₆.put (q := dirEntry time cluster c.dirname (dirsecBytendx s.fs j)
    s₆.fs.fsBuffer) (hcur.trans A.stop.sector) hbehind).updatefsinfo (fun _ h => h.1) V.fsinfo
      beyond
  rw [hbuf'] at S₇
  have hread : ∀ x, Used s x → view (fatUpdatefsinfo beyond none none s₇).1 x =
      if x = sectorAt s.fs (dirs start) (j / dirsecNdirs s.fs) then
        dirEntry time cluster c.dirname (dirsecBytendx s.fs j) r.1.fs.fsBuffer
      else view s x := by
    intro x hx
    have hview := S₇.view x hx
    rw [update_apply, ← hbuf'] at hview
    rw [← hbuf']
    exact hview
  have hrest : ∀ x o, Behind s.fs x → ¬ InSlot s.fs (dirs start) j x o → ¬ InFree s x o →
      view (fatUpdatefsinfo beyond none none s₇).1 x o = view s x o := by
    intro x o hx hno hfree
    rw [hread x ⟨hx, hfree⟩]
    exact put_outside A.stop N hno
  have hsame : SameGeometry s (fatUpdatefsinfo beyond none none s₇).1 := by
    have h := S₇.same
    rw [← hbuf'] at h
    exact h
  refine created_of A hsame N (by decide) (by decide) ?_ (fun k _ hkj => ?_) hrest
  · rw [hread _ (hused j hrange), if_pos rfl]
  · exact before_used V D A hsame hkj fun hno =>
      .inl (hrest _ _ (slot_behind V D k) hno (slot_not_free V D (by omega) _))

theorem mkdir_outcome (V : Volume s dirs) (hturns : Enough s dirs env.fuel)
    (hfuel : cs.length < env.fuel) (hclusters : s.fs.fsNclusters + 1 < env.fuel) :
    ∃ r, fatMkdir env (pathOf c cs) s = some r ∧
      Outcome s dirs (target s dirs c cs) true (InFree s)
        (fun start => HasSlot s (dirs start) ∧ HasCluster s) r := by
  have hs := (V.table .root).sound
  obtain ⟨⟨s₂, info, ret⟩, hfind, F⟩ := find_spec env c cs V.toTree
    (.refl hs) hturns hfuel
  unfold fatMkdir
  rw [hfind]
  cases ht : target s dirs c cs with
  | found start first j =>
    rw [ht] at F
    obtain ⟨(rfl : ret = .ok), D, L, S⟩ := F
    exact ⟨_, rfl, .of_found S.same.view⟩
  | notdir =>
    rw [ht] at F
    have hret : ret = .enotdir := F.1
    subst hret
    exact ⟨_, rfl, .of_notdir F.2.view⟩
  | missing start first c last =>
    rw [ht] at F
    obtain ⟨(rfl : ret = .enoent), D, hre, hname, hdir, hcluster⟩ := F
    dsimp only at hre hname hdir hcluster ⊢
    have T := V.table D
    obtain ⟨⟨s₃, dir, e⟩, halloc, hout⟩ := allocated_spec V D hre hturns hdir hcluster
    rw [halloc]
    rcases hout with ⟨j, A⟩ | ⟨hslot, hnone, -⟩
    · obtain rfl : e = some (dirsecBytendx s.fs j) := A.stop.entry
      have hre₃ : Reloaded s s₃ := A.stop.same
      have hsame₃ := (hre₃.frames (D := Used s)).same
      have hclusters₃ : s₃.fs.fsNclusters + 1 < env.fuel := by
        obtain ⟨p, c', b, hfs⟩ := hre₃.fs
        rw [hfs]
        exact hclusters
      obtain ⟨s₄, r, hchain, F₄, hr⟩ := createchain_spec hre₃.sound hclusters₃ (env.beyond 0)
        (env.beyond 1) (D := Used s) fun x hx => hsame₃.behind.mpr hx.1
      dsimp only
      rw [hchain]
      rcases hr with ⟨rfl, hfull⟩ | ⟨x, rfl, hv, hfree⟩
      · refine ⟨_, rfl, .of_full (fun h => ?_) (by decide)⟩
        obtain ⟨-, x, hv, hfree⟩ := h
        exact hfull x ((hre₃.valid x).mpr hv) ((hre₃.entry x).trans hfree)
      · have hv' := (hre₃.valid x).mp hv
        have hfree' := (hre₃.entry x).symm.trans hfree
        have hx2 : ¬ x < 2 := Nat.not_lt.mpr hv'.1
        have hsame₄ := hsame₃.trans F₄.same
        have hcs : clusterSector s₄.fs x = clusterSector s.fs x ∧
            s₄.fs.fsFatsecperclus = s.fs.fsFatsecperclus := by
          obtain ⟨p, c', b, free, next, dirty, hfs⟩ := hsame₄
          rw [hfs]
          exact ⟨rfl, rfl⟩
        have hend : clusterSector s.fs x < 2 ^ 32 := by
          have hmul : (x - 2) * s.fs.fsFatsecperclus ≤
              s.fs.fsNclusters * s.fs.fsFatsecperclus :=
            Nat.mul_le_mul_right _ (by have := hv'.2; omega)
          have hdb := T.database.2
          unfold clusterSector
          omega
        have hdata : Behind s.fs (clusterSector s.fs x) :=
          Nat.le_trans V.data (Nat.le_add_right _ _)
        have F₅ : Frames (Used s) s₄ (fillCluster env x dir.fdStartcluster s₄) := by
          apply fillCluster_frames F₄.sound
          · rw [cluster2sector_same hsame₄, hcs.1]
            exact cluster2sector_eq T hv'
          · rw [hcs.1]
            exact hsame₄.behind.mpr hdata
          · rw [hcs.1]
            exact hend
          · rw [hcs.2]
            exact secperclus_pos T
          · intro y hy
            rw [hcs.1, hcs.2]
            exact ⟨hsame₄.behind.mpr hy.1, fun h => hy.2 ⟨x, hv', hfree', h⟩⟩
        have S₅ := ((Shows.of_reloaded (D := Used s) hre₃).frames F₄).frames F₅
        have hcreated := made_created x V D A S₅ (env.beyond 2) hname env.time
        dsimp only at hcreated ⊢
        rw [if_neg hx2]
        exact ⟨_, rfl, .of_created ⟨⟨j, A.stop.range, A.free⟩, x, hv', hfree'⟩ hcreated⟩
    · have he : e = none := hnone
      subst he
      exact ⟨_, rfl, .of_full (fun h => hslot h.1)
        ⟨fun h => (by cases h), fun h => (by cases h), fun h => (by cases h)⟩⟩

end

end NuttxAvr32.Fat.Paths
