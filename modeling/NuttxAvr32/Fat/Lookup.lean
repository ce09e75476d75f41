import NuttxAvr32.Fat.Readdir
import NuttxAvr32.Fat.Allocate

/-! # Looking up a path

`fat_finddirentry` goes through the components of a path and looks for each of them in a
directory. What it leaves in `dirinfo` where it fails is where an entry is created later.
The device makes no errors here.
-/

namespace NuttxAvr32.Fat.Lookup

open Names (fatPath2dirname Base Ext component dirnameOf slash)
open Scan

/-- The results of the calls. `ERROR`, which `fat_nextdirentry` returns, is `-EPERM`. -/
inductive Ret
  | ok
  | eperm
  | enoent
  | eacces
  | eexist
  | exdev
  | enotdir
  | eisdir
  | einval
  | enospc
  | enotempty
deriving DecidableEq, Repr

/-- `struct fat_dirinfo_s`; `fd_entry` is an offset in the buffer. -/
structure Dirinfo where
  fdName : Nat → Nat
  fdEntry : Option Nat
  dir : Fatdir

def isNamed (name : Nat → Nat) (p : Sector) : Bool :=
  Readdir.isLive p && (List.range 11).all fun k => (p k).toNat == name k

def stopsAt (name : Nat → Nat) (p : Sector) : Bool := p 0 = 0 || isNamed name p

def isDirectory (p : Sector) : Bool := (p 11).toNat &&& 0x10 ≠ 0

def fstclust (p : Sector) : Nat := fatGetuint16 p 20 <<< 16 ||| fatGetuint16 p 26

/-- The root, and a directory with this first cluster. -/
def rootdir (fs : Mountpt) : Fatdir :=
  if fs.fsType = .fat32 then
    ⟨fs.fsRootbase, fs.fsRootbase, wrapInt (fatCluster2sector fs fs.fsRootbase), 0⟩
  else ⟨0, 0, fs.fsRootbase, 0⟩

def subdir (fs : Mountpt) (cluster : Nat) : Fatdir :=
  ⟨cluster, cluster, wrapInt (fatCluster2sector fs cluster), 2⟩

/-- The outer loop, with what is left of the path. -/
def findLoop (lcnames : Bool) (turns : Nat) :
    Nat → List Nat → Dirinfo → State → Option (State × Dirinfo × Ret)
  | 0, _, _, _ => none
  | fuel + 1, path, info, s =>
    match fatPath2dirname lcnames path with
    | none => some (s, info, .einval)
    | some d =>
      let info := { info with fdName := d.fdName }
      match scanDir (stopsAt d.fdName) turns info.dir s with
      | none => none
      | some (s, dir, none) => some (s, { info with dir := dir }, .enoent)
      | some (s, dir, some e) =>
        let direntry := entryAt s.fs e
        if direntry 0 = 0 then some (s, { info with dir := dir }, .enoent)
        else if d.terminator = 0 then
          some
            (s,
              { info with
                dir := dir
                fdEntry := some e }, .ok)
        else if isDirectory direntry = false then some (s, { info with dir := dir }, .enotdir)
        else
          findLoop lcnames turns fuel d.path
            { info with dir := subdir s.fs (fstclust direntry) } s

def fatFinddirentry (lcnames : Bool) (fuel turns : Nat) (path : List Nat) (fdName : Nat → Nat)
    (s : State) : Option (State × Dirinfo × Ret) :=
  let info : Dirinfo := ⟨fdName, none, rootdir s.fs⟩
  if path = [] then some (s, info, .ok) else findLoop lcnames turns fuel path info s

structure Component where
  base : List Nat
  ext : List Nat
  isBase : Base base
  isExt : Ext ext

def Component.dirname (c : Component) : Nat → Nat := dirnameOf c.base c.ext

def pathOf (c : Component) : List Component → List Nat
  | [] => component c.base c.ext
  | c' :: cs => component c.base c.ext ++ slash :: pathOf c' cs

/-- Which of the next `n` entries from `i` on has the name, up to an entry that marks the end. -/
def lookup (slot : Nat → Sector) (name : Nat → Nat) : Nat → Nat → Option Nat
  | 0, _ => none
  | n + 1, i =>
    if slot i 0 = 0 then none
    else if isNamed name (slot i) then some i
    else lookup slot name n (i + 1)

def child (s : State) (cs : List Nat) (first : Nat) (name : Nat → Nat) : Option Nat :=
  lookup (slotAt s cs) name (total s.fs cs - first) first

/-- Where a path leads: to an object, to a directory without the component, and whether more
components follow, or to a file that others follow. -/
inductive Destination
  | found (start first index : Nat)
  | missing (start first : Nat) (name : Component) (last : Bool)
  | notdir

/-- The path from a directory on; `dirs` are the clusters of the directories. -/
def resolve (s : State) (dirs : Nat → List Nat) :
    Nat → Nat → Component → List Component → Destination
  | start, first, c, [] =>
    match child s (dirs start) first c.dirname with
    | none => .missing start first c true
    | some j => .found start first j
  | start, first, c, c' :: cs =>
    match child s (dirs start) first c.dirname with
    | none => .missing start first c false
    | some j =>
      if isDirectory (slotAt s (dirs start) j) then
        resolve s dirs (fstclust (slotAt s (dirs start) j)) 2 c' cs
      else .notdir

def rootStart (fs : Mountpt) : Nat := if fs.fsType = .fat32 then fs.fsRootbase else 0

/-- The entry `j` of a directory is live and in front of the mark of its end. -/
def LiveAt (s : State) (cs : List Nat) (first j : Nat) : Prop :=
  first ≤ j ∧ j < total s.fs cs ∧ (∀ k, first ≤ k → k ≤ j → slotAt s cs k 0 ≠ 0) ∧
    Readdir.isLive (slotAt s cs j) = true

/-- The directories that can be reached, and where their entries start. -/
inductive Dir (s : State) (dirs : Nat → List Nat) : Nat → Nat → Prop
  | root : Dir s dirs (rootStart s.fs) 0
  | sub {start first j : Nat} : Dir s dirs start first → LiveAt s (dirs start) first j →
      isDirectory (slotAt s (dirs start) j) = true →
        Dir s dirs (fstclust (slotAt s (dirs start) j)) 2

/-- Each directory is a table, whose clusters are not free; the first two entries of a directory
other than the root are its own. -/
structure Tree (s : State) (dirs : Nat → List Nat) : Prop where
  root : s.fs.fsType = .fat32 → s.fs.fsRootbase ≠ 0
  table : ∀ {start first}, Dir s dirs start first → Table s start (dirs start)
  used : ∀ {start first}, Dir s dirs start first → ∀ c ∈ dirs start, entry s c ≠ 0
  sub : ∀ {start}, Dir s dirs start 2 → start ≠ 0 ∧
    ¬ Allocate.FreeSlot s (dirs start) 0 ∧ ¬ Allocate.FreeSlot s (dirs start) 1

def Enough (s : State) (dirs : Nat → List Nat) (turns : Nat) : Prop :=
  ∀ start first, Dir s dirs start first → total s.fs (dirs start) < turns

section

variable {i j : Nat}

theorem lookup_some (slot : Nat → Sector) (name : Nat → Nat) {n : Nat} (hij : i ≤ j) (hjn : j < n)
    (hstop : stopsAt name (slot j) = true)
    (hbefore : ∀ k, i ≤ k → k < j → stopsAt name (slot k) = false) :
    lookup slot name (n - i) i = if slot j 0 = 0 then none else some j := by
  obtain ⟨d, rfl⟩ := Nat.exists_eq_add_of_le hij
  induction d generalizing i with
  | zero =>
    rw [show n - i = n - (i + 1) + 1 by omega, lookup]
    simp only [Nat.add_zero] at hstop ⊢
    unfold stopsAt at hstop
    by_cases hzero : slot i 0 = 0
    · rw [if_pos hzero, if_pos hzero]
    · have hnamed : isNamed name (slot i) = true := by simpa [hzero] using hstop
      rw [if_neg hzero, if_neg hzero, if_pos hnamed]
  | succ d ih =>
    have hgo := hbefore i (Nat.le_refl i) (by omega)
    unfold stopsAt at hgo
    have hboth : ¬ slot i 0 = 0 ∧ ¬ isNamed name (slot i) = true := by simpa using hgo
    rw [show n - i = n - (i + 1) + 1 by omega, lookup, if_neg hboth.1, if_neg hboth.2]
    have hindex : i + (d + 1) = i + 1 + d := by omega
    rw [hindex] at hstop hjn hbefore ⊢
    exact ih (by omega) hjn hstop fun k hk => hbefore k (by omega)

theorem lookup_none (slot : Nat → Sector) (name : Nat → Nat) (n : Nat)
    (hno : ∀ k, i ≤ k → k < i + n → stopsAt name (slot k) = false) :
    lookup slot name n i = none := by
  induction n generalizing i with
  | zero => rfl
  | succ n ih =>
    have hgo := hno i (Nat.le_refl i) (by omega)
    unfold stopsAt at hgo
    have hboth : ¬ slot i 0 = 0 ∧ ¬ isNamed name (slot i) = true := by simpa using hgo
    rw [lookup, if_neg hboth.1, if_neg hboth.2]
    exact ih fun k hk hkn => hno k (by omega) (by omega)

end

section

variable {lcnames : Bool} {s s₁ : State} {dirs : Nat → List Nat} {start first turns fuel : Nat}
  {name : Nat → Nat} {info : Dirinfo} {c : Component} {cs : List Component} {rest : List Nat}

theorem first_lt (V : Tree s dirs) (D : Dir s dirs start first) :
    first < dirsecNdirs s.fs ∧ first < total s.fs (dirs start) := by
  have T := V.table D
  obtain ⟨k, hk, -, hn⟩ := ndirs_le T
  have hpow : 2 ^ 4 ≤ 2 ^ k := Nat.pow_le_pow_right (by decide) hk
  have hle := Nat.le_of_dvd (total_pos T) (ndirs_dvd T)
  have hfirst : first ≤ 2 := by
    cases D with
    | root => exact Nat.zero_le 2
    | sub _ _ _ => exact Nat.le_refl 2
  omega

theorem scan_child (V : Tree s dirs) (D : Dir s dirs start first) (h : Reloaded s s₁)
    (hturns : Enough s dirs turns) (name : Nat → Nat) :
    ∃ r, scanDir (stopsAt name) turns (position s.fs start (dirs start) first) s₁ = some r ∧
      ((∃ j, child s (dirs start) first name = some j ∧ LiveAt s (dirs start) first j ∧
          StopsAt s start (dirs start) j r) ∨
        child s (dirs start) first name = none ∧
          ((∃ j, StopsAt s start (dirs start) j r ∧ slotAt s (dirs start) j 0 = 0) ∨
            Ends s start r)) := by
  have T := V.table D
  have hfirst := (first_lt V D).2
  have hfuel := hturns start first D
  obtain ⟨r, hr, hout⟩ := @scan_spec (stopsAt name) s₁ start first turns (dirs start)
    (T.of_reloaded h) (h.total.symm ▸ hfirst) (by rw [h.total]; omega)
  rw [h.position] at hr
  refine ⟨r, hr, ?_⟩
  rcases hout with ⟨j, hij, S, hstop, hbefore⟩ | ⟨E, hnone⟩
  · rw [h.slotAt] at hstop
    have hbefore' : ∀ k, first ≤ k → k < j → stopsAt name (slotAt s (dirs start) k) = false := by
      intro k hk hkj
      have hno := hbefore k hk hkj
      rwa [h.slotAt] at hno
    have S' := S.of_reloaded h
    have hlookup := lookup_some (slotAt s (dirs start)) name hij S'.range hstop hbefore'
    by_cases hzero : slotAt s (dirs start) j 0 = 0
    · rw [if_pos hzero] at hlookup
      exact .inr ⟨hlookup, .inl ⟨j, S', hzero⟩⟩
    · rw [if_neg hzero] at hlookup
      refine .inl ⟨j, hlookup, ⟨hij, S'.range, fun k hk hkj => ?_, ?_⟩, S'⟩
      · by_cases hkj' : k = j
        · rw [hkj']
          exact hzero
        · have hno := hbefore' k hk (by omega)
          unfold stopsAt at hno
          intro hz
          simp [hz] at hno
      · unfold stopsAt at hstop
        have hnamed : isNamed name (slotAt s (dirs start) j) = true := by simpa [hzero] using hstop
        unfold isNamed at hnamed
        exact (Bool.and_eq_true_iff.mp hnamed).1
  · refine .inr ⟨lookup_none _ _ _ fun k hk hkn => ?_, .inr (E.of_reloaded h)⟩
    have hno := hnone k hk (by rw [h.total]; omega)
    rwa [h.slotAt] at hno

theorem findLoop_step (hr : Names.Follows rest) :
    findLoop lcnames turns (fuel + 1) (component c.base c.ext ++ rest) info s =
      match scanDir (stopsAt c.dirname) turns info.dir s with
      | none => none
      | some (s, dir, none) => some (s, ⟨c.dirname, info.fdEntry, dir⟩, .enoent)
      | some (s, dir, some e) =>
        if entryAt s.fs e 0 = 0 then some (s, ⟨c.dirname, info.fdEntry, dir⟩, .enoent)
        else if rest.headD 0 = 0 then some (s, ⟨c.dirname, some e, dir⟩, .ok)
        else if isDirectory (entryAt s.fs e) = false then
          some (s, ⟨c.dirname, info.fdEntry, dir⟩, .enotdir)
        else
          findLoop lcnames turns fuel rest.tail
            ⟨c.dirname, info.fdEntry, subdir s.fs (fstclust (entryAt s.fs e))⟩ s := by
  obtain ⟨d, hd, hname, hterm, hpath⟩ := Names.parse_component lcnames c.isBase c.isExt hr
  rw [findLoop, hd]
  dsimp only
  rw [hname, hterm, hpath]
  rfl

/-- What `fat_finddirentry` leaves, by where the path leads. -/
def Locates (s : State) (dirs : Nat → List Nat) : Destination → State × Dirinfo × Ret → Prop
  | .found start first j, r =>
    r.2.2 = .ok ∧ Dir s dirs start first ∧ LiveAt s (dirs start) first j ∧
      StopsAt s start (dirs start) j (r.1, r.2.1.dir, r.2.1.fdEntry)
  | .missing start first c _, r =>
    r.2.2 = .enoent ∧ Dir s dirs start first ∧ Reloaded s r.1 ∧ r.2.1.fdName = c.dirname ∧
      r.2.1.dir.fdStartcluster = start ∧ (start = 0 → r.2.1.dir.fdCurrcluster = 0)
  | .notdir, r => r.2.2 = .enotdir ∧ Reloaded s r.1

theorem subdir_position (V : Tree s dirs) (D : Dir s dirs start 2) (h : Reloaded s s₁) :
    subdir s₁.fs start = position s.fs start (dirs start) 2 := by
  have hpos := position_chain (V.table D) (V.sub D).1 2 (first_lt V D).1
  obtain ⟨p, c, b, hfs⟩ := h.fs
  rw [hpos, subdir, hfs]
  rfl

theorem findLoop_absent (V : Tree s dirs) (D : Dir s dirs start first) (last : Bool)
    (hr : Names.Follows rest) {s₂ : State} {dir : Fatdir} {e : Option Nat}
    (hscan : scanDir (stopsAt c.dirname) turns info.dir s₁ = some (s₂, dir, e))
    (hout : (∃ j, StopsAt s start (dirs start) j (s₂, dir, e) ∧ slotAt s (dirs start) j 0 = 0) ∨
      Ends s start (s₂, dir, e)) :
    ∃ r, findLoop lcnames turns (fuel + 1) (component c.base c.ext ++ rest) info s₁ = some r ∧
      Locates s dirs (.missing start first c last) r := by
  rw [findLoop_step hr, hscan]
  rcases hout with ⟨j, S, hzero⟩ | E
  · have he : e = some (dirsecBytendx s.fs j) := S.entry
    have hat := S.entryAt
    have hpos : dir = position s.fs start (dirs start) j := S.dir
    subst he
    dsimp only at hat ⊢
    rw [hat, if_pos hzero]
    refine ⟨_, rfl, rfl, D, S.same, rfl, ?_⟩
    rw [hpos]
    exact ⟨rfl, currcluster_root (V.table D) j⟩
  · have he : e = none := E.entry
    subst he
    exact ⟨_, rfl, rfl, D, E.same, rfl, E.dir⟩

theorem findLoop_spec (V : Tree s dirs) (D : Dir s dirs start first) (h : Reloaded s s₁)
    (hturns : Enough s dirs turns) (hdir : info.dir = position s.fs start (dirs start) first)
    (hfuel : cs.length < fuel) :
    ∃ r, findLoop lcnames turns fuel (pathOf c cs) info s₁ = some r ∧
      Locates s dirs (resolve s dirs start first c cs) r := by
  induction cs generalizing start first c info s₁ fuel with
  | nil =>
    obtain ⟨fuel, rfl⟩ : ∃ k, fuel = k + 1 := ⟨fuel - 1, by omega⟩
    obtain ⟨⟨s₂, dir, e⟩, hscan, hout⟩ := scan_child V D h hturns c.dirname
    have hpath : pathOf c [] = component c.base c.ext ++ [] := (List.append_nil _).symm
    rw [← hdir] at hscan
    rw [hpath]
    unfold resolve
    rcases hout with ⟨j, hchild, L, S⟩ | ⟨hchild, hout⟩
    · have he : e = some (dirsecBytendx s.fs j) := S.entry
      have hat := S.entryAt
      have hlive := L.2.2.1 j L.1 (Nat.le_refl j)
      subst he
      rw [findLoop_step (.inl rfl), hscan, hchild]
      dsimp only at hat ⊢
      rw [hat, if_neg hlive, if_pos (by rfl)]
      exact ⟨_, rfl, rfl, D, L, S⟩
    · rw [hchild]
      exact findLoop_absent V D true (.inl rfl) hscan hout
  | cons c' cs ih =>
    rw [List.length_cons] at hfuel
    obtain ⟨fuel, rfl⟩ : ∃ k, fuel = k + 1 := ⟨fuel - 1, by omega⟩
    obtain ⟨⟨s₂, dir, e⟩, hscan, hout⟩ := scan_child V D h hturns c.dirname
    have hpath : pathOf c (c' :: cs) = component c.base c.ext ++ slash :: pathOf c' cs := rfl
    rw [← hdir] at hscan
    rw [hpath]
    unfold resolve
    rcases hout with ⟨j, hchild, L, S⟩ | ⟨hchild, hout⟩
    · have he : e = some (dirsecBytendx s.fs j) := S.entry
      have hat := S.entryAt
      have hlive := L.2.2.1 j L.1 (Nat.le_refl j)
      subst he
      rw [findLoop_step (.inr ⟨_, rfl⟩), hscan, hchild]
      dsimp only at hat ⊢
      rw [hat, if_neg hlive,
        if_neg (show ¬ (slash :: pathOf c' cs).headD 0 = 0 from (by decide : slash ≠ 0))]
      cases hisdir : isDirectory (slotAt s (dirs start) j) with
      | false =>
        rw [if_pos rfl, if_neg Bool.false_ne_true]
        exact ⟨_, rfl, rfl, S.same⟩
      | true =>
        have D' := Dir.sub D L hisdir
        rw [if_neg (by decide), if_pos rfl]
        exact ih D' S.same (subdir_position V D' S.same) (by omega)
    · rw [hchild]
      exact findLoop_absent V D false (.inr ⟨_, rfl⟩) hscan hout

def target (s : State) (dirs : Nat → List Nat) (c : Component) (cs : List Component) :
    Destination :=
  resolve s dirs (rootStart s.fs) 0 c cs

theorem rootdir_position (V : Tree s dirs) (h : Reloaded s s₁) :
    rootdir s₁.fs = position s.fs (rootStart s.fs) (dirs (rootStart s.fs)) 0 := by
  have T := V.table .root
  obtain ⟨p, c, b, hfs⟩ := h.fs
  by_cases hstart : rootStart s.fs = 0
  · have hcs := T.root.mp hstart
    have hno : s.fs.fsType ≠ .fat32 := fun h32 => V.root h32 ((if_pos h32).symm.trans hstart)
    rw [rootdir, hfs, if_neg hno, hstart]
    rw [hstart] at hcs
    rw [hcs, position, sectorAt, if_pos rfl, Nat.zero_div]
    rfl
  · have h32 : s.fs.fsType = .fat32 := by
      by_contra hno
      exact hstart (if_neg hno)
    have hroot : rootStart s.fs = s.fs.fsRootbase := if_pos h32
    have hpos := position_chain T hstart 0 (ndirs_pos T.sound.size)
    rw [hpos, rootdir, hfs, if_pos h32, hroot]
    rfl

theorem pathOf_ne_nil (c : Component) (cs : List Component) : pathOf c cs ≠ [] := by
  have hne : component c.base c.ext ≠ [] := by
    have hpos := c.isBase.length.1
    unfold component
    split
    · exact List.ne_nil_of_length_pos hpos
    · exact List.append_ne_nil_of_right_ne_nil _ (List.cons_ne_nil _ _)
  cases cs with
  | nil => exact hne
  | cons c' cs => exact List.append_ne_nil_of_left_ne_nil hne _

theorem finddirentry_spec (V : Tree s dirs) (h : Reloaded s s₁) (hturns : Enough s dirs turns)
    (hfuel : cs.length < fuel) (fdName : Nat → Nat) :
    ∃ r, fatFinddirentry lcnames fuel turns (pathOf c cs) fdName s₁ = some r ∧
      Locates s dirs (target s dirs c cs) r := by
  unfold fatFinddirentry
  rw [if_neg (pathOf_ne_nil c cs)]
  exact findLoop_spec V .root h hturns (rootdir_position V h) hfuel

end

end NuttxAvr32.Fat.Lookup
