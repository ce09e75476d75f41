import NuttxAvr32.Lib.Overlay

/-! # Short names

`fat_path2dirname` makes the eleven bytes of a directory entry out of a component of a path,
`fat_dirname2path` makes a name out of an entry. A path is the list of its bytes, and its
end is read as the byte zero.
-/

namespace NuttxAvr32.Fat.Names

open Overlay

def isgraph (c : Nat) : Bool := 0x20 < c ∧ c < 0x7f
def isupper (c : Nat) : Bool := 0x41 ≤ c ∧ c ≤ 0x5a
def islower (c : Nat) : Bool := 0x61 ≤ c ∧ c ≤ 0x7a
def toupper (c : Nat) : Nat := if islower c then c - 0x61 + 0x41 else c
def tolower (c : Nat) : Nat := if isupper c then c - 0x41 + 0x61 else c

def dot : Nat := 0x2e
def slash : Nat := 0x2f
def space : Nat := 0x20

def lcname : Nat := 0x08
def lcext : Nat := 0x10

/-- The variables of `fat_path2dirname`; `fdName` is the array of eleven bytes. -/
structure Parse where
  fdName : Nat → Nat
  ndx : Nat
  endndx : Nat
  ntlcenable : Nat
  ntlcfound : Nat

def Parse.start : Parse := ⟨fun _ => space, 0, 8, lcname ||| lcext, 0⟩

def forbidden (ch : Nat) : Bool :=
  ch = 0x22 ∨ (0x2a ≤ ch ∧ ch ≤ 0x2c) ∨ ch = dot ∨ ch = slash ∨ (0x3a ≤ ch ∧ ch ≤ 0x3f) ∨
    (0x5b ≤ ch ∧ ch ≤ 0x5d) ∨ ch = 0x7c

/-- The flags with `CONFIG_FAT_LCNAMES`. Both branches for the base and for the extension
use `FATNTRES_LCNAME`. -/
def setFlags (lcnames : Bool) (ch : Nat) (p : Parse) : Parse :=
  if lcnames then
    if isupper ch then { p with ntlcenable := p.ntlcenable &&& lcname }
    else if islower ch then { p with ntlcfound := p.ntlcfound ||| lcname }
    else p
  else p

/-- One turn of the loop for a character that does not end the component. -/
def turn (lcnames : Bool) (p : Parse) (ch : Nat) : Option Parse :=
  if isgraph ch = false then none
  else if ch = dot then
    some
      { p with
        ndx := 8
        endndx := 11 }
  else if forbidden ch then none
  else if p.endndx ≤ p.ndx then none
  else
    let p := setFlags lcnames ch p
    some
      { p with
        fdName := Function.update p.fdName p.ndx (toupper ch)
        ndx := p.ndx + 1 }

def path2dirnameLoop (lcnames : Bool) : List Nat → Parse → Option (Parse × Nat × List Nat)
  | [], p => if p.ndx ≠ 0 then some (p, 0, []) else none
  | ch :: node, p =>
      if ch = slash ∧ p.ndx ≠ 0 then some (p, ch, node)
      else
        match turn lcnames p ch with
        | none => none
        | some p => path2dirnameLoop lcnames node p

/-- `fd_name`, `fd_ntflags`, the terminator and the rest of the path. -/
structure Dirname where
  fdName : Nat → Nat
  fdNtflags : Nat
  terminator : Nat
  path : List Nat

def fatPath2dirname (lcnames : Bool) (path : List Nat) : Option Dirname :=
  (path2dirnameLoop lcnames path .start).map fun r =>
    ⟨r.1.fdName, r.1.ntlcfound &&& r.1.ntlcenable, r.2.1, r.2.2⟩

structure Direntry where
  dirName : Nat → Nat
  dirNtres : Nat

/-- What `fat_dircreate`, `fat_mkdir` and `fat_rename` make of a name. They write the flags
where `CONFIG_FLAT_LCNAMES` is defined, and it is nowhere. -/
def created (d : Dirname) : Direntry := ⟨d.fdName, 0⟩

def part (lower : Bool) (bytes : List Nat) : List Nat :=
  (bytes.takeWhile (· ≠ space)).map fun ch => if lower then tolower ch else ch

def unescape : List Nat → List Nat
  | [] => []
  | ch :: chs => (if ch = 0x05 then 0xe5 else ch) :: chs

def fatDirname2path (lcnames : Bool) (e : Direntry) : List Nat :=
  let base := part (lcnames && decide (e.dirNtres &&& lcname ≠ 0)) (unescape (window e.dirName 0 8))
  if e.dirName 8 ≠ space then
    base ++ dot ::
      part (lcnames && decide (e.dirNtres &&& lcext ≠ 0)) (window e.dirName 8 3)
  else base

def Permitted (ch : Nat) : Prop := isgraph ch = true ∧ forbidden ch = false

structure Base (base : List Nat) : Prop where
  permitted : ∀ ch ∈ base, Permitted ch
  length : 1 ≤ base.length ∧ base.length ≤ 8

/-- An extension of one to three characters, or none and no dot. -/
structure Ext (ext : List Nat) : Prop where
  permitted : ∀ ch ∈ ext, Permitted ch
  length : ext.length ≤ 3

def component (base ext : List Nat) : List Nat := if ext = [] then base else base ++ dot :: ext

def ShortName (s : List Nat) : Prop := ∃ base ext, Base base ∧ Ext ext ∧ s = component base ext

def dirnameOf (base ext : List Nat) : Nat → Nat :=
  overlay 8 (ext.map toupper) (overlay 0 (base.map toupper) fun _ => space)

def Uniform (s : List Nat) : Prop := (∀ ch ∈ s, isupper ch = false) ∨ ∀ ch ∈ s, islower ch = false

/-- The components of paths, and what may follow them. -/
def IsComponent (s : List Nat) : Prop := 0 ∉ s ∧ slash ∉ s

def Follows (rest : List Nat) : Prop := rest = [] ∨ ∃ path, rest = slash :: path

/-- A component is taken exactly if it is a short name, and its entry has its bytes. -/
structure Parses (lcnames : Bool) (s : List Nat) : Prop where
  accepts : ∀ rest, Follows rest →
    ((fatPath2dirname lcnames (s ++ rest)).isSome = true ↔ ShortName s)
  name : ∀ rest base ext d, Follows rest → Base base → Ext ext → s = component base ext →
    fatPath2dirname lcnames (s ++ rest) = some d → d.fdName = dirnameOf base ext

/-- The names of a component and of another one, and what is read back from its entry. -/
structure Right (lcnames : Bool) (s t : List Nat) : Prop where
  parses : Parses lcnames s
  parses' : Parses lcnames t
  unique : ∀ d d', fatPath2dirname lcnames s = some d → fatPath2dirname lcnames t = some d' →
    d.fdName = d'.fdName → s.map toupper = t.map toupper
  upper : ∀ d, ShortName s → fatPath2dirname lcnames s = some d →
    fatDirname2path lcnames ⟨d.fdName, 0⟩ = s.map toupper
  same : lcnames = true → ∀ base ext d, Base base → Ext ext → s = component base ext →
    Uniform base → Uniform ext → fatPath2dirname lcnames s = some d →
      fatDirname2path lcnames (created d) = s

/-- Up to `room` characters fit in front of the first dot and three behind each. -/
def Fits : Nat → List Nat → Prop
  | _, [] => True
  | room, ch :: s => if ch = dot then Fits 3 s else Permitted ch ∧ 0 < room ∧ Fits (room - 1) s

structure WellDotted (s : List Nat) : Prop where
  once : s.count dot ≤ 1
  first : s.head? ≠ some dot
  last : s.getLast? ≠ some dot

/-- The parser refuses what has a wrong character or a part that is too long. It does not look
at the dots. -/
def DotsMatter (s : List Nat) : Prop := s ≠ [] → Fits 8 s → WellDotted s

/-- With `CONFIG_FAT_LCNAMES`, what should be read back in its own case has no lower case. -/
def NoLowerCase (lcnames : Bool) (s : List Nat) : Prop :=
  lcnames = true → ∀ base ext, Base base → Ext ext → s = component base ext → Uniform base →
    Uniform ext → ∀ ch ∈ s, islower ch = false

section

variable {lcnames : Bool} {p p' : Parse} {ch room : Nat} {s t rest seg : List Nat}

theorem Permitted.ne_dot (h : Permitted ch) : ch ≠ dot := by
  rintro rfl
  cases h.2

theorem Permitted.ne_slash (h : Permitted ch) : ch ≠ slash := by
  rintro rfl
  cases h.2

theorem setFlags_same (lcnames : Bool) (ch : Nat) (p : Parse) :
    (setFlags lcnames ch p).fdName = p.fdName ∧ (setFlags lcnames ch p).ndx = p.ndx ∧
      (setFlags lcnames ch p).endndx = p.endndx := by
  unfold setFlags
  split
  · split
    · exact ⟨rfl, rfl, rfl⟩
    · split
      · exact ⟨rfl, rfl, rfl⟩
      · exact ⟨rfl, rfl, rfl⟩
  · exact ⟨rfl, rfl, rfl⟩

theorem turn_dot (lcnames : Bool) (p : Parse) :
    turn lcnames p dot =
      some
        { p with
          ndx := 8
          endndx := 11 } := rfl

theorem turn_refuses (h : ch ≠ dot) (hp : ¬ (Permitted ch ∧ p.ndx < p.endndx)) :
    turn lcnames p ch = none := by
  unfold turn
  by_cases hg : isgraph ch = false
  · exact if_pos hg
  rw [if_neg hg, if_neg h]
  by_cases hf : forbidden ch = true
  · exact if_pos hf
  rw [if_neg hf]
  refine if_pos (Nat.le_of_not_lt fun hlt => hp ⟨⟨?_, ?_⟩, hlt⟩)
  · simpa using hg
  · simpa using hf

theorem turn_takes (lcnames : Bool) (h : Permitted ch) (hp : p.ndx < p.endndx) :
    ∃ p', turn lcnames p ch = some p' ∧
      p'.fdName = Function.update p.fdName p.ndx (toupper ch) ∧ p'.ndx = p.ndx + 1 ∧
        p'.endndx = p.endndx := by
  obtain ⟨hname, hndx, hend⟩ := setFlags_same lcnames ch p
  unfold turn
  rw [if_neg (by simp [h.1]), if_neg h.ne_dot, if_neg (by simp [h.2]),
    if_neg (Nat.not_le.mpr hp)]
  refine ⟨_, rfl, ?_, ?_, hend⟩
  · dsimp only
    rw [hname, hndx]
  · dsimp only
    rw [hndx]

theorem loop_cons_none (h : ch ≠ slash) (ht : turn lcnames p ch = none) :
    path2dirnameLoop lcnames (ch :: s) p = none := by
  rw [path2dirnameLoop, if_neg (fun hc => h hc.1), ht]

theorem loop_cons_some (h : ch ≠ slash) (ht : turn lcnames p ch = some p') :
    path2dirnameLoop lcnames (ch :: s) p = path2dirnameLoop lcnames s p' := by
  rw [path2dirnameLoop, if_neg (fun hc => h hc.1), ht]

theorem loop_end (lcnames : Bool) (hr : Follows rest) (h : p.ndx ≠ 0) :
    path2dirnameLoop lcnames rest p = some (p, rest.headD 0, rest.tail) := by
  rcases hr with rfl | ⟨path, rfl⟩
  · exact if_pos h
  · exact if_pos ⟨rfl, h⟩

theorem loop_end_empty (hr : Follows rest) (h : p.ndx = 0) :
    path2dirnameLoop lcnames rest p = none := by
  rcases hr with rfl | ⟨path, rfl⟩
  · exact if_neg (not_not.mpr h)
  · rw [path2dirnameLoop, if_neg (fun hc => hc.2 h)]
    rfl

theorem loop_isSome (lcnames : Bool) (hs : IsComponent s) (hr : Follows rest)
    (hp : p.ndx ≤ p.endndx) :
    (path2dirnameLoop lcnames (s ++ rest) p).isSome = true ↔
      Fits (p.endndx - p.ndx) s ∧ (s ≠ [] ∨ p.ndx ≠ 0) := by
  induction s generalizing p with
  | nil =>
    rw [List.nil_append]
    by_cases h : p.ndx = 0
    · rw [loop_end_empty hr h]
      simp [h]
    · rw [loop_end lcnames hr h]
      simp [h, Fits]
  | cons ch s ih =>
    have hs' : IsComponent s :=
      ⟨fun h => hs.1 (List.mem_cons_of_mem _ h), fun h => hs.2 (List.mem_cons_of_mem _ h)⟩
    have hslash : ch ≠ slash := fun h => hs.2 (h ▸ List.mem_cons_self)
    have hne : ch :: s ≠ [] := List.cons_ne_nil ch s
    rw [List.cons_append]
    by_cases hd : ch = dot
    · subst hd
      rw [loop_cons_some hslash (turn_dot lcnames p), ih hs' (by show 8 ≤ 11; decide), Fits,
        if_pos rfl]
      exact ⟨fun h => ⟨h.1, .inl hne⟩, fun h => ⟨h.1, .inr (by show (8 : Nat) ≠ 0; decide)⟩⟩
    · rw [Fits, if_neg hd]
      by_cases hok : Permitted ch ∧ p.ndx < p.endndx
      · obtain ⟨p', ht, -, hndx, hend⟩ := turn_takes lcnames hok.1 hok.2
        rw [loop_cons_some hslash ht, ih hs' (by omega), hndx, hend, Nat.sub_add_eq]
        constructor
        · intro h
          exact ⟨⟨hok.1, by omega, h.1⟩, .inl hne⟩
        · intro h
          exact ⟨h.1.2.2, .inr (Nat.succ_ne_zero _)⟩
      · rw [loop_cons_none hslash (turn_refuses hd hok)]
        constructor
        · intro h
          cases h
        · intro h
          exact absurd ⟨h.1.1, by have := h.1.2.1; omega⟩ hok

theorem loop_segment (lcnames : Bool) (p : Parse) (rest : List Nat)
    (hseg : ∀ c ∈ seg, Permitted c) (hlen : p.ndx + seg.length ≤ p.endndx) :
    ∃ p', path2dirnameLoop lcnames (seg ++ rest) p = path2dirnameLoop lcnames rest p' ∧
      p'.fdName = overlay p.ndx (seg.map toupper) p.fdName ∧ p'.ndx = p.ndx + seg.length ∧
        p'.endndx = p.endndx := by
  induction seg generalizing p with
  | nil => exact ⟨p, rfl, by simp, rfl, rfl⟩
  | cons c seg ih =>
    rw [List.length_cons] at hlen
    have hc := hseg c List.mem_cons_self
    obtain ⟨p₁, ht, hname, hndx, hend⟩ := turn_takes (p := p) lcnames hc (by omega)
    obtain ⟨p₂, hrun, hname₂, hndx₂, hend₂⟩ := ih p₁
      (fun d hd => hseg d (List.mem_cons_of_mem _ hd)) (by omega)
    refine ⟨p₂, ?_, ?_, ?_, ?_⟩
    · rw [List.cons_append, loop_cons_some hc.ne_slash ht, hrun]
    · rw [hname₂, hname, hndx]
      have hone : Function.update p.fdName p.ndx (toupper c) =
          overlay p.ndx [toupper c] p.fdName := by
        symm
        apply overlay_eq_of
        · intro i hi
          have hz : i = 0 := by simpa using hi
          subst hz
          simp
        · intro a ha
          refine Function.update_of_ne (fun he => ?_) _ _
          rw [he, List.length_singleton] at ha
          omega
      have happ : overlay (p.ndx + [toupper c].length) (seg.map toupper)
          (overlay p.ndx [toupper c] p.fdName) =
            overlay p.ndx ([toupper c] ++ seg.map toupper) p.fdName := overlay_append
      rw [hone, List.map_cons]
      exact happ
    · rw [hndx₂, hndx, List.length_cons]
      omega
    · rw [hend₂, hend]

theorem parse_component (lcnames : Bool) {base ext : List Nat} (hb : Base base) (he : Ext ext)
    (hr : Follows rest) : ∃ d, fatPath2dirname lcnames (component base ext ++ rest) = some d ∧
      d.fdName = dirnameOf base ext ∧ d.terminator = rest.headD 0 ∧ d.path = rest.tail := by
  have hpos := hb.length
  have hext := he.length
  by_cases hnil : ext = []
  · subst hnil
    have hroom : 0 + base.length ≤ 8 := by omega
    obtain ⟨p₁, hrun, hname, hndx, -⟩ := loop_segment lcnames .start rest hb.permitted hroom
    have hend := loop_end (p := p₁) lcnames hr (by
      rw [hndx]
      show 0 + base.length ≠ 0
      omega)
    have hcomp : component base [] = base := if_pos rfl
    rw [fatPath2dirname, hcomp, hrun, hend]
    refine ⟨_, rfl, ?_, rfl, rfl⟩
    show p₁.fdName = _
    rw [hname, dirnameOf, List.map_nil, overlay_nil]
    rfl
  · obtain ⟨p₁, hrun, hname, hndx, -⟩ := loop_segment lcnames .start
      (dot :: (ext ++ rest)) hb.permitted (by show 0 + base.length ≤ 8; omega)
    obtain ⟨p₂, hrun₂, hname₂, hndx₂, -⟩ := loop_segment lcnames
      { p₁ with
        ndx := 8
        endndx := 11 }
      rest he.permitted (by show 8 + ext.length ≤ 11; omega)
    have hend := loop_end (p := p₂) lcnames hr (by
      rw [hndx₂]
      show 8 + ext.length ≠ 0
      omega)
    have hcomp : component base ext ++ rest = base ++ dot :: (ext ++ rest) := by
      rw [component, if_neg hnil, List.append_assoc, List.cons_append]
    rw [fatPath2dirname, hcomp, hrun, loop_cons_some (by decide) (turn_dot lcnames p₁), hrun₂, hend]
    refine ⟨_, rfl, ?_, rfl, rfl⟩
    show p₂.fdName = _
    rw [hname₂]
    show overlay 8 (ext.map toupper) p₁.fdName = _
    rw [hname]
    rfl

end

section

variable {room : Nat} {s base ext seg : List Nat}

theorem fits_append (hseg : ∀ c ∈ seg, Permitted c) (hlen : seg.length ≤ room) :
    Fits room (seg ++ s) ↔ Fits (room - seg.length) s := by
  induction seg generalizing room with
  | nil => rfl
  | cons c seg ih =>
    rw [List.length_cons] at hlen
    have hc := hseg c List.mem_cons_self
    rw [List.cons_append, Fits, if_neg hc.ne_dot,
      ih (fun d hd => hseg d (List.mem_cons_of_mem _ hd)) (by omega), List.length_cons,
      Nat.sub_sub, Nat.add_comm 1]
    exact ⟨fun h => h.2.2, fun h => ⟨hc, by omega, h⟩⟩

theorem Fits.segment (h : Fits room (seg ++ s)) (hdot : dot ∉ seg) :
    (∀ c ∈ seg, Permitted c) ∧ seg.length ≤ room := by
  induction seg generalizing room with
  | nil => exact ⟨fun c hc => (by cases hc), Nat.zero_le _⟩
  | cons c seg ih =>
    have hc : c ≠ dot := fun hc => hdot (List.mem_cons.mpr (.inl hc.symm))
    rw [List.cons_append, Fits, if_neg hc] at h
    obtain ⟨hall, hlen⟩ := ih h.2.2 fun hc => hdot (List.mem_cons_of_mem _ hc)
    refine ⟨fun d hd => ?_, ?_⟩
    · rcases List.mem_cons.mp hd with rfl | hd
      · exact h.1
      · exact hall d hd
    · rw [List.length_cons]
      have := h.2.1
      omega

theorem dot_not_mem (h : ∀ c ∈ seg, Permitted c) : dot ∉ seg := fun hd => (h dot hd).ne_dot rfl

theorem shortName_iff : ShortName s ↔ s ≠ [] ∧ Fits 8 s ∧ WellDotted s := by
  constructor
  · rintro ⟨base, ext, hb, he, rfl⟩
    have hpos := hb.length
    have hbdot := dot_not_mem hb.permitted
    have hedot := dot_not_mem he.permitted
    obtain ⟨b, bs, rfl⟩ := List.exists_cons_of_length_pos (show 0 < base.length by omega)
    have hfirst : (b :: bs).head? ≠ some dot := by
      intro h
      exact hbdot (Option.some.inj h ▸ List.mem_cons_self)
    by_cases hnil : ext = []
    · subst hnil
      have hcomp : component (b :: bs) [] = b :: bs := if_pos rfl
      rw [hcomp]
      refine ⟨List.cons_ne_nil _ _, ?_, ?_, hfirst, fun h => ?_⟩
      · have hfit := (fits_append (s := []) hb.permitted hpos.2).mpr trivial
        rwa [List.append_nil] at hfit
      · rw [List.count_eq_zero_of_not_mem hbdot]
        exact Nat.zero_le _
      · exact hbdot (List.mem_of_getLast? h)
    · have hcomp : component (b :: bs) ext = (b :: bs) ++ dot :: ext := if_neg hnil
      rw [hcomp]
      refine ⟨List.cons_ne_nil _ _, ?_, ?_, hfirst, fun h => ?_⟩
      · rw [fits_append hb.permitted hpos.2, Fits, if_pos rfl]
        have hfit := (fits_append (s := []) he.permitted he.length).mpr trivial
        rwa [List.append_nil] at hfit
      · have hcount : ((b :: bs) ++ dot :: ext).count dot = 0 + (0 + 1) := by
          rw [List.count_append, List.count_eq_zero_of_not_mem hbdot, List.count_cons_self,
            List.count_eq_zero_of_not_mem hedot]
        omega
      · rw [List.getLast?_append, List.getLast?_cons] at h
        have hlast : ext.getLast? = some dot := by
          rw [List.getLast?_eq_some_getLast hnil] at h ⊢
          exact h
        exact hedot (List.mem_of_getLast? hlast)
  · intro ⟨hne, hfit, W⟩
    by_cases hd : dot ∈ s
    · obtain ⟨base, ext, rfl⟩ := List.append_of_mem hd
      have honce := W.once
      rw [List.count_append, List.count_cons_self] at honce
      have hbdot : dot ∉ base := List.count_eq_zero.mp (by omega)
      have hedot : dot ∉ ext := List.count_eq_zero.mp (by omega)
      obtain ⟨hball, hblen⟩ := hfit.segment hbdot
      rw [fits_append hball hblen, Fits, if_pos rfl] at hfit
      have hfit' : Fits 3 (ext ++ []) := by rwa [List.append_nil]
      obtain ⟨heall, helen⟩ := hfit'.segment hedot
      have hbne : base ≠ [] := by
        rintro rfl
        exact W.first rfl
      have hene : ext ≠ [] := by
        rintro rfl
        exact W.last (by simp)
      have hbpos := List.length_pos_of_ne_nil hbne
      exact ⟨base, ext, ⟨hball, by omega, hblen⟩, ⟨heall, helen⟩, (if_neg hene).symm⟩
    · have hfit' : Fits 8 (s ++ []) := by rwa [List.append_nil]
      obtain ⟨hall, hlen⟩ := hfit'.segment hd
      have hpos := List.length_pos_of_ne_nil hne
      exact ⟨s, [], ⟨hall, by omega, hlen⟩, ⟨fun c hc => (by cases hc), by simp⟩, rfl⟩

end

section

variable {lcnames : Bool} {base ext s data : List Nat} {n b : Nat}

theorem toupper_permitted {c : Nat} (h : Permitted c) : toupper c ≠ space ∧ toupper c ≠ 0x05 := by
  have hg := h.1
  unfold isgraph at hg
  have hlt := of_decide_eq_true hg
  unfold toupper islower space
  split
  · rename_i hl
    have hl' := of_decide_eq_true hl
    omega
  · omega

theorem toupper_dot : toupper dot = dot := by decide

theorem map_component (base ext : List Nat) :
    (component base ext).map toupper = component (base.map toupper) (ext.map toupper) := by
  unfold component
  by_cases h : ext = []
  · rw [if_pos h, if_pos (by rw [h]; rfl)]
  · rw [if_neg h, if_neg (by simpa using h), List.map_append, List.map_cons, toupper_dot]

theorem window_overlay_spaces (h : data.length ≤ n) :
    window (overlay b data fun _ => space) b n =
      data ++ List.replicate (n - data.length) space := by
  apply List.ext_getElem
  · rw [length_window, List.length_append, List.length_replicate]
    omega
  · intro i hi _
    simp only [window, List.getElem_map, List.getElem_range]
    by_cases hd : i < data.length
    · rw [overlay_of_mem hd, List.getElem_append_left hd]
    · rw [overlay_of_outside (by omega), List.getElem_append_right (by omega),
        List.getElem_replicate]

theorem part_spaces (h : ∀ c ∈ data, c ≠ space) (k : Nat) :
    part false (data ++ List.replicate k space) = data := by
  unfold part
  rw [List.takeWhile_append_of_pos (by simpa using h)]
  have hnone : (List.replicate k space).takeWhile (· ≠ space) = [] := by
    cases k with
    | zero => rfl
    | succ k => rfl
  rw [hnone, List.append_nil]
  simp

theorem unescape_of_ne (h : ∀ c ∈ data, c ≠ 0x05) : unescape data = data := by
  cases data with
  | nil => rfl
  | cons c cs => rw [unescape, if_neg (h c List.mem_cons_self)]

theorem print_dirnameOf (hb : Base base) (he : Ext ext) :
    fatDirname2path lcnames ⟨dirnameOf base ext, 0⟩ = (component base ext).map toupper := by
  have hblen := hb.length.2
  have helen := he.length
  have hbup : ∀ c ∈ base.map toupper, c ≠ space ∧ c ≠ 0x05 := by
    intro c hc
    obtain ⟨d, hd, rfl⟩ := List.mem_map.mp hc
    exact toupper_permitted (hb.permitted d hd)
  have heup : ∀ c ∈ ext.map toupper, c ≠ space := by
    intro c hc
    obtain ⟨d, hd, rfl⟩ := List.mem_map.mp hc
    exact (toupper_permitted (he.permitted d hd)).1
  have hbase : window (dirnameOf base ext) 0 8 =
      base.map toupper ++ List.replicate (8 - (base.map toupper).length) space := by
    rw [← window_overlay_spaces (b := 0) (by rw [List.length_map]; exact hblen)]
    refine window_congr fun i hi => ?_
    exact overlay_of_outside (by omega)
  have hext : window (dirnameOf base ext) 8 3 =
      ext.map toupper ++ List.replicate (3 - (ext.map toupper).length) space := by
    rw [← window_overlay_spaces (b := 8) (by rw [List.length_map]; exact helen)]
    refine window_congr fun i hi => ?_
    unfold dirnameOf overlay
    have hin : 8 ≤ 8 + i := Nat.le_add_right 8 i
    have hout : (base.map toupper)[8 + i - 0]? = none :=
      List.getElem?_eq_none (by rw [List.length_map]; omega)
    rw [if_pos hin, if_pos hin, if_pos (Nat.zero_le _), hout]
    rfl
  have hfive : ∀ c ∈ base.map toupper ++
      List.replicate (8 - (base.map toupper).length) space, c ≠ 0x05 := by
    intro c hc
    rcases List.mem_append.mp hc with hc | hc
    · exact (hbup c hc).2
    · rw [List.eq_of_mem_replicate hc]
      decide
  have hflag : ∀ m, (lcnames && decide (0 &&& m ≠ 0)) = false := by
    intro m
    simp
  unfold fatDirname2path
  dsimp only
  rw [hflag, hflag, hbase, unescape_of_ne hfive, part_spaces fun c hc => (hbup c hc).1, hext,
    part_spaces heup, map_component]
  have h8 : dirnameOf base ext 8 = (ext.map toupper ++
      List.replicate (3 - (ext.map toupper).length) space).getD 0 0 := by
    rw [← hext]
    rfl
  by_cases hnil : ext = []
  · subst hnil
    have hnone : dirnameOf base [] 8 = space := h8
    rw [if_neg (not_not.mpr hnone)]
    rfl
  · obtain ⟨c, cs, rfl⟩ := List.exists_cons_of_ne_nil hnil
    have hc : dirnameOf base (c :: cs) 8 = toupper c := h8
    rw [if_pos (by rw [hc]; exact heup _ List.mem_cons_self), component, if_neg (by simp)]

theorem map_toupper_iff : s.map toupper = s ↔ ∀ ch ∈ s, islower ch = false := by
  have hone : ∀ c, toupper c = c ↔ islower c = false := by
    intro c
    unfold toupper
    cases h : islower c with
    | false => simp
    | true =>
      have hl := of_decide_eq_true h
      simp only [if_true]
      constructor
      · intro hc
        omega
      · intro hc
        cases hc
  induction s with
  | nil => simp
  | cons c s ih => simp [ih, hone]

end

section

variable {lcnames : Bool} {s t : List Nat}

theorem accepts_iff (hs : IsComponent s) {rest : List Nat} (hr : Follows rest) :
    (fatPath2dirname lcnames (s ++ rest)).isSome = true ↔ Fits 8 s ∧ s ≠ [] := by
  have h := loop_isSome (p := .start) lcnames hs hr (by show 0 ≤ 8; decide)
  rw [fatPath2dirname, Option.isSome_map, h]
  constructor
  · intro ⟨hf, ho⟩
    exact ⟨hf, ho.resolve_right fun hc => hc rfl⟩
  · intro ⟨hf, hne⟩
    exact ⟨hf, .inl hne⟩

theorem parses_iff (lcnames : Bool) (hs : IsComponent s) : Parses lcnames s ↔ DotsMatter s := by
  constructor
  · intro P hne hfit
    have hnil : Follows [] := .inl rfl
    exact (shortName_iff.mp ((P.accepts [] hnil).mp ((accepts_iff hs hnil).mpr ⟨hfit, hne⟩))).2.2
  · intro h
    refine ⟨fun rest hr => ?_, fun rest base ext d hr hb he hcomp hd => ?_⟩
    · rw [accepts_iff hs hr, shortName_iff]
      exact ⟨fun hf => ⟨hf.2, hf.1, h hf.2 hf.1⟩, fun hf => ⟨hf.2.1, hf.1⟩⟩
    · obtain ⟨d', hd', hname, -⟩ := parse_component lcnames hb he hr
      rw [← hcomp, hd] at hd'
      cases hd'
      exact hname

theorem print_parsed {d : Dirname} (h : ShortName s) (hd : fatPath2dirname lcnames s = some d) :
    fatDirname2path lcnames ⟨d.fdName, 0⟩ = s.map toupper := by
  obtain ⟨base, ext, hb, he, rfl⟩ := h
  obtain ⟨d', hd', hname, -⟩ := parse_component lcnames hb he (.inl rfl : Follows [])
  rw [List.append_nil, hd] at hd'
  cases hd'
  rw [hname]
  exact print_dirnameOf hb he

theorem Parses.shortName (hs : Parses lcnames s) {d : Dirname}
    (hd : fatPath2dirname lcnames s = some d) : ShortName s := by
  refine (hs.accepts [] (.inl rfl)).mp ?_
  rw [List.append_nil, hd]
  rfl

end

/-- Names are right exactly where the dots are as they should be and no lower case is to be
kept. -/
theorem names_right_iff {lcnames : Bool} {s t : List Nat} (hs : IsComponent s)
    (ht : IsComponent t) :
    Right lcnames s t ↔ DotsMatter s ∧ DotsMatter t ∧ NoLowerCase lcnames s := by
  constructor
  · intro R
    refine ⟨(parses_iff lcnames hs).mp R.parses, (parses_iff lcnames ht).mp R.parses', ?_⟩
    intro hlc base ext hb he hcomp hub hue
    obtain ⟨d, hd, hname, -⟩ := parse_component lcnames hb he (.inl rfl : Follows [])
    rw [List.append_nil, ← hcomp] at hd
    have hsame := R.same hlc base ext d hb he hcomp hub hue hd
    have hup := print_parsed ⟨base, ext, hb, he, hcomp⟩ hd
    exact map_toupper_iff.mp (hup.symm.trans hsame)
  · intro ⟨hds, hdt, hlower⟩
    have P := (parses_iff lcnames hs).mpr hds
    have P' := (parses_iff lcnames ht).mpr hdt
    refine ⟨P, P', fun d d' hd hd' hname => ?_, fun d hshort hd => print_parsed hshort hd,
      fun hlc base ext d hb he hcomp hub hue hd => ?_⟩
    · rw [← print_parsed (P.shortName hd) hd, ← print_parsed (P'.shortName hd') hd', hname]
    · refine (print_parsed ⟨base, ext, hb, he, hcomp⟩ hd).trans ?_
      exact map_toupper_iff.mpr (hlower hlc base ext hb he hcomp hub hue)

/-- The names A.B1 and X, with `CONFIG_FAT_LCNAMES`. -/
theorem names_right_upper : Right true [0x41, 0x2e, 0x42, 0x31] [0x58] :=
  (names_right_iff ⟨by decide, by decide⟩ ⟨by decide, by decide⟩).mpr
    ⟨fun _ _ => ⟨by decide, by decide, by decide⟩, fun _ _ => ⟨by decide, by decide, by decide⟩,
      fun _ _ _ _ _ _ _ _ => by decide⟩

/-- The component A.BB.C is taken and has the name of A.CB, and the lower case of ab is lost. -/
theorem names_broken :
    (∃ d d', fatPath2dirname false [0x41, 0x2e, 0x42, 0x42, 0x2e, 0x43] = some d ∧
      fatPath2dirname false [0x41, 0x2e, 0x43, 0x42] = some d' ∧
        ∀ i < 11, d.fdName i = d'.fdName i) ∧
      ¬ Right false [0x41, 0x2e, 0x42, 0x42, 0x2e, 0x43] [0x41, 0x2e, 0x43, 0x42] ∧
      ¬ Right true [0x61, 0x62] [0x41] := by
  refine ⟨⟨_, _, rfl, rfl, by decide⟩, fun R => ?_, fun R => ?_⟩
  · have honce := ((parses_iff false ⟨by decide, by decide⟩).mp R.parses (List.cons_ne_nil _ _)
      (by simp [Fits, Permitted, isgraph, forbidden, dot, slash])).once
    exact absurd honce (by decide)
  · have hb : Base [0x61, 0x62] := ⟨by simp [Permitted, isgraph, forbidden, dot, slash], by decide⟩
    have he : Ext [] := ⟨fun c hc => (by cases hc), by decide⟩
    obtain ⟨d, hd, -⟩ := parse_component true hb he (.inl rfl : Follows [])
    have hsame := R.same rfl [0x61, 0x62] [] d hb he rfl (.inl (by decide)) (.inl (by decide)) hd
    have hup := print_parsed ⟨_, _, hb, he, rfl⟩ hd
    exact absurd (hup.symm.trans hsame) (by decide)

end NuttxAvr32.Fat.Names
