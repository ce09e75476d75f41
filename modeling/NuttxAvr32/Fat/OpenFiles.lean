import Mathlib.Data.List.Perm.Basic
import Mathlib.Data.List.Nodup
import NuttxAvr32.Lib.Runs

/-! # The open files of a mount

The mount structure and the file structures with the list at `fs_head`. What the volume
contains is left open: a call comes with the results of its directory lookup, of its disk
accesses and of `malloc`. `NULL` is zero.
-/

namespace NuttxAvr32.Fat.OpenFiles

open Runs
open Function (update update_self update_of_ne)

inductive Errno
  | enodev
  | enomem
  | ebusy
  | eisdir
  | eexist
  | eacces
  | enoent
  | eio
deriving DecidableEq, Repr

structure FatFile where
  ffNext : Nat
  ffOpen : Bool

structure Mountpt where
  fsHead : Nat
  fsMounted : Bool

/-- A call of `fat_unbind`, with whether it answered `-EBUSY` and whether it freed the mount
structure, and whether a file of the mount was open. -/
structure Unbind where
  busy : Bool
  freed : Bool
  opened : Bool
deriving DecidableEq

/-- `live` lists the structures that are allocated, `stale` the accesses to mount structures
that are not. `opened` has the files that `fat_open` returned and `fat_close` did not close,
`mountOf` their mounts. -/
structure State where
  mountpt : Nat → Mountpt
  file : Nat → FatFile
  live : List Nat
  handle : Option Nat
  opened : List Nat
  mountOf : Nat → Nat
  unbinds : List Unbind
  stale : List Nat

namespace State

def touch (s : State) (fs : Nat) : State :=
  if fs ∈ s.live then s else { s with stale := s.stale ++ [fs] }

def setMountpt (s : State) (fs : Nat) (m : Mountpt) : State :=
  { s with mountpt := update s.mountpt fs m }

def setFile (s : State) (ff : Nat) (f : FatFile) : State :=
  { s with file := update s.file ff f }

def free (s : State) (p : Nat) : State := { s with live := s.live.filter (· ≠ p) }

end State

def markClosed : Nat → Nat → State → Option State
  | 0, _, _ => none
  | fuel + 1, ff, s =>
    if ff = 0 then some s
    else
      markClosed fuel (s.file ff).ffNext
        (s.setFile ff
          { s.file ff with ffOpen := false })

/-- `fat_checkmount`, with whether the driver reports the medium as there and unchanged. -/
def fatCheckmount (fs : Nat) (healthy : Bool) (s : State) : Option (State × Bool) :=
  if (s.mountpt fs).fsMounted then
    if healthy then some (s, true)
    else
      (markClosed (s.live.length + 1) (s.mountpt fs).fsHead
        (s.setMountpt fs
          { s.mountpt fs with fsMounted := false })).map (·, false)
  else some (s, false)

inductive Lookup
  | root
  | entry (directory readonly : Bool)
  | absent
  | error
deriving DecidableEq

structure Oflags where
  wronly : Bool
  creat : Bool
  excl : Bool
  trunc : Bool
  append : Bool
deriving DecidableEq

/-- What a call of `fat_open` meets: the medium, the directory, the results of
`fat_dirtruncate` and `fat_dircreate`, the memory and the result of `fat_seek`. -/
structure Meets where
  healthy : Bool
  lookup : Lookup
  truncated : Bool
  created : Bool
  ff : Option Nat
  buffer : Bool
  sought : Bool
deriving DecidableEq

/-- The error before a file structure is allocated, if there is one. -/
def findFile (oflags : Oflags) (m : Meets) : Option Errno :=
  match m.lookup with
  | .root => some .eisdir
  | .entry directory readonly =>
    if directory then some .eisdir
    else if oflags.creat && oflags.excl then some .eexist
    else if oflags.wronly && readonly then some .eacces
    else if oflags.trunc && oflags.wronly && !m.truncated then some .eio
    else none
  | .absent =>
    if !oflags.creat then some .enoent
    else if !m.created then some .eio
    else none
  | .error => some .eio

/-- The file structure is linked in: `ff->ff_next = fs->fs_head; fs->fs_head = ff->ff_next`. -/
def linkFile (fs ff : Nat) (s : State) : State :=
  let s := s.setFile ff ⟨(s.mountpt fs).fsHead, true⟩
  s.setMountpt fs
    { s.mountpt fs with fsHead := (s.file ff).ffNext }

def fatOpen (fs : Nat) (oflags : Oflags) (m : Meets) (s : State) : Option (State × Option Errno) :=
  let s := s.touch fs
  (fatCheckmount fs m.healthy s).map fun r =>
    if r.2 = false then (r.1, some .enodev)
    else
      match findFile oflags m with
      | some e => (r.1, some e)
      | none =>
        match m.ff with
        | none => (r.1, some .enomem)
        | some ff =>
          let s := { r.1 with live := ff :: r.1.live }
          if m.buffer = false then (s.free ff, some .enomem)
          else
            let s := linkFile fs ff s
            if (oflags.append && oflags.wronly && !m.sought) = true then
              (s.free ff, some .eio)
            else
              ({ s with
                  opened := ff :: s.opened
                  mountOf := update s.mountOf ff fs },
                none)

/-- `fat_close`; `fat_sync` looks at the mount first. -/
def fatClose (ff : Nat) (healthy : Bool) (s : State) : Option State :=
  let fs := s.mountOf ff
  (fatCheckmount fs healthy (s.touch fs)).map fun r =>
    { r.1.free ff with opened := r.1.opened.erase ff }

/-- `fat_bind`, with the results of opening the driver, of `zalloc` and of `fat_mount`. -/
def fatBind (opens : Bool) (mem : Option Nat) (mounts : Bool) (s : State) : State × Option Errno :=
  if opens = false then (s, some .enodev)
  else
    match mem with
    | none => (s, some .enomem)
    | some fs =>
      let s := ({ s with live := fs :: s.live } : State).setMountpt fs ⟨0, mounts⟩
      if mounts then ({ s with handle := some fs }, none) else (s.free fs, some .enodev)

/-- `fat_semtake`, the test of `fs_head`, and `fat_semgive` at the end. -/
def fatUnbind (fs : Nat) (s : State) : State :=
  let s := s.touch fs
  let busy := decide ((s.mountpt fs).fsHead ≠ 0)
  let opened := decide (∃ ff ∈ s.opened, s.mountOf ff = fs)
  let s :=
    if busy then s
    else { s.free fs with handle := none }
  ({ s with unbinds := s.unbinds ++ [⟨busy, !busy, opened⟩] } : State).touch fs

inductive Op
  | bind (opens : Bool) (mem : Option Nat) (mounts : Bool)
  | open (oflags : Oflags) (m : Meets)
  | close (ff : Nat) (healthy : Bool)
  | unbind
deriving DecidableEq

def Op.exec : Op → State → Option State
  | .bind opens mem mounts, s => some (fatBind opens mem mounts s).1
  | .open oflags m, s => s.handle.bind fun fs => (fatOpen fs oflags m s).map Prod.fst
  | .close ff healthy, s => fatClose ff healthy s
  | .unbind, s => s.handle.map fun fs => fatUnbind fs s

def Fresh (s : State) (p : Nat) : Prop := p ≠ 0 ∧ p ∉ s.live

instance decidableFresh (s : State) (p : Nat) : Decidable (Fresh s p) :=
  inferInstanceAs (Decidable (_ ∧ _))

def Op.valid (s : State) : Op → Prop
  | .bind _ mem _ => s.handle = none ∧ ∀ p ∈ mem, Fresh s p
  | .open _ m => ∀ p ∈ m.ff, Fresh s p
  | .close ff _ => ff ∈ s.opened
  | .unbind => True

instance decidableOpenValid (s : State) (i : Op) : Decidable (i.valid s) := by
  cases i <;> (unfold Op.valid; infer_instance)

def fatMachine : Machine State Op where
  valid s i := i.valid s
  exec s i := i.exec s

instance decidableOpenMachineValid (s : State) (i : Op) : Decidable (fatMachine.valid s i) :=
  inferInstanceAs (Decidable (i.valid s))

structure Boot (s : State) : Prop where
  live : s.live = []
  handle : s.handle = none
  opened : s.opened = []
  unbinds : s.unbinds = []
  stale : s.stale = []

inductive Chain (next : Nat → Nat) : Nat → List Nat → Prop
  | nil : Chain next 0 []
  | cons {p : Nat} {l : List Nat} : p ≠ 0 → Chain next (next p) l → Chain next p (p :: l)

def State.filesOf (s : State) (fs : Nat) : List Nat := s.opened.filter fun ff => s.mountOf ff = fs

structure MountPinned (s : State) : Prop where
  listed : ∀ fs, s.handle = some fs →
    ∃ l, Chain (fun ff => (s.file ff).ffNext) (s.mountpt fs).fsHead l ∧ l.Perm (s.filesOf fs)
  busy : ∀ u ∈ s.unbinds, u.busy = u.opened
  freed : ∀ u ∈ s.unbinds, u.freed = !u.opened
  unused : s.stale = []
  lost : ∀ fs, s.handle = some fs → (s.mountpt fs).fsMounted = false →
    ∀ ff ∈ s.filesOf fs, (s.file ff).ffOpen = false

/-- Nothing is ever in the list, and the first unmount uses the structure it has freed. -/
structure Inv (s : State) : Prop where
  head : ∀ fs, s.handle = some fs → (s.mountpt fs).fsHead = 0
  heads : ∀ ff ∈ s.opened, (s.mountpt (s.mountOf ff)).fsHead = 0
  bound : s.unbinds = [] → ∀ ff ∈ s.opened, s.handle = some (s.mountOf ff)
  live : s.unbinds = [] → ∀ fs, s.handle = some fs → fs ∈ s.live ∧ fs ∉ s.opened
  fresh : s.unbinds = [] → s.stale = []
  stale : s.unbinds ≠ [] → s.stale ≠ []

section

variable {s s' : State} {fs ff : Nat}

structure Same (s s' : State) : Prop where
  head : ∀ fs, (s'.mountpt fs).fsHead = (s.mountpt fs).fsHead
  handle : s'.handle = s.handle
  opened : s'.opened = s.opened
  mountOf : s'.mountOf = s.mountOf
  unbinds : s'.unbinds = s.unbinds
  live : s'.live = s.live
  stale : s'.stale = s.stale

theorem fatCheckmount_same {healthy b : Bool} (h0 : (s.mountpt fs).fsHead = 0)
    (he : fatCheckmount fs healthy s = some (s', b)) : Same s s' := by
  unfold fatCheckmount at he
  split at he
  · split at he
    · cases he
      exact ⟨fun _ => rfl, rfl, rfl, rfl, rfl, rfl, rfl⟩
    · rw [h0] at he
      unfold markClosed at he
      rw [if_pos rfl] at he
      cases he
      refine ⟨fun x => ?_, rfl, rfl, rfl, rfl, rfl, rfl⟩
      show (update s.mountpt fs _ x).fsHead = _
      by_cases hx : x = fs
      · rw [hx, update_self]
      · rw [update_of_ne hx]
  · cases he
    exact ⟨fun _ => rfl, rfl, rfl, rfl, rfl, rfl, rfl⟩

theorem Inv.same (I : Inv s) (S : Same s s') : Inv s' where
  head x hx := by
    rw [S.head]
    rw [S.handle] at hx
    exact I.head x hx
  heads ff hf := by
    rw [S.mountOf, S.head]
    rw [S.opened] at hf
    exact I.heads ff hf
  bound hu ff hf := by
    rw [S.unbinds] at hu
    rw [S.opened] at hf
    rw [S.handle, S.mountOf]
    exact I.bound hu ff hf
  live hu x hx := by
    rw [S.unbinds] at hu
    rw [S.handle] at hx
    rw [S.live, S.opened]
    exact I.live hu x hx
  fresh hu := by
    rw [S.unbinds] at hu
    rw [S.stale]
    exact I.fresh hu
  stale hu := by
    rw [S.unbinds] at hu
    rw [S.stale]
    exact I.stale hu

theorem Inv.touch (I : Inv s) (h : s.unbinds = [] → fs ∈ s.live) : Inv (s.touch fs) := by
  unfold State.touch
  split
  · exact I
  · rename_i hn
    refine ⟨I.head, I.heads, I.bound, I.live, fun hu => absurd (h hu) hn, fun hu => ?_⟩
    show s.stale ++ [fs] ≠ []
    simp

theorem Inv.boundLive (I : Inv s) (h : ff ∈ s.opened) :
    s.unbinds = [] → s.mountOf ff ∈ s.live := by
  intro hu
  exact (I.live hu _ (I.bound hu ff h)).1

theorem touch_fields (s : State) (fs : Nat) : (s.touch fs).mountpt = s.mountpt ∧
    (s.touch fs).opened = s.opened ∧ (s.touch fs).handle = s.handle ∧
    (s.touch fs).mountOf = s.mountOf ∧ (s.touch fs).live = s.live ∧
    (s.touch fs).unbinds = s.unbinds := by
  unfold State.touch
  split <;> exact ⟨rfl, rfl, rfl, rfl, rfl, rfl⟩

theorem Inv.bind {opens mounts : Bool} {mem : Option Nat} (I : Inv s) (hh : s.handle = none)
    (hm : ∀ p ∈ mem, Fresh s p) : Inv (fatBind opens mem mounts s).1 := by
  have hnone : s.unbinds = [] → ∀ ff ∈ s.opened, False := by
    intro hu ff hf
    have h := I.bound hu ff hf
    rw [hh] at h
    cases h
  unfold fatBind
  split
  · exact I
  · cases mem with
    | none => exact I
    | some fs =>
      have hheads : ∀ x, ((s.mountpt x).fsHead = 0 →
          (update s.mountpt fs ⟨0, mounts⟩ x).fsHead = 0) := by
        intro x hx
        by_cases h : x = fs
        · rw [h, update_self]
        · rw [update_of_ne h]
          exact hx
      dsimp only
      split
      · refine ⟨fun x hx => ?_, fun ff hf => hheads _ (I.heads ff hf),
          fun hu ff hf => (hnone hu ff hf).elim, fun hu x hx => ?_, I.fresh, I.stale⟩
        · cases hx
          show (update s.mountpt fs ⟨0, mounts⟩ fs).fsHead = 0
          rw [update_self]
        · cases hx
          exact ⟨List.mem_cons_self .., fun hf => hnone hu _ hf⟩
      · refine ⟨fun x hx => ?_, fun ff hf => hheads _ (I.heads ff hf),
          fun hu ff hf => (hnone hu ff hf).elim, fun hu x hx => ?_, I.fresh, I.stale⟩
        · have hx' : s.handle = some x := hx
          rw [hh] at hx'
          cases hx'
        · have hx' : s.handle = some x := hx
          rw [hh] at hx'
          cases hx'

theorem linkFile_head (s : State) (fs ff x : Nat) :
    ((linkFile fs ff s).mountpt x).fsHead = (s.mountpt x).fsHead := by
  unfold linkFile State.setMountpt State.setFile
  dsimp only
  by_cases h : x = fs
  · rw [h, update_self, update_self]
  · rw [update_of_ne h]

theorem Inv.open {oflags : Oflags} {m : Meets} {e : Option Errno} (I : Inv s)
    (hh : s.handle = some fs) (hm : ∀ p ∈ m.ff, Fresh s p)
    (he : fatOpen fs oflags m s = some (s', e)) : Inv s' := by
  obtain ⟨⟨s₁, b⟩, hr, hs'⟩ := Option.map_eq_some_iff.mp he
  obtain ⟨hmp, hop, hhd, hmo, hlv, hub⟩ := touch_fields s fs
  have I₀ : Inv (s.touch fs) := I.touch fun hu => (I.live hu fs hh).1
  have S := fatCheckmount_same (by rw [hmp]; exact I.head fs hh) hr
  have I₁ : Inv s₁ := I₀.same S
  have hh₁ : s₁.handle = some fs := by rw [S.handle, hhd, hh]
  have hlive₁ : s₁.live = s.live := S.live.trans hlv
  -- a structure that is freed again leaves everything as it was
  have hback : ∀ (a : State) (p : Nat), Fresh s p → a.live = p :: s₁.live →
      (∀ x, (a.mountpt x).fsHead = (s₁.mountpt x).fsHead) → a.handle = s₁.handle →
      a.opened = s₁.opened → a.mountOf = s₁.mountOf → a.unbinds = s₁.unbinds →
      a.stale = s₁.stale → Inv (a.free p) := by
    intro a p hp hl h1 h2 h3 h4 h5 h6
    apply I₁.same
    refine ⟨h1, h2, h3, h4, h5, ?_, h6⟩
    show a.live.filter (· ≠ p) = s₁.live
    rw [hl, List.filter_cons_of_neg (by simp), List.filter_eq_self]
    intro x hx
    rw [hlive₁] at hx
    simp only [ne_eq, decide_not, Bool.not_eq_true', decide_eq_false_iff_not]
    exact fun h => hp.2 (h ▸ hx)
  dsimp only at hs'
  split at hs'
  · cases hs'
    exact I₁
  · split at hs'
    · cases hs'
      exact I₁
    · split at hs'
      · cases hs'
        exact I₁
      · rename_i p hp
        have hfresh := hm p hp
        split at hs'
        · cases hs'
          exact hback _ p hfresh rfl (fun _ => rfl) rfl rfl rfl rfl rfl
        · split at hs'
          · cases hs'
            exact hback _ p hfresh rfl (linkFile_head _ fs p) rfl rfl rfl rfl rfl
          · cases hs'
            refine ⟨fun x hx => ?_, fun f hf => ?_, fun hu f hf => ?_, fun hu x hx => ?_,
              I₁.fresh, I₁.stale⟩
            · refine (linkFile_head _ fs p x).trans ?_
              exact I₁.head x hx
            · refine (linkFile_head _ fs p _).trans ?_
              show (s₁.mountpt (update s₁.mountOf p fs f)).fsHead = 0
              by_cases hfp : f = p
              · rw [hfp, update_self]
                exact I₁.head fs hh₁
              · rw [update_of_ne hfp]
                exact I₁.heads f ((List.mem_cons.mp hf).resolve_left hfp)
            · show s₁.handle = some (update s₁.mountOf p fs f)
              by_cases hfp : f = p
              · rw [hfp, update_self]
                exact hh₁
              · rw [update_of_ne hfp]
                exact I₁.bound hu f ((List.mem_cons.mp hf).resolve_left hfp)
            · obtain ⟨h1, h2⟩ := I₁.live hu x hx
              refine ⟨List.mem_cons_of_mem _ h1, fun hf => ?_⟩
              rcases List.mem_cons.mp hf with rfl | hf
              · rw [hlive₁] at h1
                exact hfresh.2 h1
              · exact h2 hf

theorem Inv.close {healthy : Bool} (I : Inv s) (hf : ff ∈ s.opened)
    (he : fatClose ff healthy s = some s') : Inv s' := by
  obtain ⟨⟨s₁, b⟩, hr, rfl⟩ := Option.map_eq_some_iff.mp he
  obtain ⟨hmp, hop, hhd, hmo, hlv, hub⟩ := touch_fields s (s.mountOf ff)
  have I₀ : Inv (s.touch (s.mountOf ff)) := I.touch (I.boundLive hf)
  have S := fatCheckmount_same (by rw [hmp]; exact I.heads ff hf) hr
  have I₁ : Inv s₁ := I₀.same S
  have hf₁ : ff ∈ s₁.opened := by
    rw [S.opened, hop]
    exact hf
  refine ⟨I₁.head, fun f hfm => I₁.heads f (List.mem_of_mem_erase hfm),
    fun hu f hfm => I₁.bound hu f (List.mem_of_mem_erase hfm), fun hu x hx => ?_, I₁.fresh, I₁.stale⟩
  obtain ⟨h1, h2⟩ := I₁.live hu x hx
  refine ⟨List.mem_filter.mpr ⟨h1, ?_⟩, fun hfm => h2 (List.mem_of_mem_erase hfm)⟩
  simp only [ne_eq, decide_not, Bool.not_eq_true', decide_eq_false_iff_not]
  exact fun h => h2 (h ▸ hf₁)

theorem Inv.unbind (I : Inv s) (hh : s.handle = some fs) :
    Inv (fatUnbind fs s) ∧ (fatUnbind fs s).unbinds ≠ [] := by
  obtain ⟨hmp, hop, hhd, hmo, hlv, hub⟩ := touch_fields s fs
  have hbusy : decide ((s.mountpt fs).fsHead ≠ 0) = false := by
    rw [I.head fs hh]
    rfl
  unfold fatUnbind
  dsimp only
  rw [hmp, hop, hmo, hbusy, if_neg (by simp)]
  generalize hu : (⟨false, !false, decide (∃ ff ∈ s.opened, s.mountOf ff = fs)⟩ : Unbind) = u
  let s₁ : State := { (s.touch fs).free fs with handle := none }
  let s₂ : State := { s₁ with unbinds := s₁.unbinds ++ [u] }
  have hnot : fs ∉ s₂.live := by
    intro h
    have := (List.mem_filter.mp (show fs ∈ (s.touch fs).live.filter (· ≠ fs) from h)).2
    simp at this
  have heq : s₂.touch fs = { s₂ with stale := s₂.stale ++ [fs] } := if_neg hnot
  have hne : (s₂.touch fs).unbinds ≠ [] := by
    rw [heq]
    show s₁.unbinds ++ [u] ≠ []
    simp
  refine ⟨⟨fun x hx => ?_, fun f hf => ?_, fun h => absurd h hne, fun h => absurd h hne,
    fun h => absurd h hne, fun _ => ?_⟩, hne⟩
  · have hx' : (s₂.touch fs).handle = some x := hx
    rw [heq] at hx'
    cases hx'
  · have hf' : f ∈ (s₂.touch fs).opened := hf
    show ((s₂.touch fs).mountpt ((s₂.touch fs).mountOf f)).fsHead = 0
    rw [heq] at hf' ⊢
    show ((s.touch fs).mountpt ((s.touch fs).mountOf f)).fsHead = 0
    rw [hmp, hmo]
    apply I.heads f
    rw [← hop]
    exact hf'
  · show (s₂.touch fs).stale ≠ []
    rw [heq]
    show s₂.stale ++ [fs] ≠ []
    simp

theorem Inv.step {i : Op} (I : Inv s) (hv : i.valid s) (he : i.exec s = some s') : Inv s' := by
  cases i with
  | bind opens mem mounts =>
    cases he
    exact I.bind hv.1 hv.2
  | «open» oflags m =>
    obtain ⟨fs, hh, he⟩ := Option.bind_eq_some_iff.mp he
    obtain ⟨⟨s₁, e⟩, hr, rfl⟩ := Option.map_eq_some_iff.mp he
    exact I.open hh hv hr
  | close ff healthy => exact I.close hv he
  | unbind =>
    obtain ⟨fs, hh, rfl⟩ := Option.map_eq_some_iff.mp he
    exact (I.unbind hh).1

theorem Boot.inv (h : Boot s) : Inv s := by
  refine ⟨fun x hx => ?_, fun f hf => ?_, fun _ f hf => ?_, fun _ x hx => ?_, fun _ => h.stale,
    fun hu => absurd h.unbinds hu⟩
  · rw [h.handle] at hx
    cases hx
  · rw [h.opened] at hf
    cases hf
  · rw [h.opened] at hf
    cases hf
  · rw [h.handle] at hx
    cases hx

end

/-- The list pins the mount exactly while no file is open and nothing was unmounted. -/
theorem mount_pinned_iff {s : State} (h : Reachable fatMachine Boot s) :
    MountPinned s ↔ s.opened = [] ∧ s.unbinds = [] := by
  have I : Inv s := by
    apply Reach.invariant (I := Inv) _ _ h
    · exact fun s hs => hs.inv
    · exact fun s i s' I hv _ he => I.step hv he
  constructor
  · intro M
    have hu : s.unbinds = [] := by
      by_contra hn
      exact I.stale hn M.unused
    refine ⟨?_, hu⟩
    cases ho : s.opened with
    | nil => rfl
    | cons ff l =>
      have hf : ff ∈ s.opened := by
        rw [ho]
        exact List.mem_cons_self ..
      obtain ⟨l, hl, hp⟩ := M.listed _ (I.bound hu ff hf)
      rw [I.heads ff hf] at hl
      cases hl with
      | nil =>
        have hm : ff ∈ s.filesOf (s.mountOf ff) :=
          List.mem_filter.mpr ⟨hf, decide_eq_true rfl⟩
        exact absurd (hp.mem_iff.mpr hm) (List.not_mem_nil)
      | cons h0 _ => exact absurd rfl h0
  · intro ⟨ho, hu⟩
    have hfiles : ∀ fs, s.filesOf fs = [] := by
      intro fs
      unfold State.filesOf
      rw [ho]
      rfl
    refine ⟨fun fs hh => ⟨[], ?_, ?_⟩, fun u hm => ?_, fun u hm => ?_, I.fresh hu,
      fun fs _ _ ff hf => ?_⟩
    · rw [I.head fs hh]
      exact .nil
    · rw [hfiles]
    · rw [hu] at hm
      cases hm
    · rw [hu] at hm
      cases hm
    · rw [hfiles] at hf
      cases hf

def boot : State where
  mountpt _ := ⟨0, false⟩
  file _ := ⟨0, false⟩
  live := []
  handle := none
  opened := []
  mountOf _ := 0
  unbinds := []
  stale := []

theorem boot_boot : Boot boot := ⟨rfl, rfl, rfl, rfl, rfl⟩

/-- A volume is mounted and a file opened and closed. -/
theorem mount_pinned_run : ∃ s : State, s.handle = some 8 ∧ s.opened = [] ∧ s.unbinds = [] ∧
    MountPinned s := by
  have hr : ((runAll fatMachine (fun _ _ => True) boot
      [.bind true (some 8) true,
        .open ⟨true, false, false, false, false⟩
          ⟨true, .entry false false, true, true, some 16, true, true⟩,
        .close 16 true]).any fun s =>
        decide (s.handle = some 8 ∧ s.opened = [] ∧ s.unbinds = [])) = true := by
    decide +kernel
  obtain ⟨s, hs, hd⟩ := (Option.any_eq_true _ _).mp hr
  obtain ⟨h1, h2, h3⟩ := of_decide_eq_true hd
  exact ⟨s, h1, h2, h3, (mount_pinned_iff (Reach.runAll (.init boot_boot) hs)).mpr ⟨h2, h3⟩⟩

/-- A volume with an open file is unmounted, and its structure used once more. -/
theorem unmounted_with_open_file : ¬∀ s, Reachable fatMachine Boot s → MountPinned s := by
  intro hall
  have hr : ((runAll fatMachine (fun _ _ => True) boot
      [.bind true (some 8) true,
        .open ⟨true, false, false, false, false⟩
          ⟨true, .entry false false, true, true, some 16, true, true⟩,
        .unbind]).any fun s =>
        decide (s.unbinds = [⟨false, true, true⟩])) = true := by
    decide +kernel
  obtain ⟨s, hs, hd⟩ := (Option.any_eq_true _ _).mp hr
  have hu := of_decide_eq_true hd
  have h := (hall s (Reach.runAll (.init boot_boot) hs)).busy ⟨false, true, true⟩
  rw [hu] at h
  have hb := h (List.mem_singleton_self _)
  cases hb

end NuttxAvr32.Fat.OpenFiles
