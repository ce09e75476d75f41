import NuttxAvr32.Inode.Namespace
import Mathlib.Algebra.Ring.Nat

/-! # Streams of directories in the tree

`opendir` takes the inode of the directory as `fd_root`, but the root directory has no inode of
its own: there `root_inode` is the first entry, and `fd_root` with it. Backward seeks start at
`fd_root`. The tree does not change here.
-/

namespace NuttxAvr32.Fs.Streams

variable {χ : Type} [PathChar χ]

def NAME_MAX : Nat := 32

/-- `i_ops` and the flag of block drivers, which the tree leaves out. -/
structure Kinds where
  ops : Nat → Bool
  block : Nat → Bool

def isMountpt : Inode χ → Bool
  | .null => false
  | .node i _ _ => i.mountpt

structure Dirent (χ : Type) where
  dType : Nat
  /-- `d_name` up to its terminator, which is missing when all `NAME_MAX + 1` bytes are used. -/
  dName : List χ
deriving DecidableEq

/-- `internal_dir_s`. `psuedo` is `DIRENT_PSUEDONODE` of `fd_flags`. -/
structure Stream (χ : Type) where
  fdRoot : Inode χ
  psuedo : Bool
  fdPosition : Nat
  fdNext : Inode χ

def ENOMEM : Int := 12
def ENOTDIR : Int := 20
def ENOSYS : Int := 38

/-- The paths that `opendir` takes for the root directory. -/
def isRoot : Option (List χ) → Bool
  | none => true
  | some path => path = [] ∨ path = [slash]

def startInode (path : Option (List χ)) (root : Inode χ) : Except Int (Inode χ) :=
  if isRoot path then .ok root
  else
    let path := path.getD []
    if path.head? ≠ some slash then .error (-ENOTDIR) else .ok (inodeSearch root path).node

/-- `mem` is whether the stream gets memory, `mops` the result of the `opendir` of a mounted
file system, if it has one. -/
def opendir (mops : Nat → Option Int) (mem : Bool) (path : Option (List χ)) (root : Inode χ) :
    Except Int (Stream χ) :=
  match startInode path root with
  | .error e => .error e
  | .ok .null => .error ENOTDIR
  | .ok (.node i child peer) =>
    if mem = false then .error ENOMEM
    else if i.mountpt then
      match mops i.addr with
      | none => .error ENOSYS
      | some ret => if ret < 0 then .error (-ret) else .ok ⟨.node i child peer, false, 0, .null⟩
    else if isRoot path then .ok ⟨.node i child peer, true, 0, .node i child peer⟩
    else
      match child with
      | .null => .error ENOTDIR
      | .node j c r => .ok ⟨.node i child peer, true, 0, .node j c r⟩

def DTYPE_CHR : Nat := 2
def DTYPE_BLK : Nat := 4
def DTYPE_DIRECTORY : Nat := 8

def direntType (k : Kinds) (i : Info χ) (child : Inode χ) : Nat :=
  let driver :=
    if k.ops i.addr then
      (if k.block i.addr then DTYPE_BLK else 0) |||
        (if i.mountpt then DTYPE_DIRECTORY else DTYPE_CHR)
    else 0
  if child ≠ .null ∨ k.ops i.addr = false then driver ||| DTYPE_DIRECTORY else driver

def readpsuedodir (k : Kinds) (s : Stream χ) : Option (Stream χ × Dirent χ) :=
  match s.fdNext with
  | .null => none
  | .node i child peer =>
    some ({ s with fdNext := peer }, ⟨direntType k i child, i.name.take (NAME_MAX + 1)⟩)

/-- What a call gives its caller. What a mounted file system does is not told here. -/
inductive Answer (χ : Type)
  | entry (d : Dirent χ)
  | null
  | position (n : Nat)
  | done
  | mounted

def readdir (k : Kinds) (s : Stream χ) : Stream χ × Answer χ :=
  if isMountpt s.fdRoot ∧ s.psuedo = false then (s, .mounted)
  else
    match readpsuedodir k s with
    | none => (s, .null)
    | some (s, d) => ({ s with fdPosition := s.fdPosition + 1 }, .entry d)

def seekPeers (offset : Nat) : Inode χ → Nat → Inode χ × Nat
  | .null, pos => (.null, pos)
  | .node i child peer, pos =>
    if pos = offset then (.node i child peer, pos) else seekPeers offset peer (pos + 1)

def seekpsuedodir (offset : Nat) (s : Stream χ) : Stream χ :=
  let r :=
    if offset < s.fdPosition then seekPeers offset s.fdRoot 0
    else seekPeers offset s.fdNext s.fdPosition
  { s with
    fdNext := r.1
    fdPosition := r.2 }

/-- Only `readdir` looks at the flag of the stream besides the kind of `fd_root`. -/
def seekdir (offset : Nat) (s : Stream χ) : Stream χ × Answer χ :=
  if isMountpt s.fdRoot then (s, .mounted) else (seekpsuedodir offset s, .done)

def rewinddir (s : Stream χ) : Stream χ × Answer χ :=
  if isMountpt s.fdRoot then (s, .mounted)
  else
    ({ s with
      fdNext := s.fdRoot
      fdPosition := 0 }, .done)

inductive Call
  | readdir
  | telldir
  | seekdir (offset : Nat)
  | rewinddir
deriving DecidableEq

def execCall (k : Kinds) (s : Stream χ) : Call → Stream χ × Answer χ
  | .readdir => readdir k s
  | .telldir => (s, .position s.fdPosition)
  | .seekdir offset => seekdir offset s
  | .rewinddir => rewinddir s

def entryAt : Inode χ → Nat → Inode χ
  | t, 0 => t
  | .null, _ + 1 => .null
  | .node _ _ peer, n + 1 => entryAt peer n

/-- The stream continues with the entry at a position, and tells that position. -/
def Stands (dir : Inode χ) (pos : Nat) (s : Stream χ) : Prop :=
  s.fdNext = entryAt dir pos ∧ s.fdPosition = pos

def Dirent.Holds (d : Dirent χ) (n : List χ) : Prop := d.dName = n ∧ n.length ≤ NAME_MAX

/-- The right answer to a call after `pos` of the names have been returned. -/
def Answers (names : List (List χ)) (pos : Nat) (a : Answer χ) : Call → Prop
  | .readdir =>
    match names[pos]? with
    | some n => ∃ d, a = .entry d ∧ d.Holds n
    | none => a = .null
  | .telldir => a = .position pos
  | .seekdir _ | .rewinddir => a = .done

def positionAfter (length pos : Nat) : Call → Nat
  | .readdir => if pos < length then pos + 1 else pos
  | .telldir => pos
  | .seekdir offset => offset
  | .rewinddir => 0

/-- Every answer is right, and every call leaves the stream where it has to continue. -/
def Right (k : Kinds) (dir : Inode χ) : List Call → Nat → Stream χ → Prop
  | [], _, _ => True
  | c :: calls, pos, s =>
    Answers dir.level pos (execCall k s c).2 c ∧
      Stands dir (positionAfter dir.level.length pos c) (execCall k s c).1 ∧
      Right k dir calls (positionAfter dir.level.length pos c) (execCall k s c).1

/-- The positions that callers know: where they started, and what `telldir` returned. -/
def told (pos : Nat) (known : List Nat) : Call → List Nat
  | .telldir => pos :: known
  | _ => known

/-- Callers seek only to positions that were returned earlier. -/
def Valid (length : Nat) : List Call → Nat → List Nat → Prop
  | [], _, _ => True
  | c :: calls, pos, known =>
    (∀ p, c = .seekdir p → p ∈ known) ∧
      Valid length calls (positionAfter length pos c) (told pos known c)

/-- No name is too long for `d_name`, and in a directory with an inode of its own no call goes
back. -/
def CallMeets (root : Prop) (names : List (List χ)) (pos : Nat) : Call → Prop
  | .readdir => ∀ n, names[pos]? = some n → n.length ≤ NAME_MAX
  | .telldir => True
  | .seekdir offset => root ∨ pos ≤ offset
  | .rewinddir => root

def Meets (root : Prop) (names : List (List χ)) : List Call → Nat → Prop
  | [], _ => True
  | c :: calls, pos =>
    CallMeets root names pos c ∧ Meets root names calls (positionAfter names.length pos c)

def firstEntry (t : Inode χ) (p : Path χ) : Inode χ :=
  if p = [] then t
  else
    match (t.walk p).1 with
    | .null => .null
    | .node _ child _ => child

/-- How callers name a directory; the root directory has no names in its path. -/
def Named (path : Option (List χ)) (p : Path χ) : Prop :=
  (p = [] ∧ (path = none ∨ path = some [] ∨ path = some [slash])) ∨
    (PathOk p ∧ ∃ trailing, path = some (absolute trailing p))

/-- The root, or a node of the tree that is no mountpoint and has no driver or children. -/
def PsuedoDir (k : Kinds) (t : Inode χ) (p : Path χ) : Prop :=
  p = [] ∨ ∃ i child peer, t.walk p = (.node i child peer, []) ∧ i.mountpt = false ∧
    (child ≠ .null ∨ k.ops i.addr = false)

/-- There is memory, the directory has an entry, and that of the root is no mountpoint. -/
def Opens (mem : Bool) (t : Inode χ) (p : Path χ) : Prop :=
  mem = true ∧ firstEntry t p ≠ .null ∧ (p = [] → isMountpt t = false)

section

variable {t child peer : Inode χ} {i : Info χ} {n m : Nat}

omit [PathChar χ] in
@[simp] theorem entryAt_null (n : Nat) : entryAt (.null : Inode χ) n = .null := by
  cases n <;> rfl

omit [PathChar χ] in
@[simp] theorem entryAt_zero (t : Inode χ) : entryAt t 0 = t := by
  cases t <;> rfl

omit [PathChar χ] in
theorem entryAt_add (t : Inode χ) (n m : Nat) : entryAt t (n + m) = entryAt (entryAt t n) m := by
  induction n generalizing t with
  | zero => rw [Nat.zero_add, entryAt_zero]
  | succ n ih =>
    rw [Nat.succ_add]
    cases t with
    | null => simp
    | node i child peer => exact ih peer

omit [PathChar χ] in
theorem entryAt_level (t : Inode χ) (n : Nat) :
    (t.level[n]? = none ∧ entryAt t n = .null) ∨
      ∃ i child, entryAt t n = .node i child (entryAt t (n + 1)) ∧ t.level[n]? = some i.name := by
  induction t generalizing n with
  | null => exact .inl ⟨rfl, entryAt_null n⟩
  | node i child peer _ ih =>
    cases n with
    | zero =>
      refine .inr ⟨i, child, ?_, rfl⟩
      show Inode.node i child peer = .node i child (entryAt peer 0)
      rw [entryAt_zero]
    | succ n => exact ih n

omit [PathChar χ] in
theorem entryAt_ne_null (h : n < t.level.length) : entryAt t n ≠ .null := by
  rcases entryAt_level t n with ⟨hn, -⟩ | ⟨i, child, he, -⟩
  · exact absurd (List.getElem?_eq_none_iff.mp hn) (by omega)
  · rw [he]
    exact nofun

omit [PathChar χ] in
theorem seekPeers_forward {offset pos : Nat} (h : pos ≤ offset)
    (hl : offset - pos ≤ t.level.length) :
    seekPeers offset t pos = (entryAt t (offset - pos), offset) := by
  induction t generalizing pos with
  | null =>
    have he : pos = offset := by
      have : (Inode.null : Inode χ).level.length = 0 := rfl
      omega
    subst he
    simp [seekPeers]
  | node i child peer _ ih =>
    unfold seekPeers
    by_cases he : pos = offset
    · subst he
      rw [if_pos rfl, Nat.sub_self]
      rfl
    · rw [if_neg he]
      have hlen : (Inode.node i child peer).level.length = peer.level.length + 1 := rfl
      have hsub : offset - pos = (offset - (pos + 1)) + 1 := by omega
      rw [ih (by omega) (by omega), hsub]
      rfl

omit [PathChar χ] in
theorem seekPeers_entry (offset : Nat) (t : Inode χ) (pos : Nat) :
    pos ≤ (seekPeers offset t pos).2 ∧
      (seekPeers offset t pos).1 = entryAt t ((seekPeers offset t pos).2 - pos) := by
  induction t generalizing pos with
  | null => exact ⟨le_rfl, (entryAt_null _).symm⟩
  | node i child peer _ ih =>
    unfold seekPeers
    by_cases he : pos = offset
    · rw [if_pos he]
      exact ⟨le_rfl, by rw [Nat.sub_self]; rfl⟩
    · rw [if_neg he]
      obtain ⟨h1, h2⟩ := ih (pos + 1)
      refine ⟨by omega, ?_⟩
      have hsub : (seekPeers offset peer (pos + 1)).2 - pos
          = ((seekPeers offset peer (pos + 1)).2 - (pos + 1)) + 1 := by omega
      rw [hsub]
      exact h2

omit [PathChar χ] in
theorem entryAt_addr {j : Info χ} {c r : Inode χ} (h : entryAt t n = .node j c r) :
    j.addr ∈ t.addrs := by
  induction t generalizing n with
  | null => rw [entryAt_null] at h; cases h
  | node i child peer _ ih =>
    cases n with
    | zero =>
      cases h
      exact List.mem_cons_self
    | succ n => exact List.mem_cons_of_mem _ (List.mem_append_right _ (ih h))

omit [PathChar χ] in
theorem entryAt_apart (hn : (Inode.node i child peer).addrs.Nodup)
    (h : entryAt child n ≠ .null) : entryAt (.node i child peer) m ≠ entryAt child n := by
  obtain ⟨hi, hnd⟩ := List.nodup_cons.mp hn
  obtain ⟨-, -, hdis⟩ := List.nodup_append.mp hnd
  cases hc : entryAt child n with
  | null => exact absurd hc h
  | node j c r =>
    have hj := entryAt_addr hc
    intro he
    cases m with
    | zero =>
      cases he
      exact hi (List.mem_append_left _ hj)
    | succ m => exact hdis _ hj _ (entryAt_addr (t := peer) he) rfl

end

section

variable {k : Kinds} {dir r : Inode χ} {root : Prop} {s : Stream χ} {pos : Nat}

omit [PathChar χ] in
theorem positionAfter_le {length : Nat} (h : pos ≤ length) {c : Call}
    (hc : ∀ p, c = .seekdir p → p ≤ length) : positionAfter length pos c ≤ length := by
  cases c with
  | readdir =>
    show (if pos < length then pos + 1 else pos) ≤ length
    split <;> omega
  | telldir => exact h
  | seekdir p => exact hc p rfl
  | rewinddir => exact Nat.zero_le _

/-- What `fd_root` is: in the root directory the first entry, elsewhere an inode from which no
entry is reached. -/
structure Anchor (root : Prop) (dir r : Inode χ) : Prop where
  kind : isMountpt r = false
  first : root → r = dir
  apart : ¬ root → ∀ n m, entryAt dir n ≠ .null → entryAt r m ≠ entryAt dir n

theorem execCall_root (k : Kinds) (s : Stream χ) (c : Call) :
    (execCall k s c).1.fdRoot = s.fdRoot := by
  cases c with
  | readdir =>
    show (readdir k s).1.fdRoot = _
    unfold readdir readpsuedodir
    split
    · rfl
    · cases s.fdNext <;> rfl
  | telldir => rfl
  | seekdir offset =>
    show (seekdir offset s).1.fdRoot = _
    unfold seekdir
    split <;> rfl
  | rewinddir =>
    show (rewinddir s).1.fdRoot = _
    unfold rewinddir
    split <;> rfl

omit [PathChar χ] in
theorem take_holds {n : List χ} {type : Nat} :
    (⟨type, n.take (NAME_MAX + 1)⟩ : Dirent χ).Holds n ↔ n.length ≤ NAME_MAX := by
  refine ⟨fun h => h.2, fun h => ⟨?_, h⟩⟩
  exact List.take_of_length_le (by omega)

theorem right_readdir (hk : isMountpt s.fdRoot = false) (hs : Stands dir pos s) :
    (Answers dir.level pos (readdir k s).2 .readdir ∧
      Stands dir (positionAfter dir.level.length pos .readdir) (readdir k s).1) ↔
      CallMeets root dir.level pos .readdir := by
  obtain ⟨hnext, hpos⟩ := hs
  have hc : ¬(isMountpt s.fdRoot = true ∧ s.psuedo = false) := by
    rw [hk]
    exact fun h => nomatch h.1
  show _ ↔ ∀ n, dir.level[pos]? = some n → n.length ≤ NAME_MAX
  unfold Answers positionAfter readdir readpsuedodir
  rw [if_neg hc, hnext]
  rcases entryAt_level dir pos with ⟨hn, he⟩ | ⟨i, child, he, hn⟩
  · -- the end of the list
    have hl := List.getElem?_eq_none_iff.mp hn
    rw [he, hn, if_neg (by omega)]
    refine ⟨fun _ n h => ?_, fun _ => ⟨rfl, ?_, hpos⟩⟩
    · cases h
    · exact hnext.trans rfl
  · have hl := (List.getElem?_eq_some_iff.mp hn).1
    rw [he, hn, if_pos hl]
    constructor
    · rintro ⟨⟨d, hd, hh⟩, -⟩ n hn'
      cases hn'
      exact hh.2
    · intro h
      refine ⟨⟨_, rfl, take_holds.mpr (h _ rfl)⟩, rfl, ?_⟩
      show s.fdPosition + 1 = pos + 1
      rw [hpos]

omit [PathChar χ] in
theorem seekdir_right_iff (A : Anchor root dir s.fdRoot) (hs : Stands dir pos s) {p : Nat}
    (hp : p ≤ dir.level.length) (hpos : pos ≤ dir.level.length) :
    (Answers dir.level pos (seekdir p s).2 (.seekdir p) ∧
      Stands dir (positionAfter dir.level.length pos (.seekdir p)) (seekdir p s).1) ↔
      CallMeets root dir.level pos (.seekdir p) := by
  obtain ⟨hnext, hat⟩ := hs
  show _ ↔ root ∨ pos ≤ p
  unfold Answers positionAfter seekdir seekpsuedodir
  rw [A.kind, hat, hnext, if_neg (by decide)]
  by_cases hlt : p < pos
  · rw [if_pos hlt]
    by_cases hroot : root
    · rw [A.first hroot, seekPeers_forward (Nat.zero_le _) (by omega)]
      exact ⟨fun _ => .inl hroot, fun _ => ⟨rfl, rfl, rfl⟩⟩
    · -- the seek starts at the inode of the directory
      obtain ⟨-, he⟩ := seekPeers_entry p s.fdRoot 0
      have hne := A.apart hroot p ((seekPeers p s.fdRoot 0).2 - 0)
        (entryAt_ne_null (by omega))
      constructor
      · rintro ⟨-, h, -⟩
        exact absurd (he.symm.trans h) hne
      · rintro (h | h)
        · exact absurd h hroot
        · omega
  · rw [if_neg hlt]
    have hlen : p - pos ≤ (entryAt dir pos).level.length := by
      clear hnext hat hlt A
      induction dir generalizing pos p with
      | null =>
        have : (Inode.null : Inode χ).level.length = 0 := rfl
        omega
      | node i child peer _ ih =>
        have hlevel : (Inode.node i child peer).level.length = peer.level.length + 1 := rfl
        cases pos with
        | zero => simpa using hp
        | succ pos =>
          have hpeer : p - 1 - pos ≤ (entryAt peer pos).level.length :=
            ih (by omega) (by omega)
          show p - (pos + 1) ≤ (entryAt peer pos).level.length
          omega
    rw [seekPeers_forward (by omega) hlen, ← entryAt_add, Nat.add_sub_cancel' (by omega)]
    exact ⟨fun _ => .inr (by omega), fun _ => ⟨rfl, rfl, rfl⟩⟩

omit [PathChar χ] in
theorem rewinddir_right_iff (A : Anchor root dir s.fdRoot) (hne : dir ≠ .null) :
    (Answers dir.level pos (rewinddir s).2 .rewinddir ∧
      Stands dir (positionAfter dir.level.length pos .rewinddir) (rewinddir s).1) ↔
      CallMeets root dir.level pos .rewinddir := by
  show _ ↔ root
  unfold Answers positionAfter rewinddir Stands
  rw [A.kind, if_neg (by decide), entryAt_zero]
  constructor
  · rintro ⟨-, h, -⟩
    by_contra hroot
    refine A.apart hroot 0 0 ?_ ?_
    · rw [entryAt_zero]
      exact hne
    · rw [entryAt_zero, entryAt_zero]
      exact h
  · intro hroot
    exact ⟨rfl, A.first hroot, rfl⟩

/-- A call from the right place is answered rightly, and leaves the stream in the right place,
exactly when it meets its condition. -/
theorem call_right_iff (A : Anchor root dir s.fdRoot) (hs : Stands dir pos s)
    (hpos : pos ≤ dir.level.length) (hne : dir ≠ .null) {c : Call}
    (hc : ∀ p, c = .seekdir p → p ≤ dir.level.length) :
    (Answers dir.level pos (execCall k s c).2 c ∧
      Stands dir (positionAfter dir.level.length pos c) (execCall k s c).1) ↔
      CallMeets root dir.level pos c := by
  cases c with
  | readdir => exact right_readdir A.kind hs
  | telldir =>
    refine ⟨fun _ => trivial, fun _ => ⟨?_, hs⟩⟩
    show Answer.position s.fdPosition = .position pos
    rw [hs.2]
  | seekdir p => exact seekdir_right_iff A hs (hc p rfl) hpos
  | rewinddir => exact rewinddir_right_iff A hne

theorem run_right_iff (calls : List Call) {known : List Nat} (A : Anchor root dir s.fdRoot)
    (hs : Stands dir pos s) (hpos : pos ≤ dir.level.length) (hne : dir ≠ .null)
    (hknown : ∀ p ∈ known, p ≤ dir.level.length)
    (hv : Valid dir.level.length calls pos known) :
    Right k dir calls pos s ↔ Meets root dir.level calls pos := by
  induction calls generalizing s pos known with
  | nil => exact Iff.rfl
  | cons c calls ih =>
    obtain ⟨hv, hrest⟩ := hv
    have hc : ∀ p, c = .seekdir p → p ≤ dir.level.length := fun p h => hknown p (hv p h)
    have hstep := call_right_iff (k := k) A hs hpos hne hc
    have hknown' : ∀ p ∈ told pos known c, p ≤ dir.level.length := by
      intro p hp
      cases c with
      | telldir =>
        rcases List.mem_cons.mp hp with rfl | hp
        · exact hpos
        · exact hknown p hp
      | readdir | seekdir offset | rewinddir => exact hknown p hp
    have hA : Anchor root dir (execCall k s c).1.fdRoot := by
      rw [execCall_root]
      exact A
    show (_ ∧ _ ∧ _) ↔ (_ ∧ _)
    rw [← and_assoc, hstep]
    constructor
    · rintro ⟨hm, hr⟩
      have hs' := (hstep.mpr hm).2
      exact ⟨hm, (ih hA hs' (positionAfter_le hpos hc) hknown' hrest).mp hr⟩
    · rintro ⟨hm, hr⟩
      have hs' := (hstep.mpr hm).2
      exact ⟨hm, (ih hA hs' (positionAfter_le hpos hc) hknown' hrest).mpr hr⟩

end

section

variable {t child peer : Inode χ} {i : Info χ} {p : Path χ}

omit [PathChar χ] in
theorem level_spells (t : Inode χ) (n : List χ) : n ∈ t.level ↔ ∃ j, Spells t [n] j := by
  induction t with
  | null =>
    constructor
    · intro h
      cases h
    · rintro ⟨j, h⟩
      exact absurd h not_spells_null
  | node i child peer _ ih =>
    constructor
    · intro h
      rcases List.mem_cons.mp h with rfl | h
      · exact ⟨i, .here⟩
      · obtain ⟨j, hj⟩ := ih.mp h
        exact ⟨j, .next hj⟩
    · rintro ⟨j, h⟩
      obtain ⟨m, q, hq, hm⟩ := h.level
      cases hq
      exact hm

theorem level_sorted (hs : t.Sorted) : t.level.Pairwise (· < ·) := by
  induction t with
  | null => exact List.Pairwise.nil
  | node i child peer _ ih => exact List.pairwise_cons.mpr ⟨hs.1, ih hs.2.2⟩

theorem walk_subtree (hs : t.Sorted) (hn : t.addrs.Nodup)
    (h : (t.walk p).1 = .node i child peer) :
    (Inode.node i child peer).Sorted ∧ (Inode.node i child peer).addrs.Nodup := by
  refine walk_induct (motive := fun t _ => t.Sorted → t.addrs.Nodup →
    (Inode.node i child peer).Sorted ∧ (Inode.node i child peer).addrs.Nodup) ?_ ?_ ?_ h hs hn
  · exact fun p _ hs hn => ⟨hs, hn⟩
  · intro k c r p _ _ ih hs hn
    exact ih hs.2.1 (List.nodup_append.mp (List.nodup_cons.mp hn).2).1
  · intro k c r n p _ _ ih hs hn
    exact ih hs.2.2 (List.nodup_append.mp (List.nodup_cons.mp hn).2).2.1

theorem walk_spells (hs : t.Sorted) (h : t.walk p = (.node i child peer, [])) {q : Path χ}
    {j : Info χ} (hq : q ≠ []) : Spells t (p ++ q) j ↔ Spells child q j := by
  induction t generalizing p with
  | null => cases h
  | node k c r ihc ihp =>
    cases p with
    | nil => cases h
    | cons n p =>
      rcases lt_trichotomy n k.name with hlt | heq | hgt
      · rw [(turn_lt (f := id) hlt).1] at h
        cases h
      · subst heq
        rw [List.cons_append, spells_eq hs]
        by_cases hend : p = [] ∨ k.mountpt = true
        · rw [(turn_end (f := id) rfl hend).1] at h
          cases h
          simp [hq]
        · rw [(turn_down (f := id) rfl hend).1] at h
          have hne : p ++ q ≠ [] := fun h' => hq (List.append_eq_nil_iff.mp h').2
          rw [ihc hs.2.1 h]
          simp [hne]
      · rw [(turn_gt (f := id) hgt).1] at h
        rw [List.cons_append, spells_ne (ne_of_gt hgt), ← List.cons_append]
        exact ihp hs.2.2 h

theorem firstEntry_sorted (hs : t.Sorted) (hn : t.addrs.Nodup) : (firstEntry t p).Sorted := by
  unfold firstEntry
  split
  · exact hs
  · cases hw : (t.walk p).1 with
    | null => trivial
    | node i child peer => exact (walk_subtree hs hn hw).1.2.1

theorem firstEntry_names {k : Kinds} (hs : t.Sorted) (hd : PsuedoDir k t p) (n : List χ) :
    n ∈ (firstEntry t p).level ↔ ∃ j, Spells t (p ++ [n]) j := by
  unfold firstEntry
  by_cases hp : p = []
  · subst hp
    rw [if_pos rfl]
    exact level_spells t n
  · obtain ⟨i, child, peer, hw, -, -⟩ := hd.resolve_left hp
    rw [if_neg hp, hw, level_spells]
    exact exists_congr fun j => (walk_spells hs hw (List.cons_ne_nil _ _)).symm

theorem isRoot_absolute (trailing : Bool) (hp : PathOk p) :
    isRoot (some (absolute trailing p)) = false := by
  have hj : join trailing p ≠ [] := fun h => hp.1 ((join_eq_nil hp.2).mp h)
  unfold isRoot absolute
  simp [hj]

end

section

variable {t : Inode χ} {p : Path χ} {path : Option (List χ)} {k : Kinds} {mops : Nat → Option Int}
  {mem : Bool} {s : Stream χ}

/-- The root directory: the stream starts at its first entry, unless that is a mountpoint. -/
theorem opendir_root (hr : isRoot path = true) :
    (Opens mem t [] → ∃ s, opendir mops mem path t = .ok s ∧ Stands t 0 s ∧
      Anchor True t s.fdRoot) ∧
      (opendir mops mem path t = .ok s → Stands t 0 s → Opens mem t []) := by
  have hstart : startInode path t = .ok t := by
    unfold startInode
    rw [if_pos hr]
  unfold opendir
  rw [hstart]
  cases t with
  | null =>
    constructor
    · rintro ⟨-, h, -⟩
      exact absurd rfl h
    · intro h
      cases h
  | node i child peer =>
    constructor
    · rintro ⟨rfl, -, hm⟩
      have hm : i.mountpt = false := hm rfl
      refine ⟨⟨.node i child peer, true, 0, .node i child peer⟩, ?_, ⟨rfl, rfl⟩, ?_⟩
      · simp [hm, hr]
      · exact ⟨hm, fun _ => rfl, fun h => absurd trivial h⟩
    · intro h hs
      cases mem with
      | false => cases h
      | true =>
        refine ⟨rfl, nofun, fun _ => ?_⟩
        show i.mountpt = false
        by_contra hm
        have hm : i.mountpt = true := by simpa using hm
        -- the branch for mountpoints leaves `fd_next` to the mounted file system
        simp only [hm, if_true, Bool.true_eq_false, if_false] at h
        cases ho : mops i.addr with
        | none => rw [ho] at h; cases h
        | some ret =>
          rw [ho] at h
          dsimp only at h
          split at h
          · cases h
          · cases h
            cases hs.1

theorem opendir_path (hs : t.Sorted) (hn : t.addrs.Nodup) (hp : PathOk p)
    (hd : PsuedoDir k t p) (trailing : Bool) :
    (Opens mem t p → ∃ s, opendir mops mem (some (absolute trailing p)) t = .ok s ∧
      Stands (firstEntry t p) 0 s ∧ Anchor False (firstEntry t p) s.fdRoot) ∧
      (opendir mops mem (some (absolute trailing p)) t = .ok s → Opens mem t p) := by
  have hr := isRoot_absolute trailing hp
  obtain ⟨i, child, peer, hw, hm, -⟩ := hd.resolve_left hp.1
  obtain ⟨-, hnd⟩ := walk_subtree hs hn (p := p) (by rw [hw])
  have hstart : startInode (some (absolute trailing p)) t = .ok (.node i child peer) := by
    unfold startInode
    rw [hr, if_neg (by decide)]
    dsimp only [Option.getD_some]
    rw [(search_walk hn trailing hp).1, hw]
    exact if_neg fun h => h rfl
  have hfirst : firstEntry t p = child := by
    unfold firstEntry
    rw [if_neg hp.1, hw]
  unfold opendir Opens
  rw [hstart, hfirst]
  dsimp only
  rw [hm, hr]
  simp only [Bool.false_eq_true, if_false]
  cases child with
  | null =>
    constructor
    · rintro ⟨-, h, -⟩
      exact absurd rfl h
    · intro h
      cases mem <;> cases h
  | node j c r =>
    constructor
    · rintro ⟨rfl, -, -⟩
      refine ⟨⟨.node i (.node j c r) peer, true, 0, .node j c r⟩, rfl, ⟨rfl, rfl⟩, hm,
        fun h => h.elim, fun _ n m h => entryAt_apart hnd h⟩
    · intro h
      cases mem with
      | false => cases h
      | true => exact ⟨rfl, nofun, fun h => absurd h hp.1⟩

/-- The directory can be opened, and every call on the stream answers and continues rightly. -/
def Listed (k : Kinds) (mops : Nat → Option Int) (mem : Bool) (path : Option (List χ))
    (t : Inode χ) (p : Path χ) (calls : List Call) : Prop :=
  ∃ s, opendir mops mem path t = .ok s ∧ Stands (firstEntry t p) 0 s ∧
    Right k (firstEntry t p) calls 0 s

/-- Listings are right when the directory opens, no name is too long, and no call goes back in a
directory other than the root. -/
theorem listing_right_iff (hs : t.Sorted) (hn : t.addrs.Nodup) (hp : Named path p)
    (hd : PsuedoDir k t p) (calls : List Call)
    (hv : Valid (firstEntry t p).level.length calls 0 [0]) :
    (firstEntry t p).level.Pairwise (· < ·) ∧
      (∀ n, n ∈ (firstEntry t p).level ↔ ∃ j, Spells t (p ++ [n]) j) ∧
      (Listed k mops mem path t p calls ↔
        Opens mem t p ∧ Meets (p = []) (firstEntry t p).level calls 0) := by
  refine ⟨level_sorted (firstEntry_sorted hs hn), firstEntry_names hs hd, ?_⟩
  have hopen : (Opens mem t p → ∃ s, opendir mops mem path t = .ok s ∧
      Stands (firstEntry t p) 0 s ∧ Anchor (p = []) (firstEntry t p) s.fdRoot) ∧
      ∀ s, opendir mops mem path t = .ok s → Stands (firstEntry t p) 0 s → Opens mem t p := by
    rcases hp with ⟨rfl, hpath⟩ | ⟨hp, trailing, rfl⟩
    · have hr : isRoot path = true := by
        rcases hpath with rfl | rfl | rfl <;> simp [isRoot]
      have hfirst : firstEntry t [] = t := if_pos rfl
      rw [hfirst, eq_self]
      exact ⟨(opendir_root (s := ⟨t, true, 0, t⟩) hr).1, fun s => (opendir_root hr).2⟩
    · have he : (p = []) = False := eq_false hp.1
      rw [he]
      exact ⟨(opendir_path (s := ⟨t, true, 0, t⟩) hs hn hp hd trailing).1,
        fun s h _ => (opendir_path hs hn hp hd trailing).2 h⟩
  have hknown : ∀ q ∈ [0], q ≤ (firstEntry t p).level.length := by simp
  constructor
  · rintro ⟨s, ho, hst, hr⟩
    have hO := hopen.2 s ho hst
    obtain ⟨s', ho', -, A⟩ := hopen.1 hO
    cases ho.symm.trans ho'
    exact ⟨hO, (run_right_iff calls A hst (Nat.zero_le _) hO.2.1 hknown hv).mp hr⟩
  · rintro ⟨hO, hm⟩
    obtain ⟨s, ho, hst, A⟩ := hopen.1 hO
    exact ⟨s, ho, hst, (run_right_iff calls A hst (Nat.zero_le _) hO.2.1 hknown hv).mpr hm⟩

def devTree : Inode Nat :=
  .node ⟨1, [4, 5], 0, false⟩
    (.node ⟨2, [7], 0, false⟩ .null (.node ⟨3, [8, 9], 0, false⟩ .null .null)) .null

def devKinds : Kinds := ⟨fun a => a ≠ 1, fun _ => false⟩

theorem devTree_sorted : devTree.Sorted := by
  have h : ([7] : List Nat) < [8, 9] := by decide
  simp [devTree, Inode.Sorted, Inode.level, h]

/-- Two entries are read, the second again after a forward seek from its position. -/
theorem listing_right_dev :
    (firstEntry devTree [[4, 5]]).level.Pairwise (· < ·) ∧
      (∀ n, n ∈ (firstEntry devTree [[4, 5]]).level ↔ ∃ j, Spells devTree ([[4, 5]] ++ [n]) j) ∧
      (Listed devKinds (fun _ => none) true (some (absolute false [[4, 5]])) devTree [[4, 5]]
          [.readdir, .telldir, .seekdir 1, .readdir, .readdir] ↔
        Opens true devTree [[4, 5]] ∧
          Meets ([[4, 5]] = ([] : Path Nat)) (firstEntry devTree [[4, 5]]).level
            [.readdir, .telldir, .seekdir 1, .readdir, .readdir] 0) := by
  have hwalk : devTree.walk [[4, 5]] = (devTree, []) := by decide
  refine listing_right_iff devTree_sorted (by decide) (.inr ⟨by decide, false, rfl⟩)
    (.inr ⟨_, _, _, hwalk, rfl, .inl nofun⟩) _ ?_
  have hlevel : (firstEntry devTree [[4, 5]]).level = [[7], [8, 9]] := by decide
  rw [hlevel]
  simp [Valid, told, positionAfter]

/-- After `rewinddir` the stream of `/dev` continues with `dev` itself. -/
theorem rewind_shows_parent :
    (devTree.Sorted ∧ devTree.addrs.Nodup ∧ PsuedoDir devKinds devTree [[4, 5]] ∧
      Valid (firstEntry devTree [[4, 5]]).level.length [.readdir, .rewinddir, .readdir] 0 [0]) ∧
      ¬ Listed devKinds (fun _ => none) true (some (absolute false [[4, 5]])) devTree [[4, 5]]
        [.readdir, .rewinddir, .readdir] := by
  have hwalk : devTree.walk [[4, 5]] = (devTree, []) := by decide
  refine ⟨⟨devTree_sorted, by decide, .inr ⟨_, _, _, hwalk, rfl, .inl nofun⟩, ?_⟩, ?_⟩
  · simp [Valid]
  · rintro ⟨s, ho, -, -, -, -, hst, -⟩
    have hs : s = ⟨devTree, true, 0, firstEntry devTree [[4, 5]]⟩ := by
      have hd : opendir (fun _ => none) true (some (absolute false [[4, 5]])) devTree
          = .ok ⟨devTree, true, 0, firstEntry devTree [[4, 5]]⟩ := by rfl
      exact Except.ok.inj (ho.symm.trans hd)
    subst hs
    cases hst.1

end

end NuttxAvr32.Fs.Streams
