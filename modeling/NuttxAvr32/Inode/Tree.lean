import Mathlib.Order.Lattice
import Mathlib.Data.List.Lex

/-! # The inode tree

Inodes form lists of peers sorted by name, each with a list of children. A path is a string
that its `/` cuts into names; the functions below pass the unmatched rest of it on.
-/

namespace NuttxAvr32.Fs

/-- Characters with their order and the separator. -/
class PathChar (χ : Type) extends LinearOrder χ where
  slash : χ

export PathChar (slash)

variable {χ : Type} [PathChar χ]

def inodeCompare : List χ → List χ → Ordering
  | [], [] => .eq
  | f :: _, [] => if f = slash then .eq else .gt
  | [], _ :: _ => .lt
  | f :: fs, n :: ns =>
    if f = slash then .lt
    else if n < f then .gt
    else if f < n then .lt
    else inodeCompare fs ns

def inodeNextname : List χ → List χ
  | [] => []
  | c :: cs => if c = slash then cs else inodeNextname cs

def inodeNamecpy : List χ → List χ
  | [] => []
  | c :: cs => if c = slash then [] else c :: inodeNamecpy cs

structure Info (χ : Type) where
  addr : Nat
  name : List χ
  crefs : Nat
  mountpt : Bool
deriving DecidableEq

/-- A list of inodes, `NULL` or an inode with `i_child` and `i_peer`. -/
inductive Inode (χ : Type)
  | null
  | node (info : Info χ) (child peer : Inode χ)
deriving DecidableEq

/-- What `inode_search` returns: the node, its companions and the rest of the path. -/
structure Found (χ : Type) where
  node : Inode χ
  peer : Option Nat
  parent : Option Nat
  rest : List χ

def inodeSearchFrom : Inode χ → List χ → Option Nat → Option Nat → Found χ
  | .null, name, left, above => ⟨.null, left, above, name⟩
  | .node i child peer, name, left, above =>
    match inodeCompare name i.name with
    | .lt => ⟨.null, left, above, name⟩
    | .gt => inodeSearchFrom peer name (some i.addr) above
    | .eq =>
      if inodeNextname name = [] ∨ i.mountpt then
        ⟨.node i child peer, left, above, inodeNextname name⟩
      else inodeSearchFrom child (inodeNextname name) none (some i.addr)

def inodeSearch (root : Inode χ) (path : List χ) : Found χ :=
  inodeSearchFrom root path.tail none none

/-- Changes the `i_peer` of the inode at an address. -/
def Inode.setPeer (p : Nat) (f : Inode χ → Inode χ) : Inode χ → Inode χ
  | .null => .null
  | .node i child peer =>
    if i.addr = p then .node i child (f peer)
    else .node i (child.setPeer p f) (peer.setPeer p f)

/-- Changes the `i_child` of the inode at an address. -/
def Inode.setChild (p : Nat) (f : Inode χ → Inode χ) : Inode χ → Inode χ
  | .null => .null
  | .node i child peer =>
    if i.addr = p then .node i (f child) peer
    else .node i (child.setChild p f) (peer.setChild p f)

/-- Changes the inode at an address, but not its links. -/
def Inode.setInfo (p : Nat) (f : Info χ → Info χ) : Inode χ → Inode χ
  | .null => .null
  | .node i child peer =>
    .node (if i.addr = p then f i else i) (child.setInfo p f) (peer.setInfo p f)

/-- The link that the companions of a node name: `i_peer` of the left one, else `i_child`
of the parent, else `root_inode`. -/
def place (peer parent : Option Nat) (f : Inode χ → Inode χ) (root : Inode χ) : Inode χ :=
  match peer, parent with
  | some p, _ => root.setPeer p f
  | none, some q => root.setChild q f
  | none, none => f root

def inodeInsert (root : Inode χ) (node : Info χ) (peer parent : Option Nat) : Inode χ :=
  place peer parent (fun next => .node node .null next) root

def inodeUnlink (root next : Inode χ) (peer parent : Option Nat) : Inode χ :=
  place peer parent (fun _ => next) root

def inodeAlloc (addr : Nat) (name : List χ) : Info χ := ⟨addr, inodeNamecpy name, 0, false⟩

/-- The loop of `inode_reserve`; `mem` lists what `zalloc` returns until it fails. -/
def reserveLoop :
    List Nat → Inode χ → List χ → Option Nat → Option Nat → Inode χ × Option Nat
  | [], root, _, _, _ => (root, none)
  | a :: mem, root, name, left, parent =>
    let root := inodeInsert root (inodeAlloc a name) left parent
    if inodeNextname name ≠ [] then reserveLoop mem root (inodeNextname name) none (some a)
    else (root, some a)

def inodeReserve (mem : List Nat) (path : List χ) (root : Inode χ) : Inode χ × Option Nat :=
  if path.head? ≠ some slash then (root, none)
  else
    let s := inodeSearch root path
    match s.node with
    | .node .. => (root, none)
    | .null => reserveLoop mem root s.rest s.peer s.parent

inductive Status
  | ok
  | einval
  | enoent
  | ebusy
deriving DecidableEq

/-- Returns also the node that is marked as deleted, with what is below it. -/
def inodeRemove (path : List χ) (root : Inode χ) : Inode χ × Status × Inode χ :=
  if path.head? ≠ some slash then (root, .einval, .null)
  else
    let s := inodeSearch root path
    match s.node with
    | .null => (root, .enoent, .null)
    | .node i child peer =>
      let root := inodeUnlink root peer s.peer s.parent
      if i.crefs ≠ 0 then (root, .ebusy, .node i child .null) else (root, .ok, .null)

abbrev Path (χ : Type) := List (List χ)

def NameOk (n : List χ) : Prop := n ≠ [] ∧ slash ∉ n

instance decidableNameOk (n : List χ) : Decidable (NameOk n) :=
  inferInstanceAs (Decidable (_ ∧ _))

def PathOk (p : Path χ) : Prop := p ≠ [] ∧ ∀ n ∈ p, NameOk n

instance decidablePathOk (p : Path χ) : Decidable (PathOk p) :=
  inferInstanceAs (Decidable (_ ∧ _))

/-- The names with the separators between them, and one behind the last if `trailing`. -/
def join (trailing : Bool) : Path χ → List χ
  | [] => []
  | [n] => n ++ if trailing then [slash] else []
  | n :: m :: p => n ++ slash :: join trailing (m :: p)

def absolute (trailing : Bool) (p : Path χ) : List χ := slash :: join trailing p

section

variable {n m : List χ} {p : Path χ} {trailing : Bool}

def suffix (trailing : Bool) : Path χ → List χ
  | [] => if trailing then [slash] else []
  | m :: p => slash :: join trailing (m :: p)

theorem join_cons (trailing : Bool) (n : List χ) (p : Path χ) :
    join trailing (n :: p) = n ++ suffix trailing p := by
  cases p <;> rfl

theorem nextname_append {t : List χ} (h : slash ∉ n) :
    inodeNextname (n ++ slash :: t) = t := by
  induction n with
  | nil => exact if_pos rfl
  | cons c n ih =>
    have hc : c ≠ slash := fun h' => h (h' ▸ List.mem_cons_self)
    exact (if_neg hc).trans (ih fun h' => h (List.mem_cons_of_mem _ h'))

theorem nextname_self (h : slash ∉ n) : inodeNextname n = [] := by
  induction n with
  | nil => rfl
  | cons c n ih =>
    have hc : c ≠ slash := fun h' => h (h' ▸ List.mem_cons_self)
    exact (if_neg hc).trans (ih fun h' => h (List.mem_cons_of_mem _ h'))

theorem nextname_join (h : slash ∉ n) : inodeNextname (join trailing (n :: p)) = join trailing p := by
  rw [join_cons]
  cases p with
  | cons m p => exact nextname_append h
  | nil =>
    cases trailing with
    | false => exact (congrArg _ (List.append_nil n)).trans (nextname_self h)
    | true => exact nextname_append h

theorem namecpy_append {t : List χ} (h : slash ∉ n) : inodeNamecpy (n ++ slash :: t) = n := by
  induction n with
  | nil => exact if_pos rfl
  | cons c n ih =>
    have hc : c ≠ slash := fun h' => h (h' ▸ List.mem_cons_self)
    exact (if_neg hc).trans (congrArg _ (ih fun h' => h (List.mem_cons_of_mem _ h')))

theorem namecpy_self (h : slash ∉ n) : inodeNamecpy n = n := by
  induction n with
  | nil => rfl
  | cons c n ih =>
    have hc : c ≠ slash := fun h' => h (h' ▸ List.mem_cons_self)
    exact (if_neg hc).trans (congrArg _ (ih fun h' => h (List.mem_cons_of_mem _ h')))

theorem namecpy_join (h : slash ∉ n) : inodeNamecpy (join trailing (n :: p)) = n := by
  rw [join_cons]
  cases p with
  | cons m p => exact namecpy_append h
  | nil =>
    cases trailing with
    | false => exact (congrArg _ (List.append_nil n)).trans (namecpy_self h)
    | true => exact namecpy_append h

theorem join_eq_nil (h : ∀ n ∈ p, NameOk n) : join trailing p = [] ↔ p = [] := by
  cases p with
  | nil => exact ⟨fun _ => rfl, fun _ => rfl⟩
  | cons n p =>
    rw [join_cons]
    have hn := (h n List.mem_cons_self).1
    constructor
    · intro h'
      exact absurd (List.append_eq_nil_iff.mp h').1 hn
    · intro h'
      cases h'

theorem compare_append {t : List χ} (h : slash ∉ n) :
    inodeCompare (n ++ slash :: t) m = inodeCompare n m := by
  induction n generalizing m with
  | nil =>
    cases m with
    | nil => exact if_pos rfl
    | cons b m => exact if_pos rfl
  | cons c n ih =>
    cases m with
    | nil => rfl
    | cons b m =>
      have hn : slash ∉ n := fun h' => h (List.mem_cons_of_mem _ h')
      show inodeCompare (c :: (n ++ slash :: t)) (b :: m) = _
      unfold inodeCompare
      rw [ih hn]

theorem compare_join (h : slash ∉ n) :
    inodeCompare (join trailing (n :: p)) m = inodeCompare n m := by
  rw [join_cons]
  cases p with
  | cons m p => exact compare_append h
  | nil =>
    cases trailing with
    | false => exact congrArg (inodeCompare · m) (List.append_nil n)
    | true => exact compare_append h

theorem compare_spec (h : slash ∉ n) :
    (inodeCompare n m = .lt ∧ n < m) ∨ (inodeCompare n m = .gt ∧ m < n) ∨
      (inodeCompare n m = .eq ∧ n = m) := by
  induction n generalizing m with
  | nil =>
    cases m with
    | nil => exact .inr (.inr ⟨rfl, rfl⟩)
    | cons b m => exact .inl ⟨rfl, List.nil_lt_cons _ _⟩
  | cons c n ih =>
    have hc : c ≠ slash := fun h' => h (h' ▸ List.mem_cons_self)
    have hn : slash ∉ n := fun h' => h (List.mem_cons_of_mem _ h')
    cases m with
    | nil => exact .inr (.inl ⟨if_neg hc, List.nil_lt_cons _ _⟩)
    | cons b m =>
      unfold inodeCompare
      rw [if_neg hc]
      rcases lt_trichotomy c b with hlt | heq | hgt
      · rw [if_neg (lt_asymm hlt), if_pos hlt]
        exact .inl ⟨rfl, List.cons_lt_cons_iff.mpr (.inl hlt)⟩
      · subst heq
        rw [if_neg (lt_irrefl c), if_neg (lt_irrefl c)]
        rcases ih hn (m := m) with ⟨h1, h2⟩ | ⟨h1, h2⟩ | ⟨h1, h2⟩
        · exact .inl ⟨h1, List.cons_lt_cons_iff.mpr (.inr ⟨rfl, h2⟩)⟩
        · exact .inr (.inl ⟨h1, List.cons_lt_cons_iff.mpr (.inr ⟨rfl, h2⟩)⟩)
        · exact .inr (.inr ⟨h1, congrArg _ h2⟩)
      · rw [if_pos hgt]
        exact .inr (.inl ⟨rfl, List.cons_lt_cons_iff.mpr (.inl hgt)⟩)

end

end NuttxAvr32.Fs
