import NuttxAvr32.Lib.Runs

/-! # Descriptors of character drivers

The descriptor table of a task group, the references that descriptors hold to inodes, and the
calls of the driver methods `open` and `close` that were made for them. What a driver method
answers is part of the operation that calls it.
-/

namespace NuttxAvr32.Fs.Descriptors

open Runs

/-- Which methods are in `u.i_ops`; `driver` is `INODE_IS_DRIVER(inode) && inode->u.i_ops`. -/
structure Driver where
  driver : Bool
  hasRead : Bool
  hasWrite : Bool
  hasOpen : Bool
  hasClose : Bool

structure File (ι : Type) where
  oflags : Nat
  pos : Nat
  inode : Option ι
deriving DecidableEq

def File.zero (ι : Type) : File ι := ⟨0, 0, none⟩

/-- `struct filelist`, the `i_crefs` of inodes, and how often the methods `open` of a driver
succeeded and the methods `close` were called. `alive` until the list is freed. -/
structure Group (ι : Type) where
  flFiles : List (File ι)
  flCrefs : Int
  alive : Bool
  crefs : ι → Nat
  opens : ι → Nat
  closes : ι → Nat

variable {ι : Type} [DecidableEq ι]

def bump (f : ι → Nat) (i : ι) (n : Nat) : ι → Nat := fun j => if j = i then n else f j

namespace Group

def inodeAddref (i : ι) (s : Group ι) : Group ι := { s with crefs := bump s.crefs i (s.crefs i + 1) }

def inodeRelease (i : ι) (s : Group ι) : Group ι := { s with crefs := bump s.crefs i (s.crefs i - 1) }

def setFile (fd : Nat) (f : File ι) (s : Group ι) : Group ι :=
  { s with flFiles := s.flFiles.set fd f }

omit [DecidableEq ι] in
def inodeOf (s : Group ι) (fd : Int) : Option ι :=
  if 0 ≤ fd then (s.flFiles[fd.toNat]?).bind File.inode else none

end Group

section

variable (drv : ι → Driver)

def driverOpen (inode : ι) (ret : Int) (s : Group ι) : Int × Group ι :=
  if (drv inode).hasOpen then
    (ret, if ret < 0 then s else { s with opens := bump s.opens inode (s.opens inode + 1) })
  else (0, s)

def driverClose (inode : ι) (ret : Int) (s : Group ι) : Int × Group ι :=
  if (drv inode).hasClose then
    (ret, { s with closes := bump s.closes inode (s.closes inode + 1) })
  else (0, s)

def closeSlot (fd : Nat) (closeRet : Int) (s : Group ι) : Int × Group ι :=
  match s.inodeOf fd with
  | some inode =>
    let r := driverClose drv inode closeRet s
    (r.1, (r.2.inodeRelease inode).setFile fd (File.zero ι))
  | none => (0, s)

/-- A negative `minfd` makes the loop look at `fl_files[minfd]`. -/
def filesAllocate (inode : ι) (oflags pos : Nat) (minfd : Int) (s : Group ι) :
    Option (Int × Group ι) :=
  if minfd < 0 then none
  else
    match (List.range' minfd.toNat (s.flFiles.length - minfd.toNat)).find? fun i =>
        s.inodeOf (i : Nat) = none with
    | some i => some ((i : Int), s.setFile i ⟨oflags, pos, some inode⟩)
    | none => some (-1, s)

def filesRelease (fd : Int) (s : Group ι) : Group ι :=
  if 0 ≤ fd then s.setFile fd.toNat (File.zero ι) else s

def inodeCheckflags (d : Driver) (oflags : Nat) : Bool :=
  ¬((oflags &&& 1 ≠ 0 ∧ d.hasRead = false) ∨ (oflags &&& 2 ≠ 0 ∧ d.hasWrite = false))

/-- `open`. `found` is what `inode_find` finds, and `openRet` the answer of the driver. -/
def openCall (found : Option ι) (oflags : Nat) (openRet : Int) (s : Group ι) :
    Option (Int × Group ι) :=
  match found with
  | none => some (-1, s)
  | some inode =>
    let s := s.inodeAddref inode
    if (drv inode).driver = false then some (-1, s.inodeRelease inode)
    else if inodeCheckflags (drv inode) oflags = false then some (-1, s.inodeRelease inode)
    else
      (filesAllocate inode oflags 0 0 s).bind fun r =>
        if r.1 < 0 then some (-1, r.2.inodeRelease inode)
        else
          let o := driverOpen drv inode openRet r.2
          if o.1 < 0 then some (-1, (filesRelease r.1 o.2).inodeRelease inode)
          else some (r.1, o.2)

def fileDup (fildes minfd : Int) (s : Group ι) : Option (Int × Group ι) :=
  match s.inodeOf fildes with
  | none => some (-1, s)
  | some inode =>
    let f := (s.flFiles[fildes.toNat]?).getD (File.zero ι)
    (filesAllocate inode f.oflags f.pos minfd (s.inodeAddref inode)).bind fun r =>
      if r.1 < 0 then some (-1, r.2.inodeRelease inode) else some r

def filesDup (fd1 fd2 : Nat) (closeRet openRet : Int) (s : Group ι) : Int × Group ι :=
  match s.inodeOf fd1 with
  | none => (-1, s)
  | some inode =>
    let c := closeSlot drv fd2 closeRet s
    if c.1 < 0 then (-1, c.2)
    else
      let f := (c.2.flFiles[fd1]?).getD (File.zero ι)
      let s := (c.2.inodeAddref inode).setFile fd2 ⟨f.oflags, f.pos, some inode⟩
      let o := driverOpen drv inode openRet s
      if o.1 < 0 then (-1, (o.2.inodeRelease inode).setFile fd2 (File.zero ι))
      else (0, o.2)

def dup2 (fildes1 fildes2 : Int) (closeRet openRet : Int) (s : Group ι) : Int × Group ι :=
  if s.inodeOf fildes1 = none then (-1, s)
  else if fildes1 = fildes2 then (fildes1, s)
  else if fildes2 < 0 ∨ (s.flFiles.length : Int) ≤ fildes2 then (-1, s)
  else filesDup drv fildes1.toNat fildes2.toNat closeRet openRet s

def close (fd : Int) (closeRet : Int) (s : Group ι) : Int × Group ι :=
  if s.inodeOf fd = none then (-1, s)
  else
    let r := closeSlot drv fd.toNat closeRet s
    if r.1 < 0 then (-1, r.2) else (0, r.2)

omit [DecidableEq ι] in
def filesAddreflist (s : Group ι) : Group ι := { s with flCrefs := s.flCrefs + 1 }

def closeAll (closeRet : Nat → Int) : Nat → Nat → Group ι → Group ι
  | _, 0, s => s
  | fd, n + 1, s => closeAll closeRet (fd + 1) n (closeSlot drv fd (closeRet fd) s).2

def filesReleaselist (closeRet : Nat → Int) (s : Group ι) : Group ι :=
  let s := { s with flCrefs := s.flCrefs - 1 }
  if s.flCrefs ≤ 0 then { closeAll drv closeRet 0 s.flFiles.length s with alive := false } else s

end

inductive Op (ι : Type)
  | open (found : Option ι) (oflags : Nat) (openRet : Int)
  | fileDup (fildes minfd : Int)
  | dup2 (fildes1 fildes2 closeRet openRet : Int)
  | close (fd closeRet : Int)
  | addreflist
  | releaselist (closeRet : Nat → Int)

namespace Op

def exec (drv : ι → Driver) : Op ι → Group ι → Option (Int × Group ι)
  | .open found oflags openRet, s => openCall drv found oflags openRet s
  | fileDup fildes minfd, s => Descriptors.fileDup fildes minfd s
  | dup2 a b closeRet openRet, s => some (Descriptors.dup2 drv a b closeRet openRet s)
  | close fd closeRet, s => some (Descriptors.close drv fd closeRet s)
  | addreflist, s => some (0, filesAddreflist s)
  | releaselist closeRet, s => some (0, filesReleaselist drv closeRet s)

def accepts (has : Bool) (ret : Int) : Prop := has = true → 0 ≤ ret

/-- The condition on the operations.

A duplication by `file_dup` finds no descriptor, unless the driver keeps no count; a successful
`dup2` of two different descriptors is to descriptor 0, one that fails at a driver is to a free
descriptor; no method `close` fails in `close`. -/
def keeps (drv : ι → Driver) (s : Group ι) : Op ι → Prop
  | fileDup fildes minfd => ∀ inode ∈ s.inodeOf fildes, 0 ≤ minfd ∧
      (((drv inode).hasOpen && (drv inode).hasClose) = true →
        ∀ fd < s.flFiles.length, minfd ≤ fd → s.inodeOf fd ≠ none)
  | dup2 a b closeRet openRet => ∀ inode ∈ s.inodeOf a, a ≠ b → 0 ≤ b → b < s.flFiles.length →
      (s.inodeOf b = none ∧ ¬ accepts (drv inode).hasOpen openRet) ∨
      (b = 0 ∧ (∀ inode' ∈ s.inodeOf b, accepts (drv inode').hasClose closeRet) ∧
        accepts (drv inode).hasOpen openRet)
  | close fd closeRet => ∀ inode ∈ s.inodeOf fd, accepts (drv inode).hasClose closeRet
  | _ => True

/-- The descriptors that a call which returned `r` has nothing to do with. -/
def leaves (r : Int) (fd : Nat) : Op ι → Prop
  | .open _ _ _ => (fd : Int) ≠ r
  | fileDup _ _ => (fd : Int) ≠ r
  | dup2 _ b _ _ => (fd : Int) ≠ b
  | close x _ => (fd : Int) ≠ x
  | addreflist => True
  | releaselist _ => False

def allocates : Op ι → Prop
  | .open _ _ _ => True
  | fileDup _ _ => True
  | _ => False

structure Honours (i : Op ι) (s : Group ι) (r : Int) (s' : Group ι) : Prop where
  failed : r < 0 → s'.flFiles = s.flFiles ∧ s'.crefs = s.crefs
  dup2 : ∀ a b closeRet openRet, i = .dup2 a b closeRet openRet → 0 ≤ r → r = b
  fresh : i.allocates → 0 ≤ r → s.inodeOf r = none ∧ s'.inodeOf r ≠ none
  apart : ∀ fd, i.leaves r fd → s'.flFiles[fd]? = s.flFiles[fd]?

end Op

instance decidableAccepts (has : Bool) (ret : Int) : Decidable (Op.accepts has ret) :=
  inferInstanceAs (Decidable (has = true → 0 ≤ ret))

instance decidableDescriptorsKeeps (drv : ι → Driver) (s : Group ι) (i : Op ι) :
    Decidable (i.keeps drv s) :=
  match i with
  | .fileDup fildes minfd => inferInstanceAs (Decidable (∀ inode ∈ s.inodeOf fildes, 0 ≤ minfd ∧
      (((drv inode).hasOpen && (drv inode).hasClose) = true →
        ∀ fd < s.flFiles.length, minfd ≤ fd → s.inodeOf fd ≠ none)))
  | .dup2 a b closeRet openRet => inferInstanceAs (Decidable (∀ inode ∈ s.inodeOf a,
      a ≠ b → 0 ≤ b → b < s.flFiles.length →
      (s.inodeOf b = none ∧ ¬ Op.accepts (drv inode).hasOpen openRet) ∨
      (b = 0 ∧ (∀ inode' ∈ s.inodeOf b, Op.accepts (drv inode').hasClose closeRet) ∧
        Op.accepts (drv inode).hasOpen openRet)))
  | .close fd closeRet =>
    inferInstanceAs (Decidable (∀ inode ∈ s.inodeOf fd, Op.accepts (drv inode).hasClose closeRet))
  | .open _ _ _ => inferInstanceAs (Decidable True)
  | .addreflist => inferInstanceAs (Decidable True)
  | .releaselist _ => inferInstanceAs (Decidable True)

def groupMachine (drv : ι → Driver) : Machine (Group ι) (Op ι) where
  valid s _ := s.alive = true
  exec s i := (i.exec drv s).map Prod.snd

instance decidableGroupMachineValid (drv : ι → Driver) (s : Group ι) (i : Op ι) :
    Decidable ((groupMachine drv).valid s i) :=
  inferInstanceAs (Decidable (s.alive = true))

def refs (i : ι) (s : Group ι) : Nat := s.flFiles.countP fun f => f.inode = some i

/-- For a driver with both methods, the calls that it has seen leave one open for each
descriptor. -/
def Balanced (drv : ι → Driver) (s : Group ι) : Prop :=
  ∀ i, ((drv i).hasOpen && (drv i).hasClose) = true → s.opens i = s.closes i + refs i s

structure Start (s : Group ι) : Prop where
  flFiles : ∀ f ∈ s.flFiles, f = File.zero ι
  flCrefs : s.flCrefs = 1
  alive : s.alive = true
  opens : s.opens = s.closes

omit [DecidableEq ι] in
theorem countP_set_add {α : Type} (p : α → Bool) {l : List α} {fd : Nat} (h : fd < l.length)
    (a : α) : (l.set fd a).countP p + (p l[fd]).toNat = l.countP p + (p a).toNat := by
  induction l generalizing fd with
  | nil => exact absurd h (Nat.not_lt_zero _)
  | cons b l ih =>
    cases fd with
    | zero =>
      simp only [List.set_cons_zero, List.countP_cons, List.getElem_cons_zero]
      cases p a <;> cases p b <;> simp
    | succ fd =>
      have h' := ih (Nat.lt_of_succ_lt_succ h)
      simp only [List.set_cons_succ, List.countP_cons, List.getElem_cons_succ]
      omega

variable {drv : ι → Driver} {s s' : Group ι} {i : ι}

omit [DecidableEq ι] in
@[simp] theorem inodeOf_nat (s : Group ι) (fd : Nat) :
    s.inodeOf (fd : Int) = (s.flFiles[fd]?).bind File.inode := by
  simp [Group.inodeOf]

omit [DecidableEq ι] in
theorem inodeOf_some {fd : Int} (h : s.inodeOf fd = some i) :
    ∃ n : Nat, fd = n ∧ ∃ hn : n < s.flFiles.length, (s.flFiles[n]).inode = some i := by
  unfold Group.inodeOf at h
  split at h
  · rename_i h0
    obtain ⟨f, hf, hi⟩ := Option.bind_eq_some_iff.mp h
    obtain ⟨hn, rfl⟩ := List.getElem?_eq_some_iff.mp hf
    exact ⟨fd.toNat, by omega, hn, hi⟩
  · cases h

theorem refs_setFile {fd : Nat} (h : fd < s.flFiles.length) (f : File ι) (j : ι) :
    refs j (s.setFile fd f) + (decide ((s.flFiles[fd]).inode = some j)).toNat =
      refs j s + (decide (f.inode = some j)).toNat :=
  countP_set_add (fun g : File ι => decide (g.inode = some j)) h f

@[simp] theorem bump_self (f : ι → Nat) (i : ι) (n : Nat) : bump f i n i = n := if_pos rfl

theorem bump_of_ne {f : ι → Nat} {i j : ι} {n : Nat} (h : j ≠ i) : bump f i n j = f j := if_neg h

theorem release_addref (f : ι → Nat) (i : ι) :
    bump (bump f i (f i + 1)) i (bump f i (f i + 1) i - 1) = f := by
  funext j
  by_cases h : j = i
  · subst h
    simp
  · rw [bump_of_ne h, bump_of_ne h]

/-- `zeros`: a free descriptor is cleared. -/
structure Inv (drv : ι → Driver) (s : Group ι) : Prop where
  balanced : Balanced drv s
  zeros : ∀ f ∈ s.flFiles, f.inode = none → f = File.zero ι

theorem Start.inv (S : Start s) : Inv drv s where
  balanced j _ := by
    have h0 : refs j s = 0 := by
      apply List.countP_eq_zero.mpr
      intro f hf
      rw [S.flFiles f hf]
      simp [File.zero]
    rw [S.opens, h0]
    rfl
  zeros f hf _ := S.flFiles f hf

omit [DecidableEq ι] in
theorem zeros_set {l : List (File ι)} (hz : ∀ f ∈ l, f.inode = none → f = File.zero ι)
    {fd : Nat} {f : File ι} (hf : f.inode = none → f = File.zero ι) :
    ∀ g ∈ l.set fd f, g.inode = none → g = File.zero ι := by
  intro g hg hn
  rcases List.mem_or_eq_of_mem_set hg with h | rfl
  · exact hz g h hn
  · exact hf hn

omit [DecidableEq ι] in
theorem set_zero_of_free {l : List (File ι)} (hz : ∀ f ∈ l, f.inode = none → f = File.zero ι)
    {fd : Nat} (hfd : fd < l.length) (hn : (l[fd]).inode = none) :
    l.set fd (File.zero ι) = l := by
  rw [← hz _ (List.getElem_mem hfd) hn, List.set_getElem_self]

theorem Inv.drop {fd : Nat} {inode : ι} (I : Inv drv s) (hfd : fd < s.flFiles.length)
    (hi : (s.flFiles[fd]).inode = some inode) {t : Group ι}
    (hl : t.flFiles = s.flFiles.set fd (File.zero ι)) (ho : t.opens = s.opens)
    (hc : ∀ j, ((drv j).hasOpen && (drv j).hasClose) = true →
      t.closes j = s.closes j + (decide (inode = j)).toNat) : Inv drv t where
  balanced j hj := by
    have hb := I.balanced j hj
    have hr := refs_setFile hfd (File.zero ι) j
    have ht : refs j t = refs j (s.setFile fd (File.zero ι)) := by
      simp only [refs, Group.setFile, hl]
    have h0 : ((decide ((File.zero ι).inode = some j)) : Bool).toNat = 0 := rfl
    simp only [hi, h0, Option.some.injEq] at hr
    rw [ho, hc j hj, ht]
    omega
  zeros := by
    rw [hl]
    exact zeros_set I.zeros fun _ => rfl

theorem driverClose_counts {inode : ι} {ret : Int} (j : ι)
    (hj : ((drv j).hasOpen && (drv j).hasClose) = true) :
    (driverClose drv inode ret s).2.closes j = s.closes j + (decide (inode = j)).toNat := by
  unfold driverClose
  by_cases hji : inode = j
  · subst hji
    rw [if_pos ((Bool.and_eq_true _ _).mp hj).2]
    simp
  · have hne : ¬ j = inode := fun h => hji h.symm
    split
    · simp [bump_of_ne hne, hji]
    · simp [hji]

theorem driverClose_frame (drv : ι → Driver) (inode : ι) (ret : Int) (s : Group ι) :
    (driverClose drv inode ret s).2.flFiles = s.flFiles ∧
      (driverClose drv inode ret s).2.opens = s.opens ∧
      (driverClose drv inode ret s).2.crefs = s.crefs := by
  unfold driverClose
  split <;> exact ⟨rfl, rfl, rfl⟩

theorem Inv.closeSlot (I : Inv drv s) (fd : Nat) (ret : Int) :
    Inv drv (closeSlot drv fd ret s).2 := by
  unfold Descriptors.closeSlot
  split
  · rename_i inode hi
    obtain ⟨n, hn, hlt, hin⟩ := inodeOf_some hi
    obtain rfl : fd = n := by omega
    obtain ⟨hl, ho, -⟩ := driverClose_frame drv inode ret s
    apply I.drop hlt hin
    · simp only [Group.setFile, Group.inodeRelease, hl]
    · exact ho
    · intro j hj
      exact driverClose_counts j hj
  · exact I

theorem closeSlot_flFiles (drv : ι → Driver) (fd : Nat) (ret : Int) (s : Group ι) :
    (closeSlot drv fd ret s).2.flFiles = s.flFiles ∨
      (closeSlot drv fd ret s).2.flFiles = s.flFiles.set fd (File.zero ι) := by
  unfold closeSlot
  split
  · right
    unfold driverClose
    split <;> rfl
  · exact .inl rfl

theorem closeSlot_length (drv : ι → Driver) (fd : Nat) (ret : Int) (s : Group ι) :
    (closeSlot drv fd ret s).2.flFiles.length = s.flFiles.length := by
  rcases closeSlot_flFiles drv fd ret s with h | h
  · rw [h]
  · rw [h, List.length_set]

theorem closeSlot_other (drv : ι → Driver) {fd x : Nat} (hx : x ≠ fd) (ret : Int) (s : Group ι) :
    (closeSlot drv fd ret s).2.flFiles[x]? = s.flFiles[x]? := by
  rcases closeSlot_flFiles drv fd ret s with h | h
  · rw [h]
  · rw [h, List.getElem?_set_ne (Ne.symm hx)]

omit [DecidableEq ι] in
theorem filesAllocate_cases (inode : ι) (oflags pos : Nat) {minfd : Int} (h0 : 0 ≤ minfd)
    (s : Group ι) :
    (filesAllocate inode oflags pos minfd s = some (-1, s) ∧
      ∀ fd < s.flFiles.length, minfd ≤ fd → s.inodeOf fd ≠ none) ∨
    ∃ fd, ∃ hfd : fd < s.flFiles.length, minfd ≤ fd ∧ (s.flFiles[fd]).inode = none ∧
      filesAllocate inode oflags pos minfd s =
        some ((fd : Int), s.setFile fd ⟨oflags, pos, some inode⟩) := by
  unfold filesAllocate
  rw [if_neg (by omega)]
  split
  · rename_i fd hfd
    right
    have hm := List.mem_range'_1.mp (List.mem_of_find?_eq_some hfd)
    have hd := List.find?_some hfd
    have hn : s.inodeOf (fd : Int) = none := of_decide_eq_true hd
    have hlt : fd < s.flFiles.length := by omega
    refine ⟨fd, hlt, by omega, ?_, rfl⟩
    rw [inodeOf_nat, List.getElem?_eq_getElem hlt] at hn
    exact hn
  · rename_i hnone
    left
    refine ⟨rfl, ?_⟩
    intro fd hlt hle
    have hm : fd ∈ List.range' minfd.toNat (s.flFiles.length - minfd.toNat) :=
      List.mem_range'_1.mpr (by omega)
    simpa using List.find?_eq_none.mp hnone fd hm

theorem Inv.take {fd : Nat} {f : File ι} {inode : ι} (I : Inv drv s)
    (hfd : fd < s.flFiles.length) (hn : (s.flFiles[fd]).inode = none)
    (hf : f.inode = some inode) {t : Group ι} (hl : t.flFiles = s.flFiles.set fd f)
    (hc : t.closes = s.closes)
    (ho : ∀ j, ((drv j).hasOpen && (drv j).hasClose) = true →
      t.opens j = s.opens j + (decide (inode = j)).toNat) : Inv drv t where
  balanced j hj := by
    have hb := I.balanced j hj
    have hr := refs_setFile hfd f j
    have ht : refs j t = refs j (s.setFile fd f) := by
      simp only [refs, Group.setFile, hl]
    simp only [hn, hf, reduceCtorEq, decide_false, Bool.toNat_false, Option.some.injEq] at hr
    rw [ho j hj, hc, ht]
    omega
  zeros := by
    rw [hl]
    exact zeros_set I.zeros fun h => by rw [hf] at h; cases h

theorem Inv.congr (I : Inv drv s) {t : Group ι} (hl : t.flFiles = s.flFiles)
    (ho : t.opens = s.opens) (hc : t.closes = s.closes) : Inv drv t where
  balanced j hj := by
    have hb := I.balanced j hj
    simp only [refs, hl, ho, hc]
    exact hb
  zeros := by
    rw [hl]
    exact I.zeros

theorem addref_release (i : ι) (s : Group ι) : (s.inodeAddref i).inodeRelease i = s := by
  simp only [Group.inodeAddref, Group.inodeRelease, release_addref]

theorem driverOpen_cases (drv : ι → Driver) (inode : ι) (ret : Int) (s : Group ι) :
    (¬ Op.accepts (drv inode).hasOpen ret ∧ (driverOpen drv inode ret s).1 < 0 ∧
      (driverOpen drv inode ret s).2 = s) ∨
    (Op.accepts (drv inode).hasOpen ret ∧ 0 ≤ (driverOpen drv inode ret s).1 ∧
      (driverOpen drv inode ret s).2.flFiles = s.flFiles ∧
      (driverOpen drv inode ret s).2.closes = s.closes ∧
      ∀ j, ((drv j).hasOpen && (drv j).hasClose) = true →
        (driverOpen drv inode ret s).2.opens j = s.opens j + (decide (inode = j)).toNat) := by
  unfold driverOpen Op.accepts
  by_cases ho : (drv inode).hasOpen = true
  · by_cases hr : ret < 0
    · left
      rw [if_pos ho, if_pos hr]
      exact ⟨fun h => absurd (h ho) (by omega), hr, rfl⟩
    · right
      rw [if_pos ho, if_neg hr]
      refine ⟨fun _ => by omega, by simpa using hr, rfl, rfl, ?_⟩
      intro j _
      by_cases hji : inode = j
      · subst hji
        simp
      · have hne : ¬ j = inode := fun h => hji h.symm
        simp [bump_of_ne hne, hji]
  · right
    rw [if_neg ho]
    refine ⟨fun h => absurd h ho, Int.le_refl 0, rfl, rfl, ?_⟩
    intro j hj
    have hji : ¬ inode = j := by
      rintro rfl
      exact ho ((Bool.and_eq_true _ _).mp hj).1
    simp [hji]

def Step (drv : ι → Driver) (i : Op ι) (s : Group ι) : Prop :=
  ∃ r s', i.exec drv s = some (r, s') ∧ Inv drv s' ∧ i.Honours s r s'

omit [DecidableEq ι] in
theorem Op.Honours.refused {i : Op ι} : i.Honours s (-1) s where
  failed _ := ⟨rfl, rfl⟩
  dup2 _ _ _ _ _ h := absurd h (by decide)
  fresh _ h := absurd h (by decide)
  apart _ _ := rfl

omit [DecidableEq ι] in
theorem Op.Honours.given {i : Op ι} {fd : Nat} {f : File ι} {inode : ι}
    (hfd : fd < s.flFiles.length) (hn : (s.flFiles[fd]).inode = none)
    (hf : f.inode = some inode) (hl : s'.flFiles = s.flFiles.set fd f)
    (hi : ∀ a b c o, i ≠ .dup2 a b c o) (hleaves : ∀ x : Nat, i.leaves fd x → x ≠ fd) :
    i.Honours s fd s' where
  failed h := by omega
  dup2 a b c o h := absurd h (hi a b c o)
  fresh _ _ := by
    rw [inodeOf_nat, inodeOf_nat, hl, List.getElem?_eq_getElem hfd,
      List.getElem?_set_self hfd]
    exact ⟨hn, by simp [hf]⟩
  apart x hx := by
    rw [hl, List.getElem?_set_ne (Ne.symm (hleaves x hx))]

theorem Inv.open (I : Inv drv s) (found : Option ι) (oflags : Nat) (openRet : Int) :
    Step drv (.open found oflags openRet) s := by
  simp only [Step, Op.exec]
  cases found with
  | none => exact ⟨-1, s, rfl, I, .refused⟩
  | some inode =>
    simp only [openCall, addref_release]
    split
    · exact ⟨-1, s, rfl, I, .refused⟩
    split
    · exact ⟨-1, s, rfl, I, .refused⟩
    rcases filesAllocate_cases inode oflags 0
        (Int.le_refl 0) (s.inodeAddref inode) with ⟨hfull, -⟩ | ⟨fd, hfd, -, hn, hgot⟩
    · rw [hfull]
      refine ⟨-1, s, ?_, I, .refused⟩
      simp [addref_release]
    · rw [hgot]
      have hnn : ¬ (fd : Int) < 0 := by omega
      simp only [Option.bind_some, if_neg hnn]
      rcases driverOpen_cases drv inode openRet
          ((s.inodeAddref inode).setFile fd ⟨oflags, 0, some inode⟩) with
        ⟨-, hneg, heq⟩ | ⟨-, hok, hl, hc, ho⟩
      · rw [if_pos hneg, heq]
        refine ⟨-1, s, ?_, I, .refused⟩
        have hz : s.flFiles.set fd (File.zero ι) = s.flFiles := set_zero_of_free I.zeros hfd hn
        simp only [filesRelease, if_pos (Int.natCast_nonneg fd), Int.toNat_natCast,
          Group.setFile, Group.inodeAddref, Group.inodeRelease, List.set_set, hz, release_addref]
      · rw [if_neg (by omega)]
        refine ⟨fd, _, rfl, ?_, ?_⟩
        · exact I.take hfd hn rfl hl hc ho
        · exact .given hfd hn rfl hl (fun _ _ _ _ h => by cases h)
            fun x (hx : (x : Int) ≠ fd) h => hx (by rw [h])

theorem Inv.fileDup (I : Inv drv s) {fildes minfd : Int}
    (hk : (Op.fileDup fildes minfd).keeps drv s) : Step drv (.fileDup fildes minfd) s := by
  simp only [Step, Op.exec, Descriptors.fileDup]
  split
  · exact ⟨-1, s, rfl, I, .refused⟩
  · rename_i inode hi
    obtain ⟨h0, hcount⟩ := hk inode hi
    rcases filesAllocate_cases inode
        ((s.flFiles[fildes.toNat]?).getD (File.zero ι)).oflags
        ((s.flFiles[fildes.toNat]?).getD (File.zero ι)).pos h0
        (s.inodeAddref inode) with ⟨hfull, -⟩ | ⟨fd, hfd, hle, hn, hgot⟩
    · rw [hfull]
      refine ⟨-1, s, ?_, I, .refused⟩
      simp [addref_release]
    · rw [hgot]
      have hnn : ¬ (fd : Int) < 0 := by omega
      simp only [Option.bind_some, if_neg hnn]
      refine ⟨fd, _, rfl, ?_, ?_⟩
      · refine I.take (f := ⟨_, _, some inode⟩) hfd hn rfl rfl rfl ?_
        intro j hj
        have hji : ¬ inode = j := by
          rintro rfl
          have hlt : fd < s.flFiles.length := hfd
          apply hcount hj fd hlt hle
          rw [inodeOf_nat, List.getElem?_eq_getElem hlt]
          exact hn
        simp [Group.setFile, Group.inodeAddref, hji]
      · exact .given hfd hn rfl rfl (fun _ _ _ _ h => by cases h)
          fun x (hx : (x : Int) ≠ fd) h => hx (by rw [h])

omit [DecidableEq ι] in
theorem inodeOf_none {fd : Nat} (hfd : fd < s.flFiles.length) (h : s.inodeOf fd = none) :
    (s.flFiles[fd]).inode = none := by
  rw [inodeOf_nat, List.getElem?_eq_getElem hfd] at h
  exact h

theorem closeSlot_accepts {fd : Nat} {ret : Int}
    (h : ∀ inode ∈ s.inodeOf fd, Op.accepts (drv inode).hasClose ret) :
    0 ≤ (closeSlot drv fd ret s).1 := by
  unfold closeSlot
  split
  · rename_i inode hi
    unfold driverClose
    split
    · rename_i hc
      exact h inode hi hc
    · exact Int.le_refl 0
  · exact Int.le_refl 0

variable (drv) in
theorem closeSlot_free {fd : Nat} (ret : Int) (hfd : fd < s.flFiles.length) :
    ∃ h : fd < (closeSlot drv fd ret s).2.flFiles.length,
      ((closeSlot drv fd ret s).2.flFiles[fd]).inode = none := by
  have hlen := closeSlot_length drv fd ret s
  refine ⟨by omega, ?_⟩
  apply inodeOf_none
  rw [inodeOf_nat]
  unfold closeSlot
  split
  · unfold driverClose
    split <;> simp [Group.setFile, Group.inodeRelease, List.getElem?_set_self hfd, File.zero]
  · rename_i hn
    rw [inodeOf_nat] at hn
    exact hn

theorem Inv.dup2 (I : Inv drv s) {a b closeRet openRet : Int}
    (hk : (Op.dup2 a b closeRet openRet).keeps drv s) :
    Step drv (.dup2 a b closeRet openRet) s := by
  simp only [Step, Op.exec, Descriptors.dup2]
  cases ha : s.inodeOf a with
  | none => exact ⟨-1, s, by simp, I, .refused⟩
  | some inode =>
    obtain ⟨fd1, rfl, hfd1, hin1⟩ := inodeOf_some ha
    simp only [reduceCtorEq, if_false]
    split
    · rename_i hab
      subst hab
      refine ⟨_, s, rfl, I, ?_⟩
      constructor
      · intro h
        omega
      · rintro a b c o ⟨⟩ _
        rfl
      · intro h
        cases h
      · intro _ _
        rfl
    · rename_i hab
      split
      · exact ⟨-1, s, rfl, I, .refused⟩
      · rename_i hrange
        obtain ⟨fd2, rfl⟩ := Int.eq_ofNat_of_zero_le (show 0 ≤ b by omega)
        have hfd2 : fd2 < s.flFiles.length := by omega
        simp only [Int.toNat_natCast, filesDup, ha]
        rcases hk inode ha hab (by omega) (by omega) with ⟨hfree, hfail⟩ | ⟨hb0, hclose, hopen⟩
        · -- the driver refuses the free descriptor, which is cleared again
          have hc : Descriptors.closeSlot drv fd2 closeRet s = (0, s) := by
            unfold Descriptors.closeSlot
            rw [hfree]
          have hn := inodeOf_none hfd2 hfree
          simp only [hc, Int.lt_irrefl, if_false]
          rcases driverOpen_cases drv inode openRet ((s.inodeAddref inode).setFile fd2
              ⟨((s.flFiles[fd1]?).getD (File.zero ι)).oflags,
                ((s.flFiles[fd1]?).getD (File.zero ι)).pos, some inode⟩) with
            ⟨-, hneg, heq⟩ | ⟨hok, -⟩
          · rw [if_pos hneg, heq]
            refine ⟨-1, s, ?_, I, .refused⟩
            have hz : s.flFiles.set fd2 (File.zero ι) = s.flFiles :=
              set_zero_of_free I.zeros hfd2 hn
            simp only [Group.setFile, Group.inodeAddref, Group.inodeRelease, List.set_set, hz,
              release_addref]
          · exact absurd hok hfail
        · have hnc := closeSlot_accepts hclose
          obtain ⟨hlt, hnone⟩ := closeSlot_free drv closeRet hfd2
          rw [if_neg (by omega)]
          rcases driverOpen_cases drv inode openRet
              ((((Descriptors.closeSlot drv fd2 closeRet s).2).inodeAddref inode).setFile fd2
              ⟨(((Descriptors.closeSlot drv fd2 closeRet s).2.flFiles[fd1]?).getD (File.zero ι)).oflags,
                (((Descriptors.closeSlot drv fd2 closeRet s).2.flFiles[fd1]?).getD (File.zero ι)).pos,
                some inode⟩) with ⟨hno, -⟩ | ⟨-, hok, hl, hc, ho⟩
          · exact absurd hopen hno
          · rw [if_neg (by omega)]
            refine ⟨0, _, rfl, ?_, ?_⟩
            · exact (I.closeSlot fd2 closeRet).take (f := ⟨_, _, some inode⟩) hlt hnone rfl hl hc ho
            · constructor
              · intro h
                cases h
              · rintro a b c o ⟨⟩ _
                exact hb0.symm
              · intro h
                cases h
              · intro x (hx : (x : Int) ≠ fd2)
                have hne : x ≠ fd2 := fun h => hx (by rw [h])
                rw [hl]
                simp only [Group.setFile, Group.inodeAddref]
                rw [List.getElem?_set_ne (Ne.symm hne), closeSlot_other drv hne]

theorem Inv.close (I : Inv drv s) {fd closeRet : Int}
    (hk : (Op.close fd closeRet).keeps drv s) : Step drv (.close fd closeRet) s := by
  simp only [Step, Op.exec, Descriptors.close]
  split
  · exact ⟨-1, s, rfl, I, .refused⟩
  · rename_i hsome
    obtain ⟨inode, hi⟩ := Option.ne_none_iff_exists'.mp hsome
    obtain ⟨n, rfl, -, -⟩ := inodeOf_some hi
    have hok : 0 ≤ (Descriptors.closeSlot drv n closeRet s).1 := closeSlot_accepts hk
    simp only [Int.toNat_natCast]
    rw [if_neg (by omega)]
    refine ⟨0, _, rfl, I.closeSlot n closeRet, ?_⟩
    constructor
    · intro h
      cases h
    · intro a b c o h
      cases h
    · intro h
      cases h
    · intro x (hx : (x : Int) ≠ n)
      exact closeSlot_other drv (fun h => hx (by rw [h])) closeRet s

theorem Inv.closeAll (I : Inv drv s) (closeRet : Nat → Int) (fd n : Nat) :
    Inv drv (closeAll drv closeRet fd n s) := by
  induction n generalizing fd s with
  | zero => exact I
  | succ n ih => exact ih (I.closeSlot fd (closeRet fd)) (fd + 1)

theorem Inv.releaselist (I : Inv drv s) (closeRet : Nat → Int) :
    Step drv (.releaselist closeRet) s := by
  refine ⟨0, _, rfl, ?_, ?_⟩
  · unfold filesReleaselist
    have I' : Inv drv { s with flCrefs := s.flCrefs - 1 } := I.congr rfl rfl rfl
    simp only
    split
    · exact (I'.closeAll closeRet 0 _).congr rfl rfl rfl
    · exact I'
  · constructor
    · intro h
      cases h
    · intro a b c o h
      cases h
    · intro h
      cases h
    · intro _ h
      cases h

theorem Inv.step {i : Op ι} (I : Inv drv s) (hk : i.keeps drv s) : Step drv i s := by
  cases i with
  | «open» found oflags openRet => exact I.open found oflags openRet
  | fileDup fildes minfd => exact I.fileDup hk
  | dup2 a b closeRet openRet => exact I.dup2 hk
  | close fd closeRet => exact I.close hk
  | addreflist =>
    refine ⟨0, _, rfl, I.congr rfl rfl rfl, ?_⟩
    constructor
    · intro h
      cases h
    · intro a b c o h
      cases h
    · intro h
      cases h
    · intro _ _
      rfl
  | releaselist closeRet => exact I.releaselist closeRet

/-- In every run in which the operations meet their condition the drivers' counts agree with
the descriptors, and every call that is made then does what it owes. -/
theorem drivers_balanced {s : Group ι}
    (h : Reach (groupMachine drv) Start (fun s i => i.keeps drv s) s) :
    Balanced drv s ∧ ∀ i : Op ι, i.keeps drv s →
      ∃ r s', i.exec drv s = some (r, s') ∧ i.Honours s r s' := by
  have I : Inv drv s := by
    apply h.invariant (fun _ S => S.inv)
    rintro s i s' I _ hk he
    obtain ⟨r, t, ht, J, -⟩ := I.step hk
    simp only [groupMachine, ht, Option.map_some, Option.some.injEq] at he
    exact he ▸ J
  refine ⟨I.balanced, ?_⟩
  intro i hk
  obtain ⟨r, t, ht, -, H⟩ := I.step hk
  exact ⟨r, t, ht, H⟩

def sampleDrivers (i : Nat) : Driver := ⟨true, true, true, i < 2, i < 2⟩

def startGroup : Group Nat :=
  ⟨[File.zero Nat, File.zero Nat], 1, true, fun _ => 1, fun _ => 0, fun _ => 0⟩

theorem startGroup_start : Start startGroup where
  flFiles f hf := by
    simp only [startGroup, List.mem_cons, List.not_mem_nil, or_false, or_self] at hf
    exact hf
  flCrefs := rfl
  alive := rfl
  opens := rfl

def sampleOps : List (Op Nat) :=
  [.open (some 0) 1 (-16), .open (some 0) 1 0, .open (some 1) 3 0, .open (some 0) 1 0,
    .fileDup 0 0, .dup2 1 0 0 0, .close 1 0, .dup2 0 1 0 (-16), .addreflist,
    .releaselist fun _ => 0]

theorem drivers_balanced_run : ∃ s, runAll (groupMachine sampleDrivers)
    (fun s i => i.keeps sampleDrivers s) startGroup sampleOps = some s ∧ s.opens 1 = 2 ∧
    (Balanced sampleDrivers s ∧ ∀ i : Op Nat, i.keeps sampleDrivers s →
      ∃ r s', i.exec sampleDrivers s = some (r, s') ∧ i.Honours s r s') :=
  have h : ∃ s, runAll (groupMachine sampleDrivers) (fun s i => i.keeps sampleDrivers s)
      startGroup sampleOps = some s ∧ s.opens 1 = 2 := by decide +kernel
  h.elim fun s hs => ⟨s, hs.1, hs.2,
    drivers_balanced (.runAll (.init startGroup_start) hs.1)⟩

/-- `file_dup` makes a second descriptor without a call of the driver's `open`. -/
theorem fileDup_unbalanced : ¬ ∀ s : Group Nat,
    Reachable (groupMachine sampleDrivers) Start s → Balanced sampleDrivers s ∧
      ∀ i : Op Nat, ∃ r s', i.exec sampleDrivers s = some (r, s') ∧ i.Honours s r s' := by
  intro hall
  have hr : ∃ s, runAll (groupMachine sampleDrivers) (fun _ _ => True) startGroup
      [.open (some 0) 1 0, .fileDup 0 0] = some s ∧
      s.opens 0 = 1 ∧ s.closes 0 = 0 ∧ refs 0 s = 2 := by
    decide +kernel
  obtain ⟨s, hs, ho, hc, hn⟩ := hr
  have hb := (hall s (.runAll (.init startGroup_start) hs)).1 0 rfl
  omega

end NuttxAvr32.Fs.Descriptors
