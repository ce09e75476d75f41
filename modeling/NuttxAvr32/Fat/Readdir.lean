import NuttxAvr32.Fat.Directory
import NuttxAvr32.Fat.Names

/-! # Enumerating a directory

`fat_opendir`, `fat_readdir` and `fat_rewinddir` on a mount that is healthy and a device that
makes no errors. Where a directory ends without an entry that marks its end,
`fat_nextdirentry` fails after the last entry was found.
-/

namespace NuttxAvr32.Fat.Readdir

structure Dirent where
  dName : List Nat
  directory : Bool

def direntOf (lcnames : Bool) (p : Sector) : Dirent where
  dName := Names.fatDirname2path lcnames ⟨fun k => (p k).toNat, (p 12).toNat⟩
  directory := (p 11).toNat &&& 0x10 ≠ 0

def isLive (p : Sector) : Bool := p 0 ≠ 0xe5 ∧ (p 11).toNat &&& 0x08 = 0

/-- What a call leaves: `none` for `-ENOENT`, and the sectors that were read. -/
structure Call where
  st : State
  dir : Fatdir
  dirent : Option Dirent
  reads : List Nat

def readdirLoop (lcnames : Bool) : Nat → Dirent → List Nat → Fatdir → State → Option Call
  | 0, _, _, _, _ => none
  | fuel + 1, d, reads, dir, s =>
    if dir.fdCurrsector ≠ 0 ∧ d.dName.headD 0 = 0 then
      let reads := reads ++ [dir.fdCurrsector]
      let r := cacheread .ok dir.fdCurrsector s
      if r.2 = false then some ⟨r.1, dir, none, reads⟩
      else
        let dirindex := dirsecBytendx r.1.fs dir.fdIndex
        let direntry : Sector := fun x => r.1.fs.fsBuffer (dirindex + x)
        if direntry 0 = 0 then some ⟨r.1, dir, none, reads⟩
        else
          let d := if isLive direntry then direntOf lcnames direntry else d
          let n := fatNextdirentry dir r.1
          if n.2.2 then readdirLoop lcnames fuel d reads n.2.1 n.1
          else some ⟨n.1, n.2.1, none, reads⟩
    else some ⟨s, dir, some d, reads⟩

def fatReaddir (lcnames : Bool) (fuel : Nat) (dir : Fatdir) (s : State) : Option Call :=
  readdirLoop lcnames fuel ⟨[], false⟩ [] dir s

/-- The end of `fat_opendir`: `fat_finddirentry` has found the root or a directory with this
first cluster. -/
def fatOpendir (found : Option Nat) (fs : Mountpt) : Fatdir :=
  match found with
  | none =>
    if fs.fsType = .fat32 then
      ⟨fs.fsRootbase, fs.fsRootbase, wrapInt (fatCluster2sector fs fs.fsRootbase), 0⟩
    else ⟨0, 0, fs.fsRootbase, 0⟩
  | some cluster => ⟨cluster, cluster, wrapInt (fatCluster2sector fs cluster), 2⟩

def fatRewinddir (fs : Mountpt) (dir : Fatdir) : Fatdir :=
  if fs.fsType ≠ .fat32 ∧ dir.fdStartcluster = 0 then
    { dir with
      fdCurrcluster := 0
      fdCurrsector := fs.fsRootbase
      fdIndex := 0 }
  else if fs.fsType = .fat32 ∧ dir.fdStartcluster = fs.fsRootbase then
    { dir with
      fdCurrcluster := dir.fdStartcluster
      fdCurrsector := wrapInt (fatCluster2sector fs fs.fsRootbase)
      fdIndex := 0 }
  else
    { dir with
      fdCurrcluster := dir.fdStartcluster
      fdCurrsector := wrapInt (fatCluster2sector fs dir.fdStartcluster)
      fdIndex := 2 }

structure Calls where
  st : State
  dir : Fatdir
  dirents : List (Option Dirent)
  reads : List Nat

def Calls.add (r : Calls) (c : Call) : Calls :=
  ⟨c.st, c.dir, r.dirents ++ [c.dirent], r.reads ++ c.reads⟩

def readdirs (lcnames : Bool) (fuel : Nat) : Nat → Fatdir → State → Option Calls
  | 0, dir, s => some ⟨s, dir, [], []⟩
  | n + 1, dir, s =>
    match readdirs lcnames fuel n dir s with
    | none => none
    | some r => (fatReaddir lcnames fuel r.dir r.st).map r.add

/-- The live ones of the next `n` entries from `i` on, up to an entry that marks the end. -/
def listing (lcnames : Bool) (slot : Nat → Sector) : Nat → Nat → List Dirent
  | 0, _ => []
  | n + 1, i =>
    if slot i 0 = 0 then []
    else if isLive (slot i) then direntOf lcnames (slot i) :: listing lcnames slot n (i + 1)
    else listing lcnames slot n (i + 1)

/-- The first two entries of a directory that is not the root are left out. -/
def first (found : Option Nat) : Nat := if found.isSome then 2 else 0

def live (lcnames : Bool) (s : State) (found : Option Nat) (cs : List Nat) : List Dirent :=
  listing lcnames (slotAt s cs) (total s.fs cs - first found) (first found)

def Inside (s : State) (cs : List Nat) (x : Nat) : Prop :=
  ∃ i < total s.fs cs, x = sectorAt s.fs cs (i / dirsecNdirs s.fs)

/-- The calls return the entries of `l` in order and then nothing more, and read the directory
only. -/
structure Lists (s : State) (cs : List Nat) (l : List Dirent) (n : Nat) (r : Calls) : Prop where
  dirents : r.dirents = (List.range n).map fun k => l[k]?
  reads : ∀ x ∈ r.reads, Inside s cs x

/-- However often it is called, and also after a rewind. -/
def Right (lcnames : Bool) (fuel : Nat) (s : State) (found : Option Nat) (cs : List Nat) : Prop :=
  ∀ n, ∃ r, readdirs lcnames fuel n (fatOpendir found s.fs) s = some r ∧
    Lists s cs (live lcnames s found cs) n r ∧
    ∀ m, ∃ r', readdirs lcnames fuel m (fatRewinddir r.st.fs r.dir) r.st = some r' ∧
      Lists s cs (live lcnames s found cs) m r'

def Named (s : State) (cs : List Nat) : Prop :=
  ∀ i < total s.fs cs, isLive (slotAt s cs i) = true → slotAt s cs i 0 ≠ 0x20

structure Opened (s : State) (found : Option Nat) (start : Nat) (cs : List Nat) : Prop where
  table : Table s start cs
  start : start =
    match found with
    | none => if s.fs.fsType = .fat32 then s.fs.fsRootbase else 0
    | some cluster => cluster
  sub : ∀ cluster, found = some cluster →
    cluster ≠ 0 ∧ (s.fs.fsType = .fat32 → cluster ≠ s.fs.fsRootbase)
  names : Named s cs

def Ended (s : State) (cs : List Nat) (i : Nat) : Prop :=
  ∃ t, i ≤ t ∧ t < total s.fs cs ∧ slotAt s cs t 0 = 0

section

variable {lcnames : Bool} {s s' : State} {start i fuel : Nat} {cs : List Nat} {found : Option Nat}
  {d : Dirent} {reads : List Nat} {dir : Fatdir}

theorem direntOf_head {p : Sector} (h0 : p 0 ≠ 0) (hs : p 0 ≠ 0x20) :
    (direntOf lcnames p).dName.headD 0 ≠ 0 := by
  have h0' : (p 0).toNat ≠ 0 := fun h => h0 (UInt8.toNat_inj.mp h)
  have hs' : (p 0).toNat ≠ Names.space := fun h => hs (UInt8.toNat_inj.mp h)
  have hlower : ∀ c, c ≠ 0 → Names.tolower c ≠ 0 := by
    intro c hc
    unfold Names.tolower
    split <;> omega
  have hpart : ∀ (b : Bool) (l : List Nat),
      (Names.part b (Names.unescape ((p 0).toNat :: l))).headD 0 ≠ 0 := by
    intro b l
    have hne : (if (p 0).toNat = 0x05 then 0xe5 else (p 0).toNat) ≠ 0 := by
      split
      · decide
      · exact h0'
    have hns : (if (p 0).toNat = 0x05 then 0xe5 else (p 0).toNat) ≠ Names.space := by
      split
      · decide
      · exact hs'
    unfold Names.part Names.unescape
    rw [List.takeWhile_cons_of_pos (by simpa using hns)]
    cases b with
    | false => exact hne
    | true => exact hlower _ hne
  have hwindow : Overlay.window (fun k => (p k).toNat) 0 8 =
      (p 0).toNat :: Overlay.window (fun k => (p k).toNat) 1 7 := by
    rfl
  unfold direntOf Names.fatDirname2path
  dsimp only
  rw [hwindow]
  have h := hpart (lcnames && decide ((p 12).toNat &&& Names.lcname ≠ 0))
    (Overlay.window (fun k => (p k).toNat) 1 7)
  generalize Names.part _ (Names.unescape _) = base at h
  cases base with
  | nil => exact absurd rfl h
  | cons c base =>
    split
    · exact h
    · exact h

theorem loop_named (hname : d.dName.headD 0 ≠ 0) :
    readdirLoop lcnames (fuel + 1) d reads dir s = some ⟨s, dir, some d, reads⟩ := by
  rw [readdirLoop, if_neg fun h => hname h.2]

def direntry (s : State) (dir : Fatdir) : Sector :=
  fun x => view s dir.fdCurrsector (dirsecBytendx s.fs dir.fdIndex + x)

theorem loop_turn (lcnames : Bool) (fuel : Nat) (reads : List Nat) {s₀ : State}
    (h : Reloaded s₀ s) (hname : d.dName.headD 0 = 0)
    (hsector : dir.fdCurrsector ≠ 0) (hlt : dir.fdCurrsector < 2 ^ 32) :
    ∃ s', Reloaded s₀ s' ∧ readdirLoop lcnames (fuel + 1) d reads dir s =
      if direntry s₀ dir 0 = 0 then some ⟨s', dir, none, reads ++ [dir.fdCurrsector]⟩
      else if (fatNextdirentry dir s').2.2 then
        readdirLoop lcnames fuel
          (if isLive (direntry s₀ dir) then direntOf lcnames (direntry s₀ dir) else d)
          (reads ++ [dir.fdCurrsector]) (fatNextdirentry dir s').2.1 (fatNextdirentry dir s').1
      else
        some ⟨(fatNextdirentry dir s').1, (fatNextdirentry dir s').2.1, none,
          reads ++ [dir.fdCurrsector]⟩ := by
  have hload := Reloaded.load h.sound hlt
  have hentry : (fun x => (load dir.fdCurrsector s).fs.fsBuffer
      (dirsecBytendx (load dir.fdCurrsector s).fs dir.fdIndex + x)) = direntry s₀ dir := by
    obtain ⟨p, c, b, hfs⟩ := (h.trans hload).fs
    funext x
    rw [load_view, h.view, hfs]
    rfl
  refine ⟨load dir.fdCurrsector s, h.trans hload, ?_⟩
  rw [readdirLoop, if_pos ⟨hsector, hname⟩, cacheread_ok h.sound]
  have hzero := congrFun hentry 0
  dsimp only at hzero ⊢
  rw [if_neg (by decide)]
  simp only [hentry, hzero]

theorem direntry_position (T : Table s start cs) (i : Nat) :
    direntry s (position s.fs start cs i) = slotAt s cs i := by
  funext x
  unfold direntry slotAt position
  dsimp only
  rw [bytendx_wrap T]

end

section

variable {lcnames : Bool} {s₀ s : State} {start i fuel : Nat} {cs : List Nat} {d : Dirent}
  {reads : List Nat}

/-- The call goes from entry `i` to entry `j` and returns the first of the list from `i` on. -/
structure Advances (lcnames : Bool) (s₀ : State) (start : Nat) (cs : List Nat) (i j : Nat)
    (reads : List Nat) (c : Call) : Prop where
  same : Reloaded s₀ c.st
  dir : c.dir = position s₀.fs start cs j
  range : i ≤ j ∧ j < total s₀.fs cs
  ended : Ended s₀ cs j
  dirent : c.dirent = (listing lcnames (slotAt s₀ cs) (total s₀.fs cs - i) i)[0]?
  rest : listing lcnames (slotAt s₀ cs) (total s₀.fs cs - j) j =
    (listing lcnames (slotAt s₀ cs) (total s₀.fs cs - i) i).tail
  reads : ∀ x ∈ c.reads, x ∈ reads ∨ Inside s₀ cs x

theorem listing_succ (lcnames : Bool) (slot : Nat → Sector) {n : Nat} (hi : i < n) :
    listing lcnames slot (n - i) i =
      if slot i 0 = 0 then []
      else if isLive (slot i) then
        direntOf lcnames (slot i) :: listing lcnames slot (n - (i + 1)) (i + 1)
      else listing lcnames slot (n - (i + 1)) (i + 1) := by
  rw [show n - i = n - (i + 1) + 1 by omega]
  rfl

theorem reads_snoc {x : Nat} {c : List Nat} (hx : Inside s₀ cs x)
    (h : ∀ y ∈ c, y ∈ reads ++ [x] ∨ Inside s₀ cs y) : ∀ y ∈ c, y ∈ reads ∨ Inside s₀ cs y := by
  intro y hy
  rcases h y hy with hmem | hin
  · rcases List.mem_append.mp hmem with hr | hlast
    · exact .inl hr
    · rw [List.mem_singleton.mp hlast]
      exact .inr hx
  · exact .inr hin

theorem loop_advances (lcnames : Bool) (reads : List Nat) (T : Table s₀ start cs)
    (hnames : Named s₀ cs) (h : Reloaded s₀ s) (hi : i < total s₀.fs cs) (hend : Ended s₀ cs i)
    (hname : d.dName.headD 0 = 0) (hfuel : total s₀.fs cs + 1 < i + fuel) :
    ∃ c j, readdirLoop lcnames fuel d reads (position s₀.fs start cs i) s = some c ∧
      Advances lcnames s₀ start cs i j reads c := by
  induction fuel generalizing s i reads with
  | zero => omega
  | succ fuel ih =>
    have hbounds := sector_bounds T hi
    have hlt := sectorsEnd_lt T
    have hin : Inside s₀ cs (sectorAt s₀.fs cs (i / dirsecNdirs s₀.fs)) := ⟨i, hi, rfl⟩
    obtain ⟨s', hs', hturn⟩ := loop_turn lcnames fuel reads h hname
      (show (position s₀.fs start cs i).fdCurrsector ≠ 0 from Nat.ne_of_gt hbounds.1)
      (Nat.lt_trans hbounds.2 hlt)
    have hlist := listing_succ lcnames (slotAt s₀ cs) hi
    rw [direntry_position T] at hturn
    rw [hturn]
    by_cases hzero : slotAt s₀ cs i 0 = 0
    · rw [if_pos hzero] at hlist
      rw [if_pos hzero]
      refine ⟨_, i, rfl, hs', rfl, ⟨Nat.le_refl i, hi⟩, hend, ?_, ?_,
        reads_snoc hin fun y hy => .inl hy⟩
      · rw [hlist]
        rfl
      · rw [hlist]
        rfl
    · rw [if_neg hzero] at hlist
      rw [if_neg hzero]
      -- the mark lies behind this entry
      obtain ⟨t, hit, ht, htzero⟩ := hend
      have hne : t ≠ i := fun hti => hzero (hti ▸ htzero)
      have hnext : i + 1 < total s₀.fs cs := by omega
      have hend' : Ended s₀ cs (i + 1) := ⟨t, by omega, ht, htzero⟩
      obtain ⟨s'', hs'', hwithin⟩ := next_within (T.of_reloaded hs') (hs'.total.symm ▸ hnext)
      rw [hs'.position, hs'.position] at hwithin
      rw [hwithin, if_pos rfl]
      by_cases hlive : isLive (slotAt s₀ cs i) = true
      · rw [if_pos hlive] at hlist
        obtain ⟨k, rfl⟩ : ∃ k, fuel = k + 1 := ⟨fuel - 1, by omega⟩
        rw [if_pos hlive, loop_named (direntOf_head hzero (hnames i hi hlive))]
        refine ⟨_, i + 1, rfl, hs'.trans hs'', rfl, ⟨by omega, hnext⟩, hend', ?_, ?_,
          reads_snoc hin fun y hy => .inl hy⟩
        · rw [hlist]
          rfl
        · rw [hlist]
          rfl
      · rw [if_neg hlive] at hlist ⊢
        obtain ⟨c, j, hc, A⟩ := @ih s'' (i + 1)
          (reads ++ [sectorAt s₀.fs cs (i / dirsecNdirs s₀.fs)]) (hs'.trans hs'') hnext hend'
          (by omega)
        refine ⟨c, j, hc, A.same, A.dir, ⟨Nat.le_of_succ_le A.range.1, A.range.2⟩, A.ended,
          ?_, ?_, reads_snoc hin A.reads⟩
        · rw [hlist]
          exact A.dirent
        · rw [hlist]
          exact A.rest

theorem readdirs_marked (lcnames : Bool) (T : Table s₀ start cs)
    (hnames : Named s₀ cs) (h : Reloaded s₀ s)
    (hi : i < total s₀.fs cs) (hend : Ended s₀ cs i) (hfuel : total s₀.fs cs + 1 < fuel) (n : Nat) :
    ∃ r j, readdirs lcnames fuel n (position s₀.fs start cs i) s = some r ∧
      Reloaded s₀ r.st ∧ r.dir = position s₀.fs start cs j ∧ j < total s₀.fs cs ∧ Ended s₀ cs j ∧
      listing lcnames (slotAt s₀ cs) (total s₀.fs cs - j) j =
        (listing lcnames (slotAt s₀ cs) (total s₀.fs cs - i) i).drop n ∧
      Lists s₀ cs (listing lcnames (slotAt s₀ cs) (total s₀.fs cs - i) i) n r := by
  induction n with
  | zero => exact ⟨_, i, rfl, h, rfl, hi, hend, rfl, rfl, fun x hx => by cases hx⟩
  | succ n ih =>
    obtain ⟨r, j, hr, hsame, hdir, hj, hendj, hrest, L⟩ := ih
    obtain ⟨c, k, hc, A⟩ := loop_advances (d := ⟨[], false⟩) lcnames [] T hnames hsame hj hendj
      rfl (show total s₀.fs cs + 1 < j + fuel by omega)
    refine ⟨r.add c, k, ?_, A.same, A.dir, A.range.2, A.ended, ?_, ?_, ?_⟩
    · rw [readdirs, hr]
      dsimp only
      rw [hdir, fatReaddir, hc]
      rfl
    · rw [A.rest, hrest, List.tail_drop]
    · have hdirent := A.dirent
      rw [hrest, List.getElem?_drop, Nat.add_zero] at hdirent
      show r.dirents ++ [c.dirent] = _
      rw [L.dirents, hdirent, List.range_succ, List.map_append]
      rfl
    · intro x hx
      rcases List.mem_append.mp hx with hold | hnew
      · exact L.reads x hold
      · exact (A.reads x hnew).resolve_left List.not_mem_nil

end

section

variable {s : State} {found : Option Nat} {start : Nat} {cs : List Nat} {dir : Fatdir}

theorem first_lt (T : Table s start cs) (found : Option Nat) :
    first found < dirsecNdirs s.fs ∧ first found < total s.fs cs := by
  obtain ⟨j, hj, -, hn⟩ := ndirs_le T
  have hpow : 2 ^ 4 ≤ 2 ^ j := Nat.pow_le_pow_right (by decide) hj
  have hle := Nat.le_of_dvd (total_pos T) (ndirs_dvd T)
  have hfirst : first found ≤ 2 := by
    unfold first
    split <;> decide
  omega

theorem opendir_position (O : Opened s found start cs) :
    fatOpendir found s.fs = position s.fs start cs (first found) := by
  have hstart := O.start
  have T := O.table
  have hlt := (first_lt T found).1
  cases found with
  | none =>
    dsimp only at hstart
    unfold fatOpendir
    dsimp only
    by_cases h32 : s.fs.fsType = .fat32
    · rw [if_pos h32] at hstart ⊢
      have hne : start ≠ 0 := by
        intro h0
        have hbase := (T.rootbase h0).1
        omega
      rw [position_chain T hne _ hlt, hstart]
      rfl
    · rw [if_neg h32] at hstart ⊢
      rw [hstart] at T ⊢
      exact (position_root T).symm
  | some cluster =>
    dsimp only at hstart
    have hne := (O.sub cluster rfl).1
    rw [hstart] at T ⊢
    rw [position_chain T hne _ hlt]
    rfl

theorem rewinddir_position (O : Opened s found start cs) (hdir : dir.fdStartcluster = start) :
    fatRewinddir s.fs dir = position s.fs start cs (first found) := by
  rw [← opendir_position O]
  have hstart := O.start
  have T := O.table
  unfold fatRewinddir fatOpendir
  rw [hdir]
  cases found with
  | none =>
    dsimp only at hstart ⊢
    by_cases h32 : s.fs.fsType = .fat32
    · rw [if_pos h32] at hstart ⊢
      rw [if_neg fun h => h.1 h32, if_pos ⟨h32, hstart⟩, hstart]
    · rw [if_neg h32] at hstart ⊢
      rw [if_pos ⟨h32, hstart⟩, hstart]
  | some cluster =>
    dsimp only at hstart ⊢
    obtain ⟨hne, hroot⟩ := O.sub cluster rfl
    rw [if_neg fun h => hne (hstart ▸ h.2), if_neg fun h => hroot h.1 (hstart ▸ h.2), hstart]

end

section

variable {lcnames : Bool} {s₀ s : State} {start i k fuel : Nat} {cs : List Nat} {d : Dirent}
  {reads : List Nat} {found : Option Nat} {dir : Fatdir}

/-- The iterator behind the end of the directory, with its last index. -/
def overrun (fs : Mountpt) (start : Nat) (cs : List Nat) (k : Nat) : Fatdir :=
  { position fs start cs (total fs cs - 1) with
    fdCurrsector := sectorAt fs cs ((total fs cs - 1) / dirsecNdirs fs) + k }

theorem loop_unmarked (lcnames : Bool) (reads : List Nat) (T : Table s₀ start cs)
    (hnames : Named s₀ cs) (h : Reloaded s₀ s)
    (hi : i < total s₀.fs cs) (hno : ¬ Ended s₀ cs i) (hname : d.dName.headD 0 = 0)
    (hfuel : total s₀.fs cs + 1 < i + fuel) :
    ∃ c, readdirLoop lcnames fuel d reads (position s₀.fs start cs i) s = some c ∧
      Reloaded s₀ c.st ∧ ((∃ j, i < j ∧ j < total s₀.fs cs ∧ c.dir = position s₀.fs start cs j) ∨
        c.dir = overrun s₀.fs start cs 1) := by
  induction fuel generalizing s i reads with
  | zero => omega
  | succ fuel ih =>
    have hbounds := sector_bounds T hi
    have hlt := sectorsEnd_lt T
    obtain ⟨s', hs', hturn⟩ := loop_turn lcnames fuel reads h hname
      (show (position s₀.fs start cs i).fdCurrsector ≠ 0 from Nat.ne_of_gt hbounds.1)
      (Nat.lt_trans hbounds.2 hlt)
    have hzero : ¬ slotAt s₀ cs i 0 = 0 := fun hz => hno ⟨i, Nat.le_refl i, hi, hz⟩
    rw [direntry_position T, if_neg hzero] at hturn
    rw [hturn]
    by_cases hlast : i + 1 < total s₀.fs cs
    · have hno' : ¬ Ended s₀ cs (i + 1) :=
        fun ⟨t, hit, ht, hz⟩ => hno ⟨t, Nat.le_of_succ_le hit, ht, hz⟩
      obtain ⟨s'', hs'', hwithin⟩ := next_within (T.of_reloaded hs') (hs'.total.symm ▸ hlast)
      rw [hs'.position, hs'.position] at hwithin
      rw [hwithin, if_pos rfl]
      by_cases hlive : isLive (slotAt s₀ cs i) = true
      · obtain ⟨k, rfl⟩ : ∃ k, fuel = k + 1 := ⟨fuel - 1, by omega⟩
        rw [if_pos hlive, loop_named (direntOf_head hzero (hnames i hi hlive))]
        exact ⟨_, rfl, hs'.trans hs'', .inl ⟨i + 1, Nat.lt_succ_self i, hlast, rfl⟩⟩
      · rw [if_neg hlive]
        obtain ⟨c, hc, hsame, hout⟩ := @ih s'' (i + 1)
          (reads ++ [sectorAt s₀.fs cs (i / dirsecNdirs s₀.fs)]) (hs'.trans hs'') hlast hno'
          (by omega)
        refine ⟨c, hc, hsame, ?_⟩
        rcases hout with ⟨j, hij, hj⟩ | hover
        · exact .inl ⟨j, Nat.lt_of_succ_lt hij, hj⟩
        · exact .inr hover
    · have hi' : i = total s₀.fs cs - 1 := by omega
      obtain ⟨s'', hs'', hend⟩ := next_end (T.of_reloaded hs') (i := i)
        (by rw [hs'.total]; omega)
      obtain ⟨p, c, b, hfs⟩ := hs'.fs
      rw [hs'.position, hfs] at hend
      rw [hend, if_neg Bool.false_ne_true]
      refine ⟨_, rfl, hs'.trans hs'', .inr ?_⟩
      have hwrap : wrap32 (sectorAt s₀.fs cs (i / dirsecNdirs s₀.fs) + 1) =
          sectorAt s₀.fs cs (i / dirsecNdirs s₀.fs) + 1 := wrap32_of_lt (by omega)
      unfold overrun
      rw [← hi', ← hwrap]
      rfl

/-- Behind the end a call reads one sector and fails; it goes on to the next unless the
sector looks like the end of a directory. -/
theorem readdir_over (lcnames : Bool) (T : Table s₀ start cs) (h : Reloaded s₀ s)
    (hk : (overrun s₀.fs start cs k).fdCurrsector < 2 ^ 32) (hfuel : 0 < fuel) :
    ∃ c, fatReaddir lcnames fuel (overrun s₀.fs start cs k) s = some c ∧ Reloaded s₀ c.st ∧
      c.reads = [(overrun s₀.fs start cs k).fdCurrsector] ∧
      (direntry s₀ (overrun s₀.fs start cs k) 0 ≠ 0 →
        (overrun s₀.fs start cs k).fdCurrsector + 1 < 2 ^ 32 →
          c.dir = overrun s₀.fs start cs (k + 1)) := by
  obtain ⟨f, rfl⟩ : ∃ f, fuel = f + 1 := ⟨fuel - 1, by omega⟩
  have hpos := total_pos T
  have hbounds := sector_bounds T (show total s₀.fs cs - 1 < total s₀.fs cs by omega)
  have hsector : (overrun s₀.fs start cs k).fdCurrsector =
      sectorAt s₀.fs cs ((total s₀.fs cs - 1) / dirsecNdirs s₀.fs) + k := rfl
  obtain ⟨s', hs', hturn⟩ := @loop_turn s ⟨[], false⟩ (overrun s₀.fs start cs k) lcnames f [] s₀
    h rfl (by omega) hk
  obtain ⟨s'', hs'', hlast⟩ := next_last (T.of_reloaded hs')
    (show total s₀.fs cs - 1 + 1 = total s'.fs cs by rw [hs'.total]; omega)
    (overrun s₀.fs start cs k).fdCurrsector
  have hnext : fatNextdirentry (overrun s₀.fs start cs k) s' =
      (s'', { overrun s₀.fs start cs k with
        fdCurrsector := wrap32 ((overrun s₀.fs start cs k).fdCurrsector + 1) }, false) := by
    rw [hs'.position] at hlast
    exact hlast
  rw [fatReaddir, hturn, hnext]
  split
  · rename_i hz
    exact ⟨_, rfl, hs', rfl, fun hne => absurd hz hne⟩
  · refine ⟨_, rfl, hs'.trans hs'', rfl, fun _ hlt => ?_⟩
    dsimp only
    rw [wrap32_of_lt hlt]
    rfl

def Reaches (lcnames : Bool) (fuel : Nat) (s₀ : State) (dir₀ dir : Fatdir) : Prop :=
  ∃ n r, readdirs lcnames fuel n dir₀ s₀ = some r ∧ Reloaded s₀ r.st ∧ r.dir = dir

theorem Reaches.step {dir₀ : Fatdir} (R : Reaches lcnames fuel s₀ dir₀ dir) {P : Fatdir → Prop}
    (hcall : ∀ s, Reloaded s₀ s → ∃ c, fatReaddir lcnames fuel dir s = some c ∧
      Reloaded s₀ c.st ∧ P c.dir) : ∃ dir', P dir' ∧ Reaches lcnames fuel s₀ dir₀ dir' := by
  obtain ⟨n, r, hr, hsame, hdir⟩ := R
  obtain ⟨c, hc, hsame', hP⟩ := hcall r.st hsame
  refine ⟨c.dir, hP, n + 1, r.add c, ?_, hsame', rfl⟩
  rw [readdirs, hr]
  dsimp only
  rw [hdir, hc]
  rfl

theorem reaches_over {dir₀ : Fatdir} (T : Table s₀ start cs)
    (hnames : Named s₀ cs) (hi : i < total s₀.fs cs)
    (hno : ¬ Ended s₀ cs i) (hfuel : total s₀.fs cs + 1 < fuel)
    (R : Reaches lcnames fuel s₀ dir₀ (position s₀.fs start cs i)) :
    Reaches lcnames fuel s₀ dir₀ (overrun s₀.fs start cs 1) := by
  obtain ⟨m, hm⟩ : ∃ m, m = total s₀.fs cs - i := ⟨_, rfl⟩
  induction m using Nat.strong_induction_on generalizing i with
  | _ m ih =>
    obtain ⟨dir', hP, R'⟩ := R.step (P := fun dir' =>
        (∃ j, i < j ∧ j < total s₀.fs cs ∧ dir' = position s₀.fs start cs j) ∨
          dir' = overrun s₀.fs start cs 1) fun s h =>
      @loop_unmarked s₀ s start i fuel cs ⟨[], false⟩ lcnames [] T hnames h hi hno rfl (by omega)
    rcases hP with ⟨j, hij, hj, rfl⟩ | rfl
    · exact ih _ (by omega) hj
        (fun ⟨t, hjt, ht, hz⟩ => hno ⟨t, by omega, ht, hz⟩) R' rfl
    · exact R'

theorem over_inside (T : Table s₀ start cs) (hno : ¬ Ended s₀ cs (first found))
    (hin : Inside s₀ cs (overrun s₀.fs start cs k).fdCurrsector) :
    direntry s₀ (overrun s₀.fs start cs k) 0 ≠ 0 := by
  obtain ⟨i, hi, hsector⟩ := hin
  have hn := ndirs_pos T.sound.size
  obtain ⟨q, hq⟩ := ndirs_dvd T
  have hpos := total_pos T
  have hfirst := (first_lt T found).1
  generalize hw : dirsecNdirs s₀.fs = w at hn hq hfirst hsector
  have hqpos : 0 < q := by
    by_contra h0
    rw [show q = 0 by omega, Nat.mul_zero] at hq
    omega
  have hiq : i / w < q := Nat.div_lt_of_lt_mul (hq ▸ hi)
  have hlast : total s₀.fs cs - 1 = w - 1 + w * (q - 1) := by
    have hsplit : w * q = w * (q - 1) + w := by
      rw [← Nat.mul_succ]
      congr 1
      omega
    omega
  have hend : w - 1 + w * (i / w) < total s₀.fs cs := by
    have hle : w * (i / w + 1) ≤ w * q := Nat.mul_le_mul_left w hiq
    rw [Nat.mul_succ] at hle
    omega
  have hdiv : (w - 1 + w * (i / w)) / w = i / w := by
    rw [Nat.add_mul_div_left _ _ hn, Nat.div_eq_of_lt (by omega), Nat.zero_add]
  have hmod : (w - 1 + w * (i / w)) % w = (total s₀.fs cs - 1) % w := by
    rw [hlast, Nat.add_mul_mod_self_left, Nat.add_mul_mod_self_left]
  have hentry : direntry s₀ (overrun s₀.fs start cs k) = slotAt s₀ cs (w - 1 + w * (i / w)) := by
    funext x
    unfold direntry slotAt
    rw [hsector, hw, hdiv]
    have hbyte : dirsecBytendx s₀.fs (overrun s₀.fs start cs k).fdIndex =
        dirsecBytendx s₀.fs (w - 1 + w * (i / w)) := by
      refine (bytendx_wrap T (total s₀.fs cs - 1)).trans ?_
      rw [bytendx_eq T.sound.size, bytendx_eq T.sound.size, hw, hmod]
    rw [hbyte]
  rw [hentry]
  exact fun hz => hno ⟨_, by omega, hend, hz⟩

theorem Right.ended (O : Opened s₀ found start cs) (hfuel : total s₀.fs cs + 1 < fuel)
    (R : Right lcnames fuel s₀ found cs) : Ended s₀ cs (first found) := by
  by_contra hno
  have T := O.table
  have hpos := total_pos T
  have hbounds := sector_bounds T (show total s₀.fs cs - 1 < total s₀.fs cs by omega)
  have hend := sectorsEnd_lt T
  generalize hX : sectorAt s₀.fs cs ((total s₀.fs cs - 1) / dirsecNdirs s₀.fs) = X at hbounds
  have hover : ∀ k, (overrun s₀.fs start cs k).fdCurrsector = X + k := fun k => by rw [← hX]; rfl
  have hinside : ∀ k, X + k < 2 ^ 32 →
      Reaches lcnames fuel s₀ (fatOpendir found s₀.fs) (overrun s₀.fs start cs k) →
      Inside s₀ cs (X + k) := by
    intro k hk ⟨n, r, hr, hsame, hdir⟩
    obtain ⟨c, hc, -, hreads, -⟩ := readdir_over lcnames T hsame
      (show (overrun s₀.fs start cs k).fdCurrsector < 2 ^ 32 from (hover k).symm ▸ hk)
      (show 0 < fuel by omega)
    obtain ⟨r', hr', L, -⟩ := R (n + 1)
    rw [readdirs, hr] at hr'
    dsimp only at hr'
    rw [hdir, hc] at hr'
    have heq : r.add c = r' := Option.some.inj hr'
    refine L.reads _ ?_
    rw [← heq, ← hover]
    exact List.mem_append_right _ (hreads ▸ List.mem_singleton_self _)
  have hstart : Reaches lcnames fuel s₀ (fatOpendir found s₀.fs)
      (position s₀.fs start cs (first found)) :=
    ⟨0, _, rfl, .refl T.sound, opendir_position O⟩
  -- one sector after the other is read behind the end, up to one outside
  have hall : ∀ k, 1 ≤ k → X + k ≤ sectorsEnd s₀.fs cs →
      Reaches lcnames fuel s₀ (fatOpendir found s₀.fs) (overrun s₀.fs start cs k) := by
    intro k hk
    induction k, hk using Nat.le_induction with
    | base =>
      exact fun _ => reaches_over T O.names (first_lt T found).2 hno hfuel hstart
    | succ k hk ih =>
      intro hle
      have R' := ih (by omega)
      have hin := hinside k (by omega) R'
      rw [← hover] at hin
      have hne := over_inside T hno hin
      obtain ⟨dir', rfl, hreach⟩ := R'.step
        (P := fun dir' => dir' = overrun s₀.fs start cs (k + 1)) fun s h => by
          obtain ⟨c, hc, hsame, -, hdir⟩ := readdir_over lcnames T h
            (show (overrun s₀.fs start cs k).fdCurrsector < 2 ^ 32 by rw [hover]; omega)
            (show 0 < fuel by omega)
          exact ⟨c, hc, hsame, hdir hne (by rw [hover]; omega)⟩
      exact hreach
  obtain ⟨i, hi, hsector⟩ := hinside (sectorsEnd s₀.fs cs - X) (by omega)
    (hall _ (by omega) (by omega))
  have hlt := (sector_bounds T hi).2
  omega

end

/-- Enumerating is right exactly for the directories with an entry that marks the end. -/
theorem readdir_right_iff {lcnames : Bool} {fuel start : Nat} {s : State} {found : Option Nat}
    {cs : List Nat} (O : Opened s found start cs) (hfuel : total s.fs cs + 1 < fuel) :
    Right lcnames fuel s found cs ↔ Ended s cs (first found) := by
  constructor
  · exact fun R => R.ended O hfuel
  · intro hend n
    have T := O.table
    have hfirst := (first_lt T found).2
    obtain ⟨r, j, hr, hsame, hdir, -, -, -, L⟩ :=
      readdirs_marked lcnames T O.names (.refl T.sound) hfirst hend hfuel n
    rw [← opendir_position O] at hr
    refine ⟨r, hr, L, fun m => ?_⟩
    have hrewind : fatRewinddir r.st.fs r.dir = position s.fs start cs (first found) := by
      obtain ⟨p, c, b, hfs⟩ := hsame.fs
      rw [← rewinddir_position O (show r.dir.fdStartcluster = start by rw [hdir]; rfl), hfs]
      rfl
    obtain ⟨r', -, hr', -, -, -, -, -, L'⟩ :=
      readdirs_marked lcnames T O.names hsame hfirst hend hfuel m
    rw [← hrewind] at hr'
    exact ⟨r', hr', L'⟩

theorem oneCluster_opened (n : Nat) (hnames : Named (oneCluster n) [2]) :
    Opened (oneCluster n) (some 2) 2 [2] where
  table := oneCluster_chain n
  start := rfl
  sub cluster h := by
    cases h
    exact ⟨by decide, fun h => by cases h⟩
  names := hnames

/-- A directory whose last entry is not in use. -/
theorem readdir_right_marked : Right false 18 (oneCluster 15) (some 2) [2] := by
  have hnames : ∀ i < 16, slotAt (oneCluster 15) [2] i 0 ≠ 0x20 := by decide +kernel
  exact (readdir_right_iff (oneCluster_opened 15 fun i hi _ => hnames i hi) (by decide)).mpr
    ⟨15, by decide, by decide, by decide +kernel⟩

/-- A directory of one cluster that is full. -/
theorem readdir_overruns : ¬ ∀ (lcnames : Bool) (fuel start : Nat) (s : State) (found : Option Nat)
    (cs : List Nat), Opened s found start cs → total s.fs cs + 1 < fuel →
      Right lcnames fuel s found cs := by
  intro hall
  have hnames : ∀ i < 16, slotAt (oneCluster 16) [2] i 0 ≠ 0x20 := by decide +kernel
  have hused : ∀ i < 16, slotAt (oneCluster 16) [2] i 0 ≠ 0 := by decide +kernel
  have O := oneCluster_opened 16 fun i hi _ => hnames i hi
  have hfuel : total (oneCluster 16).fs [2] + 1 < 18 := by decide
  obtain ⟨t, -, ht, hzero⟩ := (hall false 18 2 (oneCluster 16) (some 2) [2] O hfuel).ended O hfuel
  exact hused t ht hzero

end NuttxAvr32.Fat.Readdir
