import NuttxAvr32.Fat.Directory
import NuttxAvr32.Lib.Counting

/-! # Free clusters

`fat_nfreeclusters` counts the free clusters or returns the count that is cached, which
`fat_extendchain` and `fat_removechain` keep and the FSINFO sector of FAT32 holds. The device
makes no errors here.
-/

namespace NuttxAvr32.Fat.FreeCount

open Runs

/-- The scan of a FAT12: the clusters that are left, the next one, and the count. -/
def scan12 : Nat → Nat → Nat → State → State × Nat
  | 0, _, nfreeclusters, s => (s, nfreeclusters)
  | n + 1, sector, nfreeclusters, s =>
    let g := fatGetcluster .ok .ok sector s
    let free := g.2.map (· % 2 ^ 16) = some 0
    scan12 n (sector + 1) (if free then nfreeclusters + 1 else nfreeclusters) g.1

/-- The scan of the other FATs, with entries of `w` bytes. `fatsector` is counted up twice. -/
def scanFat (w : Nat) (get : Sector → Nat → Nat) :
    Nat → Nat → Nat → Nat → State → State × Nat
  | 0, _, _, nfreeclusters, s => (s, nfreeclusters)
  | n + 1, fatsector, offset, nfreeclusters, s =>
    let next := s.fs.fsHwsectorsize ≤ offset
    let s := if next then (cacheread .ok fatsector s).1 else s
    let fatsector := if next then wrap32 (fatsector + 2) else fatsector
    let offset := if next then 0 else offset
    let free := get s.fs.fsBuffer offset = 0
    scanFat w get n fatsector (offset + w) (if free then nfreeclusters + 1 else nfreeclusters) s

def scan (s : State) : State × Nat :=
  match s.fs.fsType with
  | .fat12 => scan12 (s.fs.fsNclusters - 2) 2 0 s
  | .fat16 => scanFat 2 fatGetuint16 s.fs.fsNclusters s.fs.fsFatbase s.fs.fsHwsectorsize 0 s
  | _ => scanFat 4 fatGetuint32 s.fs.fsNclusters s.fs.fsFatbase s.fs.fsHwsectorsize 0 s

/-- `fat_nfreeclusters`: the result `OK`, and what it stores through its pointer. -/
def fatNfreeclusters (s : State) : State × Int × Nat :=
  if s.fs.fsFsifreecount ≤ wrapInt (s.fs.fsNclusters - 2) then (s, 0, s.fs.fsFsifreecount)
  else
    let r := scan s
    ({ r.1 with
        fs :=
          { r.1.fs with
            fsFsifreecount := r.2
            fsFsidirty := r.1.fs.fsFsidirty || r.1.fs.fsType = .fat32 } }, 0, r.2)

structure Statfs where
  fType : Nat
  fBsize : Nat
  fBlocks : Nat
  fBfree : Nat
  fBavail : Nat
  fNamelen : Nat

/-- `fat_statfs` on a healthy mount. The result of the call is stored over what the call has
stored. -/
def fatStatfs (s : State) : State × Statfs :=
  let r := fatNfreeclusters s
  let bfree := wrapInt r.2.1
  (r.1, ⟨0x4d44, s.fs.fsFatsecperclus * s.fs.fsHwsectorsize, s.fs.fsNclusters, bfree, bfree, 12⟩)

def clusters (s : State) : List Nat := List.range' 2 (s.fs.fsNclusters - 2)

def freeCount (s : State) : Nat := (clusters s).countP fun c => entry s c = 0

def EndsMarked (s : State) (l : List Nat) : Prop := ∀ c ∈ l, entry s c ≠ 0

inductive ChainOp
  | extend (beyond beyond' fuel cluster : Nat)
  | remove (beyond : Nat → Nat) (fuel cluster : Nat)

/-- The chain is well-formed: an extension starts a chain or is asked for one of the clusters
of a chain. The loops have the fuel that they need. -/
def ChainOp.valid (s : State) : ChainOp → Prop
  | .extend _ _ fuel cluster =>
    s.fs.fsNclusters + 1 < fuel ∧ (cluster = 0 ∨ (Valid s cluster ∧ 2 ≤ entry s cluster))
  | .remove _ fuel cluster => ∃ l, ChainFrom s cluster l ∧ EndsMarked s l ∧ l.length < fuel

def ChainOp.exec (s : State) : ChainOp → Option State
  | .extend beyond beyond' fuel cluster =>
    (fatExtendchain beyond beyond' fuel cluster s).map fun r => r.1
  | .remove beyond fuel cluster => (fatRemovechain beyond fuel cluster s).map fun r => r.1

def chainMachine : Machine State ChainOp where
  valid := ChainOp.valid
  exec := ChainOp.exec

def setCounts (freecount nxtfree : Nat) (s : State) : State :=
  { s with
    fs :=
      { s.fs with
        fsFsifreecount := freecount
        fsFsinextfree := nxtfree
        fsFsidirty := true } }

/-- The next mount finds the counters in the sector that was written. -/
def ReadBack (freecount nxtfree : Nat) (written : State) : Prop :=
  ∀ m : State, m.dev = written.dev → m.fs.fsFsinfo = written.fs.fsFsinfo →
    m.fs.fsDirty = false → m.fs.fsCurrentsector ≠ m.fs.fsFsinfo →
      (fatCheckfsinfo m).2 = true ∧ (fatCheckfsinfo m).1.fs.fsFsifreecount = freecount ∧
        (fatCheckfsinfo m).1.fs.fsFsinextfree = nxtfree

structure Right (s : State) : Prop where
  count : (fatNfreeclusters s).2 = (0, freeCount s)
  cached : ∀ t, Reachable chainMachine (fun t => t = (fatNfreeclusters s).1) t →
    t.fs.fsFsifreecount ≠ 0xffffffff → t.fs.fsFsifreecount = freeCount t
  fsinfo : s.fs.fsType = .fat32 → ∀ beyond freecount nxtfree, freecount < 2 ^ 32 →
    nxtfree < 2 ^ 32 →
      ReadBack freecount nxtfree
        (fatUpdatefsinfo beyond none none (setCounts freecount nxtfree s)).1
  statfs : (fatStatfs s).2.fBfree = freeCount s

section

variable {s₀ s : State} {w n j nfreeclusters fatsector offset : Nat} {get : Sector → Nat → Nat}

theorem scan12_spec (h : Reloaded s₀ s) (hj : 2 ≤ j) (hend : ∀ i < n, j + i < s₀.fs.fsNclusters)
    (htype : s₀.fs.fsType = .fat12) : ∃ s', Reloaded s₀ s' ∧ scan12 n j nfreeclusters s =
      (s', nfreeclusters + (List.range' j n).countP fun c => entry s₀ c = 0) := by
  induction n generalizing j nfreeclusters s with
  | zero => exact ⟨s, h, rfl⟩
  | succ n ih =>
    have hv : Valid s j := (h.valid j).mpr ⟨hj, hend 0 (Nat.succ_pos n)⟩
    have hget : (fatGetcluster .ok .ok j s).2 = some (entry s₀ j) := by
      rw [(getcluster_ok h.sound hv).1, h.entry]
    have hlt : entry s₀ j % 2 ^ 16 = entry s₀ j := by
      refine Nat.mod_eq_of_lt ?_
      unfold entry entryOf
      rw [htype]
      exact Nat.lt_of_lt_of_le (Packed.get_lt _ _) (by decide)
    obtain ⟨s', hs', hscan⟩ := @ih (fatGetcluster .ok .ok j s).1 (j + 1)
      (if entry s₀ j = 0 then nfreeclusters + 1 else nfreeclusters)
      (h.trans (.getcluster h.sound)) (by omega)
      (fun i hi => by have := hend (i + 1) (Nat.succ_lt_succ hi); omega)
    refine ⟨s', hs', ?_⟩
    rw [scan12, hget, List.range'_succ, List.countP_cons]
    simp only [Option.map_some, hlt, Option.some.injEq, decide_eq_true_eq]
    rw [hscan]
    split <;> simp only [Prod.mk.injEq, true_and] <;> omega

/-- The entry `k` as the scan finds it, in every second sector. -/
def scanned (w : Nat) (get : Sector → Nat → Nat) (s : State) (k : Nat) : Nat :=
  get (view s (wrap32 (s.fs.fsFatbase + 2 * (k / (s.fs.fsHwsectorsize / w)))))
    (w * (k % (s.fs.fsHwsectorsize / w)))

structure Standing (w : Nat) (s₀ : State) (j fatsector offset : Nat) (s : State) : Prop where
  same : Reloaded s₀ s
  next : s₀.fs.fsHwsectorsize / w ∣ j → offset = s₀.fs.fsHwsectorsize ∧
    fatsector = wrap32 (s₀.fs.fsFatbase + 2 * (j / (s₀.fs.fsHwsectorsize / w)))
  within : ¬ s₀.fs.fsHwsectorsize / w ∣ j →
    offset = w * (j % (s₀.fs.fsHwsectorsize / w)) ∧
    fatsector = wrap32 (s₀.fs.fsFatbase + 2 * (j / (s₀.fs.fsHwsectorsize / w) + 1)) ∧
    s.fs.fsCurrentsector = wrap32 (s₀.fs.fsFatbase + 2 * (j / (s₀.fs.fsHwsectorsize / w)))

theorem entries_per (h : ∃ k, 9 ≤ k ∧ s₀.fs.fsHwsectorsize = 2 ^ k) (hw : w = 2 ∨ w = 4) :
    1 < s₀.fs.fsHwsectorsize / w ∧ w * (s₀.fs.fsHwsectorsize / w) = s₀.fs.fsHwsectorsize := by
  obtain ⟨k, hk, hsize⟩ := h
  have hsplit : s₀.fs.fsHwsectorsize = 2 ^ (k - 3) * 8 := by
    rw [hsize, show (8 : Nat) = 2 ^ 3 from rfl, ← Nat.pow_add]
    congr 1
    omega
  have hpos : 0 < 2 ^ (k - 3) := Nat.pow_pos (by decide)
  rcases hw with rfl | rfl <;> omega

theorem standing_step (hw : w = 2 ∨ w = 4) (get : Sector → Nat → Nat)
    (S : Standing w s₀ j fatsector offset s) :
    ∃ s', s' = (if s.fs.fsHwsectorsize ≤ offset then (cacheread .ok fatsector s).1 else s) ∧
      Standing w s₀ (j + 1)
        (if s.fs.fsHwsectorsize ≤ offset then wrap32 (fatsector + 2) else fatsector)
        ((if s.fs.fsHwsectorsize ≤ offset then 0 else offset) + w) s' ∧
      get s'.fs.fsBuffer (if s.fs.fsHwsectorsize ≤ offset then 0 else offset) =
        scanned w get s₀ j := by
  have hsize : s.fs.fsHwsectorsize = s₀.fs.fsHwsectorsize := by
    obtain ⟨p, c, b, hfs⟩ := S.same.fs
    rw [hfs]
  have hs₀ : ∃ k, 9 ≤ k ∧ s₀.fs.fsHwsectorsize = 2 ^ k := hsize ▸ S.same.sound.size
  obtain ⟨hper, hsplit⟩ := entries_per hs₀ hw
  rw [hsize]
  unfold scanned
  by_cases hdvd : s₀.fs.fsHwsectorsize / w ∣ j
  · obtain ⟨hoffset, hsector⟩ := S.next hdvd
    have hlt : fatsector < 2 ^ 32 := hsector ▸ wrap32_lt _
    have hload := Reloaded.load S.same.sound hlt
    have hmod := Nat.mod_eq_zero_of_dvd hdvd
    have hnot : ¬ s₀.fs.fsHwsectorsize / w ∣ j + 1 := by
      intro h
      have hone := (Nat.dvd_add_right hdvd).mp h
      exact absurd (Nat.le_of_dvd Nat.one_pos hone) (by omega)
    have hmod1 : (j + 1) % (s₀.fs.fsHwsectorsize / w) = 1 := by
      rw [Nat.add_mod, hmod, Nat.zero_add, Nat.mod_mod, Nat.mod_eq_of_lt hper]
    have hdiv := Nat.succ_div_of_not_dvd hnot
    rw [hoffset, if_pos (Nat.le_refl _), if_pos (Nat.le_refl _), if_pos (Nat.le_refl _),
      cacheread_ok S.same.sound, hmod, ← hsector]
    refine ⟨_, rfl, ⟨S.same.trans hload, fun h => absurd h hnot, fun _ => ⟨?_, ?_, ?_⟩⟩, ?_⟩
    · rw [hmod1, Nat.zero_add, Nat.mul_one]
    · rw [hdiv, hsector]
      exact Nat.mod_add_mod _ _ _
    · rw [hdiv, ← hsector]
      exact load_current _ _
    · rw [load_view, S.same.view]
      rfl
  · obtain ⟨hoffset, hsector, hcurrent⟩ := S.within hdvd
    have hlt := Nat.mod_lt j (Nat.lt_of_succ_lt hper)
    have hno : ¬ s₀.fs.fsHwsectorsize ≤ offset := by
      have hmul : w * (j % (s₀.fs.fsHwsectorsize / w) + 1) ≤ w * (s₀.fs.fsHwsectorsize / w) :=
        Nat.mul_le_mul_left w hlt
      rw [Nat.mul_succ, hsplit, ← hoffset] at hmul
      omega
    have hbuffer : s.fs.fsBuffer =
        view s₀ (wrap32 (s₀.fs.fsFatbase + 2 * (j / (s₀.fs.fsHwsectorsize / w)))) := by
      rw [← view_current s, S.same.view, hcurrent]
    rw [if_neg hno, if_neg hno, if_neg hno]
    refine ⟨s, rfl, ⟨S.same, fun h => ?_, fun h => ?_⟩, ?_⟩
    · have hdiv := Nat.succ_div_of_dvd h
      have hmod := Nat.div_add_mod j (s₀.fs.fsHwsectorsize / w)
      have hmod1 := Nat.div_mul_cancel h
      rw [hdiv, Nat.succ_mul, Nat.mul_comm] at hmod1
      have hlast : j % (s₀.fs.fsHwsectorsize / w) + 1 = s₀.fs.fsHwsectorsize / w := by omega
      refine ⟨?_, ?_⟩
      · rw [hoffset, ← Nat.mul_succ, Nat.succ_eq_add_one, hlast, hsplit]
      · rw [hdiv]
        exact hsector
    · have hdiv := Nat.succ_div_of_not_dvd h
      have hmod := Nat.div_add_mod j (s₀.fs.fsHwsectorsize / w)
      have hmod1 := Nat.div_add_mod (j + 1) (s₀.fs.fsHwsectorsize / w)
      rw [hdiv] at hmod1
      have hnext : (j + 1) % (s₀.fs.fsHwsectorsize / w) =
          j % (s₀.fs.fsHwsectorsize / w) + 1 := by omega
      rw [hdiv, hnext, hoffset]
      exact ⟨(Nat.mul_succ _ _).symm, hsector, hcurrent⟩
    · rw [hbuffer, hoffset]

theorem scanFat_spec (hw : w = 2 ∨ w = 4) (S : Standing w s₀ j fatsector offset s) :
    ∃ s', Reloaded s₀ s' ∧ scanFat w get n fatsector offset nfreeclusters s =
      (s', nfreeclusters + (List.range' j n).countP fun k => scanned w get s₀ k = 0) := by
  induction n generalizing j nfreeclusters fatsector offset s with
  | zero => exact ⟨s, S.same, rfl⟩
  | succ n ih =>
    obtain ⟨s', hs', S', hget⟩ := standing_step hw get S
    obtain ⟨s'', hs'', hscan⟩ := @ih s' (j + 1)
      (if scanned w get s₀ j = 0 then nfreeclusters + 1 else nfreeclusters) _ _ S'
    refine ⟨s'', hs'', ?_⟩
    rw [scanFat, List.range'_succ, List.countP_cons, ← hs']
    simp only [hget, decide_eq_true_eq]
    rw [hscan]
    split <;> simp only [Prod.mk.injEq, true_and] <;> omega

end

section

variable {s s' : State} {c x : Nat} {beyond beyond' : Nat}

structure SameFat (s s' : State) : Prop where
  sound : Sound s'
  nclusters : s'.fs.fsNclusters = s.fs.fsNclusters
  type : s'.fs.fsType = s.fs.fsType

theorem SameFat.valid (h : SameFat s s') (d : Nat) : Valid s' d ↔ Valid s d := by
  unfold Valid
  rw [h.nclusters]

theorem mem_clusters {d : Nat} : d ∈ clusters s ↔ Valid s d := by
  unfold clusters Valid
  rw [List.mem_range'_1]
  omega

theorem freeCount_le (s : State) : freeCount s ≤ s.fs.fsNclusters := by
  have hle : freeCount s ≤ (clusters s).length := List.countP_le_length
  unfold clusters at hle
  rw [List.length_range'] at hle
  omega

theorem freeCount_same (h : s'.fs.fsNclusters = s.fs.fsNclusters)
    (hentry : ∀ d, Valid s d → entry s' d = entry s d) : freeCount s' = freeCount s := by
  unfold freeCount
  have hclusters : clusters s' = clusters s := by
    unfold clusters
    rw [h]
  rw [hclusters]
  refine List.countP_congr fun d hd => ?_
  rw [hentry d (mem_clusters.mp hd)]

theorem freeCount_use (h : s'.fs.fsNclusters = s.fs.fsNclusters) (hx : Valid s x)
    (hfree : entry s x = 0) (hused : entry s' x ≠ 0)
    (hrest : ∀ d, Valid s d → d ≠ x → (entry s' d = 0 ↔ entry s d = 0)) :
    freeCount s' + 1 = freeCount s := by
  have hclusters : clusters s' = clusters s := by
    unfold clusters
    rw [h]
  unfold freeCount
  rw [hclusters]
  refine Counting.countP_lose (List.nodup_range' ..) (mem_clusters.mpr hx)
    (decide_eq_true hfree) (decide_eq_false hused) fun d hd hne => ?_
  exact decide_eq_decide.mpr (hrest d (mem_clusters.mp hd) hne)

def Counts (s : State) : Prop :=
  s.fs.fsFsifreecount = 0xffffffff ∨ s.fs.fsFsifreecount = freeCount s

theorem Counts.change {d : Int} (s₁ : State) (hc : Counts s) (hs : Sound s')
    (hcount : s₁.fs.fsFsifreecount = s.fs.fsFsifreecount)
    (hfsifreecount : s'.fs.fsFsifreecount = (countFree d s₁).fs.fsFsifreecount)
    (hfree : (freeCount s' : Int) = freeCount s + d) : Counts s' := by
  have hn : s'.fs.fsNclusters < 2 ^ 28 :=
    Nat.lt_of_lt_of_le hs.nclusters (entryRange_le _)
  have hle := freeCount_le s'
  unfold Counts
  rw [hfsifreecount]
  unfold countFree
  rw [hcount]
  rcases hc with hunknown | hknown
  · rw [hunknown, if_neg (by decide)]
    exact .inl (hcount.trans hunknown)
  · split
    · refine .inr ?_
      dsimp only
      rw [hknown, ← hfree]
      unfold wrapInt
      omega
    · rename_i hno
      exact .inl (hcount.trans (not_not.mp hno))

theorem readBack_ne {type : FsType} {v : Nat} (htype : type = .fat12 ∨ type = .fat16)
    (hv : v % entryRange type ≠ 0) : readBack type beyond v ≠ 0 := by
  rcases htype with rfl | rfl
  · exact hv
  · have hv' : v % 2 ^ 16 ≠ 0 := hv
    unfold readBack swap16
    dsimp only
    omega

theorem readBack_zero {type : FsType} (htype : type = .fat12 ∨ type = .fat16) :
    readBack type beyond 0 = 0 := by
  rcases htype with rfl | rfl <;> rfl

theorem countFree_same (d : Int) (hs : Sound s) : SameFat s (countFree d s) where
  sound := (countFree_counted d s).sound hs
  nclusters := (countFree_counted d s).nclusters
  type := (countFree_counted d s).type

theorem SameFat.trans {s'' : State} (h : SameFat s s') (h' : SameFat s' s'') : SameFat s s'' :=
  ⟨h'.sound, h'.nclusters.trans h.nclusters, h'.type.trans h.type⟩

theorem SameFat.of_kept (h : Kept s s') : SameFat s s' := ⟨h.sound, h.same.nclusters, h.same.type⟩

theorem SameFat.of_written {v : Nat} (h : Written s s' c v) : SameFat s s' :=
  ⟨h.sound, h.same.nclusters, h.same.type⟩

theorem linkCluster_counts (beyond beyond' : Nat) (hs : Sound s)
    (htype : s.fs.fsType = .fat12 ∨ s.fs.fsType = .fat16)
    (hx : Valid s x) (hfree : entry s x = 0) (hc : c = 0 ∨ (Valid s c ∧ entry s c ≠ 0))
    (hcounts : Counts s) : SameFat s (linkCluster beyond beyond' c x s).1 ∧
      Counts (linkCluster beyond beyond' c x s).1 := by
  obtain ⟨hok, W⟩ := putcluster_ok hs hx beyond 0x0fffffff
  have hmark : readBack s.fs.fsType beyond 0x0fffffff ≠ 0 := by
    refine readBack_ne htype ?_
    rcases htype with h | h <;> rw [h] <;> decide
  have hxlt : x % entryRange s.fs.fsType ≠ 0 := by
    rw [Nat.mod_eq_of_lt (Nat.lt_trans hx.2 hs.nclusters)]
    have h2 := hx.1
    omega
  -- the counters are set last, in a state with these entries
  have hfinish : ∀ s₁ : State, SameFat s s₁ → s₁.fs.fsFsifreecount = s.fs.fsFsifreecount →
      entry s₁ x ≠ 0 → (∀ d, Valid s d → d ≠ x → (entry s₁ d = 0 ↔ entry s d = 0)) →
      SameFat s (countFree (-1) (setNextfree x s₁)) ∧
        Counts (countFree (-1) (setNextfree x s₁)) := by
    intro s₁ hsame hcount hused hrest
    have C := finish_counted x s₁
    have hS : SameFat s (countFree (-1) (setNextfree x s₁)) :=
      hsame.trans ⟨C.sound hsame.sound, C.nclusters, C.type⟩
    have hless := freeCount_use hS.nclusters hx hfree (by rw [C.entry]; exact hused)
      fun d hd hne => by rw [C.entry]; exact hrest d hd hne
    refine ⟨hS, hcounts.change (setNextfree x s₁) hS.sound hcount rfl ?_⟩
    omega
  unfold linkCluster
  dsimp only
  rw [hok, if_neg (by decide)]
  by_cases h0 : c = 0
  · rw [if_neg (not_not.mpr h0)]
    refine hfinish _ (.of_written W) W.same.fsifreecount ?_ fun d hd hne => ?_
    · rw [W.entry x hx, if_pos rfl]
      exact hmark
    · rw [W.entry d hd, if_neg hne]
  · obtain ⟨hcv, hcused⟩ := hc.resolve_left h0
    have hcx : c ≠ x := by
      rintro rfl
      exact hcused hfree
    obtain ⟨hok', W'⟩ := putcluster_ok W.sound ((W.valid c).mpr hcv) beyond' x
    rw [if_pos h0, hok', if_neg (by decide)]
    rw [W.same.type] at W'
    refine hfinish _ ((SameFat.of_written W).trans (.of_written W'))
      (W'.same.fsifreecount.trans W.same.fsifreecount) ?_ fun d hd hne => ?_
    · rw [W'.entry x ((W.valid x).mpr hx), if_neg (Ne.symm hcx), W.entry x hx, if_pos rfl]
      exact hmark
    · rw [W'.entry d ((W.valid d).mpr hd), W.entry d hd, if_neg hne]
      by_cases hdc : d = c
      · rw [if_pos hdc, hdc]
        exact ⟨fun h => absurd h (readBack_ne htype hxlt), fun h => absurd h hcused⟩
      · rw [if_neg hdc]

theorem findAndLink_counts (beyond beyond' : Nat) {start fuel : Nat} (hs : Sound s)
    (htype : s.fs.fsType = .fat12 ∨ s.fs.fsType = .fat16) (hstart : start = 1 ∨ Valid s start)
    (hfuel : s.fs.fsNclusters + 1 < fuel) (hc : c = 0 ∨ (Valid s c ∧ entry s c ≠ 0))
    (hcounts : Counts s) : ∃ r, findAndLink beyond beyond' fuel c start s = some r ∧
      SameFat s r.1 ∧ Counts r.1 := by
  obtain ⟨s1, r, hloop, hkept, hfinds⟩ := search_spec hs hstart hfuel
  have hsame := SameFat.of_kept hkept
  have hcounts1 : Counts s1 := by
    unfold Counts
    rw [hkept.same.fsifreecount, freeCount_same hsame.nclusters hkept.untouched]
    exact hcounts
  unfold findAndLink
  rw [hloop]
  cases r with
  | full => exact ⟨_, rfl, hsame, hcounts1⟩
  | error => exact hfinds.elim
  | free x =>
    have hc1 : c = 0 ∨ (Valid s1 c ∧ entry s1 c ≠ 0) := by
      rw [hkept.entry, hkept.valid]
      exact hc
    obtain ⟨hlink, hcount⟩ := linkCluster_counts beyond beyond'
      hkept.sound (hsame.type.symm ▸ htype) ((hkept.valid x).mpr hfinds.1)
      ((hkept.entry x).trans hfinds.2) hc1 hcounts1
    exact ⟨_, rfl, hsame.trans hlink, hcount⟩

theorem extendchain_counts (beyond beyond' : Nat) {fuel : Nat} (hs : Sound s)
    (htype : s.fs.fsType = .fat12 ∨ s.fs.fsType = .fat16) (hfuel : s.fs.fsNclusters + 1 < fuel)
    (hc : c = 0 ∨ (Valid s c ∧ 2 ≤ entry s c)) (hcounts : Counts s) :
    ∃ r, fatExtendchain beyond beyond' fuel c s = some r ∧ SameFat s r.1 ∧ Counts r.1 := by
  unfold fatExtendchain
  by_cases h0 : c = 0
  · rw [if_pos h0]
    dsimp only
    refine findAndLink_counts beyond beyond' hs htype ?_ hfuel (.inl h0) hcounts
    unfold Valid
    split <;> omega
  · obtain ⟨hv, hused⟩ := hc.resolve_left h0
    obtain ⟨hget, hkept⟩ := getcluster_ok hs hv
    have hsame := SameFat.of_kept hkept
    have hcounts1 : Counts (fatGetcluster .ok .ok c s).1 := by
      unfold Counts
      rw [hkept.same.fsifreecount, freeCount_same hsame.nclusters hkept.untouched]
      exact hcounts
    rw [if_neg h0]
    dsimp only
    rw [hget]
    dsimp only
    rw [if_neg (by omega)]
    split
    · exact ⟨_, rfl, hsame, hcounts1⟩
    · have hcv : Valid (fatGetcluster .ok .ok c s).1 c := (hkept.valid c).mpr hv
      have hcused : entry (fatGetcluster .ok .ok c s).1 c ≠ 0 := by
        rw [hkept.entry]
        omega
      obtain ⟨r, hr, hsame', hcount⟩ := findAndLink_counts beyond beyond'
        hkept.sound (hsame.type.symm ▸ htype) (.inr hcv) (hsame.nclusters.symm ▸ hfuel)
        (.inr ⟨hcv, hcused⟩) hcounts1
      exact ⟨r, hr, hsame.trans hsame', hcount⟩

theorem chain_valid {l : List Nat} (hl : ChainFrom s c l) {d : Nat} (hd : d ∈ l) : Valid s d := by
  induction hl with
  | done _ => cases hd
  | next hc _ ih =>
    rcases List.mem_cons.mp hd with rfl | hd
    · exact hc
    · exact ih hd

theorem removechain_counts (beyond : Nat → Nat) {l : List Nat} {fuel : Nat} (hs : Sound s)
    (htype : s.fs.fsType = .fat12 ∨ s.fs.fsType = .fat16) (hl : ChainFrom s c l)
    (hmarked : EndsMarked s l) (hfuel : l.length < fuel) (hcounts : Counts s) :
    ∃ r, fatRemovechain beyond fuel c s = some r ∧ SameFat s r.1 ∧ Counts r.1 := by
  induction fuel generalizing s c l with
  | zero => omega
  | succ fuel ih =>
    cases hl with
    | done hc => exact ⟨_, removechain_done hc fuel, ⟨hs, rfl, rfl⟩, hcounts⟩
    | @next _ l hv hl =>
      have hnot : c ∉ l := (ChainFrom.next hv hl).not_mem
      obtain ⟨hget, hkept⟩ := getcluster_ok hs hv
      obtain ⟨hput, W⟩ := putcluster_ok hkept.sound ((hkept.valid c).mpr hv) (beyond fuel) 0
      rw [hkept.same.type, readBack_zero htype] at W
      have C := countFree_counted 1
        (fatPutcluster .ok .ok (beyond fuel) c 0 (fatGetcluster .ok .ok c s).1).1
      have hsame : SameFat s (countFree 1
          (fatPutcluster .ok .ok (beyond fuel) c 0 (fatGetcluster .ok .ok c s).1).1) :=
        ((SameFat.of_kept hkept).trans (.of_written W)).trans (countFree_same 1 W.sound)
      have hentry : ∀ d, Valid s d → entry (countFree 1
          (fatPutcluster .ok .ok (beyond fuel) c 0 (fatGetcluster .ok .ok c s).1).1) d =
            if d = c then 0 else entry s d := by
        intro d hd
        rw [C.entry, W.entry d ((hkept.valid d).mpr hd), hkept.entry]
      have hmore := freeCount_use hsame.nclusters.symm ((hsame.valid c).mpr hv)
        (by rw [hentry c hv, if_pos rfl]) (hmarked c List.mem_cons_self)
        fun d hd hne => by rw [hentry d ((hsame.valid d).mp hd), if_neg hne]
      have hcounts' := hcounts.change _ hsame.sound (d := 1)
        (W.same.fsifreecount.trans hkept.same.fsifreecount) rfl (by omega)
      have hl' : ChainFrom (countFree 1
          (fatPutcluster .ok .ok (beyond fuel) c 0 (fatGetcluster .ok .ok c s).1).1)
            (entry s c) l := by
        refine hl.of_same hsame.valid fun d hd hdv => ?_
        rw [hentry d hdv, if_neg]
        rintro rfl
        exact hnot hd
      have hmarked' : EndsMarked (countFree 1
          (fatPutcluster .ok .ok (beyond fuel) c 0 (fatGetcluster .ok .ok c s).1).1) l := by
        intro d hd
        have hdv : Valid s d := chain_valid hl hd
        rw [hentry d hdv, if_neg]
        · exact hmarked d (List.mem_cons_of_mem c hd)
        · rintro rfl
          exact hnot hd
      obtain ⟨r, hr, hsame', hcount⟩ := ih hsame.sound (hsame.type.symm ▸ htype) hl' hmarked'
        (Nat.lt_of_succ_lt_succ hfuel) hcounts'
      refine ⟨r, ?_, hsame.trans hsame', hcount⟩
      have hin : 2 ≤ c ∧ c < s.fs.fsNclusters := hv
      rw [fatRemovechain, if_pos hin]
      dsimp only
      rw [hget]
      dsimp only
      rw [hput, if_neg (by decide)]
      exact hr

structure Inv (s : State) : Prop where
  sound : Sound s
  type : s.fs.fsType = .fat12 ∨ s.fs.fsType = .fat16
  counts : Counts s

theorem Inv.step {i : ChainOp} (I : Inv s) (hv : i.valid s) (he : i.exec s = some s') :
    Inv s' := by
  have hout : ∃ r : State, i.exec s = some r ∧ SameFat s r ∧ Counts r := by
    cases i with
    | extend beyond beyond' fuel cluster =>
      obtain ⟨r, hr, h⟩ := extendchain_counts beyond beyond' I.sound
        I.type hv.1 hv.2 I.counts
      exact ⟨r.1, by rw [ChainOp.exec, hr]; rfl, h⟩
    | remove beyond fuel cluster =>
      obtain ⟨l, hl, hmarked, hfuel⟩ := hv
      obtain ⟨r, hr, h⟩ := removechain_counts beyond I.sound I.type hl hmarked
        hfuel I.counts
      exact ⟨r.1, by rw [ChainOp.exec, hr]; rfl, h⟩
  obtain ⟨r, hr, hsame, hcount⟩ := hout
  rw [he] at hr
  cases hr
  exact ⟨hsame.sound, hsame.type.symm ▸ I.type, hcount⟩

theorem counts_run {init : State} (I : Inv init) {t : State}
    (h : Reachable chainMachine (fun t => t = init) t) : Inv t := by
  refine Reach.invariant (fun s (hs : s = init) => hs.symm ▸ I) ?_ h
  intro s i s' I hv _ he
  exact I.step hv he

end

section

variable {s : State} {freecount nxtfree : Nat}

/-- The signature is put with the bytes of its high half only, and in the other order than it is
taken. -/
theorem fsinfoSector_unsigned (beyond size freecount nxtfree : Nat) (p : Sector) :
    fsiGetleadsig (fsinfoSector beyond size freecount nxtfree p) ≠ 0x41615252 := by
  have h2 : fsinfoSector beyond size freecount nxtfree p 2 = 0x61 := by
    simp [fsinfoSector, fatPutuint32, fatPutuint16, ubytePut]
  have h3 : fsinfoSector beyond size freecount nxtfree p 3 = 0x41 := by
    simp [fsinfoSector, fatPutuint32, fatPutuint16, ubytePut]
  have h0 := (fsinfoSector beyond size freecount nxtfree p 0).toNat_lt
  unfold fsiGetleadsig fatGetuint32 fatGetuint16
  rw [h2, h3, show (0x61 : UInt8).toNat = 0x61 from rfl, show (0x41 : UInt8).toNat = 0x41 from rfl]
  omega

theorem not_readBack (h32 : s.fs.fsType = .fat32) (beyond : Nat) :
    ¬ ReadBack freecount nxtfree
      (fatUpdatefsinfo beyond none none (setCounts freecount nxtfree s)).1 := by
  obtain ⟨c, hfs⟩ := flush_fs (setCounts freecount nxtfree s)
  have hcond : (fatFscacheflush none (setCounts freecount nxtfree s)).2 = true ∧
      (fatFscacheflush none (setCounts freecount nxtfree s)).1.fs.fsType = .fat32 ∧
      (fatFscacheflush none (setCounts freecount nxtfree s)).1.fs.fsFsidirty = true := by
    rw [hfs]
    exact ⟨flush_none_ok _, h32, rfl⟩
  obtain ⟨s₁, hs₁⟩ : ∃ s₁, s₁ = setFsinfo beyond
      (fatFscacheflush none (setCounts freecount nxtfree s)).1 := ⟨_, rfl⟩
  have hdirty : s₁.fs.fsDirty = true := by rw [hs₁]; rfl
  have hcurrent : s₁.fs.fsCurrentsector = s₁.fs.fsFsinfo := by rw [hs₁]; rfl
  obtain ⟨-, -, hdev, -⟩ := flush_none hdirty
  obtain ⟨c', hfs'⟩ := flush_fs s₁
  have hwritten : (fatUpdatefsinfo beyond none none (setCounts freecount nxtfree s)).1 =
      { (fatFscacheflush none s₁).1 with
        fs := { (fatFscacheflush none s₁).1.fs with fsFsidirty := false } } := by
    unfold fatUpdatefsinfo
    dsimp only
    rw [if_pos hcond, ← hs₁]
  have hsector : (fatFscacheflush none s₁).1.dev s₁.fs.fsFsinfo = s₁.fs.fsBuffer := by
    rw [hdev, ← hcurrent]
    exact if_pos List.mem_cons_self
  intro hread
  rw [hwritten] at hread
  let m : State :=
    { fs :=
        { s₁.fs with
          fsCurrentsector := s₁.fs.fsFsinfo + 1
          fsDirty := false }
      dev := (fatFscacheflush none s₁).1.dev
      written := [] }
  have hsig := (hread m rfl (by dsimp only; rw [hfs']; rfl) rfl (Nat.succ_ne_self _)).1
  have hclean : m.fs.fsDirty = false := rfl
  have hbuffer : (fatFscacheread none none m.fs.fsFsinfo m).1.fs.fsBuffer = s₁.fs.fsBuffer := by
    unfold fatFscacheread
    rw [if_pos (Nat.succ_ne_self _), flush_clean hclean]
    exact hsector
  have hlead : fsiGetleadsig s₁.fs.fsBuffer ≠ 0x41615252 := by
    rw [hs₁]
    exact fsinfoSector_unsigned _ _ _ _ _
  unfold fatCheckfsinfo at hsig
  dsimp only at hsig
  rw [hbuffer, if_neg fun h => hlead h.1] at hsig
  cases hsig

end

section

variable {s : State}

/-- No entry that the scan of a FAT16 looks at is zero. -/
def ScansNone (s : State) : Prop :=
  ∀ k < s.fs.fsNclusters, scanned 2 fatGetuint16 s k ≠ 0

theorem scan_fat12 (hs : Sound s) (htype : s.fs.fsType = .fat12) :
    ∃ s', Reloaded s s' ∧ scan s = (s', freeCount s) := by
  obtain ⟨s', hs', hscan⟩ := @scan12_spec s s (s.fs.fsNclusters - 2) 2 0 (.refl hs)
    (Nat.le_refl 2) (fun i hi => by omega) htype
  refine ⟨s', hs', ?_⟩
  unfold scan
  rw [htype]
  dsimp only
  rw [hscan, Nat.zero_add]
  rfl

theorem scan_fat16 (hs : Sound s) (htype : s.fs.fsType = .fat16) :
    ∃ s' n, Reloaded s s' ∧ scan s = (s', n) ∧ (n = 0 ↔ ScansNone s) := by
  have hbase : wrap32 (s.fs.fsFatbase + 2 * (0 / (s.fs.fsHwsectorsize / 2))) = s.fs.fsFatbase := by
    have hfats := fat_end hs
    rw [Nat.zero_div, Nat.mul_zero, Nat.add_zero]
    exact wrap32_of_lt (by omega)
  have S : Standing 2 s 0 s.fs.fsFatbase s.fs.fsHwsectorsize s :=
    ⟨.refl hs, fun _ => ⟨rfl, hbase.symm⟩, fun h => absurd (Nat.dvd_zero _) h⟩
  obtain ⟨s', hs', hscan⟩ := @scanFat_spec s s 2 s.fs.fsNclusters 0 0 _ _ fatGetuint16 (.inl rfl) S
  have hall : scan s = (s', 0 + (List.range' 0 s.fs.fsNclusters).countP
      fun k => scanned 2 fatGetuint16 s k = 0) := by
    unfold scan
    rw [htype]
    exact hscan
  refine ⟨s', _, hs', hall, ?_⟩
  rw [Nat.zero_add, List.countP_eq_zero]
  constructor
  · intro h k hk
    have hno := h k (by rw [List.mem_range'_1]; omega)
    simpa using hno
  · intro h k hk
    rw [List.mem_range'_1] at hk
    simpa using h k (by omega)

theorem scan_zero (hs : Sound s) (htype : s.fs.fsType = .fat12 ∨ s.fs.fsType = .fat16)
    (hfree : freeCount s = 0) : ∃ s' n, Reloaded s s' ∧ scan s = (s', n) ∧
      (n = 0 ↔ s.fs.fsType = .fat12 ∨ ScansNone s) := by
  rcases htype with h | h
  · obtain ⟨s', hs', hscan⟩ := scan_fat12 hs h
    exact ⟨s', _, hs', hscan, fun _ => .inl h, fun _ => hfree⟩
  · obtain ⟨s', n, hs', hscan, hn⟩ := scan_fat16 hs h
    refine ⟨s', n, hs', hscan, hn.trans ⟨.inr, fun hor => hor.resolve_left ?_⟩⟩
    rw [h]
    decide

theorem nfreeclusters_inv (hs : Sound s) (htype : s.fs.fsType = .fat12 ∨ s.fs.fsType = .fat16)
    (hfree : freeCount s = 0) (hcount : (fatNfreeclusters s).2 = (0, 0)) :
    Inv (fatNfreeclusters s).1 := by
  unfold fatNfreeclusters at hcount ⊢
  split
  · rename_i hknown
    rw [if_pos hknown] at hcount
    have hzero : s.fs.fsFsifreecount = 0 := congrArg Prod.snd hcount
    exact ⟨hs, htype, .inr (hzero.trans hfree.symm)⟩
  · rename_i hknown
    rw [if_neg hknown] at hcount
    obtain ⟨s', n, hs', hscan, -⟩ := scan_zero hs htype hfree
    rw [hscan] at hcount ⊢
    have hzero : n = 0 := congrArg Prod.snd hcount
    obtain ⟨p, c, b, hfs⟩ := hs'.fs
    have C : Counted s' { s' with
        fs :=
          { s'.fs with
            fsFsifreecount := n
            fsFsidirty := s'.fs.fsFsidirty || s'.fs.fsType = .fat32 } } :=
      counted rfl ⟨n, s'.fs.fsFsinextfree, _, rfl⟩
    refine ⟨C.sound hs'.sound, ?_, .inr ?_⟩
    · rw [C.type, hfs]
      exact htype
    · refine hzero.trans (hfree.symm.trans (freeCount_same ?_ ?_).symm)
      · rw [C.nclusters, hfs]
      · intro d _
        rw [C.entry, hs'.entry]

theorem Right.freeCount_zero (R : Right s) : freeCount s = 0 := by
  have hstat := R.statfs
  unfold fatStatfs at hstat
  dsimp only at hstat
  rw [R.count] at hstat
  exact hstat.symm

end

def usedVolume : State :=
  { emptyVolume .fat12 with
    fs :=
      { (emptyVolume .fat12).fs with
        fsNclusters := 4
        fsFsifreecount := 0xffffffff
        fsBuffer := fun _ => 0xff }
    dev := fun _ _ => 0xff }

theorem usedVolume_sound : Sound usedVolume where
  cached _ := rfl
  current := Nat.two_pow_pos 32
  size := ⟨9, Nat.le_refl 9, rfl⟩
  type := by decide
  nclusters := by decide
  entries := by decide
  fats := (by decide : 1 + max 1 2 * 4 < 2 ^ 32)

end NuttxAvr32.Fat.FreeCount
