import NuttxAvr32.Lib.Apart

/-! # Holders of semaphores

A semaphore has one container of its own for a task that holds counts of it; the others
come from `g_holderalloc` and are linked behind it.
-/

namespace NuttxAvr32.Sem

open Apart
open Function (update update_self update_of_ne update_eq_self)

/-- `struct semholder_s` without its link; a holder that is `NULL` is `none`. -/
structure Semholder where
  holder : Option Nat
  counts : Int
deriving DecidableEq

/-- The container in a semaphore, or one of `g_holderalloc`. -/
inductive Container (ι : Type)
  | hlist (sem : ι)
  | pool (n : Nat)
deriving DecidableEq

/-- `flink` lists the containers behind the one in the semaphore. -/
structure Holders (ι : Type) where
  semholder : Container ι → Semholder
  gFreeholders : List Nat
  flink : ι → List Nat

section

variable {ι : Type} [DecidableEq ι]

def Holders.list (h : Holders ι) (sem : ι) : List (Container ι) :=
  .hlist sem :: (h.flink sem).map .pool

def Holders.set (h : Holders ι) (c : Container ι) (x : Semholder) : Holders ι :=
  { h with semholder := update h.semholder c x }

def semAllocholder (sem : ι) (h : Holders ι) : Option (Container ι × Holders ι) :=
  if (h.semholder (.hlist sem)).holder = none then
    some (.hlist sem, h.set (.hlist sem) { h.semholder (.hlist sem) with counts := 0 })
  else
    match h.gFreeholders with
    | [] => none
    | n :: rest =>
      let h' := { h with
        gFreeholders := rest
        flink := update h.flink sem (n :: h.flink sem) }
      some (.pool n, h'.set (.pool n) { h.semholder (.pool n) with counts := 0 })

def semFindholder (sem : ι) (htcb : Nat) (h : Holders ι) : Option (Container ι) :=
  (h.list sem).find? fun c => (h.semholder c).holder = some htcb

def semFindorallocateholder (sem : ι) (htcb : Nat) (h : Holders ι) :
    Option (Container ι × Holders ι) :=
  match semFindholder sem htcb h with
  | some c => some (c, h)
  | none => semAllocholder sem h

/-- A container that is not in the list of the semaphore is cleared all the same. -/
def semFreeholder (sem : ι) (c : Container ι) (h : Holders ι) : Holders ι :=
  let h := h.set c ⟨none, 0⟩
  match c with
  | .hlist _ => h
  | .pool n =>
    if n ∈ h.flink sem then
      { h with
        gFreeholders := n :: h.gFreeholders
        flink := update h.flink sem ((h.flink sem).erase n) }
    else h

def semAddholder (rtcb : Nat) (sem : ι) (h : Holders ι) : Holders ι :=
  match semFindorallocateholder sem rtcb h with
  | some (c, h) => h.set c ⟨some rtcb, (h.semholder c).counts + 1⟩
  | none => h

def semReleaseholder (rtcb : Nat) (sem : ι) (h : Holders ι) : Holders ι :=
  match semFindholder sem rtcb h with
  | some c =>
    if 0 < (h.semholder c).counts then
      h.set c { h.semholder c with counts := (h.semholder c).counts - 1 }
    else h
  | none => h

def semRestorebaseprio (rtcb : Nat) (sem : ι) (h : Holders ι) : Holders ι :=
  match semFindholder sem rtcb h with
  | some c => if (h.semholder c).counts ≤ 0 then semFreeholder sem c h else h
  | none => h

def semInitHolders (sem : ι) (h : Holders ι) : Holders ι :=
  { h with flink := update h.flink sem [] }.set (.hlist sem) ⟨none, 0⟩

def Holders.recorded (h : Holders ι) (sem : ι) (t : Nat) : Int :=
  (semFindholder sem t h).elim 0 fun c => (h.semholder c).counts

/-- Where a container of the pool is: in `g_freeholders` or behind a semaphore. -/
def Holders.places (h : Holders ι) : Option ι → List Nat
  | none => h.gFreeholders
  | some sem => h.flink sem

end

section

variable {ι : Type} [DecidableEq ι]

def Names (h : Holders ι) (sem : ι) (c : Container ι) (t : Nat) : Prop :=
  c ∈ h.list sem ∧ (h.semholder c).holder = some t

structure HoldersOk (size : Nat) (h : Holders ι) : Prop where
  apart : Apart h.places
  pool : ∀ n, n < size ↔ ∃ a, n ∈ h.places a
  idle : ∀ n ∈ h.gFreeholders, (h.semholder (.pool n)).holder = none
  once : ∀ sem t c d, Names h sem c t → Names h sem d t → c = d

variable {size : Nat} {h h' : Holders ι} {sem j : ι} {c d : Container ι} {t u n : Nat}
  {x : Semholder}

@[simp] theorem set_list (c : Container ι) (x : Semholder) : (h.set c x).list = h.list := rfl

@[simp] theorem set_places (c : Container ι) (x : Semholder) : (h.set c x).places = h.places := by
  funext a
  cases a <;> rfl

@[simp] theorem set_free (c : Container ι) (x : Semholder) :
    (h.set c x).gFreeholders = h.gFreeholders := rfl

theorem set_semholder (c : Container ι) (x : Semholder) (d : Container ι) :
    (h.set c x).semholder d = if d = c then x else h.semholder d := by
  by_cases hd : d = c
  · subst hd
    simp [Holders.set]
  · simp [Holders.set, hd]

theorem set_set (c : Container ι) (x y : Semholder) : (h.set c x).set c y = h.set c y := by
  simp [Holders.set]

omit [DecidableEq ι] in
theorem mem_list_pool : .pool n ∈ h.list sem ↔ n ∈ h.flink sem := by
  simp [Holders.list]

omit [DecidableEq ι] in
theorem mem_list_hlist : .hlist j ∈ h.list sem ↔ j = sem := by
  simp [Holders.list]

omit [DecidableEq ι] in
theorem HoldersOk.list_unique (W : HoldersOk size h) (hc : c ∈ h.list sem) (hd : c ∈ h.list j) :
    j = sem := by
  cases c with
  | hlist i => exact (mem_list_hlist.mp hd).symm.trans (mem_list_hlist.mp hc)
  | pool n =>
    have hp := W.apart.unique (some j) (some sem) n (mem_list_pool.mp hd) (mem_list_pool.mp hc)
    exact Option.some.inj hp

omit [DecidableEq ι] in
theorem HoldersOk.find_some (W : HoldersOk size h) :
    semFindholder sem t h = some c ↔ Names h sem c t := by
  unfold semFindholder
  constructor
  · intro hf
    have hd := List.find?_some hf
    exact ⟨List.mem_of_find?_eq_some hf, of_decide_eq_true hd⟩
  · intro hn
    cases hf : (h.list sem).find? fun c => (h.semholder c).holder = some t with
    | none => exact absurd (decide_eq_true hn.2) (List.find?_eq_none.mp hf c hn.1)
    | some d =>
      have hd := List.find?_some hf
      rw [W.once sem t d c ⟨List.mem_of_find?_eq_some hf, of_decide_eq_true hd⟩ hn]

omit [DecidableEq ι] in
theorem find_none : semFindholder sem t h = none ↔ ∀ c, ¬Names h sem c t := by
  unfold semFindholder
  rw [List.find?_eq_none]
  constructor
  · intro hf c hn
    exact hf c hn.1 (decide_eq_true hn.2)
  · intro hf c hc hd
    exact hf c ⟨hc, of_decide_eq_true hd⟩

omit [DecidableEq ι] in
theorem HoldersOk.recorded_some (W : HoldersOk size h) (hn : Names h sem c t) :
    h.recorded sem t = (h.semholder c).counts := by
  unfold Holders.recorded
  rw [W.find_some.mpr hn]
  rfl

omit [DecidableEq ι] in
theorem recorded_none (hn : ∀ c, ¬Names h sem c t) : h.recorded sem t = 0 := by
  unfold Holders.recorded
  rw [find_none.mpr hn]
  rfl

omit [DecidableEq ι] in
theorem HoldersOk.recorded_eq (W : HoldersOk size h) (W' : HoldersOk size h')
    (hn : ∀ c, Names h' sem c t ↔ Names h sem c t)
    (hc : ∀ c, Names h sem c t → (h'.semholder c).counts = (h.semholder c).counts) :
    h'.recorded sem t = h.recorded sem t := by
  by_cases he : ∃ c, Names h sem c t
  · obtain ⟨c, hnc⟩ := he
    rw [W.recorded_some hnc, W'.recorded_some ((hn c).mpr hnc), hc c hnc]
  · have hno : ∀ c, ¬Names h sem c t := fun c hnc => he ⟨c, hnc⟩
    rw [recorded_none hno, recorded_none fun c hnc => hno c ((hn c).mp hnc)]

/-- A container that names a task, or one that names nobody while no other of the list
names the task, is written. -/
theorem HoldersOk.write (W : HoldersOk size h) (hc : c ∈ h.list sem) (hx : x.holder = some t)
    (hold : (h.semholder c).holder = some t ∨
      (h.semholder c).holder = none ∧ ∀ d, ¬Names h sem d t) :
    HoldersOk size (h.set c x) ∧ (h.set c x).recorded sem t = x.counts ∧
      ∀ j u, ¬(j = sem ∧ u = t) → (h.set c x).recorded j u = h.recorded j u := by
  have hself : Names (h.set c x) sem c t := by
    refine ⟨hc, ?_⟩
    rw [set_semholder, if_pos rfl]
    exact hx
  have hback : ∀ j d u, Names (h.set c x) j d u → Names h j d u ∨ d = c ∧ j = sem ∧ u = t := by
    intro j d u hn
    obtain ⟨hd, hu⟩ := hn
    rw [set_semholder] at hu
    split at hu
    · rename_i hdc
      subst hdc
      rw [hx] at hu
      exact .inr ⟨rfl, W.list_unique hc hd, (Option.some.inj hu).symm⟩
    · exact .inl ⟨hd, hu⟩
  have W' : HoldersOk size (h.set c x) := by
    refine ⟨?_, ?_, fun n hn => ?_, fun j u d e hd he => ?_⟩
    · rw [set_places]
      exact W.apart
    · rw [set_places]
      exact W.pool
    · rw [set_semholder, if_neg]
      · exact W.idle n hn
      · intro hnc
        rw [← hnc] at hc
        have hp := W.apart.unique none (some sem) n hn (mem_list_pool.mp hc)
        cases hp
    · have hself' : ∀ e, Names h sem e t → e = c := by
        intro e he
        rcases hold with hold | hold
        · exact W.once sem t e c he ⟨hc, hold⟩
        · exact absurd he (hold.2 e)
      rcases hback j d u hd with hd' | ⟨hd', rfl, rfl⟩
      · rcases hback j e u he with he' | ⟨he', h1, h2⟩
        · exact W.once j u d e hd' he'
        · rw [h1, h2] at hd'
          exact (hself' d hd').trans he'.symm
      · rcases hback j e u he with he' | ⟨he', -, -⟩
        · exact hd'.trans (hself' e he').symm
        · exact hd'.trans he'.symm
  refine ⟨W', ?_, fun j u hju => ?_⟩
  · rw [W'.recorded_some hself, set_semholder, if_pos rfl]
  · apply W.recorded_eq W'
    · intro d
      constructor
      · intro hd
        rcases hback j d u hd with hd | ⟨-, h1, h2⟩
        · exact hd
        · exact absurd ⟨h1, h2⟩ hju
      · intro hd
        refine ⟨hd.1, ?_⟩
        rw [set_semholder, if_neg]
        · exact hd.2
        · intro hdc
          subst hdc
          have hu := hd.2
          rcases hold with hold | hold
          · rw [hold] at hu
            exact hju ⟨W.list_unique hc hd.1, (Option.some.inj hu).symm⟩
          · rw [hold.1] at hu
            cases hu
    · intro d hd
      rw [set_semholder, if_neg]
      intro hdc
      subst hdc
      have hu := hd.2
      rcases hold with hold | hold
      · rw [hold] at hu
        exact hju ⟨W.list_unique hc hd.1, (Option.some.inj hu).symm⟩
      · rw [hold.1] at hu
        cases hu

end

section

variable {ι : Type} [DecidableEq ι] {size : Nat} {h h' : Holders ι} {sem j : ι}
  {c d : Container ι} {t u n : Nat} {x : Semholder} {rest : List Nat}

theorem HoldersOk.link (sem : ι) (W : HoldersOk size h) (hf : h.gFreeholders = n :: rest)
    (hh : h' = { h with
      gFreeholders := rest
      flink := update h.flink sem (n :: h.flink sem) }) :
    HoldersOk size h' ∧ (∀ j d u, Names h' j d u ↔ Names h j d u) ∧
      ∀ j u, h'.recorded j u = h.recorded j u := by
  have hplaces : ∀ a, h'.places a =
      if a = none then rest else if a = some sem then n :: h.flink sem else h.places a := by
    intro a
    rw [hh]
    cases a with
    | none => rfl
    | some j =>
      show update h.flink sem (n :: h.flink sem) j = _
      by_cases hj : j = sem
      · subst hj
        simp
      · rw [update_of_ne hj]
        simp [hj]
        rfl
  have hholder : h'.semholder = h.semholder := by
    rw [hh]
  have hidle : (h.semholder (.pool n)).holder = none :=
    W.idle n (by rw [hf]; exact List.mem_cons_self)
  have hnames : ∀ j d u, Names h' j d u ↔ Names h j d u := by
    intro j d u
    unfold Names
    rw [hholder]
    constructor
    · rintro ⟨hd, hu⟩
      refine ⟨?_, hu⟩
      cases d with
      | hlist i => exact mem_list_hlist.mpr (mem_list_hlist.mp hd)
      | pool m =>
        have hm : m ∈ h'.places (some j) := mem_list_pool.mp hd
        rw [hplaces, if_neg (by simp)] at hm
        split at hm
        · rename_i hj
          cases hj
          rcases List.mem_cons.mp hm with rfl | hm
          · rw [hidle] at hu
            cases hu
          · exact mem_list_pool.mpr hm
        · exact mem_list_pool.mpr hm
    · rintro ⟨hd, hu⟩
      refine ⟨?_, hu⟩
      cases d with
      | hlist i => exact mem_list_hlist.mpr (mem_list_hlist.mp hd)
      | pool m =>
        apply mem_list_pool.mpr
        show m ∈ h'.places (some j)
        rw [hplaces, if_neg (by simp)]
        have hm := mem_list_pool.mp hd
        split
        · rename_i hj
          cases hj
          exact List.mem_cons_of_mem _ hm
        · exact hm
  have W' : HoldersOk size h' := by
    refine ⟨?_, fun m => ?_, fun m hm => ?_, fun j u d e hd he => ?_⟩
    · apply W.apart.move (a := none) (b := some sem) (x := n) (by simp)
      · rw [hplaces, if_pos rfl]
        show h.gFreeholders.Perm _
        rw [hf]
      · rw [hplaces, if_neg (by simp), if_pos rfl]
        exact List.Perm.refl _
      · intro a h1 h2
        rw [hplaces, if_neg h1, if_neg h2]
    · rw [W.pool]
      constructor
      · rintro ⟨a, ha⟩
        cases a with
        | none =>
          have ha' : m ∈ n :: rest := hf ▸ ha
          rcases List.mem_cons.mp ha' with rfl | ha'
          · refine ⟨some sem, ?_⟩
            rw [hplaces, if_neg (by simp), if_pos rfl]
            exact List.mem_cons_self
          · refine ⟨none, ?_⟩
            rw [hplaces, if_pos rfl]
            exact ha'
        | some j =>
          refine ⟨some j, ?_⟩
          rw [hplaces, if_neg (by simp)]
          split
          · rename_i hj
            cases hj
            exact List.mem_cons_of_mem _ ha
          · exact ha
      · rintro ⟨a, ha⟩
        rw [hplaces] at ha
        split at ha
        · exact ⟨none, by rw [Holders.places, hf]; exact List.mem_cons_of_mem _ ha⟩
        · split at ha
          · rcases List.mem_cons.mp ha with rfl | ha
            · exact ⟨none, by rw [Holders.places, hf]; exact List.mem_cons_self⟩
            · exact ⟨some sem, ha⟩
          · exact ⟨a, ha⟩
    · have hm' : m ∈ rest := by
        rw [hh] at hm
        exact hm
      rw [hholder]
      exact W.idle m (by rw [hf]; exact List.mem_cons_of_mem _ hm')
    · exact W.once j u d e ((hnames j d u).mp hd) ((hnames j e u).mp he)
  refine ⟨W', hnames, fun j u => ?_⟩
  apply W.recorded_eq W' fun d => hnames j d u
  intro d _
  rw [hholder]

theorem HoldersOk.semAddholder (W : HoldersOk size h)
    (hroom : (semFindorallocateholder sem t h).isSome) :
    HoldersOk size (semAddholder t sem h) ∧
      (semAddholder t sem h).recorded sem t = h.recorded sem t + 1 ∧
        ∀ j u, ¬(j = sem ∧ u = t) → (semAddholder t sem h).recorded j u = h.recorded j u := by
  unfold Sem.semAddholder
  unfold semFindorallocateholder at hroom ⊢
  cases hfind : semFindholder sem t h with
  | some c =>
    have hn := W.find_some.mp hfind
    rw [W.recorded_some hn]
    exact W.write hn.1 rfl (.inl hn.2)
  | none =>
    rw [hfind] at hroom
    have hno := find_none.mp hfind
    rw [recorded_none hno]
    dsimp only at hroom ⊢
    unfold semAllocholder at hroom ⊢
    by_cases hown : (h.semholder (.hlist sem)).holder = none
    · rw [if_pos hown]
      dsimp only
      rw [set_set, set_semholder, if_pos rfl]
      exact W.write (mem_list_hlist.mpr rfl) rfl (.inr ⟨hown, hno⟩)
    · rw [if_neg hown] at hroom ⊢
      cases hf : h.gFreeholders with
      | nil =>
        rw [hf] at hroom
        cases hroom
      | cons n rest =>
        dsimp only
        rw [set_set, set_semholder, if_pos rfl]
        obtain ⟨W1, hnames, hrec⟩ := W.link sem hf rfl
        have hidle : (h.semholder (.pool n)).holder = none :=
          W.idle n (by rw [hf]; exact List.mem_cons_self)
        have hlinked : .pool n ∈ ({ h with
            gFreeholders := rest
            flink := update h.flink sem (n :: h.flink sem) } : Holders ι).list sem := by
          apply mem_list_pool.mpr
          simp
        have hno' : ∀ d, ¬Names _ sem d t := fun d hd => hno d ((hnames sem d t).mp hd)
        obtain ⟨W2, hself, hother⟩ :=
          W1.write (x := ⟨some t, 0 + 1⟩) hlinked rfl (.inr ⟨hidle, hno'⟩)
        exact ⟨W2, hself, fun j u hju => (hother j u hju).trans (hrec j u)⟩

theorem HoldersOk.semReleaseholder (W : HoldersOk size h) (hpos : 0 < h.recorded sem t) :
    HoldersOk size (semReleaseholder t sem h) ∧
      (semReleaseholder t sem h).recorded sem t = h.recorded sem t - 1 ∧
        ∀ j u, ¬(j = sem ∧ u = t) → (semReleaseholder t sem h).recorded j u = h.recorded j u := by
  unfold Sem.semReleaseholder
  cases hfind : semFindholder sem t h with
  | some c =>
    have hn := W.find_some.mp hfind
    rw [W.recorded_some hn] at hpos ⊢
    dsimp only
    rw [if_pos hpos]
    exact W.write hn.1 hn.2 (.inl hn.2)
  | none =>
    rw [recorded_none (find_none.mp hfind)] at hpos
    omega

theorem HoldersOk.semFreeholder (W : HoldersOk size h) (hc : Names h sem c t) :
    HoldersOk size (semFreeholder sem c h) ∧ (semFreeholder sem c h).recorded sem t = 0 ∧
      ∀ j u, ¬(j = sem ∧ u = t) → (semFreeholder sem c h).recorded j u = h.recorded j u := by
  let h' := Sem.semFreeholder sem c h
  have hholder : ∀ d, h'.semholder d = if d = c then ⟨none, 0⟩ else h.semholder d := by
    intro d
    refine Eq.trans ?_ (set_semholder c ⟨none, 0⟩ d)
    show (Sem.semFreeholder sem c h).semholder d = _
    unfold Sem.semFreeholder
    cases c with
    | hlist i => rfl
    | pool n =>
      dsimp only
      split <;> rfl
  have hlist : ∀ j d, d ≠ c → (d ∈ h'.list j ↔ d ∈ h.list j) := by
    intro j d hdc
    show d ∈ (Sem.semFreeholder sem c h).list j ↔ _
    unfold Sem.semFreeholder
    cases c with
    | hlist i => rfl
    | pool n =>
      dsimp only
      split
      · cases d with
        | hlist i => rw [mem_list_hlist, mem_list_hlist]
        | pool m =>
          have hmn : m ≠ n := fun h => hdc (by rw [h])
          rw [mem_list_pool, mem_list_pool]
          show m ∈ update h.flink sem ((h.flink sem).erase n) j ↔ _
          by_cases hj : j = sem
          · subst hj
            rw [update_self, List.mem_erase_of_ne hmn]
          · rw [update_of_ne hj]
      · rfl
  have hnames : ∀ j d u, Names h' j d u ↔ Names h j d u ∧ d ≠ c := by
    intro j d u
    unfold Names
    rw [hholder]
    by_cases hdc : d = c
    · rw [if_pos hdc]
      simp [hdc]
    · rw [if_neg hdc, hlist j d hdc]
      simp [hdc]
  have W' : HoldersOk size h' := by
    have honce : ∀ j u d e, Names h' j d u → Names h' j e u → d = e := by
      intro j u d e hd he
      exact W.once j u d e ((hnames j d u).mp hd).1 ((hnames j e u).mp he).1
    cases c with
    | hlist i =>
      have hp : h'.places = h.places := set_places _ _
      refine ⟨?_, ?_, fun m hm => ?_, honce⟩
      · rw [hp]
        exact W.apart
      · rw [hp]
        exact W.pool
      · rw [hholder, if_neg (by simp)]
        exact W.idle m hm
    | pool n =>
      have hn : n ∈ h.flink sem := mem_list_pool.mp hc.1
      have hh : h' = { h.set (.pool n) ⟨none, 0⟩ with
          gFreeholders := n :: h.gFreeholders
          flink := update h.flink sem ((h.flink sem).erase n) } := if_pos hn
      have hplaces : ∀ a, h'.places a = if a = none then n :: h.gFreeholders
          else if a = some sem then (h.flink sem).erase n else h.places a := by
        intro a
        rw [hh]
        cases a with
        | none => rfl
        | some j =>
          show update h.flink sem ((h.flink sem).erase n) j = _
          by_cases hj : j = sem
          · subst hj
            simp
          · rw [update_of_ne hj]
            simp [hj]
            rfl
      refine ⟨?_, fun m => ?_, fun m hm => ?_, honce⟩
      · apply W.apart.move (a := some sem) (b := none) (x := n) (by simp)
        · rw [hplaces, if_neg (by simp), if_pos rfl]
          exact List.perm_cons_erase hn
        · rw [hplaces, if_pos rfl]
          exact List.Perm.refl _
        · intro a h1 h2
          rw [hplaces, if_neg h2, if_neg h1]
      · rw [W.pool]
        by_cases hmn : m = n
        · subst hmn
          constructor
          · intro _
            refine ⟨none, ?_⟩
            rw [hplaces, if_pos rfl]
            exact List.mem_cons_self
          · intro _
            exact ⟨some sem, hn⟩
        · apply exists_congr
          intro a
          rw [hplaces]
          cases a with
          | none =>
            rw [if_pos rfl]
            show m ∈ h.gFreeholders ↔ _
            simp [hmn]
          | some j =>
            rw [if_neg (by simp)]
            split
            · rename_i hj
              cases hj
              exact (List.mem_erase_of_ne hmn).symm
            · rfl
      · rw [hholder]
        split
        · rfl
        · rename_i hmn
          have hm' : m ∈ n :: h.gFreeholders := by
            rw [hh] at hm
            exact hm
          rcases List.mem_cons.mp hm' with rfl | hm'
          · exact absurd rfl hmn
          · exact W.idle m hm'
  refine ⟨W', ?_, fun j u hju => ?_⟩
  · apply recorded_none
    intro d hd
    obtain ⟨hd, hdc⟩ := (hnames sem d t).mp hd
    exact hdc (W.once sem t d c hd hc)
  · have hne : ∀ d, Names h j d u → d ≠ c := by
      rintro d hd rfl
      have hu := hd.2
      rw [hc.2] at hu
      exact hju ⟨W.list_unique hc.1 hd.1, (Option.some.inj hu).symm⟩
    apply W.recorded_eq W'
    · intro d
      rw [hnames]
      exact ⟨fun hd => hd.1, fun hd => ⟨hd, hne d hd⟩⟩
    · intro d hd
      rw [hholder, if_neg (hne d hd)]

theorem HoldersOk.semRestorebaseprio (W : HoldersOk size h) (hpos : 0 ≤ h.recorded sem t) :
    HoldersOk size (semRestorebaseprio t sem h) ∧
      ∀ j u, (semRestorebaseprio t sem h).recorded j u = h.recorded j u := by
  unfold Sem.semRestorebaseprio
  cases hfind : semFindholder sem t h with
  | none => exact ⟨W, fun _ _ => rfl⟩
  | some c =>
    have hn := W.find_some.mp hfind
    have hrec := W.recorded_some hn
    dsimp only
    split
    · obtain ⟨W', h0, hother⟩ := W.semFreeholder hn
      refine ⟨W', fun j u => ?_⟩
      by_cases hju : j = sem ∧ u = t
      · obtain ⟨rfl, rfl⟩ := hju
        omega
      · exact hother j u hju
    · exact ⟨W, fun _ _ => rfl⟩

theorem HoldersOk.semInitHolders (W : HoldersOk size h) (hf : h.flink sem = []) :
    HoldersOk size (semInitHolders sem h) ∧ (∀ t, (semInitHolders sem h).recorded sem t = 0) ∧
      ∀ j u, j ≠ sem → (semInitHolders sem h).recorded j u = h.recorded j u := by
  have hh : Sem.semInitHolders sem h = h.set (.hlist sem) ⟨none, 0⟩ := by
    unfold Sem.semInitHolders
    rw [← hf, update_eq_self]
  rw [hh]
  have hnames : ∀ j d u, Names (h.set (.hlist sem) ⟨none, 0⟩) j d u ↔
      Names h j d u ∧ d ≠ .hlist sem := by
    intro j d u
    unfold Names
    rw [set_semholder]
    by_cases hd : d = .hlist sem
    · rw [if_pos hd]
      simp [hd]
    · rw [if_neg hd]
      simp [hd]
  have W' : HoldersOk size (h.set (.hlist sem) ⟨none, 0⟩) := by
    refine ⟨?_, ?_, fun m hm => ?_, fun j u d e hd he => ?_⟩
    · rw [set_places]
      exact W.apart
    · rw [set_places]
      exact W.pool
    · rw [set_semholder, if_neg (by simp)]
      exact W.idle m hm
    · exact W.once j u d e ((hnames j d u).mp hd).1 ((hnames j e u).mp he).1
  refine ⟨W', fun t => ?_, fun j u hj => ?_⟩
  · apply recorded_none
    intro d hd
    obtain ⟨⟨hd, -⟩, hne⟩ := (hnames sem d t).mp hd
    unfold Holders.list at hd
    rw [hf] at hd
    exact hne (List.mem_singleton.mp hd)
  · have hne : ∀ d, Names h j d u → d ≠ .hlist sem := by
      rintro d hd rfl
      exact hj (mem_list_hlist.mp hd.1).symm
    apply W.recorded_eq W'
    · intro d
      rw [hnames]
      exact ⟨fun hd => hd.1, fun hd => ⟨hd, hne d hd⟩⟩
    · intro d hd
      rw [set_semholder, if_neg (hne d hd)]

/-! Only the list of the semaphore changes. -/

theorem semFreeholder_flink (hj : j ≠ sem) : (semFreeholder sem c h).flink j = h.flink j := by
  unfold semFreeholder
  cases c with
  | hlist i => rfl
  | pool n =>
    dsimp only
    split
    · exact update_of_ne hj _ _
    · rfl

theorem semRestorebaseprio_flink (hj : j ≠ sem) :
    (semRestorebaseprio t sem h).flink j = h.flink j := by
  unfold semRestorebaseprio
  split
  · split
    · exact semFreeholder_flink hj
    · rfl
  · rfl

theorem semReleaseholder_flink : (semReleaseholder t sem h).flink = h.flink := by
  unfold semReleaseholder
  split
  · split <;> rfl
  · rfl

theorem semAddholder_flink (hj : j ≠ sem) : (semAddholder t sem h).flink j = h.flink j := by
  unfold semAddholder semFindorallocateholder
  cases semFindholder sem t h with
  | some c => rfl
  | none =>
    unfold semAllocholder
    by_cases hown : (h.semholder (.hlist sem)).holder = none
    · rw [if_pos hown]
      rfl
    · rw [if_neg hown]
      cases h.gFreeholders with
      | nil => rfl
      | cons n rest => exact update_of_ne hj _ _

theorem semInitHolders_flink (hj : j ≠ sem) : (semInitHolders sem h).flink j = h.flink j :=
  update_of_ne hj _ _

end

end NuttxAvr32.Sem
