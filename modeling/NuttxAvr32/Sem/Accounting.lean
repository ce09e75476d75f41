import NuttxAvr32.Sem.Semaphore
import NuttxAvr32.Sem.Holders

/-! # Accounting of holders

Tasks call `sem_wait`, `sem_trywait` and `sem_post`, come and go. Between two of these
steps other tasks may run: a task that a post wakes registers as a holder when it runs
again, and `sem_restorebaseprio` may lower the priority of the task that posts.
-/

namespace NuttxAvr32.Sem

open Apart Runs
open Function (update update_self update_of_ne)

/-- What is left of a task's call: the wait, with `EINTR` or without once it has ended, or
the end of `sem_restorebaseprio`. -/
inductive Call (ι : Type)
  | blocked (sem : ι)
  | unblocked (sem : ι) (eintr : Bool)
  | posting (sem : ι)

def Call.sem {ι : Type} : Call ι → ι
  | blocked i => i
  | unblocked i _ => i
  | posting i => i

def Call.resumes {ι : Type} : Call ι → Bool
  | unblocked _ eintr => !eintr
  | _ => false

/-- `calls` has the innermost call first: a signal handler may call the functions as well.
`held` is the number of counts that a task has got less those that it has posted. -/
structure HolderSys (ι : Type) where
  sems : Sems ι
  created : List ι
  alive : Nat → Bool
  holders : Holders ι
  calls : Nat → List (Call ι)
  held : ι → Nat → Int

section

variable {ι : Type} [DecidableEq ι]

def HolderSys.setCalls (s : HolderSys ι) (t : Nat) (l : List (Call ι)) : HolderSys ι :=
  { s with calls := update s.calls t l }

/-- The task has got (`d = 1`) or posted (`d = -1`) a count. -/
def HolderSys.hold (s : HolderSys ι) (i : ι) (t : Nat) (d : Int) : HolderSys ι :=
  { s with
    held := update s.held i (update (s.held i) t (s.held i t + d)) }

/-- The task has got a count and calls `sem_addholder`. -/
def HolderSys.acquire (s : HolderSys ι) (i : ι) (t : Nat) : HolderSys ι :=
  { s.hold i t 1 with holders := semAddholder t i s.holders }

def HolderSys.unblock (s : HolderSys ι) (t : Nat) (eintr : Bool) : HolderSys ι :=
  match s.calls t with
  | .blocked i :: below => s.setCalls t (.unblocked i eintr :: below)
  | _ => s

def HolderSys.init (i : ι) (value : Nat) (s : HolderSys ι) : HolderSys ι :=
  if (value : Int) ≤ semValueMax then
    { s with
      sems := { s.sems with semcount := update s.sems.semcount i value }
      created := i :: s.created
      holders := semInitHolders i s.holders }
  else s

def HolderSys.create (t p : Nat) (s : HolderSys ι) : HolderSys ι :=
  { s with
    sems := taskCreate t p s.sems
    alive := update s.alive t true
    held := fun i => update (s.held i) t 0 }

def HolderSys.exit (t : Nat) (s : HolderSys ι) : HolderSys ι :=
  { s with alive := update s.alive t false }.setCalls t []

def HolderSys.wait (t : Nat) (i : ι) (s : HolderSys ι) : Option (HolderSys ι) :=
  (semWait t i s.sems).map fun r =>
    let s := { s with sems := r.1 }
    if r.2 then s.acquire i t else s.setCalls t (.blocked i :: s.calls t)

def HolderSys.resume (t : Nat) (s : HolderSys ι) : Option (HolderSys ι) :=
  match s.calls t with
  | .unblocked i eintr :: below =>
    let s := s.setCalls t below
    some (if eintr then s else s.acquire i t)
  | _ => none

def HolderSys.trywait (t : Nat) (i : ι) (s : HolderSys ι) : HolderSys ι :=
  let r := semTrywait t i s.sems
  let s := { s with sems := r.1 }
  if r.2 then s.hold i t 1 else s

def HolderSys.post (t : Nat) (i : ι) (s : HolderSys ι) : Option (HolderSys ι) :=
  (semPost i s.sems).map fun r =>
    let s := ({ s with
      sems := r.1
      holders := semReleaseholder t i s.holders }.hold i t (-1)).setCalls t
        (.posting i :: s.calls t)
    match r.2 with
    | some stcb => s.unblock stcb false
    | none => s

def HolderSys.restore (t : Nat) (s : HolderSys ι) : Option (HolderSys ι) :=
  match s.calls t with
  | .posting i :: below =>
    some ({ s with holders := semRestorebaseprio t i s.holders }.setCalls t below)
  | _ => none

def HolderSys.waitirq (t : Nat) (s : HolderSys ι) : Option (HolderSys ι) :=
  if t ∈ s.sems.gWaitingforsemaphore then
    (semWaitirq t s.sems).map fun r => { s with sems := r }.unblock t true
  else some s

/-- `stale` is the visit of a container with a stale TCB by `sem_boostholderprio` or
`sem_restoreholderprio`; other visits change priorities only, which `setpriority` does. -/
inductive HolderOp (ι : Type)
  | init (i : ι) (value : Nat)
  | create (t p : Nat)
  | exit (t : Nat)
  | wait (t : Nat) (i : ι)
  | resume (t : Nat)
  | trywait (t : Nat) (i : ι)
  | post (t : Nat) (i : ι)
  | restore (t : Nat)
  | waitirq (t : Nat)
  | stale (i : ι) (c : Container ι)
  | setpriority (t p : Nat)

namespace HolderOp

def exec : HolderOp ι → HolderSys ι → Option (HolderSys ι)
  | init i value, s => some (s.init i value)
  | create t p, s => some (s.create t p)
  | exit t, s => some (s.exit t)
  | wait t i, s => s.wait t i
  | resume t, s => s.resume t
  | trywait t i, s => some (s.trywait t i)
  | post t i, s => s.post t i
  | restore t, s => s.restore t
  | waitirq t, s => s.waitirq t
  | stale i c, s => some { s with holders := semFreeholder i c s.holders }
  | setpriority t p, s => some { s with sems := schedSetpriority t p s.sems }

/-- There is a container for the task: the pool is not exhausted. -/
def room (t : Nat) (i : ι) (s : HolderSys ι) : Prop :=
  (semFindorallocateholder i t s.holders).isSome = true

instance decidableRoom (t : Nat) (i : ι) (s : HolderSys ι) : Decidable (room t i s) :=
  inferInstanceAs (Decidable (_ = true))

def runs (s : HolderSys ι) (t : Nat) : Prop :=
  s.alive t = true ∧ t ∉ s.sems.gWaitingforsemaphore

instance decidableRuns (s : HolderSys ι) (t : Nat) : Decidable (runs s t) :=
  inferInstanceAs (Decidable (_ ∧ _))

/-- Semaphores are initialised once, before they are used, and posted by their holders. -/
def valid (s : HolderSys ι) : HolderOp ι → Prop
  | init i _ => i ∉ s.created
  | create t _ => s.alive t = false ∧ t ∉ s.sems.gWaitingforsemaphore
  | exit t => runs s t
  | wait t i => runs s t ∧ i ∈ s.created ∧ (0 < s.sems.semcount i → room t i s)
  | resume t => runs s t ∧ ∀ c ∈ (s.calls t).head?, c.resumes = true → room t c.sem s
  | trywait t i => runs s t ∧ i ∈ s.created
  | post t i => runs s t ∧ i ∈ s.created ∧ 0 < s.held i t
  | restore t => runs s t
  | stale i c => i ∈ s.created ∧ c ∈ s.holders.list i ∧
      ∃ t ∈ (s.holders.semholder c).holder, s.alive t = false
  | _ => True

/-- No `sem_trywait` takes a count, and no TCB is used again while a container names it. -/
def registers (s : HolderSys ι) : HolderOp ι → Prop
  | trywait _ i => s.sems.semcount i ≤ 0
  | create t _ => ∀ i ∈ s.created, ∀ c ∈ s.holders.list i,
      (s.holders.semholder c).holder ≠ some t
  | _ => True

instance decidableHolderValid (s : HolderSys ι) (i : HolderOp ι) : Decidable (i.valid s) := by
  cases i <;> (unfold valid; infer_instance)

instance decidableRegisters (s : HolderSys ι) (i : HolderOp ι) : Decidable (i.registers s) := by
  cases i <;> (unfold registers; infer_instance)

end HolderOp

def holderMachine (ι : Type) [DecidableEq ι] : Machine (HolderSys ι) (HolderOp ι) where
  valid s i := i.valid s
  exec s i := i.exec s

instance decidableHolderMachine (s : HolderSys ι) (i : HolderOp ι) :
    Decidable ((holderMachine ι).valid s i) := inferInstanceAs (Decidable (i.valid s))

/-- After `sem_initholders`, with `CONFIG_SEM_PREALLOCHOLDERS` containers. -/
structure HolderStart (size : Nat) (s : HolderSys ι) : Prop where
  created : s.created = []
  free : s.holders.gFreeholders = List.range size
  pool : ∀ n, s.holders.semholder (.pool n) = ⟨none, 0⟩
  flink : s.holders.flink = fun _ => []
  calls : s.calls = fun _ => []
  held : s.held = fun _ _ => 0

/-- The records are right, no task has two containers of one semaphore, and each container
of the pool is in one place. -/
structure HoldersCounted (size : Nat) (s : HolderSys ι) : Prop where
  counts : ∀ i ∈ s.created, ∀ t, s.alive t = true → s.holders.recorded i t = s.held i t
  once : ∀ i ∈ s.created, ∀ t, ∀ c ∈ s.holders.list i, ∀ d ∈ s.holders.list i,
    (s.holders.semholder c).holder = some t → (s.holders.semholder d).holder = some t → c = d
  apart : Apart s.holders.places
  pool : ∀ n, n < size ↔ ∃ a, n ∈ s.holders.places a

structure HolderInv (size : Nat) (s : HolderSys ι) : Prop where
  ok : HoldersOk size s.holders
  fresh : ∀ i, i ∉ s.created → s.holders.flink i = [] ∧ ∀ t, s.held i t = 0
  counts : ∀ i ∈ s.created, ∀ t, s.alive t = true → s.holders.recorded i t = s.held i t
  nonneg : ∀ i t, 0 ≤ s.held i t
  calls : ∀ t, ∀ c ∈ s.calls t, c.sem ∈ s.created

end

section

variable {ι : Type} [DecidableEq ι] {size : Nat} {s s' : HolderSys ι} {i j : ι} {t u : Nat}
  {d : Int} {h : Holders ι} {l : List (Call ι)}

theorem hold_held (d : Int) (j : ι) (u : Nat) :
    (s.hold i t d).held j u = if j = i ∧ u = t then s.held i t + d else s.held j u := by
  show update s.held i (update (s.held i) t (s.held i t + d)) j u = _
  by_cases hj : j = i
  · subst hj
    rw [update_self]
    by_cases hu : u = t
    · subst hu
      simp
    · simp [hu]
  · rw [update_of_ne hj, if_neg fun h => hj h.1]

omit [DecidableEq ι] in
theorem HolderInv.sems (H : HolderInv size s) (r : Sems ι) :
    HolderInv size { s with sems := r } := ⟨H.ok, H.fresh, H.counts, H.nonneg, H.calls⟩

omit [DecidableEq ι] in
theorem HolderInv.setCalls (H : HolderInv size s) (hl : ∀ c ∈ l, c.sem ∈ s.created) :
    HolderInv size (s.setCalls t l) := by
  refine ⟨H.ok, H.fresh, H.counts, H.nonneg, fun u c hc => ?_⟩
  have hc' : c ∈ update s.calls t l u := hc
  by_cases hu : u = t
  · subst hu
    rw [update_self] at hc'
    exact hl c hc'
  · rw [update_of_ne hu] at hc'
    exact H.calls u c hc'

omit [DecidableEq ι] in
theorem HolderInv.unblock (H : HolderInv size s) (eintr : Bool) :
    HolderInv size (s.unblock t eintr) := by
  unfold HolderSys.unblock
  split
  · rename_i i below hcalls
    have hold : ∀ c ∈ Call.blocked i :: below, c.sem ∈ s.created := by
      rw [← hcalls]
      exact H.calls t
    apply H.setCalls
    intro c hc
    rcases List.mem_cons.mp hc with rfl | hc
    · exact hold (.blocked i) List.mem_cons_self
    · exact hold c (List.mem_cons_of_mem _ hc)
  · exact H

theorem HolderInv.account (H : HolderInv size s) (hi : i ∈ s.created) (ok : HoldersOk size h)
    (hflink : ∀ j, j ≠ i → h.flink j = s.holders.flink j)
    (hrec : h.recorded i t = s.holders.recorded i t + d)
    (hother : ∀ j u, ¬(j = i ∧ u = t) → h.recorded j u = s.holders.recorded j u)
    (hd : 0 ≤ s.held i t + d) : HolderInv size { s.hold i t d with holders := h } := by
  refine ⟨ok, fun j hj => ?_, fun j hj u hu => ?_, fun j u => ?_, H.calls⟩
  · have hji : j ≠ i := fun h => hj (h ▸ hi)
    obtain ⟨h1, h2⟩ := H.fresh j hj
    refine ⟨(hflink j hji).trans h1, fun u => ?_⟩
    show (s.hold i t d).held j u = 0
    rw [hold_held, if_neg fun h => hji h.1]
    exact h2 u
  · show h.recorded j u = (s.hold i t d).held j u
    rw [hold_held]
    split
    · rename_i hju
      obtain ⟨rfl, rfl⟩ := hju
      rw [hrec, H.counts j hj u hu]
    · rename_i hju
      rw [hother j u hju]
      exact H.counts j hj u hu
  · show 0 ≤ (s.hold i t d).held j u
    rw [hold_held]
    split
    · exact hd
    · exact H.nonneg j u

theorem HolderInv.acquire (H : HolderInv size s) (hi : i ∈ s.created)
    (hroom : HolderOp.room t i s) : HolderInv size (s.acquire i t) := by
  obtain ⟨ok, hrec, hother⟩ := H.ok.semAddholder hroom
  have hn := H.nonneg i t
  exact H.account hi ok (fun j hj => semAddholder_flink hj) hrec hother (by omega)

theorem HolderInv.init {value : Nat} (H : HolderInv size s) (hi : i ∉ s.created) :
    HolderInv size (s.init i value) := by
  unfold HolderSys.init
  split
  · obtain ⟨hf, hheld⟩ := H.fresh i hi
    obtain ⟨ok, hzero, hother⟩ := H.ok.semInitHolders hf
    refine ⟨ok, fun j hj => ?_, fun j hj u hu => ?_, H.nonneg, fun u c hc => ?_⟩
    · have hji : j ≠ i := fun h => hj (h ▸ List.mem_cons_self)
      obtain ⟨h1, h2⟩ := H.fresh j fun h => hj (List.mem_cons_of_mem _ h)
      exact ⟨(semInitHolders_flink hji).trans h1, h2⟩
    · by_cases hji : j = i
      · subst hji
        exact (hzero u).trans (hheld u).symm
      · exact (hother j u hji).trans (H.counts j ((List.mem_cons.mp hj).resolve_left hji) u hu)
    · exact List.mem_cons_of_mem _ (H.calls u c hc)
  · exact H

omit [DecidableEq ι] in
theorem HolderInv.create {p : Nat} (H : HolderInv size s)
    (hk : (HolderOp.create t p : HolderOp ι).registers s) : HolderInv size (s.create t p) := by
  have hheld : ∀ j u, update (s.held j) t 0 u = if u = t then 0 else s.held j u := by
    intro j u
    by_cases hu : u = t
    · subst hu
      simp
    · simp [hu]
  refine ⟨H.ok, fun j hj => ?_, fun j hj u hu => ?_, fun j u => ?_, H.calls⟩
  · obtain ⟨h1, h2⟩ := H.fresh j hj
    refine ⟨h1, fun u => ?_⟩
    show update (s.held j) t 0 u = 0
    rw [hheld, h2]
    simp
  · show s.holders.recorded j u = update (s.held j) t 0 u
    rw [hheld]
    split
    · rename_i hut
      subst hut
      apply recorded_none
      intro c hc
      exact hk j hj c hc.1 hc.2
    · rename_i hut
      have hu' : update s.alive t true u = true := hu
      rw [update_of_ne hut] at hu'
      exact H.counts j hj u hu'
  · show 0 ≤ update (s.held j) t 0 u
    rw [hheld]
    split
    · exact le_refl _
    · exact H.nonneg j u

omit [DecidableEq ι] in
theorem HolderInv.exit (H : HolderInv size s) : HolderInv size (s.exit t) := by
  have H' : HolderInv size { s with alive := update s.alive t false } := by
    refine ⟨H.ok, H.fresh, fun j hj u hu => ?_, H.nonneg, H.calls⟩
    have hu' : update s.alive t false u = true := hu
    by_cases hut : u = t
    · rw [hut, update_self] at hu'
      cases hu'
    · rw [update_of_ne hut] at hu'
      exact H.counts j hj u hu'
  apply H'.setCalls
  intro c hc
  cases hc

theorem HolderInv.wait (H : HolderInv size s) (hi : i ∈ s.created)
    (hroom : 0 < s.sems.semcount i → HolderOp.room t i s)
    (he : s.wait t i = some s') : HolderInv size s' := by
  obtain ⟨⟨r, w⟩, hwait, hs⟩ := Option.map_eq_some_iff.mp he
  subst hs
  rcases semWait_cases hwait with ⟨rfl, hpos, -⟩ | ⟨rfl, -⟩
  · exact (H.sems r).acquire hi (hroom hpos)
  · apply (H.sems r).setCalls
    intro c hc
    rcases List.mem_cons.mp hc with rfl | hc
    · exact hi
    · exact H.calls t c hc

theorem HolderInv.resume (H : HolderInv size s)
    (hroom : ∀ c ∈ (s.calls t).head?, c.resumes = true → HolderOp.room t c.sem s)
    (he : s.resume t = some s') : HolderInv size s' := by
  unfold HolderSys.resume at he
  split at he
  · rename_i i eintr below hcalls
    cases he
    rw [hcalls] at hroom
    have hall : ∀ c ∈ Call.unblocked i eintr :: below, c.sem ∈ s.created := by
      rw [← hcalls]
      exact H.calls t
    have H' : HolderInv size (s.setCalls t below) :=
      H.setCalls fun c hc => hall c (List.mem_cons_of_mem _ hc)
    cases eintr with
    | true => exact H'
    | false => exact H'.acquire (hall _ List.mem_cons_self) (hroom _ rfl rfl)
  · cases he

theorem HolderInv.post (H : HolderInv size s) (hi : i ∈ s.created) (ha : s.alive t = true)
    (hpos : 0 < s.held i t) (he : s.post t i = some s') : HolderInv size s' := by
  obtain ⟨⟨r, w⟩, -, hs⟩ := Option.map_eq_some_iff.mp he
  have hrecorded := H.counts i hi t ha
  have hrecpos : 0 < s.holders.recorded i t := by omega
  obtain ⟨ok, hrec, hother⟩ := H.ok.semReleaseholder hrecpos
  have H1 : HolderInv size { (s.hold i t (-1)) with holders := semReleaseholder t i s.holders } :=
    H.account hi ok (fun j _ => by rw [semReleaseholder_flink]) hrec hother (by omega)
  have H2 := (H1.sems r).setCalls (t := t) (l := .posting i :: s.calls t) fun c hc => by
    rcases List.mem_cons.mp hc with rfl | hc
    · exact hi
    · exact H.calls t c hc
  cases w with
  | none =>
    cases hs
    exact H2
  | some u =>
    cases hs
    exact H2.unblock false

theorem HolderInv.restore (H : HolderInv size s) (ha : s.alive t = true)
    (he : s.restore t = some s') : HolderInv size s' := by
  unfold HolderSys.restore at he
  split at he
  · rename_i i below hcalls
    cases he
    have hall : ∀ c ∈ Call.posting i :: below, c.sem ∈ s.created := by
      rw [← hcalls]
      exact H.calls t
    have hi : i ∈ s.created := hall _ List.mem_cons_self
    have hn := H.nonneg i t
    rw [← H.counts i hi t ha] at hn
    obtain ⟨ok, hrec⟩ := H.ok.semRestorebaseprio hn
    have H' : HolderInv size { s with holders := semRestorebaseprio t i s.holders } := by
      refine ⟨ok, fun j hj => ?_, fun j hj u hu => ?_, H.nonneg, H.calls⟩
      · have hji : j ≠ i := fun h => hj (h ▸ hi)
        exact ⟨(semRestorebaseprio_flink hji).trans (H.fresh j hj).1, (H.fresh j hj).2⟩
      · exact (hrec j u).trans (H.counts j hj u hu)
    exact H'.setCalls fun c hc => hall c (List.mem_cons_of_mem _ hc)
  · cases he

theorem HolderInv.stale {c : Container ι} (H : HolderInv size s)
    (hv : (HolderOp.stale i c).valid s) :
    HolderInv size { s with holders := semFreeholder i c s.holders } := by
  obtain ⟨hi, hc, t, ht, hdead⟩ := hv
  obtain ⟨ok, -, hother⟩ := H.ok.semFreeholder ⟨hc, ht⟩
  refine ⟨ok, fun j hj => ?_, fun j hj u hu => ?_, H.nonneg, H.calls⟩
  · have hji : j ≠ i := fun h => hj (h ▸ hi)
    exact ⟨(semFreeholder_flink hji).trans (H.fresh j hj).1, (H.fresh j hj).2⟩
  · refine (hother j u ?_).trans (H.counts j hj u hu)
    rintro ⟨-, rfl⟩
    rw [hdead] at hu
    cases hu

theorem HolderInv.waitirq (H : HolderInv size s) (he : s.waitirq t = some s') :
    HolderInv size s' := by
  unfold HolderSys.waitirq at he
  split at he
  · obtain ⟨r, -, rfl⟩ := Option.map_eq_some_iff.mp he
    exact (H.sems r).unblock true
  · cases he
    exact H

theorem HolderInv.step {o : HolderOp ι} (H : HolderInv size s) (hv : o.valid s)
    (hk : o.registers s) (he : o.exec s = some s') : HolderInv size s' := by
  cases o with
  | init i value =>
    cases he
    exact H.init hv
  | create t p =>
    cases he
    exact H.create hk
  | exit t =>
    cases he
    exact H.exit
  | wait t i => exact H.wait hv.2.1 hv.2.2 he
  | resume t => exact H.resume hv.2 he
  | trywait t i =>
    have hle : ¬0 < s.sems.semcount i := Int.not_lt.mpr hk
    have hsame : s.trywait t i = s := by
      unfold HolderSys.trywait semTrywait
      rw [if_neg hle]
      rfl
    cases he
    rw [hsame]
    exact H
  | post t i => exact H.post hv.2.1 hv.1.1 hv.2.2 he
  | restore t => exact H.restore hv.1 he
  | waitirq t => exact H.waitirq he
  | stale i c =>
    cases he
    exact H.stale hv
  | setpriority t p =>
    cases he
    exact H.sems _

omit [DecidableEq ι] in
theorem HolderStart.inv (h : HolderStart size s) : HolderInv size s := by
  have hpool : ∀ j : ι, s.holders.list j = [.hlist j] := by
    intro j
    unfold Holders.list
    rw [h.flink]
    rfl
  have hplaces : ∀ a, s.holders.places a = if a = none then List.range size else [] := by
    intro a
    cases a with
    | none => exact h.free
    | some j =>
      show s.holders.flink j = _
      rw [h.flink]
      rfl
  refine ⟨⟨⟨fun a => ?_, fun a b n ha hb => ?_⟩, fun n => ?_, fun n _ => ?_,
    fun j u c d hc hd => ?_⟩, fun j _ => ?_, fun j hj => ?_, fun j u => ?_, fun u c hc => ?_⟩
  · rw [hplaces]
    split
    · exact List.nodup_range
    · exact List.nodup_nil
  · rw [hplaces] at ha hb
    split at ha
    · split at hb
      · rename_i h1 h2
        exact h1.trans h2.symm
      · cases hb
    · cases ha
  · constructor
    · intro hn
      refine ⟨none, ?_⟩
      rw [hplaces, if_pos rfl]
      exact List.mem_range.mpr hn
    · rintro ⟨a, ha⟩
      rw [hplaces] at ha
      split at ha
      · exact List.mem_range.mp ha
      · cases ha
  · rw [h.pool]
  · have h1 := hc.1
    have h2 := hd.1
    rw [hpool] at h1 h2
    exact (List.mem_singleton.mp h1).trans (List.mem_singleton.mp h2).symm
  · rw [h.flink, h.held]
    exact ⟨rfl, fun _ => rfl⟩
  · rw [h.created] at hj
    cases hj
  · rw [h.held]
  · rw [h.calls] at hc
    cases hc

omit [DecidableEq ι] in
theorem HolderInv.counted (H : HolderInv size s) : HoldersCounted size s where
  counts := H.counts
  once i _ t c hc d hd h1 h2 := H.ok.once i t c d ⟨hc, h1⟩ ⟨hd, h2⟩
  apart := H.ok.apart
  pool := H.ok.pool

end

/-- In every run in which no `sem_trywait` takes a count and no TCB is used again while a
container names it, the records are right and no container is lost or shared. -/
theorem holders_counted {ι : Type} [DecidableEq ι] {size : Nat} {s : HolderSys ι}
    (h : Reach (holderMachine ι) (HolderStart size) (fun s i => i.registers s) s) :
    HoldersCounted size s := by
  have H : HolderInv size s := by
    apply Reach.invariant (I := HolderInv size) _ _ h
    · exact fun s hs => hs.inv
    · exact fun s i s' H hv hk he => H.step hv hk he
  exact H.counted

def holderBoot : HolderSys Nat where
  sems := ⟨fun _ => 0, fun _ => none, [], fun _ => 100, fun _ => 0, 0⟩
  created := []
  alive _ := true
  holders := ⟨fun _ => ⟨none, 0⟩, List.range 8, fun _ => []⟩
  calls _ := []
  held _ _ := 0

theorem holderBoot_start : HolderStart 8 holderBoot where
  created := rfl
  free := rfl
  pool _ := rfl
  flink := rfl
  calls := rfl
  held := rfl

/-- Two tasks hold a semaphore, a third waits and gets the count of the first. -/
theorem holders_counted_run : ∃ s : HolderSys Nat, s.holders.recorded 7 2 = 0 ∧
    s.holders.recorded 7 3 = 1 ∧ s.holders.recorded 7 4 = 1 ∧ HoldersCounted 8 s := by
  have hr : ((runAll (holderMachine Nat) (fun s i => i.registers s) holderBoot
      [.init 7 2, .wait 2 7, .wait 3 7, .wait 4 7, .post 2 7, .restore 2, .resume 4]).any
        fun s => decide (s.holders.recorded 7 2 = 0 ∧ s.holders.recorded 7 3 = 1 ∧
          s.holders.recorded 7 4 = 1)) = true := by
    decide +kernel
  obtain ⟨s, hs, hd⟩ := (Option.any_eq_true _ _).mp hr
  obtain ⟨h1, h2, h3⟩ := of_decide_eq_true hd
  exact ⟨s, h1, h2, h3, holders_counted (Reach.runAll (.init holderBoot_start) hs)⟩

/-- `sem_trywait` takes a count and registers no holder. -/
theorem trywait_unrecorded : ¬∀ s : HolderSys Nat,
    Reachable (holderMachine Nat) (HolderStart 8) s → HoldersCounted 8 s := by
  intro hall
  have hr : ((runAll (holderMachine Nat) (fun _ _ => True) holderBoot
      [.init 7 1, .trywait 2 7]).any fun s =>
        decide (7 ∈ s.created ∧ s.alive 2 = true ∧
          ¬s.holders.recorded 7 2 = s.held 7 2)) = true := by
    decide +kernel
  obtain ⟨s, hs, hd⟩ := (Option.any_eq_true _ _).mp hr
  obtain ⟨h1, h2, h3⟩ := of_decide_eq_true hd
  exact h3 ((hall s (Reach.runAll (.init holderBoot_start) hs)).counts 7 h1 2 h2)

end NuttxAvr32.Sem
