import Mathlib.Algebra.Ring.Int.Defs
import NuttxAvr32.Lib.Keyed
import NuttxAvr32.Lib.Runs

/-! # Counting semaphores

The counts of the semaphores and `g_waitingforsemaphore`, with the fields of the task
control blocks that it depends on. Which of the tasks that do not wait runs next is left
open: a task that is not in the list may act at any time.
-/

namespace NuttxAvr32.Sem

open Keyed Runs
open Function (update update_self update_of_ne)

abbrev semValueMax : Int := 0x7fff

/-- `since` tells when a task came to its place in the list. -/
structure Sems (ι : Type) where
  semcount : ι → Int
  waitsem : Nat → Option ι
  gWaitingforsemaphore : List Nat
  schedPriority : Nat → Nat
  since : Nat → Nat
  clock : Nat

section

variable {ι : Type} [DecidableEq ι]

def Sems.count (s : Sems ι) (i : ι) (d : Int) : Sems ι :=
  { s with semcount := update s.semcount i (s.semcount i + d) }

def Sems.enter (s : Sems ι) (t : Nat) : Sems ι :=
  { s with
    gWaitingforsemaphore := insertKeyed s.schedPriority t s.gWaitingforsemaphore
    since := update s.since t s.clock
    clock := s.clock + 1 }

def Sems.remove (s : Sems ι) (t : Nat) : Sems ι :=
  { s with gWaitingforsemaphore := s.gWaitingforsemaphore.erase t }

def Sems.setWaitsem (s : Sems ι) (t : Nat) (w : Option ι) : Sems ι :=
  { s with waitsem := update s.waitsem t w }

/-- The part of `sem_wait` up to the wait; `true` when the task has the count already.
`none` is `PANIC(OSERR_BADWAITSEM)`. -/
def semWait (t : Nat) (i : ι) (s : Sems ι) : Option (Sems ι × Bool) :=
  if 0 < s.semcount i then some ((s.count i (-1)).setWaitsem t none, true)
  else if s.waitsem t ≠ none then none
  else some (((s.count i (-1)).setWaitsem t (some i)).enter t, false)

def semTrywait (t : Nat) (i : ι) (s : Sems ι) : Sems ι × Bool :=
  if 0 < s.semcount i then ((s.count i (-1)).setWaitsem t none, true) else (s, false)

/-- The task that was woken, if any; `none` is the assertion on `SEM_VALUE_MAX`. -/
def semPost (i : ι) (s : Sems ι) : Option (Sems ι × Option Nat) :=
  if s.semcount i < semValueMax then
    let s := s.count i 1
    if s.semcount i ≤ 0 then
      match s.gWaitingforsemaphore.find? fun t => s.waitsem t = some i with
      | some stcb => some ((s.setWaitsem stcb none).remove stcb, some stcb)
      | none => some (s, none)
    else some (s, none)
  else none

/-- The part of `sem_waitirq` after `sem_canceled`. `none` is `PANIC(OSERR_BADUNBLOCKSTATE)`. -/
def endWaitirq (wtcb : Nat) (i : ι) (s : Sems ι) : Option (Sems ι) :=
  if wtcb ∈ s.gWaitingforsemaphore then
    some (((s.count i 1).setWaitsem wtcb none).remove wtcb)
  else none

def semWaitirq (wtcb : Nat) (s : Sems ι) : Option (Sems ι) :=
  if wtcb ∈ s.gWaitingforsemaphore then
    match s.waitsem wtcb with
    | some i => endWaitirq wtcb i s
    | none => none
  else some s

def schedSetpriority (t p : Nat) (s : Sems ι) : Sems ι :=
  let s' := { s with schedPriority := update s.schedPriority t p }
  if t ∈ s.gWaitingforsemaphore then (s'.remove t).enter t else s'

def taskDelete (t : Nat) (s : Sems ι) : Sems ι := s.remove t

def taskRestart (t initPriority : Nat) (s : Sems ι) : Sems ι :=
  { s.remove t with schedPriority := update s.schedPriority t initPriority }

def pthreadCancel (t : Nat) (noncancelable : Bool) (s : Sems ι) : Sems ι :=
  if noncancelable then s else taskDelete t s

/-- A new TCB is filled with zeros. -/
def taskCreate (t p : Nat) (s : Sems ι) : Sems ι :=
  { s.setWaitsem t none with schedPriority := update s.schedPriority t p }

def waiters (s : Sems ι) (i : ι) : List Nat :=
  s.gWaitingforsemaphore.filter fun t => s.waitsem t = some i

end

section

variable {ι : Type} [DecidableEq ι]

structure CountLaw (s : Sems ι) : Prop where
  negative : ∀ i, s.semcount i < 0 → ((waiters s i).length : Int) = -s.semcount i
  nonnegative : ∀ i, 0 ≤ s.semcount i → waiters s i = []
  waiting : ∀ t i, s.waitsem t = some i → t ∈ s.gWaitingforsemaphore
  posts : ∀ i s' w, semPost i s = some (s', w) → (0 < s'.semcount i ∧ w = none) ∨
    ∃ t, w = some t ∧ t ∈ waiters s i ∧ t ∉ s'.gWaitingforsemaphore ∧ s'.waitsem t = none ∧
      ∀ u ∈ waiters s i, u ≠ t → Ahead s.schedPriority s.since t u

structure Law (s : Sems ι) : Prop where
  nodup : s.gWaitingforsemaphore.Nodup
  ordered : s.gWaitingforsemaphore.Pairwise (Ahead s.schedPriority s.since)
  recent : ∀ t ∈ s.gWaitingforsemaphore, s.since t < s.clock
  waits : ∀ t, t ∈ s.gWaitingforsemaphore ↔ s.waitsem t ≠ none
  counted : ∀ i, ((waiters s i).length : Int) = max 0 (-s.semcount i)

variable {s s' : Sems ι} {t p : Nat} {i j : ι}

theorem update_of_mem {β : Type} {f : Nat → β} {v : β} {l : List Nat} {u : Nat} (ht : t ∉ l)
    (hu : u ∈ l) : update f t v u = f u := by
  apply update_of_ne
  intro he
  exact ht (he ▸ hu)

theorem mem_waiters : t ∈ waiters s i ↔ t ∈ s.gWaitingforsemaphore ∧ s.waitsem t = some i := by
  unfold waiters
  rw [List.mem_filter, decide_eq_true_eq]

theorem count_semcount (d : Int) (j : ι) :
    (s.count i d).semcount j = s.semcount j + if j = i then d else 0 := by
  by_cases h : j = i
  · subst h
    simp [Sems.count]
  · simp [Sems.count, h]

theorem waiters_enter (ht : t ∉ s.gWaitingforsemaphore) (j : ι) :
    (waiters ((s.setWaitsem t (some i)).enter t) j).length =
      (waiters s j).length + if j = i then 1 else 0 := by
  have hp : (waiters ((s.setWaitsem t (some i)).enter t) j).Perm
      ((t :: s.gWaitingforsemaphore).filter fun u => update s.waitsem t (some i) u = some j) :=
    (insertKeyed_perm _ _ _).filter _
  have hrest : s.gWaitingforsemaphore.filter
      (fun u => update s.waitsem t (some i) u = some j) = waiters s j := by
    apply List.filter_congr
    intro u hu
    rw [update_of_mem ht hu]
  rw [hp.length_eq]
  by_cases h : j = i
  · subst h
    rw [List.filter_cons_of_pos (by simp), hrest, if_pos rfl, List.length_cons]
  · rw [List.filter_cons_of_neg (by simpa using fun h' => h h'.symm), hrest, if_neg h, Nat.add_zero]

theorem waiters_leave (hn : s.gWaitingforsemaphore.Nodup) (ht : t ∈ s.gWaitingforsemaphore)
    (hw : s.waitsem t = some i) (j : ι) :
    (waiters ((s.setWaitsem t none).remove t) j).length + (if j = i then 1 else 0) =
      (waiters s j).length := by
  have hnot : t ∉ s.gWaitingforsemaphore.erase t := fun h => (hn.mem_erase_iff.mp h).1 rfl
  have hrest : waiters ((s.setWaitsem t none).remove t) j =
      (s.gWaitingforsemaphore.erase t).filter fun u => s.waitsem u = some j := by
    apply List.filter_congr
    intro u hu
    show decide (update s.waitsem t none u = some j) = _
    rw [update_of_mem hnot hu]
  have hp : (waiters s j).Perm ((t :: s.gWaitingforsemaphore.erase t).filter
      fun u => s.waitsem u = some j) := (List.perm_cons_erase ht).filter _
  rw [hp.length_eq, hrest]
  by_cases h : j = i
  · subst h
    rw [List.filter_cons_of_pos (by simp [hw]), if_pos rfl, List.length_cons]
  · rw [List.filter_cons_of_neg (by simpa [hw] using fun h' => h h'.symm), if_neg h, Nat.add_zero]

theorem Law.enter (L : Law s) (ht : t ∉ s.gWaitingforsemaphore) (hi : s.semcount i ≤ 0) :
    Law (((s.count i (-1)).setWaitsem t (some i)).enter t) where
  nodup := insertKeyed_nodup L.nodup ht
  ordered := by
    apply insertKeyed_ahead
    · exact pairwise_ahead_congr (fun _ _ => rfl) (fun y hy => update_of_mem ht hy) L.ordered
    · intro y hy
      show update s.since t s.clock y < update s.since t s.clock t
      rw [update_of_mem ht hy, update_self]
      exact L.recent y hy
  recent u hu := by
    show update s.since t s.clock u < s.clock + 1
    rcases mem_insertKeyed.mp hu with rfl | hu
    · rw [update_self]
      exact Nat.lt_succ_self _
    · rw [update_of_mem ht hu]
      exact Nat.lt_succ_of_lt (L.recent u hu)
  waits u := by
    show u ∈ insertKeyed s.schedPriority t s.gWaitingforsemaphore ↔
      update s.waitsem t (some i) u ≠ none
    rw [mem_insertKeyed]
    by_cases h : u = t
    · subst h
      simp
    · rw [update_of_ne h, L.waits u]
      simp [h]
  counted j := by
    have h := waiters_enter (s := s.count i (-1)) (i := i) ht j
    have hc := L.counted j
    have hw : waiters (s.count i (-1)) j = waiters s j := rfl
    rw [hw] at h
    show (((waiters _ j).length : Nat) : Int) = max 0 (-(s.count i (-1)).semcount j)
    rw [h, count_semcount]
    by_cases hj : j = i
    · subst hj
      rw [if_pos rfl, if_pos rfl]
      push_cast
      omega
    · rw [if_neg hj, if_neg hj, Int.add_zero, Nat.add_zero]
      exact hc

theorem Law.leave (L : Law s) (hw : s.waitsem t = some i) :
    Law (((s.count i 1).setWaitsem t none).remove t) where
  nodup := L.nodup.erase _
  ordered := L.ordered.sublist List.erase_sublist
  recent u hu := L.recent u (List.mem_of_mem_erase hu)
  waits u := by
    show u ∈ s.gWaitingforsemaphore.erase t ↔ update s.waitsem t none u ≠ none
    rw [L.nodup.mem_erase_iff]
    by_cases h : u = t
    · subst h
      simp
    · rw [update_of_ne h, L.waits u]
      simp [h]
  counted j := by
    have ht : t ∈ s.gWaitingforsemaphore := (L.waits t).mpr (by rw [hw]; simp)
    have h := waiters_leave (s := s.count i 1) L.nodup ht hw j
    have hc := L.counted j
    have hci := L.counted i
    have hpos : 0 < (waiters s i).length :=
      List.length_pos_of_mem (mem_waiters.mpr ⟨ht, hw⟩)
    have hs : waiters (s.count i 1) j = waiters s j := rfl
    rw [hs] at h
    show (((waiters _ j).length : Nat) : Int) = max 0 (-(s.count i 1).semcount j)
    rw [count_semcount]
    by_cases hj : j = i
    · subst hj
      rw [if_pos rfl] at h ⊢
      omega
    · rw [if_neg hj] at h ⊢
      rw [Int.add_zero]
      omega

theorem Law.count (L : Law s) (d : Int) (hi : 0 ≤ s.semcount i) (hd : 0 ≤ s.semcount i + d)
    (ht : t ∉ s.gWaitingforsemaphore) : Law ((s.count i d).setWaitsem t none) where
  nodup := L.nodup
  ordered := L.ordered
  recent := L.recent
  waits u := by
    show u ∈ s.gWaitingforsemaphore ↔ update s.waitsem t none u ≠ none
    by_cases h : u = t
    · subst h
      simp [ht]
    · rw [update_of_ne h]
      exact L.waits u
  counted j := by
    have hw : waiters ((s.count i d).setWaitsem t none) j = waiters s j := by
      apply List.filter_congr
      intro u hu
      show decide (update s.waitsem t none u = some j) = _
      rw [update_of_mem ht hu]
    show (((waiters _ j).length : Nat) : Int) = max 0 (-(s.count i d).semcount j)
    rw [hw, L.counted j, count_semcount]
    by_cases hj : j = i
    · subst hj
      rw [if_pos rfl]
      omega
    · rw [if_neg hj, Int.add_zero]

theorem Law.of_empty (hw : s.waitsem = fun _ => none) (hl : s.gWaitingforsemaphore = [])
    (hc : ∀ i, 0 ≤ s.semcount i) : Law s := by
  refine ⟨?_, ?_, fun v hv => ?_, fun v => ?_, fun i => ?_⟩
  · rw [hl]
    exact List.nodup_nil
  · rw [hl]
    exact List.Pairwise.nil
  · rw [hl] at hv
    cases hv
  · rw [hl, hw]
    simp
  · have hnone : waiters s i = [] := by
      unfold waiters
      rw [hl]
      rfl
    have h := hc i
    rw [hnone, List.length_nil, Nat.cast_zero]
    omega

theorem semWait_cases {b : Bool} (he : Sem.semWait t i s = some (s', b)) :
    (b = true ∧ 0 < s.semcount i ∧ s' = (s.count i (-1)).setWaitsem t none) ∨
      (b = false ∧ s.semcount i ≤ 0 ∧ s.waitsem t = none ∧
        s' = ((s.count i (-1)).setWaitsem t (some i)).enter t) := by
  unfold Sem.semWait at he
  split at he
  · cases he
    exact .inl ⟨rfl, by assumption, rfl⟩
  · split at he
    · cases he
    · rename_i hle hw
      cases he
      exact .inr ⟨rfl, by omega, not_not.mp hw, rfl⟩

theorem Law.running (L : Law s) (hw : s.waitsem t = none) : t ∉ s.gWaitingforsemaphore := by
  rw [L.waits t, hw]
  simp

theorem Law.waiting_neg (L : Law s) (hw : s.waitsem t = some i) :
    t ∈ s.gWaitingforsemaphore ∧ s.semcount i < 0 := by
  have ht : t ∈ s.gWaitingforsemaphore := (L.waits t).mpr (by rw [hw]; simp)
  have hpos : 0 < (waiters s i).length := List.length_pos_of_mem (mem_waiters.mpr ⟨ht, hw⟩)
  have hc := L.counted i
  exact ⟨ht, by omega⟩

theorem Law.semWait {b : Bool} (L : Law s) (ht : t ∉ s.gWaitingforsemaphore)
    (he : Sem.semWait t i s = some (s', b)) : Law s' := by
  unfold Sem.semWait at he
  split at he
  · cases he
    exact L.count _ (by omega) (by omega) ht
  · split at he
    · cases he
    · cases he
      exact L.enter ht (by omega)

theorem Law.semTrywait {b : Bool} (L : Law s) (ht : t ∉ s.gWaitingforsemaphore)
    (he : Sem.semTrywait t i s = (s', b)) : Law s' := by
  unfold Sem.semTrywait at he
  split at he
  · cases he
    exact L.count _ (by omega) (by omega) ht
  · cases he
    exact L

theorem Law.semPost_cases {w : Option Nat} (L : Law s) (he : semPost i s = some (s', w)) :
    (0 ≤ s.semcount i ∧ w = none ∧ s' = s.count i 1) ∨
      ∃ t, w = some t ∧ s.waitsem t = some i ∧ s.semcount i < 0 ∧
        s' = ((s.count i 1).setWaitsem t none).remove t ∧
          ∀ u ∈ waiters s i, u ≠ t → Ahead s.schedPriority s.since t u := by
  unfold semPost at he
  split at he
  · dsimp only at he
    have hc : (s.count i 1).semcount i = s.semcount i + 1 := by
      rw [count_semcount, if_pos rfl]
    split at he
    · rename_i hle
      have hneg : s.semcount i < 0 := by omega
      split at he
      · rename_i t hfind
        cases he
        have hwt : s.waitsem t = some i := by
          have h := List.find?_some hfind
          exact of_decide_eq_true h
        refine .inr ⟨t, rfl, hwt, hneg, rfl, fun u hu hne => ?_⟩
        have hpw : (waiters s i).Pairwise (Ahead s.schedPriority s.since) := L.ordered.filter _
        have hhead : (waiters s i).head? = some t := by
          unfold waiters
          rw [List.head?_filter]
          exact hfind
        cases hl : waiters s i with
        | nil =>
            rw [hl] at hu
            cases hu
        | cons a l =>
            rw [hl] at hhead hpw hu
            cases hhead
            rcases List.mem_cons.mp hu with rfl | hu
            · exact absurd rfl hne
            · exact (List.pairwise_cons.mp hpw).1 u hu
      · rename_i hfind
        exfalso
        have hempty : waiters s i = [] := by
          apply List.filter_eq_nil_iff.mpr
          intro u hu
          exact List.find?_eq_none.mp hfind u hu
        have hcount := L.counted i
        rw [hempty] at hcount
        simp only [List.length_nil, Nat.cast_zero] at hcount
        omega
    · rename_i hgt
      cases he
      exact .inl ⟨by omega, rfl, rfl⟩
  · cases he

theorem Law.semPost {w : Option Nat} (L : Law s) (he : Sem.semPost i s = some (s', w)) :
    Law s' := by
  rcases L.semPost_cases he with ⟨h0, -, rfl⟩ | ⟨t, -, hw, -, rfl, -⟩
  · refine ⟨L.nodup, L.ordered, L.recent, L.waits, fun j => ?_⟩
    show (((waiters s j).length : Nat) : Int) = _
    rw [L.counted j, count_semcount]
    by_cases hj : j = i
    · subst hj
      rw [if_pos rfl]
      omega
    · rw [if_neg hj, Int.add_zero]
  · exact L.leave hw

theorem Law.endWaitirq (L : Law s) (hw : s.waitsem t = some i)
    (he : Sem.endWaitirq t i s = some s') : Law s' := by
  unfold Sem.endWaitirq at he
  split at he
  · cases he
    exact L.leave hw
  · cases he

theorem Law.semWaitirq (L : Law s) (he : Sem.semWaitirq t s = some s') : Law s' := by
  unfold Sem.semWaitirq at he
  split at he
  · split at he
    · rename_i i hw
      exact L.endWaitirq hw he
    · cases he
  · cases he
    exact L

theorem Law.setPrio (L : Law s) (ht : t ∉ s.gWaitingforsemaphore) :
    Law { s with schedPriority := update s.schedPriority t p } where
  nodup := L.nodup
  ordered := by
    apply pairwise_ahead_congr _ (fun _ _ => rfl) L.ordered
    exact fun y hy => update_of_mem ht hy
  recent := L.recent
  waits := L.waits
  counted := L.counted

theorem Law.schedSetpriority (L : Law s) : Law (Sem.schedSetpriority t p s) := by
  unfold Sem.schedSetpriority
  dsimp only
  split
  · rename_i ht
    have hn : t ∉ s.gWaitingforsemaphore.erase t := fun h => (L.nodup.mem_erase_iff.mp h).1 rfl
    have hp : (insertKeyed (update s.schedPriority t p) t
        (s.gWaitingforsemaphore.erase t)).Perm s.gWaitingforsemaphore :=
      (insertKeyed_perm _ _ _).trans (List.perm_cons_erase ht).symm
    refine ⟨hp.nodup_iff.mpr L.nodup, ?_, fun u hu => ?_, fun u => ?_, fun j => ?_⟩
    · apply insertKeyed_ahead
      · apply pairwise_ahead_congr _ _ (L.ordered.sublist List.erase_sublist)
        · exact fun y hy => update_of_mem hn hy
        · exact fun y hy => update_of_mem hn hy
      · intro y hy
        show update s.since t s.clock y < update s.since t s.clock t
        rw [update_of_mem hn hy, update_self]
        exact L.recent y (List.mem_of_mem_erase hy)
    · show update s.since t s.clock u < s.clock + 1
      by_cases h : u = t
      · subst h
        rw [update_self]
        exact Nat.lt_succ_self _
      · rw [update_of_ne h]
        exact Nat.lt_succ_of_lt (L.recent u (hp.mem_iff.mp hu))
    · exact (hp.mem_iff (a := u)).trans (L.waits u)
    · have hl : (waiters (({ s with schedPriority := update s.schedPriority t p } :
          Sems ι).remove t |>.enter t) j).length = (waiters s j).length := (hp.filter _).length_eq
      rw [hl]
      exact L.counted j
  · rename_i ht
    exact L.setPrio ht

theorem Law.remove (L : Law s) (ht : t ∉ s.gWaitingforsemaphore) : Law (s.remove t) := by
  have hs : s.remove t = s := by
    unfold Sems.remove
    rw [List.erase_of_not_mem ht]
  rw [hs]
  exact L

theorem Law.taskRestart (L : Law s) (ht : t ∉ s.gWaitingforsemaphore) :
    Law (Sem.taskRestart t p s) := by
  apply (L.remove ht).setPrio
  exact fun h => ht (List.mem_of_mem_erase h)

theorem Law.pthreadCancel {nc : Bool} (L : Law s) (h : nc = true ∨ t ∉ s.gWaitingforsemaphore) :
    Law (Sem.pthreadCancel t nc s) := by
  unfold Sem.pthreadCancel
  split
  · exact L
  · rename_i hn
    exact L.remove (h.resolve_left hn)

theorem Law.taskCreate (L : Law s) (ht : t ∉ s.gWaitingforsemaphore) :
    Law (Sem.taskCreate t p s) := by
  have L' : Law (s.setWaitsem t none) := by
    refine ⟨L.nodup, L.ordered, L.recent, fun u => ?_, fun j => ?_⟩
    · show u ∈ s.gWaitingforsemaphore ↔ update s.waitsem t none u ≠ none
      by_cases h : u = t
      · subst h
        simp [ht]
      · rw [update_of_ne h]
        exact L.waits u
    · have hw : waiters (s.setWaitsem t none) j = waiters s j := by
        apply List.filter_congr
        intro u hu
        show decide (update s.waitsem t none u = some j) = _
        rw [update_of_mem ht hu]
      rw [hw]
      exact L.counted j
  exact L'.setPrio ht

theorem Law.countLaw (L : Law s) : CountLaw s where
  negative i hi := by
    rw [L.counted i]
    omega
  nonnegative i hi := by
    have h := L.counted i
    apply List.eq_nil_of_length_eq_zero
    omega
  waiting t i hw := (L.waits t).mpr (by rw [hw]; simp)
  posts i s' w he := by
    rcases L.semPost_cases he with ⟨h0, rfl, rfl⟩ | ⟨t, rfl, hw, -, rfl, hall⟩
    · left
      rw [count_semcount, if_pos rfl]
      exact ⟨by omega, rfl⟩
    · right
      have ht : t ∈ s.gWaitingforsemaphore := (L.waits t).mpr (by rw [hw]; simp)
      refine ⟨t, rfl, mem_waiters.mpr ⟨ht, hw⟩, ?_, update_self _ _ _, hall⟩
      exact fun h => (L.nodup.mem_erase_iff.mp h).1 rfl

end

end NuttxAvr32.Sem
