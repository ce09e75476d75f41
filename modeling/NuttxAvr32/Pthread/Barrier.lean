import Mathlib.Algebra.Ring.Nat
import NuttxAvr32.Pthread.Mutex

/-! # Barriers

`pthread_barrier_wait` holds the scheduler's lock, so other threads come in only while a
thread waits for the semaphore. Signals may end such a wait at any time, also between two
posts of the thread that releases the others.
-/

namespace NuttxAvr32.Pthread.Barrier

open Runs Sem
open Function (update update_self update_of_ne)

/-- A thread in `sem_wait`; `number` counts the arrivals at the barrier before it. -/
structure Waiting where
  barrier : Nat
  number : Nat
  state : WaitState
deriving DecidableEq

/-- The thread that posts until the semaphore is at zero. -/
structure Release where
  thread : Nat
  barrier : Nat
  number : Nat
deriving DecidableEq

/-- `results` lists the numbers of the arrivals that returned, with `true` for
`PTHREAD_BARRIER_SERIAL_THREAD`; `inside` lists the threads that wait or have to return. -/
structure Sys where
  sems : Sems Nat
  count : Nat → Nat
  call : Nat → Option Waiting
  releaser : Option Release
  arrivals : Nat → Nat
  inside : Nat → List Nat
  results : Nat → List (Nat × Bool)

def ret (b k : Nat) (serial : Bool) (s : Sys) : Sys :=
  { s with results := update s.results b (s.results b ++ [(k, serial)]) }

def leave (t b k : Nat) (s : Sys) : Sys :=
  ret b k false
    { s with
      call := update s.call t none
      inside := update s.inside b ((s.inside b).erase t) }

def barrierTake (t b k : Nat) (s : Sys) : Option Sys :=
  (semWait t b s.sems).map fun r =>
    let s := { s with sems := r.1 }
    if r.2 then leave t b k s
    else { s with call := update s.call t (some ⟨b, k, .waiting⟩) }

/-- `1 - semcount >= barrier->count`; the comparison is one of unsigned numbers. -/
def complete (b : Nat) (s : Sys) : Bool := (s.count b : Int) ≤ (1 - s.sems.semcount b) % 2 ^ 32

def pthreadBarrierWait (t b : Nat) (s : Sys) : Option Sys :=
  let k := s.arrivals b
  let entered := { s with arrivals := update s.arrivals b (k + 1) }
  if complete b s then some { entered with releaser := some ⟨t, b, k⟩ }
  else barrierTake t b k { entered with inside := update s.inside b (t :: s.inside b) }

/-- A turn of the loop that posts, or the return. -/
def releaseStep (r : Release) (s : Sys) : Option Sys :=
  if s.sems.semcount r.barrier < 0 then
    (semPost r.barrier s.sems).map fun p =>
      match p.2 with
      | none => { s with sems := p.1 }
      | some u =>
          { s with
            sems := p.1
            call := update s.call u
              ((s.call u).map fun c => { c with state := .granted }) }
  else some (ret r.barrier r.number true { s with releaser := none })

def waitStep (t : Nat) (c : Waiting) (s : Sys) : Option Sys :=
  if c.state = .interrupted then barrierTake t c.barrier c.number s
  else some (leave t c.barrier c.number s)

def waitirq (t : Nat) (s : Sys) : Option Sys :=
  if t ∈ s.sems.gWaitingforsemaphore then
    (semWaitirq t s.sems).map fun r =>
      { s with
        sems := r
        call := update s.call t
          ((s.call t).map fun c => { c with state := .interrupted }) }
  else some s

inductive Op
  | arrive (t b : Nat)
  | step (t : Nat)
  | release
  | waitirq (t : Nat)
  | setpriority (t p : Nat)
deriving DecidableEq

def Op.exec : Op → Sys → Option Sys
  | .arrive t b, s => pthreadBarrierWait t b s
  | .step t, s => (s.call t).bind fun c => waitStep t c s
  | .release, s => s.releaser.bind fun r => releaseStep r s
  | .waitirq t, s => Barrier.waitirq t s
  | .setpriority t p, s => some { s with sems := schedSetpriority t p s.sems }

/-- Threads act while no release holds the scheduler's lock. -/
def Op.valid (s : Sys) : Op → Prop
  | .arrive t _ => s.releaser = none ∧ s.call t = none
  | .step t => s.releaser = none ∧ t ∉ s.sems.gWaitingforsemaphore
  | _ => True

instance decidableBarrierValid (s : Sys) (i : Op) : Decidable (i.valid s) := by
  cases i <;> (unfold Op.valid; infer_instance)

def barrierMachine : Machine Sys Op where
  valid s i := i.valid s
  exec s i := i.exec s

instance decidableBarrierMachineValid (s : Sys) (i : Op) : Decidable (barrierMachine.valid s i) :=
  inferInstanceAs (Decidable (i.valid s))

structure BarrierStart (s : Sys) : Prop where
  count : ∀ b, 1 ≤ s.count b ∧ s.count b < 2 ^ 32
  semcount : ∀ b, s.sems.semcount b = 0
  waitsem : s.sems.waitsem = fun _ => none
  waiting : s.sems.gWaitingforsemaphore = []
  call : s.call = fun _ => none
  releaser : s.releaser = none
  arrivals : s.arrivals = fun _ => 0
  inside : s.inside = fun _ => []
  results : s.results = fun _ => []

def Waiting.blocked (c : Waiting) : Bool := c.state ≠ .granted

/-- The threads that arrived at the barrier and have not been released. -/
def Sys.blocked (s : Sys) (b : Nat) : List Nat :=
  (s.inside b).filter fun t => (s.call t).any Waiting.blocked

def Sys.releasing (s : Sys) (b : Nat) : Bool := s.releaser.any fun r => r.barrier = b

def Sys.generation (s : Sys) (b k : Nat) : Nat := k / s.count b

structure BarrierCorrect (s : Sys) : Prop where
  inside : ∀ t c, s.call t = some c → t ∈ s.inside c.barrier
  blocked : ∀ b, (s.blocked b).length < s.count b
  released : ∀ t c, s.call t = some c → s.releasing c.barrier = false →
    (c.state = .granted ↔
      s.generation c.barrier c.number < s.generation c.barrier (s.arrivals c.barrier))
  returns : ∀ b k serial, (k, serial) ∈ s.results b →
    (serial = true ↔ (k + 1) % s.count b = 0) ∧
      s.generation b k < s.generation b (s.arrivals b)
  once : ∀ b, ((s.results b).map Prod.fst).Nodup
  restored : ∀ b, s.releasing b = false → s.arrivals b % s.count b = 0 → s.sems.semcount b = 0

/-- When the last thread of a generation arrives, none of the others is on its way from an
interrupted wait to the next, and no wait is interrupted during a release. -/
def Op.meets (s : Sys) : Op → Prop
  | .arrive _ b => (s.arrivals b + 1) % s.count b = 0 →
      ∀ t ∈ s.inside b, ∀ c ∈ s.call t, c.state ≠ .interrupted
  | .waitirq t => ∀ c ∈ s.call t, s.releasing c.barrier = false
  | _ => True

instance decidableMeets (s : Sys) : ∀ i : Op, Decidable (i.meets s)
  | .arrive _ b => inferInstanceAs (Decidable ((s.arrivals b + 1) % s.count b = 0 →
      ∀ t ∈ s.inside b, ∀ c ∈ s.call t, c.state ≠ .interrupted))
  | .waitirq t => inferInstanceAs (Decidable (∀ c ∈ s.call t, s.releasing c.barrier = false))
  | .step _ => inferInstanceAs (Decidable True)
  | .release => inferInstanceAs (Decidable True)
  | .setpriority _ _ => inferInstanceAs (Decidable True)

/-- Where a thread with its number stands: released in a generation that is complete, or
blocked in the last one. -/
def Waiting.Placed (c : Waiting) (s : Sys) : Prop :=
  if c.state = .granted then
    c.number / s.count c.barrier < s.arrivals c.barrier / s.count c.barrier
  else if s.releasing c.barrier then
    c.number / s.count c.barrier + 1 = s.arrivals c.barrier / s.count c.barrier
  else c.number / s.count c.barrier = s.arrivals c.barrier / s.count c.barrier

structure Inv (s : Sys) : Prop where
  law : Law s.sems
  atMost : ∀ b, s.sems.semcount b ≤ 0
  counts : ∀ b, 1 ≤ s.count b ∧ s.count b < 2 ^ 32
  waits : ∀ t, s.sems.waitsem t =
    (s.call t).bind fun c => if c.state = .waiting then some c.barrier else none
  members : ∀ b t, t ∈ s.inside b ↔ ∃ c, s.call t = some c ∧ c.barrier = b
  nodup : ∀ b, (s.inside b).Nodup
  few : ∀ b, (s.blocked b).length < s.count b
  counted : ∀ b, s.releasing b = false → (s.blocked b).length = s.arrivals b % s.count b
  release : ∀ r, s.releaser = some r → s.arrivals r.barrier % s.count r.barrier = 0 ∧
    r.number + 1 = s.arrivals r.barrier ∧ r.number ∉ (s.results r.barrier).map Prod.fst ∧
      ∀ t c, s.call t = some c → c.barrier = r.barrier → c.state ≠ .interrupted
  placed : ∀ t c, s.call t = some c → c.Placed s
  numbers : ∀ t c, s.call t = some c → c.number < s.arrivals c.barrier ∧
    (c.number + 1) % s.count c.barrier ≠ 0 ∧
      c.number ∉ (s.results c.barrier).map Prod.fst
  distinct : ∀ t u c d, s.call t = some c → s.call u = some d → c.barrier = d.barrier →
    c.number = d.number → t = u
  returns : ∀ b k serial, (k, serial) ∈ s.results b →
    (serial = true ↔ (k + 1) % s.count b = 0) ∧ k / s.count b < s.arrivals b / s.count b
  once : ∀ b, ((s.results b).map Prod.fst).Nodup

section

variable {s s' : Sys} {t u b k : Nat} {c d : Waiting} {r : Sems Nat}

theorem Inv.waiting_iff (I : Inv s) : s.sems.waitsem t = some b ↔
    ∃ c, s.call t = some c ∧ c.barrier = b ∧ c.state = .waiting := by
  rw [I.waits t]
  constructor
  · intro h
    obtain ⟨c, hc, hw⟩ := Option.bind_eq_some_iff.mp h
    split at hw
    · rename_i hst
      cases hw
      exact ⟨c, hc, rfl, hst⟩
    · cases hw
  · rintro ⟨c, hc, rfl, hst⟩
    rw [hc, Option.bind_some, if_pos hst]

theorem Inv.mem_waiters (I : Inv s) : t ∈ waiters s.sems b ↔
    ∃ c, s.call t = some c ∧ c.barrier = b ∧ c.state = .waiting := by
  rw [Sem.mem_waiters, ← I.waiting_iff]
  constructor
  · exact fun h => h.2
  · exact fun h => ⟨(I.law.waiting_neg h).1, h⟩

theorem Inv.mem_blocked (I : Inv s) : t ∈ s.blocked b ↔
    ∃ c, s.call t = some c ∧ c.barrier = b ∧ c.state ≠ .granted := by
  unfold Sys.blocked
  rw [List.mem_filter, I.members]
  constructor
  · rintro ⟨⟨c, hc, hb⟩, hs⟩
    rw [hc] at hs
    exact ⟨c, hc, hb, of_decide_eq_true hs⟩
  · rintro ⟨c, hc, hb, hs⟩
    refine ⟨⟨c, hc, hb⟩, ?_⟩
    rw [hc]
    exact decide_eq_true hs

theorem Inv.waiters_le (I : Inv s) (b : Nat) :
    (waiters s.sems b).length ≤ (s.blocked b).length := by
  apply List.Subperm.length_le
  apply List.subperm_of_subset (I.law.nodup.filter _)
  intro t ht
  obtain ⟨c, hc, hb, hst⟩ := I.mem_waiters.mp ht
  refine I.mem_blocked.mpr ⟨c, hc, hb, ?_⟩
  rw [hst]
  simp

/-- If no wait is interrupted, the blocked threads are those that wait for the semaphore. -/
theorem Inv.blocked_waiters (I : Inv s)
    (h : ∀ t c, s.call t = some c → c.barrier = b → c.state ≠ .interrupted) :
    (s.blocked b).length = (waiters s.sems b).length := by
  apply List.Perm.length_eq
  apply (List.perm_ext_iff_of_nodup ((I.nodup b).filter _) (I.law.nodup.filter _)).mpr
  intro t
  refine I.mem_blocked.trans (Iff.trans ?_ I.mem_waiters.symm)
  constructor
  · rintro ⟨c, hc, hb, hs⟩
    refine ⟨c, hc, hb, ?_⟩
    have hi := h t c hc hb
    cases hst : c.state with
    | waiting => rfl
    | interrupted => exact absurd hst hi
    | granted => exact absurd hst hs
  · rintro ⟨c, hc, hb, hs⟩
    refine ⟨c, hc, hb, ?_⟩
    rw [hs]
    simp

theorem Inv.semcount_eq (I : Inv s) (b : Nat) :
    -s.sems.semcount b = (waiters s.sems b).length := by
  have h := I.law.counted b
  have := I.atMost b
  omega

theorem Inv.complete_iff (I : Inv s) (b : Nat) :
    complete b s = true ↔ s.count b ≤ 1 + (waiters s.sems b).length := by
  have h := I.semcount_eq b
  have h1 := I.waiters_le b
  have h2 := I.few b
  have h3 := (I.counts b).2
  have hsmall : (1 - s.sems.semcount b) % 2 ^ 32 = 1 + ((waiters s.sems b).length : Int) := by
    rw [Int.emod_eq_of_lt (by omega) (by omega)]
    omega
  unfold complete
  rw [decide_eq_true_eq, hsmall]
  omega

theorem Inv.complete_last (I : Inv s) (hrel : s.releasing b = false)
    (hm : (s.arrivals b + 1) % s.count b = 0 →
      ∀ t ∈ s.inside b, ∀ c ∈ s.call t, c.state ≠ .interrupted) :
    complete b s = true ↔ (s.arrivals b + 1) % s.count b = 0 := by
  have h1 := I.waiters_le b
  have h2 := I.counted b hrel
  have h3 := (I.counts b).1
  have hmod := Nat.mod_lt (s.arrivals b) (show 0 < s.count b by omega)
  rw [I.complete_iff]
  have hlast : (s.arrivals b + 1) % s.count b = 0 ↔ s.arrivals b % s.count b + 1 = s.count b := by
    rw [Nat.add_mod]
    by_cases h1 : s.count b = 1
    · rw [h1]
      omega
    · rw [Nat.mod_eq_of_lt (show 1 < s.count b by omega)]
      by_cases h : s.arrivals b % s.count b + 1 = s.count b
      · rw [h, Nat.mod_self]
        simp
      · rw [Nat.mod_eq_of_lt (by omega)]
        omega
  rw [hlast]
  constructor
  · intro h
    omega
  · intro h
    have hb : (s.blocked b).length = (waiters s.sems b).length := by
      apply I.blocked_waiters
      intro t c hc hb
      exact hm (hlast.mpr h) t ((I.members b t).mpr ⟨c, hc, hb⟩) c hc
    omega

end

section

variable {s s' : Sys} {t u b k : Nat} {c d : Waiting} {r : Sems Nat} {w : WaitState}

theorem call_update (x : Option Waiting) (v : Nat) :
    update s.call t x v = if v = t then x else s.call v := by
  by_cases h : v = t
  · subst h
    simp
  · simp [h]

theorem Inv.restate (I : Inv s) (hc : s.call t = some c) (hst : c.state ≠ .granted)
    (hw : w ≠ .granted ∨ s.releasing c.barrier = true)
    (hi : w = .interrupted → s.releasing c.barrier = false) (hlaw : Law r)
    (hmost : ∀ b, r.semcount b ≤ 0)
    (hws : r.waitsem =
      update s.sems.waitsem t (if w = .waiting then some c.barrier else none)) :
    Inv { s with
      sems := r
      call := update s.call t (some { c with state := w }) } := by
  let s' : Sys := { s with
    sems := r
    call := update s.call t (some { c with state := w }) }
  have hcall : ∀ v, s'.call v = if v = t then some { c with state := w } else s.call v :=
    call_update _
  have hback : ∀ v e, s'.call v = some e → ∃ e', s.call v = some e' ∧
      e'.barrier = e.barrier ∧ e'.number = e.number ∧ (v ≠ t → e' = e) ∧ (v = t → e.state = w) := by
    intro v e he
    rw [hcall] at he
    split at he
    · rename_i hv
      cases he
      exact ⟨c, hv ▸ hc, rfl, rfl, fun h => absurd hv h, fun _ => rfl⟩
    · rename_i hv
      exact ⟨e, he, rfl, rfl, fun _ => rfl, fun h => absurd h hv⟩
  have hblocked : ∀ b, (s'.blocked b).Sublist (s.blocked b) := by
    intro b
    apply List.monotone_filter_right
    intro v hv
    rw [hcall] at hv
    split at hv
    · rename_i h
      rw [h, hc]
      exact decide_eq_true hst
    · exact hv
  refine ⟨hlaw, hmost, I.counts, fun v => ?_, fun b v => ?_, I.nodup, fun b => ?_, fun b hb => ?_,
    fun x hx => ?_, fun v e he => ?_, fun v e he => ?_, fun v v' e e' he he' hb hn => ?_,
    I.returns, I.once⟩
  · show r.waitsem v = (s'.call v).bind _
    rw [hws, hcall]
    by_cases hv : v = t
    · subst hv
      rw [update_self, if_pos rfl]
      rfl
    · rw [update_of_ne hv, if_neg hv]
      exact I.waits v
  · show v ∈ s.inside b ↔ _
    rw [I.members]
    constructor
    · rintro ⟨e, he, hb⟩
      by_cases hv : v = t
      · subst hv
        rw [hc] at he
        cases he
        exact ⟨{ c with state := w }, (hcall v).trans (if_pos rfl), hb⟩
      · exact ⟨e, (hcall v).trans ((if_neg hv).trans he), hb⟩
    · rintro ⟨e, he, hb⟩
      obtain ⟨e', he', hb', -⟩ := hback v e he
      exact ⟨e', he', hb'.trans hb⟩
  · exact (hblocked b).length_le.trans_lt (I.few b)
  · have hrel : s.releasing b = false := hb
    rw [← I.counted b hrel]
    apply congrArg List.length
    apply List.filter_congr
    intro v hv
    rw [hcall]
    split
    · rename_i h
      have hbc : c.barrier = b := by
        obtain ⟨e, he, hb⟩ := (I.members b v).mp hv
        rw [h, hc] at he
        cases he
        exact hb
      have hwg : w ≠ .granted := by
        rcases hw with hw | hw
        · exact hw
        · rw [hbc, hrel] at hw
          cases hw
      rw [h, hc]
      exact (decide_eq_true hwg).trans (decide_eq_true hst).symm
    · rfl
  · obtain ⟨h1, h2, h3, h4⟩ := I.release x hx
    refine ⟨h1, h2, h3, fun v e he hb => ?_⟩
    obtain ⟨e', he', hb', -, hother, hself⟩ := hback v e he
    by_cases hv : v = t
    · rw [hself hv]
      intro hwi
      have hno := hi hwi
      subst hv
      rw [hc] at he'
      cases he'
      have hyes : s.releasing c.barrier = true := by
        unfold Sys.releasing
        rw [hx]
        exact decide_eq_true (hb.symm.trans hb'.symm)
      rw [hno] at hyes
      cases hyes
    · rw [← hother hv]
      exact h4 v e' he' (hb'.trans hb)
  · rw [hcall] at he
    split at he
    · cases he
      have hp := I.placed t c hc
      unfold Waiting.Placed at hp ⊢
      rw [if_neg hst] at hp
      show if w = .granted then c.number / s.count c.barrier < s.arrivals c.barrier / s.count c.barrier
        else if s.releasing c.barrier = true then
          c.number / s.count c.barrier + 1 = s.arrivals c.barrier / s.count c.barrier
        else c.number / s.count c.barrier = s.arrivals c.barrier / s.count c.barrier
      split
      · rename_i hwg
        rw [if_pos (hw.resolve_left (not_not.mpr hwg))] at hp
        omega
      · exact hp
    · exact I.placed v e he
  · obtain ⟨e', he', hb', hn', -⟩ := hback v e he
    have h := I.numbers v e' he'
    rw [hb', hn'] at h
    exact h
  · obtain ⟨f, hf, hfb, hfn, -⟩ := hback v e he
    obtain ⟨f', hf', hfb', hfn', -⟩ := hback v' e' he'
    exact I.distinct v v' f f' hf hf' (hfb.trans (hb.trans hfb'.symm)) (hfn.trans (hn.trans hfn'.symm))

end

section

variable {s s' : Sys} {t u b k : Nat} {c d : Waiting} {r : Sems Nat} {w : WaitState}

theorem not_releasing (h : s.releaser = none) (b : Nat) : s.releasing b = false := by
  unfold Sys.releasing
  rw [h]
  rfl

theorem update_at {β : Type} (f : Nat → β) (b : Nat) (x : β) (q : Nat) :
    update f b x q = if q = b then x else f q := by
  by_cases h : q = b
  · subst h
    simp
  · simp [h]

theorem Inv.leave (I : Inv s) (hr : s.releaser = none) (hc : s.call t = some c)
    (hst : c.state = .granted) : Inv (leave t c.barrier c.number s) := by
  have hrel := not_releasing hr
  have hcall : ∀ v, (Barrier.leave t c.barrier c.number s).call v =
      if v = t then none else s.call v := call_update none
  have hinside : ∀ q, (Barrier.leave t c.barrier c.number s).inside q =
      if q = c.barrier then (s.inside q).erase t else s.inside q := by
    intro q
    refine (update_at s.inside c.barrier _ q).trans ?_
    split
    · rename_i h
      rw [h]
    · rfl
  have hresults : ∀ q, (Barrier.leave t c.barrier c.number s).results q =
      if q = c.barrier then s.results q ++ [(c.number, false)] else s.results q := by
    intro q
    refine (update_at s.results c.barrier _ q).trans ?_
    split
    · rename_i h
      rw [h]
    · rfl
  have hback : ∀ v e, (Barrier.leave t c.barrier c.number s).call v = some e →
      v ≠ t ∧ s.call v = some e := by
    intro v e he
    rw [hcall] at he
    split at he
    · cases he
    · rename_i h
      exact ⟨h, he⟩
  have hwt : s.sems.waitsem t = none := by
    rw [I.waits t, hc, Option.bind_some, if_neg (by rw [hst]; simp)]
  have hblocked : ∀ q, (Barrier.leave t c.barrier c.number s).blocked q = s.blocked q := by
    intro q
    have hsame : ∀ l : List Nat, (∀ v ∈ l, v ≠ t ∨ (s.call v).any Waiting.blocked = false) →
        l.filter (fun v => ((Barrier.leave t c.barrier c.number s).call v).any Waiting.blocked) =
          l.filter fun v => (s.call v).any Waiting.blocked := by
      intro l hl
      apply List.filter_congr
      intro v hv
      rw [hcall]
      split
      · rename_i h
        rcases hl v hv with h' | h'
        · exact absurd h h'
        · exact h'.symm
      · rfl
    have hgone : (s.call t).any Waiting.blocked = false := by
      rw [hc]
      exact decide_eq_false (not_not.mpr hst)
    unfold Sys.blocked
    rw [hsame]
    · rw [hinside]
      split
      · rw [(I.nodup q).erase_eq_filter, List.filter_filter]
        apply List.filter_congr
        intro v hv
        by_cases hvt : v = t
        · rw [hvt, hgone]
          rfl
        · simp [hvt]
      · rfl
    · intro v hv
      by_cases hvt : v = t
      · rw [hvt]
        exact .inr hgone
      · exact .inl hvt
  have hnum := I.numbers t c hc
  have hplaced := I.placed t c hc
  unfold Waiting.Placed at hplaced
  rw [if_pos hst] at hplaced
  refine ⟨I.law, I.atMost, I.counts, fun v => ?_, fun q v => ?_, fun q => ?_, fun q => ?_,
    fun q _ => ?_, fun x hx => ?_, fun v e he => ?_, fun v e he => ?_,
    fun v v' e e' he he' hb hn => ?_, fun q j f hm => ?_, fun q => ?_⟩
  · show s.sems.waitsem v = _
    rw [hcall]
    split
    · rename_i h
      rw [h, hwt]
      rfl
    · exact I.waits v
  · rw [hinside, hcall]
    by_cases hvt : v = t
    · subst hvt
      rw [if_pos rfl]
      constructor
      · intro hm
        split at hm
        · exact absurd rfl (((I.nodup q).mem_erase_iff.mp hm).1)
        · rename_i hq
          obtain ⟨e, he, hb⟩ := (I.members q v).mp hm
          rw [hc] at he
          cases he
          exact absurd hb.symm hq
      · rintro ⟨e, he, -⟩
        cases he
    · rw [if_neg hvt, ← I.members q v]
      split
      · rw [(I.nodup q).mem_erase_iff]
        simp [hvt]
      · rfl
  · rw [hinside]
    split
    · exact (I.nodup q).erase _
    · exact I.nodup q
  · rw [hblocked]
    exact I.few q
  · rw [hblocked]
    exact I.counted q (hrel q)
  · have hx' : s.releaser = some x := hx
    rw [hr] at hx'
    cases hx'
  · exact I.placed v e (hback v e he).2
  · obtain ⟨hvt, he'⟩ := hback v e he
    obtain ⟨h1, h2, h3⟩ := I.numbers v e he'
    refine ⟨h1, h2, ?_⟩
    rw [hresults]
    split
    · rename_i hb
      rw [List.map_append]
      intro hm
      rcases List.mem_append.mp hm with hm | hm
      · exact h3 hm
      · exact hvt (I.distinct v t e c he' hc hb (List.mem_singleton.mp hm))
    · exact h3
  · exact I.distinct v v' e e' (hback v e he).2 (hback v' e' he').2 hb hn
  · rw [hresults] at hm
    split at hm
    · rename_i hq
      rcases List.mem_append.mp hm with hm | hm
      · exact I.returns q j f hm
      · cases List.mem_singleton.mp hm
        subst hq
        exact ⟨⟨fun h => (by cases h), fun h => absurd h hnum.2.1⟩, hplaced⟩
    · exact I.returns q j f hm
  · rw [hresults]
    split
    · rename_i hq
      subst hq
      rw [List.map_append]
      apply (I.once _).append (List.nodup_singleton _)
      exact List.disjoint_singleton.mpr hnum.2.2
    · exact I.once q

theorem Inv.arriveLast (I : Inv s) (hr : s.releaser = none)
    (hlast : (s.arrivals b + 1) % s.count b = 0)
    (hm : ∀ t ∈ s.inside b, ∀ c ∈ s.call t, c.state ≠ .interrupted) :
    Inv { s with
      arrivals := update s.arrivals b (s.arrivals b + 1)
      releaser := some ⟨t, b, s.arrivals b⟩ } := by
  have hrel := not_releasing hr
  have hpos : 0 < s.count b := by have := (I.counts b).1; omega
  have hdiv : (s.arrivals b + 1) / s.count b = s.arrivals b / s.count b + 1 :=
    Nat.succ_div_of_dvd (Nat.dvd_of_mod_eq_zero hlast)
  have harr : ∀ q, update s.arrivals b (s.arrivals b + 1) q =
      if q = b then s.arrivals b + 1 else s.arrivals q := update_at s.arrivals b _
  have hmono : ∀ q, s.arrivals q ≤ update s.arrivals b (s.arrivals b + 1) q := by
    intro q
    rw [harr]
    split
    · rename_i h
      rw [h]
      omega
    · exact le_refl _
  have hrel' : ∀ q, ({ s with
      arrivals := update s.arrivals b (s.arrivals b + 1)
      releaser := some ⟨t, b, s.arrivals b⟩ } : Sys).releasing q = decide (b = q) := fun _ => rfl
  refine ⟨I.law, I.atMost, I.counts, I.waits, I.members, I.nodup, I.few, fun q hq => ?_,
    fun x hx => ?_, fun v e he => ?_, fun v e he => ?_, I.distinct, fun q j f hm' => ?_, I.once⟩
  · rw [hrel'] at hq
    have hne : ¬b = q := of_decide_eq_false hq
    show (s.blocked q).length = update s.arrivals b (s.arrivals b + 1) q % s.count q
    rw [harr, if_neg (Ne.symm hne)]
    exact I.counted q (hrel q)
  · cases hx
    refine ⟨?_, ?_, ?_, fun v e he hb => ?_⟩
    · show update s.arrivals b (s.arrivals b + 1) b % s.count b = 0
      rw [update_self]
      exact hlast
    · show s.arrivals b + 1 = update s.arrivals b (s.arrivals b + 1) b
      rw [update_self]
    · intro hmem
      obtain ⟨⟨j, f⟩, hj, hje⟩ := List.mem_map.mp hmem
      have h := (I.returns b j f hj).2
      dsimp only at hje
      rw [hje] at h
      exact Nat.lt_irrefl _ h
    · exact hm v ((I.members b v).mpr ⟨e, he, hb⟩) e he
  · have hp := I.placed v e he
    unfold Waiting.Placed at hp ⊢
    rw [hrel e.barrier, if_neg Bool.false_ne_true] at hp
    rw [hrel']
    show if e.state = .granted then e.number / s.count e.barrier <
        update s.arrivals b (s.arrivals b + 1) e.barrier / s.count e.barrier
      else if decide (b = e.barrier) = true then e.number / s.count e.barrier + 1 =
        update s.arrivals b (s.arrivals b + 1) e.barrier / s.count e.barrier
      else e.number / s.count e.barrier =
        update s.arrivals b (s.arrivals b + 1) e.barrier / s.count e.barrier
    by_cases hb : e.barrier = b
    · rw [hb] at hp ⊢
      rw [update_self, hdiv]
      by_cases hg : e.state = .granted
      · rw [if_pos hg] at hp ⊢
        omega
      · rw [if_neg hg] at hp ⊢
        rw [if_pos (decide_eq_true rfl), hp]
    · rw [update_of_ne hb, decide_eq_false (Ne.symm hb), if_neg Bool.false_ne_true]
      exact hp
  · obtain ⟨h1, h2, h3⟩ := I.numbers v e he
    exact ⟨lt_of_lt_of_le h1 (hmono _), h2, h3⟩
  · obtain ⟨h1, h2⟩ := I.returns q j f hm'
    exact ⟨h1, lt_of_lt_of_le h2 (Nat.div_le_div_right (hmono q))⟩

theorem Inv.arriveWait (I : Inv s) (hr : s.releaser = none) (hc : s.call t = none)
    (hnot : (s.arrivals b + 1) % s.count b ≠ 0) (hlaw : Law r) (hmost : ∀ b, r.semcount b ≤ 0)
    (hws : r.waitsem = update s.sems.waitsem t (some b)) :
    Inv { s with
      sems := r
      arrivals := update s.arrivals b (s.arrivals b + 1)
      inside := update s.inside b (t :: s.inside b)
      call := update s.call t (some ⟨b, s.arrivals b, .waiting⟩) } := by
  let s' : Sys := { s with
    sems := r
    arrivals := update s.arrivals b (s.arrivals b + 1)
    inside := update s.inside b (t :: s.inside b)
    call := update s.call t (some ⟨b, s.arrivals b, .waiting⟩) }
  have hrel := not_releasing hr
  have hrel' : ∀ q, s'.releasing q = false := hrel
  have hpos : 0 < s.count b := by have := (I.counts b).1; omega
  have hdiv : (s.arrivals b + 1) / s.count b = s.arrivals b / s.count b :=
    Nat.succ_div_of_not_dvd fun h => hnot (Nat.mod_eq_zero_of_dvd h)
  have hmod : (s.arrivals b + 1) % s.count b = s.arrivals b % s.count b + 1 := by
    have h1 := Nat.div_add_mod (s.arrivals b + 1) (s.count b)
    have h2 := Nat.div_add_mod (s.arrivals b) (s.count b)
    rw [hdiv] at h1
    omega
  have harr : ∀ q, s'.arrivals q = if q = b then s.arrivals b + 1 else s.arrivals q :=
    update_at s.arrivals b _
  have hmono : ∀ q, s.arrivals q ≤ s'.arrivals q := by
    intro q
    rw [harr]
    split
    · rename_i h
      rw [h]
      omega
    · exact le_refl _
  have hgen : ∀ q, s'.arrivals q / s.count q = s.arrivals q / s.count q := by
    intro q
    rw [harr]
    split
    · rename_i h
      rw [h]
      exact hdiv
    · rfl
  have hcall : ∀ v, s'.call v = if v = t then some ⟨b, s.arrivals b, .waiting⟩ else s.call v :=
    call_update _
  have hinside : ∀ q, s'.inside q = if q = b then t :: s.inside b else s.inside q :=
    update_at s.inside b _
  have hnotin : ∀ q, t ∉ s.inside q := by
    intro q hm
    obtain ⟨e, he, -⟩ := (I.members q t).mp hm
    rw [hc] at he
    cases he
  have hold : ∀ q, (s.inside q).filter (fun v => (s'.call v).any Waiting.blocked) = s.blocked q := by
    intro q
    apply List.filter_congr
    intro v hv
    rw [hcall, if_neg]
    exact fun h => hnotin q (h ▸ hv)
  have hblocked : ∀ q, (s'.blocked q).length =
      (s.blocked q).length + if q = b then 1 else 0 := by
    intro q
    unfold Sys.blocked
    rw [hinside]
    split
    · rename_i h
      subst h
      have ht : (s'.call t).any Waiting.blocked = true := by
        rw [hcall, if_pos rfl]
        rfl
      rw [List.filter_cons, if_pos ht, List.length_cons, hold]
      rfl
    · rw [hold]
      rfl
  have hcount : ∀ q, (s'.blocked q).length = s'.arrivals q % s.count q := by
    intro q
    rw [hblocked, harr, I.counted q (hrel q)]
    split
    · rename_i h
      rw [h, hmod]
    · rfl
  refine ⟨hlaw, hmost, I.counts, fun v => ?_, fun q v => ?_, fun q => ?_, fun q => ?_,
    fun q _ => hcount q, fun x hx => ?_, fun v e he => ?_, fun v e he => ?_,
    fun v v' e e' he he' hb hn => ?_, fun q j f hm => ?_, I.once⟩
  · show r.waitsem v = (s'.call v).bind _
    rw [hws, hcall]
    by_cases hv : v = t
    · subst hv
      rw [update_self, if_pos rfl]
      rfl
    · rw [update_of_ne hv, if_neg hv]
      exact I.waits v
  · show v ∈ s'.inside q ↔ ∃ e, s'.call v = some e ∧ e.barrier = q
    rw [hinside, hcall]
    by_cases hv : v = t
    · subst hv
      rw [if_pos rfl]
      constructor
      · intro hm
        split at hm
        · rename_i h
          exact ⟨_, rfl, h.symm⟩
        · exact absurd hm (hnotin q)
      · rintro ⟨e, he, hb⟩
        cases he
        rw [if_pos hb.symm]
        exact List.mem_cons_self
    · rw [if_neg hv, ← I.members q v]
      split
      · rename_i h
        rw [h]
        simp [hv]
      · rfl
  · show (s'.inside q).Nodup
    rw [hinside]
    split
    · exact List.nodup_cons.mpr ⟨hnotin b, I.nodup b⟩
    · exact I.nodup q
  · show (s'.blocked q).length < s.count q
    rw [hcount]
    apply Nat.mod_lt
    have := (I.counts q).1
    omega
  · have hx' : s.releaser = some x := hx
    rw [hr] at hx'
    cases hx'
  · have he' : s'.call v = some e := he
    unfold Waiting.Placed
    show if e.state = .granted then e.number / s.count e.barrier < s'.arrivals e.barrier / s.count e.barrier
      else if s.releasing e.barrier = true then
        e.number / s.count e.barrier + 1 = s'.arrivals e.barrier / s.count e.barrier
      else e.number / s.count e.barrier = s'.arrivals e.barrier / s.count e.barrier
    rw [hgen]
    rw [hcall] at he'
    split at he'
    · cases he'
      rw [hrel]
      rfl
    · exact I.placed v e he'
  · have he' : s'.call v = some e := he
    rw [hcall] at he'
    split at he'
    · cases he'
      refine ⟨?_, hnot, ?_⟩
      · show s.arrivals b < s'.arrivals b
        rw [harr, if_pos rfl]
        omega
      · intro hmem
        obtain ⟨⟨j, f⟩, hj, hje⟩ := List.mem_map.mp hmem
        have h := (I.returns b j f hj).2
        dsimp only at hje
        rw [hje] at h
        exact Nat.lt_irrefl _ h
    · obtain ⟨h1, h2, h3⟩ := I.numbers v e he'
      exact ⟨lt_of_lt_of_le h1 (hmono _), h2, h3⟩
  · have h1 : s'.call v = some e := he
    have h2 : s'.call v' = some e' := he'
    rw [hcall] at h1 h2
    split at h1 <;> split at h2
    · rename_i hv hv'
      rw [hv, hv']
    · cases h1
      have h := (I.numbers v' e' h2).1
      dsimp only at hb hn
      rw [← hb, ← hn] at h
      omega
    · cases h2
      have h := (I.numbers v e h1).1
      dsimp only at hb hn
      rw [hb, hn] at h
      omega
    · exact I.distinct v v' e e' h1 h2 hb hn
  · obtain ⟨h1, h2⟩ := I.returns q j f hm
    refine ⟨h1, ?_⟩
    show j / s.count q < s'.arrivals q / s.count q
    rw [hgen]
    exact h2

theorem Inv.releaseEnd (I : Inv s) {x : Release} (hx : s.releaser = some x)
    (hz : ¬s.sems.semcount x.barrier < 0) :
    Inv (ret x.barrier x.number true { s with releaser := none }) := by
  obtain ⟨h1, h2, h3, h4⟩ := I.release x hx
  have hw := I.semcount_eq x.barrier
  have hempty : s.blocked x.barrier = [] := by
    apply List.eq_nil_of_length_eq_zero
    rw [I.blocked_waiters h4]
    omega
  have hresults : ∀ q, (ret x.barrier x.number true { s with releaser := none }).results q =
      if q = x.barrier then s.results q ++ [(x.number, true)] else s.results q := by
    intro q
    refine (update_at s.results x.barrier _ q).trans ?_
    split
    · rename_i h
      rw [h]
    · rfl
  have hrel : ∀ q, q ≠ x.barrier → s.releasing q = false := by
    intro q hq
    unfold Sys.releasing
    rw [hx]
    exact decide_eq_false (Ne.symm hq)
  have hpos : 0 < s.count x.barrier := by have := (I.counts x.barrier).1; omega
  refine ⟨I.law, I.atMost, I.counts, I.waits, I.members, I.nodup, I.few, fun q _ => ?_,
    fun y hy => (by cases hy), fun v e he => ?_, fun v e he => ?_, I.distinct, fun q j f hm => ?_,
    fun q => ?_⟩
  · by_cases hq : q = x.barrier
    · subst hq
      show (s.blocked x.barrier).length = s.arrivals x.barrier % s.count x.barrier
      rw [hempty, h1]
      rfl
    · exact I.counted q (hrel q hq)
  · have hp := I.placed v e he
    unfold Waiting.Placed at hp ⊢
    show if e.state = .granted then e.number / s.count e.barrier < s.arrivals e.barrier / s.count e.barrier
      else if false = true then
        e.number / s.count e.barrier + 1 = s.arrivals e.barrier / s.count e.barrier
      else e.number / s.count e.barrier = s.arrivals e.barrier / s.count e.barrier
    split
    · rename_i hst
      rwa [if_pos hst] at hp
    · rename_i hst
      rw [if_neg hst] at hp
      by_cases hb : e.barrier = x.barrier
      · have hmem : v ∈ s.blocked x.barrier := I.mem_blocked.mpr ⟨e, he, hb, hst⟩
        rw [hempty] at hmem
        cases hmem
      · rw [hrel _ hb] at hp
        exact hp
  · obtain ⟨k1, k2, k3⟩ := I.numbers v e he
    refine ⟨k1, k2, ?_⟩
    rw [hresults]
    split
    · rename_i hb
      rw [List.map_append]
      intro hm
      rcases List.mem_append.mp hm with hm | hm
      · exact k3 hm
      · have hn : e.number = x.number := List.mem_singleton.mp hm
        apply k2
        show (e.number + 1) % s.count e.barrier = 0
        rw [hn, hb, h2, h1]
    · exact k3
  · rw [hresults] at hm
    split at hm
    · rename_i hq
      rcases List.mem_append.mp hm with hm | hm
      · exact I.returns q j f hm
      · cases List.mem_singleton.mp hm
        subst hq
        show (true = true ↔ (x.number + 1) % s.count x.barrier = 0) ∧
          x.number / s.count x.barrier < s.arrivals x.barrier / s.count x.barrier
        rw [h2]
        refine ⟨⟨fun _ => h1, fun _ => rfl⟩, ?_⟩
        have hd : (x.number + 1) / s.count x.barrier = x.number / s.count x.barrier + 1 :=
          Nat.succ_div_of_dvd (Nat.dvd_of_mod_eq_zero (by rw [h2]; exact h1))
        rw [← h2, hd]
        exact Nat.lt_succ_self _
    · exact I.returns q j f hm
  · rw [hresults]
    split
    · rename_i hq
      subst hq
      rw [List.map_append]
      apply (I.once _).append (List.nodup_singleton _)
      exact List.disjoint_singleton.mpr h3
    · exact I.once q

end

section

variable {s s' : Sys} {t b : Nat} {c : Waiting} {r : Sems Nat}

theorem Inv.semWait_waits {w : Bool} (I : Inv s) (hw : s.sems.waitsem t = none)
    (he : semWait t b s.sems = some (r, w)) : w = false ∧ Law r ∧ (∀ b, r.semcount b ≤ 0) ∧
      r.waitsem = update s.sems.waitsem t (some b) := by
  have hlaw := I.law.semWait (I.law.running hw) he
  rcases semWait_cases he with ⟨-, hpos, -⟩ | ⟨rfl, hle, -, rfl⟩
  · have h := I.atMost b
    omega
  · refine ⟨rfl, hlaw, fun q => ?_, rfl⟩
    show (s.sems.count b (-1)).semcount q ≤ 0
    have h := I.atMost q
    rw [count_semcount]
    split <;> omega

theorem Inv.arrive (I : Inv s) (hr : s.releaser = none) (hc : s.call t = none)
    (hm : (s.arrivals b + 1) % s.count b = 0 →
      ∀ t ∈ s.inside b, ∀ c ∈ s.call t, c.state ≠ .interrupted)
    (he : pthreadBarrierWait t b s = some s') : Inv s' := by
  have hcomplete := I.complete_last (not_releasing hr b) hm
  unfold pthreadBarrierWait at he
  dsimp only at he
  split at he
  · rename_i hlast
    cases he
    exact I.arriveLast hr (hcomplete.mp hlast) (hm (hcomplete.mp hlast))
  · rename_i hlast
    have hw : s.sems.waitsem t = none := by
      rw [I.waits t, hc]
      rfl
    unfold barrierTake at he
    obtain ⟨⟨r, w⟩, hwait, hs⟩ := Option.map_eq_some_iff.mp he
    obtain ⟨rfl, hlaw, hmost, hws⟩ := I.semWait_waits hw hwait
    cases hs
    exact I.arriveWait hr hc (fun h => hlast (hcomplete.mpr h)) hlaw hmost hws

theorem Inv.waitStep (I : Inv s) (hr : s.releaser = none) (hc : s.call t = some c)
    (ht : t ∉ s.sems.gWaitingforsemaphore) (he : waitStep t c s = some s') : Inv s' := by
  have hw : s.sems.waitsem t = none := by
    by_contra hne
    exact ht ((I.law.waits t).mpr hne)
  unfold Barrier.waitStep at he
  split at he
  · rename_i hst
    unfold barrierTake at he
    obtain ⟨⟨r, w⟩, hwait, hs⟩ := Option.map_eq_some_iff.mp he
    obtain ⟨rfl, hlaw, hmost, hws⟩ := I.semWait_waits hw hwait
    cases hs
    have hng : c.state ≠ .granted := by
      rw [hst]
      simp
    apply I.restate hc hng (.inl (by simp)) (fun h => (by cases h)) hlaw hmost
    rw [if_pos rfl]
    exact hws
  · rename_i hst
    cases he
    apply I.leave hr hc
    cases hstate : c.state with
    | waiting =>
        rw [I.waits t, hc, Option.bind_some, if_pos hstate] at hw
        cases hw
    | interrupted => exact absurd hstate hst
    | granted => rfl

theorem Inv.releaseStep {x : Release} (I : Inv s) (hx : s.releaser = some x)
    (he : releaseStep x s = some s') : Inv s' := by
  unfold Barrier.releaseStep at he
  split at he
  · rename_i hneg
    obtain ⟨⟨r, w⟩, hpost, hs⟩ := Option.map_eq_some_iff.mp he
    have hlaw := I.law.semPost hpost
    rcases I.law.semPost_cases hpost with ⟨h0, -, -⟩ | ⟨u, rfl, hu, -, hrs, -⟩
    · omega
    · obtain ⟨c, hc, hb, hst⟩ := I.waiting_iff.mp hu
      dsimp only at hs
      rw [hc, Option.map_some] at hs
      subst hs
      have hng : c.state ≠ .granted := by
        rw [hst]
        simp
      apply I.restate hc hng (.inr _) (fun h => (by cases h)) hlaw
      · intro q
        have h := I.atMost q
        rw [hrs]
        show (s.sems.count x.barrier 1).semcount q ≤ 0
        rw [count_semcount]
        split
        · rename_i hq
          rw [hq]
          omega
        · omega
      · rw [hrs]
        rfl
      · unfold Sys.releasing
        rw [hx]
        exact decide_eq_true hb.symm
  · rename_i hz
    cases he
    exact I.releaseEnd hx hz

theorem Inv.waitirq (I : Inv s) (hm : ∀ c ∈ s.call t, s.releasing c.barrier = false)
    (he : waitirq t s = some s') : Inv s' := by
  unfold Barrier.waitirq at he
  split at he
  · rename_i ht
    obtain ⟨r, hirq, hs⟩ := Option.map_eq_some_iff.mp he
    have hlaw := I.law.semWaitirq hirq
    obtain ⟨b, hb⟩ := Option.ne_none_iff_exists'.mp ((I.law.waits t).mp ht)
    obtain ⟨c, hc, rfl, hst⟩ := I.waiting_iff.mp hb
    have hneg := (I.law.waiting_neg hb).2
    unfold semWaitirq endWaitirq at hirq
    rw [if_pos ht, hb] at hirq
    dsimp only at hirq
    rw [if_pos ht] at hirq
    cases hirq
    rw [hc, Option.map_some] at hs
    subst hs
    have hng : c.state ≠ .granted := by
      rw [hst]
      simp
    apply I.restate hc hng (.inl (by simp)) (fun _ => hm c hc) hlaw
    · intro q
      have h := I.atMost q
      show (s.sems.count c.barrier 1).semcount q ≤ 0
      rw [count_semcount]
      split
      · rename_i hq
        rw [hq]
        omega
      · omega
    · rfl
  · cases he
    exact I

theorem Inv.setpriority {p : Nat} (I : Inv s) :
    Inv { s with sems := schedSetpriority t p s.sems } := by
  have hlaw : Law (schedSetpriority t p s.sems) := I.law.schedSetpriority
  have hcount : (schedSetpriority t p s.sems).semcount = s.sems.semcount := by
    unfold schedSetpriority
    dsimp only
    split <;> rfl
  have hws : (schedSetpriority t p s.sems).waitsem = s.sems.waitsem := by
    unfold schedSetpriority
    dsimp only
    split <;> rfl
  refine ⟨hlaw, fun b => ?_, I.counts, fun v => ?_, I.members, I.nodup, I.few, I.counted,
    I.release, I.placed, I.numbers, I.distinct, I.returns, I.once⟩
  · show (schedSetpriority t p s.sems).semcount b ≤ 0
    rw [hcount]
    exact I.atMost b
  · show (schedSetpriority t p s.sems).waitsem v = _
    rw [hws]
    exact I.waits v

theorem Inv.step {i : Op} (I : Inv s) (hv : i.valid s) (hm : i.meets s)
    (he : i.exec s = some s') : Inv s' := by
  cases i with
  | arrive t b => exact I.arrive hv.1 hv.2 hm he
  | step t =>
      obtain ⟨c, hc, he⟩ := Option.bind_eq_some_iff.mp he
      exact I.waitStep hv.1 hc hv.2 he
  | release =>
      obtain ⟨x, hx, he⟩ := Option.bind_eq_some_iff.mp he
      exact I.releaseStep hx he
  | waitirq t => exact I.waitirq hm he
  | setpriority t p =>
      cases he
      exact I.setpriority

theorem BarrierStart.inv (h : BarrierStart s) : Inv s := by
  have hcall : ∀ {t c}, s.call t = some c → False := by
    intro t c hc
    rw [h.call] at hc
    cases hc
  have hempty : ∀ b, s.blocked b = [] := by
    intro b
    unfold Sys.blocked
    rw [h.inside]
    rfl
  refine ⟨?_, fun b => (h.semcount b).le, h.count, fun t => ?_, fun b t => ?_, fun b => ?_,
    fun b => ?_, fun b _ => ?_, fun x hx => ?_, fun t c hc => (hcall hc).elim,
    fun t c hc => (hcall hc).elim, fun t u c d hc => (hcall hc).elim, fun b k f hm => ?_,
    fun b => ?_⟩
  · apply Law.of_empty h.waitsem h.waiting
    intro b
    exact (h.semcount b).ge
  · rw [h.waitsem, h.call]
    rfl
  · rw [h.inside, h.call]
    simp
  · rw [h.inside]
    exact List.nodup_nil
  · rw [hempty]
    exact (h.count b).1
  · rw [hempty, h.arrivals, Nat.zero_mod]
    rfl
  · rw [h.releaser] at hx
    cases hx
  · rw [h.results] at hm
    cases hm
  · rw [h.results]
    exact List.nodup_nil

theorem Inv.barrierCorrect (I : Inv s) : BarrierCorrect s where
  inside t c hc := (I.members c.barrier t).mpr ⟨c, hc, rfl⟩
  blocked := I.few
  released t c hc hrel := by
    have hp := I.placed t c hc
    unfold Waiting.Placed at hp
    unfold Sys.generation
    constructor
    · intro hg
      rwa [if_pos hg] at hp
    · intro hlt
      by_contra hg
      rw [if_neg hg, hrel, if_neg Bool.false_ne_true] at hp
      omega
  returns := I.returns
  once := I.once
  restored b hrel h0 := by
    have hc := I.counted b hrel
    have hle := I.waiters_le b
    have hw := I.semcount_eq b
    omega

end

/-- In every run in which the last thread of a generation finds no other on its way from an
interrupted wait, and in which a release is not interrupted, the barrier is correct. -/
theorem barriers_correct {s : Sys}
    (h : Reach barrierMachine BarrierStart (fun s i => i.meets s) s) : BarrierCorrect s := by
  have I : Inv s := by
    apply Reach.invariant (I := Inv) _ _ h
    · exact fun s hs => hs.inv
    · exact fun s i s' I hv hk he => I.step hv hk he
  exact I.barrierCorrect

def barrierBoot : Sys where
  sems := ⟨fun _ => 0, fun _ => none, [], fun _ => 100, fun _ => 0, 0⟩
  count _ := 2
  call _ := none
  releaser := none
  arrivals _ := 0
  inside _ := []
  results _ := []

theorem barrierBoot_start : BarrierStart barrierBoot where
  count b := by
    show 1 ≤ 2 ∧ 2 < 2 ^ 32
    decide
  semcount _ := rfl
  waitsem := rfl
  waiting := rfl
  call := rfl
  releaser := rfl
  arrivals := rfl
  inside := rfl
  results := rfl

/-- A wait is interrupted and goes on before the second thread comes. -/
theorem barriers_correct_run : ∃ s : Sys, s.results 5 = [(1, true), (0, false)] ∧
    BarrierCorrect s := by
  have hr : ((runAll barrierMachine (fun s i => i.meets s) barrierBoot
      [.arrive 2 5, .waitirq 2, .step 2, .arrive 3 5, .release, .release, .step 2]).any fun s =>
        decide (s.results 5 = [(1, true), (0, false)])) = true := by
    decide +kernel
  obtain ⟨s, hs, hd⟩ := (Option.any_eq_true _ _).mp hr
  exact ⟨s, of_decide_eq_true hd,
    barriers_correct (Reach.runAll (.init barrierBoot_start) hs)⟩

/-- The second thread comes while the first is between two waits: both wait. -/
theorem barrier_stuck : ¬∀ s, Reachable barrierMachine BarrierStart s → BarrierCorrect s := by
  intro hall
  have hr : ((runAll barrierMachine (fun _ _ => True) barrierBoot
      [.arrive 2 5, .waitirq 2, .arrive 3 5, .step 2]).any fun s =>
        decide (¬(s.blocked 5).length < s.count 5)) = true := by
    decide +kernel
  obtain ⟨s, hs, hd⟩ := (Option.any_eq_true _ _).mp hr
  apply of_decide_eq_true hd
  exact (hall s (Reach.runAll (.init barrierBoot_start) hs)).blocked 5

end NuttxAvr32.Pthread.Barrier
