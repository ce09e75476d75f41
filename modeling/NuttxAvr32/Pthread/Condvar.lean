import NuttxAvr32.Pthread.Ownership

/-! # Signals to condition variables

`pthread_cond_signal` reads the count of the semaphore and posts in two steps, between
which other threads and timeouts come in. `pthread_cond_broadcast` holds the scheduler's
lock, so between its steps only timeouts do. The waits are those of the mutexes.
-/

namespace NuttxAvr32.Pthread.Condvar

open Runs Sem
open Function (update update_self update_of_ne)

structure Signal where
  cond : Nat
  number : Nat
deriving DecidableEq

/-- A call of `pthread_cond_broadcast`, with `left` posts to make; `seen` lists the threads
that waited when it read the count, with the numbers of their waits. -/
structure Broadcast where
  cond : Nat
  number : Nat
  left : Nat
  seen : List (Nat × Nat)
deriving DecidableEq

/-- A post of the call `number` woke the thread from its wait. -/
structure Grant where
  cond : Nat
  thread : Nat
  wait : Nat
  number : Nat
deriving DecidableEq

/-- The calls are numbered in their order: `began` has the number of a thread's last wait.
`successes` lists condition, thread and number of the waits that ended without an error. -/
structure Sys where
  base : Pthread.Sys
  signals : Nat → Option Signal
  broadcast : Option Broadcast
  clock : Nat
  began : Nat → Nat
  grants : List Grant
  successes : List (Nat × Nat × Nat)

def gets : Call → Option Call → Option Nat
  | .condRelease _ c _, some (.condRetake _ _) => some c
  | .condWait _ c timed _ w, some (.condRetake _ _) =>
    if w = .interrupted ∧ timed = true then none else some c
  | _, _ => none

def step (t : Nat) (s : Sys) : Option Sys :=
  (s.base.call t).bind fun c =>
    (callStep t s.base c).map fun b =>
      { s with
        base := b
        successes :=
          match gets c (b.call t) with
          | some i => s.successes ++ [(i, t, s.began t)]
          | none => s.successes }

def wait (t m c : Nat) (timed : Bool) (s : Sys) : Sys :=
  { s with
    base := pthreadCondWait t m c timed s.base
    began := update s.began t s.clock
    clock := s.clock + 1 }

def post (c number : Nat) (s : Sys) : Option Sys :=
  (postCond c s.base).map fun b =>
    { s with
      base := b
      grants :=
        match semPost (.cond c) s.base.sems with
        | some (_, some u) => s.grants ++ [⟨c, u, s.began u, number⟩]
        | _ => s.grants }

def pthreadCondSignal (t c : Nat) (s : Sys) : Sys :=
  { s with
    signals := update s.signals t
      (if s.base.sems.semcount (.cond c) < 0 then some ⟨c, s.clock⟩ else none)
    clock := s.clock + 1 }

def signalPost (t : Nat) (s : Sys) : Option Sys :=
  (s.signals t).bind fun x =>
    (post x.cond x.number s).map fun s =>
      { s with signals := update s.signals t none }

def pthreadCondBroadcast (c : Nat) (s : Sys) : Sys :=
  { s with
    broadcast := some
      { cond := c
        number := s.clock
        left := (-s.base.sems.semcount (.cond c)).toNat
        seen := (waiters s.base.sems (.cond c)).map fun u => (u, s.began u) }
    clock := s.clock + 1 }

def broadcastStep (s : Sys) : Option Sys :=
  s.broadcast.bind fun x =>
    if x.left = 0 then some { s with broadcast := none }
    else
      (post x.cond x.number s).map fun s =>
        { s with broadcast := some { x with left := x.left - 1 } }

inductive Op
  | lock (t m : Nat)
  | trylock (t m : Nat)
  | unlock (t m : Nat)
  | wait (t m c : Nat) (timed : Bool)
  | step (t : Nat)
  | signal (t c : Nat)
  | signalPost (t : Nat)
  | broadcast (t c : Nat)
  | broadcastStep
  | timeout (t : Nat)
  | setpriority (t p : Nat)
deriving DecidableEq

def Op.exec : Op → Sys → Option Sys
  | .lock t m, s => (pthreadMutexLock t m s.base).map fun b => { s with base := b }
  | .trylock t m, s => some { s with base := pthreadMutexTrylock t m s.base }
  | .unlock t m, s => (pthreadMutexUnlock t m s.base).map fun b => { s with base := b }
  | .wait t m c timed, s => some (Condvar.wait t m c timed s)
  | .step t, s => Condvar.step t s
  | .signal t c, s => some (pthreadCondSignal t c s)
  | .signalPost t, s => Condvar.signalPost t s
  | .broadcast _ c, s => some (pthreadCondBroadcast c s)
  | .broadcastStep, s => Condvar.broadcastStep s
  | .timeout t, s => (waitirq t s.base).map fun b => { s with base := b }
  | .setpriority t p, s =>
    some { s with base := { s.base with sems := schedSetpriority t p s.base.sems } }

/-- The watchdog of a timed wait runs until the mutex is taken again. -/
def timed : Call → Bool
  | .condWait _ _ timed _ _ => timed
  | .condRetake _ _ => true
  | .condRetakeWait _ _ _ => true
  | _ => false

def Sys.outside (s : Sys) (t : Nat) : Prop := s.base.outside t ∧ s.signals t = none

instance decidableCondOutside (s : Sys) (t : Nat) : Decidable (s.outside t) := by
  unfold Sys.outside
  infer_instance

/-- Threads act while no broadcast holds the scheduler's lock. -/
def Op.valid (s : Sys) : Op → Prop
  | .lock t _ => s.broadcast = none ∧ s.outside t
  | .trylock t _ => s.broadcast = none ∧ s.outside t
  | .unlock t _ => s.broadcast = none ∧ s.outside t
  | .wait t _ _ _ => s.broadcast = none ∧ s.outside t
  | .step t => s.broadcast = none ∧ t ∉ s.base.sems.gWaitingforsemaphore
  | .signal t _ => s.broadcast = none ∧ s.outside t
  | .signalPost _ => s.broadcast = none
  | .broadcast t _ => s.broadcast = none ∧ s.outside t
  | .broadcastStep => True
  | .timeout t => (s.base.call t).any timed = true
  | .setpriority _ _ => True

instance decidableCondValid (s : Sys) (i : Op) : Decidable (i.valid s) := by
  cases i <;> (unfold Op.valid; infer_instance)

def condMachine : Machine Sys Op where
  valid s i := i.valid s
  exec s i := i.exec s

instance decidableCondMachineValid (s : Sys) (i : Op) : Decidable (condMachine.valid s i) :=
  inferInstanceAs (Decidable (i.valid s))

structure CondStart (s : Sys) : Prop where
  base : MutexStart s.base
  signals : s.signals = fun _ => none
  broadcast : s.broadcast = none
  grants : s.grants = []
  successes : s.successes = []

structure CondCorrect (s : Sys) : Prop where
  unstored : ∀ c, s.base.sems.semcount (.cond c) ≤ 0
  caused : ∀ c t n, (c, t, n) ∈ s.successes → ∃ k, ⟨c, t, n, k⟩ ∈ s.grants ∧ n < k
  woken : ∀ x, s.broadcast = some x → x.left = 0 → ∀ t n, (t, n) ∈ x.seen →
    ⟨x.cond, t, n, x.number⟩ ∈ s.grants

/-- The thread that a post is about to wake began its wait before the call that posts. -/
def Sys.finds (s : Sys) (c number : Nat) : Bool :=
  (waiters s.base.sems (.cond c)).head?.any fun u => s.began u < number

def Op.finds (s : Sys) : Op → Prop
  | .signalPost t => ∀ x ∈ s.signals t, s.finds x.cond x.number = true
  | .broadcastStep => ∀ x ∈ s.broadcast, x.left ≠ 0 → s.finds x.cond x.number = true
  | _ => True

instance decidableFinds (s : Sys) : ∀ i : Op, Decidable (i.finds s)
  | .signalPost t => inferInstanceAs (Decidable (∀ x ∈ s.signals t, s.finds x.cond x.number = true))
  | .broadcastStep => inferInstanceAs (Decidable (∀ x ∈ s.broadcast, x.left ≠ 0 →
      s.finds x.cond x.number = true))
  | .lock _ _ => inferInstanceAs (Decidable True)
  | .trylock _ _ => inferInstanceAs (Decidable True)
  | .unlock _ _ => inferInstanceAs (Decidable True)
  | .wait _ _ _ _ => inferInstanceAs (Decidable True)
  | .step _ => inferInstanceAs (Decidable True)
  | .signal _ _ => inferInstanceAs (Decidable True)
  | .broadcast _ _ => inferInstanceAs (Decidable True)
  | .timeout _ => inferInstanceAs (Decidable True)
  | .setpriority _ _ => inferInstanceAs (Decidable True)

/-- The condition that a thread waits for, and how its wait stands; before the first wait it
stands as after an interrupted one. -/
def inCond : Call → Option (Nat × WaitState)
  | .condRelease _ c _ => some (c, .interrupted)
  | .condWait _ c _ _ w => some (c, w)
  | _ => none

def condOf (b : Pthread.Sys) (t : Nat) : Option (Nat × WaitState) := (b.call t).bind inCond

structure Waits (b : Pthread.Sys) : Prop where
  law : Law b.sems
  waits : ∀ t, b.sems.waitsem t = (b.call t).bind Call.waits
  atMost : ∀ c, b.sems.semcount (.cond c) ≤ 0

section

variable {b b' : Pthread.Sys} {t u m c : Nat} {r : Sems SemId}

theorem Waits.mem_waiters (W : Waits b) :
    t ∈ waiters b.sems (.cond c) ↔ condOf b t = some (c, .waiting) := by
  have hw : b.sems.waitsem t = some (.cond c) ↔ condOf b t = some (c, .waiting) := by
    rw [W.waits t]
    unfold condOf
    cases hc : b.call t with
    | none => simp
    | some e => cases e <;> (try cases ‹WaitState›) <;> simp [Call.waits, inCond]
  rw [Sem.mem_waiters, ← hw]
  constructor
  · exact fun h => h.2
  · exact fun h => ⟨(W.law.waiting_neg h).1, h⟩

theorem Waits.running (W : Waits b) (h : t ∉ b.sems.gWaitingforsemaphore) :
    b.sems.waitsem t = none := by
  by_contra hn
  exact h ((W.law.waits t).mpr hn)

theorem Waits.outside (W : Waits b) (h : b.call t = none) : b.sems.waitsem t = none := by
  rw [W.waits t, h]
  rfl

theorem Waits.moves {e : Option Call} (W : Waits b) (he : e.bind Call.waits = b.sems.waitsem t)
    (hs : b'.sems = b.sems) (hc : b'.call = update b.call t e) : Waits b' where
  law := by
    rw [hs]
    exact W.law
  waits u := by
    rw [hs, hc]
    by_cases h : u = t
    · rw [h, update_self, he]
    · rw [update_of_ne h]
      exact W.waits u
  atMost := by
    rw [hs]
    exact W.atMost

theorem condOf_moves {z : Pthread.Sys} {e : Option Call} (hc : z.call = update b.call t e) :
    (∀ u, u ≠ t → condOf z u = condOf b u) ∧ condOf z t = e.bind inCond := by
  unfold condOf
  rw [hc]
  refine ⟨fun u hu => ?_, ?_⟩
  · rw [update_of_ne hu]
  · rw [update_self]

def Others (t : Nat) (b b' : Pthread.Sys) : Prop := ∀ u, u ≠ t → condOf b' u = condOf b u

theorem Waits.takeMutex {got waits : Option Call} {x : Bool} (W : Waits b)
    (hw : b.sems.waitsem t = none) (hgot : got.bind Call.waits = none)
    (hwaits : waits.bind Call.waits = some (.mutex m))
    (he : Pthread.takeMutex t m got waits b = some (b', x)) :
    Waits b' ∧ Others t b b' ∧ b'.call t = if x then got else waits := by
  obtain ⟨⟨r, y⟩, hr, hb⟩ := Option.map_eq_some_iff.mp he
  have hne : ∀ c, SemId.cond c ≠ .mutex m := fun c h => by cases h
  rcases semWait_cases hr with ⟨rfl, hpos, rfl⟩ | ⟨rfl, hle, -, rfl⟩
  · cases hb
    refine ⟨⟨W.law.semWait (W.law.running hw) hr, fun u => ?_, fun c => ?_⟩,
      (condOf_moves rfl).1, update_self _ _ _⟩
    · show update b.sems.waitsem t none u = (update b.call t got u).bind _
      by_cases h : u = t
      · rw [h, update_self, update_self, hgot]
      · rw [update_of_ne h, update_of_ne h]
        exact W.waits u
    · show (b.sems.count (.mutex m) (-1)).semcount (.cond c) ≤ 0
      rw [count_semcount, if_neg (hne c), Int.add_zero]
      exact W.atMost c
  · cases hb
    refine ⟨⟨W.law.semWait (W.law.running hw) hr, fun u => ?_, fun c => ?_⟩,
      (condOf_moves rfl).1, update_self _ _ _⟩
    · show update b.sems.waitsem t (some (.mutex m)) u =
        (update b.call t waits u).bind _
      by_cases h : u = t
      · rw [h, update_self, update_self, hwaits]
      · rw [update_of_ne h, update_of_ne h]
        exact W.waits u
    · show (b.sems.count (.mutex m) (-1)).semcount (.cond c) ≤ 0
      rw [count_semcount, if_neg (hne c), Int.add_zero]
      exact W.atMost c

theorem Waits.wake {z : Pthread.Sys} {i : SemId} {w : WaitState} (W : Waits b) (hw : w ≠ .waiting)
    (hi : b.sems.waitsem u = some i)
    (hs : z.sems = ((b.sems.count i 1).setWaitsem u none).remove u)
    (hc : z.call = update b.call u ((b.call u).map (Call.wake w))) :
    Waits z ∧ Others u b z ∧ condOf z u = (condOf b u).map fun x => (x.1, w) := by
  have hcall : (b.call u).bind Call.waits = some i := by rw [← W.waits u, hi]
  refine ⟨⟨?_, fun v => ?_, fun c => ?_⟩, (condOf_moves hc).1, ?_⟩
  · rw [hs]
    exact W.law.leave hi
  · rw [hs, hc]
    show update b.sems.waitsem u none v = _
    by_cases h : v = u
    · rw [h, update_self, update_self]
      cases he : b.call u with
      | none => rfl
      | some e =>
        rw [he] at hcall
        have hn : e.waits ≠ none := by
          intro h0
          rw [Option.bind_some, h0] at hcall
          cases hcall
        exact (Call.wake_waits hw hn).symm
    · rw [update_of_ne h, update_of_ne h]
      exact W.waits v
  · rw [hs]
    show (b.sems.count i 1).semcount (.cond c) ≤ 0
    rw [count_semcount]
    have := W.atMost c
    split
    · rename_i h
      have hneg := (W.law.waiting_neg hi).2
      rw [← h] at hneg
      omega
    · omega
  · rw [(condOf_moves hc).2]
    unfold condOf
    cases he : b.call u with
    | none => rfl
    | some e =>
      rw [he] at hcall
      cases e <;> first | rfl | cases hcall

theorem condOf_of_mutex (W : Waits b) (h : b.sems.waitsem u = some (.mutex m)) :
    condOf b u = none := by
  rw [W.waits u] at h
  unfold condOf
  cases hc : b.call u with
  | none => rfl
  | some e =>
    rw [hc] at h
    cases e with
    | condWait m c timed saved w =>
      cases w with
      | waiting => cases h
      | interrupted => cases h
      | granted => cases h
    | condRelease m c timed => cases h
    | lockWait m w => rfl
    | condRetake m saved => rfl
    | condRetakeWait m saved w => rfl
    | condSetpid m saved => rfl

theorem Waits.giveMutex (W : Waits b) (he : Pthread.giveMutex t m b = some b') :
    Waits b' ∧ (∀ u, condOf b' u = condOf b u) ∧
      ∀ u, b.sems.waitsem u = none → b'.call u = b.call u ∧ b'.sems.waitsem u = none := by
  obtain ⟨⟨r, v⟩, hr, hb⟩ := Option.map_eq_some_iff.mp he
  have hlaw := W.law.semPost hr
  rcases W.law.semPost_cases hr with ⟨h0, rfl, rfl⟩ | ⟨u, rfl, hu, hneg, rfl, -⟩
  · cases hb
    refine ⟨⟨hlaw, W.waits, fun c => ?_⟩, fun _ => rfl, fun v hv => ⟨rfl, hv⟩⟩
    show (b.sems.count (.mutex m) 1).semcount (.cond c) ≤ 0
    rw [count_semcount, if_neg (by simp), Int.add_zero]
    exact W.atMost c
  · cases hb
    obtain ⟨W', ho, hself⟩ := W.wake (w := .granted) (by simp) hu
      (z := wakeCall (({ b with sems := ((b.sems.count (.mutex m) 1).setWaitsem u none).remove u } :
        Pthread.Sys).setOwners m ((b.owners m).erase t ++ [u])) u .granted) rfl rfl
    refine ⟨W', fun v => ?_, fun v hv => ⟨?_, ?_⟩⟩
    · by_cases h : v = u
      · rw [h]
        refine hself.trans ?_
        rw [condOf_of_mutex W hu]
        rfl
      · exact ho v h
    · have h : v ≠ u := by
        intro h
        rw [h, hu] at hv
        cases hv
      exact update_of_ne h _ _
    · show update b.sems.waitsem u none v = none
      by_cases h : v = u
      · rw [h, update_self]
      · rw [update_of_ne h]
        exact hv

theorem Waits.condTake {timed : Bool} {saved : Nat} (W : Waits b) (hw : b.sems.waitsem t = none)
    (he : Pthread.condTake t m c timed saved b = some b') :
    Waits b' ∧ Others t b b' ∧ b'.call t = some (.condWait m c timed saved .waiting) := by
  obtain ⟨⟨r, y⟩, hr, hb⟩ := Option.map_eq_some_iff.mp he
  have hc := W.atMost c
  rcases semWait_cases hr with ⟨-, hpos, -⟩ | ⟨rfl, hle, -, rfl⟩
  · omega
  · cases hb
    refine ⟨⟨W.law.semWait (W.law.running hw) hr, fun u => ?_, fun d => ?_⟩,
      (condOf_moves rfl).1, update_self _ _ _⟩
    · show update b.sems.waitsem t (some (.cond c)) u =
        (update b.call t _ u).bind _
      by_cases h : u = t
      · rw [h, update_self, update_self]
        rfl
      · rw [update_of_ne h, update_of_ne h]
        exact W.waits u
    · show (b.sems.count (.cond c) (-1)).semcount (.cond d) ≤ 0
      rw [count_semcount]
      have := W.atMost d
      split <;> omega

theorem Waits.lockTake (W : Waits b) (hw : b.sems.waitsem t = none)
    (he : Pthread.lockTake t m b = some b') :
    Waits b' ∧ Others t b b' ∧ condOf b' t = none := by
  obtain ⟨⟨b₁, x⟩, hr, hb⟩ := Option.map_eq_some_iff.mp he
  obtain ⟨W₁, O₁, hc⟩ := W.takeMutex hw rfl rfl hr
  have hb' : b'.sems = b₁.sems ∧ b'.call = b₁.call := by
    rw [← hb]
    dsimp only
    split <;> exact ⟨rfl, rfl⟩
  have hcond : ∀ u, condOf b' u = condOf b₁ u := by
    intro u
    unfold condOf
    rw [hb'.2]
  refine ⟨⟨hb'.1 ▸ W₁.law, fun u => ?_, hb'.1 ▸ W₁.atMost⟩, fun u hu => ?_, ?_⟩
  · rw [hb'.1, hb'.2]
    exact W₁.waits u
  · rw [hcond u]
    exact O₁ u hu
  · rw [hcond t]
    unfold condOf
    rw [hc]
    split <;> rfl

theorem Waits.condRetake {saved : Nat} (W : Waits b) (hw : b.sems.waitsem t = none)
    (he : Pthread.condRetake t m saved b = some b') :
    Waits b' ∧ Others t b b' ∧ condOf b' t = none := by
  obtain ⟨⟨b₁, x⟩, hr, rfl⟩ := Option.map_eq_some_iff.mp he
  obtain ⟨W₁, O₁, hc⟩ := W.takeMutex hw rfl rfl hr
  refine ⟨W₁, O₁, ?_⟩
  unfold condOf
  rw [hc]
  split <;> rfl

theorem Waits.lock (W : Waits b) (ho : b.call t = none)
    (he : pthreadMutexLock t m b = some b') :
    Waits b' ∧ Others t b b' ∧ condOf b' t = none := by
  have hself : condOf b t = none := by
    unfold condOf
    rw [ho]
    rfl
  unfold pthreadMutexLock at he
  split at he
  · split at he
    · cases he
      exact ⟨⟨W.law, W.waits, W.atMost⟩, fun _ _ => rfl, hself⟩
    · cases he
      exact ⟨W, fun _ _ => rfl, hself⟩
  · exact W.lockTake (W.outside ho) he

theorem Waits.trylock (W : Waits b) (ho : b.call t = none) :
    Waits (pthreadMutexTrylock t m b) ∧ ∀ u, condOf (pthreadMutexTrylock t m b) u = condOf b u := by
  have hw := W.outside ho
  unfold pthreadMutexTrylock
  dsimp only
  by_cases hpos : 0 < b.sems.semcount (.mutex m)
  · have htake : semTrywait t (.mutex m) b.sems =
        ((b.sems.count (.mutex m) (-1)).setWaitsem t none, true) := if_pos hpos
    rw [htake, if_pos rfl]
    refine ⟨⟨W.law.semTrywait (W.law.running hw) htake, fun u => ?_, fun c => ?_⟩, fun _ => rfl⟩
    · show update b.sems.waitsem t none u = _
      rw [← Pthread.waitsem_same hw]
      exact W.waits u
    · show (b.sems.count (.mutex m) (-1)).semcount (.cond c) ≤ 0
      rw [count_semcount, if_neg (by simp), Int.add_zero]
      exact W.atMost c
  · have htake : semTrywait t (.mutex m) b.sems = (b.sems, false) := if_neg hpos
    rw [htake, if_neg (by simp)]
    exact ⟨W, fun _ => rfl⟩

theorem Waits.unlock (W : Waits b) (he : pthreadMutexUnlock t m b = some b') :
    Waits b' ∧ ∀ u, condOf b' u = condOf b u := by
  unfold pthreadMutexUnlock at he
  split at he
  · cases he
    exact ⟨W, fun _ => rfl⟩
  · split at he
    · cases he
      exact ⟨⟨W.law, W.waits, W.atMost⟩, fun _ => rfl⟩
    · obtain ⟨W', hc, -⟩ := Waits.giveMutex (b := (b.setMutex m 0 0).setDepth m t (b.depth m t - 1))
        ⟨W.law, W.waits, W.atMost⟩ he
      exact ⟨W', hc⟩

/-- The step of a thread leaves the waits of the others for conditions; it begins to wait
where it was about to, and it gets the semaphore where the wait was granted. -/
structure Step (e : Call) (t : Nat) (b b' : Pthread.Sys) : Prop where
  waits : Waits b'
  others : Others t b b'
  self : condOf b' t = none ∨
    ∃ c, condOf b' t = some (c, .waiting) ∧ condOf b t = some (c, .interrupted)
  gets : ∀ c, gets e (b'.call t) = some c → condOf b t = some (c, .granted)

theorem Waits.callStep {e : Call} (W : Waits b) (hc : b.call t = some e)
    (ht : t ∉ b.sems.gWaitingforsemaphore) (he : Pthread.callStep t b e = some b') :
    Step e t b b' := by
  have hw := W.running ht
  have hwaits : e.waits = none := by
    have h := W.waits t
    rw [hw, hc] at h
    exact h.symm
  -- a step that only changes the call of the thread
  have hmove : ∀ f : Option Call, b'.sems = b.sems → b'.call = update b.call t f →
      f.bind Call.waits = none → f.bind inCond = none → Waits b' ∧ Others t b b' ∧
        condOf b' t = none := by
    intro f hs hcall hf hf'
    obtain ⟨ho, hself⟩ := condOf_moves hcall
    exact ⟨W.moves (hf.trans hw.symm) hs hcall, ho, hself.trans hf'⟩
  cases e with
  | lockWait m w =>
    simp only [Pthread.callStep] at he
    split at he
    · obtain ⟨W', O, hself⟩ := W.lockTake hw he
      exact ⟨W', O, .inl hself, fun c h => by cases h⟩
    · cases he
      obtain ⟨W', O, hself⟩ := hmove none rfl rfl rfl rfl
      exact ⟨W', O, .inl hself, fun c h => by cases h⟩
  | condRelease m c timed =>
    obtain ⟨b₁, hg, hk⟩ := Option.bind_eq_some_iff.mp
      (show (Pthread.giveMutex t m (((b.setMutex m 0 (b.mutex m).nlocks).setDepth m t 0).setCall t
        none)).bind (Pthread.condTake t m c timed (b.depth m t)) = some b' from he)
    let b₀ := ((b.setMutex m 0 (b.mutex m).nlocks).setDepth m t 0).setCall t none
    have W₀ : Waits b₀ := W.moves (e := none) (by rw [hw]; rfl) rfl rfl
    have O₀ := condOf_moves (b := b) (z := b₀) (t := t) (e := none) rfl
    obtain ⟨W₁, O₁, hrun⟩ := W₀.giveMutex hg
    obtain ⟨W', O', hcall⟩ := W₁.condTake (hrun t hw).2 hk
    refine ⟨W', fun u hu => ?_, .inr ⟨c, ?_, ?_⟩, fun c h => ?_⟩
    · rw [O' u hu, O₁ u, O₀.1 u hu]
    · unfold condOf
      rw [hcall]
      rfl
    · unfold condOf
      rw [hc]
      rfl
    · rw [hcall] at h
      cases h
  | condWait m c timed saved w =>
    have hself : condOf b t = some (c, w) := by
      unfold condOf
      rw [hc]
      rfl
    simp only [Pthread.callStep] at he
    split at he
    · rename_i h
      obtain ⟨W', O', hcall⟩ := W.condTake hw he
      refine ⟨W', O', .inr ⟨c, ?_, ?_⟩, fun d hd => ?_⟩
      · unfold condOf
        rw [hcall]
        rfl
      · rw [hself, h.1]
      · rw [hcall] at hd
        cases hd
    · rename_i h
      cases he
      obtain ⟨W', O, hnone⟩ := hmove (some (.condRetake m saved)) rfl rfl rfl rfl
      refine ⟨W', O, .inl hnone, fun d hd => ?_⟩
      have hcall : (b.setCall t (some (.condRetake m saved))).call t =
        some (.condRetake m saved) := update_self _ _ _
      rw [hcall] at hd
      simp only [Condvar.gets] at hd
      split at hd
      · cases hd
      · rename_i hn
        cases hd
        rw [hself]
        cases w with
        | waiting => cases hwaits
        | interrupted =>
          cases timed with
          | true => exact absurd ⟨rfl, rfl⟩ hn
          | false => exact absurd ⟨rfl, rfl⟩ h
        | granted => rfl
  | condRetake m saved =>
    obtain ⟨W', O, hself⟩ := W.condRetake hw he
    exact ⟨W', O, .inl hself, fun c h => by cases h⟩
  | condRetakeWait m saved w =>
    simp only [Pthread.callStep] at he
    split at he
    · obtain ⟨W', O, hself⟩ := W.condRetake hw he
      exact ⟨W', O, .inl hself, fun c h => by cases h⟩
    · cases he
      obtain ⟨W', O, hself⟩ := hmove (some (.condSetpid m saved)) rfl rfl rfl rfl
      exact ⟨W', O, .inl hself, fun c h => by cases h⟩
  | condSetpid m saved =>
    cases he
    obtain ⟨W', O, hself⟩ := hmove none rfl rfl rfl rfl
    exact ⟨W', O, .inl hself, fun c h => by cases h⟩

theorem Waits.waitirq (W : Waits b) (he : Pthread.waitirq t b = some b') :
    Waits b' ∧ Others t b b' ∧ (condOf b' t = condOf b t ∨
      ∃ c, condOf b t = some (c, .waiting) ∧ condOf b' t = some (c, .interrupted)) := by
  unfold Pthread.waitirq at he
  split at he
  · rename_i ht
    obtain ⟨r, hr, rfl⟩ := Option.map_eq_some_iff.mp he
    obtain ⟨i, hi⟩ := Option.ne_none_iff_exists'.mp ((W.law.waits t).mp ht)
    unfold semWaitirq at hr
    rw [if_pos ht, hi] at hr
    dsimp only at hr
    unfold endWaitirq at hr
    rw [if_pos ht] at hr
    cases hr
    obtain ⟨W', O, hself⟩ := W.wake (w := .interrupted) (by simp) hi
      (z := wakeCall { b with sems := ((b.sems.count i 1).setWaitsem t none).remove t } t
        .interrupted) rfl rfl
    refine ⟨W', O, ?_⟩
    cases i with
    | mutex m =>
      left
      refine hself.trans ?_
      rw [condOf_of_mutex W hi]
      rfl
    | cond c =>
      right
      have hc := W.mem_waiters.mp (Sem.mem_waiters.mpr ⟨ht, hi⟩)
      refine ⟨c, hc, hself.trans ?_⟩
      rw [hc]
      rfl
  · cases he
    exact ⟨W, fun _ _ => rfl, .inl rfl⟩

theorem semPost_head {s s' : Sems SemId} {i : SemId} (he : semPost i s = some (s', some u)) :
    (waiters s i).head? = some u := by
  unfold semPost at he
  split at he
  · dsimp only at he
    split at he
    · split at he
      · rename_i v hfind
        cases he
        unfold waiters
        rw [List.head?_filter]
        exact hfind
      · cases he
    · cases he
  · cases he

theorem Waits.postCond (W : Waits b) (hu : (waiters b.sems (.cond c)).head? = some u)
    (he : Pthread.postCond c b = some b') :
    Waits b' ∧ Others u b b' ∧ condOf b u = some (c, .waiting) ∧
      condOf b' u = some (c, .granted) ∧
      ∃ r, semPost (.cond c) b.sems = some (r, some u) := by
  obtain ⟨⟨r, v⟩, hr, hb⟩ := Option.map_eq_some_iff.mp he
  have hmem : u ∈ waiters b.sems (.cond c) := List.mem_of_mem_head? hu
  have hcond := W.mem_waiters.mp hmem
  rcases W.law.semPost_cases hr with ⟨h0, -, -⟩ | ⟨v, rfl, hv, -, rfl, -⟩
  · have := (W.law.waiting_neg (Sem.mem_waiters.mp hmem).2).2
    omega
  · have hvu : v = u := Option.some.inj ((semPost_head hr).symm.trans hu)
    subst hvu
    cases hb
    obtain ⟨W', O, hself⟩ := W.wake (w := .granted) (by simp) hv
      (z := wakeCall { b with sems := ((b.sems.count (.cond c) 1).setWaitsem v none).remove v } v
        .granted) rfl rfl
    refine ⟨W', O, hcond, ?_, _, hr⟩
    refine hself.trans ?_
    rw [hcond]
    rfl

end

structure Inv (s : Sys) : Prop where
  waits : Waits s.base
  granted : ∀ t c, condOf s.base t = some (c, .granted) →
    ∃ k, ⟨c, t, s.began t, k⟩ ∈ s.grants ∧ s.began t < k
  ungranted : ∀ t c w, condOf s.base t = some (c, w) → w ≠ .granted →
    ∀ g ∈ s.grants, g.thread = t → g.wait ≠ s.began t
  past : ∀ g ∈ s.grants, g.wait < s.clock ∧ g.number < s.clock
  numbered : ∀ t, ∀ x ∈ s.signals t, x.number < s.clock
  started : ∀ t c w, condOf s.base t = some (c, w) → s.began t < s.clock
  once : s.grants.Nodup
  caused : ∀ c t n, (c, t, n) ∈ s.successes → ∃ k, ⟨c, t, n, k⟩ ∈ s.grants ∧ n < k
  broadcast : ∀ x, s.broadcast = some x → x.number < s.clock ∧
    (∀ g ∈ s.grants, g.number = x.number → g.cond = x.cond ∧ (g.thread, g.wait) ∈ x.seen) ∧
    (s.grants.filter fun g => g.number = x.number).length + x.left = x.seen.length ∧
    ∀ t, condOf s.base t = some (x.cond, .waiting) → (t, s.began t) ∈ x.seen

/-- No wait is granted, and during a broadcast none begins. -/
def Quiet (s : Sys) (b : Pthread.Sys) : Prop :=
  ∀ u c w, condOf b u = some (c, w) → ∃ v, condOf s.base u = some (c, v) ∧
    (w = .granted ↔ v = .granted) ∧ (w = .waiting → v = .waiting ∨ s.broadcast = none)

section

variable {s s' : Sys} {b : Pthread.Sys} {t u m c : Nat}

theorem quiet_of_eq (h : ∀ u, condOf b u = condOf s.base u) : Quiet s b := by
  intro u c w hu
  exact ⟨w, (h u).symm.trans hu, Iff.rfl, fun hw => .inl hw⟩

theorem quiet_of_others (h : Others t s.base b) (ht : condOf b t = none) : Quiet s b := by
  intro u c w hu
  by_cases hut : u = t
  · rw [hut, ht] at hu
    cases hu
  · exact ⟨w, (h u hut).symm.trans hu, Iff.rfl, fun hw => .inl hw⟩

theorem Inv.quiet (I : Inv s) (W : Waits b) (Q : Quiet s b) : Inv { s with base := b } where
  waits := W
  granted u c hu := by
    obtain ⟨v, hv, hg, -⟩ := Q u c .granted hu
    rw [hg.mp rfl] at hv
    exact I.granted u c hv
  ungranted u c w hu hw := by
    obtain ⟨v, hv, hg, -⟩ := Q u c w hu
    exact I.ungranted u c v hv fun h => hw (hg.mpr h)
  past := I.past
  numbered := I.numbered
  started u c w hu := by
    obtain ⟨v, hv, -⟩ := Q u c w hu
    exact I.started u c v hv
  once := I.once
  caused := I.caused
  broadcast x hx := by
    obtain ⟨h1, h2, h3, h4⟩ := I.broadcast x hx
    refine ⟨h1, h2, h3, fun u hu => ?_⟩
    obtain ⟨v, hv, -, hw⟩ := Q u _ _ hu
    rcases hw rfl with hw | hw
    · rw [hw] at hv
      exact h4 u hv
    · rw [hw] at hx
      cases hx

theorem Inv.threadStep (I : Inv s) (hb : s.broadcast = none)
    (ht : t ∉ s.base.sems.gWaitingforsemaphore) (he : Condvar.step t s = some s') : Inv s' := by
  obtain ⟨e, hc, he⟩ := Option.bind_eq_some_iff.mp he
  obtain ⟨b, hcb, rfl⟩ := Option.map_eq_some_iff.mp he
  have S := I.waits.callStep hc ht hcb
  have Q : Quiet s b := by
    intro u d w hu
    by_cases hut : u = t
    · subst hut
      rcases S.self with hn | ⟨c, hw, hi⟩
      · rw [hn] at hu
        cases hu
      · rw [hw] at hu
        cases hu
        exact ⟨_, hi, by simp, fun _ => .inr hb⟩
    · exact ⟨w, (S.others u hut).symm.trans hu, Iff.rfl, fun hw => .inl hw⟩
  have I' := I.quiet S.waits Q
  refine ⟨I'.waits, I'.granted, I'.ungranted, I'.past, I'.numbered, I'.started, I'.once, ?_,
    I'.broadcast⟩
  cases hg : gets e (b.call t) with
  | none => exact I.caused
  | some i =>
    intro c u n hmem
    rcases List.mem_append.mp hmem with hmem | hmem
    · exact I.caused c u n hmem
    · cases List.mem_singleton.mp hmem
      exact I.granted t i (S.gets i hg)

theorem Inv.wait (I : Inv s) (hb : s.broadcast = none) (ho : s.base.call t = none)
    (timed : Bool) : Inv (Condvar.wait t m c timed s) := by
  have hself : condOf s.base t = none := by
    unfold condOf
    rw [ho]
    rfl
  have hw := I.waits.outside ho
  have hbase : Waits (pthreadCondWait t m c timed s.base) ∧
      Others t s.base (pthreadCondWait t m c timed s.base) ∧
      ∀ d w, condOf (pthreadCondWait t m c timed s.base) t = some (d, w) → w = .interrupted := by
    unfold pthreadCondWait
    split
    · refine ⟨I.waits, fun _ _ => rfl, fun d w h => ?_⟩
      rw [hself] at h
      cases h
    · obtain ⟨O, hc⟩ := condOf_moves (b := s.base)
        (z := s.base.setCall t (some (.condRelease m c timed))) (t := t) rfl
      refine ⟨I.waits.moves (hw.symm ▸ rfl) rfl rfl, O, fun d w h => ?_⟩
      cases hc.symm.trans h
      rfl
  obtain ⟨W, O, hint⟩ := hbase
  have hbegan : ∀ u, u ≠ t → (Condvar.wait t m c timed s).began u = s.began u :=
    fun u hu => update_of_ne hu _ _
  have hself' : (Condvar.wait t m c timed s).began t = s.clock := update_self _ _ _
  refine ⟨W, fun u d hu => ?_, fun u d w hu hne g hg hgt => ?_, fun g hg => ?_, fun u x hx => ?_,
    fun u d w hu => ?_, I.once, I.caused, fun x hx => ?_⟩
  · by_cases hut : u = t
    · subst hut
      cases hint d _ hu
    · rw [hbegan u hut]
      exact I.granted u d ((O u hut).symm.trans hu)
  · by_cases hut : u = t
    · rw [hut, hself']
      have := (I.past g hg).1
      omega
    · rw [hbegan u hut]
      exact I.ungranted u d w ((O u hut).symm.trans hu) hne g hg hgt
  · have := I.past g hg
    exact ⟨Nat.lt_succ_of_lt this.1, Nat.lt_succ_of_lt this.2⟩
  · exact Nat.lt_succ_of_lt (I.numbered u x hx)
  · show _ < s.clock + 1
    by_cases hut : u = t
    · rw [hut, hself']
      exact Nat.lt_succ_self _
    · rw [hbegan u hut]
      exact Nat.lt_succ_of_lt (I.started u d w ((O u hut).symm.trans hu))
  · have hx' : s.broadcast = some x := hx
    rw [hb] at hx'
    cases hx'

theorem Inv.post (I : Inv s) {n : Nat} (hn : n < s.clock) (hf : s.finds c n = true)
    (he : Condvar.post c n s = some s') :
    ∃ u, condOf s.base u = some (c, .waiting) ∧ s'.grants = s.grants ++ [⟨c, u, s.began u, n⟩] ∧
      s'.began = s.began ∧ s'.clock = s.clock ∧ s'.broadcast = s.broadcast ∧
      (∀ v d, condOf s'.base v = some (d, .waiting) → condOf s.base v = some (d, .waiting)) ∧
      Inv { s' with broadcast := none } := by
  obtain ⟨b, hb, rfl⟩ := Option.map_eq_some_iff.mp he
  obtain ⟨u, hu, hbegan⟩ := (Option.any_eq_true _ _).mp hf
  have hlt : s.began u < n := of_decide_eq_true hbegan
  obtain ⟨W, O, hw, hg, r, hr⟩ := I.waits.postCond hu hb
  rw [hr]
  have hfresh : (⟨c, u, s.began u, n⟩ : Grant) ∉ s.grants := fun h =>
    I.ungranted u c _ hw (by simp) _ h rfl rfl
  have hold : ∀ v d w, condOf b v = some (d, w) → w ≠ .granted → v ≠ u ∧
      condOf s.base v = some (d, w) := by
    intro v d w hv hne
    have hvu : v ≠ u := by
      intro h
      rw [h, hg] at hv
      cases hv
      exact hne rfl
    exact ⟨hvu, (O v hvu).symm.trans hv⟩
  refine ⟨u, hw, rfl, rfl, rfl, rfl, fun v d hv => (hold v d _ hv (by simp)).2,
    W, fun v d hv => ?_, fun v d w hv hne g hmem hgt => ?_, fun g hmem => ?_, I.numbered,
    fun v d w hv => ?_, ?_, fun d v k hmem => ?_, fun x hx => by cases hx⟩
  · by_cases hvu : v = u
    · subst hvu
      cases hg.symm.trans hv
      exact ⟨n, List.mem_append_right _ (List.mem_cons_self ..), hlt⟩
    · obtain ⟨k, hk, hkn⟩ := I.granted v d ((O v hvu).symm.trans hv)
      exact ⟨k, List.mem_append_left _ hk, hkn⟩
  · obtain ⟨hvu, hv'⟩ := hold v d w hv hne
    rcases List.mem_append.mp hmem with hmem | hmem
    · exact I.ungranted v d w hv' hne g hmem hgt
    · rw [List.mem_singleton.mp hmem] at hgt
      exact absurd hgt.symm hvu
  · rcases List.mem_append.mp hmem with hmem | hmem
    · exact I.past g hmem
    · rw [List.mem_singleton.mp hmem]
      exact ⟨I.started u c _ hw, hn⟩
  · by_cases hvu : v = u
    · subst hvu
      exact I.started v c _ hw
    · exact I.started v d w ((O v hvu).symm.trans hv)
  · show (s.grants ++ [(⟨c, u, s.began u, n⟩ : Grant)]).Nodup
    apply I.once.append (List.nodup_singleton _)
    intro a ha hd
    rw [List.mem_singleton.mp hd] at ha
    exact hfresh ha
  · obtain ⟨j, hj, hlt⟩ := I.caused d v k hmem
    exact ⟨j, List.mem_append_left _ hj, hlt⟩

theorem Inv.signalPost (I : Inv s) (hb : s.broadcast = none)
    (hf : ∀ x ∈ s.signals t, s.finds x.cond x.number = true)
    (he : Condvar.signalPost t s = some s') : Inv s' := by
  obtain ⟨x, hx, he⟩ := Option.bind_eq_some_iff.mp he
  obtain ⟨s₁, hp, rfl⟩ := Option.map_eq_some_iff.mp he
  obtain ⟨u, -, -, -, hclock, hbr, -, I'⟩ := I.post (I.numbered t x hx) (hf x hx) hp
  refine ⟨I'.waits, I'.granted, I'.ungranted, I'.past, fun v y hy => ?_, I'.started, I'.once,
    I'.caused, fun y hy => ?_⟩
  · have hy' : y ∈ update s₁.signals t none v := hy
    by_cases h : v = t
    · rw [h, update_self] at hy'
      cases hy'
    · rw [update_of_ne h] at hy'
      exact I'.numbered v y hy'
  · have hy' : s₁.broadcast = some y := hy
    rw [hbr, hb] at hy'
    cases hy'

theorem Inv.broadcastStep (I : Inv s)
    (hf : ∀ x ∈ s.broadcast, x.left ≠ 0 → s.finds x.cond x.number = true)
    (he : Condvar.broadcastStep s = some s') : Inv s' := by
  obtain ⟨x, hx, he⟩ := Option.bind_eq_some_iff.mp he
  obtain ⟨h1, h2, h3, h4⟩ := I.broadcast x hx
  split at he
  · cases he
    exact ⟨I.waits, I.granted, I.ungranted, I.past, I.numbered, I.started, I.once, I.caused,
      fun y hy => by cases hy⟩
  · rename_i hleft
    obtain ⟨s₁, hp, rfl⟩ := Option.map_eq_some_iff.mp he
    obtain ⟨u, hw, hgrants, hbegan, hclock, -, hwait, I'⟩ := I.post h1 (hf x hx hleft) hp
    refine ⟨I'.waits, I'.granted, I'.ungranted, I'.past, I'.numbered, I'.started, I'.once,
      I'.caused, fun y hy => ?_⟩
    cases hy
    refine ⟨?_, fun g hg hgn => ?_, ?_, fun v hv => ?_⟩
    · show x.number < s₁.clock
      rw [hclock]
      exact h1
    · have hg' : g ∈ s₁.grants := hg
      rw [hgrants] at hg'
      rcases List.mem_append.mp hg' with hg' | hg'
      · exact h2 g hg' hgn
      · rw [List.mem_singleton.mp hg']
        exact ⟨rfl, h4 u hw⟩
    · have hlen : (s₁.grants.filter fun g => g.number = x.number).length =
          (s.grants.filter fun g => g.number = x.number).length + 1 := by
        rw [hgrants, List.filter_append, List.length_append,
          List.filter_cons_of_pos (by simp)]
        rfl
      show (s₁.grants.filter fun g => g.number = x.number).length + (x.left - 1) = x.seen.length
      omega
    · show (v, s₁.began v) ∈ x.seen
      rw [hbegan]
      exact h4 v (hwait v _ hv)

theorem Inv.signal (I : Inv s) (hb : s.broadcast = none) : Inv (pthreadCondSignal t c s) := by
  refine ⟨I.waits, I.granted, I.ungranted, fun g hg => ?_, fun v x hx => ?_, fun v d w hv => ?_,
    I.once, I.caused, fun x hx => ?_⟩
  · have := I.past g hg
    exact ⟨Nat.lt_succ_of_lt this.1, Nat.lt_succ_of_lt this.2⟩
  · show x.number < s.clock + 1
    have hx' : x ∈ update s.signals t _ v := hx
    by_cases h : v = t
    · rw [h, update_self] at hx'
      split at hx'
      · cases hx'
        exact Nat.lt_succ_self _
      · cases hx'
    · rw [update_of_ne h] at hx'
      exact Nat.lt_succ_of_lt (I.numbered v x hx')
  · exact Nat.lt_succ_of_lt (I.started v d w hv)
  · have hx' : s.broadcast = some x := hx
    rw [hb] at hx'
    cases hx'

theorem Inv.broadcastStart (I : Inv s) : Inv (pthreadCondBroadcast c s) := by
  have hcount := I.waits.law.counted (.cond c)
  have hle := I.waits.atMost c
  refine ⟨I.waits, I.granted, I.ungranted, fun g hg => ?_, fun v x hx => ?_, fun v d w hv => ?_,
    I.once, I.caused, fun x hx => ?_⟩
  · have := I.past g hg
    exact ⟨Nat.lt_succ_of_lt this.1, Nat.lt_succ_of_lt this.2⟩
  · exact Nat.lt_succ_of_lt (I.numbered v x hx)
  · exact Nat.lt_succ_of_lt (I.started v d w hv)
  · cases hx
    have hnone : ∀ g ∈ s.grants, g.number ≠ s.clock := by
      intro g hg
      have := (I.past g hg).2
      omega
    refine ⟨Nat.lt_succ_self _, fun g hg hgn => absurd hgn (hnone g hg), ?_, fun v hv => ?_⟩
    · have hempty : (s.grants.filter fun g => g.number = s.clock) = [] := by
        apply List.filter_eq_nil_iff.mpr
        intro g hg
        simpa using hnone g hg
      show (s.grants.filter fun g => g.number = s.clock).length +
        (-s.base.sems.semcount (.cond c)).toNat =
          ((waiters s.base.sems (.cond c)).map fun u => (u, s.began u)).length
      rw [hempty, List.length_map, List.length_nil]
      omega
    · exact List.mem_map.mpr ⟨v, I.waits.mem_waiters.mpr hv, rfl⟩

theorem Inv.step {i : Op} (I : Inv s) (hv : i.valid s) (hf : i.finds s)
    (he : i.exec s = some s') : Inv s' := by
  cases i with
  | lock t m =>
    obtain ⟨b, hb, rfl⟩ := Option.map_eq_some_iff.mp he
    obtain ⟨W, O, hn⟩ := I.waits.lock hv.2.1.2 hb
    exact I.quiet W (quiet_of_others O hn)
  | trylock t m =>
    cases he
    obtain ⟨W, hc⟩ := I.waits.trylock (m := m) hv.2.1.2
    exact I.quiet W (quiet_of_eq hc)
  | unlock t m =>
    obtain ⟨b, hb, rfl⟩ := Option.map_eq_some_iff.mp he
    obtain ⟨W, hc⟩ := I.waits.unlock hb
    exact I.quiet W (quiet_of_eq hc)
  | wait t m c timed =>
    cases he
    exact I.wait hv.1 hv.2.1.2 timed
  | step t => exact I.threadStep hv.1 hv.2 he
  | signal t c =>
    cases he
    exact I.signal hv.1
  | signalPost t => exact I.signalPost hv hf he
  | broadcast t c =>
    cases he
    exact I.broadcastStart
  | broadcastStep => exact I.broadcastStep hf he
  | timeout t =>
    obtain ⟨b, hb, rfl⟩ := Option.map_eq_some_iff.mp he
    obtain ⟨W, O, hself⟩ := I.waits.waitirq hb
    refine I.quiet W fun u d w hu => ?_
    by_cases hut : u = t
    · subst hut
      rcases hself with heq | ⟨c, hc, hi⟩
      · exact ⟨w, heq.symm.trans hu, Iff.rfl, fun hw => .inl hw⟩
      · cases hi.symm.trans hu
        exact ⟨_, hc, by simp, fun _ => .inl rfl⟩
    · exact ⟨w, (O u hut).symm.trans hu, Iff.rfl, fun hw => .inl hw⟩
  | setpriority t p =>
    cases he
    refine I.quiet ⟨I.waits.law.schedSetpriority, ?_, ?_⟩ (quiet_of_eq fun _ => rfl)
    · intro u
      have hw : (schedSetpriority t p s.base.sems).waitsem = s.base.sems.waitsem := by
        unfold schedSetpriority
        dsimp only
        split <;> rfl
      show (schedSetpriority t p s.base.sems).waitsem u = _
      rw [hw]
      exact I.waits.waits u
    · intro c
      have hs : (schedSetpriority t p s.base.sems).semcount = s.base.sems.semcount := by
        unfold schedSetpriority
        dsimp only
        split <;> rfl
      show (schedSetpriority t p s.base.sems).semcount (.cond c) ≤ 0
      rw [hs]
      exact I.waits.atMost c

theorem CondStart.inv (h : CondStart s) : Inv s := by
  have hcond : ∀ t, condOf s.base t = none := by
    intro t
    unfold condOf
    rw [h.base.call]
    rfl
  have hsem : ∀ i, 0 ≤ s.base.sems.semcount i := by
    intro i
    cases i with
    | mutex m =>
      rw [(h.base.mutex m).2.2]
      decide
    | cond c =>
      rw [h.base.cond c]
  have hsig := h.signals
  refine ⟨⟨Law.of_empty h.base.waitsem h.base.waiting hsem, fun t => ?_, fun c => ?_⟩,
    fun t c hc => ?_, fun t c w hc => ?_, fun g hg => ?_, fun t x hx => ?_, fun t c w hc => ?_, ?_,
    fun c t n hm => ?_, fun x hx => ?_⟩
  · rw [h.base.waitsem, h.base.call]
    rfl
  · rw [h.base.cond c]
  · rw [hcond t] at hc
    cases hc
  · rw [hcond t] at hc
    cases hc
  · rw [h.grants] at hg
    cases hg
  · rw [hsig] at hx
    cases hx
  · rw [hcond t] at hc
    cases hc
  · rw [h.grants]
    exact List.nodup_nil
  · rw [h.successes] at hm
    cases hm
  · rw [h.broadcast] at hx
    cases hx

theorem Inv.woken (I : Inv s) {x : Broadcast} (hx : s.broadcast = some x) (h0 : x.left = 0)
    {n : Nat} (hm : (t, n) ∈ x.seen) : ⟨x.cond, t, n, x.number⟩ ∈ s.grants := by
  obtain ⟨-, h2, h3, -⟩ := I.broadcast x hx
  let woke := s.grants.filter fun g => g.number = x.number
  have hwoke : ∀ g ∈ woke, g ∈ s.grants ∧ g.number = x.number := by
    intro g hg
    obtain ⟨hg, hgn⟩ := List.mem_filter.mp hg
    exact ⟨hg, of_decide_eq_true hgn⟩
  have hnodup : (woke.map fun g => (g.thread, g.wait)).Nodup := by
    apply (I.once.filter _).map_on
    intro a ha b hb hab
    obtain ⟨ha, han⟩ := hwoke a ha
    obtain ⟨hb, hbn⟩ := hwoke b hb
    have hc := (h2 a ha han).1.trans (h2 b hb hbn).1.symm
    cases a
    cases b
    simp only at hc han hbn
    simp only [Prod.mk.injEq] at hab
    obtain ⟨rfl, rfl⟩ := hab
    rw [hc, han, hbn]
  have hsub : (woke.map fun g => (g.thread, g.wait)) ⊆ x.seen := by
    intro p hp
    obtain ⟨g, hg, rfl⟩ := List.mem_map.mp hp
    obtain ⟨hg, hgn⟩ := hwoke g hg
    exact (h2 g hg hgn).2
  have hperm := (List.subperm_of_subset hnodup hsub).perm_of_length_le (by
    rw [List.length_map]
    show x.seen.length ≤ (s.grants.filter fun g => g.number = x.number).length
    omega)
  obtain ⟨g, hg, hgp⟩ := List.mem_map.mp (hperm.mem_iff.mpr hm)
  obtain ⟨hg, hgn⟩ := hwoke g hg
  have hc := (h2 g hg hgn).1
  cases g
  simp only at hc hgn
  simp only [Prod.mk.injEq] at hgp
  obtain ⟨rfl, rfl⟩ := hgp
  rw [← hc, ← hgn]
  exact hg

end

/-- Where each post finds a thread that the call has seen waiting, no wake-up is stored,
each wait that succeeds was woken by a call made after it began, and a broadcast wakes
all the threads that wait. -/
theorem wakeups_unstored {s : Sys}
    (h : Reach condMachine CondStart (fun s i => i.finds s) s) : CondCorrect s := by
  have I : Inv s := by
    apply Reach.invariant (I := Inv) _ _ h
    · exact fun s hs => hs.inv
    · exact fun s i s' I hv hf he => I.step hv hf he
  exact ⟨I.waits.atMost, I.caused, fun x hx h0 t n hm => I.woken hx h0 hm⟩

def condBoot : Sys where
  base := { mutexBoot with mutex := fun _ => ⟨0, false, 0⟩ }
  signals _ := none
  broadcast := none
  clock := 0
  began _ := 0
  grants := []
  successes := []

theorem condBoot_start : CondStart condBoot where
  base := ⟨fun _ => ⟨rfl, rfl, rfl⟩, fun _ => rfl, rfl, rfl, rfl, rfl, rfl⟩
  signals := rfl
  broadcast := rfl
  grants := rfl
  successes := rfl

/-- Two threads wait, a signal wakes one of them and a broadcast the other. -/
theorem wakeups_unstored_run : ∃ s : Sys, s.successes = [(9, 2, 0)] ∧
    (s.broadcast.any fun x => x.left = 0) = true ∧ CondCorrect s := by
  have hr : ((runAll condMachine (fun s i => i.finds s) condBoot
      [.lock 2 5, .wait 2 5 9 false, .step 2, .lock 3 5, .wait 3 5 9 true, .step 3,
        .signal 4 9, .signalPost 4, .step 2, .broadcast 4 9, .broadcastStep]).any fun s =>
        decide (s.successes = [(9, 2, 0)] ∧ (s.broadcast.any fun x => x.left = 0) = true)) =
      true := by
    decide +kernel
  obtain ⟨s, hs, hd⟩ := (Option.any_eq_true _ _).mp hr
  obtain ⟨h1, h2⟩ := of_decide_eq_true hd
  exact ⟨s, h1, h2, wakeups_unstored (Reach.runAll (.init condBoot_start) hs)⟩

/-- Two signals read the count of one waiter before either posts. -/
theorem wakeup_stored : ¬∀ s, Reachable condMachine CondStart s → CondCorrect s := by
  intro hall
  have hr : ((runAll condMachine (fun _ _ => True) condBoot
      [.lock 2 5, .wait 2 5 9 false, .step 2, .signal 3 9, .signal 4 9, .signalPost 3,
        .signalPost 4]).any fun s => decide (0 < s.base.sems.semcount (.cond 9))) = true := by
    decide +kernel
  obtain ⟨s, hs, hd⟩ := (Option.any_eq_true _ _).mp hr
  have h := (hall s (Reach.runAll (.init condBoot_start) hs)).unstored 9
  have := of_decide_eq_true hd
  omega

end NuttxAvr32.Pthread.Condvar
