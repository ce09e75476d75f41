import Mathlib.Data.List.Count
import Mathlib.Data.List.TakeWhile
import NuttxAvr32.Time.Clock

/-! # The work queue

A pass of the worker thread over `g_work`. While a worker runs, interrupts are enabled: the
worker and interrupt handlers queue and cancel work, and ticks pass.
-/

namespace NuttxAvr32.Work

open Time (uint32 usecPerTick)
open Function (update update_self update_of_ne)

structure WorkS where
  worker : Nat
  arg : Nat
  qtime : Nat
  delay : Nat
deriving DecidableEq, Repr

/-- `g_work` by the addresses of its entries, the entries and `g_system_timer`. -/
structure State where
  gWork : List Nat
  work : Nat → WorkS
  gSystemTimer : Nat

abbrev configSchedWorkperiod : Nat := 50000

def workQueue (w worker arg delay : Nat) (s : State) : State :=
  { s with
    work := update s.work w ⟨worker, arg, s.gSystemTimer, delay⟩
    gWork := s.gWork ++ [w] }

/-- `dq_rem`, and `work->worker = NULL` -/
def remove (w : Nat) (s : State) : State :=
  { s with
    gWork := s.gWork.erase w
    work := update s.work w { s.work w with worker := 0 } }

def workCancel (w : Nat) (s : State) : State :=
  if (s.work w).worker ≠ 0 then remove w s else s

inductive Act
  | queue (w worker arg delay : Nat)
  | cancel (w : Nat)
  | tick
deriving DecidableEq, Repr

namespace Act

def exec : Act → State → State
  | queue w worker arg delay, s => workQueue w worker arg delay s
  | cancel w, s => workCancel w s
  | tick, s => { s with gSystemTimer := uint32 (s.gSystemTimer + 1) }

/-- Work that is queued is not queued again, and what `work_cancel` removes is queued. -/
def valid (s : State) : Act → Prop
  | queue w _ _ delay => w ∉ s.gWork ∧ delay < 4294967296
  | cancel w => (s.work w).worker ≠ 0 → w ∈ s.gWork
  | tick => True

instance decidableValid (s : State) (a : Act) : Decidable (a.valid s) :=
  match a with
  | queue w _ _ delay => inferInstanceAs (Decidable (w ∉ s.gWork ∧ delay < 4294967296))
  | cancel w => inferInstanceAs (Decidable ((s.work w).worker ≠ 0 → w ∈ s.gWork))
  | tick => inferInstanceAs (Decidable True)

end Act

/-- Why a run was not followed to the end of the pass. -/
inductive Stop
  | fuel
  | misuse
deriving DecidableEq, Repr

def acts : List Act → State → Except Stop State
  | [], s => .ok s
  | a :: as, s => if a.valid s then acts as (a.exec s) else .error .misuse

def elapsed (s : State) (w : Nat) : Nat := uint32 ((s.gSystemTimer : Int) - (s.work w).qtime)

def ready (s : State) (w : Nat) : Bool := decide ((s.work w).delay ≤ elapsed s w)

/-- The scan up to the first entry that is ready, and `next` after it. -/
def scan (s : State) (next : Nat) : List Nat → Option Nat × Nat
  | [] => (none, next)
  | w :: rest =>
    if ready s w then (some w, next)
    else
      let remaining := uint32 ((elapsed s w : Int) - (s.work w).delay)
      if remaining < next then scan s remaining rest else scan s next rest

/-- A call of a worker: `found` is the state in which its entry was found, and `start` that in
which it starts. -/
structure Call where
  work : Nat
  worker : Nat
  arg : Nat
  found : State
  start : State

structure Slept where
  calls : List Call
  state : State
  usec : Nat

/-- The loop over `g_work`, each time from its head. `env k` is what happens while the worker that
is called in turn `k` runs. -/
def workLoop (env : Nat → List Act) : Nat → Nat → Nat → State → Except Stop Slept
  | 0, _, _, _ => .error .fuel
  | fuel + 1, k, next, s =>
    match scan s next s.gWork with
    | (none, next) => .ok ⟨[], s, next * usecPerTick⟩
    | (some w, next) =>
      match acts (env k) (remove w s) with
      | .error e => .error e
      | .ok s' =>
        match workLoop env fuel (k + 1) next s' with
        | .error e => .error e
        | .ok r => .ok { r with
            calls := ⟨w, (s.work w).worker, (s.work w).arg, s, remove w s⟩ :: r.calls }

/-- One pass of `work_thread`, from the end of a sleep to the next one. -/
def workThread (env : Nat → List Act) (fuel : Nat) (s : State) : Except Stop Slept :=
  workLoop env fuel 0 (configSchedWorkperiod / usecPerTick) s

/-- The ticks until an entry that is not ready becomes ready. -/
def remaining (s : State) (w : Nat) : Nat := (s.work w).delay - elapsed s w

namespace Act

def queues (w : Nat) : Act → Bool
  | queue x _ _ _ => x == w
  | _ => false

def cancels (w : Nat) : Act → Bool
  | cancel x => x == w
  | _ => false

def isQueue : Act → Bool
  | queue _ _ _ _ => true
  | _ => false

end Act

/-- What happens while the workers that are called in turns `k` to `k + n - 1` run. -/
def script (env : Nat → List Act) (k n : Nat) : List Act := (List.range' k n).flatMap env

/-- A worker is called for an entry whose delay has elapsed and that has been removed. -/
structure Call.Due (c : Call) : Prop where
  queued : c.work ∈ c.found.gWork
  ready : ready c.found c.work = true
  worker : c.worker = (c.found.work c.work).worker
  arg : c.arg = (c.found.work c.work).arg
  removed : c.work ∉ c.start.gWork
  cleared : (c.start.work c.work).worker = 0
  others : ∀ x, x ≠ c.work → (x ∈ c.start.gWork ↔ x ∈ c.found.gWork) ∧
    c.start.work x = c.found.work x

/-- `once`: an entry is called at most once each time that it is queued. `kept`: it leaves the
queue only for its call or where it is cancelled. -/
structure Serves (env : Nat → List Act) (s : State) (r : Slept) : Prop where
  due : ∀ c ∈ r.calls, c.Due
  once : ∀ w, (r.calls.map Call.work).count w + r.state.gWork.count w ≤
    s.gWork.count w + (script env 0 r.calls.length).countP (Act.queues w)
  kept : ∀ w, s.gWork.count w + (script env 0 r.calls.length).countP (Act.queues w) ≤
    (r.calls.map Call.work).count w + r.state.gWork.count w +
      (script env 0 r.calls.length).countP (Act.cancels w)
  done : ∀ w ∈ r.state.gWork, ready r.state w = false
  sleep : r.usec = (r.state.gWork.map fun w => remaining r.state w * usecPerTick).foldl min
    configSchedWorkperiod

/-- The pass as it should go, without the time of the next sleep: the first entry that is ready is
served, again and again. -/
def turns (env : Nat → List Act) : Nat → Nat → State → Except Stop (List Call × State)
  | 0, _, _ => .error .fuel
  | fuel + 1, k, s =>
    match s.gWork.find? (ready s) with
    | none => .ok ([], s)
    | some w =>
      match acts (env k) (remove w s) with
      | .error e => .error e
      | .ok s' =>
        match turns env fuel (k + 1) s' with
        | .error e => .error e
        | .ok r =>
          .ok (⟨w, (s.work w).worker, (s.work w).arg, s, remove w s⟩ :: r.1, r.2)

/-- The ticks until the entries before the first one that is ready become ready. -/
def waiting (s : State) : List Nat :=
  (s.gWork.takeWhile fun w => !ready s w).map (remaining s)

def seen (calls : List Call) (last : State) : List Nat :=
  (calls.flatMap fun c => waiting c.found) ++ waiting last

/-- No waiting time comes within a period of `2 ^ 32` and none of those left is shorter than the
period; or the shortest of those left and the longest of all add up to `2 ^ 32`. -/
def Mirrored (period : Nat) (seen left : List Nat) : Prop :=
  ((∀ r ∈ seen, r + period ≤ 4294967296) ∧ ∀ r ∈ left, period ≤ r) ∨
    ∃ r ∈ left, r < period ∧ (∀ x ∈ left, r ≤ x) ∧ 4294967296 - r ∈ seen ∧
      ∀ x ∈ seen, x + r ≤ 4294967296

/-- The queue is a list without repetitions, and the delays are words. -/
structure Wf (s : State) : Prop where
  nodup : s.gWork.Nodup
  delay : ∀ w ∈ s.gWork, (s.work w).delay < 4294967296

section

variable {env : Nat → List Act} {s s' : State} {w : Nat}

theorem Wf.remove (h : Wf s) (w : Nat) : Wf (remove w s) where
  nodup := h.nodup.erase w
  delay x hx := by
    obtain ⟨hne, hmem⟩ := h.nodup.mem_erase_iff.mp hx
    show (update s.work w _ x).delay < _
    rw [update_of_ne hne]
    exact h.delay x hmem

theorem Wf.exec (h : Wf s) {a : Act} (hv : a.valid s) : Wf (a.exec s) := by
  cases a with
  | queue w worker arg delay =>
    constructor
    · exact (List.perm_append_singleton w _).nodup_iff.mpr (List.nodup_cons.mpr ⟨hv.1, h.nodup⟩)
    · intro x hx
      show (update s.work w _ x).delay < _
      by_cases hxw : x = w
      · rw [hxw, update_self]
        exact hv.2
      · rw [update_of_ne hxw]
        rcases List.mem_append.mp hx with hold | hnew
        · exact h.delay x hold
        · exact absurd (List.mem_singleton.mp hnew) hxw
  | cancel w =>
    show Wf (workCancel w s)
    unfold workCancel
    split
    · exact h.remove w
    · exact h
  | tick => exact ⟨h.nodup, h.delay⟩

theorem acts_cons {a : Act} {as : List Act} (h : acts (a :: as) s = .ok s') :
    a.valid s ∧ acts as (a.exec s) = .ok s' := by
  unfold acts at h
  split at h
  · exact ⟨‹_›, h⟩
  · cases h

theorem Wf.acts {as : List Act} (h : Wf s) (he : acts as s = .ok s') : Wf s' := by
  induction as generalizing s with
  | nil =>
    cases he
    exact h
  | cons a as ih =>
    obtain ⟨hv, he⟩ := acts_cons he
    exact ih (h.exec hv) he

theorem acts_stop {as : List Act} {e : Stop} (he : Work.acts as s = .error e) : e = .misuse := by
  induction as generalizing s with
  | nil => cases he
  | cons a as ih =>
    unfold Work.acts at he
    split at he
    · exact ih he
    · cases he
      rfl

theorem exec_count (a : Act) (s : State) (w : Nat) :
    (a.exec s).gWork.count w ≤ s.gWork.count w + (if a.queues w then 1 else 0) ∧
      s.gWork.count w + (if a.queues w then 1 else 0) ≤
        (a.exec s).gWork.count w + (if a.cancels w then 1 else 0) := by
  cases a with
  | queue x worker arg delay =>
    show (s.gWork ++ [x]).count w ≤ _ ∧ _ ≤ (s.gWork ++ [x]).count w + _
    rw [List.count_append, List.count_singleton]
    simp only [Act.queues, Act.cancels]
    by_cases hxw : x = w
    · simp [hxw]
    · simp [hxw]
  | cancel x =>
    show (workCancel x s).gWork.count w ≤ _ ∧ _ ≤ (workCancel x s).gWork.count w + _
    unfold workCancel
    simp only [Act.queues, Act.cancels]
    split
    · show (s.gWork.erase x).count w ≤ _ ∧ _ ≤ (s.gWork.erase x).count w + _
      by_cases hxw : x = w
      · rw [hxw, List.count_erase_self]
        simp only [Bool.false_eq_true, if_false, BEq.rfl, if_true]
        omega
      · rw [List.count_erase_of_ne (Ne.symm hxw)]
        simp
    · simp
  | tick => exact ⟨Nat.le_refl _, Nat.le_refl _⟩

theorem acts_count {as : List Act} (he : acts as s = .ok s') (w : Nat) :
    s'.gWork.count w ≤ s.gWork.count w + as.countP (Act.queues w) ∧
      s.gWork.count w + as.countP (Act.queues w) ≤
        s'.gWork.count w + as.countP (Act.cancels w) := by
  induction as generalizing s with
  | nil =>
    cases he
    exact ⟨Nat.le_refl _, Nat.le_refl _⟩
  | cons a as ih =>
    obtain ⟨-, he⟩ := acts_cons he
    have hone := exec_count a s w
    have hrest := ih he
    rw [List.countP_cons, List.countP_cons]
    omega

theorem exec_length (a : Act) (s : State) :
    (a.exec s).gWork.length ≤ s.gWork.length + (if a.isQueue then 1 else 0) := by
  cases a with
  | queue x worker arg delay =>
    show (s.gWork ++ [x]).length ≤ _
    rw [List.length_append]
    exact Nat.le_refl _
  | cancel x =>
    show (workCancel x s).gWork.length ≤ _
    unfold workCancel
    split
    · exact List.length_erase_le
    · exact Nat.le_refl _
  | tick => exact Nat.le_refl _

theorem acts_length {as : List Act} (he : acts as s = .ok s') :
    s'.gWork.length ≤ s.gWork.length + as.countP Act.isQueue := by
  induction as generalizing s with
  | nil =>
    cases he
    exact Nat.le_refl _
  | cons a as ih =>
    obtain ⟨-, he⟩ := acts_cons he
    have hone := exec_length a s
    have hrest := ih he
    rw [List.countP_cons]
    omega

theorem script_succ (env : Nat → List Act) (k n : Nat) :
    script env k (n + 1) = env k ++ script env (k + 1) n := by
  unfold script
  rw [List.range'_succ, List.flatMap_cons]

theorem wrapped_remaining (hd : (s.work w).delay < 4294967296) (hr : ready s w = false) :
    uint32 ((elapsed s w : Int) - (s.work w).delay) = 4294967296 - remaining s w := by
  have hlt : elapsed s w < (s.work w).delay := by
    have hle := of_decide_eq_false hr
    omega
  unfold uint32 remaining
  omega

theorem scan_eq {next : Nat} (l : List Nat) (hd : ∀ w ∈ l, (s.work w).delay < 4294967296) :
    scan s next l = (l.find? (ready s),
      (((l.takeWhile fun w => !ready s w).map (remaining s)).map (4294967296 - ·)).foldl min
        next) := by
  induction l generalizing next with
  | nil => rfl
  | cons w rest ih =>
    have hrest := fun x hx => hd x (List.mem_cons_of_mem w hx)
    unfold scan
    cases hr : ready s w with
    | true =>
      rw [List.find?_cons_of_pos hr, List.takeWhile_cons_of_neg (by simp [hr])]
      rfl
    | false =>
      rw [List.find?_cons_of_neg (by simp [hr]), List.takeWhile_cons_of_pos (by simp [hr]),
        wrapped_remaining (hd w List.mem_cons_self) hr, List.map_cons, List.map_cons,
        List.foldl_cons]
      dsimp only
      rw [if_neg Bool.false_ne_true]
      split
      · rename_i hlt
        rw [ih hrest, Nat.min_eq_right (Nat.le_of_lt hlt)]
      · rename_i hle
        rw [ih hrest, Nat.min_eq_left (Nat.le_of_not_lt hle)]

theorem seen_cons (c : Call) (calls : List Call) (last : State) :
    seen (c :: calls) last = waiting c.found ++ seen calls last := by
  unfold seen
  rw [List.flatMap_cons, List.append_assoc]

theorem workLoop_eq (h : Wf s) (fuel k next : Nat) :
    workLoop env fuel k next s = (turns env fuel k s).map fun r =>
      ⟨r.1, r.2, ((seen r.1 r.2).map (4294967296 - ·)).foldl min next * usecPerTick⟩ := by
  induction fuel generalizing k next s with
  | zero => rfl
  | succ fuel ih =>
    unfold workLoop turns
    rw [scan_eq _ h.delay]
    cases hfind : s.gWork.find? (ready s) with
    | none => rfl
    | some w =>
      dsimp only
      cases hacts : acts (env k) (remove w s) with
      | error e => rfl
      | ok s' =>
        dsimp only
        rw [ih ((h.remove w).acts hacts)]
        cases turns env fuel (k + 1) s' with
        | error e => rfl
        | ok r =>
          dsimp only [Except.map]
          rw [seen_cons, List.map_append, List.foldl_append, waiting]

theorem turns_succ {fuel k : Nat} {r : List Call × State}
    (he : turns env (fuel + 1) k s = .ok r) :
    (s.gWork.find? (ready s) = none ∧ r = ([], s)) ∨
      ∃ w s' r', s.gWork.find? (ready s) = some w ∧ acts (env k) (remove w s) = .ok s' ∧
        turns env fuel (k + 1) s' = .ok r' ∧
        r = (⟨w, (s.work w).worker, (s.work w).arg, s, remove w s⟩ :: r'.1, r'.2) := by
  unfold turns at he
  split at he
  · rename_i hfind
    cases he
    exact .inl ⟨hfind, rfl⟩
  · rename_i w hfind
    split at he
    · cases he
    · rename_i s' hacts
      split at he
      · cases he
      · rename_i r' hrest
        cases he
        exact .inr ⟨w, s', r', hfind, hacts, hrest, rfl⟩

theorem remove_due (h : Wf s) (hfind : s.gWork.find? (ready s) = some w) :
    Call.Due ⟨w, (s.work w).worker, (s.work w).arg, s, remove w s⟩ where
  queued := List.mem_of_find?_eq_some hfind
  ready := List.find?_some hfind
  worker := rfl
  arg := rfl
  removed hw := (h.nodup.mem_erase_iff.mp hw).1 rfl
  cleared := by
    show (update s.work w _ w).worker = 0
    rw [update_self]
  others x hx := ⟨List.mem_erase_of_ne hx, update_of_ne hx _ _⟩

theorem turns_due (h : Wf s) {fuel k : Nat} {r : List Call × State}
    (he : turns env fuel k s = .ok r) : ∀ c ∈ r.1, c.Due := by
  induction fuel generalizing k s r with
  | zero => cases he
  | succ fuel ih =>
    rcases turns_succ he with ⟨-, rfl⟩ | ⟨w, s', r', hfind, hacts, hrest, rfl⟩
    · intro c hc
      cases hc
    · intro c hc
      rcases List.mem_cons.mp hc with rfl | hc
      · exact remove_due h hfind
      · exact ih ((h.remove w).acts hacts) hrest c hc

theorem turns_done {fuel k : Nat} {r : List Call × State} (he : turns env fuel k s = .ok r) :
    ∀ w ∈ r.2.gWork, ready r.2 w = false := by
  induction fuel generalizing k s r with
  | zero => cases he
  | succ fuel ih =>
    rcases turns_succ he with ⟨hnone, rfl⟩ | ⟨w, s', r', -, -, hrest, rfl⟩
    · intro w hw
      exact Bool.eq_false_iff.mpr (List.find?_eq_none.mp hnone w hw)
    · have hlast := ih hrest
      exact hlast

theorem turns_count {fuel k : Nat} {r : List Call × State} (he : turns env fuel k s = .ok r)
    (w : Nat) : (r.1.map Call.work).count w + r.2.gWork.count w ≤
        s.gWork.count w + (script env k r.1.length).countP (Act.queues w) ∧
      s.gWork.count w + (script env k r.1.length).countP (Act.queues w) ≤
        (r.1.map Call.work).count w + r.2.gWork.count w +
          (script env k r.1.length).countP (Act.cancels w) := by
  induction fuel generalizing k s r with
  | zero => cases he
  | succ fuel ih =>
    rcases turns_succ he with ⟨-, rfl⟩ | ⟨x, s', r', hfind, hacts, hrest, rfl⟩
    · simp [script]
    · have htail := ih hrest
      have hmid := acts_count hacts w
      have htake : (remove x s).gWork.count w + (if x = w then 1 else 0) =
          s.gWork.count w := by
        show (s.gWork.erase x).count w + _ = _
        by_cases hxw : x = w
        · have hpos : 0 < s.gWork.count w :=
            List.count_pos_iff.mpr (hxw ▸ List.mem_of_find?_eq_some hfind)
          rw [hxw, List.count_erase_self, if_pos rfl]
          omega
        · rw [List.count_erase_of_ne (Ne.symm hxw), if_neg hxw]
          rfl
      have hcall : ((x :: r'.1.map Call.work).count w) =
          (r'.1.map Call.work).count w + (if x = w then 1 else 0) := by
        rw [List.count_cons]
        simp only [beq_iff_eq]
      dsimp only
      rw [List.map_cons, List.length_cons, script_succ, List.countP_append,
        List.countP_append, hcall]
      omega

theorem turns_fuel {fuel k : Nat} (he : turns env fuel k s = .error .fuel) :
    fuel ≤ s.gWork.length + (script env k fuel).countP Act.isQueue := by
  induction fuel generalizing k s with
  | zero => exact Nat.zero_le _
  | succ fuel ih =>
    unfold turns at he
    split at he
    · cases he
    · rename_i w hfind
      split at he
      · rename_i e hacts
        cases he
        have hstop := acts_stop hacts
        cases hstop
      · rename_i s' hacts
        split at he
        · rename_i e hrest
          cases he
          have htail := ih hrest
          have hmid := acts_length hacts
          have htake : (remove w s).gWork.length = s.gWork.length - 1 :=
            List.length_erase_of_mem (List.mem_of_find?_eq_some hfind)
          have hpos : 0 < s.gWork.length :=
            List.length_pos_of_mem (List.mem_of_find?_eq_some hfind)
          rw [script_succ, List.countP_append]
          omega
        · cases he

theorem foldl_min_spec (l : List Nat) (p : Nat) : l.foldl min p ≤ p ∧
    (∀ x ∈ l, l.foldl min p ≤ x) ∧ (l.foldl min p = p ∨ l.foldl min p ∈ l) := by
  induction l generalizing p with
  | nil =>
    refine ⟨Nat.le_refl p, ?_, .inl rfl⟩
    intro x hx
    cases hx
  | cons y l ih =>
    obtain ⟨hle, hall, hmem⟩ := ih (min p y)
    rw [List.foldl_cons]
    refine ⟨by omega, ?_, ?_⟩
    · intro x hx
      rcases List.mem_cons.mp hx with rfl | hx
      · omega
      · exact hall x hx
    · rcases hmem with heq | hmem
      · rcases Nat.le_total p y with hpy | hyp
        · rw [heq, Nat.min_eq_left hpy]
          exact .inl rfl
        · rw [heq, Nat.min_eq_right hyp]
          exact .inr List.mem_cons_self
      · exact .inr (List.mem_cons_of_mem y hmem)

theorem foldl_min_mul (l : List Nat) (f : Nat → Nat) (p c : Nat) :
    (l.map fun w => f w * c).foldl min (p * c) = (l.map f).foldl min p * c := by
  induction l generalizing p with
  | nil => rfl
  | cons x l ih =>
    rw [List.map_cons, List.map_cons, List.foldl_cons, List.foldl_cons, ← ih,
      Nat.mul_min_mul_right]

theorem mirrored_iff {period : Nat} {seen left : List Nat} (hperiod : 0 < period)
    (hpos : ∀ r ∈ left, 0 < r) :
    (seen.map (4294967296 - ·)).foldl min period = left.foldl min period ↔
      Mirrored period seen left := by
  obtain ⟨hle, hall, hmem⟩ := foldl_min_spec (seen.map (4294967296 - ·)) period
  obtain ⟨hle', hall', hmem'⟩ := foldl_min_spec left period
  have hseen : ∀ x ∈ seen, (seen.map (4294967296 - ·)).foldl min period ≤ 4294967296 - x :=
    fun x hx => hall _ (List.mem_map_of_mem hx)
  constructor
  · intro heq
    by_cases hp : left.foldl min period = period
    · refine .inl ⟨?_, ?_⟩
      · intro x hx
        have hx := hseen x hx
        omega
      · intro x hx
        have hx := hall' x hx
        omega
    · have hr := hmem'.resolve_left hp
      have hr0 := hpos _ hr
      refine .inr ⟨left.foldl min period, hr, by omega, hall', ?_, ?_⟩
      · obtain ⟨q, hq, hqr⟩ := List.mem_map.mp (hmem.resolve_left (by omega))
        have hq' : 4294967296 - left.foldl min period = q := by omega
        rw [hq']
        exact hq
      · intro x hx
        have hx := hseen x hx
        omega
  · rintro (⟨hfar, hlong⟩ | ⟨r, hr, hrp, hleast, hmirror, hfar⟩)
    · have hp : (seen.map (4294967296 - ·)).foldl min period = period := by
        rcases hmem with hp | hmem
        · exact hp
        · obtain ⟨q, hq, hqr⟩ := List.mem_map.mp hmem
          have hq' := hfar q hq
          omega
      have hp' : left.foldl min period = period := by
        rcases hmem' with hp' | hmem'
        · exact hp'
        · have hq' := hlong _ hmem'
          omega
      rw [hp, hp']
    · have hr0 := hpos r hr
      have hr' := hall' r hr
      have hleft : left.foldl min period = r := by
        rcases hmem' with hp' | hmem'
        · omega
        · have hq' := hleast _ hmem'
          omega
      have hm := hseen _ hmirror
      have hle2 := hfar _ hmirror
      rcases hmem with hp | hmem
      · omega
      · obtain ⟨q, hq, hqr⟩ := List.mem_map.mp hmem
        have hq' := hfar q hq
        omega

theorem remaining_pos (h : ready s w = false) : 0 < remaining s w := by
  have hle := of_decide_eq_false h
  unfold remaining
  omega

/-- A pass ends unless the workers queue work without end. It serves the entries as it should; it
computes the right sleep just if what its scans saw and what is left are mirrored at `2 ^ 32`. -/
theorem work_thread_pass (env : Nat → List Act) (h : Wf s) :
    (∀ fuel, s.gWork.length + (script env 0 fuel).countP Act.isQueue < fuel →
      workThread env fuel s ≠ .error .fuel) ∧
    ∀ fuel r, workThread env fuel s = .ok r → turns env fuel 0 s = .ok (r.calls, r.state) ∧
      (Serves env s r ↔ Mirrored (configSchedWorkperiod / usecPerTick) (seen r.calls r.state)
        (r.state.gWork.map (remaining r.state))) := by
  constructor
  · intro fuel hlt he
    unfold workThread at he
    rw [workLoop_eq h] at he
    cases hturns : turns env fuel 0 s with
    | error e =>
      rw [hturns] at he
      cases he
      have hle := turns_fuel hturns
      omega
    | ok r =>
      rw [hturns] at he
      cases he
  · intro fuel r he
    unfold workThread at he
    rw [workLoop_eq h] at he
    cases hturns : turns env fuel 0 s with
    | error e =>
      rw [hturns] at he
      cases he
    | ok r' =>
      rw [hturns] at he
      cases he
      refine ⟨rfl, ?_⟩
      have hdone := turns_done hturns
      have hpos : ∀ x ∈ r'.2.gWork.map (remaining r'.2), 0 < x := by
        intro x hx
        obtain ⟨w, hw, rfl⟩ := List.mem_map.mp hx
        exact remaining_pos (hdone w hw)
      have hsleep := foldl_min_mul r'.2.gWork (remaining r'.2)
        (configSchedWorkperiod / usecPerTick) usecPerTick
      rw [← mirrored_iff (by decide) hpos]
      constructor
      · intro hserves
        have heq := hserves.sleep.trans hsleep
        exact Nat.eq_of_mul_eq_mul_right (by decide) heq
      · intro heq
        refine ⟨turns_due h hturns, fun w => (turns_count hturns w).1,
          fun w => (turns_count hturns w).2, hdone, ?_⟩
        exact (congrArg (· * usecPerTick) heq).trans hsleep.symm

end

/-- One entry is ready and another has seven ticks left; the worker queues a third one. -/
def busy : State :=
  ⟨[10, 20], fun w => if w = 10 then ⟨1, 0, 95, 5⟩ else ⟨2, 0, 98, 9⟩, 100⟩

theorem work_thread_pass_busy : ∃ r,
    workThread (fun _ => [.tick, .queue 30 3 0 6]) 4 busy = .ok r ∧
      r.calls.map Call.work = [10] ∧ r.state.gWork = [20, 30] ∧
      Serves (fun _ => [.tick, .queue 30 3 0 6]) busy r := by
  have h : Wf busy := ⟨by decide, by decide⟩
  obtain ⟨r, hr, hcalls, hleft, hlong, hseen⟩ : ∃ r,
      workThread (fun _ => [.tick, .queue 30 3 0 6]) 4 busy = .ok r ∧
        r.calls.map Call.work = [10] ∧ r.state.gWork = [20, 30] ∧
        r.state.gWork.map (remaining r.state) = [6, 6] ∧
        seen r.calls r.state = [6, 6] := ⟨_, rfl, by decide, by decide, by decide, by decide⟩
  refine ⟨r, hr, hcalls, hleft, ?_⟩
  apply ((work_thread_pass _ h).2 4 r hr).2.mpr
  rw [hlong, hseen]
  exact .inl ⟨by decide, by decide⟩

/-- Two ticks before an entry is ready, the thread goes to sleep for five. -/
theorem work_thread_oversleeps : ¬ ∀ (env : Nat → List Act) (s : State), Wf s →
    ∀ fuel r, workThread env fuel s = .ok r → Serves env s r := by
  intro hall
  have h := hall (fun _ => []) ⟨[10], fun _ => ⟨1, 0, 0, 3⟩, 1⟩ ⟨by decide, by decide⟩ 1 _ rfl
  have hsleep := h.sleep
  revert hsleep
  decide

end NuttxAvr32.Work
