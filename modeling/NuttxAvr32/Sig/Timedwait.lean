import Mathlib.Algebra.Order.Ring.Int
import NuttxAvr32.Sig.Signal

/-! # The result of `sigtimedwait`

`sigtimedwait` with everything that its result depends on: the pending queue, the
watchdog with its ticks, and what `sig_received` and `sig_timeout` leave in
`sigunbinfo` while the task waits.
-/

namespace NuttxAvr32.Sig.Timedwait

structure Timespec where
  tvSec : Nat
  tvNsec : Int

def Timespec.interval (ts : Timespec) : Int := ts.tvSec * 1000000000 + ts.tvNsec

/-- `timeout->tv_sec * MSEC_PER_SEC + timeout->tv_nsec / NSEC_PER_MSEC`, in 32 bits. -/
def msecs (ts : Timespec) : Nat :=
  (((ts.tvSec : Int) * 1000 + ts.tvNsec.tdiv 1000000) % 4294967296).toNat

def msec2tick (m msec : Nat) : Nat := (msec + m / 2) % 4294967296 / m

def waitticks (m : Nat) (ts : Timespec) : Int :=
  let ticks := msec2tick m (msecs ts)
  if ticks < 2147483648 then ticks else (ticks : Int) - 4294967296

/-- The tick at which a watchdog started by `wd_start` fires; `none` where the delay is
refused. -/
def wdStart (delay : Int) : Option Nat :=
  if delay < 0 then none
  else if delay = 0 then some 1
  else if delay < 2147483647 then some (delay.toNat + 1)
  else some delay.toNat

abbrev siTimer : Nat := 2

/-- `ERROR` in a `uint8_t`. -/
abbrev errorSigno : Nat := 255

/-- What ended a wait: a signal, or the timeout at the given tick. -/
inductive Waker
  | signal (info : Siginfo)
  | timeout (ticks : Nat)
deriving DecidableEq

/-- The waiting task: its signals, the ticks until its watchdog fires and those since the
call. -/
structure Waiter where
  sigprocmask : Sigset
  sigwaitmask : Sigset
  sigpendingq : List Siginfo
  sigunbinfo : Siginfo
  waitSig : Bool
  timer : Option Nat
  ticks : Nat
  woken : Option Waker
deriving DecidableEq

/-- The arguments, where `info` says that it is not `NULL` and `wdog` that `wd_create` has a
watchdog to give. -/
structure Args where
  set : Sigset
  info : Bool
  timeout : Option Timespec
  wdog : Bool

inductive Result
  | panic
  /-- `info->si_signo` with `info` being `NULL` -/
  | fault
  | returned (ret : Int) (w : Waiter)
  | blocked (w : Waiter)

def sigPendingset (q : List Siginfo) : Sigset :=
  q.foldl (fun set i => set ||| signo2set i.siSigno) nullSignalSet

/-- `sig_removependingsignal`: the node and the queue without it. -/
def sigRemovependingsignal (signo : Nat) : List Siginfo → Option (Siginfo × List Siginfo)
  | [] => none
  | currsig :: rest =>
    if currsig.siSigno ≠ signo then
      (sigRemovependingsignal signo rest).map fun r => (r.1, currsig :: r.2)
    else some (currsig, rest)

def finish (a : Args) (w : Waiter) : Result :=
  if a.info then .returned w.sigunbinfo.siSigno { w with sigwaitmask := nullSignalSet } else .fault

def sigtimedwait (m : Nat) (a : Args) (w : Waiter) : Result :=
  match sigLowest (a.set &&& sigPendingset w.sigpendingq) with
  | some signo =>
    match sigRemovependingsignal signo w.sigpendingq with
    | none => .panic
    | some (i, q) =>
      if a.info then .returned i.siSigno { w with sigpendingq := q } else .fault
  | none =>
    let w := { w with sigwaitmask := a.set, ticks := 0, timer := none, woken := none }
    match a.timeout with
    | some ts =>
      if a.wdog then .blocked { w with waitSig := true, timer := wdStart (waitticks m ts) }
      else finish a w
    | none => .blocked { w with waitSig := true }

inductive Event
  | signal (info : Siginfo)
  | tick
deriving DecidableEq

def unblock (i : Siginfo) (by' : Waker) (w : Waiter) : Waiter :=
  { w with sigunbinfo := i, waitSig := false, woken := some by' }

def sigAddpendingsignal (i : Siginfo) (w : Waiter) : Waiter :=
  { w with sigpendingq :=
      if w.sigpendingq.any fun j => j.siSigno = i.siSigno then
        w.sigpendingq.map fun j => if j.siSigno = i.siSigno then i else j
      else w.sigpendingq ++ [i] }

def sigReceived (i : Siginfo) (w : Waiter) : Waiter :=
  if sigismember w.sigprocmask i.siSigno then
    if w.waitSig ∧ sigismember w.sigwaitmask i.siSigno then
      { unblock i (.signal i) w with sigwaitmask := nullSignalSet }
    else sigAddpendingsignal i w
  else if w.waitSig then { unblock i (.signal i) w with sigwaitmask := nullSignalSet }
  else w

def sigTimeout (w : Waiter) : Waiter :=
  if w.waitSig then unblock ⟨errorSigno, siTimer, 0⟩ (.timeout w.ticks) w else w

def Event.apply (w : Waiter) : Event → Waiter
  | .signal i => sigReceived i w
  | .tick =>
    let w := { w with ticks := w.ticks + 1 }
    match w.timer with
    | none => w
    | some n => if n ≤ 1 then sigTimeout { w with timer := none }
        else { w with timer := some (n - 1) }

abbrev after (w : Waiter) (es : List Event) : Waiter := es.foldl Event.apply w

def Pending (set : Sigset) (q : List Siginfo) (signo : Nat) : Prop :=
  sigismember set signo = true ∧ ∃ i ∈ q, i.siSigno = signo

/-- The first entry with the lowest pending signal of the set leaves the queue. -/
def TakesLowest (m : Nat) (a : Args) (w : Waiter) : Prop :=
  ∃ l₁ i l₂, w.sigpendingq = l₁ ++ i :: l₂ ∧ Pending a.set w.sigpendingq i.siSigno ∧
    (∀ n < i.siSigno, ¬ Pending a.set w.sigpendingq n) ∧ (∀ j ∈ l₁, j.siSigno ≠ i.siSigno) ∧
    sigtimedwait m a w = .returned i.siSigno { w with sigpendingq := l₁ ++ l₂ }

/-- The timeout at a tick is not early when the call was made `phase` nanoseconds before
the next tick. -/
def NotEarly (m phase : Nat) (ts : Timespec) (ticks : Nat) : Prop :=
  ts.interval ≤ phase + ((ticks : Int) - 1) * (m * 1000000)

def RightResult (m phase : Nat) (a : Args) (ret : Int) : Waker → Prop
  | .signal i => ret = i.siSigno
  | .timeout ticks => ret = -1 ∧ ∀ ts ∈ a.timeout, NotEarly m phase ts ticks

/-- The task blocks with its mask, and once it is woken it returns what woke it. -/
def Waits (m phase : Nat) (a : Args) (w : Waiter) (es : List Event) : Prop :=
  ∃ b, sigtimedwait m a w = .blocked b ∧ b.waitSig = true ∧ b.sigwaitmask = a.set ∧
    b.sigpendingq = w.sigpendingq ∧ ∀ waker, (after b es).woken = some waker →
      ∃ ret w', finish a (after b es) = .returned ret w' ∧ RightResult m phase a ret waker

def Correct (m phase : Nat) (a : Args) (w : Waiter) (es : List Event) : Prop :=
  ((∃ n, Pending a.set w.sigpendingq n) → TakesLowest m a w) ∧
    ((∀ n, ¬ Pending a.set w.sigpendingq n) → Waits m phase a w es)

/-- A signal that ends the wait: one of the set, or one that is not blocked. -/
def ends (set procmask : Sigset) (i : Siginfo) : Bool :=
  !sigismember procmask i.siSigno || sigismember set i.siSigno

/-- What ends a wait with so many ticks to go, after some ticks. -/
def firstEnd (set procmask : Sigset) (ticks : Nat) : Option Nat → List Event → Option Waker
  | _, [] => none
  | timer, .signal i :: es =>
    if ends set procmask i then some (.signal i) else firstEnd set procmask ticks timer es
  | none, .tick :: es => firstEnd set procmask (ticks + 1) none es
  | some n, .tick :: es =>
    if n ≤ 1 then some (.timeout (ticks + 1))
    else firstEnd set procmask (ticks + 1) (some (n - 1)) es

def Args.timer (m : Nat) (a : Args) : Option Nat := a.timeout.bind fun ts => wdStart (waitticks m ts)

/-- `info` is given, there is a watchdog for the timeout, and a signal comes before it. -/
structure Meets (m : Nat) (a : Args) (w : Waiter) (es : List Event) : Prop where
  pending : (∃ n, Pending a.set w.sigpendingq n) → a.info = true
  watchdog : (∀ n, ¬ Pending a.set w.sigpendingq n) → a.timeout.isSome = true → a.wdog = true
  waker : (∀ n, ¬ Pending a.set w.sigpendingq n) →
    ∀ waker, firstEnd a.set w.sigprocmask 0 (a.timer m) es = some waker →
      a.info = true ∧ ∃ i, waker = .signal i

section

variable {set : Sigset} {q : List Siginfo} {signo n : Nat}

theorem foldl_or_getLsbD (s : Sigset) : (q.foldl (fun set i => set ||| signo2set i.siSigno)
    s).getLsbD n = (s.getLsbD n || decide (n < 32 ∧ ∃ i ∈ q, i.siSigno = n)) := by
  induction q generalizing s with
  | nil => simp
  | cons i q ih =>
    rw [List.foldl_cons, ih]
    have hbit : (signo2set i.siSigno).getLsbD n = decide (n < 32 ∧ i.siSigno = n) := by
      unfold signo2set
      rw [BitVec.getLsbD_shiftLeft]
      by_cases hn : n < 32
      · by_cases hi : i.siSigno = n
        · subst hi
          simp [hn]
        · by_cases hlt : n < i.siSigno
          · simp [hn, hi, hlt]
          · have h1 : n - i.siSigno ≠ 0 := by omega
            simp [hn, hi, hlt, BitVec.getLsbD_one, h1]
      · simp [hn]
    rw [BitVec.getLsbD_or, hbit, Bool.or_assoc]
    congr 1
    by_cases hn : n < 32
    · by_cases hi : i.siSigno = n
      · simp [hn, hi]
      · simp [hn, hi]
    · simp [hn]

theorem mem_pendingset : sigismember (set &&& sigPendingset q) n = true ↔ Pending set q n := by
  unfold sigismember sigPendingset Pending sigismember
  rw [BitVec.getLsbD_and, foldl_or_getLsbD, Bool.and_eq_true]
  constructor
  · rintro ⟨h1, h2⟩
    refine ⟨h1, ?_⟩
    simpa using (by simpa using h2 : n < 32 ∧ ∃ i ∈ q, i.siSigno = n).2
  · rintro ⟨h1, h2⟩
    have hn : n < 32 := BitVec.lt_of_getLsbD h1
    exact ⟨h1, by simp [hn, h2]⟩

theorem lowest_none : sigLowest (set &&& sigPendingset q) = none ↔ ∀ n, ¬ Pending set q n := by
  unfold sigLowest
  rw [List.find?_eq_none]
  constructor
  · intro h n hn
    have hlt : n < 32 := BitVec.lt_of_getLsbD hn.1
    exact h n (List.mem_range.mpr hlt) (mem_pendingset.mpr hn)
  · intro h n _ hn
    exact h n (mem_pendingset.mp hn)

theorem lowest_some (h : sigLowest (set &&& sigPendingset q) = some signo) :
    Pending set q signo ∧ ∀ n < signo, ¬ Pending set q n := by
  unfold sigLowest at h
  obtain ⟨hp, as, bs, hl, has⟩ := List.find?_eq_some_iff_append.mp h
  refine ⟨mem_pendingset.mp hp, fun n hn hpn => ?_⟩
  have hsorted : (List.range (maxSigno + 1)).Pairwise (· < ·) := List.pairwise_lt_range
  have hmem : n ∈ as ++ signo :: bs := by
    rw [← hl]
    exact List.mem_range.mpr (BitVec.lt_of_getLsbD hpn.1)
  rw [hl] at hsorted
  obtain ⟨-, hright, -⟩ := List.pairwise_append.mp hsorted
  rcases List.mem_append.mp hmem with hm | hm
  · have hnot := has n hm
    rw [mem_pendingset.mpr hpn] at hnot
    cases hnot
  · rcases List.mem_cons.mp hm with rfl | hm
    · exact Nat.lt_irrefl _ hn
    · have := (List.pairwise_cons.mp hright).1 n hm
      omega

theorem removependingsignal_some (h : ∃ i ∈ q, i.siSigno = signo) :
    ∃ l₁ i l₂, q = l₁ ++ i :: l₂ ∧ i.siSigno = signo ∧ (∀ j ∈ l₁, j.siSigno ≠ signo) ∧
      sigRemovependingsignal signo q = some (i, l₁ ++ l₂) := by
  induction q with
  | nil =>
    obtain ⟨i, hi, -⟩ := h
    cases hi
  | cons currsig rest ih =>
    by_cases hc : currsig.siSigno = signo
    · refine ⟨[], currsig, rest, rfl, hc, by simp, ?_⟩
      simp [sigRemovependingsignal, hc]
    · obtain ⟨i, hi, hsigno⟩ := h
      have hrest : i ∈ rest := by
        rcases List.mem_cons.mp hi with rfl | hi
        · exact absurd hsigno hc
        · exact hi
      obtain ⟨l₁, j, l₂, hq, hj, hnot, hr⟩ := ih ⟨i, hrest, hsigno⟩
      refine ⟨currsig :: l₁, j, l₂, by rw [hq]; rfl, hj, ?_, ?_⟩
      · intro x hx
        rcases List.mem_cons.mp hx with rfl | hx
        · exact hc
        · exact hnot x hx
      · simp [sigRemovependingsignal, hc, hr]

end

section

variable {w : Waiter} {e : Event} {es : List Event} {waker : Waker} {m phase : Nat} {a : Args}

theorem apply_ready (h : w.waitSig = false) : (e.apply w).sigunbinfo = w.sigunbinfo ∧
    (e.apply w).woken = w.woken ∧ (e.apply w).waitSig = false := by
  cases e with
  | signal i =>
    simp only [Event.apply, sigReceived, h]
    split
    · rw [if_neg (by simp)]
      exact ⟨rfl, rfl, h⟩
    · rw [if_neg (by simp)]
      exact ⟨rfl, rfl, h⟩
  | tick =>
    simp only [Event.apply]
    split
    · exact ⟨rfl, rfl, h⟩
    · split
      · simp only [sigTimeout, h]
        rw [if_neg (by simp)]
        exact ⟨rfl, rfl, rfl⟩
      · exact ⟨rfl, rfl, h⟩

theorem after_ready (es : List Event) (h : w.waitSig = false) : (after w es).sigunbinfo = w.sigunbinfo ∧
    (after w es).woken = w.woken := by
  induction es generalizing w with
  | nil => exact ⟨rfl, rfl⟩
  | cons e es ih =>
    obtain ⟨h1, h2, h3⟩ := apply_ready (e := e) h
    obtain ⟨i1, i2⟩ := ih h3
    exact ⟨i1.trans h1, i2.trans h2⟩

def Waker.info : Waker → Siginfo
  | .signal i => i
  | .timeout _ => ⟨errorSigno, siTimer, 0⟩

/-- The wait ends with the first event that ends it, and the result is that of this one. -/
theorem after_waiting (es : List Event) (h : w.waitSig = true) (hw : w.woken = none) :
    (after w es).woken = firstEnd w.sigwaitmask w.sigprocmask w.ticks w.timer es ∧
      ∀ waker ∈ (after w es).woken, (after w es).sigunbinfo = waker.info := by
  induction es generalizing w with
  | nil =>
    refine ⟨hw, fun waker hwaker => ?_⟩
    rw [show (after w []).woken = none from hw] at hwaker
    cases hwaker
  | cons e es ih =>
    have hstep : after w (e :: es) = after (e.apply w) es := rfl
    rw [hstep]
    cases e with
    | signal i =>
      by_cases hends : ends w.sigwaitmask w.sigprocmask i = true
      · have hap : (Event.signal i).apply w =
            { unblock i (.signal i) w with sigwaitmask := nullSignalSet } := by
          simp only [ends, Bool.or_eq_true, Bool.not_eq_true'] at hends
          simp only [Event.apply, sigReceived, h]
          by_cases hp : sigismember w.sigprocmask i.siSigno = true
          · rw [if_pos hp, if_pos ⟨trivial, hends.resolve_left (by simp [hp])⟩]
          · rw [if_neg hp]
            rfl
        obtain ⟨h1, h2⟩ := after_ready es (show ({ unblock i (.signal i) w with
          sigwaitmask := nullSignalSet } : Waiter).waitSig = false from rfl)
        rw [hap, h1, h2]
        refine ⟨?_, ?_⟩
        · simp only [firstEnd, if_pos hends]
          rfl
        · rintro _ ⟨⟩
          rfl
      · have hap : (Event.signal i).apply w = sigAddpendingsignal i w := by
          simp only [ends, Bool.or_eq_true, Bool.not_eq_true', not_or] at hends
          have hp : sigismember w.sigprocmask i.siSigno = true := by simpa using hends.1
          simp only [Event.apply, sigReceived, if_pos hp]
          rw [if_neg fun hc => hends.2 hc.2]
        rw [hap]
        have hi := ih (w := sigAddpendingsignal i w) h hw
        refine ⟨?_, hi.2⟩
        rw [hi.1]
        simp only [firstEnd, if_neg hends]
        rfl
    | tick =>
      cases ht : w.timer with
      | none =>
        have hap : Event.tick.apply w = { w with ticks := w.ticks + 1 } := by
          simp only [Event.apply, ht]
        rw [hap]
        have hi := ih (w := { w with ticks := w.ticks + 1 }) h hw
        refine ⟨?_, hi.2⟩
        rw [hi.1]
        show firstEnd w.sigwaitmask w.sigprocmask (w.ticks + 1) w.timer es = _
        rw [ht]
        rfl
      | some n =>
        by_cases hn : n ≤ 1
        · have hap : Event.tick.apply w = unblock ⟨errorSigno, siTimer, 0⟩
              (.timeout (w.ticks + 1)) { w with ticks := w.ticks + 1, timer := none } := by
            simp only [Event.apply, ht, if_pos hn, sigTimeout, h]
            rfl
          obtain ⟨h1, h2⟩ := after_ready es (show (unblock ⟨errorSigno, siTimer, 0⟩
            (.timeout (w.ticks + 1))
            { w with ticks := w.ticks + 1, timer := none }).waitSig = false from rfl)
          rw [hap, h1, h2]
          refine ⟨?_, ?_⟩
          · simp only [firstEnd, if_pos hn]
            rfl
          · rintro _ ⟨⟩
            rfl
        · have hap : Event.tick.apply w =
              { w with ticks := w.ticks + 1, timer := some (n - 1) } := by
            simp only [Event.apply, ht, if_neg hn]
          rw [hap]
          have hi := ih (w := { w with ticks := w.ticks + 1, timer := some (n - 1) }) h hw
          refine ⟨?_, hi.2⟩
          rw [hi.1]
          simp only [firstEnd, if_neg hn]

theorem firstEnd_timeout {set procmask : Sigset} {ticks n : Nat} {timer : Option Nat}
    (hpos : ∀ k ∈ timer, 0 < k)
    (h : firstEnd set procmask ticks timer es = some (.timeout n)) : timer = some (n - ticks) := by
  induction es generalizing ticks timer with
  | nil =>
    cases timer <;> cases h
  | cons e es ih =>
    cases e with
    | signal i =>
      cases timer <;>
      · simp only [firstEnd] at h
        split at h
        · cases h
        · exact ih hpos h
    | tick =>
      cases timer with
      | none =>
        simp only [firstEnd] at h
        have := ih (by simp) h
        cases this
      | some k =>
        have hk := hpos k rfl
        have hpos' : 1 < k → ∀ j ∈ some (k - 1), 0 < j := by
          rintro h1 _ ⟨⟩
          omega
        simp only [firstEnd] at h
        split at h
        · cases h
          congr 1
          omega
        · have hi := ih (hpos' (by omega)) h
          have he := Option.some.inj hi
          congr 1
          omega

end

section

variable {m phase : Nat} {a : Args} {w : Waiter} {es : List Event}

theorem takesLowest_iff (h : ∃ n, Pending a.set w.sigpendingq n) :
    TakesLowest m a w ↔ a.info = true := by
  obtain ⟨signo, hl⟩ : ∃ signo, sigLowest (a.set &&& sigPendingset w.sigpendingq) = some signo := by
    cases hl : sigLowest (a.set &&& sigPendingset w.sigpendingq) with
    | none =>
      obtain ⟨n, hn⟩ := h
      exact absurd hn (lowest_none.mp hl n)
    | some signo => exact ⟨signo, rfl⟩
  obtain ⟨hp, hmin⟩ := lowest_some hl
  obtain ⟨l₁, i, l₂, hq, hi, hnot, hr⟩ := removependingsignal_some hp.2
  have hcall : sigtimedwait m a w = if a.info then
      .returned i.siSigno { w with sigpendingq := l₁ ++ l₂ } else .fault := by
    simp only [sigtimedwait, hl, hr]
  subst hi
  constructor
  · rintro ⟨_, _, _, -, -, -, -, hret⟩
    by_contra hinfo
    rw [hcall, if_neg hinfo] at hret
    cases hret
  · intro hinfo
    refine ⟨l₁, i, l₂, hq, hp, hmin, hnot, ?_⟩
    rw [hcall, if_pos hinfo]

def waitingState (m : Nat) (a : Args) (w : Waiter) : Waiter :=
  { w with
    sigwaitmask := a.set, ticks := 0, timer := a.timer m, woken := none, waitSig := true }

theorem sigtimedwait_blocks (h : ∀ n, ¬ Pending a.set w.sigpendingq n) :
    (∃ b, sigtimedwait m a w = .blocked b) ↔ (a.timeout.isSome = true → a.wdog = true) := by
  have hl := lowest_none.mpr h
  cases ht : a.timeout with
  | none => simp [sigtimedwait, hl, ht]
  | some ts =>
    by_cases hw : a.wdog = true
    · simp [sigtimedwait, hl, ht, hw]
    · simp only [sigtimedwait, hl, ht, hw, finish]
      cases a.info <;> simp

theorem sigtimedwait_blocked {b : Waiter} (h : ∀ n, ¬ Pending a.set w.sigpendingq n)
    (hb : sigtimedwait m a w = .blocked b) : b = waitingState m a w := by
  have hl := lowest_none.mpr h
  have hwait := (sigtimedwait_blocks h).mp ⟨b, hb⟩
  cases ht : a.timeout with
  | none =>
    simp only [sigtimedwait, hl, ht] at hb
    cases hb
    simp [waitingState, Args.timer, ht]
  | some ts =>
    have hw : a.wdog = true := hwait (by rw [ht]; rfl)
    simp only [sigtimedwait, hl, ht, hw, if_true] at hb
    cases hb
    simp [waitingState, Args.timer, ht]

theorem waits_iff (h : ∀ n, ¬ Pending a.set w.sigpendingq n) :
    Waits m phase a w es ↔ (a.timeout.isSome = true → a.wdog = true) ∧
      ∀ waker, firstEnd a.set w.sigprocmask 0 (a.timer m) es = some waker →
        a.info = true ∧ ∃ i, waker = .signal i := by
  obtain ⟨hwoken, hinfo⟩ := after_waiting es (w := waitingState m a w) rfl rfl
  constructor
  · rintro ⟨b, hb, -, -, -, hresult⟩
    refine ⟨(sigtimedwait_blocks h).mp ⟨b, hb⟩, fun waker hwaker => ?_⟩
    have hbs := sigtimedwait_blocked h hb
    subst hbs
    have hw : (after (waitingState m a w) es).woken = some waker := hwoken.trans hwaker
    obtain ⟨ret, w', hfin, hright⟩ := hresult waker hw
    have hunb := hinfo waker hw
    unfold finish at hfin
    by_cases hi : a.info = true
    · refine ⟨hi, ?_⟩
      rw [if_pos hi, hunb] at hfin
      cases waker with
      | signal i => exact ⟨i, rfl⟩
      | timeout ticks =>
        -- the eight bits of `si_signo` do not hold -1
        cases hfin
        have hret := hright.1
        cases hret
    · rw [if_neg hi] at hfin
      cases hfin
  · rintro ⟨hwdog, hsignal⟩
    obtain ⟨b, hb⟩ := (sigtimedwait_blocks (m := m) h).mpr hwdog
    have hbs := sigtimedwait_blocked h hb
    subst hbs
    refine ⟨_, hb, rfl, rfl, rfl, fun waker hwaker => ?_⟩
    obtain ⟨hi, i, rfl⟩ := hsignal waker (hwoken.symm.trans hwaker)
    have hunb := hinfo _ hwaker
    refine ⟨(after (waitingState m a w) es).sigunbinfo.siSigno, _, if_pos hi, ?_⟩
    rw [hunb]
    rfl

theorem correct_iff_meets : Correct m phase a w es ↔ Meets m a w es := by
  by_cases h : ∃ n, Pending a.set w.sigpendingq n
  · have hno : ¬ ∀ n, ¬ Pending a.set w.sigpendingq n := fun hall => h.elim hall
    constructor
    · intro hc
      refine ⟨fun _ => (takesLowest_iff h).mp (hc.1 h), fun hall => absurd hall hno,
        fun hall => absurd hall hno⟩
    · intro hm
      exact ⟨fun _ => (takesLowest_iff h).mpr (hm.pending h), fun hall => absurd hall hno⟩
  · have hall : ∀ n, ¬ Pending a.set w.sigpendingq n := fun n hn => h ⟨n, hn⟩
    constructor
    · intro hc
      obtain ⟨h1, h2⟩ := (waits_iff hall).mp (hc.2 hall)
      exact ⟨fun hp => absurd hp h, fun _ => h1, fun _ => h2⟩
    · intro hm
      exact ⟨fun hp => absurd hp h,
        fun _ => (waits_iff hall).mpr ⟨hm.watchdog hall, hm.waker hall⟩⟩

theorem wdStart_pos {delay : Int} {n : Nat} (h : wdStart delay = some n) : 0 < n := by
  unfold wdStart at h
  split at h
  · cases h
  · split at h
    · cases h
      exact Nat.one_pos
    · split at h <;>
      · cases h
        omega

def quiet : Waiter := ⟨0x2#32, 0, [], ⟨0, 0, 0⟩, false, none, 0, none⟩

end

end NuttxAvr32.Sig.Timedwait
