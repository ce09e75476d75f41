import NuttxAvr32.Wdog.Timers

/-! # The clock and its deadlines

`clock_gettime` adds the ticks since the last `clock_settime` to the time that was set, in
words of 32 bits. A deadline becomes a number of ticks by way of a 32-bit number of
microseconds.
-/

namespace NuttxAvr32.Time

open Wdog (wrapInt startDelay startDelay_eq intMax)

abbrev nsecPerSec : Nat := 1000000000
abbrev usecPerSec : Nat := 1000000
abbrev msecPerSec : Nat := 1000
abbrev nsecPerMsec : Nat := 1000000
abbrev nsecPerUsec : Nat := 1000

abbrev msecPerTick : Nat := 10
abbrev usecPerTick : Nat := 10000

abbrev clockRealtime : Nat := 0

inductive Errno
  | einval
  | etimedout
deriving DecidableEq, Repr

def uint32 (i : Int) : Nat := (i % 4294967296).toNat

structure Timespec where
  tvSec : Nat
  tvNsec : Int
deriving DecidableEq, Repr

structure Clock where
  gSystemTimer : Nat
  gTickbias : Nat
  gBasetime : Timespec
deriving DecidableEq, Repr

def clockTimer (clk : Clock) : Clock :=
  { clk with gSystemTimer := uint32 (clk.gSystemTimer + 1) }

/-- `tp` is `none` for `NULL`. -/
def clockSettime (clockId : Nat) (tp : Option Timespec) (clk : Clock) : Except Errno Clock :=
  match tp with
  | none => .error .einval
  | some tp =>
      if clockId ≠ clockRealtime then .error .einval
      else .ok { clk with gBasetime := tp, gTickbias := clk.gSystemTimer }

def readClock (clk : Clock) : Timespec :=
  let msecs := uint32 (msecPerTick * uint32 ((clk.gSystemTimer : Int) - clk.gTickbias))
  let secs := msecs / msecPerSec
  let nsecs := (msecs - secs * msecPerSec) * nsecPerMsec
  let secs := uint32 (secs + clk.gBasetime.tvSec)
  let nsecs := uint32 (nsecs + clk.gBasetime.tvNsec)
  if nsecPerSec < nsecs then
    let dwCarrySecs := nsecs / nsecPerSec
    let secs := uint32 (secs + dwCarrySecs)
    let nsecs := nsecs - dwCarrySecs * nsecPerSec
    ⟨secs, wrapInt nsecs⟩
  else ⟨secs, wrapInt nsecs⟩

def clockGettime (clockId : Nat) (clk : Clock) : Except Errno Timespec :=
  if clockId ≠ clockRealtime then .error .einval else .ok (readClock clk)

/-- The microseconds are computed in 32 bits without a sign and read as an `int32_t`. -/
def clockTime2ticks (reltime : Timespec) : Int :=
  let relusec := wrapInt (reltime.tvSec * usecPerSec + reltime.tvNsec.tdiv nsecPerUsec)
  relusec.tdiv usecPerTick

abbrev tickPerSec : Nat := 100
abbrev nsecPerTick : Nat := 10000000

def clockTicks2time (ticks : Int) : Timespec :=
  let tvSec := uint32 (ticks.tdiv tickPerSec)
  let remainder := wrapInt (ticks - tickPerSec * tvSec)
  ⟨tvSec, wrapInt (remainder * nsecPerTick)⟩

def clockAbstime2ticks (clockId : Nat) (abstime : Timespec) (clk : Clock) : Except Errno Int :=
  match clockGettime clockId clk with
  | .error _ => .error .einval
  | .ok currtime =>
      let nsec := abstime.tvNsec - currtime.tvNsec
      let sec := uint32 ((abstime.tvSec : Int) - currtime.tvSec)
      if nsec < 0 then .ok (clockTime2ticks ⟨uint32 (sec - 1), nsec + nsecPerSec⟩)
      else .ok (clockTime2ticks ⟨sec, nsec⟩)

structure Timespec.Valid (t : Timespec) : Prop where
  sec : t.tvSec < 4294967296
  nonneg : 0 ≤ t.tvNsec
  nsec : t.tvNsec < 1000000000

instance (t : Timespec) : Decidable t.Valid :=
  decidable_of_iff (t.tvSec < 4294967296 ∧ 0 ≤ t.tvNsec ∧ t.tvNsec < 1000000000)
    ⟨fun h => ⟨h.1, h.2.1, h.2.2⟩, fun h => ⟨h.1, h.2, h.3⟩⟩

def Timespec.instant (t : Timespec) : Int := t.tvSec * 1000000000 + t.tvNsec

/-- The time that a number of nanoseconds since the epoch is, with the seconds of a `time_t`. -/
def Timespec.ofInstant (i : Int) : Timespec := ⟨uint32 (i / 1000000000), i % 1000000000⟩

theorem Timespec.instant_nonneg {t : Timespec} (h : t.Valid) : 0 ≤ t.instant := by
  have h0 := h.nonneg
  unfold instant
  omega

theorem Timespec.instant_ofInstant {i : Int} (h0 : 0 ≤ i) (h : i < 4294967296 * 1000000000) :
    (ofInstant i).instant = i := by
  unfold ofInstant instant uint32
  dsimp only
  omega

section

variable {i j : Int} {n : Nat}

theorem uint32_lt (i : Int) : uint32 i < 4294967296 := by
  unfold uint32
  omega

theorem coe_uint32 (i : Int) : (uint32 i : Int) = i % 4294967296 := by
  unfold uint32
  omega

theorem uint32_of_lt (h : n < 4294967296) : uint32 n = n := by
  unfold uint32
  omega

theorem uint32_congr (h : (i - j) % 4294967296 = 0) : uint32 i = uint32 j := by
  unfold uint32
  omega

theorem wrapInt_congr (h : (i - j) % 4294967296 = 0) : wrapInt i = wrapInt j := by
  unfold wrapInt Int.bmod
  norm_num
  omega

theorem wrapInt_of_lt (h0 : 0 ≤ i) (h : i < 2147483648) : wrapInt i = i :=
  Int.bmod_eq_of_le (by omega) (by omega)

end

theorem clockTicks2time_inj {i j : Int} (hi : 0 ≤ i) (hi' : i < 2147483648) (hj : 0 ≤ j)
    (hj' : j < 2147483648) (h : clockTicks2time i = clockTicks2time j) : i = j := by
  have heq : ∀ k : Int, 0 ≤ k → k < 2147483648 →
      clockTicks2time k = ⟨(k / 100).toNat, k % 100 * 10000000⟩ := by
    intro k h0 hk
    have hsec : uint32 (k.tdiv tickPerSec) = (k / 100).toNat := by
      rw [Int.tdiv_eq_ediv_of_nonneg h0]
      unfold uint32
      dsimp only [tickPerSec]
      omega
    have hrem : k - tickPerSec * ((k / 100).toNat : Int) = k % 100 := by
      dsimp only [tickPerSec]
      omega
    have hnsec : wrapInt (k % 100) = k % 100 := wrapInt_of_lt (by omega) (by omega)
    have hnsec' : wrapInt (k % 100 * (nsecPerTick : Nat)) = k % 100 * 10000000 :=
      wrapInt_of_lt (by dsimp only [nsecPerTick]; omega) (by dsimp only [nsecPerTick]; omega)
    unfold clockTicks2time
    dsimp only
    rw [hsec, hrem, hnsec, hnsec']
  rw [heq i hi hi', heq j hj hj'] at h
  have hsec := congrArg Timespec.tvSec h
  have hnsec := congrArg Timespec.tvNsec h
  dsimp only at hsec hnsec
  omega

section

variable {clk : Clock} {tp : Timespec} {j k : Nat}

/-- The clock after `clock_settime` and some ticks. -/
def setAndTick (tp : Timespec) (k : Nat) (clk : Clock) : Clock :=
  clockTimer^[k] { clk with gBasetime := tp, gTickbias := clk.gSystemTimer }

theorem setAndTick_basetime : (setAndTick tp k clk).gBasetime = tp := by
  unfold setAndTick
  induction k with
  | zero => rfl
  | succ k ih =>
      rw [Function.iterate_succ_apply']
      exact ih

theorem setAndTick_elapsed : uint32 (((setAndTick tp k clk).gSystemTimer : Int) -
    (setAndTick tp k clk).gTickbias) = uint32 k := by
  unfold setAndTick
  induction k with
  | zero => simp
  | succ k ih =>
      rw [Function.iterate_succ_apply']
      generalize clockTimer^[k] { clk with gBasetime := tp, gTickbias := clk.gSystemTimer } = c at ih
      unfold clockTimer uint32 at *
      dsimp only
      omega

def elapsedMsecs (k : Nat) : Nat := 10 * k % 4294967296

def nanoseconds (tp : Timespec) (k : Nat) : Int :=
  (elapsedMsecs k % 1000 * 1000000 : Nat) + tp.tvNsec

theorem nanoseconds_bound (hv : tp.Valid) :
    0 ≤ nanoseconds tp k ∧ nanoseconds tp k < 2000000000 := by
  have h0 := hv.nonneg
  have h1 := hv.nsec
  unfold nanoseconds
  omega

/-- The carry is taken only beyond a whole second. -/
def carried (tp : Timespec) (k : Nat) : Int := if 1000000000 < nanoseconds tp k then 1 else 0

theorem uint32_elapsed (k : Nat) : uint32 (msecPerTick * (k : Int)) = elapsedMsecs k := by
  have hcast : (msecPerTick * (k : Int)) % 4294967296 = (10 * k % 4294967296 : Nat) := by
    push_cast
    rfl
  rw [uint32, hcast, Int.toNat_natCast, elapsedMsecs]

theorem uint32_nanoseconds (hv : tp.Valid) :
    uint32 (((elapsedMsecs k % 1000 * 1000000 : Nat) : Int) + tp.tvNsec) =
      (nanoseconds tp k).toNat := by
  have h0 := hv.nonneg
  have h1 := hv.nsec
  unfold nanoseconds uint32
  omega

theorem readClock_eq (hv : tp.Valid) (hk : k < 4294967296) :
    readClock (setAndTick tp k clk) =
      ⟨uint32 (elapsedMsecs k / 1000 + tp.tvSec + carried tp k),
        nanoseconds tp k - carried tp k * 1000000000⟩ := by
  have hbound := nanoseconds_bound (k := k) hv
  have hlow : elapsedMsecs k - elapsedMsecs k / 1000 * 1000 = elapsedMsecs k % 1000 := by omega
  unfold readClock carried
  rw [setAndTick_elapsed, setAndTick_basetime, uint32_of_lt hk, uint32_elapsed]
  dsimp only [msecPerSec, nsecPerMsec, nsecPerSec]
  rw [hlow, uint32_nanoseconds hv]
  by_cases hc : 1000000000 < nanoseconds tp k
  · have hcarry : (nanoseconds tp k).toNat / 1000000000 = 1 := by omega
    have hnsec : wrapInt ((nanoseconds tp k).toNat - 1 * 1000000000 : Nat) =
        nanoseconds tp k - 1 * 1000000000 := by
      rw [wrapInt_of_lt (by omega) (by omega)]
      omega
    rw [if_pos hc, if_pos (by omega), hcarry, hnsec]
    refine congrArg (Timespec.mk · _) (uint32_congr ?_)
    rw [coe_uint32]
    omega
  · have hnsec : wrapInt (nanoseconds tp k).toNat = nanoseconds tp k - 0 * 1000000000 := by
      rw [wrapInt_of_lt (by omega) (by omega)]
      omega
    rw [if_neg hc, if_neg (by omega), hnsec]
    exact congrArg (Timespec.mk · _) (uint32_congr (by omega))

/-- The seconds of the reading, before they are reduced. -/
def seconds (tp : Timespec) (k : Nat) : Int := elapsedMsecs k / 1000 + tp.tvSec + carried tp k

theorem seconds_nanoseconds (tp : Timespec) (k : Nat) :
    seconds tp k * 1000000000 + (nanoseconds tp k - carried tp k * 1000000000) =
      tp.instant + elapsedMsecs k * 1000000 := by
  unfold seconds nanoseconds Timespec.instant
  omega

structure Reads (tp : Timespec) (k : Nat) (t : Timespec) : Prop where
  exact : t = .ofInstant (tp.instant + k * msecPerTick * nsecPerMsec)
  nonneg : 0 ≤ t.tvNsec
  nsec : t.tvNsec < nsecPerSec

/-- The milliseconds do not wrap, and the nanoseconds do not add up to a whole second. -/
def Readable (tp : Timespec) (k : Nat) : Prop :=
  msecPerTick * k < 4294967296 ∧
    (msecPerTick * k % msecPerSec * nsecPerMsec : Nat) + tp.tvNsec ≠ nsecPerSec

instance (tp : Timespec) (k : Nat) : Decidable (Readable tp k) :=
  inferInstanceAs (Decidable (_ ∧ _))

theorem Readable.elapsedMsecs_eq (h : Readable tp k) : elapsedMsecs k = 10 * k :=
  Nat.mod_eq_of_lt h.1

theorem Readable.nanoseconds_ne (h : Readable tp k) : nanoseconds tp k ≠ 1000000000 := by
  unfold nanoseconds
  rw [h.elapsedMsecs_eq]
  exact h.2

theorem carried_normal (hv : tp.Valid) (h : nanoseconds tp k ≠ 1000000000) :
    0 ≤ nanoseconds tp k - carried tp k * 1000000000 ∧
      nanoseconds tp k - carried tp k * 1000000000 < 1000000000 := by
  have hbound := nanoseconds_bound (k := k) hv
  unfold carried
  split <;> omega

theorem Readable.reads (h : Readable tp k) (hv : tp.Valid) :
    Reads tp k (readClock (setAndTick tp k clk)) := by
  have hnormal := carried_normal hv h.nanoseconds_ne
  have hsplit := seconds_nanoseconds tp k
  have hk : k < 4294967296 := by
    have hwrap : 10 * k < 4294967296 := h.1
    omega
  rw [h.elapsedMsecs_eq] at hsplit
  rw [readClock_eq hv hk]
  refine ⟨?_, hnormal.1, hnormal.2⟩
  have hinstant : tp.instant + k * msecPerTick * nsecPerMsec =
      seconds tp k * 1000000000 + (nanoseconds tp k - carried tp k * 1000000000) := by
    rw [hsplit]
    push_cast
    omega
  have hsec : (tp.instant + k * msecPerTick * nsecPerMsec) / 1000000000 = seconds tp k := by omega
  have hnsec : (tp.instant + k * msecPerTick * nsecPerMsec) % 1000000000 =
      nanoseconds tp k - carried tp k * 1000000000 := by omega
  rw [Timespec.ofInstant, hsec, hnsec]
  rfl

theorem Reads.readable (h : Reads tp k (readClock (setAndTick tp k clk))) (hv : tp.Valid)
    (hk : k < 4294967296) : Readable tp k := by
  have hsplit := seconds_nanoseconds tp k
  obtain ⟨hexact, hnonneg, hnsec⟩ := h
  rw [readClock_eq hv hk] at hexact hnonneg hnsec
  have hsec : uint32 (seconds tp k) =
      uint32 ((tp.instant + k * msecPerTick * nsecPerMsec) / 1000000000) :=
    congrArg Timespec.tvSec hexact
  have hlow : nanoseconds tp k - carried tp k * 1000000000 =
      (tp.instant + k * msecPerTick * nsecPerMsec) % 1000000000 :=
    congrArg Timespec.tvNsec hexact
  dsimp only [msecPerTick, nsecPerMsec, nsecPerSec] at *
  have hwrap : 10 * k < 4294967296 := by
    have hcoe := congrArg (Nat.cast (R := Int)) hsec
    rw [coe_uint32, coe_uint32] at hcoe
    have hmsecs : elapsedMsecs k = 10 * k % 4294967296 := rfl
    omega
  have hmsecs : elapsedMsecs k = 10 * k := Nat.mod_eq_of_lt hwrap
  have hne : nanoseconds tp k ≠ 1000000000 := by
    intro heq
    have hcarried : carried tp k = 0 := if_neg (by omega)
    omega
  refine ⟨hwrap, ?_⟩
  unfold nanoseconds at hne
  rwa [hmsecs] at hne

/-- Every state of the clock is that of some number of ticks after its base time was set. -/
theorem readClock_setAndTick (clk : Clock) :
    readClock (setAndTick clk.gBasetime (uint32 ((clk.gSystemTimer : Int) - clk.gTickbias)) clk) =
      readClock clk := by
  unfold readClock
  rw [setAndTick_elapsed, setAndTick_basetime, uint32_of_lt (uint32_lt _)]

theorem readClock_bounds (hv : clk.gBasetime.Valid) : (readClock clk).tvSec < 4294967296 ∧
    0 ≤ (readClock clk).tvNsec ∧ (readClock clk).tvNsec ≤ 1000000000 := by
  rw [← readClock_setAndTick, readClock_eq hv (uint32_lt _)]
  generalize uint32 ((clk.gSystemTimer : Int) - clk.gTickbias) = k
  have hbound := nanoseconds_bound (k := k) hv
  refine ⟨uint32_lt _, ?_⟩
  unfold carried
  split <;> dsimp only <;> omega

end

section

variable {clk : Clock} {abstime : Timespec} {d ticks : Int}

/-- The microseconds of a distance in nanoseconds, as an `int32_t` holds them. -/
def usecs (d : Int) : Int := wrapInt (d / 1000)

def distance (abstime : Timespec) (clk : Clock) : Int :=
  abstime.instant - (readClock clk).instant

theorem clockTime2ticks_eq {t : Timespec} (h : 0 ≤ t.tvNsec)
    (hd : (t.instant - d) % (4294967296 * 1000) = 0) :
    clockTime2ticks t = (usecs d).tdiv usecPerTick := by
  unfold clockTime2ticks usecs
  dsimp only
  rw [Int.tdiv_eq_ediv_of_nonneg h]
  refine congrArg (Int.tdiv · _) (wrapInt_congr ?_)
  unfold Timespec.instant at hd
  dsimp only [usecPerSec, nsecPerUsec]
  omega

theorem clockAbstime2ticks_eq (ha : abstime.Valid) (hv : clk.gBasetime.Valid) :
    clockAbstime2ticks clockRealtime abstime clk =
      .ok ((usecs (distance abstime clk)).tdiv usecPerTick) := by
  obtain ⟨hsec, hnonneg, hnsec⟩ := readClock_bounds hv
  have h0 := ha.nonneg
  have h1 := ha.nsec
  have hget : clockGettime clockRealtime clk = .ok (readClock clk) := if_neg (by simp)
  unfold clockAbstime2ticks
  rw [hget]
  dsimp only
  split
  case isTrue hborrow =>
    refine congrArg Except.ok (clockTime2ticks_eq ?_ ?_)
    · dsimp only [nsecPerSec]
      omega
    · unfold distance Timespec.instant
      dsimp only [nsecPerSec]
      rw [coe_uint32, coe_uint32]
      omega
  case isFalse hborrow =>
    refine congrArg Except.ok (clockTime2ticks_eq (by dsimp only; omega) ?_)
    unfold distance Timespec.instant
    dsimp only
    rw [coe_uint32]
    omega

/-- A value that is not positive tells exactly that the deadline is not in the future, and
otherwise the watchdog expires not before it and at most two ticks later. -/
structure Punctual (d ticks : Int) : Prop where
  past : ticks ≤ 0 ↔ d ≤ 0
  notEarly : 0 < d → d ≤ startDelay ticks * 10000000
  notLate : 0 < d → startDelay ticks * 10000000 ≤ d + 2 * 10000000

/-- Ahead there is at least one tick and the microseconds fit in an `int32_t`; behind, the
microseconds modulo `2 ^ 32` are less than a tick or read as a negative number. -/
def Convertible (d : Int) : Prop :=
  (10000000 ≤ d ∧ d < 2147483648 * 1000) ∨
    (d ≤ 0 ∧ (d / 1000 % 4294967296 < 10000 ∨ 2147483648 ≤ d / 1000 % 4294967296))

instance (d : Int) : Decidable (Convertible d) := inferInstanceAs (Decidable (_ ∨ _))

theorem usecs_cases (d : Int) :
    (d / 1000 % 4294967296 < 2147483648 ∧ usecs d = d / 1000 % 4294967296) ∨
      (2147483648 ≤ d / 1000 % 4294967296 ∧ usecs d = d / 1000 % 4294967296 - 4294967296) := by
  unfold usecs wrapInt Int.bmod
  norm_num
  omega

theorem tdiv_nonpos_iff (u : Int) : u.tdiv usecPerTick ≤ 0 ↔ u < 10000 := by
  have hticks : ((usecPerTick : Nat) : Int) = 10000 := rfl
  rw [hticks]
  rcases Int.le_total 0 u with h | h
  · rw [Int.tdiv_eq_ediv_of_nonneg h]
    omega
  · have hneg : 0 ≤ (-u).tdiv 10000 := Int.tdiv_nonneg (by omega) (by omega)
    rw [Int.neg_tdiv] at hneg
    omega

theorem startDelay_tdiv {u : Int} (h : 10000 ≤ u) (hu : u < 2147483648) :
    startDelay (u.tdiv usecPerTick) = u / 10000 + 1 := by
  have hdiv : u.tdiv usecPerTick = u / 10000 := Int.tdiv_eq_ediv_of_nonneg (by omega)
  have hmax : intMax = 2147483647 := rfl
  rw [hdiv, startDelay_eq (by omega) (by omega)]
  omega

theorem punctual_iff (d : Int) :
    Punctual d ((usecs d).tdiv usecPerTick) ↔ Convertible d := by
  have hcases := usecs_cases d
  unfold Convertible
  constructor
  · intro h
    have hpast := h.past
    rw [tdiv_nonpos_iff] at hpast
    by_cases hd : d ≤ 0
    · omega
    · have hearly := h.notEarly (by omega)
      rw [startDelay_tdiv (by omega) (by omega)] at hearly
      omega
  · rintro (⟨hlo, hhi⟩ | ⟨hd, hback⟩)
    · have hdelay := startDelay_tdiv (u := usecs d) (by omega) (by omega)
      refine ⟨?_, fun _ => ?_, fun _ => ?_⟩
      · rw [tdiv_nonpos_iff]
        omega
      · rw [hdelay]
        omega
      · rw [hdelay]
        omega
    · refine ⟨?_, fun _ => by omega, fun _ => by omega⟩
      rw [tdiv_nonpos_iff]
      omega

/-- What `mq_timedsend`, `mq_timedreceive` and `pthread_cond_timedwait` do when they have to
wait: the ticks after which their watchdog expires. -/
def timedWait (abstime : Timespec) (clk : Clock) : Except Errno Int :=
  match clockAbstime2ticks clockRealtime abstime clk with
  | .error e => .error e
  | .ok ticks => if ticks ≤ 0 then .error .etimedout else .ok (startDelay ticks)

/-- A wait times out at once when its deadline is not in the future, and else at most two
ticks after it. -/
structure Awaited (d : Int) (wait : Except Errno Int) : Prop where
  past : wait = .error .etimedout ↔ d ≤ 0
  notEarly : ∀ lag, wait = .ok lag → d ≤ lag * 10000000
  notLate : ∀ lag, wait = .ok lag → lag * 10000000 ≤ d + 2 * 10000000

theorem awaited_iff_punctual
    (h : clockAbstime2ticks clockRealtime abstime clk = .ok ticks) :
    Awaited d (timedWait abstime clk) ↔ Punctual d ticks := by
  have hwait : timedWait abstime clk =
      if ticks ≤ 0 then .error .etimedout else .ok (startDelay ticks) := by
    rw [timedWait, h]
  rw [hwait]
  split
  case isTrue hle =>
    constructor
    · intro ha
      have hd : d ≤ 0 := ha.past.mp rfl
      exact ⟨iff_of_true hle hd, fun _ => by omega, fun _ => by omega⟩
    · intro hp
      exact ⟨iff_of_true rfl (hp.past.mp hle), (by intro _ h; cases h), (by intro _ h; cases h)⟩
  case isFalse hlt =>
    constructor
    · intro ha
      have hd : ¬ d ≤ 0 := fun h => by cases ha.past.mpr h
      exact ⟨iff_of_false hlt hd, fun _ => ha.notEarly _ rfl, fun _ => ha.notLate _ rfl⟩
    · intro hp
      have hd : ¬ d ≤ 0 := fun h => hlt (hp.past.mpr h)
      refine ⟨iff_of_false (by simp) hd, ?_, ?_⟩
      · intro lag hlag
        cases hlag
        exact hp.notEarly (by omega)
      · intro lag hlag
        cases hlag
        exact hp.notLate (by omega)

end

/-- A deadline is converted as meant exactly when its distance is `Convertible`: less than a
tick ahead counts as past, and 32 bits of microseconds wrap. -/
theorem clock_abstime2ticks_punctual (clk : Clock) (abstime : Timespec)
    (hv : clk.gBasetime.Valid) (ha : abstime.Valid) :
    ∃ ticks, clockAbstime2ticks clockRealtime abstime clk = .ok ticks ∧
      (Punctual (distance abstime clk) ticks ↔ Convertible (distance abstime clk)) ∧
      (Awaited (distance abstime clk) (timedWait abstime clk) ↔
        Convertible (distance abstime clk)) := by
  have heq := clockAbstime2ticks_eq ha hv
  have hiff := punctual_iff (distance abstime clk)
  exact ⟨_, heq, hiff, (awaited_iff_punctual heq).trans hiff⟩

theorem clock_abstime2ticks_punctual_below_tick :
    ∃ ticks, clockAbstime2ticks clockRealtime ⟨0, 5000000⟩ ⟨0, 0, 0, 0⟩ = .ok ticks ∧
      (Punctual (distance ⟨0, 5000000⟩ ⟨0, 0, 0, 0⟩) ticks ↔
        Convertible (distance ⟨0, 5000000⟩ ⟨0, 0, 0, 0⟩)) ∧
      (Awaited (distance ⟨0, 5000000⟩ ⟨0, 0, 0, 0⟩) (timedWait ⟨0, 5000000⟩ ⟨0, 0, 0, 0⟩) ↔
        Convertible (distance ⟨0, 5000000⟩ ⟨0, 0, 0, 0⟩)) :=
  clock_abstime2ticks_punctual ⟨0, 0, ⟨0, 0⟩⟩ ⟨0, 5000000⟩ (by decide) (by decide)

/-- 5 milliseconds ahead of the epoch are no ticks at all. -/
theorem clock_abstime2ticks_below_tick :
    ¬ ∀ (clk : Clock) (abstime : Timespec), clk.gBasetime.Valid → abstime.Valid →
      -2147483648 ≤ distance abstime clk / 10000000 →
      distance abstime clk / 10000000 < 2147483648 →
      ∃ ticks, clockAbstime2ticks clockRealtime abstime clk = .ok ticks ∧
        Punctual (distance abstime clk) ticks := by
  intro h
  obtain ⟨ticks, hok, hp⟩ := h ⟨0, 0, 0, 0⟩ ⟨0, 5000000⟩ (by decide) (by decide) (by decide)
    (by decide)
  have hticks : ticks = 0 := by
    have hzero : clockAbstime2ticks clockRealtime ⟨0, 5000000⟩ ⟨0, 0, 0, 0⟩ = .ok 0 := by decide
    rw [hzero] at hok
    cases hok
    rfl
  have hd := hp.past.mp (by omega)
  revert hd
  decide

/-- The clock reads the time that was set and the ticks since then exactly when the count is
`Readable`, and between such readings it never goes back before the seconds run out. -/
theorem clock_gettime_reads (clk clk' : Clock) (tp : Timespec) (hv : tp.Valid)
    (hset : clockSettime clockRealtime (some tp) clk = .ok clk') :
    (∀ k < 4294967296, ∃ t, clockGettime clockRealtime (clockTimer^[k] clk') = .ok t ∧
      (Reads tp k t ↔ Readable tp k)) ∧
    ∀ j k t u, j ≤ k → Readable tp j → Readable tp k →
      tp.instant + k * msecPerTick * nsecPerMsec < 4294967296 * nsecPerSec →
      clockGettime clockRealtime (clockTimer^[j] clk') = .ok t →
      clockGettime clockRealtime (clockTimer^[k] clk') = .ok u → t.instant ≤ u.instant := by
  have hget : ∀ c, clockGettime clockRealtime c = .ok (readClock c) := fun c => if_neg (by simp)
  have hclk : ∀ k, clockTimer^[k] clk' = setAndTick tp k clk := by
    intro k
    cases hset
    rfl
  constructor
  · intro k hk
    rw [hclk, hget]
    exact ⟨_, rfl, fun h => h.readable hv hk, fun h => h.reads hv⟩
  · intro j k t u hjk hj hk hrange ht hu
    rw [hclk, hget] at ht hu
    cases ht
    cases hu
    have h0 : 0 ≤ tp.instant := Timespec.instant_nonneg hv
    dsimp only [msecPerTick, nsecPerMsec, nsecPerSec] at hrange
    rw [(hj.reads hv).exact, (hk.reads hv).exact]
    rw [Timespec.instant_ofInstant, Timespec.instant_ofInstant] <;>
      dsimp only [msecPerTick, nsecPerMsec] <;> omega

theorem clock_gettime_reads_second :
    (∀ k < 4294967296, ∃ t,
      clockGettime clockRealtime (clockTimer^[k] ⟨7, 7, ⟨3, 500000000⟩⟩) = .ok t ∧
        (Reads ⟨3, 500000000⟩ k t ↔ Readable ⟨3, 500000000⟩ k)) ∧
    ∀ j k t u, j ≤ k → Readable ⟨3, 500000000⟩ j → Readable ⟨3, 500000000⟩ k →
      Timespec.instant ⟨3, 500000000⟩ + k * msecPerTick * nsecPerMsec < 4294967296 * nsecPerSec →
      clockGettime clockRealtime (clockTimer^[j] ⟨7, 7, ⟨3, 500000000⟩⟩) = .ok t →
      clockGettime clockRealtime (clockTimer^[k] ⟨7, 7, ⟨3, 500000000⟩⟩) = .ok u →
      t.instant ≤ u.instant :=
  clock_gettime_reads ⟨7, 0, ⟨0, 0⟩⟩ ⟨7, 7, ⟨3, 500000000⟩⟩ ⟨3, 500000000⟩ (by decide) rfl

/-- Half a second after a time that ends in half a second, the nanoseconds are a whole one. -/
theorem clock_gettime_whole_second :
    ¬ ∀ (clk clk' : Clock) (tp : Timespec), tp.Valid →
      clockSettime clockRealtime (some tp) clk = .ok clk' →
      ∀ k < 4294967296, ∃ t, clockGettime clockRealtime (clockTimer^[k] clk') = .ok t ∧
        Reads tp k t := by
  intro h
  obtain ⟨t, hget, hreads⟩ :=
    h ⟨7, 0, ⟨0, 0⟩⟩ ⟨7, 7, ⟨3, 500000000⟩⟩ ⟨3, 500000000⟩ (by decide) rfl 50 (by decide)
  have hwhole : clockGettime clockRealtime (clockTimer^[50] ⟨7, 7, ⟨3, 500000000⟩⟩) =
      .ok ⟨3, 1000000000⟩ := by decide +kernel
  rw [hwhole] at hget
  cases hget
  exact absurd hreads.nsec (by decide)

end NuttxAvr32.Time
