import NuttxAvr32.Wdog.PosixTimers
import NuttxAvr32.Wdog.Standing
import NuttxAvr32.Time.Clock

/-! # The schedule of the POSIX timers

A run of the timers with the tick at which it stands. For each timer it records how it was
armed last and at which ticks it expired since then.
-/

namespace NuttxAvr32.Time

open Runs
open Wdog (Stand Due startDelay startDelay_eq intMax wdGettime wdExpire wdTimer wdCancel wdStart)
open Wdog.Posix (PosixTimer Timers Op Config)
open Function (update update_idem update_self update_of_ne)

/-- A successful `timer_settime` that did not disarm, in ticks, and the expirations since then,
the last one first. -/
structure Arming where
  tick : Int
  value : Int
  interval : Int
  expirations : List Int

structure Schedule where
  timers : Timers
  now : Int
  arming : Nat → Option Arming

def Arming.expired (now : Int) (a : Arming) : Arming :=
  { a with expirations := now :: a.expirations }

namespace Schedule

def record (cfg : Config) (i : Op) (c : Schedule) : Nat → Option Arming :=
  match i with
  | .settime t zero interval value =>
    update c.arming (c.timers.timer t).id
      (if zero then none else some ⟨c.now, value, interval.getD 0, []⟩)
  | .expire =>
    match (wdExpire c.timers.wd).2 with
    | none => c.arming
    | some w =>
      if c.timers.wd.func w = cfg.timerTimeout then
        match c.timers.wd.parm w with
        | t :: _ => update c.arming (c.timers.timer t).id
            ((c.arming (c.timers.timer t).id).map (Arming.expired c.now))
        | [] => c.arming
      else c.arming
  | _ => c.arming

def tickOf (i : Op) (c : Schedule) : Int :=
  match i with
  | .tick => c.now + 1
  | _ => c.now

end Schedule

/-- The ticks that a call names are those of an `int`. -/
def InInt : Op → Prop
  | .settime _ _ interval value => interval.getD 0 ≤ intMax ∧ value ≤ intMax
  | .otherStart _ delay _ _ => delay ≤ intMax
  | _ => True

def scheduleMachine (cfg : Config) : Machine Schedule Op where
  valid c i := i.valid cfg c.timers ∧ InInt i
  exec c i := (i.exec cfg c.timers).map fun r => ⟨r.2, c.tickOf i, c.record cfg i⟩

def scheduled (cfg : Config) : Schedule := ⟨Wdog.Posix.started cfg, 0, fun _ => none⟩

def timerGettime (t : Nat) (s : Timers) : Timespec × Timespec :=
  (clockTicks2time (wdGettime (s.timer t).ptWdog s.wd), clockTicks2time (s.timer t).ptLast)

namespace Arming

/-- A time that is not in the future sets up the next interval instead. -/
def delay (a : Arming) : Int := if a.value ≤ 0 then a.interval else a.value

/-- The last start of the watchdog, unless it is over: its tick and its delay. -/
def pending (a : Arming) : Option (Int × Int) :=
  match a.expirations with
  | [] => if 0 < a.delay then some (a.tick, a.delay) else none
  | last :: _ => if 0 < a.interval then some (last, a.interval) else none

end Arming

/-- A timer stands as it was armed, and has expired once in each interval and one tick. -/
structure Follows (s : Timers) (f : Nat → Option Due) (t : Nat) (a : Arming) : Prop where
  interval : (s.timer t).ptDelay = a.interval
  due : (f (s.timer t).ptWdog).map Prod.fst = a.pending.map fun p => p.1 + startDelay p.2
  last : ∀ p ∈ a.pending, (s.timer t).ptLast = p.2
  spaced : a.expirations.IsChain fun later earlier => later = earlier + startDelay a.interval
  once : a.interval = 0 → a.expirations.length ≤ 1
  spent : a.interval = 0 → a.expirations ≠ [] → 0 < a.value ∧ (s.timer t).ptLast = a.value
  range : a.value ≤ intMax ∧ a.interval ≤ intMax

structure Timed (cfg : Config) (f : Nat → Option Due) (c : Schedule) (t : Nat) : Prop where
  small : (c.timers.timer t).ptDelay ≤ intMax
  own : ∀ d, f (c.timers.timer t).ptWdog = some d → d.2 = (cfg.timerTimeout, [t])
  unarmed : c.arming (c.timers.timer t).id = none → f (c.timers.timer t).ptWdog = none
  armed : ∀ a, c.arming (c.timers.timer t).id = some a → 0 ≤ a.interval →
    Follows c.timers f t a

structure Inv (cfg : Config) (c : Schedule) : Prop where
  timers : Wdog.Posix.Inv cfg c.timers
  fresh : ∀ id, c.timers.nextId ≤ id → c.arming id = none
  timed : ∃ f, Stand c.now c.timers.draining c.timers.wd f ∧
    ∀ t ∈ c.timers.gAlloctimers, Timed cfg f c t

section

variable {cfg : Config} {c : Schedule} {s s' : Timers} {f f' : Nat → Option Due} {t t' : Nat}
  {now delay value : Int} {draining : Bool}

theorem Timed.frame {c' : Schedule} (h : Timed cfg f c t)
    (htimer : c'.timers.timer t = c.timers.timer t)
    (harming : c'.arming (c.timers.timer t).id = c.arming (c.timers.timer t).id)
    (hf : f' (c.timers.timer t).ptWdog = f (c.timers.timer t).ptWdog) : Timed cfg f' c' t where
  small := by
    rw [htimer]
    exact h.small
  own := by
    rw [htimer, hf]
    exact h.own
  unarmed := by
    rw [htimer, hf, harming]
    exact h.unarmed
  armed a := by
    rw [htimer, harming]
    intro ha h0
    have hfollows := h.armed a ha h0
    refine ⟨?_, ?_, ?_, hfollows.spaced, hfollows.once, ?_, hfollows.range⟩
    · rw [htimer]
      exact hfollows.interval
    · rw [htimer, hf]
      exact hfollows.due
    · rw [htimer]
      exact hfollows.last
    · rw [htimer]
      exact hfollows.spent

theorem ptWdog_inj (I : Wdog.Posix.Inv cfg s) (ht : t ∈ s.gAlloctimers)
    (ht' : t' ∈ s.gAlloctimers) (h : (s.timer t).ptWdog = (s.timer t').ptWdog) : t = t' := by
  have hnodup := (List.nodup_append.mp (List.nodup_append.mp I.pool_nodup).2.1).2.1
  exact List.inj_on_of_nodup_map hnodup ht ht' h

theorem ptWdog_ne {w : Nat} (I : Wdog.Posix.Inv cfg s) (hw : w ∈ s.others)
    (ht : t ∈ s.gAlloctimers) : (s.timer t).ptWdog ≠ w := by
  rintro rfl
  exact (I.not_other ht).2 hw

theorem setTimer_self (s : Timers) (t : Nat) (p : PosixTimer) : (s.setTimer t p).timer t = p :=
  update_self _ _ _

structure Rearmed (s s' : Timers) (f f' : Nat → Option Due) (t : Nat) : Prop where
  timer : ∀ x, x ≠ t → s'.timer x = s.timer x
  wdog : (s'.timer t).ptWdog = (s.timer t).ptWdog
  id : (s'.timer t).id = (s.timer t).id
  alloc : s'.gAlloctimers = s.gAlloctimers
  nextId : s'.nextId = s.nextId
  draining : s'.draining = s.draining
  others : ∀ x, x ≠ (s.timer t).ptWdog → f' x = f x

abbrev startedAt (cfg : Config) (now delay : Int) (t : Nat) : Due :=
  (now + startDelay delay, cfg.timerTimeout, [t])

theorem arm_stand (I : Wdog.Posix.Inv cfg s) (ht : t ∈ s.gAlloctimers)
    (S : Stand now draining s.wd f) (h0 : 0 ≤ delay) (hmax : delay ≤ intMax) :
    ∃ wd armed, Wdog.Posix.arm cfg t delay s = some { s with wd := wd, armed := armed } ∧
      Stand now draining wd
        (update f (s.timer t).ptWdog (some (startedAt cfg now delay t))) := by
  have hw : (s.timer t).ptWdog ≠ 0 := I.ne_zero (Wdog.Posix.Inv.wdog_mem s ht)
  have hparms := cfg.parms
  rcases Wdog.Posix.wdStart_spec cfg.wdogs (w := (s.timer t).ptWdog) I.linked delay
      cfg.timerTimeout [t] with ⟨e, he⟩ | ⟨wd, hok, -⟩
  · have herr : ¬ ((s.timer t).ptWdog = 0 ∨ cfg.wdogs.maxWdogparms < [t].length ∨ delay < 0) := by
      simp only [List.length_singleton]
      omega
    unfold wdStart at he
    rw [if_neg herr] at he
    dsimp only at he
    split at he
    · obtain ⟨r, -, hr⟩ := Option.bind_eq_some_iff.mp he
      cases hr
    · cases he
  · refine ⟨wd, update s.armed (s.timer t).ptWdog (s.timer t).id, ?_,
      S.start (I.not_other ht).1 hmax hok⟩
    unfold Wdog.Posix.arm
    rw [hok]

theorem settime_stand (I : Wdog.Posix.Inv cfg s) (ht : t ∈ s.gAlloctimers)
    (S : Stand now draining s.wd f) (zero : Bool) {interval : Option Int}
    (hinterval : interval.getD 0 ≤ intMax) (hvalue : value ≤ intMax) :
    ∃ s' f', Wdog.Posix.timerSettime cfg t zero interval value s = some s' ∧
      Stand now draining s'.wd f' ∧ Rearmed s s' f f' t ∧
      (zero = true → f' (s.timer t).ptWdog = none ∧ s'.timer t = s.timer t) ∧
      (zero = false → (s'.timer t).ptDelay = interval.getD 0 ∧
        (0 < Arming.delay ⟨now, value, interval.getD 0, []⟩ →
          f' (s.timer t).ptWdog =
            some (startedAt cfg now (Arming.delay ⟨now, value, interval.getD 0, []⟩) t) ∧
          (s'.timer t).ptLast = Arming.delay ⟨now, value, interval.getD 0, []⟩) ∧
        (¬ 0 < Arming.delay ⟨now, value, interval.getD 0, []⟩ →
          f' (s.timer t).ptWdog = none)) := by
  have hw : (s.timer t).ptWdog ≠ 0 := I.ne_zero (Wdog.Posix.Inv.wdog_mem s ht)
  obtain ⟨b, wd1, hc, L, hm, hf, hfn, hp⟩ := Wdog.Posix.wdCancel_spec I.linked hw
  have I1 : Wdog.Posix.Inv cfg { s with wd := wd1 } :=
    I.stopWd L hf (fun w hw => ((hm w).mp hw).1) hfn hp
  have S1 := S.cancel hc
  have hothers : ∀ x, x ≠ (s.timer t).ptWdog →
      update f (s.timer t).ptWdog none x = f x :=
    fun x hx => update_of_ne hx _ _
  unfold Wdog.Posix.timerSettime
  rw [hc]
  dsimp only
  cases zero with
  | true =>
    refine ⟨_, _, rfl, S1, ⟨fun _ _ => rfl, rfl, rfl, rfl, rfl, rfl, hothers⟩, ?_, ?_⟩
    · intro _
      exact ⟨update_self _ _ _, rfl⟩
    · intro h
      cases h
  | false =>
    have I2 := I1.setTimer (t := t) (p := { s.timer t with ptDelay := interval.getD 0 })
      rfl rfl rfl rfl
    have hmax : Arming.delay ⟨now, value, interval.getD 0, []⟩ ≤ intMax := by
      unfold Arming.delay
      split <;> assumption
    have hdelay : (if value ≤ 0 then interval.getD 0 else value) =
        Arming.delay ⟨now, value, interval.getD 0, []⟩ := rfl
    simp only [Bool.false_eq_true, if_false, setTimer_self, hdelay]
    generalize Arming.delay ⟨now, value, interval.getD 0, []⟩ = first at hmax ⊢
    by_cases hpos : 0 < first
    · have I3 := I2.setTimer (t := t) (p := { s.timer t with
        ptDelay := interval.getD 0, ptLast := first }) (by rw [setTimer_self])
        (by rw [setTimer_self]) (by rw [setTimer_self]) (by rw [setTimer_self])
      obtain ⟨wd2, armed, harm, S2⟩ := arm_stand (t := t) I3 ht S1 (by omega) hmax
      rw [setTimer_self] at S2
      dsimp only at S2
      rw [update_idem] at S2
      rw [if_pos hpos, harm]
      refine ⟨_, _, rfl, S2, ⟨?_, ?_, ?_, rfl, rfl, rfl, ?_⟩, ?_, ?_⟩
      · intro x hx
        simp [Timers.setTimer, hx]
      · simp [Timers.setTimer]
      · simp [Timers.setTimer]
      · intro x hx
        exact update_of_ne hx _ _
      · intro h
        cases h
      · intro _
        refine ⟨by simp [Timers.setTimer], fun _ => ⟨?_, by simp [Timers.setTimer]⟩,
          fun h => absurd hpos h⟩
        exact update_self _ _ _
    · rw [if_neg hpos]
      refine ⟨_, _, rfl, S1, ⟨?_, ?_, ?_, rfl, rfl, rfl, hothers⟩, ?_, ?_⟩
      · intro x hx
        exact update_of_ne hx _ _
      · simp [Timers.setTimer]
      · simp [Timers.setTimer]
      · intro h
        cases h
      · intro _
        refine ⟨by simp [Timers.setTimer], fun h => absurd h hpos, fun _ => ?_⟩
        exact update_self _ _ _

theorem restart_stand (I : Wdog.Posix.Inv cfg s) (ht : t ∈ s.gAlloctimers)
    (S : Stand now draining s.wd f) (hmax : (s.timer t).ptDelay ≤ intMax)
    (hnone : f (s.timer t).ptWdog = none) :
    ∃ s' f', Wdog.Posix.timerRestart cfg t s = some s' ∧ Stand now draining s'.wd f' ∧
      Rearmed s s' f f' t ∧ (s'.timer t).ptDelay = (s.timer t).ptDelay ∧
      (∀ d, f' (s.timer t).ptWdog = some d → d.2 = (cfg.timerTimeout, [t])) ∧
      (0 < (s.timer t).ptDelay → f' (s.timer t).ptWdog =
          some (startedAt cfg now (s.timer t).ptDelay t) ∧
        (s'.timer t).ptLast = (s.timer t).ptDelay) ∧
      ((s.timer t).ptDelay = 0 → s' = s ∧ f' = f) := by
  have hown : ∀ d, f (s.timer t).ptWdog = some d → d.2 = (cfg.timerTimeout, [t]) := by
    intro d hd
    rw [hnone] at hd
    cases hd
  unfold Wdog.Posix.timerRestart
  by_cases hzero : (s.timer t).ptDelay = 0
  · rw [if_neg (not_not.mpr hzero)]
    refine ⟨s, f, rfl, S, ⟨fun _ _ => rfl, rfl, rfl, rfl, rfl, rfl, fun _ _ => rfl⟩, rfl, hown, ?_,
      fun _ => ⟨rfl, rfl⟩⟩
    intro hpos
    omega
  · rw [if_pos hzero]
    have I1 := I.setTimer (t := t) (p := { s.timer t with ptLast := (s.timer t).ptDelay })
      rfl rfl rfl rfl
    by_cases hneg : (s.timer t).ptDelay < 0
    · have harm : Wdog.Posix.arm cfg t (s.timer t).ptDelay
          (s.setTimer t { s.timer t with ptLast := (s.timer t).ptDelay }) =
          some (s.setTimer t { s.timer t with ptLast := (s.timer t).ptDelay }) := by
        unfold Wdog.Posix.arm wdStart
        rw [if_pos (.inr (.inr hneg))]
      rw [harm]
      refine ⟨_, f, rfl, S, ⟨?_, ?_, ?_, rfl, rfl, rfl, fun _ _ => rfl⟩, ?_, hown, ?_, ?_⟩
      · intro x hx
        simp [Timers.setTimer, hx]
      · simp [Timers.setTimer]
      · simp [Timers.setTimer]
      · simp [Timers.setTimer]
      · intro hpos
        omega
      · intro h
        exact absurd h hzero
    · obtain ⟨wd, armed, harm, S1⟩ := arm_stand (t := t) I1 ht S (by omega) hmax
      rw [setTimer_self] at S1
      rw [harm]
      refine ⟨_, _, rfl, S1, ⟨?_, ?_, ?_, rfl, rfl, rfl, ?_⟩, ?_, ?_, ?_, ?_⟩
      · intro x hx
        simp [Timers.setTimer, hx]
      · simp [Timers.setTimer]
      · simp [Timers.setTimer]
      · intro x hx
        exact update_of_ne hx _ _
      · simp [Timers.setTimer]
      · intro d hd
        have hself := hd.symm.trans (update_self _ _ _)
        cases hself
        rfl
      · intro _
        exact ⟨update_self _ _ _, by simp [Timers.setTimer]⟩
      · intro h
        exact absurd h hzero

theorem Inv.keep {c' : Schedule} (J : Inv cfg c) (I : Wdog.Posix.Inv cfg c'.timers)
    (hsub : ∀ t ∈ c'.timers.gAlloctimers, t ∈ c.timers.gAlloctimers)
    (htimer : ∀ t ∈ c'.timers.gAlloctimers, c'.timers.timer t = c.timers.timer t)
    (hnext : c'.timers.nextId = c.timers.nextId) (harming : c'.arming = c.arming)
    (hstand : ∀ f, Stand c.now c.timers.draining c.timers.wd f →
      (∀ t ∈ c.timers.gAlloctimers, ∀ d, f (c.timers.timer t).ptWdog = some d →
        d.2 = (cfg.timerTimeout, [t])) →
      ∃ f', Stand c'.now c'.timers.draining c'.timers.wd f' ∧
        ∀ t ∈ c'.timers.gAlloctimers,
          f' (c.timers.timer t).ptWdog = f (c.timers.timer t).ptWdog) : Inv cfg c' where
  timers := I
  fresh id hid := by
    rw [harming]
    exact J.fresh id (hnext ▸ hid)
  timed := by
    obtain ⟨f, S, hall⟩ := J.timed
    obtain ⟨f', S', hsame⟩ := hstand f S fun t ht => (hall t ht).own
    refine ⟨f', S', fun t ht => ?_⟩
    exact (hall t (hsub t ht)).frame (htimer t ht) (congrFun harming _) (hsame t ht)

theorem Timed.other {v : Option Arming} {x : Nat} (h : Timed cfg f c x)
    (I : Wdog.Posix.Inv cfg c.timers) (R : Rearmed c.timers s' f f' t)
    (ht : t ∈ c.timers.gAlloctimers) (hx : x ∈ c.timers.gAlloctimers) (hne : x ≠ t) :
    Timed cfg f' ⟨s', now, update c.arming (c.timers.timer t).id v⟩ x := by
  apply h.frame (R.timer x hne)
  · exact update_of_ne (fun hid => hne (I.apart x hx t ht hid)) _ _
  · exact R.others _ fun hw => hne (ptWdog_inj I hx ht hw)

theorem follows_armed {w : Nat} {a : Arming} (hw : (s'.timer t).ptWdog = w)
    (hdelay : (s'.timer t).ptDelay = a.interval) (hrange : a.value ≤ intMax ∧ a.interval ≤ intMax)
    (hpos : 0 < a.delay → f' w = some (startedAt cfg a.tick a.delay t) ∧
      (s'.timer t).ptLast = a.delay) (hneg : ¬ 0 < a.delay → f' w = none)
    (hnil : a.expirations = []) : Follows s' f' t a := by
  have hpending : a.pending = if 0 < a.delay then some (a.tick, a.delay) else none := by
    unfold Arming.pending
    rw [hnil]
  refine ⟨hdelay, ?_, ?_, ?_, ?_, ?_, hrange⟩
  · rw [hw, hpending]
    by_cases h0 : 0 < a.delay
    · rw [(hpos h0).1, if_pos h0]
      rfl
    · rw [hneg h0, if_neg h0]
      rfl
  · intro p hp
    rw [hpending] at hp
    by_cases h0 : 0 < a.delay
    · rw [if_pos h0] at hp
      cases hp
      exact (hpos h0).2
    · rw [if_neg h0] at hp
      cases hp
  · rw [hnil]
    exact .nil
  · intro _
    rw [hnil]
    exact Nat.zero_le 1
  · intro _ h
    exact absurd hnil h

theorem Inv.settime (J : Inv cfg c) (ht : t ∈ c.timers.gAlloctimers) (zero : Bool)
    {interval : Option Int} (hinterval : interval.getD 0 ≤ intMax) (hvalue : value ≤ intMax)
    (he : Wdog.Posix.timerSettime cfg t zero interval value c.timers = some s') :
    Inv cfg ⟨s', c.now, c.record cfg (.settime t zero interval value)⟩ := by
  obtain ⟨f, S, hall⟩ := J.timed
  obtain ⟨s1, f', h1, S', R, hdisarmed, harmed⟩ :=
    settime_stand J.timers ht S zero hinterval hvalue
  obtain ⟨s2, h2, I'⟩ := J.timers.settime ht zero interval value
  rw [he] at h1 h2
  cases h1
  cases h2
  refine ⟨I', ?_, f', R.draining ▸ S', ?_⟩
  · intro id hid
    have hlt := J.timers.ids t ht
    have hnext : c.timers.nextId ≤ id := R.nextId ▸ hid
    refine (update_of_ne (by omega) _ _).trans (J.fresh id hnext)
  · intro x hx
    have hx' : x ∈ c.timers.gAlloctimers := R.alloc ▸ hx
    by_cases hxt : x = t
    · subst hxt
      cases zero with
      | true =>
        obtain ⟨hnone, hsame⟩ := hdisarmed rfl
        refine ⟨?_, ?_, ?_, ?_⟩
        · dsimp only
          rw [hsame]
          exact (hall x hx').small
        · intro d hd
          rw [R.wdog, hnone] at hd
          cases hd
        · intro _
          rw [R.wdog, hnone]
        · intro a ha
          have hself := ha.symm.trans ((congrArg _ R.id).trans (update_self _ _ _))
          cases hself
      | false =>
        obtain ⟨hdelay, hpos, hneg⟩ := harmed rfl
        have hself : c.record cfg (.settime x false interval value) (s'.timer x).id =
            some ⟨c.now, value, interval.getD 0, []⟩ :=
          (congrArg _ R.id).trans (update_self _ _ _)
        refine ⟨hdelay.trans_le hinterval, ?_, ?_, ?_⟩
        · intro d hd
          rw [R.wdog] at hd
          by_cases h0 : 0 < Arming.delay ⟨c.now, value, interval.getD 0, []⟩
          · rw [(hpos h0).1] at hd
            cases hd
            rfl
          · rw [hneg h0] at hd
            cases hd
        · intro hnone
          have hsome := hself.symm.trans hnone
          cases hsome
        · intro a ha _
          have hsome := hself.symm.trans ha
          cases hsome
          exact follows_armed R.wdog hdelay ⟨hvalue, hinterval⟩ hpos hneg rfl
    · exact (hall x hx').other J.timers R ht hx' hxt

theorem follows_expired {a : Arming} (h : Follows s f t a) (h0 : 0 ≤ a.interval)
    (hdue : ∃ d, f (s.timer t).ptWdog = some d ∧ d.1 = now)
    (hwdog : (s'.timer t).ptWdog = (s.timer t).ptWdog)
    (hdelay : (s'.timer t).ptDelay = (s.timer t).ptDelay)
    (hpos : 0 < (s.timer t).ptDelay → f' (s.timer t).ptWdog =
      some (startedAt cfg now (s.timer t).ptDelay t) ∧
        (s'.timer t).ptLast = (s.timer t).ptDelay)
    (hzero : (s.timer t).ptDelay = 0 → f' (s.timer t).ptWdog = none ∧
      (s'.timer t).ptLast = (s.timer t).ptLast) :
    Follows s' f' t (Arming.expired now a) := by
  obtain ⟨d, hd, hnow⟩ := hdue
  have hpending : a.pending.map (fun p => p.1 + startDelay p.2) = some now := by
    rw [← h.due, hd, ← hnow]
    rfl
  rw [h.interval] at hpos hzero
  refine ⟨hdelay.trans h.interval, ?_, ?_, ?_, ?_, ?_, h.range⟩
  · show (f' (s'.timer t).ptWdog).map Prod.fst = (Arming.expired now a).pending.map _
    rw [hwdog]
    unfold Arming.pending Arming.expired
    dsimp only
    by_cases hi : 0 < a.interval
    · rw [(hpos hi).1, if_pos hi]
      rfl
    · rw [(hzero (by omega)).1, if_neg hi]
      rfl
  · intro p hp
    unfold Arming.pending Arming.expired at hp
    dsimp only at hp
    by_cases hi : 0 < a.interval
    · rw [if_pos hi] at hp
      cases hp
      exact (hpos hi).2
    · rw [if_neg hi] at hp
      cases hp
  · show (now :: a.expirations).IsChain _
    have hspaced := h.spaced
    unfold Arming.pending at hpending
    cases hexp : a.expirations with
    | nil => exact .singleton _
    | cons last rest =>
      rw [hexp] at hpending hspaced
      dsimp only at hpending
      refine .cons_cons ?_ hspaced
      by_cases hi : 0 < a.interval
      · rw [if_pos hi] at hpending
        cases hpending
        rfl
      · rw [if_neg hi] at hpending
        cases hpending
  · intro (hi : a.interval = 0)
    show (now :: a.expirations).length ≤ 1
    unfold Arming.pending at hpending
    cases hexp : a.expirations with
    | nil => exact Nat.le_refl 1
    | cons last rest =>
      rw [hexp] at hpending
      dsimp only at hpending
      rw [if_neg (by omega)] at hpending
      cases hpending
  · intro (hi : a.interval = 0) _
    show 0 < a.value ∧ (s'.timer t).ptLast = a.value
    have hlast := h.last
    unfold Arming.pending at hpending hlast
    cases hexp : a.expirations with
    | nil =>
      rw [hexp] at hpending hlast
      dsimp only at hpending hlast
      by_cases hfirst : 0 < a.delay
      · have hold := hlast (a.tick, a.delay) (by rw [if_pos hfirst]; rfl)
        have hvalue : a.delay = a.value ∧ 0 < a.value := by
          unfold Arming.delay at hfirst ⊢
          split at hfirst
          · omega
          · rename_i hpositive
            rw [if_neg hpositive]
            exact ⟨rfl, hfirst⟩
        exact ⟨hvalue.2, (hzero hi).2.trans (hold.trans hvalue.1)⟩
      · rw [if_neg hfirst] at hpending
        cases hpending
    | cons last rest =>
      rw [hexp] at hpending
      dsimp only at hpending
      rw [if_neg (by omega)] at hpending
      cases hpending

theorem Inv.expire (J : Inv cfg c) (hdraining : c.timers.draining = true) {ok : Bool}
    (he : Op.expire.exec cfg c.timers = some (ok, s')) :
    Inv cfg ⟨s', c.now, c.record cfg .expire⟩ := by
  obtain ⟨s1, h1, I'⟩ := J.timers.expire
  rw [he] at h1
  cases h1
  have hexec := he
  obtain ⟨L, hcases⟩ := Wdog.Posix.wdExpire_cases J.timers.linked
  obtain ⟨hfree, hfn, hp⟩ := Wdog.Posix.wdExpire_frame c.timers.wd
  simp only [Op.exec] at hexec
  cases hw : (wdExpire c.timers.wd).2 with
  | none =>
    rw [hw] at hexec
    cases hexec
    have hrecord : c.record cfg .expire = c.arming := by
      unfold Schedule.record
      rw [hw]
    rw [hrecord]
    refine J.keep I' (fun _ ht => ht) (fun _ _ => rfl) rfl rfl fun f S _ => ?_
    rw [hdraining] at S
    exact ⟨f, S.done hw, fun _ _ => rfl⟩
  | some w =>
    rw [hw] at hexec
    dsimp only at hexec
    by_cases hfunc : c.timers.wd.func w = cfg.timerTimeout
    · rcases hcases with ⟨hnone, -⟩ | ⟨w', hw', hactive, hm⟩
      · rw [hw] at hnone
        cases hnone
      rw [hw] at hw'
      cases hw'
      obtain ⟨t, ht, hparm, hptWdog, -⟩ := J.timers.active w hactive hfunc
      have I1 : Wdog.Posix.Inv cfg { c.timers with wd := (wdExpire c.timers.wd).1 } :=
        J.timers.stopWd L hfree (fun x hx => ((hm x).mp hx).1) hfn hp
      obtain ⟨e, htimeout, I2⟩ := I1.timerTimeout_eq ht
      obtain ⟨f, S, hall⟩ := J.timed
      rw [hdraining] at S
      obtain ⟨hdue, S1⟩ := S.expire hw
      have hgone : update f w none (c.timers.timer t).ptWdog = none := by
        rw [hptWdog, update_self]
      obtain ⟨s2, f', hs2, S2, R, hdelay, hown, hpos, hzero⟩ :=
        restart_stand (t := t) I2 ht S1 (hall t ht).small hgone
      rw [if_pos hfunc, hparm] at hexec
      dsimp only at hexec
      rw [htimeout, hs2] at hexec
      cases hexec
      have hrecord : c.record cfg .expire = update c.arming (c.timers.timer t).id
          ((c.arming (c.timers.timer t).id).map (Arming.expired c.now)) := by
        unfold Schedule.record
        rw [hw]
        dsimp only
        rw [if_pos hfunc, hparm]
      rw [hrecord]
      have R' : Rearmed c.timers s' f f' t := by
        refine ⟨R.timer, R.wdog, R.id, R.alloc, R.nextId, R.draining, fun x hx => ?_⟩
        refine (R.others x hx).trans (update_of_ne ?_ _ _)
        rw [← hptWdog]
        exact hx
      refine ⟨I', ?_, f', ?_, ?_⟩
      · intro id hid
        have hlt := J.timers.ids t ht
        have hnext : c.timers.nextId ≤ id := R.nextId ▸ hid
        refine (update_of_ne (by omega) _ _).trans (J.fresh id hnext)
      · rw [← hdraining] at S2
        exact R'.draining ▸ S2
      · intro x hx
        have hx' : x ∈ c.timers.gAlloctimers := R'.alloc ▸ hx
        by_cases hxt : x = t
        · subst hxt
          have hdue' : f (c.timers.timer x).ptWdog =
              some (c.now, c.timers.wd.func w, c.timers.wd.parm w) := by
            rw [hptWdog]
            exact hdue
          cases ha : c.arming (c.timers.timer x).id with
          | none =>
            rw [(hall x hx').unarmed ha] at hdue'
            cases hdue'
          | some a =>
            have hself : update c.arming (c.timers.timer x).id
                ((some a).map (Arming.expired c.now)) (s'.timer x).id =
                some (Arming.expired c.now a) :=
              (congrArg _ R'.id).trans (update_self _ _ _)
            refine ⟨hdelay.trans_le (hall x hx').small, ?_, ?_, ?_⟩
            · intro d hd
              rw [R'.wdog] at hd
              exact hown d hd
            · intro hnone
              have hsome := hself.symm.trans hnone
              cases hsome
            · intro a' ha' h0
              have hsome := hself.symm.trans ha'
              cases hsome
              refine follows_expired ((hall x hx').armed a ha h0) h0 ⟨_, hdue', rfl⟩ R'.wdog
                hdelay hpos fun hi => ?_
              obtain ⟨hs, hf⟩ := hzero hi
              rw [hs, hf]
              exact ⟨hgone, rfl⟩
        · exact (hall x hx').other J.timers R' ht hx' hxt
    · rw [if_neg hfunc] at hexec
      cases hexec
      have hrecord : c.record cfg .expire = c.arming := by
        unfold Schedule.record
        rw [hw]
        exact if_neg hfunc
      rw [hrecord]
      refine J.keep I' (fun _ ht => ht) (fun _ _ => rfl) rfl rfl fun f S hown => ?_
      rw [hdraining] at S
      obtain ⟨hdue, S'⟩ := S.expire hw
      refine ⟨_, hdraining ▸ S', fun t ht => update_of_ne ?_ _ _⟩
      intro hwt
      have hmine := hown t ht (c.now, c.timers.wd.func w, c.timers.wd.parm w)
        (by rw [hwt]; exact hdue)
      exact hfunc (congrArg Prod.fst hmine)

theorem Inv.release (J : Inv cfg c) (ht : t ∈ c.timers.gAlloctimers) :
    ∃ s', Wdog.Posix.timerRelease t c.timers = some (0, s') ∧
      s'.gAlloctimers = c.timers.gAlloctimers.erase t ∧ Inv cfg ⟨s', c.now, c.arming⟩ := by
  obtain ⟨s', h, I', halloc, hdraining⟩ := J.timers.release ht
  refine ⟨s', h, halloc, ?_⟩
  have hw : (c.timers.timer t).ptWdog ≠ 0 := J.timers.ne_zero (Wdog.Posix.Inv.wdog_mem _ ht)
  obtain ⟨wd, hdel, -⟩ := Wdog.Posix.wdDelete_spec J.timers.linked hw
  have hs' : s' = Wdog.Posix.timerFree t { c.timers with wd := wd } := by
    have hcr : ¬ 1 < (c.timers.timer t).ptCrefs := by
      rw [J.timers.crefs t ht]
      omega
    unfold Wdog.Posix.timerRelease at h
    rw [if_neg hcr, hdel] at h
    cases h
    rfl
  have hnodup := (List.nodup_append.mp J.timers.timers).2.1
  have hmem : ∀ x ∈ s'.gAlloctimers, x ≠ t ∧ x ∈ c.timers.gAlloctimers := by
    intro x hx
    rw [halloc] at hx
    exact hnodup.mem_erase_iff.mp hx
  refine J.keep I' (fun x hx => (hmem x hx).2) (fun x _ => by rw [hs']; rfl)
    (by rw [hs']; rfl) rfl fun f S _ => ?_
  have S' := S.delete (J.timers.not_other ht).1 hdel
  refine ⟨update f (c.timers.timer t).ptWdog none, ?_,
    fun x hx => update_of_ne ?_ _ _⟩
  · rw [hs']
    exact S'
  · intro hwx
    exact (hmem x hx).1 (ptWdog_inj J.timers (hmem x hx).2 ht hwx)

theorem Inv.deleteLoop {pid : Nat} {ts : List Nat} (J : Inv cfg c) (hn : ts.Nodup)
    (hts : ∀ t ∈ ts, t ∈ c.timers.gAlloctimers)
    (he : Wdog.Posix.deleteLoop pid ts c.timers = some s') :
    Inv cfg ⟨s', c.now, c.arming⟩ := by
  induction ts generalizing c with
  | nil =>
    cases he
    exact J
  | cons t ts ih =>
    obtain ⟨hnt, hn⟩ := List.nodup_cons.mp hn
    unfold Wdog.Posix.deleteLoop at he
    split at he
    · obtain ⟨s1, h1, halloc, J1⟩ := J.release (hts t List.mem_cons_self)
      rw [h1] at he
      have hleft : ∀ x ∈ ts, x ∈ s1.gAlloctimers := by
        intro x hx
        rw [halloc]
        apply (List.mem_erase_of_ne ?_).mpr (hts x (List.mem_cons_of_mem t hx))
        rintro rfl
        exact hnt hx
      have hrest := ih J1 hn hleft he
      exact hrest
    · exact ih J hn (fun x hx => hts x (List.mem_cons_of_mem t hx)) he

theorem timerCreate_true {ok : Bool} {pid : Nat} {evp : Option (Nat × Nat)} {mem : Option Nat}
    (h : Wdog.Posix.timerCreate ok pid evp mem s = (true, s')) :
    ∃ t p, s'.wd = (Wdog.wdCreate s.wd).1 ∧ s'.timer = update s.timer t p ∧
      p.ptWdog ∈ s.wd.gWdfreelist ∧ p.ptDelay = 0 ∧ p.id = s.nextId ∧
      s'.gAlloctimers = s.gAlloctimers ++ [t] ∧ s'.nextId = s.nextId + 1 ∧
      s'.draining = s.draining := by
  unfold Wdog.Posix.timerCreate at h
  split at h
  · cases h
  · dsimp only at h
    split at h
    · cases h
    · rename_i hw
      have hfree : (Wdog.wdCreate s.wd).2 ∈ s.wd.gWdfreelist := by
        cases hlist : s.wd.gWdfreelist with
        | nil =>
          rw [Wdog.Posix.wdCreate_nil hlist] at hw
          exact absurd rfl hw
        | cons w free =>
          rw [Wdog.Posix.wdCreate_cons hlist]
          exact List.mem_cons_self
      cases hlist : s.gFreetimers with
      | nil =>
        cases mem with
        | none =>
          simp only [Wdog.Posix.timerAllocate, hlist, Option.map_none] at h
          cases h
        | some t =>
          simp only [Wdog.Posix.timerAllocate, hlist, Option.map_some] at h
          cases h
          exact ⟨t, _, rfl, rfl, hfree, rfl, rfl, rfl, rfl, rfl⟩
      | cons t free =>
        simp only [Wdog.Posix.timerAllocate, hlist] at h
        cases h
        exact ⟨t, _, rfl, rfl, hfree, rfl, rfl, rfl, rfl, rfl⟩

theorem Inv.create (J : Inv cfg c) {ok : Bool} {pid : Nat} {evp : Option (Nat × Nat)}
    {mem : Option Nat} (h : Wdog.Posix.timerCreate ok pid evp mem c.timers = (true, s'))
    (I' : Wdog.Posix.Inv cfg s') : Inv cfg ⟨s', c.now, c.arming⟩ := by
  obtain ⟨t, p, hwd, htimer, hfree, hdelay, hid, halloc, hnext, hdraining⟩ := timerCreate_true h
  obtain ⟨f, S, hall⟩ := J.timed
  refine ⟨I', ?_, f, ?_, ?_⟩
  · intro id hle
    apply J.fresh id
    dsimp only at hle
    omega
  · show Stand c.now s'.draining s'.wd f
    rw [hdraining, hwd]
    exact S.create
  · have hnot : t ∉ c.timers.gAlloctimers := by
      have hnodup := (List.nodup_append.mp I'.timers).2.1
      rw [halloc] at hnodup
      intro ht
      exact (List.nodup_append.mp hnodup).2.2 t ht t List.mem_cons_self rfl
    intro x hx
    replace hx : x ∈ c.timers.gAlloctimers ++ [t] := halloc ▸ hx
    rcases List.mem_append.mp hx with hold | hnew
    · refine (hall x hold).frame ?_ rfl rfl
      show s'.timer x = c.timers.timer x
      rw [htimer]
      apply update_of_ne
      rintro rfl
      exact hnot hold
    · cases List.mem_singleton.mp hnew
      have hp : s'.timer t = p := by
        rw [htimer]
        exact update_self _ _ _
      have hnone : f p.ptWdog = none := S.inactive hfree
      refine ⟨?_, ?_, ?_, ?_⟩
      · show (s'.timer t).ptDelay ≤ intMax
        rw [hp, hdelay]
        decide
      · intro d hd
        rw [show (s'.timer t).ptWdog = p.ptWdog from congrArg _ hp, hnone] at hd
        cases hd
      · intro _
        rw [show (s'.timer t).ptWdog = p.ptWdog from congrArg _ hp, hnone]
      · intro a ha
        rw [show (s'.timer t).id = c.timers.nextId from (congrArg _ hp).trans hid,
          J.fresh _ (Nat.le_refl _)] at ha
        cases ha

theorem Inv.step {i : Op} (J : Inv cfg c) (hv : i.valid cfg c.timers) (hint : InInt i)
    (hk : i.keeps c.timers) {ok : Bool} (he : i.exec cfg c.timers = some (ok, s')) :
    Inv cfg ⟨s', c.tickOf i, c.record cfg i⟩ := by
  obtain ⟨ok1, s1, h1, I', -⟩ := J.timers.step hv hk
  rw [he] at h1
  cases h1
  cases i with
  | create ok1 pid evp mem =>
    rcases J.timers.create hv hk with h | ⟨s1, h, -⟩
    · rw [Op.exec, h] at he
      cases he
      exact J
    · rw [Op.exec, h] at he
      cases he
      exact J.create h I'
  | settime t zero interval value =>
    obtain ⟨s1, h, hs⟩ := Option.map_eq_some_iff.mp he
    cases hs
    exact J.settime hv.2 zero hint.1 hint.2 h
  | delete t =>
    obtain ⟨s1, h, -, J'⟩ := J.release hv.2
    rw [Op.exec, h] at he
    cases he
    exact J'
  | exit pid =>
    obtain ⟨s1, h, hs⟩ := Option.map_eq_some_iff.mp he
    cases hs
    exact J.deleteLoop (List.nodup_append.mp J.timers.timers).2.1 (fun t ht => ht) h
  | tick =>
    cases he
    have hdraining : c.timers.draining = false := hv
    refine J.keep I' (fun _ ht => ht) (fun _ _ => rfl) rfl rfl fun f S _ => ?_
    rw [hdraining] at S
    exact ⟨f, S.timer, fun _ _ => rfl⟩
  | expire => exact J.expire hv he
  | otherCreate =>
    cases he
    exact J.keep I' (fun _ ht => ht) (fun _ _ => rfl) rfl rfl fun f S _ =>
      ⟨f, S.create, fun _ _ => rfl⟩
  | otherStart w delay wdentry parm =>
    simp only [Op.exec] at he
    cases hs : wdStart cfg.wdogs w delay wdentry parm c.timers.wd with
    | none =>
      rw [hs] at he
      cases he
    | some r =>
      rw [hs] at he
      cases r with
      | error e =>
        cases he
        exact J
      | ok wd =>
        cases he
        refine J.keep I' (fun _ ht => ht) (fun _ _ => rfl) rfl rfl fun f S _ =>
          ⟨_, S.start (J.timers.mem_other hv.1).2 hint hs, fun t ht => ?_⟩
        exact update_of_ne (ptWdog_ne J.timers hv.1 ht) _ _
  | otherCancel w =>
    obtain ⟨⟨wd, b⟩, h, hs⟩ := Option.map_eq_some_iff.mp he
    cases hs
    refine J.keep I' (fun _ ht => ht) (fun _ _ => rfl) rfl rfl fun f S _ =>
      ⟨_, S.cancel h, fun t ht => ?_⟩
    exact update_of_ne (ptWdog_ne J.timers hv ht) _ _
  | otherDelete w =>
    simp only [Op.exec] at he
    cases hs : Wdog.wdDelete w c.timers.wd with
    | none =>
      rw [hs] at he
      cases he
    | some r =>
      rw [hs] at he
      cases r with
      | error e =>
        cases he
        exact J
      | ok wd =>
        cases he
        refine J.keep I' (fun _ ht => ht) (fun _ _ => rfl) rfl rfl fun f S _ =>
          ⟨_, S.delete (J.timers.mem_other hv).2 hs, fun t ht => ?_⟩
        exact update_of_ne (ptWdog_ne J.timers hv ht) _ _

theorem scheduled_inv (cfg : Config) : Inv cfg (scheduled cfg) where
  timers := Wdog.Posix.started_inv cfg
  fresh _ _ := rfl
  timed := ⟨fun _ => none, Wdog.started_stand _, fun t ht => by cases ht⟩

theorem reach_inv (h : Reach (scheduleMachine cfg) (· = scheduled cfg)
    (fun c i => i.keeps c.timers) c) : Inv cfg c := by
  apply h.invariant
  · rintro c rfl
    exact scheduled_inv cfg
  · intro c i c' J hv hk he
    obtain ⟨⟨ok, s'⟩, hexec, hc'⟩ := Option.map_eq_some_iff.mp he
    cases hc'
    exact J.step hv.1 hv.2 hk hexec

end

/-- An armed timer keeps its schedule.

`past` and `once`: the notification comes, and while it has not come the watchdog runs and is not
overdue. -/
structure OnSchedule (c : Schedule) (t : Nat) (a : Arming) : Prop where
  past : a.value ≤ 0 → a.expirations = [] →
    c.timers.wd.active (c.timers.timer t).ptWdog = true ∧ c.now ≤ a.tick + startDelay a.delay
  periodic : 0 < a.interval →
    a.expirations.IsChain fun later earlier => later = earlier + a.interval
  once : a.interval = 0 → a.expirations.length ≤ 1 ∧ (a.expirations = [] →
    c.timers.wd.active (c.timers.timer t).ptWdog = true ∧ c.now ≤ a.tick + startDelay a.delay)
  remaining : (timerGettime t c.timers).1 = clockTicks2time
    (match a.pending with
      | some p => p.1 + startDelay p.2 - c.now
      | none => 0)
  reload : (timerGettime t c.timers).2 = clockTicks2time a.interval

section

variable {cfg : Config} {c : Schedule} {f : Nat → Option Due} {t : Nat} {a : Arming}

theorem Follows.waiting (h : Follows c.timers f t a)
    (S : Stand c.now c.timers.draining c.timers.wd f) (hnil : a.expirations = [])
    (hpos : 0 < a.delay) : c.timers.wd.active (c.timers.timer t).ptWdog = true ∧
      c.now ≤ a.tick + startDelay a.delay := by
  have hpending : a.pending = some (a.tick, a.delay) := by
    unfold Arming.pending
    rw [hnil]
    exact if_pos hpos
  have hdue := h.due
  rw [hpending] at hdue
  obtain ⟨d, hd, hd1⟩ := Option.map_eq_some_iff.mp hdue
  refine ⟨(S.active_iff _).mpr (by rw [hd]; exact Option.some_ne_none d), ?_⟩
  have hnow := (S.future hd).1
  rw [hd1] at hnow
  exact hnow

theorem Follows.remaining (h : Follows c.timers f t a)
    (S : Stand c.now c.timers.draining c.timers.wd f) :
    wdGettime (c.timers.timer t).ptWdog c.timers.wd =
      match a.pending with
      | some p => p.1 + startDelay p.2 - c.now
      | none => 0 := by
  have hdue := h.due
  rw [S.gettime]
  cases hp : a.pending with
  | none =>
    rw [hp] at hdue
    rw [Option.map_eq_none_iff.mp hdue]
  | some p =>
    rw [hp] at hdue
    obtain ⟨d, hd, hd1⟩ := Option.map_eq_some_iff.mp hdue
    rw [hd]
    dsimp only
    rw [hd1]

theorem chain_distance {l : List Int} {p q : Int}
    (hq : l.IsChain fun later earlier => later = earlier + q) :
    (l.IsChain fun later earlier => later = earlier + p) ↔ l.length ≤ 1 ∨ p = q := by
  match l with
  | [] => exact ⟨fun _ => .inl (Nat.zero_le 1), fun _ => .nil⟩
  | [_] => exact ⟨fun _ => .inl (Nat.le_refl 1), fun _ => .singleton _⟩
  | x :: y :: l =>
    constructor
    · intro hp
      have hx := (List.isChain_cons_cons.mp hp).1
      have hx' := (List.isChain_cons_cons.mp hq).1
      exact .inr (by omega)
    · rintro (hlen | rfl)
      · simp at hlen
      · exact hq

theorem startDelay_eq_self {p : Int} (h0 : 0 < p) (h : p ≤ intMax) :
    p = startDelay p ↔ p = intMax := by
  rw [startDelay_eq (by omega) h]
  have hmax : (0 : Int) < intMax := by decide
  omega

theorem Follows.reload (h : Follows c.timers f t a) (h0 : 0 < a.interval) :
    (c.timers.timer t).ptLast = a.interval ↔
      a.expirations ≠ [] ∨ a.value ≤ 0 ∨ a.value = a.interval := by
  have hlast := h.last
  unfold Arming.pending at hlast
  cases hexp : a.expirations with
  | nil =>
    rw [hexp] at hlast
    dsimp only at hlast
    have hpos : 0 < a.delay := by
      unfold Arming.delay
      split <;> omega
    rw [if_pos hpos] at hlast
    rw [hlast _ rfl]
    unfold Arming.delay
    split
    · simp [*]
    · rename_i hvalue
      simp [hvalue]
  | cons last rest =>
    rw [hexp] at hlast
    dsimp only at hlast
    rw [if_pos h0] at hlast
    rw [hlast _ rfl]
    simp

theorem Follows.last_range {p : Int × Int} (h : Follows c.timers f t a) (hp : p ∈ a.pending) :
    0 < (c.timers.timer t).ptLast ∧ (c.timers.timer t).ptLast ≤ intMax := by
  obtain ⟨hvalue, hinterval⟩ := h.range
  rw [h.last p hp]
  unfold Arming.pending at hp
  split at hp
  · split at hp
    · cases hp
      rename_i hpos
      refine ⟨hpos, ?_⟩
      unfold Arming.delay
      split <;> assumption
    · cases hp
  · split at hp
    · cases hp
      rename_i hpos
      exact ⟨hpos, hinterval⟩
    · cases hp

theorem Arming.pending_periodic (h0 : 0 < a.interval) : ∃ p, p ∈ a.pending := by
  unfold Arming.pending
  split
  · have hpos : 0 < a.delay := by
      unfold Arming.delay
      split <;> omega
    rw [if_pos hpos]
    exact ⟨_, rfl⟩
  · rw [if_pos h0]
    exact ⟨_, rfl⟩

/-- In every run, an armed timer keeps its schedule just if it is periodic, has not yet expired
twice (unless the interval cannot be made longer), and has expired already, or was first
started with its interval. -/
theorem timer_settime_schedule (h : Reach (scheduleMachine cfg) (· = scheduled cfg)
    (fun c i => i.keeps c.timers) c) (ht : t ∈ c.timers.gAlloctimers)
    (ha : c.arming (c.timers.timer t).id = some a) (h0 : 0 ≤ a.interval) :
    OnSchedule c t a ↔ 0 < a.interval ∧
      (a.expirations.length ≤ 1 ∨ a.interval = intMax) ∧
      (a.expirations ≠ [] ∨ a.value ≤ 0 ∨ a.value = a.interval) := by
  obtain ⟨f, S, hall⟩ := (reach_inv h).timed
  have hfollows := (hall t ht).armed a ha h0
  have hint : 0 < intMax ∧ intMax < 2147483648 := by decide
  have hspaced : 0 < a.interval →
      ((a.expirations.IsChain fun later earlier => later = earlier + a.interval) ↔
        a.expirations.length ≤ 1 ∨ a.interval = intMax) := by
    intro hpos
    rw [chain_distance hfollows.spaced, startDelay_eq_self hpos hfollows.range.2]
  constructor
  · intro hon
    have hpos : 0 < a.interval := by
      by_contra hle
      have hzero : a.interval = 0 := by omega
      -- what is read as the interval of a timer that was started once is its delay
      have hlast : 0 < (c.timers.timer t).ptLast ∧ (c.timers.timer t).ptLast ≤ intMax := by
        by_cases hnil : a.expirations = []
        · have hactive := ((hon.once hzero).2 hnil).1
          obtain ⟨d, hd⟩ := Option.ne_none_iff_exists'.mp ((S.active_iff _).mp hactive)
          have hdue := hfollows.due
          rw [hd] at hdue
          obtain ⟨p, hp, -⟩ := Option.map_eq_some_iff.mp hdue.symm
          exact hfollows.last_range hp
        · have hover := hfollows.spent hzero hnil
          have hvalue := hfollows.range.1
          omega
      have heq := clockTicks2time_inj (by omega) (by omega) h0 (by omega) hon.reload
      omega
    refine ⟨hpos, (hspaced hpos).mp (hon.periodic hpos), (hfollows.reload hpos).mp ?_⟩
    obtain ⟨p, hp⟩ := Arming.pending_periodic hpos
    have hlast := hfollows.last_range hp
    have hinterval := hfollows.range.2
    exact clockTicks2time_inj (by omega) (by omega) h0 (by omega) hon.reload
  · rintro ⟨hpos, hchain, hreload⟩
    have hdelay : 0 < a.delay := by
      unfold Arming.delay
      split <;> omega
    refine ⟨?_, ?_, ?_, ?_, ?_⟩
    · intro _ hnil
      exact hfollows.waiting S hnil hdelay
    · intro _
      exact (hspaced hpos).mpr hchain
    · intro hzero
      omega
    · exact congrArg clockTicks2time (hfollows.remaining S)
    · exact congrArg clockTicks2time ((hfollows.reload hpos).mpr hreload)

end

instance decidableInInt (i : Op) : Decidable (InInt i) :=
  match i with
  | .settime _ _ interval value =>
    inferInstanceAs (Decidable (interval.getD 0 ≤ intMax ∧ value ≤ intMax))
  | .otherStart _ delay _ _ => inferInstanceAs (Decidable (delay ≤ intMax))
  | .create _ _ _ _ => inferInstanceAs (Decidable True)
  | .delete _ => inferInstanceAs (Decidable True)
  | .exit _ => inferInstanceAs (Decidable True)
  | .tick => inferInstanceAs (Decidable True)
  | .expire => inferInstanceAs (Decidable True)
  | .otherCreate => inferInstanceAs (Decidable True)
  | .otherCancel _ => inferInstanceAs (Decidable True)
  | .otherDelete _ => inferInstanceAs (Decidable True)

instance decidableScheduleMachineValid (cfg : Config) (c : Schedule) (i : Op) :
    Decidable ((scheduleMachine cfg).valid c i) :=
  inferInstanceAs (Decidable (i.valid cfg c.timers ∧ InInt i))

/-- A periodic timer after its first expiration. -/
theorem timer_settime_schedule_first : ∃ c a,
    runAll (scheduleMachine Wdog.Posix.smallConfig) (fun c i => i.keeps c.timers)
      (scheduled Wdog.Posix.smallConfig) [.create true 5 none none, .settime 1 false (some 1) 3,
        .tick, .tick, .tick, .tick, .expire, .expire] = some c ∧
    c.arming (c.timers.timer 1).id = some a ∧ a.expirations = [4] ∧ OnSchedule c 1 a := by
  have h : ∃ c, runAll (scheduleMachine Wdog.Posix.smallConfig) (fun c i => i.keeps c.timers)
      (scheduled Wdog.Posix.smallConfig) [.create true 5 none none, .settime 1 false (some 1) 3,
        .tick, .tick, .tick, .tick, .expire, .expire] = some c ∧
      1 ∈ c.timers.gAlloctimers ∧ ∃ a, c.arming (c.timers.timer 1).id = some a ∧
        a.expirations = [4] ∧ a.interval = 1 := by
    decide +kernel
  obtain ⟨c, hrun, ht, a, ha, hexp, hint⟩ := h
  refine ⟨c, a, hrun, ha, hexp, ?_⟩
  apply (timer_settime_schedule (.runAll (.init rfl) hrun) ht ha (by omega)).mpr
  refine ⟨by omega, .inl ?_, .inl ?_⟩
  · rw [hexp]
    decide
  · rw [hexp]
    exact List.cons_ne_nil _ _

/-- An absolute time that is past gives a timer that runs once no watchdog. -/
theorem timer_settime_past : ¬ ∀ (cfg : Config) (c : Schedule), Reach (scheduleMachine cfg)
    (· = scheduled cfg) (fun c i => i.keeps c.timers) c → ∀ t ∈ c.timers.gAlloctimers, ∀ a,
      c.arming (c.timers.timer t).id = some a → 0 ≤ a.interval → OnSchedule c t a := by
  intro hall
  have h : ∃ c, runAll (scheduleMachine Wdog.Posix.smallConfig) (fun c i => i.keeps c.timers)
      (scheduled Wdog.Posix.smallConfig) [.create true 5 none none, .settime 1 false none (-2)] =
        some c ∧ 1 ∈ c.timers.gAlloctimers ∧ (∃ a, c.arming (c.timers.timer 1).id = some a ∧
          a.expirations = [] ∧ a.interval = 0 ∧ a.value = -2) ∧
        c.timers.wd.active (c.timers.timer 1).ptWdog = false := by
    decide +kernel
  obtain ⟨c, hrun, ht, ⟨a, ha, hexp, hint, hvalue⟩, hidle⟩ := h
  have hon := hall _ c (.runAll (.init rfl) hrun) 1 ht a ha (by omega)
  have hactive := (hon.past (by omega) hexp).1
  rw [hidle] at hactive
  cases hactive

end NuttxAvr32.Time
