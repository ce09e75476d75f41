import NuttxAvr32.Time.Clock
import NuttxAvr32.Lib.Civil

/-! # The calendar without `CONFIG_GREGORIAN_TIME`

`gmtime_r` counts years from 1970 with the leap years of 1900 and searches for the month.
`mktime` goes back by a formula.
-/

namespace NuttxAvr32.Time

open Civil
open Wdog (wrapInt)

structure Tm where
  tmSec : Int
  tmMin : Int
  tmHour : Int
  tmMday : Int
  tmMon : Int
  tmYear : Int
deriving DecidableEq, Repr

def clockIsleapyear (year : Int) : Bool :=
  if year.tmod 400 ≠ 0 then
    if year.tmod 100 ≠ 0 then
      if year.tmod 4 ≠ 0 then false else true
    else false
  else true

def gDaysbeforemonth : List Nat := [0, 31, 59, 90, 120, 151, 181, 212, 243, 273, 304, 334, 365]

def clockDaysbeforemonth (month : Nat) (leapyear : Bool) : Nat :=
  let retval := gDaysbeforemonth.getD month 0
  if 2 ≤ month ∧ leapyear then retval + 1 else retval

/-- The loop of `clock_utc2calendar` over the years: the year, the days in it and whether it
counts as a leap year. -/
def findYear (value days : Nat) : Nat × Nat × Bool :=
  let leapyear := clockIsleapyear (value + 1900)
  let tmp := bif leapyear then 366 else 365
  if tmp ≤ days then findYear (value + 1) (days - tmp) else (value, days, leapyear)
termination_by days
decreasing_by
  rename_i hle
  cases h : clockIsleapyear (value + 1900) <;> simp only [tmp, leapyear, h, cond] at hle ⊢ <;>
    omega

/-- The loop over the months, with fuel for its rounds: the last `min`. `max` may become
negative. -/
def findMonth (days : Nat) (leapyear : Bool) : Nat → Nat → Int → Nat
  | 0, min, _ => min
  | fuel + 1, min, max =>
    let value := ((min + max) / 2).toNat
    if days ≤ clockDaysbeforemonth (value + 1) leapyear then
      if days ≤ clockDaysbeforemonth value leapyear then
        let max := (value : Int) - 1
        if min < max then findMonth days leapyear fuel min max else min
      else min
    else
      let min := value + 1
      if min < max then findMonth days leapyear fuel min max else min

def clockUtc2calendar (days : Nat) : Int × Int × Int :=
  let value := days / (4 * 365 + 1)
  let days := days - value * (4 * 365 + 1)
  let (value, days, leapyear) := findYear (value * 4) days
  let min := findMonth days leapyear 12 0 11
  let days := uint32 ((days : Int) - clockDaysbeforemonth min leapyear)
  (1970 + value, min + 1, wrapInt (days + 1))

def gmtimeR (time : Nat) : Tm :=
  let jdn := time / 86400
  let time := time - 86400 * jdn
  let hour := time / 3600
  let time := time - 3600 * hour
  let min := time / 60
  let sec := time - 60 * min
  let (year, month, day) := clockUtc2calendar jdn
  ⟨sec, min, hour, day, month - 1, year - 1900⟩

/-- The sums are those of `unsigned int`. -/
def mktime (tp : Tm) : Nat :=
  let days := uint32 ((tp.tmYear - 70) * 365)
  let days := uint32 (days + (tp.tmYear - 69) / 4)
  let days := uint32 (days +
    clockDaysbeforemonth tp.tmMon.toNat (clockIsleapyear (tp.tmYear + 1900)))
  let days := uint32 (days + (tp.tmMday - 1))
  uint32 (((days * 24 + tp.tmHour) * 60 + tp.tmMin) * 60 + tp.tmSec)

/-- The broken-down time is the date and time of day of an instant. -/
def Denotes (tp : Tm) (time : Nat) : Prop :=
  ∃ c : Date, tp.tmYear = c.year - 1900 ∧ tp.tmMon = c.month - 1 ∧ tp.tmMday = c.day ∧
    0 ≤ tp.tmHour ∧ tp.tmHour < 24 ∧ 0 ≤ tp.tmMin ∧ tp.tmMin < 60 ∧
    0 ≤ tp.tmSec ∧ tp.tmSec < 60 ∧
    (time : Int) = ((c.number * 24 + tp.tmHour) * 60 + tp.tmMin) * 60 + tp.tmSec

theorem clockIsleapyear_eq (year : Nat) : clockIsleapyear year = isLeap year := by
  have hleap := isLeap_eq_true_iff year
  unfold clockIsleapyear
  rw [Int.tmod_eq_emod_of_nonneg (by omega), Int.tmod_eq_emod_of_nonneg (by omega),
    Int.tmod_eq_emod_of_nonneg (by omega)]
  cases h : isLeap year with
  | true =>
    have hyear := hleap.mp h
    split_ifs <;> first | rfl | omega
  | false =>
    have hyear := mt hleap.mpr (by simp [h])
    split_ifs <;> first | rfl | omega

theorem clockDaysbeforemonth_eq {month : Nat} (h : month ≤ 12) (leapyear : Bool) :
    clockDaysbeforemonth month leapyear = beforeMonth leapyear month := by
  have hall : ∀ leapyear, ∀ month < 13,
      clockDaysbeforemonth month leapyear = beforeMonth leapyear month := by decide
  exact hall leapyear month (by omega)

theorem beforeYear_century (years : Nat) (h : years ≤ 130) :
    beforeYear years = 365 * years + (years + 1) / 4 := by
  have heq := beforeYear_eq years
  generalize beforeYear years = before at heq ⊢
  omega

theorem lt_of_beforeYear_le {years days : Nat} (h : beforeYear years ≤ days)
    (hdays : days < 47482) : years < 130 := by
  have hle := le_beforeYear years
  by_contra hlt
  have heq := beforeYear_century 130 le_rfl
  have hyears : years = 130 := by omega
  rw [hyears] at h
  omega

theorem number_lt {c : Date} (hc : c.year < 2100) : c.number < 47482 := by
  have hepoch := c.epoch
  have hday := Date.number_lt c
  have hnext := beforeYear_century (c.year - 1970 + 1) (by omega)
  have hyear : 1970 + (c.year - 1970) = c.year := by omega
  rw [beforeYear, hyear] at hnext
  unfold Date.number
  omega

theorem mktime_number (c : Date) (hc : c.year < 2100) (hour min sec : Nat) :
    mktime ⟨sec, min, hour, c.day, c.month - 1, c.year - 1900⟩ =
      uint32 (((c.number * 24 + hour) * 60 + min) * 60 + sec : Nat) := by
  have hepoch := c.epoch
  have hmonth := c.month_mem
  have hday := c.day_mem
  have hyear := beforeYear_century (c.year - 1970) (by omega)
  have hleap : clockIsleapyear (c.year - 1900 + 1900) = isLeap c.year := by
    rw [Int.sub_add_cancel]
    exact clockIsleapyear_eq c.year
  have hmon : ((c.month : Int) - 1).toNat = c.month - 1 := by omega
  have hquarter : ((c.year : Int) - 1900 - 69) / 4 = ((c.year - 1970 + 1) / 4 : Nat) := by omega
  unfold mktime
  dsimp only
  rw [hleap, hmon, hquarter, clockDaysbeforemonth_eq (by omega)]
  unfold Date.number
  generalize (c.year - 1970 + 1) / 4 = quarter at hyear ⊢
  generalize beforeYear (c.year - 1970) = before at hyear ⊢
  generalize beforeMonth (isLeap c.year) (c.month - 1) = months
  apply uint32_congr
  simp only [coe_uint32]
  push_cast
  omega

section

variable {leapyear flag : Bool} {m d days : Nat}

/-- The dates that the search finds: the loop ends before it looks at the other months. -/
def Searched (month day : Nat) : Prop :=
  month = 1 ∨ day ≠ 1 ∧ month ∈ [2, 4, 5, 7, 8, 10, 12]

instance (month day : Nat) : Decidable (Searched month day) := inferInstanceAs (Decidable (_ ∨ _))

theorem findMonth_eq_iff (flag : Bool) (hm : m < 12) (hd : d < monthLength true (m + 1)) :
    findMonth (beforeMonth flag m + d) flag 12 0 11 = m ↔ Searched (m + 1) (d + 1) := by
  have hall : ∀ flag, ∀ m < 12, ∀ d < 31, d < monthLength true (m + 1) →
      (findMonth (beforeMonth flag m + d) flag 12 0 11 = m ↔ Searched (m + 1) (d + 1)) := by
    decide +kernel
  have hlength : monthLength true (m + 1) ≤ 31 := by
    unfold monthLength
    split <;> simp
  exact hall flag m hm d (by omega) hd

end

section

variable {b r v value days : Nat}

def countedDays : Nat → Nat
  | 0 => 0
  | value + 1 => countedDays value + (365 + (clockIsleapyear (value + 1900)).toNat)

structure YearFound (value days : Nat) (found : Nat × Nat × Bool) : Prop where
  later : value ≤ found.1
  leap : found.2.2 = clockIsleapyear (found.1 + 1900)
  within : found.2.1 < 365 + found.2.2.toNat
  counted : days + countedDays value = found.2.1 + countedDays found.1

theorem findYear_spec (value days : Nat) : YearFound value days (findYear value days) := by
  induction value, days using findYear.induct with
  | case1 value days leapyear tmp hle ih =>
    have htmp : tmp = 365 + (clockIsleapyear (value + 1900)).toNat := by
      cases h : clockIsleapyear (value + 1900) <;> simp [tmp, leapyear, h]
    have hcounted := ih.counted
    rw [countedDays] at hcounted
    rw [findYear.eq_def]
    dsimp only
    rw [if_pos hle]
    change YearFound value days (findYear (value + 1) (days - tmp))
    refine ⟨Nat.le_of_succ_le ih.later, ih.leap, ih.within, ?_⟩
    omega
  | case2 value days leapyear tmp hlt =>
    have htmp : tmp = 365 + (clockIsleapyear (value + 1900)).toNat := by
      cases h : clockIsleapyear (value + 1900) <;> simp [tmp, leapyear, h]
    rw [findYear.eq_def]
    dsimp only
    rw [if_neg hlt]
    refine ⟨le_rfl, rfl, ?_, rfl⟩
    dsimp only
    omega

theorem le_countedDays (v : Nat) : 365 * v ≤ countedDays v := by
  induction v with
  | zero => rfl
  | succ v ih =>
    rw [countedDays]
    omega

theorem clockIsleapyear_toNat (h : v < 200) :
    (clockIsleapyear (v + 1900)).toNat = if v % 4 = 0 ∧ v ≠ 0 then 1 else 0 := by
  have hleap := isLeap_eq_true_iff (v + 1900)
  have heq := clockIsleapyear_eq (v + 1900)
  rw [Nat.cast_add, Nat.cast_ofNat] at heq
  rw [heq]
  split
  case isTrue hv =>
    rw [hleap.mpr (by omega)]
    rfl
  case isFalse hv =>
    rw [Bool.eq_false_iff.mpr (mt hleap.mp (by omega))]
    rfl

theorem countedDays_eq (h0 : 0 < v) (h : v ≤ 200) :
    countedDays v + 1 = 365 * v + (v + 3) / 4 := by
  induction v with
  | zero => omega
  | succ v ih =>
    rw [countedDays, clockIsleapyear_toNat (by omega)]
    by_cases hv : v = 0
    · subst hv
      rfl
    · have hbefore := ih (by omega) (by omega)
      split <;> omega

end

section

variable {c : Date} {days x v r : Nat} {flag : Bool}

/-- The years whose days are counted right. Up to 1972 no leap day was counted, then one comes
two years early in every four. -/
def YearKept (year month : Nat) : Prop :=
  year ≤ 1971 ∨ (year = 1972 ∧ month ≤ 2) ∨ (1974 ≤ year ∧
    ((year - 1970) % 4 = 0 ∧ month ≤ 2 ∨ (year - 1970) % 4 = 2 ∧ 3 ≤ month ∨
      (year - 1970) % 4 = 3))

instance (year month : Nat) : Decidable (YearKept year month) :=
  inferInstanceAs (Decidable (_ ∨ _))

def Kept (c : Date) : Prop := Searched c.month c.day ∧ YearKept c.year c.month

instance (c : Date) : Decidable (Kept c) := inferInstanceAs (Decidable (_ ∧ _))

theorem isLeap_toNat (h : v < 130) :
    (isLeap (1970 + v)).toNat = if v % 4 = 2 then 1 else 0 := by
  have hleap := isLeap_eq_true_iff (1970 + v)
  split
  case isTrue hv =>
    rw [hleap.mpr (by omega)]
    rfl
  case isFalse hv =>
    rw [Bool.eq_false_iff.mpr (mt hleap.mp (by omega))]
    rfl

theorem beforeMonth_flag (h : r < 12) (flag : Bool) :
    beforeMonth flag r = beforeMonth false r + if 2 ≤ r then flag.toNat else 0 := by
  have hall : ∀ flag, ∀ r < 12,
      beforeMonth flag r = beforeMonth false r + if 2 ≤ r then flag.toNat else 0 := by decide
  exact hall flag r h

theorem beforeMonth_bounds (h : r < 12) (flag : Bool) :
    (r < 2 → beforeMonth false r + monthLength flag (r + 1) ≤ 59 + flag.toNat) ∧
      (2 ≤ r → 59 ≤ beforeMonth false r ∧
        beforeMonth false r + monthLength flag (r + 1) ≤ 365) := by
  have hall : ∀ flag, ∀ r < 12,
      (r < 2 → beforeMonth false r + monthLength flag (r + 1) ≤ 59 + flag.toNat) ∧
        (2 ≤ r → 59 ≤ beforeMonth false r ∧
          beforeMonth false r + monthLength flag (r + 1) ≤ 365) := by decide
  exact hall flag r h

theorem monthLength_le (flag : Bool) (month : Nat) :
    monthLength flag month ≤ monthLength true month ∧ monthLength true month ≤ 31 := by
  unfold monthLength
  cases flag <;> split <;> simp

theorem findYear_number (h : days < 47482) (found : Nat × Nat × Bool)
    (hf : findYear (days / 1461 * 4) (days - days / 1461 * 1461) = found) :
    found.1 < 131 ∧ found.2.2 = clockIsleapyear (found.1 + 1900) ∧
      found.2.1 < 365 + found.2.2.toNat ∧
      found.2.1 + countedDays found.1 + (if days < 1461 then 0 else 1) = days := by
  obtain ⟨hlater, hleap, hwithin, hcounted⟩ := hf ▸ findYear_spec _ _
  have hle := le_countedDays found.1
  have hstart : countedDays (days / 1461 * 4) + (if days < 1461 then 0 else 1) =
      days / 1461 * 1461 := by
    split
    case isTrue hlt =>
      rw [Nat.div_eq_of_lt hlt]
      rfl
    case isFalse hge =>
      have heq := countedDays_eq (v := days / 1461 * 4) (by omega) (by omega)
      omega
  refine ⟨by omega, hleap, hwithin, by omega⟩

theorem beforeYear_split (h : v < 130) :
    ∃ q s, v = 4 * q + s ∧ s < 4 ∧ (isLeap (1970 + v)).toNat = (if s = 2 then 1 else 0) ∧
      beforeYear v = 1461 * q + 365 * s + if s = 3 then 1 else 0 := by
  refine ⟨v / 4, v % 4, by omega, by omega, isLeap_toNat h, ?_⟩
  rw [beforeYear_century _ (by omega)]
  split <;> omega

theorem countedDays_split (h0 : 0 < v) (h : v < 131) :
    ∃ p u, v = 4 * p + u ∧ u < 4 ∧
      (clockIsleapyear (v + 1900)).toNat = (if u = 0 then 1 else 0) ∧
      countedDays v + 1 = 1461 * p + 365 * u + if u = 0 then 0 else 1 := by
  refine ⟨v / 4, v % 4, by omega, by omega, ?_, ?_⟩
  · rw [clockIsleapyear_toNat (by omega)]
    split_ifs <;> omega
  · rw [countedDays_eq h0 (by omega)]
    split <;> omega

theorem yearKept_later {q s p u m d x months : Nat}
    (hs : s < 4) (hu : u < 4) (hm : m < 2 → months + d < 59 + if s = 2 then 1 else 0)
    (hm' : 2 ≤ m → 59 ≤ months ∧ months + d < 365) (hx : x < 365 + if u = 0 then 1 else 0)
    (hnumber : 1461 * q + 365 * s + (if s = 3 then 1 else 0) +
      (months + if 2 ≤ m then (if s = 2 then 1 else 0) else 0) + d =
        1461 * p + 365 * u + (if u = 0 then 0 else 1) + x) :
    (4 * p + u = 4 * q + s ∧ x = months + (if 2 ≤ m then (if u = 0 then 1 else 0) else 0) + d) ↔
      s = 0 ∧ m < 2 ∨ s = 2 ∧ 2 ≤ m ∨ s = 3 := by
  have hs' : s = 0 ∨ s = 1 ∨ s = 2 ∨ s = 3 := by omega
  have hu' : u = 0 ∨ u = 1 ∨ u = 2 ∨ u = 3 := by omega
  by_cases h2 : 2 ≤ m
  · simp only [if_pos h2] at hnumber ⊢
    rcases hs' with rfl | rfl | rfl | rfl <;> rcases hu' with rfl | rfl | rfl | rfl <;>
      simp at hnumber hx ⊢ <;> omega
  · simp only [if_neg h2] at hnumber ⊢
    rcases hs' with rfl | rfl | rfl | rfl <;> rcases hu' with rfl | rfl | rfl | rfl <;>
      simp at hnumber hx hm ⊢ <;> omega

theorem yearKept_first {y v m d x months : Nat} (hy : y < 4) (hv : v < 5)
    (hm : m < 2 → months + d < 59 + if y = 2 then 1 else 0)
    (hm' : 2 ≤ m → 59 ≤ months ∧ months + d < 365) (hx : x < 365 + if v = 4 then 1 else 0)
    (hnumber : 365 * y + (if y = 3 then 1 else 0) +
      (months + if 2 ≤ m then (if y = 2 then 1 else 0) else 0) + d = 365 * v + x) :
    (v = y ∧ x = months + (if 2 ≤ m then (if v = 4 then 1 else 0) else 0) + d) ↔
      y ≤ 1 ∨ y = 2 ∧ m < 2 := by
  have hy' : y = 0 ∨ y = 1 ∨ y = 2 ∨ y = 3 := by omega
  have hv' : v = 0 ∨ v = 1 ∨ v = 2 ∨ v = 3 ∨ v = 4 := by omega
  by_cases h2 : 2 ≤ m
  · simp only [if_pos h2] at hnumber ⊢
    rcases hy' with rfl | rfl | rfl | rfl <;> rcases hv' with rfl | rfl | rfl | rfl | rfl <;>
      simp at hnumber hx ⊢ <;> omega
  · simp only [if_neg h2] at hnumber ⊢
    rcases hy' with rfl | rfl | rfl | rfl <;> rcases hv' with rfl | rfl | rfl | rfl | rfl <;>
      simp at hnumber hx hm ⊢ <;> omega

/-- Both searches leave the date's own year and day exactly in the years that are kept. -/
theorem yearKept_iff (h : days < 47482) {found : Nat × Nat × Bool}
    (hf : findYear (days / 1461 * 4) (days - days / 1461 * 1461) = found)
    {y m d : Nat} (hm : m < 12) (hd : d < monthLength (isLeap (1970 + y)) (m + 1))
    (hnumber : beforeYear y + beforeMonth (isLeap (1970 + y)) m + d = days) :
    (found.1 = y ∧ found.2.1 = beforeMonth found.2.2 m + d) ↔ YearKept (1970 + y) (m + 1) := by
  obtain ⟨hv, hflag, hwithin, hcounted⟩ := findYear_number h found hf
  obtain ⟨v, x, flag⟩ := found
  dsimp only at hv hflag hwithin hcounted ⊢
  have hy : y < 130 := lt_of_beforeYear_le (by omega) h
  obtain ⟨q, s, hyq, hs, hreal, hbefore⟩ := beforeYear_split hy
  obtain ⟨hjan, hmar⟩ := beforeMonth_bounds hm (isLeap (1970 + y))
  rw [beforeMonth_flag hm, hbefore, hreal] at hnumber
  rw [beforeMonth_flag hm flag]
  have hm1 : m < 2 → beforeMonth false m + d < 59 + if s = 2 then 1 else 0 := by
    intro h2
    have hlength := hjan h2
    omega
  have hm2 : 2 ≤ m → 59 ≤ beforeMonth false m ∧ beforeMonth false m + d < 365 := by
    intro h2
    have hlength := hmar h2
    omega
  unfold YearKept
  by_cases hfirst : days < 1461
  · rw [if_pos hfirst] at hcounted
    have hv5 : v < 5 := by
      have hle := le_countedDays v
      omega
    have hq : q = 0 := by omega
    have hcount : countedDays v = 365 * v ∧ flag.toNat = if v = 4 then 1 else 0 := by
      have hall : ∀ v < 5, countedDays v = 365 * v ∧
          (clockIsleapyear (v + 1900)).toNat = if v = 4 then 1 else 0 := by decide
      rw [hflag]
      exact hall v hv5
    subst hq
    rw [Nat.mul_zero, Nat.zero_add] at hyq
    subst hyq
    rw [hcount.2] at hwithin ⊢
    rw [yearKept_first hs hv5 hm1 hm2 hwithin (by omega)]
    omega
  · rw [if_neg hfirst] at hcounted
    have hpos : 0 < v := by
      by_contra hzero
      have hv0 : v = 0 := by omega
      subst hv0
      rw [countedDays] at hcounted
      have htoNat := flag.toNat_le
      omega
    obtain ⟨p, u, hvp, hu, hleap, hcount⟩ := countedDays_split hpos hv
    rw [← hflag] at hleap
    rw [hleap] at hwithin ⊢
    have hiff := yearKept_later (q := q) (p := p) hs hu hm1 hm2 hwithin (by omega)
    rw [← hyq, ← hvp] at hiff
    have hq : 1 ≤ q := by
      by_contra hzero
      have hq0 : q = 0 := by omega
      subst hq0
      clear hiff hwithin
      by_cases h2 : 2 ≤ m
      · have hlength := hm2 h2
        simp only [if_pos h2] at hnumber
        split_ifs at hnumber <;> omega
      · have hlength := hm1 (by omega)
        simp only [if_neg h2] at hnumber
        split_ifs at hnumber hlength <;> omega
    rw [hiff]
    omega

theorem day_eq {months d : Nat} (hd : d < 31) :
    wrapInt (uint32 (((months + d : Nat) : Int) - months) + 1) = d + 1 := by
  have hsub : (((months + d : Nat) : Int) - months) = d := by omega
  rw [hsub, uint32_of_lt (by omega), wrapInt_of_lt (by omega) (by omega)]

theorem eq_of_day_eq {months d : Nat} (hx : x < 366) (hmonths : months < 366) (hd : d < 31)
    (h : wrapInt (uint32 ((x : Int) - months) + 1) = d + 1) : x = months + d := by
  have hcases : ((x : Int) - months) % 4294967296 = d ∨
      ((x : Int) - months) % 4294967296 = d + 4294967296 := by
    have hlt := uint32_lt ((x : Int) - months)
    have hcoe := coe_uint32 ((x : Int) - months)
    unfold wrapInt Int.bmod at h
    norm_num at h
    omega
  omega

theorem clockUtc2calendar_iff (h : c.number < 47482) :
    clockUtc2calendar c.number = (↑c.year, ↑c.month, ↑c.day) ↔ Kept c := by
  have hepoch := c.epoch
  have hmonth := c.month_mem
  have hday := c.day_mem
  have hyear : 1970 + (c.year - 1970) = c.year := by omega
  have hmonth' : c.month - 1 + 1 = c.month := by omega
  have hday' : c.day - 1 + 1 = c.day := by omega
  have hlength := monthLength_le (isLeap c.year) c.month
  have hday31 : c.day - 1 < 31 := by omega
  generalize hf : findYear (c.number / 1461 * 4) (c.number - c.number / 1461 * 1461) = found
  obtain ⟨-, -, hwithin, -⟩ := findYear_number h found hf
  have hkept := yearKept_iff (m := c.month - 1) (d := c.day - 1) h hf (by omega)
    (by rw [hyear, hmonth']; omega) (by rw [hyear]; rfl)
  have hsearch := findMonth_eq_iff (m := c.month - 1) (d := c.day - 1) found.2.2 (by omega)
    (by rw [hmonth']; omega)
  rw [hyear, hmonth'] at hkept
  rw [hmonth', hday'] at hsearch
  have hcalendar : clockUtc2calendar c.number = ((1970 : Int) + found.1,
      (findMonth found.2.1 found.2.2 12 0 11 : Int) + 1,
      wrapInt (uint32 ((found.2.1 : Int) - clockDaysbeforemonth
        (findMonth found.2.1 found.2.2 12 0 11) found.2.2) + 1)) := by
    rw [← hf]
    rfl
  have hmonths : beforeMonth found.2.2 (c.month - 1) < 366 := by
    have hle := beforeMonth_add_lt found.2.2 hmonth.1 hmonth.2
    rw [beforeMonth_twelve] at hle
    have htoNat := found.2.2.toNat_le
    have hpos : 0 < monthLength found.2.2 c.month := by
      unfold monthLength
      split <;> first | decide | (cases found.2.2 <;> decide)
    omega
  have htoNat := found.2.2.toNat_le
  rw [hcalendar, Prod.mk.injEq, Prod.mk.injEq]
  constructor
  · rintro ⟨hy, hm, hd⟩
    have hfind : findMonth found.2.1 found.2.2 12 0 11 = c.month - 1 := by omega
    rw [hfind, clockDaysbeforemonth_eq (by omega)] at hd
    have hx : found.2.1 = beforeMonth found.2.2 (c.month - 1) + (c.day - 1) :=
      eq_of_day_eq (by omega) hmonths hday31 (by rw [hd]; omega)
    rw [hx] at hfind
    exact ⟨hsearch.mp hfind, hkept.mp ⟨by omega, hx⟩⟩
  · rintro ⟨hsearched, hyearKept⟩
    obtain ⟨hv, hx⟩ := hkept.mpr hyearKept
    have hfind := hsearch.mpr hsearched
    rw [← hx] at hfind
    rw [hfind, clockDaysbeforemonth_eq (by omega)]
    refine ⟨by omega, by omega, ?_⟩
    rw [hx, day_eq hday31]
    omega

end

theorem gmtimeR_eq (time : Nat) : gmtimeR time =
    ⟨(time % 60 : Nat), (time / 60 % 60 : Nat), (time / 3600 % 24 : Nat),
      (clockUtc2calendar (time / 86400)).2.2, (clockUtc2calendar (time / 86400)).2.1 - 1,
      (clockUtc2calendar (time / 86400)).1 - 1900⟩ := by
  have hhour : (time - 86400 * (time / 86400)) / 3600 = time / 3600 % 24 := by omega
  have hmin : (time - 86400 * (time / 86400) - 3600 * (time / 3600 % 24)) / 60 =
      time / 60 % 60 := by omega
  have hsec : time - 86400 * (time / 86400) - 3600 * (time / 3600 % 24) -
      60 * (time / 60 % 60) = time % 60 := by omega
  unfold gmtimeR
  dsimp only
  rw [hhour, hmin, hsec]

theorem denotes_gmtimeR_iff (time : Nat) : Denotes (gmtimeR time) time ↔
    ∃ c : Date, clockUtc2calendar (time / 86400) = (↑c.year, ↑c.month, ↑c.day) ∧
      c.number = time / 86400 := by
  rw [gmtimeR_eq]
  constructor
  · rintro ⟨c, hyear, hmonth, hday, h⟩
    dsimp only at hyear hmonth hday h
    have hmonth' : (clockUtc2calendar (time / 86400)).2.1 = c.month := by omega
    exact ⟨c, Prod.ext (by dsimp only; omega) (Prod.ext hmonth' hday), by omega⟩
  · rintro ⟨c, hdate, hnumber⟩
    rw [hdate]
    exact ⟨c, rfl, rfl, rfl, by dsimp only; omega⟩

theorem time_of_day (time : Nat) :
    ((time / 86400 * 24 + time / 3600 % 24) * 60 + time / 60 % 60) * 60 + time % 60 = time := by
  have hhours : time / 3600 = time / 60 / 60 := by rw [Nat.div_div_eq_div_mul]
  have hdays : time / 86400 = time / 60 / 60 / 24 := by
    rw [Nat.div_div_eq_div_mul, Nat.div_div_eq_div_mul]
  rw [hdays, hhours]
  omega

theorem mktime_gmtimeR {time : Nat} (h : Denotes (gmtimeR time) time)
    (ht : time < 4102444800) : mktime (gmtimeR time) = time := by
  obtain ⟨c, hdate, hnumber⟩ := (denotes_gmtimeR_iff time).mp h
  have hyear : c.year < 2100 := by
    have hle : beforeYear (c.year - 1970) ≤ time / 86400 := by
      rw [← hnumber, Date.number, Nat.add_assoc]
      exact Nat.le_add_right _ _
    have hlt := lt_of_beforeYear_le hle (by omega)
    omega
  rw [gmtimeR_eq, hdate, mktime_number c hyear, hnumber, time_of_day, uint32_of_lt (by omega)]

/-- `gmtime_r` yields the date and time of an instant, and `mktime` takes it back, exactly when
the date of the instant is one that both searches find. -/
theorem gmtime_r_mktime (time : Nat) (ht : time < 4102444800) :
    (Denotes (gmtimeR time) time ∧ mktime (gmtimeR time) = time) ↔
      ∃ c : Date, c.number = time / 86400 ∧ Kept c := by
  constructor
  · rintro ⟨hdenotes, -⟩
    obtain ⟨c, hdate, hnumber⟩ := (denotes_gmtimeR_iff time).mp hdenotes
    rw [← hnumber] at hdate
    exact ⟨c, hnumber, (clockUtc2calendar_iff (by omega)).mp hdate⟩
  · rintro ⟨c, hnumber, hkept⟩
    have hdate := (clockUtc2calendar_iff (by omega)).mpr hkept
    rw [hnumber] at hdate
    have hdenotes := (denotes_gmtimeR_iff time).mpr ⟨c, hdate, hnumber⟩
    exact ⟨hdenotes, mktime_gmtimeR hdenotes ht⟩

theorem gmtime_r_mktime_epoch :
    (Denotes (gmtimeR 0) 0 ∧ mktime (gmtimeR 0) = 0) ↔
      ∃ c : Date, c.number = 0 / 86400 ∧ Kept c :=
  gmtime_r_mktime 0 (by decide)

/-- The first of February 1970 comes out as the 32nd of January. -/
theorem gmtime_r_first_of_february :
    ¬ ∀ time < 4102444800, Denotes (gmtimeR time) time ∧ mktime (gmtimeR time) = time := by
  intro h
  obtain ⟨c, hdate, -⟩ := (denotes_gmtimeR_iff 2678400).mp (h 2678400 (by decide)).1
  have hyear : findYear (31 / 1461 * 4) (31 - 31 / 1461 * 1461) = (0, 31, false) := by
    rw [findYear]
    rfl
  have hcalendar : clockUtc2calendar (2678400 / 86400) = (1970, 1, 32) := by
    change clockUtc2calendar 31 = _
    rw [clockUtc2calendar, hyear]
    decide
  rw [hcalendar, Prod.mk.injEq, Prod.mk.injEq] at hdate
  obtain ⟨-, hmonth, hday⟩ := hdate
  have hlength := c.day_mem.2
  have hmonth' : c.month = 1 := by omega
  rw [hmonth'] at hlength
  change c.day ≤ 31 at hlength
  omega

end NuttxAvr32.Time
