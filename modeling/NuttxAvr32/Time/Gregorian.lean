import NuttxAvr32.Time.Calendar
import Mathlib.Tactic.IntervalCases

/-! # The calendar with `CONFIG_GREGORIAN_TIME`

Dates go to Julian day numbers and back by formulas of truncating divisions.
`clock_initialize` takes the days of the configured start date from the calendar of the
configuration.
-/

namespace NuttxAvr32.Time

open Civil

abbrev jdOfEpoch : Int := 2440588

def clockGregorian2utc (year month day : Int) : Nat :=
  let temp : Int := if month ≤ 2 then -1 else 0
  uint32 ((1461 * (year + 4800 + temp)).tdiv 4 + (367 * (month - 2 - 12 * temp)).tdiv 12 -
    (3 * ((year + 4900 + temp).tdiv 100)).tdiv 4 + day - 32075)

def clockCalendar2utcGregorian (year month day : Int) : Nat :=
  let dyear := (month - 1).tdiv 12
  let month := month - 12 * dyear
  let year := year + dyear
  if month < 1 then uint32 (clockGregorian2utc (year - 1) (month + 12) day - jdOfEpoch)
  else uint32 (clockGregorian2utc year month day - jdOfEpoch)

def clockUtc2gregorian (jd : Nat) : Int × Int × Int :=
  let l : Int := jd + 68569
  let n := (4 * l).tdiv 146097
  let l := l - (146097 * n + 3).tdiv 4
  let i := (4000 * (l + 1)).tdiv 1461001
  let l := l - (1461 * i).tdiv 4 + 31
  let j := (80 * l).tdiv 2447
  let d := l - (2447 * j).tdiv 80
  let l := j.tdiv 11
  let m := j + 2 - 12 * l
  let y := 100 * (n - 49) + i + l
  (y, m, d)

def clockCalendar2utcSimple (year month day : Int) : Nat :=
  mktime ⟨0, 0, 0, day, month, year⟩

/-- `clock_initialize` with the `clock_calendar2utc` of the configuration. -/
def clockInitialize (clockCalendar2utc : Int → Int → Int → Nat) (year month day : Int) : Clock :=
  let jdn := clockCalendar2utc year month day
  { gSystemTimer := 0, gTickbias := 0, gBasetime := ⟨uint32 ((jdn : Int) * 86400), 0⟩ }

section

variable {c : Date}

def beforeMarchMonth (month : Nat) : Nat :=
  if month ≤ 2 then 306 + 31 * (month - 1) else beforeMonth false (month - 1) - 59

def Date.marchYear (c : Date) : Nat := if c.month ≤ 2 then c.year - 1 else c.year

theorem since_1900 {y q s : Nat} (h : 1970 + (4 * q + s) = y) :
    y - 1900 = 4 * q + (70 + s) ∧ y - 1 - 1900 = 4 * q + (69 + s) := by
  subst h
  omega

theorem quarter_mul (q t : Nat) : 1461 * (4 * q + t) / 4 = 1461 * q + 1461 * t / 4 := by omega

theorem march_number (hc : c.year < 2100) : (c.number : Int) + 25508 =
    (1461 * (Date.marchYear c - 1900) / 4 : Nat) +
      (beforeMarchMonth c.month + (c.day - 1) : Nat) := by
  have hepoch := c.epoch
  have hmonth := c.month_mem
  obtain ⟨q, s, hy, hs, hreal, hbefore⟩ := beforeYear_split (v := c.year - 1970) (by omega)
  have hyear : 1970 + (c.year - 1970) = c.year := by omega
  rw [hyear] at hreal
  rw [hy] at hyear
  have hflag := beforeMonth_flag (r := c.month - 1) (by omega) (isLeap c.year)
  have hbounds := beforeMonth_bounds (r := c.month - 1) (by omega) false
  rw [hreal] at hflag
  unfold Date.number Date.marchYear beforeMarchMonth
  rw [hbefore, hflag]
  clear hbefore hflag hreal
  have hs' : s = 0 ∨ s = 1 ∨ s = 2 ∨ s = 3 := by omega
  by_cases hearly : c.month ≤ 2
  · have h2 : ¬ 2 ≤ c.month - 1 := by omega
    rw [if_pos hearly, if_pos hearly, if_neg h2]
    have hjan : beforeMonth false (c.month - 1) = 31 * (c.month - 1) := by
      have hm : c.month - 1 = 0 ∨ c.month - 1 = 1 := by omega
      rcases hm with hm | hm <;> rw [hm] <;> rfl
    rw [hjan, (since_1900 hyear).2, quarter_mul]
    clear hbounds
    rcases hs' with rfl | rfl | rfl | rfl <;> simp <;> omega
  · have h2 : 2 ≤ c.month - 1 := by omega
    have hle := hbounds.2 h2
    rw [if_neg hearly, if_neg hearly, if_pos h2, (since_1900 hyear).1, quarter_mul]
    clear hbounds
    rcases hs' with rfl | rfl | rfl | rfl <;> simp <;> omega

theorem marchDay_lt (hc : c.year < 2100) :
    beforeMarchMonth c.month + (c.day - 1) <
      365 + if Date.marchYear c % 4 = 3 then 1 else 0 := by
  have hepoch := c.epoch
  have hmonth := c.month_mem
  have hday := c.day_mem
  have hreal := isLeap_toNat (v := c.year - 1970) (by omega)
  have hyear : 1970 + (c.year - 1970) = c.year := by omega
  rw [hyear] at hreal
  have hbounds := beforeMonth_bounds (r := c.month - 1) (by omega) (isLeap c.year)
  rw [Nat.sub_add_cancel hmonth.1] at hbounds
  unfold Date.marchYear beforeMarchMonth
  by_cases hearly : c.month ≤ 2
  · have hjan : beforeMonth false (c.month - 1) = 31 * (c.month - 1) := by
      have hm : c.month - 1 = 0 ∨ c.month - 1 = 1 := by omega
      rcases hm with hm | hm <;> rw [hm] <;> rfl
    have hle := hbounds.1 (by omega)
    rw [hjan, hreal] at hle
    rw [if_pos hearly, if_pos hearly]
    clear hbounds hjan hreal
    split_ifs at hle ⊢ <;> omega
  · have hle := hbounds.2 (by omega)
    rw [if_neg hearly, if_neg hearly]
    omega

theorem monthFormula {month : Nat} (h1 : 1 ≤ month) (h12 : month ≤ 12) :
    (367 * ((month : Int) - 2 - 12 * (if (month : Int) ≤ 2 then -1 else 0))).tdiv 12 =
      beforeMarchMonth month + 30 := by
  have hall : ∀ month : Nat, month < 13 → 1 ≤ month →
      (367 * ((month : Int) - 2 - 12 * (if (month : Int) ≤ 2 then -1 else 0))).tdiv 12 =
        beforeMarchMonth month + 30 := by decide
  exact hall month (by omega) h1

theorem uint32_uint32_sub (i j : Int) : uint32 (uint32 i - j) = uint32 (i - j) :=
  uint32_congr (by rw [coe_uint32]; omega)

theorem clockCalendar2utcGregorian_eq (hc : c.year < 2100) :
    clockCalendar2utcGregorian c.year c.month c.day = c.number := by
  have hepoch := c.epoch
  have hmonth := c.month_mem
  have hday := c.day_mem
  have hnumber := march_number hc
  have hdyear : ((c.month : Int) - 1).tdiv 12 = 0 := by
    rw [Int.tdiv_eq_ediv_of_nonneg (by omega)]
    omega
  have htemp : (if (c.month : Int) ≤ 2 then -1 else 0 : Int) = -1 ∧ c.month ≤ 2 ∨
      (if (c.month : Int) ≤ 2 then -1 else 0 : Int) = 0 ∧ ¬ c.month ≤ 2 := by
    split <;> omega
  have hcentury : (3 * (((c.year : Int) + 4900 + (if (c.month : Int) ≤ 2 then -1 else 0)).tdiv
      100)).tdiv 4 = 51 := by
    have hnonneg : 0 ≤ (c.year : Int) + 4900 + (if (c.month : Int) ≤ 2 then -1 else 0) := by omega
    rw [Int.tdiv_eq_ediv_of_nonneg hnonneg, Int.tdiv_eq_ediv_of_nonneg (by omega)]
    omega
  have hyears : (1461 * ((c.year : Int) + 4800 + (if (c.month : Int) ≤ 2 then -1 else 0))).tdiv 4 =
      (1461 * (Date.marchYear c - 1900) / 4 : Nat) + 2447175 := by
    have hnonneg : 0 ≤ 1461 * ((c.year : Int) + 4800 + (if (c.month : Int) ≤ 2 then -1 else 0)) := by
      omega
    have hmarch : Date.marchYear c = (c.year : Int) + (if (c.month : Int) ≤ 2 then -1 else 0) := by
      unfold Date.marchYear
      split <;> split <;> omega
    rw [Int.tdiv_eq_ediv_of_nonneg hnonneg]
    omega
  unfold clockCalendar2utcGregorian
  dsimp only
  rw [hdyear, if_neg (by omega), Int.mul_zero, Int.sub_zero, Int.add_zero]
  unfold clockGregorian2utc
  dsimp only
  rw [uint32_uint32_sub, hyears, monthFormula hmonth.1 hmonth.2, hcentury]
  have hlt := number_lt hc
  rw [← uint32_of_lt (n := c.number) (by omega)]
  refine congrArg uint32 ?_
  dsimp only [jdOfEpoch]
  omega

theorem century_year {k e : Nat} (hk : k < 100) (he : e < 365 + if k % 4 = 3 then 1 else 0) :
    (4000 * ((1461 * k / 4 : Nat) + (e : Int) + 1)) / 1461001 = k := by
  obtain ⟨q, s, rfl, hs⟩ : ∃ q s, k = 4 * q + s ∧ s < 4 :=
    ⟨k / 4, k % 4, by omega, by omega⟩
  have hs' : s = 0 ∨ s = 1 ∨ s = 2 ∨ s = 3 := by omega
  have hmod : (4 * q + s) % 4 = s := by omega
  rw [hmod] at he
  rw [quarter_mul]
  rcases hs' with rfl | rfl | rfl | rfl <;> simp at he ⊢ <;> omega

theorem march_month {month day : Nat} (h1 : 1 ≤ month) (h12 : month ≤ 12) (hday : 1 ≤ day)
    (hlength : day ≤ monthLength true month) (l : Int)
    (hl : l = (beforeMarchMonth month + (day - 1) : Nat) + 31) :
    (80 * l) / 2447 = (if month ≤ 2 then month + 10 else month - 2 : Nat) ∧
      l - (2447 * ((80 * l) / 2447)) / 80 = day := by
  subst hl
  interval_cases month <;> simp [beforeMarchMonth, beforeMonth, monthLength] at hlength ⊢ <;> omega

/-- A date by its century, its year in the century and its day in the year, all from March. -/
theorem march_century (hc : c.year < 2100) :
    ∃ z k e : Nat, z ≤ 1 ∧ k < 100 ∧ e < 365 + (if k % 4 = 3 then 1 else 0) ∧
      Date.marchYear c = 1900 + 100 * z + k ∧ e = beforeMarchMonth c.month + (c.day - 1) ∧
      (c.number : Int) + 25508 = 36525 * z + (1461 * k / 4 : Nat) + e := by
  have hepoch := c.epoch
  have hnumber := march_number hc
  have hwithin := marchDay_lt hc
  have hyear : 1969 ≤ Date.marchYear c ∧ Date.marchYear c < 2100 := by
    unfold Date.marchYear
    split <;> omega
  generalize Date.marchYear c = year at hnumber hwithin hyear ⊢
  by_cases h20 : year < 2000
  · refine ⟨0, year - 1900, _, by omega, by omega, ?_, by omega, rfl, by omega⟩
    have hmod : (year - 1900) % 4 = year % 4 := by omega
    rw [hmod]
    exact hwithin
  · refine ⟨1, year - 2000, _, by omega, by omega, ?_, by omega, rfl, by omega⟩
    have hmod : (year - 2000) % 4 = year % 4 := by omega
    rw [hmod]
    exact hwithin

theorem clockUtc2gregorian_eq (hc : c.year < 2100) :
    clockUtc2gregorian (uint32 ((c.number : Int) + jdOfEpoch)) =
      (↑c.year, ↑c.month, ↑c.day) := by
  have hmonth := c.month_mem
  have hday := c.day_mem
  have hlt := number_lt hc
  have hlength := monthLength_le (isLeap c.year) c.month
  obtain ⟨z, k, e, hz, hk, he, hmarch, hday', hnumber⟩ := march_century hc
  have hyear : Date.marchYear c + (if c.month ≤ 2 then 1 else 0) = c.year := by
    have hepoch := c.epoch
    unfold Date.marchYear
    split <;> omega
  have hl0 : ((uint32 ((c.number : Int) + jdOfEpoch) : Nat) : Int) + 68569 =
      c.number + 2509157 := by
    rw [coe_uint32]
    dsimp only [jdOfEpoch]
    omega
  have he' : e ≤ 365 := by split at he <;> omega
  have hquotient : 1461 * k / 4 ≤ 36159 := by omega
  have hn : (4 * ((c.number : Int) + 2509157)).tdiv 146097 = 68 + z := by
    rw [Int.tdiv_eq_ediv_of_nonneg (by omega)]
    generalize 1461 * k / 4 = before at hnumber hquotient
    have hz' : z = 0 ∨ z = 1 := by omega
    rcases hz' with rfl | rfl <;> omega
  have hl1 : (c.number : Int) + 2509157 - (146097 * (68 + (z : Int)) + 3).tdiv 4 =
      (1461 * k / 4 : Nat) + (e : Int) := by
    rw [Int.tdiv_eq_ediv_of_nonneg (by omega)]
    generalize 1461 * k / 4 = before at hnumber hquotient ⊢
    have hz' : z = 0 ∨ z = 1 := by omega
    rcases hz' with rfl | rfl <;> omega
  have hi : (4000 * ((1461 * k / 4 : Nat) + (e : Int) + 1)).tdiv 1461001 = k := by
    rw [Int.tdiv_eq_ediv_of_nonneg (by omega)]
    exact century_year hk he
  have hl2 : (1461 * k / 4 : Nat) + (e : Int) - (1461 * (k : Int)).tdiv 4 + 31 = e + 31 := by
    rw [Int.tdiv_eq_ediv_of_nonneg (by omega)]
    omega
  obtain ⟨hj, hd⟩ := march_month hmonth.1 hmonth.2 hday.1 (by omega) (e + 31) (by rw [hday'])
  have hj' : (80 * ((e : Int) + 31)).tdiv 2447 =
      (if c.month ≤ 2 then c.month + 10 else c.month - 2 : Nat) := by
    rw [Int.tdiv_eq_ediv_of_nonneg (by omega)]
    exact hj
  rw [hj] at hd
  unfold clockUtc2gregorian
  dsimp only
  rw [hl0, hn, hl1, hi, hl2, hj']
  have hsub : (2447 * ((if c.month ≤ 2 then c.month + 10 else c.month - 2 : Nat) : Int)).tdiv 80 =
      2447 * ((if c.month ≤ 2 then c.month + 10 else c.month - 2 : Nat) : Int) / 80 :=
    Int.tdiv_eq_ediv_of_nonneg (by omega)
  have hl : ((if c.month ≤ 2 then c.month + 10 else c.month - 2 : Nat) : Int).tdiv 11 =
      if c.month ≤ 2 then 1 else 0 := by
    rw [Int.tdiv_eq_ediv_of_nonneg (by omega)]
    split <;> omega
  rw [hsub, hd, hl]
  refine Prod.ext ?_ (Prod.ext ?_ rfl)
  · dsimp only
    split at hyear <;> rename_i hm <;> simp only [hm, if_true, if_false] <;> omega
  · dsimp only
    split <;> omega

end

section

variable {c : Date}

/-- The year is taken as one after 1900 and the month as the next one, and the days are
multiplied to seconds. -/
theorem clockCalendar2utcSimple_eq (hc : c.year < 2100) :
    ∃ skew : Nat, 27 ≤ skew ∧ skew ≤ 32 ∧ clockCalendar2utcSimple c.year c.month c.day =
      uint32 (86400 * (c.number + 693975 + skew)) := by
  have hepoch := c.epoch
  have hmonth := c.month_mem
  have hday := c.day_mem
  have hbefore := beforeYear_century (c.year - 1970) (by omega)
  have hquarter : ((c.year : Int) - 69) / 4 = ((c.year - 1970 + 1) / 4 : Nat) + 475 := by omega
  have hreal := beforeMonth_flag (r := c.month - 1) (by omega) (isLeap c.year)
  generalize hflag : clockIsleapyear ((c.year : Int) + 1900) = flag
  have hskew : beforeMonth (isLeap c.year) (c.month - 1) + 27 ≤ beforeMonth flag c.month ∧
      beforeMonth flag c.month ≤ beforeMonth (isLeap c.year) (c.month - 1) + 32 := by
    have hall : ∀ real flag, ∀ month < 13, 1 ≤ month →
        beforeMonth real (month - 1) + 27 ≤ beforeMonth flag month ∧
          beforeMonth flag month ≤ beforeMonth real (month - 1) + 32 := by decide
    exact hall _ _ c.month (by omega) hmonth.1
  refine ⟨beforeMonth flag c.month - beforeMonth (isLeap c.year) (c.month - 1), by omega,
    by omega, ?_⟩
  have hmon : ((c.month : Int)).toNat = c.month := by omega
  unfold clockCalendar2utcSimple mktime
  dsimp only
  rw [hflag, hmon, hquarter, clockDaysbeforemonth_eq hmonth.2]
  unfold Date.number
  generalize (c.year - 1970 + 1) / 4 = quarter at hbefore ⊢
  generalize beforeYear (c.year - 1970) = before at hbefore ⊢
  generalize beforeMonth (isLeap c.year) (c.month - 1) = months at hskew ⊢
  generalize beforeMonth flag c.month = next at hskew ⊢
  apply uint32_congr
  simp only [coe_uint32]
  push_cast
  omega

theorem no_day {day skew turns : Int} (h0 : 0 ≤ day) (hday : day < 47482) (hlo : 27 ≤ skew)
    (hhi : skew ≤ 32) (h : 86400 * (day + 693975 + skew) = day + 4294967296 * turns) : False := by
  have hturns : turns = 14 := by omega
  subst hturns
  omega

theorem clockCalendar2utcSimple_ne (hc : c.year < 2100) :
    clockCalendar2utcSimple c.year c.month c.day ≠ c.number := by
  obtain ⟨skew, hlo, hhi, heq⟩ := clockCalendar2utcSimple_eq hc
  have hlt := number_lt hc
  rw [heq]
  intro h
  have hcoe := congrArg (Nat.cast (R := Int)) h
  rw [coe_uint32] at hcoe
  have hdiv := Int.emod_add_mul_ediv (86400 * ((c.number : Int) + 693975 + skew)) 4294967296
  rw [hcoe] at hdiv
  exact no_day (Int.natCast_nonneg _) (Int.ofNat_lt.mpr hlt) (Int.ofNat_le.mpr hlo)
    (Int.ofNat_le.mpr hhi) hdiv.symm

end

/-- Both configurations count the same days, the Gregorian conversion takes them back and the
clock starts with the seconds of the date. -/
structure Agree (c : Date) : Prop where
  same : clockCalendar2utcSimple c.year c.month c.day =
    clockCalendar2utcGregorian c.year c.month c.day
  back : clockUtc2gregorian (uint32 (clockCalendar2utcGregorian c.year c.month c.day + jdOfEpoch)) =
    (↑c.year, ↑c.month, ↑c.day)
  simple : (clockInitialize clockCalendar2utcSimple c.year c.month c.day).gBasetime =
    ⟨c.number * 86400, 0⟩
  gregorian : (clockInitialize clockCalendar2utcGregorian c.year c.month c.day).gBasetime =
    ⟨c.number * 86400, 0⟩

/-- The configurations agree on no date. The Gregorian one is right about all. -/
theorem clock_calendar2utc_disagree (c : Date) (hc : c.year < 2100) :
    ¬ Agree c ∧ clockCalendar2utcGregorian c.year c.month c.day = c.number ∧
      clockUtc2gregorian (uint32 (clockCalendar2utcGregorian c.year c.month c.day + jdOfEpoch)) =
        (↑c.year, ↑c.month, ↑c.day) ∧
      (clockInitialize clockCalendar2utcGregorian c.year c.month c.day).gBasetime =
        ⟨c.number * 86400, 0⟩ := by
  have hnumber := clockCalendar2utcGregorian_eq hc
  have hlt := number_lt hc
  refine ⟨fun h => ?_, hnumber, ?_, ?_⟩
  · exact clockCalendar2utcSimple_ne hc (h.same.trans hnumber)
  · rw [hnumber]
    exact clockUtc2gregorian_eq hc
  · unfold clockInitialize
    dsimp only
    have hseconds := uint32_of_lt (n := c.number * 86400) (by omega)
    rw [Nat.cast_mul, Nat.cast_ofNat] at hseconds
    rw [hnumber, hseconds]

theorem clock_calendar2utc_disagree_leap_day :
    ∃ c : Date, c.year = 2000 ∧ c.month = 2 ∧ c.day = 29 ∧ ¬ Agree c :=
  ⟨⟨2000, 2, 29, by decide, by decide, by decide⟩, rfl, rfl, rfl,
    (clock_calendar2utc_disagree ⟨2000, 2, 29, by decide, by decide, by decide⟩ (by decide)).1⟩

/-- New Year's Day of 1970. -/
theorem clock_calendar2utc_epoch : ¬ ∀ c : Date, c.year < 2100 → Agree c := by
  intro h
  have hc : (Date.mk 1970 1 1 (by decide) (by decide) (by decide)).year < 2100 := by decide
  have hsame := (h _ hc).same
  rw [clockCalendar2utcGregorian_eq hc] at hsame
  exact clockCalendar2utcSimple_ne hc hsame

end NuttxAvr32.Time
