import LoafOs.Devices.Rtc
import LoafOs.Lib.Spans

/-!
# The calendar

`epoch_to_rtc`, and that it and `rtc_to_epoch` undo each other.  The
calendar itself is stated on natural numbers: the years, and the months of
a year, are spans of days laid end to end.
-/

namespace LoafOs

/-! ## The Gregorian calendar -/

/-- A leap year of the Gregorian calendar. -/
def GregorianLeap (year : ℕ) : Prop :=
  4 ∣ year ∧ (¬100 ∣ year ∨ 400 ∣ year)

instance (year : ℕ) : Decidable (GregorianLeap year) := by
  unfold GregorianLeap
  infer_instance

/-- The days of a year. -/
def yearDays (year : ℕ) : ℕ :=
  if GregorianLeap year then 366 else 365

/-- The days of a month of a year. -/
def monthDays (year month : ℕ) : ℕ :=
  if month = 2 then
    if GregorianLeap year then 29 else 28
  else if month = 4 ∨ month = 6 ∨ month = 9 ∨ month = 11 then 30
  else 31

/-- A date and time that exists. -/
structure RtcTime.Valid (t : RtcTime) : Prop where
  month : 1 ≤ t.month.toNat ∧ t.month.toNat ≤ 12
  day : 1 ≤ t.day.toNat ∧
    t.day.toNat ≤ monthDays t.year.toNat t.month.toNat
  hours : t.hours.toNat < 24
  minutes : t.minutes.toNat < 60
  seconds : t.seconds.toNat < 60

/-- The days of the years from 1970 on, and of the months of a year. -/
def yearsFrom1970 (index : ℕ) : ℕ := yearDays (1970 + index)
def monthsOf (year index : ℕ) : ℕ := monthDays year (index + 1)

/-- The days from the first of January 1970 to a date. -/
def RtcTime.dayNumber (t : RtcTime) : ℕ :=
  spanStart yearsFrom1970 (t.year.toNat - 1970) +
    spanStart (monthsOf t.year.toNat) (t.month.toNat - 1) +
      (t.day.toNat - 1)

/-- The seconds of a day that have passed at a time. -/
def RtcTime.secondOfDay (t : RtcTime) : ℕ :=
  t.hours.toNat * 3600 + t.minutes.toNat * 60 + t.seconds.toNat

/-! ## The conversion from an epoch -/

/-- `days_in_year`, in `epoch_to_rtc`. -/
def daysInYear (year : UInt16) : UInt16 :=
  if isLeap year then 366 else 365

theorem daysInYear_pos (year : UInt16) : 0 < (daysInYear year).toNat := by
  unfold daysInYear
  split <;> decide

/-- The loop of `epoch_to_rtc` over the years. -/
def passYears (days : UInt32) (year : UInt16) : UInt32 × UInt16 :=
  if days < (daysInYear year).toUInt32 then
    (days, year)
  else
    passYears (days - (daysInYear year).toUInt32) (year + 1)
termination_by days.toNat
decreasing_by
  rename_i enough
  have long := daysInYear_pos year
  have fits : (daysInYear year).toUInt32 ≤ days := UInt32.not_lt.mp enough
  rw [UInt32.toNat_sub_of_le _ _ fits]
  rw [UInt32.le_iff_toNat_le] at fits
  rw [UInt16.toNat_toUInt32] at *
  omega

/-- The loop of `epoch_to_rtc` over the months from `month` on, whose
lengths are `lengths`; there is no result if it leaves the table. -/
def passMonths :
    (lengths : List UInt16) → (days : UInt32) → (month : UInt8) →
      Option (UInt32 × UInt8)
  | [], _, _ => none
  | length :: lengths, days, month =>
      if days < length.toUInt32 then
        some (days, month)
      else
        passMonths lengths (days - length.toUInt32) (month + 1)

/-- `epoch_to_rtc`. -/
def epochToRtc (epoch : UInt32) : Option RtcTime := do
  let seconds := (epoch % 60).toUInt8
  let epoch := epoch / 60
  let minutes := (epoch % 60).toUInt8
  let epoch := epoch / 60
  let hours := (epoch % 24).toUInt8
  let epoch := epoch / 24
  let (days, year) := passYears epoch 1970
  let (days, month) ← passMonths (daysInMonth (isLeap year)) days 1
  return { seconds, minutes, hours, day := (days + 1).toUInt8, month, year }

/-! ## The leap rule and the tables -/

theorem isLeap_eq (year : UInt16) :
    isLeap year = decide (GregorianLeap year.toNat) := by
  have value (modulus : UInt16) : (year % modulus == 0) =
      decide (modulus.toNat ∣ year.toNat) := by
    rw [Bool.eq_iff_iff, beq_iff_eq, decide_eq_true_iff,
      ← UInt16.toNat_inj, UInt16.toNat_mod, Nat.dvd_iff_mod_eq_zero]
    rfl
  unfold isLeap GregorianLeap
  have four := value 4
  have hundred := value 100
  have fourHundred := value 400
  rw [bne, four, hundred, fourHundred]
  change (decide (4 ∣ _) && !decide (100 ∣ _) || decide (400 ∣ _)) = _
  by_cases byHundred : 100 ∣ year.toNat <;>
    by_cases byFour : 4 ∣ year.toNat <;>
      by_cases byFourHundred : 400 ∣ year.toNat <;>
        simp [byHundred, byFour, byFourHundred] <;> omega

theorem daysInYear_eq (year : UInt16) :
    (daysInYear year).toNat = yearDays year.toNat := by
  unfold daysInYear yearDays
  rw [isLeap_eq]
  by_cases leap : GregorianLeap year.toNat
  · rw [if_pos leap, if_pos (decide_eq_true leap)]
    rfl
  · rw [if_neg leap, if_neg (by simpa using leap)]
    rfl

/-- The table `days_in_month` holds the lengths of the months. -/
theorem daysInMonth_eq (year : UInt16) (index : ℕ) (inside : index < 12) :
    ∃ length, (daysInMonth (isLeap year))[index]? = some length ∧
      length.toNat = monthsOf year.toNat index := by
  unfold monthsOf monthDays
  rw [isLeap_eq]
  by_cases leap : GregorianLeap year.toNat
  · simp only [leap, decide_true, if_true]
    revert index
    decide
  · simp only [leap, decide_false, if_false]
    revert index
    decide

theorem monthsOf_year (year : ℕ) :
    spanStart (monthsOf year) 12 = yearDays year := by
  by_cases leap : GregorianLeap year <;>
    simp [spanStart, Finset.sum_range_succ, monthsOf, monthDays, yearDays,
      leap]

theorem yearsFrom1970_ge (index : ℕ) : 365 ≤ yearsFrom1970 index := by
  unfold yearsFrom1970 yearDays
  split <;> omega

theorem yearsFrom1970_le (count : ℕ) :
    spanStart yearsFrom1970 count ≤ 366 * count := by
  induction count with
  | zero => simp
  | succ count inductionHypothesis =>
      have last : yearsFrom1970 count ≤ 366 := by
        unfold yearsFrom1970 yearDays
        split <;> omega
      rw [spanStart_succ]
      omega

theorem monthsOf_le (year count : ℕ) :
    spanStart (monthsOf year) count ≤ 31 * count := by
  induction count with
  | zero => simp
  | succ count inductionHypothesis =>
      have last : monthsOf year count ≤ 31 := by
        unfold monthsOf monthDays
        split_ifs <;> omega
      rw [spanStart_succ]
      omega

/-! ## The closed sums -/

theorem addYears_eq (count index : ℕ) (y : UInt16) (days : UInt32)
    (isYear : y.toNat = 1970 + index)
    (isDays : days.toNat = spanStart yearsFrom1970 index)
    (inside : 1970 + index + count < 2 ^ 16) :
    (addYears count y days).toNat =
      spanStart yearsFrom1970 (index + count) := by
  induction count generalizing index y days with
  | zero => exact isDays
  | succ count inductionHypothesis =>
      have length : (if isLeap y then (366 : UInt32) else 365).toNat =
          yearsFrom1970 index := by
        have table := daysInYear_eq y
        unfold daysInYear at table
        rw [yearsFrom1970, ← isYear, ← table]
        split <;> rfl
      have small := yearsFrom1970_le (index + 1)
      have next : spanStart yearsFrom1970 (index + 1) =
          spanStart yearsFrom1970 index + yearsFrom1970 index :=
        spanStart_succ index
      have nextYear : (y + 1).toNat = 1970 + (index + 1) := by
        have one : (1 : UInt16).toNat = 1 := rfl
        rw [UInt16.toNat_add, isYear, one]
        omega
      have nextDays : (days + if isLeap y then 366 else 365).toNat =
          spanStart yearsFrom1970 (index + 1) := by
        rw [UInt32.toNat_add, isDays, length, ← next]
        omega
      rw [addYears, inductionHypothesis (index + 1) (y + 1) _ nextYear
        nextDays (by omega), Nat.add_right_comm, Nat.add_assoc]

theorem daysSinceEpochToYear_eq (year : UInt16) :
    (daysSinceEpochToYear year).toNat =
      spanStart yearsFrom1970 (year.toNat - 1970) := by
  have inside := year.toNat_lt
  by_cases early : year.toNat ≤ 1970
  · have none : year.toNat - 1970 = 0 := by omega
    rw [daysSinceEpochToYear, none, addYears, spanStart_zero]
    rfl
  · rw [daysSinceEpochToYear, addYears_eq _ 0 1970 0 rfl rfl (by omega),
      Nat.zero_add]

theorem addMonths_eq (year : UInt16) (base count index : ℕ)
    (days : UInt32) (within : index + count ≤ 12)
    (isDays : days.toNat =
      base + spanStart (monthsOf year.toNat) index)
    (small : base + 31 * 12 < 2 ^ 32) :
    ∃ sum, addMonths (isLeap year) count (index + 1) days = some sum ∧
      sum.toNat =
        base + spanStart (monthsOf year.toNat) (index + count) := by
  induction count generalizing index days with
  | zero => exact ⟨days, rfl, isDays⟩
  | succ count inductionHypothesis =>
      obtain ⟨length, listed, isLength⟩ :=
        daysInMonth_eq year index (by omega)
      have bound := monthsOf_le year.toNat (index + 1)
      have next : spanStart (monthsOf year.toNat) (index + 1) =
          spanStart (monthsOf year.toNat) index +
            monthsOf year.toNat index :=
        spanStart_succ index
      have nextDays : (days + length.toUInt32).toNat =
          base + spanStart (monthsOf year.toNat) (index + 1) := by
        rw [UInt32.toNat_add, UInt16.toNat_toUInt32, isDays, isLength]
        omega
      obtain ⟨sum, added, isSum⟩ := inductionHypothesis (index + 1)
        (days + length.toUInt32) (by omega) nextDays
      refine ⟨sum, ?_, ?_⟩
      · rw [addMonths, Nat.add_sub_cancel, listed]
        exact added
      · rw [isSum, Nat.add_right_comm, Nat.add_assoc]

/-- The epoch of a date, with the seconds counted modulo `2 ^ 32`. -/
theorem RtcTime.Valid.epoch {t : RtcTime} (valid : t.Valid) :
    ∃ epoch, rtcToEpoch t = some epoch ∧
      epoch.toNat = (t.dayNumber * 86400 + t.secondOfDay) % 2 ^ 32 := by
  have month := valid.month
  have day := valid.day
  have isYear := t.year.toNat_lt
  have years := yearsFrom1970_le (t.year.toNat - 1970)
  have months := monthsOf_le t.year.toNat (t.month.toNat - 1)
  have dayByte := t.day.toNat_lt
  obtain ⟨days, added, isDays⟩ := addMonths_eq t.year
    (spanStart yearsFrom1970 (t.year.toNat - 1970)) (t.month.toNat - 1) 0
    (daysSinceEpochToYear t.year) (by omega)
    (by rw [spanStart_zero, Nat.add_zero, daysSinceEpochToYear_eq])
    (by omega)
  rw [Nat.zero_add] at isDays
  have one : (1 : UInt32).toNat = 1 := rfl
  have first : (1 : UInt32) ≤ t.day.toUInt32 := by
    rw [UInt32.le_iff_toNat_le, UInt8.toNat_toUInt32]
    exact day.1
  have passed : (days + (t.day.toUInt32 - 1)).toNat = t.dayNumber := by
    rw [UInt32.toNat_add, UInt32.toNat_sub_of_le _ _ first,
      UInt8.toNat_toUInt32, isDays, dayNumber]
    omega
  refine ⟨_, by rw [rtcToEpoch, added]; rfl, ?_⟩
  rw [secondOfDay, ← passed]
  simp only [UInt32.toNat_add, UInt32.toNat_mul, UInt8.toNat_toUInt32,
    UInt32.reduceToNat]
  omega

/-! ## The loops of the other direction -/

theorem passYears_inSpan (days : UInt32) (year : UInt16) (total index : ℕ)
    (passed : SpansPassed yearsFrom1970 total index days.toNat)
    (isYear : year.toNat = 1970 + index) (small : total < 50000) :
    ∃ index', (passYears days year).2.toNat = 1970 + index' ∧
      InSpan yearsFrom1970 total index' (passYears days year).1.toNat := by
  induction days, year using passYears.induct generalizing index with
  | case1 days year inside =>
      rw [passYears, if_pos inside]
      rw [UInt32.lt_iff_toNat_lt, UInt16.toNat_toUInt32, daysInYear_eq,
        isYear] at inside
      exact ⟨index, isYear, passed, inside⟩
  | case2 days year enough inductionHypothesis =>
      rw [passYears, if_neg enough]
      have fits := UInt32.not_lt.mp enough
      have isLength : (daysInYear year).toUInt32.toNat =
          yearsFrom1970 index := by
        rw [UInt16.toNat_toUInt32, daysInYear_eq, isYear]
        rfl
      have early : index < 2 ^ 15 := by
        have reached := passed.start_le
        have long := spanStart_ge yearsFrom1970_ge index
        omega
      have nextYear : (year + 1).toNat = 1970 + (index + 1) := by
        have one : (1 : UInt16).toNat = 1 := rfl
        rw [UInt16.toNat_add, isYear, one]
        omega
      apply inductionHypothesis (index + 1) _ nextYear
      rw [UInt32.toNat_sub_of_le _ _ fits, isLength]
      rw [UInt32.le_iff_toNat_le, isLength] at fits
      exact passed.next fits

theorem daysInMonth_drop (year : UInt16) (index : ℕ)
    (inside : index < 12) :
    ∃ length, (daysInMonth (isLeap year)).drop index =
        length :: (daysInMonth (isLeap year)).drop (index + 1) ∧
      length.toUInt32.toNat = monthsOf year.toNat index := by
  obtain ⟨length, listed, isLength⟩ := daysInMonth_eq year index inside
  obtain ⟨bound, value⟩ := List.getElem?_eq_some_iff.mp listed
  refine ⟨length, ?_, ?_⟩
  · rw [← value]
    exact List.drop_eq_getElem_cons bound
  · rw [UInt16.toNat_toUInt32]
    exact isLength

/-- A day of the year lies in one of its twelve months. -/
theorem SpansPassed.month_early {year total index rest : ℕ}
    (passed : SpansPassed (monthsOf year) total index rest)
    (within : total < yearDays year) : index < 12 := by
  by_contra late
  have order : spanStart (monthsOf year) 12 ≤
      spanStart (monthsOf year) index :=
    spanStart_mono (Nat.le_of_not_lt late)
  have reached := passed.start_le
  rw [monthsOf_year] at order
  omega

theorem passMonths_inSpan (year : UInt16) (lengths : List UInt16)
    (days : UInt32) (month : UInt8) (total index : ℕ)
    (passed : SpansPassed (monthsOf year.toNat) total index days.toNat)
    (isMonth : month.toNat = index + 1)
    (listed : lengths = (daysInMonth (isLeap year)).drop index)
    (within : total < yearDays year.toNat) :
    ∃ days' month' index', passMonths lengths days month =
        some (days', month') ∧
      month'.toNat = index' + 1 ∧ index' < 12 ∧
      InSpan (monthsOf year.toNat) total index' days'.toNat := by
  induction lengths generalizing days month index with
  | nil =>
      have early := passed.month_early within
      obtain ⟨length, shape, _⟩ := daysInMonth_drop year index early
      rw [← listed] at shape
      cases shape
  | cons first rest inductionHypothesis =>
      have early := passed.month_early within
      obtain ⟨length, shape, isLength⟩ := daysInMonth_drop year index early
      rw [← listed] at shape
      obtain ⟨rfl, isRest⟩ := List.cons.inj shape
      rw [passMonths]
      split
      case isTrue inside =>
        rw [UInt32.lt_iff_toNat_lt, isLength] at inside
        exact ⟨days, month, index, rfl, isMonth, early, passed, inside⟩
      case isFalse enough =>
        have fits := UInt32.not_lt.mp enough
        have nextMonth : (month + 1).toNat = index + 1 + 1 := by
          have one : (1 : UInt8).toNat = 1 := rfl
          rw [UInt8.toNat_add, isMonth, one]
          omega
        apply inductionHypothesis _ _ (index + 1) _ nextMonth isRest
        rw [UInt32.toNat_sub_of_le _ _ fits, isLength]
        rw [UInt32.le_iff_toNat_le, isLength] at fits
        exact passed.next fits

/-- The parts of the clock, and the days. -/
theorem epoch_parts (epoch : UInt32) :
    (epoch % 60).toUInt8.toNat = epoch.toNat % 60 ∧
      (epoch / 60 % 60).toUInt8.toNat = epoch.toNat / 60 % 60 ∧
      (epoch / 60 / 60 % 24).toUInt8.toNat = epoch.toNat / 3600 % 24 ∧
      (epoch / 60 / 60 / 24).toNat = epoch.toNat / 86400 := by
  simp only [UInt32.toNat_toUInt8, UInt32.toNat_mod, UInt32.toNat_div,
    UInt32.reduceToNat]
  omega

/-- The year, the month and the days that the two loops leave. -/
theorem passed_date (total : UInt32) (few : total.toNat < 50000) :
    ∃ days year rest month, passYears total 1970 = (days, year) ∧
      passMonths (daysInMonth (isLeap year)) days 1 =
        some (rest, month) ∧
      1970 ≤ year.toNat ∧ (1 ≤ month.toNat ∧ month.toNat ≤ 12) ∧
      rest.toNat < monthDays year.toNat month.toNat ∧
      total.toNat = spanStart yearsFrom1970 (year.toNat - 1970) +
        spanStart (monthsOf year.toNat) (month.toNat - 1) +
          rest.toNat := by
  obtain ⟨yearIndex, isYear, inYear⟩ := passYears_inSpan total 1970
    total.toNat 0 (.begin _) rfl (by omega)
  generalize found : passYears total 1970 = years at isYear inYear
  obtain ⟨days, year⟩ := years
  have dayOfYear : days.toNat < yearDays year.toNat := by
    rw [isYear]
    exact inYear.inside
  obtain ⟨rest, month, monthIndex, foundMonth, isMonth, early, inMonth⟩ :=
    passMonths_inSpan year (daysInMonth (isLeap year)) days 1 days.toNat 0
      (.begin _) rfl rfl dayOfYear
  have dayOfMonth : rest.toNat < monthDays year.toNat month.toNat := by
    rw [isMonth]
    exact inMonth.inside
  have inTotal : total.toNat =
      spanStart yearsFrom1970 yearIndex + days.toNat := inYear.passed
  have inDays : days.toNat =
      spanStart (monthsOf year.toNat) monthIndex + rest.toNat :=
    inMonth.passed
  change year.toNat = 1970 + yearIndex at isYear
  have sameYear : year.toNat - 1970 = yearIndex := by omega
  have sameMonth : month.toNat - 1 = monthIndex := by omega
  refine ⟨days, year, rest, month, rfl, foundMonth, by omega, by omega,
    dayOfMonth, ?_⟩
  rw [sameYear, sameMonth]
  omega

/-- The date of an epoch: it exists, and it stands for the day and the
second that the epoch stands for. -/
theorem epochToRtc_date (epoch : UInt32) :
    ∃ t, epochToRtc epoch = some t ∧ t.Valid ∧ 1970 ≤ t.year.toNat ∧
      t.dayNumber = epoch.toNat / 86400 ∧
      t.secondOfDay = epoch.toNat % 86400 := by
  have isEpoch := epoch.toNat_lt
  obtain ⟨seconds, minutes, hours, isDays⟩ := epoch_parts epoch
  obtain ⟨days, year, rest, month, foundYear, foundMonth, recent, isMonth,
    dayOfMonth, total⟩ := passed_date (epoch / 60 / 60 / 24) (by omega)
  rw [isDays] at total
  have short : monthDays year.toNat month.toNat ≤ 31 := by
    unfold monthDays
    split_ifs <;> omega
  have isDay : (rest + 1).toUInt8.toNat = rest.toNat + 1 := by
    simp only [UInt32.toNat_toUInt8, UInt32.toNat_add,
      UInt32.reduceToNat]
    omega
  have isDate : epochToRtc epoch = some
      { seconds := (epoch % 60).toUInt8
        minutes := (epoch / 60 % 60).toUInt8
        hours := (epoch / 60 / 60 % 24).toUInt8
        day := (rest + 1).toUInt8, month, year } := by
    simp only [epochToRtc, foundYear, foundMonth, Option.bind_eq_bind,
      Option.bind_some, Option.pure_def]
  refine ⟨_, isDate, ?_, recent, ?_, ?_⟩
  · constructor
    · exact isMonth
    · change 1 ≤ (rest + 1).toUInt8.toNat ∧
        (rest + 1).toUInt8.toNat ≤ monthDays year.toNat month.toNat
      omega
    · change (epoch / 60 / 60 % 24).toUInt8.toNat < 24
      omega
    · change (epoch / 60 % 60).toUInt8.toNat < 60
      omega
    · change (epoch % 60).toUInt8.toNat < 60
      omega
  · change spanStart yearsFrom1970 (year.toNat - 1970) +
      spanStart (monthsOf year.toNat) (month.toNat - 1) +
        ((rest + 1).toUInt8.toNat - 1) = _
    omega
  · change (epoch / 60 / 60 % 24).toUInt8.toNat * 3600 +
      (epoch / 60 % 60).toUInt8.toNat * 60 +
        (epoch % 60).toUInt8.toNat = _
    omega

/-! ## The round trips -/

/-- The days of a year before a date. -/
def RtcTime.dayOfYear (t : RtcTime) : ℕ :=
  spanStart (monthsOf t.year.toNat) (t.month.toNat - 1) + (t.day.toNat - 1)

theorem RtcTime.Valid.inMonth {t : RtcTime} (valid : t.Valid) :
    InSpan (monthsOf t.year.toNat) t.dayOfYear (t.month.toNat - 1)
      (t.day.toNat - 1) where
  passed := rfl
  inside := by
    have month := valid.month
    have day := valid.day
    have index : t.month.toNat - 1 + 1 = t.month.toNat := by omega
    rw [monthsOf, index]
    omega

theorem RtcTime.Valid.dayOfYear_lt {t : RtcTime} (valid : t.Valid) :
    t.dayOfYear < yearDays t.year.toNat := by
  have month := valid.month
  have before := valid.inMonth.before_next
  have order : spanStart (monthsOf t.year.toNat) (t.month.toNat - 1 + 1) ≤
      spanStart (monthsOf t.year.toNat) 12 := by
    apply spanStart_mono
    omega
  rw [monthsOf_year] at order
  omega

theorem RtcTime.Valid.inYear {t : RtcTime} (valid : t.Valid)
    (since : 1970 ≤ t.year.toNat) :
    InSpan yearsFrom1970 t.dayNumber (t.year.toNat - 1970)
      t.dayOfYear where
  passed := Nat.add_assoc _ _ _
  inside := by
    have before := valid.dayOfYear_lt
    have index : 1970 + (t.year.toNat - 1970) = t.year.toNat := by omega
    rw [yearsFrom1970, index]
    exact before

/-- The day and the second of the day determine a date and time. -/
theorem RtcTime.Valid.unique {t other : RtcTime} (valid : t.Valid)
    (validOther : other.Valid) (since : 1970 ≤ t.year.toNat)
    (sinceOther : 1970 ≤ other.year.toNat)
    (sameDay : t.dayNumber = other.dayNumber)
    (sameSecond : t.secondOfDay = other.secondOfDay) : t = other := by
  have inYear := valid.inYear since
  have inYear' := validOther.inYear sinceOther
  rw [← sameDay] at inYear'
  obtain ⟨sameIndex, sameDayOfYear⟩ := inYear.unique inYear'
  have sameYear : t.year.toNat = other.year.toNat := by omega
  have inMonth := valid.inMonth
  have inMonth' := validOther.inMonth
  rw [← sameDayOfYear, ← sameYear] at inMonth'
  obtain ⟨sameMonth, sameDayOfMonth⟩ := inMonth.unique inMonth'
  have month := valid.month
  have monthOther := validOther.month
  have day := valid.day
  have dayOther := validOther.day
  have hours := valid.hours
  have hoursOther := validOther.hours
  have minutes := valid.minutes
  have minutesOther := validOther.minutes
  have seconds := valid.seconds
  have secondsOther := validOther.seconds
  unfold RtcTime.secondOfDay at sameSecond
  have year : t.year = other.year := UInt16.toNat_inj.mp sameYear
  have sameMonths : t.month = other.month := by
    apply UInt8.toNat_inj.mp
    omega
  have sameDays : t.day = other.day := by
    apply UInt8.toNat_inj.mp
    omega
  have sameHours : t.hours = other.hours := by
    apply UInt8.toNat_inj.mp
    omega
  have sameMinutes : t.minutes = other.minutes := by
    apply UInt8.toNat_inj.mp
    omega
  have sameSeconds : t.seconds = other.seconds := by
    apply UInt8.toNat_inj.mp
    omega
  cases t
  cases other
  simp_all only

/-- The dates of the years up to 2105 have an epoch of 32 bits. -/
theorem RtcTime.Valid.early {t : RtcTime} (valid : t.Valid)
    (since : 1970 ≤ t.year.toNat) (until2105 : t.year.toNat ≤ 2105) :
    t.dayNumber * 86400 + t.secondOfDay < 2 ^ 32 := by
  have hours := valid.hours
  have minutes := valid.minutes
  have seconds := valid.seconds
  have before := (valid.inYear since).before_next
  have order : spanStart yearsFrom1970 (t.year.toNat - 1970 + 1) ≤
      spanStart yearsFrom1970 136 := by
    apply spanStart_mono
    omega
  have last : spanStart yearsFrom1970 136 = 49673 := by
    decide +kernel
  unfold secondOfDay
  omega

/-- Every epoch is the epoch of its date, which exists, and every date of
the years 1970 to 2105 is the date of its epoch. -/
theorem calendar_roundTrip :
    (∀ epoch : UInt32, ∃ t, epochToRtc epoch = some t ∧ t.Valid ∧
      rtcToEpoch t = some epoch) ∧
    (∀ t : RtcTime, t.Valid → 1970 ≤ t.year.toNat →
      t.year.toNat ≤ 2105 →
        ∃ epoch, rtcToEpoch t = some epoch ∧
          epochToRtc epoch = some t) := by
  constructor
  · intro epoch
    obtain ⟨t, isDate, valid, since, sameDay, sameSecond⟩ :=
      epochToRtc_date epoch
    obtain ⟨epoch', isEpoch, value⟩ := valid.epoch
    have small := epoch.toNat_lt
    have same : epoch' = epoch := by
      rw [← UInt32.toNat_inj, value, sameDay, sameSecond]
      omega
    rw [same] at isEpoch
    exact ⟨t, isDate, valid, isEpoch⟩
  · intro t valid since until2105
    obtain ⟨epoch, isEpoch, value⟩ := valid.epoch
    rw [Nat.mod_eq_of_lt (valid.early since until2105)] at value
    obtain ⟨t', isDate, valid', since', sameDay, sameSecond⟩ :=
      epochToRtc_date epoch
    have second : t.secondOfDay < 86400 := by
      have hours := valid.hours
      have minutes := valid.minutes
      have seconds := valid.seconds
      unfold RtcTime.secondOfDay
      omega
    have same : t' = t := by
      apply valid'.unique valid since' since
      · omega
      · omega
    rw [same] at isDate
    exact ⟨epoch, isEpoch, isDate⟩

end LoafOs
