import Mathlib.Algebra.Group.Nat.Defs
import Mathlib.Data.List.Forall2

/-!
# The wall clock

`src/devices/rtc.c`: the time of day, read from the CMOS clock when the
kernel boots and carried forward with the timer ticks.
-/

namespace LoafOs

/-- `rtc_time_t`. -/
structure RtcTime where
  seconds : UInt8
  minutes : UInt8
  hours : UInt8
  day : UInt8
  month : UInt8
  year : UInt16
  deriving DecidableEq, Repr

/-- `RTC_SECONDS` to `RTC_STATUS_B`. -/
def rtcSeconds : UInt8 := 0x00
def rtcMinutes : UInt8 := 0x02
def rtcHours : UInt8 := 0x04
def rtcDay : UInt8 := 0x07
def rtcMonth : UInt8 := 0x08
def rtcYear : UInt8 := 0x09
def rtcStatusB : UInt8 := 0x0b

/-- `RTC_RESYNC_INTERVAL_SEC`. -/
def rtcResyncIntervalSec : UInt32 := 60

/-- `days_in_month`. -/
def daysInMonth (leap : Bool) : List UInt16 :=
  [31, if leap then 29 else 28, 31, 30, 31, 30, 31, 31, 30, 31, 30, 31]

/-- `bcd_to_bin`. -/
def bcdToBin (bcd : UInt8) : UInt8 :=
  (bcd &&& (0x0f : UInt8)) + (bcd >>> 4) * 10

/-- `is_leap`. -/
def isLeap (year : UInt16) : Bool :=
  (year % 4 == 0 && year % 100 != 0) || year % 400 == 0

/-- `days_since_epoch_to_year`: the loop over the years from `y` on. -/
def addYears : (count : Nat) → (y : UInt16) → (days : UInt32) → UInt32
  | 0, _, days => days
  | count + 1, y, days =>
      addYears count (y + 1) (days + if isLeap y then 366 else 365)

/-- `days_since_epoch_to_year`. -/
def daysSinceEpochToYear (year : UInt16) : UInt32 :=
  addYears (year.toNat - 1970) 1970 0

/-- `rtc_read`, with the registers as they are once no update is in
progress. -/
def rtcRead (cmosRead : UInt8 → UInt8) : RtcTime :=
  let value := fun register =>
    if cmosRead rtcStatusB &&& 0x04 = 0 then bcdToBin (cmosRead register)
    else cmosRead register
  { seconds := value rtcSeconds
    minutes := value rtcMinutes
    hours := value rtcHours
    day := value rtcDay
    month := value rtcMonth
    year := (value rtcYear).toUInt16 + 2000 }

/-- The loop of `rtc_to_epoch` over the months from `m` on; there is no
result if it leaves the table. -/
def addMonths (leap : Bool) :
    (count m : Nat) → (days : UInt32) → Option UInt32
  | 0, _, days => some days
  | count + 1, m, days => do
      let length ← (daysInMonth leap)[m - 1]?
      addMonths leap count (m + 1) (days + length.toUInt32)

/-- `rtc_to_epoch`. -/
def rtcToEpoch (t : RtcTime) : Option UInt32 := do
  let days ← addMonths (isLeap t.year) (t.month.toNat - 1) 1
    (daysSinceEpochToYear t.year)
  let days := days + (t.day.toUInt32 - 1)
  return days * 86400 + t.hours.toUInt32 * 3600 +
    t.minutes.toUInt32 * 60 + t.seconds.toUInt32

/-- `boot_time`, `boot_epoch` and `boot_ticks`. -/
structure Rtc where
  bootTime : RtcTime
  bootEpoch : UInt32
  bootTicks : UInt32
  deriving DecidableEq, Repr

namespace Rtc

/-- `rtc_init` at a tick of the timer, which is also how `rtc_now_epoch`
reads the clock again. -/
def init (cmosRead : UInt8 → UInt8) (pitTicks : UInt32) : Option Rtc := do
  let bootTime := rtcRead cmosRead
  let bootEpoch ← rtcToEpoch bootTime
  return { bootTime, bootEpoch, bootTicks := pitTicks }

/-- `rtc_now_epoch`. -/
def nowEpoch (rtc : Rtc) (cmosRead : UInt8 → UInt8) (pitTicks : UInt32) :
    Option (UInt32 × Rtc) :=
  let elapsedTicks := pitTicks - rtc.bootTicks
  let elapsedSec := elapsedTicks / 100
  if rtcResyncIntervalSec ≤ elapsedSec then do
    let rtc ← init cmosRead pitTicks
    return (rtc.bootEpoch, rtc)
  else some (rtc.bootEpoch + elapsedSec, rtc)

/-- The results of `rtc_now_epoch` at one tick after the other, with the
registers of the CMOS clock at each tick. -/
def nowEpochs (cmosRead : UInt32 → UInt8 → UInt8) :
    Rtc → List UInt32 → Option (List UInt32)
  | _, [] => some []
  | rtc, pitTicks :: rest => do
      let (epoch, rtc) ← rtc.nowEpoch (cmosRead pitTicks) pitTicks
      let epochs ← nowEpochs cmosRead rtc rest
      return epoch :: epochs

end Rtc

/-! ## The dates of the CMOS clock -/

/-- A date that the two digits of the year can show. -/
structure RtcTime.Shown (t : RtcTime) : Prop where
  seconds : t.seconds.toNat < 60
  minutes : t.minutes.toNat < 60
  hours : t.hours.toNat < 24
  day : 1 ≤ t.day.toNat ∧ t.day.toNat ≤ 31
  month : 1 ≤ t.month.toNat ∧ t.month.toNat ≤ 12
  year : 2000 ≤ t.year.toNat ∧ t.year.toNat < 2100

theorem addYears_le (count : Nat) (y : UInt16) (days : UInt32)
    (small : days.toNat + 366 * count < 2 ^ 32) :
    (addYears count y days).toNat ≤ days.toNat + 366 * count := by
  induction count generalizing y days with
  | zero => exact Nat.le_refl _
  | succ count inductionHypothesis =>
      have sum : (days + if isLeap y then 366 else 365).toNat ≤
          days.toNat + 366 := by
        rw [UInt32.toNat_add]
        have year : (if isLeap y then (366 : UInt32) else 365).toNat ≤
            366 := by
          split <;> decide
        exact Nat.le_trans (Nat.mod_le _ _) (Nat.add_le_add_left year _)
      have rest := inductionHypothesis (y + 1)
        (days + if isLeap y then 366 else 365) (by omega)
      rw [addYears]
      omega

theorem addMonths_le (leap : Bool) (count m : Nat) (days : UInt32)
    (inside : 1 ≤ m ∧ m + count ≤ 13)
    (small : days.toNat + 31 * count < 2 ^ 32) :
    ∃ sum, addMonths leap count m days = some sum ∧
      sum.toNat ≤ days.toNat + 31 * count := by
  induction count generalizing m days with
  | zero => exact ⟨days, rfl, Nat.le_refl _⟩
  | succ count inductionHypothesis =>
      have listed : m - 1 < (daysInMonth leap).length := by
        change m - 1 < 12
        omega
      have short : (daysInMonth leap).all (·.toNat ≤ 31) = true := by
        cases leap <;> decide
      have length := of_decide_eq_true
        (List.all_eq_true.mp short _ (List.getElem_mem listed))
      generalize month : (daysInMonth leap)[m - 1] = days' at length
      have step : (days + days'.toUInt32).toNat ≤ days.toNat + 31 := by
        rw [UInt32.toNat_add, UInt16.toNat_toUInt32]
        exact Nat.le_trans (Nat.mod_le _ _) (Nat.add_le_add_left length _)
      obtain ⟨sum, added, bound⟩ := inductionHypothesis (m + 1)
        (days + days'.toUInt32) (by omega) (by omega)
      refine ⟨sum, ?_, by omega⟩
      rw [addMonths, List.getElem?_eq_getElem listed, month]
      exact added

/-- A shown date has an epoch, a minute or more below the largest one. -/
theorem RtcTime.Shown.epoch {t : RtcTime} (shown : t.Shown) :
    ∃ epoch, rtcToEpoch t = some epoch ∧ epoch.toNat + 60 < 2 ^ 32 := by
  obtain ⟨seconds, minutes, hours, day, month, year⟩ := shown
  have years : (daysSinceEpochToYear t.year).toNat ≤ 366 * 129 := by
    have bound := addYears_le _ 1970 0
      (show (0 : UInt32).toNat + 366 * (t.year.toNat - 1970) < 2 ^ 32 by
        change 0 + 366 * (t.year.toNat - 1970) < 2 ^ 32
        omega)
    have zero : (0 : UInt32).toNat = 0 := rfl
    rw [daysSinceEpochToYear]
    omega
  obtain ⟨days, added, months⟩ := addMonths_le (isLeap t.year)
    (t.month.toNat - 1) 1 (daysSinceEpochToYear t.year) (by omega)
    (by omega)
  refine ⟨_, by rw [rtcToEpoch, added]; rfl, ?_⟩
  have one : (1 : UInt32).toNat = 1 := rfl
  have first : (1 : UInt32) ≤ t.day.toUInt32 := by
    rw [UInt32.le_iff_toNat_le, UInt8.toNat_toUInt32]
    exact day.1
  have passed : (days + (t.day.toUInt32 - 1)).toNat ≤ 47800 := by
    rw [UInt32.toNat_add, UInt32.toNat_sub_of_le _ _ first,
      UInt8.toNat_toUInt32]
    omega
  generalize days + (t.day.toUInt32 - 1) = passedDays at passed
  have inDays := Nat.mul_le_mul_right 86400 passed
  change (passedDays * 86400 + t.hours.toUInt32 * 3600 +
    t.minutes.toUInt32 * 60 + t.seconds.toUInt32).toNat + 60 < 2 ^ 32
  simp only [UInt32.toNat_add, UInt32.toNat_mul, UInt8.toNat_toUInt32,
    UInt32.reduceToNat]
  simp (disch := omega) only [Nat.mod_eq_of_lt]
  omega

/-! ## The clock against the timer -/

/-- The CMOS clock shows a date at each of the `ticks`, and advances one
second every 1000 of them: `start` is what it shows `phase` ticks before
the timer starts. -/
structure CmosClock (cmosRead : UInt32 → UInt8 → UInt8)
    (start phase : Nat) (ticks : List UInt32) : Prop where
  shown : ∀ t ∈ ticks, (rtcRead (cmosRead t)).Shown
  second : ∀ t ∈ ticks, ∃ epoch, rtcToEpoch (rtcRead (cmosRead t)) =
    some epoch ∧ epoch.toNat = start + (t.toNat + phase) / 1000

/-- At most one second off what the CMOS clock shows at tick `t`. -/
def NearCmos (start phase : Nat) (epoch t : UInt32) : Prop :=
  epoch.toNat ≤ start + (t.toNat + phase) / 1000 + 1 ∧
    start + (t.toNat + phase) / 1000 ≤ epoch.toNat + 1

instance (start phase : Nat) (epoch t : UInt32) :
    Decidable (NearCmos start phase epoch t) :=
  inferInstanceAs (Decidable (_ ∧ _))

/-- A call less than 200 ticks after the clock was read, or less than 300
with a second of the CMOS clock in between, or one that reads it again. -/
def OnTime (phase : Nat) (readAt t : UInt32) : Prop :=
  t.toNat - readAt.toNat < 200 ∨
    t.toNat - readAt.toNat < 300 ∧
      1000 ≤ t.toNat - readAt.toNat + (readAt.toNat + phase) % 1000 ∨
    6000 ≤ t.toNat - readAt.toNat

/-- Each call is on time after the last one that read the clock. -/
def AllOnTime (phase : Nat) : (readAt : UInt32) → List UInt32 → Prop
  | _, [] => True
  | readAt, t :: rest =>
      OnTime phase readAt t ∧
        AllOnTime phase
          (if 6000 ≤ t.toNat - readAt.toNat then t else readAt) rest

/-- What the driver remembers is what the CMOS clock showed. -/
structure Rtc.Synced (rtc : Rtc) (start phase : Nat) : Prop where
  epoch : rtc.bootEpoch.toNat =
    start + (rtc.bootTicks.toNat + phase) / 1000
  small : rtc.bootEpoch.toNat + 60 < 2 ^ 32

section Clock

variable {cmosRead : UInt32 → UInt8 → UInt8} {start phase : Nat}
variable {ticks rest : List UInt32} {t : UInt32} {rtc : Rtc}

theorem CmosClock.tail (clock : CmosClock cmosRead start phase (t :: rest)) :
    CmosClock cmosRead start phase rest :=
  ⟨fun u h => clock.shown u (.tail _ h),
    fun u h => clock.second u (.tail _ h)⟩

theorem CmosClock.init (clock : CmosClock cmosRead start phase ticks)
    (member : t ∈ ticks) :
    ∃ rtc, Rtc.init (cmosRead t) t = some rtc ∧ rtc.bootTicks = t ∧
      rtc.Synced start phase := by
  obtain ⟨epoch, isEpoch, shows⟩ := clock.second t member
  obtain ⟨epoch', isEpoch', small⟩ := (clock.shown t member).epoch
  obtain rfl := Option.some.inj (isEpoch.symm.trans isEpoch')
  exact ⟨_, by rw [Rtc.init, isEpoch]; rfl, rfl, shows, small⟩

/-- One call: the clock is read again after 6000 ticks, and before that
each 100 ticks count as a second. -/
theorem Rtc.Synced.nowEpoch (synced : rtc.Synced start phase)
    (clock : CmosClock cmosRead start phase ticks) (member : t ∈ ticks)
    (later : rtc.bootTicks ≤ t) :
    ∃ epoch rtc', rtc.nowEpoch (cmosRead t) t = some (epoch, rtc') ∧
      rtc'.Synced start phase ∧
      rtc'.bootTicks = (if 6000 ≤ t.toNat - rtc.bootTicks.toNat then t
        else rtc.bootTicks) ∧
      epoch.toNat =
        if 6000 ≤ t.toNat - rtc.bootTicks.toNat then
          start + (t.toNat + phase) / 1000
        else rtc.bootEpoch.toNat + (t.toNat - rtc.bootTicks.toNat) / 100 := by
  have elapsed : ((t - rtc.bootTicks) / 100).toNat =
      (t.toNat - rtc.bootTicks.toNat) / 100 := by
    rw [UInt32.toNat_div, UInt32.toNat_sub_of_le _ _ later]
    rfl
  have resync : rtcResyncIntervalSec ≤ (t - rtc.bootTicks) / 100 ↔
      6000 ≤ t.toNat - rtc.bootTicks.toNat := by
    rw [UInt32.le_iff_toNat_le, elapsed]
    change 60 ≤ _ ↔ _
    omega
  simp only [Rtc.nowEpoch, resync]
  split
  case isTrue =>
    obtain ⟨rtc', isInit, readAt, synced'⟩ := clock.init member
    refine ⟨_, rtc', by rw [isInit]; rfl, synced', readAt, ?_⟩
    rw [synced'.epoch, readAt]
  case isFalse =>
    refine ⟨_, rtc, rfl, synced, rfl, ?_⟩
    have small := synced.small
    rw [UInt32.toNat_add, elapsed]
    omega

/-- A result is right to the second exactly when the call is on time. -/
theorem Rtc.Synced.near_iff (synced : rtc.Synced start phase)
    (later : rtc.bootTicks ≤ t) {epoch : UInt32}
    (value : epoch.toNat =
      if 6000 ≤ t.toNat - rtc.bootTicks.toNat then
        start + (t.toNat + phase) / 1000
      else rtc.bootEpoch.toNat + (t.toNat - rtc.bootTicks.toNat) / 100) :
    NearCmos start phase epoch t ↔ OnTime phase rtc.bootTicks t := by
  have shows := synced.epoch
  rw [UInt32.le_iff_toNat_le] at later
  rw [NearCmos, OnTime]
  split at value <;> omega

/-- The results of calls that are on time do not fall below one that was on
time at `since`. -/
theorem Rtc.Synced.nowEpochs_ge (since : UInt32) {epochs : List UInt32}
    (synced : rtc.Synced start phase)
    (clock : CmosClock cmosRead start phase ticks)
    (afterRead : rtc.bootTicks ≤ since)
    (near : since.toNat - rtc.bootTicks.toNat < 300)
    (sorted : (since :: ticks).Pairwise (· ≤ ·))
    (onTime : AllOnTime phase rtc.bootTicks ticks)
    (called : rtc.nowEpochs cmosRead ticks = some epochs) :
    ∀ epoch ∈ epochs, rtc.bootEpoch.toNat +
      (since.toNat - rtc.bootTicks.toNat) / 100 ≤ epoch.toNat := by
  induction ticks generalizing rtc since epochs with
  | nil =>
      obtain rfl := Option.some.inj called
      intro epoch member
      cases member
  | cons t rest inductionHypothesis =>
      have after : since ≤ t := List.rel_of_pairwise_cons sorted (.head _)
      have later : rtc.bootTicks ≤ t := UInt32.le_trans afterRead after
      obtain ⟨epoch, rtc', now, synced', readAt, value⟩ :=
        synced.nowEpoch clock (.head _) later
      simp only [Rtc.nowEpochs, now, Option.bind_eq_bind, Option.bind_some,
        Option.pure_def] at called
      obtain ⟨tail, isTail, same⟩ := Option.bind_eq_some_iff.mp called
      obtain rfl := Option.some.inj same
      have shows := synced.epoch
      have shows' := synced'.epoch
      have order := UInt32.le_iff_toNat_le.mp after
      have order' := UInt32.le_iff_toNat_le.mp afterRead
      have rest' := onTime.2
      rw [← readAt] at rest'
      intro other member
      cases member with
      | head =>
          split at value <;> omega
      | tail _ member =>
          by_cases resync : 6000 ≤ t.toNat - rtc.bootTicks.toNat
          · rw [if_pos resync] at readAt
            have above := inductionHypothesis t synced' clock.tail
              (readAt ▸ UInt32.le_refl t)
              (by rw [readAt]; omega) sorted.tail rest' isTail other member
            rw [readAt] at shows' above
            omega
          · rw [if_neg resync] at readAt
            have skipped : (since :: rest).Pairwise (· ≤ ·) :=
              sorted.sublist (.cons_cons _ (.cons _ (.refl _)))
            have above := inductionHypothesis since synced'
              clock.tail (readAt ▸ afterRead) (by rw [readAt]; exact near) skipped
              rest' isTail other member
            rw [readAt] at shows' above
            omega

/-- A run of calls: its results are monotone and right to the second
exactly when every call is on time. -/
theorem Rtc.Synced.nowEpochs (synced : rtc.Synced start phase)
    (clock : CmosClock cmosRead start phase ticks)
    (sorted : (rtc.bootTicks :: ticks).Pairwise (· ≤ ·)) :
    ∃ epochs, rtc.nowEpochs cmosRead ticks = some epochs ∧
      ((epochs.Pairwise (· ≤ ·) ∧
          List.Forall₂ (NearCmos start phase) epochs ticks) ↔
        AllOnTime phase rtc.bootTicks ticks) := by
  induction ticks generalizing rtc with
  | nil => exact ⟨[], rfl, by simp [AllOnTime]⟩
  | cons t rest inductionHypothesis =>
      have later : rtc.bootTicks ≤ t :=
        List.rel_of_pairwise_cons sorted (.head _)
      obtain ⟨epoch, rtc', now, synced', readAt, value⟩ :=
        synced.nowEpoch clock (.head _) later
      have near := synced.near_iff later value
      have sorted' : (rtc'.bootTicks :: rest).Pairwise (· ≤ ·) := by
        rw [readAt]
        split
        case isTrue => exact sorted.tail
        case isFalse => exact sorted.sublist (.cons_cons _ (.cons _ (.refl _)))
      obtain ⟨epochs, isTail, right⟩ :=
        inductionHypothesis synced' clock.tail sorted'
      refine ⟨epoch :: epochs, ?_, ?_⟩
      · simp only [Rtc.nowEpochs, now, isTail, Option.bind_eq_bind,
          Option.bind_some, Option.pure_def]
      · rw [AllOnTime, ← readAt, ← near, ← right, List.pairwise_cons,
          List.forall₂_cons]
        refine ⟨fun h => ⟨h.2.1, h.1.2, h.2.2⟩, fun h => ⟨⟨?_, h.2.1⟩, h.1,
          h.2.2⟩⟩
        have onTime := right.mp h.2
        have timely := near.mp h.1
        intro other member
        rw [UInt32.le_iff_toNat_le]
        by_cases resync : 6000 ≤ t.toNat - rtc.bootTicks.toNat
        · rw [if_pos resync] at readAt value
          have above := synced'.nowEpochs_ge rtc'.bootTicks clock.tail
            (UInt32.le_refl _) (by omega) sorted'
            onTime isTail other member
          have shows := synced'.epoch
          rw [readAt] at shows
          omega
        · rw [if_neg resync] at readAt value
          have recent : t.toNat - rtc.bootTicks.toNat < 300 := by
            rw [OnTime] at timely
            omega
          have shows := synced.epoch
          have shows' := synced'.epoch
          have above := synced'.nowEpochs_ge t clock.tail
            (readAt ▸ later) (by rw [readAt]; exact recent) sorted.tail
            onTime isTail other member
          rw [readAt] at shows' above
          omega

end Clock

/-- The calls to `rtc_now_epoch` after `rtc_init` give results that never
fall and stay within a second of the CMOS clock exactly when all of them
are on time. -/
theorem rtcNowEpoch_run {cmosRead : UInt32 → UInt8 → UInt8}
    {start phase : Nat} {boot : UInt32} {calls : List UInt32}
    (clock : CmosClock cmosRead start phase (boot :: calls))
    (sorted : (boot :: calls).Pairwise (· ≤ ·)) :
    ∃ rtc epochs, Rtc.init (cmosRead boot) boot = some rtc ∧
      rtc.nowEpochs cmosRead calls = some epochs ∧
      ((epochs.Pairwise (· ≤ ·) ∧
          List.Forall₂ (NearCmos start phase) epochs calls) ↔
        AllOnTime phase boot calls) := by
  obtain ⟨rtc, isInit, readAt, synced⟩ := clock.init (.head _)
  subst readAt
  obtain ⟨epochs, called, right⟩ := synced.nowEpochs clock.tail sorted
  exact ⟨rtc, epochs, isInit, called, right⟩

/-- A CMOS clock that starts with the year 2026, for the first ten
seconds. -/
def sampleCmos (t : UInt32) (register : UInt8) : UInt8 :=
  if register = rtcSeconds then (t / 1000).toUInt8
  else if register = rtcDay ∨ register = rtcMonth then 1
  else if register = rtcYear then 0x26
  else if register = rtcStatusB then 0x02
  else 0

theorem sampleCmos_clock :
    CmosClock sampleCmos 1767225600 0 [0, 1000, 6000] := by
  have calls (t : UInt32) (member : t ∈ [(0 : UInt32), 1000, 6000]) :
      t = 0 ∨ t = 1000 ∨ t = 6000 := by
    simpa using member
  have each (t : UInt32) (member : t ∈ [(0 : UInt32), 1000, 6000]) :
      (rtcToEpoch (rtcRead (sampleCmos t))).map UInt32.toNat =
        some (1767225600 + (t.toNat + 0) / 1000) := by
    rcases calls t member with rfl | rfl | rfl <;> decide +kernel
  refine ⟨fun t member => ?_, fun t member =>
    Option.map_eq_some_iff.mp (each t member)⟩
  refine ⟨?_, ?_, ?_, ?_, ?_, ?_⟩ <;>
    rcases calls t member with rfl | rfl | rfl <;> decide

theorem sampleCmos_run :
    ∃ rtc epochs, Rtc.init (sampleCmos 0) 0 = some rtc ∧
      rtc.nowEpochs sampleCmos [1000, 6000] = some epochs ∧
      ((epochs.Pairwise (· ≤ ·) ∧
          List.Forall₂ (NearCmos 1767225600 0) epochs [1000, 6000]) ↔
        AllOnTime 0 0 [1000, 6000]) :=
  rtcNowEpoch_run sampleCmos_clock (by decide)

/-- One second after the boot the clock is nine seconds fast, and four
seconds later it has gone back by as many. -/
theorem sampleCmos_back :
    CmosClock sampleCmos 1767225600 0 [0, 1000, 6000] ∧
      ((Rtc.init (sampleCmos 0) 0).bind fun rtc =>
        rtc.nowEpochs sampleCmos [1000, 6000]) =
          some [1767225610, 1767225606] ∧
      ¬ NearCmos 1767225600 0 1767225610 1000 ∧
      ¬ [(1767225610 : UInt32), 1767225606].Pairwise (· ≤ ·) :=
  ⟨sampleCmos_clock, by decide +kernel, by decide, by decide⟩

end LoafOs
