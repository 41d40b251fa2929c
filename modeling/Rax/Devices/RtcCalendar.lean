import Rax.Devices.Rtc
import Rax.Lib.Calendar

/-!
# The date of a time stamp

The clock breaks a time stamp into a date by a closed formula over eras of 400 years. The date it
gives is the one whose days, counted forward from 1970, are those of the time stamp.
-/

namespace Rax.Devices.Rtc

def era (days : Nat) : Nat := (days + 719468) / 146097

def dayOfEra (days : Nat) : Nat := days + 719468 - era days * 146097

/-- The year that starts in March. -/
def marchYear (days : Nat) : Nat := withoutLeapDays (dayOfEra days) / 365 + era days * 400

def dayOfYear (days : Nat) : Nat :=
  dayOfEra days - daysInEra (withoutLeapDays (dayOfEra days) / 365)

def month (days : Nat) : Nat :=
  if marchMonth (dayOfYear days) < 10 then marchMonth (dayOfYear days) + 3
  else marchMonth (dayOfYear days) - 9

def year (days : Nat) : Nat := marchYear days + if month days ≤ 2 then 1 else 0

theorem fromUnixSeconds_eq (secs : Nat) :
    fromUnixSeconds secs =
      { second := BitVec.ofNat 8 (secs % 86400 % 60)
        minute := BitVec.ofNat 8 (secs % 86400 % 3600 / 60)
        hour := BitVec.ofNat 8 (secs % 86400 / 3600)
        dayOfWeek := BitVec.ofNat 8 (((secs / 86400 % 7 + 4) % 7 + 7) % 7) + 1
        dayOfMonth := BitVec.ofNat 8 (marchDay (dayOfYear (secs / 86400)))
        month := BitVec.ofNat 8 (month (secs / 86400))
        year := BitVec.ofNat 16 (year (secs / 86400)) } := rfl

/-- A day is in its year from March on. -/
theorem daysToMarch_marchYear (days : Nat) :
    daysToMarch (marchYear days) + dayOfYear days = days + 719468 ∧
      dayOfYear days < if isLeap (marchYear days + 1) then 366 else 365 := by
  have hmod : dayOfEra days < 146097 := by
    simp only [dayOfEra, era]
    omega
  have hsplit : era days * 146097 + dayOfEra days = days + 719468 := by
    simp only [dayOfEra, era]
    omega
  obtain ⟨hlt, hstart, hnext⟩ := yearOfEra hmod
  have hthis := daysToMarch_era (era days) hlt
  have hlength := leap_day (marchYear days)
  have hend : days + 719468 < daysToMarch (marchYear days + 1) := by
    by_cases hlast : withoutLeapDays (dayOfEra days) / 365 < 399
    · have hthat := daysToMarch_era (era days)
        (show withoutLeapDays (dayOfEra days) / 365 + 1 < 400 by omega)
      rw [marchYear, Nat.add_right_comm, hthat]
      have := hnext hlast
      omega
    · have hthat := daysToMarch_era (era days + 1) (show 0 < 400 by decide)
      have hzero : daysInEra 0 = 0 := rfl
      rw [marchYear, show withoutLeapDays (dayOfEra days) / 365 + era days * 400 + 1 =
        0 + (era days + 1) * 400 by omega, hthat]
      omega
  have hyear : daysToMarch (marchYear days) =
      era days * 146097 + daysInEra (withoutLeapDays (dayOfEra days) / 365) := hthis
  have hday : dayOfYear days + daysInEra (withoutLeapDays (dayOfEra days) / 365) =
      dayOfEra days := Nat.sub_add_cancel hstart
  constructor <;> omega

theorem daysOfYears_from_march {y : Nat} (h : 1970 ≤ y) :
    daysOfYears (y - 1970) + 719527 + (if isLeap y then 1 else 0) = daysToMarch y := by
  have hcount := daysOfYears_eq (y - 1970)
  have hlength := leap_day (y - 1)
  rw [show y - 1 + 1 = y by omega] at hlength
  rw [show 1969 + (y - 1970) = y - 1 by omega] at hcount
  rw [hlength]
  split <;> rename_i hleap <;> simp only [hleap, if_true, if_false, Bool.false_eq_true] at * <;> omega

/-- The date is a date of the calendar, and its days from 1970 are the days of the time stamp. -/
theorem validDate (days : Nat) :
    ValidDate (year days) (month days) (marchDay (dayOfYear days)) ∧
      dayCount (year days) (month days) (marchDay (dayOfYear days)) = days := by
  obtain ⟨hsum, hlength⟩ := daysToMarch_marchYear days
  have h1969 : daysToMarch 1969 = 719162 := rfl
  by_cases hdoy : dayOfYear days < 306
  · obtain ⟨hmonth, hlow, hhigh, hbefore⟩ := march_to_december (marchYear days) hdoy
    have hm : month days = marchMonth (dayOfYear days) + 3 := if_pos hmonth
    have hy : year days = marchYear days := by
      rw [year, hm, if_neg (by omega), Nat.add_zero]
    have hfrom : 1970 ≤ marchYear days := by
      by_contra hlt
      have := daysToMarch_mono (show marchYear days ≤ 1969 by omega)
      omega
    have hyears := daysOfYears_from_march hfrom
    rw [hy, hm]
    refine ⟨⟨hfrom, by omega, hlow, hhigh⟩, ?_⟩
    rw [dayCount, show marchMonth (dayOfYear days) + 3 - 1 = marchMonth (dayOfYear days) + 2 by omega]
    omega
  · obtain ⟨hmonth, htop, hlow, hhigh, hbefore⟩ :=
      january_to_february (marchYear days + 1) (by omega) hlength
    have hm : month days = marchMonth (dayOfYear days) - 9 := if_neg (by omega)
    have hy : year days = marchYear days + 1 := by
      rw [year, hm, if_pos (by omega)]
    have hnext := leap_day (marchYear days)
    have hfrom : 1970 ≤ marchYear days + 1 := by
      by_contra hlt
      have := daysToMarch_mono (show marchYear days + 1 ≤ 1969 by omega)
      omega
    have hyears := daysOfYears_from_march hfrom
    rw [hy, hm]
    refine ⟨⟨hfrom, by omega, hlow, hhigh⟩, ?_⟩
    rw [dayCount]
    split at hyears <;> rename_i hleap <;>
      simp only [hleap, if_true, if_false, Bool.false_eq_true] at hnext <;> omega

theorem dayCount_first (y : Nat) : dayCount y 1 1 = daysOfYears (y - 1970) := by
  rw [dayCount, Nat.sub_self, daysOfMonths, Nat.add_zero]

/-- A day before the year 65536 has a year of 16 bits. -/
theorem year_lt {days : Nat} (h : days < dayCount 65536 1 1) : year days < 65536 := by
  obtain ⟨hvalid, hcount⟩ := validDate days
  by_contra hge
  have hbound := daysOfYears_eq (65536 - 1970)
  have hdate := daysOfYears_eq (year days - 1970)
  have hmono := daysToMarch_mono (show 1969 + (65536 - 1970) ≤ 1969 + (year days - 1970) by omega)
  have hyears : daysOfYears (year days - 1970) ≤ days := by
    rw [dayCount] at hcount
    omega
  rw [dayCount_first] at h
  omega

/-- A broken-down time is a date and a time of day. -/
structure Civil (t : DateTime) (secs : Nat) : Prop where
  date : ValidDate t.year.toNat t.month.toNat t.dayOfMonth.toNat
  days : dayCount t.year.toNat t.month.toNat t.dayOfMonth.toNat = secs / 86400
  hour : t.hour.toNat < 24
  minute : t.minute.toNat < 60
  second : t.second.toNat < 60
  time : (t.hour.toNat * 60 + t.minute.toNat) * 60 + t.second.toNat = secs % 86400
  /-- Sunday is 1; the first day was a Thursday. -/
  weekday : t.dayOfWeek.toNat = (secs / 86400 + 4) % 7 + 1

/-- A time stamp of a year up to 65535 is broken into the date and time it stands for. -/
theorem fromUnixSeconds_civil {secs : Nat} (h : secs / 86400 < dayCount 65536 1 1) :
    Civil (fromUnixSeconds secs) secs := by
  obtain ⟨hvalid, hcount⟩ := validDate (secs / 86400)
  have hmonth := hvalid.month.2
  have hday : marchDay (dayOfYear (secs / 86400)) ≤ 31 := by
    refine Nat.le_trans hvalid.day.2 ?_
    rw [daysInMonth]
    split_ifs <;> omega
  have hyear := year_lt h
  have hy : (fromUnixSeconds secs).year.toNat = year (secs / 86400) := by
    rw [fromUnixSeconds_eq, BitVec.toNat_ofNat, Nat.mod_eq_of_lt (by omega)]
  have hm : (fromUnixSeconds secs).month.toNat = month (secs / 86400) := by
    rw [fromUnixSeconds_eq, BitVec.toNat_ofNat, Nat.mod_eq_of_lt (by omega)]
  have hd : (fromUnixSeconds secs).dayOfMonth.toNat = marchDay (dayOfYear (secs / 86400)) := by
    rw [fromUnixSeconds_eq, BitVec.toNat_ofNat, Nat.mod_eq_of_lt (by omega)]
  have hhour : (fromUnixSeconds secs).hour.toNat = secs % 86400 / 3600 := by
    rw [fromUnixSeconds_eq, BitVec.toNat_ofNat, Nat.mod_eq_of_lt (by omega)]
  have hminute : (fromUnixSeconds secs).minute.toNat = secs % 86400 % 3600 / 60 := by
    rw [fromUnixSeconds_eq, BitVec.toNat_ofNat, Nat.mod_eq_of_lt (by omega)]
  have hsecond : (fromUnixSeconds secs).second.toNat = secs % 86400 % 60 := by
    rw [fromUnixSeconds_eq, BitVec.toNat_ofNat, Nat.mod_eq_of_lt (by omega)]
  have hweekday : (fromUnixSeconds secs).dayOfWeek.toNat = (secs / 86400 + 4) % 7 + 1 := by
    rw [fromUnixSeconds_eq]
    have hone : (1 : Byte).toNat = 1 := rfl
    rw [BitVec.toNat_add, BitVec.toNat_ofNat, hone]
    omega
  constructor
  · rw [hy, hm, hd]
    exact hvalid
  · rw [hy, hm, hd]
    exact hcount
  all_goals omega

/-- The leap day of 2024 was a Thursday. -/
theorem fromUnixSeconds_civil_leapDay :
    1709210096 / 86400 < dayCount 65536 1 1 ∧ Civil (fromUnixSeconds 1709210096) 1709210096 ∧
      fromUnixSeconds 1709210096 = ⟨56, 34, 12, 5, 29, 2, 2024⟩ := by
  have hlast : 1709210096 / 86400 < dayCount 65536 1 1 := by
    have hcount := daysOfYears_eq (65536 - 1970)
    have hmarch : daysToMarch (1969 + (65536 - 1970)) = 23936166 := by decide
    rw [dayCount_first]
    omega
  exact ⟨hlast, fromUnixSeconds_civil hlast, by decide +kernel⟩

end Rax.Devices.Rtc
