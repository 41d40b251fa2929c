import Mathlib.Tactic.Common

/-!
# The Gregorian calendar

The forward rule: the lengths of years and months, and the days from 1 January 1970 to a date by
adding them up. A year of the computation with eras starts in March, so that a leap day is its last.
-/

namespace Rax

def isLeap (y : Nat) : Bool := y % 4 = 0 ∧ (y % 100 ≠ 0 ∨ y % 400 = 0)

def daysInMonth (y m : Nat) : Nat :=
  if m = 2 then if isLeap y then 29 else 28
  else if m = 4 ∨ m = 6 ∨ m = 9 ∨ m = 11 then 30
  else 31

/-- The days of the first months of a year. -/
def daysOfMonths (y : Nat) : Nat → Nat
  | 0 => 0
  | m + 1 => daysOfMonths y m + daysInMonth y (m + 1)

/-- The days of the first years from 1970 on. -/
def daysOfYears : Nat → Nat
  | 0 => 0
  | n + 1 => daysOfYears n + if isLeap (1970 + n) then 366 else 365

/-- Days from 1 January 1970 to a date. -/
def dayCount (y m d : Nat) : Nat := daysOfYears (y - 1970) + daysOfMonths y (m - 1) + (d - 1)

structure ValidDate (y m d : Nat) : Prop where
  year : 1970 ≤ y
  month : 1 ≤ m ∧ m ≤ 12
  day : 1 ≤ d ∧ d ≤ daysInMonth y m

/-! ## Years in closed form -/

theorem isLeap_iff (y : Nat) : isLeap y = true ↔ y % 4 = 0 ∧ (y % 100 ≠ 0 ∨ y % 400 = 0) :=
  decide_eq_true_iff

/-- Days from the start of March of year 0 to March of a year. -/
def daysToMarch (y : Nat) : Nat := 365 * y + y / 4 - y / 100 + y / 400

theorem leap_day (y : Nat) :
    daysToMarch (y + 1) = daysToMarch y + if isLeap (y + 1) then 366 else 365 := by
  have h4 : (y + 1) / 4 = y / 4 + if (y + 1) % 4 = 0 then 1 else 0 := by split <;> omega
  have h100 : (y + 1) / 100 = y / 100 + if (y + 1) % 100 = 0 then 1 else 0 := by split <;> omega
  have h400 : (y + 1) / 400 = y / 400 + if (y + 1) % 400 = 0 then 1 else 0 := by split <;> omega
  have hcentury : (y + 1) % 400 = 0 → (y + 1) % 100 = 0 := by omega
  have hfourth : (y + 1) % 100 = 0 → (y + 1) % 4 = 0 := by omega
  have hle : y / 100 ≤ y := Nat.div_le_self y 100
  simp only [daysToMarch, h4, h100, h400, isLeap_iff]
  generalize y / 4 = a, y / 100 = b, y / 400 = c at hle ⊢
  generalize (y + 1) % 4 = r, (y + 1) % 100 = s, (y + 1) % 400 = u at hcentury hfourth ⊢
  split_ifs <;> omega

theorem daysOfYears_eq (n : Nat) : daysOfYears n + 719527 = daysToMarch (1969 + n) + 365 := by
  induction n with
  | zero => rfl
  | succ n ih =>
    have hstep := leap_day (1969 + n)
    rw [show 1969 + n + 1 = 1970 + n by omega] at hstep
    rw [daysOfYears, show 1969 + (n + 1) = 1970 + n by omega, hstep]
    omega

theorem daysToMarch_mono {y z : Nat} (h : y ≤ z) : daysToMarch y ≤ daysToMarch z := by
  induction z with
  | zero => exact Nat.le_of_eq (congrArg _ (Nat.le_zero.mp h))
  | succ z ih =>
    rcases Nat.eq_or_lt_of_le h with rfl | hlt
    · exact Nat.le_refl _
    · rw [leap_day]
      exact Nat.le_trans (ih (by omega)) (Nat.le_add_right _ _)

/-! ## A year from March on -/

theorem daysInMonth_congr {y z : Nat} (h : isLeap y = isLeap z) (m : Nat) :
    daysInMonth y m = daysInMonth z m := by
  rw [daysInMonth, daysInMonth, h]

theorem daysOfMonths_congr {y z : Nat} (h : isLeap y = isLeap z) (m : Nat) :
    daysOfMonths y m = daysOfMonths z m := by
  induction m with
  | zero => rfl
  | succ m ih => rw [daysOfMonths, daysOfMonths, ih, daysInMonth_congr h]

/-- The month of a day counted from 1 March, with March as month 0. -/
def marchMonth (doy : Nat) : Nat := (5 * doy + 2) / 153

def marchDay (doy : Nat) : Nat := doy - (153 * marchMonth doy + 2) / 5 + 1

/-- A year of each length. -/
def sampleYear (leap : Bool) : Nat := if leap then 2000 else 2001

theorem isLeap_sampleYear (leap : Bool) : isLeap (sampleYear leap) = leap := by
  cases leap <;> decide

/-- From March to December the leap day is among the days before. -/
theorem march_to_december (y : Nat) {doy : Nat} (h : doy < 306) :
    marchMonth doy < 10 ∧ 1 ≤ marchDay doy ∧
      marchDay doy ≤ daysInMonth y (marchMonth doy + 3) ∧
      daysOfMonths y (marchMonth doy + 2) + (marchDay doy - 1) =
        59 + doy + if isLeap y then 1 else 0 := by
  have hall : ∀ leap : Bool, ∀ doy < 306, marchMonth doy < 10 ∧ 1 ≤ marchDay doy ∧
      marchDay doy ≤ daysInMonth (sampleYear leap) (marchMonth doy + 3) ∧
      daysOfMonths (sampleYear leap) (marchMonth doy + 2) + (marchDay doy - 1) =
        59 + doy + if leap then 1 else 0 := by
    intro leap
    cases leap <;> decide +kernel
  have hsame := isLeap_sampleYear (isLeap y)
  rw [← daysInMonth_congr hsame, ← daysOfMonths_congr hsame]
  exact hall _ doy h

/-- January and February belong to the next year, the leap day if it has one. -/
theorem january_to_february (y : Nat) {doy : Nat} (hlow : 306 ≤ doy)
    (hhigh : doy < if isLeap y then 366 else 365) :
    10 ≤ marchMonth doy ∧ marchMonth doy < 12 ∧ 1 ≤ marchDay doy ∧
      marchDay doy ≤ daysInMonth y (marchMonth doy - 9) ∧
      daysOfMonths y (marchMonth doy - 9 - 1) + (marchDay doy - 1) = doy - 306 := by
  have hall : ∀ leap : Bool, ∀ doy < 366, 306 ≤ doy → (doy < if leap then 366 else 365) →
      10 ≤ marchMonth doy ∧ marchMonth doy < 12 ∧ 1 ≤ marchDay doy ∧
        marchDay doy ≤ daysInMonth (sampleYear leap) (marchMonth doy - 9) ∧
        daysOfMonths (sampleYear leap) (marchMonth doy - 9 - 1) + (marchDay doy - 1) =
          doy - 306 := by
    intro leap
    cases leap <;> decide +kernel
  have hsame := isLeap_sampleYear (isLeap y)
  rw [← daysInMonth_congr hsame, ← daysOfMonths_congr hsame]
  have hbound : doy < 366 := by split at hhigh <;> omega
  exact hall _ doy hbound hlow hhigh

/-! ## Eras of 400 years -/

/-- Days before a year of an era. -/
def daysInEra (k : Nat) : Nat := 365 * k + k / 4 - k / 100

/-- Days of an era without the leap days, up to rounding. -/
def withoutLeapDays (doe : Nat) : Nat := doe - doe / 1460 + doe / 36524 - doe / 146096

theorem withoutLeapDays_mono {a b : Nat} (h : a ≤ b) : withoutLeapDays a ≤ withoutLeapDays b := by
  have hfour : a / 1460 + (b - a) ≥ b / 1460 := by omega
  have hcentury : a / 36524 ≤ b / 36524 := Nat.div_le_div_right h
  have hera (x : Nat) : x / 146096 = x / 36524 / 4 := by rw [Nat.div_div_eq_div_mul]
  have hle (x : Nat) : x / 1460 ≤ x := Nat.div_le_self x 1460
  have hlea := hle a
  have hleb := hle b
  simp only [withoutLeapDays, hera]
  omega

theorem yearOfEra {doe : Nat} (h : doe < 146097) :
    withoutLeapDays doe / 365 < 400 ∧ daysInEra (withoutLeapDays doe / 365) ≤ doe ∧
      (withoutLeapDays doe / 365 < 399 → doe < daysInEra (withoutLeapDays doe / 365 + 1)) := by
  have hstart : ∀ k < 400, 365 * k ≤ withoutLeapDays (daysInEra k) := by decide +kernel
  have hbefore : ∀ k < 400, k ≠ 0 → withoutLeapDays (daysInEra k - 1) < 365 * k := by
    decide +kernel
  have hlast : withoutLeapDays doe ≤ withoutLeapDays 146096 := withoutLeapDays_mono (by omega)
  have htop : withoutLeapDays 146096 < 365 * 400 := by decide
  have hyear : withoutLeapDays doe / 365 < 400 := by omega
  refine ⟨hyear, ?_, fun hk => ?_⟩
  · by_contra hlt
    have hmono := withoutLeapDays_mono (a := doe) (b := daysInEra (withoutLeapDays doe / 365) - 1)
      (by omega)
    have hzero : withoutLeapDays doe / 365 ≠ 0 := by
      intro hzero
      rw [hzero] at hlt
      exact hlt (Nat.zero_le _)
    have := hbefore _ hyear hzero
    omega
  · by_contra hge
    have hmono := withoutLeapDays_mono (Nat.le_of_not_lt hge)
    have := hstart (withoutLeapDays doe / 365 + 1) (by omega)
    omega

theorem daysToMarch_era (era : Nat) {k : Nat} (hk : k < 400) :
    daysToMarch (k + era * 400) = era * 146097 + daysInEra k := by
  have h4 : (k + era * 400) / 4 = k / 4 + era * 100 := by omega
  have h100 : (k + era * 400) / 100 = k / 100 + era * 4 := by omega
  have h400 : (k + era * 400) / 400 = era := by omega
  have hle : k / 100 ≤ k := Nat.div_le_self k 100
  rw [daysToMarch, daysInEra, h4, h100, h400]
  omega

end Rax
