import RadarTimeline.Console.Timestamp
import Mathlib.Algebra.BigOperators.Intervals
import Mathlib.Tactic.IntervalCases

namespace RadarTimeline.Console

/-- Every fourth year has a day more; of the years that end a century only every fourth has it. -/
def IsLeap (year : ℕ) : Prop := year % 4 = 0 ∧ (year % 100 ≠ 0 ∨ year % 400 = 0)

instance (year : ℕ) : Decidable (IsLeap year) := inferInstanceAs (Decidable (_ ∧ _))

def yearDays (year : ℕ) : ℕ := if IsLeap year then 366 else 365

def monthDays (year month : ℕ) : ℕ :=
  if month = 2 then (if IsLeap year then 29 else 28)
  else if month = 4 ∨ month = 6 ∨ month = 9 ∨ month = 11 then 30 else 31

/-- The calendar has a day of that year, month and number, not before 1970. -/
structure IsDate (year month day : ℕ) : Prop where
  since : 1970 ≤ year
  month_mem : 1 ≤ month ∧ month ≤ 12
  day_mem : 1 ≤ day ∧ day ≤ monthDays year month

instance (year month day : ℕ) : Decidable (IsDate year month day) :=
  decidable_of_iff (1970 ≤ year ∧ (1 ≤ month ∧ month ≤ 12) ∧ 1 ≤ day ∧ day ≤ monthDays year month)
    ⟨fun h => ⟨h.1, h.2.1, h.2.2⟩, fun h => ⟨h.since, h.month_mem, h.day_mem⟩⟩

/-- The days from the beginning of 1970 to a date: all of the years before it, of the months before
it in its year, and of the days before it in its month. -/
def daysBefore (year month day : ℕ) : ℕ :=
  ∑ y ∈ Finset.Ico 1970 year, yearDays y + ∑ m ∈ Finset.Ico 1 month, monthDays year m + (day - 1)

theorem sum_yearDays {year : ℕ} (h : 1970 ≤ year) :
    ∑ y ∈ Finset.Ico 1970 year, yearDays y + 719527 =
      365 * year + (year - 1) / 4 + (year - 1) / 400 - (year - 1) / 100 := by
  induction year, h using Nat.le_induction with
  | base => rfl
  | succ year h ih =>
    rw [Finset.sum_Ico_succ_top h, yearDays]
    split <;> rename_i hleap <;> unfold IsLeap at hleap <;> omega

theorem sum_monthDays {month : ℕ} (year : ℕ) (h : month < 10) :
    ∑ m ∈ Finset.Ico 1 (month + 3), monthDays year m =
      59 + (if IsLeap year then 1 else 0) + (153 * month + 2) / 5 := by
  by_cases hleap : IsLeap year <;> interval_cases month <;>
    simp [Finset.sum_Ico_succ_top, monthDays, hleap]

section Era

variable {k n : ℕ}

def yearStart (k : ℕ) : ℕ := 365 * k + k / 4 + k / 400 - k / 100

/-- The days of an era up to one of its days, without leap days. -/
def commonDays (n : ℕ) : ℕ := n - n / 1460 + n / 36524 - n / 146096

theorem commonDays_mono {m n : ℕ} (h : m ≤ n) : commonDays m ≤ commonDays n := by
  unfold commonDays
  omega

theorem commonDays_yearStart (hk : k < 400) :
    365 * k ≤ commonDays (yearStart k) ∧ commonDays (yearStart (k + 1) - 1) < 365 * (k + 1) := by
  revert k
  decide +kernel

theorem year_of_day (hn : n < 146097) :
    commonDays n / 365 < 400 ∧ yearStart (commonDays n / 365) ≤ n ∧
    n < yearStart (commonDays n / 365 + 1) := by
  have hlast : commonDays n ≤ commonDays 146096 := commonDays_mono (by omega)
  have hend : commonDays 146096 = 145999 := rfl
  have hk : commonDays n / 365 < 400 := by omega
  generalize hyear : commonDays n / 365 = k at hk ⊢
  obtain ⟨hstart, hstop⟩ := commonDays_yearStart hk
  refine ⟨hk, ?_, ?_⟩
  -- common days only grow, so a day outside of the year would not have the number of one of its
  -- days
  · by_contra hlt
    rcases k with _ | k
    · exact hlt (Nat.zero_le n)
    · have := commonDays_mono (show n ≤ yearStart (k + 1) - 1 by omega)
      have := (commonDays_yearStart (show k < 400 by omega)).2
      omega
  · by_contra hge
    rcases Nat.lt_or_ge (k + 1) 400 with hnext | hnext
    · have := commonDays_mono (show yearStart (k + 1) ≤ n by omega)
      have := (commonDays_yearStart hnext).1
      omega
    · obtain rfl : k = 399 := by omega
      have : yearStart (399 + 1) = 146097 := rfl
      omega

end Era

theorem ofDays_eq {days era n k d m : ℕ} (hdays : days + 719468 = era * 146097 + n)
    (hn : n < 146097)
    (hk : k = commonDays n / 365) (hd : n = yearStart k + d) (hm : m = (5 * d + 2) / 153)
    (hera : k < 400) :
    Date.ofDays days =
      ⟨(k + era * 400 + if m < 10 then 0 else 1 : ℕ), (if m < 10 then m + 3 else m - 9 : ℕ),
      (d - (153 * m + 2) / 5 + 1 : ℕ)⟩ := by
  have hshifted : ((days : ℤ) + 719468) / 146097 = era ∧ ((days : ℤ) + 719468) % 146097 = n := by
    omega
  have hyear : ((n : ℤ) - n / 1460 + n / 36524 - n / 146096) / 365 = k := by
    unfold commonDays at hk
    omega
  have hday : (n : ℤ) - (365 * k + k / 4 - k / 100) = d := by
    unfold yearStart at hd
    omega
  have hmonth : (5 * (d : ℤ) + 2) / 153 = m := by omega
  -- from here on only the months are left, which are counted from March
  unfold Date.ofDays
  simp only [hshifted.1, hshifted.2, hyear, hday, hmonth]
  rw [Date.mk.injEq]
  refine ⟨?_, ?_, by omega⟩ <;> split_ifs <;> omega

section Months

variable {days era k d m : ℕ}

theorem sum_yearDays_era (hk : k < 400) (hsince : 1970 ≤ k + era * 400) :
    ∑ y ∈ Finset.Ico 1970 (k + era * 400), yearDays y + 719527 + (if IsLeap (k + era * 400)
      then 1 else 0) = era * 146097 + yearStart k := by
  have hyears := sum_yearDays hsince
  generalize ∑ y ∈ Finset.Ico 1970 (k + era * 400), yearDays y = years at hyears ⊢
  unfold yearStart
  split <;> rename_i hleap <;> unfold IsLeap at hleap <;> omega

theorem sum_yearDays_next (hk : k < 400) (hsince : 1970 ≤ k + era * 400 + 1) :
    ∑ y ∈ Finset.Ico 1970 (k + era * 400 + 1), yearDays y + 719162 =
      era * 146097 + yearStart k := by
  have hyears := sum_yearDays hsince
  generalize ∑ y ∈ Finset.Ico 1970 (k + era * 400 + 1), yearDays y = years at hyears ⊢
  rw [Nat.add_sub_cancel] at hyears
  unfold yearStart
  omega

theorem isDate_fromMarch (hdays : days + 719468 = era * 146097 + (yearStart k + d)) (hk : k < 400)
    (hm : m = (5 * d + 2) / 153) (hlt : m < 10) :
    IsDate (k + era * 400) (m + 3) (d - (153 * m + 2) / 5 + 1) ∧
      daysBefore (k + era * 400) (m + 3) (d - (153 * m + 2) / 5 + 1) = days := by
  have hsince : 1970 ≤ k + era * 400 := by
    unfold yearStart at hdays
    omega
  have hmonth : d - (153 * m + 2) / 5 + 1 ≤ monthDays (k + era * 400) (m + 3) := by
    unfold monthDays
    interval_cases m <;> simp <;> omega
  refine ⟨⟨hsince, by omega, by omega, hmonth⟩, ?_⟩
  have hyears := sum_yearDays_era hk hsince
  unfold daysBefore
  rw [sum_monthDays _ hlt]
  clear hmonth
  omega

/-- January and February are in the year after that. -/
theorem isDate_beforeMarch (hdays : days + 719468 = era * 146097 + (yearStart k + d)) (hk : k < 400)
    (hstop : yearStart k + d < yearStart (k + 1)) (hm : m = (5 * d + 2) / 153) (hge : 10 ≤ m) :
    IsDate (k + era * 400 + 1) (m - 9) (d - (153 * m + 2) / 5 + 1) ∧
      daysBefore (k + era * 400 + 1) (m - 9) (d - (153 * m + 2) / 5 + 1) = days := by
  have hle : d ≤ 365 := by
    unfold yearStart at hstop
    omega
  have hleap : d = 365 → IsLeap (k + era * 400 + 1) := by
    unfold IsLeap
    unfold yearStart at hstop
    omega
  have hsince : 1970 ≤ k + era * 400 + 1 := by
    unfold yearStart at hdays
    omega
  have hyears := sum_yearDays_next hk hsince
  unfold daysBefore
  generalize ∑ y ∈ Finset.Ico 1970 (k + era * 400 + 1), yearDays y = years at hyears ⊢
  obtain rfl | rfl : m = 10 ∨ m = 11 := by omega
  · refine ⟨⟨hsince, by decide, by omega, ?_⟩, ?_⟩
    · change _ ≤ 31
      omega
    · change years + 0 + _ = _
      omega
  · refine ⟨⟨hsince, by decide, by omega, ?_⟩, ?_⟩
    · change _ ≤ if IsLeap _ then 29 else 28
      split
      · omega
      · have : d ≠ 365 := fun h => absurd (hleap h) ‹_›
        omega
    · change years + 31 + _ = _
      omega

end Months

/-- The date of a day is a date of the calendar, and that day is the one that it names. -/
theorem exists_ofDays (days : ℕ) : ∃ year month day : ℕ,
    Date.ofDays days = ⟨year, month, day⟩ ∧ IsDate year month day ∧
    daysBefore year month day = days := by
  obtain ⟨era, n, hdays, hn⟩ : ∃ era n, days + 719468 = era * 146097 + n ∧ n < 146097 :=
    ⟨(days + 719468) / 146097, (days + 719468) % 146097, by omega, by omega⟩
  obtain ⟨hera, hstart, hstop⟩ := year_of_day hn
  generalize hk : commonDays n / 365 = k at hera hstart hstop
  obtain ⟨d, rfl⟩ := Nat.exists_eq_add_of_le hstart
  obtain ⟨m, hm⟩ : ∃ m, m = (5 * d + 2) / 153 := ⟨_, rfl⟩
  refine ⟨_, _, _, ofDays_eq hdays hn hk.symm rfl hm hera, ?_⟩
  rcases Nat.lt_or_ge m 10 with hlt | hge
  · rw [if_pos hlt, if_pos hlt]
    exact isDate_fromMarch hdays hera hm hlt
  · rw [if_neg hge.not_gt, if_neg hge.not_gt]
    exact isDate_beforeMarch hdays hera hstop hm hge

example : Date.ofDays 11016 = ⟨2000, 2, 29⟩ := by decide

end RadarTimeline.Console
