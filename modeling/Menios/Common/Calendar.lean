import Mathlib

/-!
# The Gregorian calendar

Dates, their number counted from 1970-01-01, and the count by years that begin in
March, in which the leap day is the last day of its year.

Results:

* `dayNumber_eq`: the number of a date from its March year and the day in it.
* `yearOfEra_eq`: the year of a 400-year era from the day in the era.
-/

namespace Menios.Common
open List Nat

/-- A leap year. -/
def IsLeap (y : ℕ) : Prop := y % 4 = 0 ∧ (y % 100 ≠ 0 ∨ y % 400 = 0)

instance (y : ℕ) : Decidable (IsLeap y) := inferInstanceAs (Decidable (_ ∧ _))

def yearLength (y : ℕ) : ℕ := if IsLeap y then 366 else 365

def monthLength (y : ℕ) : ℕ → ℕ
  | 2 => if IsLeap y then 29 else 28
  | 4 | 6 | 9 | 11 => 30
  | _ => 31

/-- Day `d` of month `m` of year `y` exists. -/
structure IsDate (y m d : ℕ) : Prop where
  month : 1 ≤ m ∧ m ≤ 12
  day : 1 ≤ d ∧ d ≤ monthLength y m

lemma IsDate.day_le {y m d : ℕ} (h : IsDate y m d) : 1 ≤ d ∧ d ≤ 31 := by
  refine ⟨h.day.1, h.day.2.trans ?_⟩
  rw [monthLength.eq_def]
  split
  · split_ifs <;> decide
  all_goals decide

/-- The days before a date: whole years, whole months, days. -/
def daysBefore (y m d : ℕ) : ℕ :=
  ((List.range y).map yearLength).sum + ((List.range' 1 (m - 1)).map (monthLength y)).sum + (d - 1)

/-- The number of a date, counted from 1970-01-01. -/
def dayNumber (y m d : ℕ) : ℤ := (daysBefore y m d : ℤ) - daysBefore 1970 1 1

lemma leap_days (y : ℕ) : y / 4 + (y + 1) / 100 + y / 400 + (if IsLeap (y + 1) then 1 else 0) =
    (y + 1) / 4 + y / 100 + (y + 1) / 400 := by
  rw [Nat.succ_div, Nat.succ_div, Nat.succ_div]
  have : (400 ∣ y + 1 → 100 ∣ y + 1) ∧ (100 ∣ y + 1 → 4 ∣ y + 1) :=
    ⟨Nat.dvd_trans (by decide), Nat.dvd_trans (by decide)⟩
  simp only [IsLeap, ← dvd_iff_mod_eq_zero, ne_eq]
  by_cases h4 : 4 ∣ y + 1 <;> by_cases h100 : 100 ∣ y + 1 <;> by_cases h400 : 400 ∣ y + 1 <;>
    simp_all <;> omega

lemma sum_yearLength (y : ℕ) :
    ((List.range (y + 1)).map yearLength).sum + y / 100 = 365 * (y + 1) + y / 4 + y / 400 + 1 := by
  induction y with
  | zero => rfl
  | succ y ih =>
    rw [range_succ, map_append, List.sum_append, map_singleton, sum_singleton, yearLength]
    have hle := leap_days y
    generalize y / 4 = a, y / 100 = b, y / 400 = c, (y + 1) / 4 = a', (y + 1) / 100 = b',
      (y + 1) / 400 = c' at *
    split_ifs at hle ⊢ <;> omega

lemma sum_monthLength {y m : ℕ} (hm : 1 ≤ m ∧ m ≤ 12) :
    ((List.range' 1 (m - 1)).map (monthLength y)).sum =
      if m ≤ 2 then 31 * (m - 1) else (153 * (m - 3) + 2) / 5 + 59 + if IsLeap y then 1 else 0 := by
  obtain ⟨hm, hm'⟩ := hm
  by_cases hle : IsLeap y <;> interval_cases m <;> simp [List.range', monthLength, hle]

/-- Years counted by eras of 400. -/
lemma era_days (Y : ℕ) : Y / 400 * 146097 + (Y % 400 * 365 + Y % 400 / 4 - Y % 400 / 100) + Y / 100 =
    365 * Y + Y / 4 + Y / 400 := by
  have hf : Y / 4 = 100 * (Y / 400) + Y % 400 / 4 := by omega
  have hc : Y / 100 = 4 * (Y / 400) + Y % 400 / 100 := by omega
  have := div_add_mod Y 400
  rw [hf, hc]
  generalize Y / 400 = a, Y % 400 / 4 = b, Y % 400 / 100 = c, Y % 400 = d at *
  omega

/-- The year that begins in March of a date in month `m`. -/
def marchYear (y m : ℕ) : ℕ := if m ≤ 2 then y - 1 else y

/-- The day in the March year: months have 153 days in five. -/
def dayOfMarchYear (m d : ℕ) : ℕ := (153 * (if m ≤ 2 then m + 9 else m - 3) + 2) / 5 + d - 1

/-- Only the year that ends with a leap day has a day 365. -/
lemma dayOfMarchYear_le {y m d : ℕ} (h : IsDate y m d) (hy : 1 ≤ y) :
    dayOfMarchYear m d ≤ 365 ∧ (dayOfMarchYear m d = 365 → marchYear y m % 4 = 3 ∧
      (marchYear y m % 100 = 99 → marchYear y m % 400 = 399)) := by
  obtain ⟨⟨hm, hm'⟩, hd, hd'⟩ := h
  rw [dayOfMarchYear, marchYear]
  interval_cases m <;> simp only [monthLength] at hd' <;> simp <;> try omega
  split_ifs at hd' with hle
  · rw [IsLeap] at hle
    omega
  · omega

/-- Whole eras, whole March years and days. -/
theorem dayNumber_eq {y m d : ℕ} (h : IsDate y m d) (hy : 1 ≤ y) :
    dayNumber y m d = ((marchYear y m / 400 : ℕ) : ℤ) * 146097 +
      ((marchYear y m % 400 * 365 + marchYear y m % 400 / 4 - marchYear y m % 400 / 100 +
        dayOfMarchYear m d : ℕ) : ℤ) - 719468 := by
  obtain ⟨Y, rfl⟩ : ∃ Y, y = Y + 1 := ⟨y - 1, by omega⟩
  have hye := sum_yearLength Y
  have hmo := sum_monthLength (y := Y + 1) h.month
  have := h.day.1
  have := h.month.1
  have hb : daysBefore 1970 1 1 = 719528 := by
    have : ((List.range 1970).map yearLength).sum + 1969 / 100 = _ := sum_yearLength 1969
    rw [daysBefore, range'_zero, map_nil, sum_nil]
    omega
  rw [dayNumber, hb, daysBefore, marchYear, dayOfMarchYear]
  generalize ((List.range (Y + 1)).map yearLength).sum = years at hye ⊢
  generalize ((List.range' 1 (m - 1)).map (monthLength (Y + 1))).sum = months at hmo ⊢
  by_cases hm : m ≤ 2
  · simp only [if_pos hm, Nat.add_sub_cancel] at hmo ⊢
    have he := era_days Y
    generalize Y % 400 * 365 + Y % 400 / 4 - Y % 400 / 100 = e, Y / 400 = a, Y / 100 = b, Y / 4 = c at *
    omega
  simp only [if_neg hm] at hmo ⊢
  have he := era_days (Y + 1)
  have := leap_days Y
  generalize (Y + 1) % 400 * 365 + (Y + 1) % 400 / 4 - (Y + 1) % 400 / 100 = e, Y / 400 = a, Y / 100 = b,
    Y / 4 = c, (Y + 1) / 4 = c', (Y + 1) / 100 = b', (Y + 1) / 400 = a',
    (if IsLeap (Y + 1) then 1 else 0) = leap at *
  omega

/-- The day of an era gives back its year: of every 1460 days the formula drops one, and
gives one back every 36524 days. -/
theorem yearOfEra_eq {y dy d : ℕ} (hyoe : y < 400) (hdoy : dy ≤ 365)
    (hl : dy = 365 → y % 4 = 3 ∧ (y % 100 = 99 → y = 399))
    (hdoe : d = y * 365 + y / 4 - y / 100 + dy) :
    (d - d / 1460 + d / 36524 - d / 146096) / 365 = y := by
  obtain ⟨c, q, r, hr, hq, rfl⟩ : ∃ c q r, r < 4 ∧ q < 25 ∧ y = 100 * c + 4 * q + r :=
    ⟨y / 100, y % 100 / 4, y % 4, by omega, by omega, by omega⟩
  have hdiv : (100 * c + 4 * q + r) / 100 = c ∧ (100 * c + 4 * q + r) / 4 = 25 * c + q := by
    clear hdoe hl
    omega
  have hmod : (100 * c + 4 * q + r) % 100 = 4 * q + r ∧ (100 * c + 4 * q + r) % 4 = r := by
    clear hdoe hl
    omega
  rw [hmod.1, hmod.2] at hl
  rw [hdiv.1, hdiv.2] at hdoe
  clear hdiv hmod
  have hce : d / 36524 = c + d / 146096 := by
    obtain hlt | ⟨he, hc⟩ : 1461 * q + 365 * r + dy < 36524 ∨
        1461 * q + 365 * r + dy = 36524 ∧ c = 3 := by omega
    · rw [show d = 36524 * c + (1461 * q + 365 * r + dy) by omega, mul_add_div (by decide),
        div_eq_of_lt hlt, div_eq_of_lt (by omega), Nat.add_zero]
    · rw [show d = 146096 by omega, hc]
  have hf : d / 1460 = 25 * c + q + (24 * c + q + 365 * r + dy) / 1460 := by
    rw [show d = 1460 * (25 * c + q) + (24 * c + q + 365 * r + dy) by omega, mul_add_div (by decide)]
  have hy : d - d / 1460 + d / 36524 - d / 146096 =
      365 * (100 * c + 4 * q + r) + (dy - (24 * c + q + 365 * r + dy) / 1460) := by
    rw [hce, hf]
    generalize d / 146096 = last
    clear hce hf
    omega
  rw [hy, mul_add_div (by decide), div_eq_of_lt, Nat.add_zero]
  clear hy hce hf hdoe
  omega
end Menios.Common
