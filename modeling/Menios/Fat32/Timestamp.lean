import Menios.Common.Calendar

/-!
# FAT32 timestamps (`src/kernel/fs/fat32/fat32.c`)

The conversions between a `struct timespec` and the date, time and tenths fields of a
directory entry (lines 1251-1456).  The pointer arguments are never `NULL` where the
functions are called and are left out.  Years, days and seconds are `ℤ`, with the
truncating division of C; the unsigned fields are `ℕ`.

Results:

* `daysFromCivil_eq`, `civilFromDays_dayNumber`: the two functions count the days of the
  calendar and are inverse.
* `fat_timestamps_roundTrip`: decoding what was encoded gives the time rounded down to
  10 ms or, without tenths, to two seconds; encoding what was decoded gives the fields.
-/

namespace Menios.Fat32
open Common Nat

/-- `struct timespec`. -/
structure Timespec where
  sec : ℤ
  nsec : ℤ
deriving DecidableEq, Repr

/-- `fat32_days_from_civil` (lines 1251-1258). -/
def daysFromCivil (year : ℤ) (month day : ℕ) : ℤ :=
  let year := year - if month ≤ 2 then 1 else 0
  let era := if year ≥ 0 then year.tdiv 400 else (year - 399).tdiv 400
  let yoe := (year - era * 400).toNat
  let doy := (153 * (if month > 2 then month - 3 else month + 9) + 2) / 5 + day - 1
  let doe := yoe * 365 + yoe / 4 - yoe / 100 + doy
  era * 146097 + doe - 719468

/-- `fat32_civil_from_days` (lines 1260-1287). -/
def civilFromDays (z : ℤ) : ℤ × ℕ × ℕ :=
  let z := z + 719468
  let era := (if z ≥ 0 then z else z - 146096).tdiv 146097
  let doe := (z - era * 146097).toNat
  let yoe := (doe - doe / 1460 + doe / 36524 - doe / 146096) / 365
  let y := (yoe : ℤ) + era * 400
  let doy := doe - (365 * yoe + yoe / 4 - yoe / 100)
  let mp := (5 * doy + 2) / 153
  let d := doy - (153 * mp + 2) / 5 + 1
  let m := if mp < 10 then mp + 3 else mp - 9
  (if m ≤ 2 then y + 1 else y, m, d)

/-- `fat32_timespec_to_fat_date` (lines 1289-1325). -/
def timespecToFatDate (ts : Timespec) : ℕ :=
  let days := if ts.sec.tmod 86400 < 0 then ts.sec.tdiv 86400 - 1 else ts.sec.tdiv 86400
  let (year, month, day) := civilFromDays days
  let (year, month, day) :=
    if year < 1980 then (1980, 1, 1) else if year > 2107 then (2107, 12, 31) else (year, month, day)
  let month := if month = 0 then 1 else month
  let day := if day = 0 then 1 else day
  (((year - 1980).toNat &&& 0x7F) <<< 9 ||| (month &&& 0x0F) <<< 5 ||| (day &&& 0x1F)) % 2 ^ 16

/-- `fat32_timespec_to_fat_time` (lines 1327-1376): the time and the tenths. -/
def timespecToFatTime (ts : Timespec) : ℕ × ℕ :=
  let rem := ts.sec.tmod 86400
  let rem := (if rem < 0 then rem + 86400 else rem).toNat
  let hour := min (rem / 3600) 23
  let minute := min (rem % 3600 / 60) 59
  let second := min (rem % 3600 % 60) 59
  let baseSeconds := min (second / 2) 29
  let hundredths := min (ts.nsec % 2 ^ 64 / 10000000 % 2 ^ 32).toNat 99
  let value := min ((second &&& 1) * 100 + hundredths) 199
  ((hour <<< 11 ||| minute <<< 5 ||| baseSeconds) % 2 ^ 16, value % 2 ^ 8)

/-- `fat32_datetime_to_timespec` (lines 1386-1456). -/
def datetimeToTimespec (date time tenths : ℕ) (hasTime : Bool) : Option Timespec :=
  if date = 0 then none else
  let day := date &&& 0x1F
  let month := date >>> 5 &&& 0x0F
  let yearField := date >>> 9 &&& 0x7F
  if day = 0 ∨ month = 0 then none else
  let year : ℤ := yearField + 1980
  let year := if year < 1980 then 1980 else if year > 2107 then 2107 else year
  let secs := daysFromCivil year month day * 86400
  let (hour, minute, second, hundredths) :=
    if hasTime then
      (min (time >>> 11 &&& 0x1F) 23, min (time >>> 5 &&& 0x3F) 59,
        min (min ((time &&& 0x1F) * 2) 58 + min (tenths / 100) 1) 59, min (tenths % 100) 99)
    else (0, 0, 0, 0)
  some ⟨secs + hour * 3600 + minute * 60 + second, hundredths * 10000000⟩

/-! ## The calendar -/

lemma marchYear_pos {y m : ℕ} (hy : 1 ≤ y) : ((y : ℤ) - if m ≤ 2 then 1 else 0) = (marchYear y m : ℕ) := by
  rw [marchYear]
  split_ifs <;> omega

/-- `fat32_days_from_civil` counts the days of the calendar. -/
theorem daysFromCivil_eq {y m d : ℕ} (h : IsDate y m d) (hy : 1 ≤ y) :
    daysFromCivil y m d = dayNumber y m d := by
  rw [dayNumber_eq h hy, daysFromCivil]
  simp only [marchYear_pos hy, if_pos (Int.natCast_nonneg _), Int.tdiv_eq_ediv_of_nonneg
    (Int.natCast_nonneg _)]
  have hmo : (if m > 2 then m - 3 else m + 9) = if m ≤ 2 then m + 9 else m - 3 := by
    split_ifs <;> omega
  have hyoe : ((marchYear y m : ℤ) - (marchYear y m : ℤ) / 400 * 400).toNat =
    marchYear y m % 400 := by omega
  rw [hyoe, hmo, dayOfMarchYear]
  push_cast
  rfl

lemma civil_of_dayOfMarchYear {y m d : ℕ} (h : IsDate y m d) :
    (5 * dayOfMarchYear m d + 2) / 153 = (if m ≤ 2 then m + 9 else m - 3) ∧
    dayOfMarchYear m d - (153 * (if m ≤ 2 then m + 9 else m - 3) + 2) / 5 + 1 = d := by
  obtain ⟨⟨hm, hm'⟩, hd, hd'⟩ := h
  have hl : monthLength y m ≤ (if m = 2 then 29 else
    if m = 4 ∨ m = 6 ∨ m = 9 ∨ m = 11 then 30 else 31) := by
    interval_cases m <;> simp only [monthLength] <;> split_ifs <;> simp_all
  rw [dayOfMarchYear]
  interval_cases m <;> simp at hl ⊢ <;> omega

/-- `fat32_civil_from_days` inverts the count. -/
theorem civilFromDays_dayNumber {y m d : ℕ} (h : IsDate y m d) (hy : 1 ≤ y) :
    civilFromDays (dayNumber y m d) = ((y : ℤ), m, d) := by
  obtain ⟨hle, hl⟩ := dayOfMarchYear_le h hy
  obtain ⟨hmp, hday⟩ := civil_of_dayOfMarchYear h
  have := h.month
  obtain ⟨doe, hdoe⟩ := @exists_eq _ (marchYear y m % 400 * 365 + marchYear y m % 400 / 4 -
    marchYear y m % 400 / 100 + dayOfMarchYear m d)
  have hyoe := yearOfEra_eq (mod_lt (marchYear y m) (by decide)) hle (by omega) hdoe
  have he : ((marchYear y m / 400 : ℕ) * 146097 + (doe : ℤ)).tdiv 146097 = (marchYear y m / 400 : ℕ) := by
    rw [Int.tdiv_eq_ediv_of_nonneg (by omega)]
    omega
  have hdoy : doe - (365 * (marchYear y m % 400) + marchYear y m % 400 / 4 - marchYear y m % 400 / 100) =
      dayOfMarchYear m d := by omega
  have hpos : ((marchYear y m / 400 : ℕ) * 146097 + (doe : ℤ)) ≥ 0 := by omega
  rw [dayNumber_eq h hy, ← hdoe, civilFromDays]
  simp only [sub_add_cancel]
  rw [if_pos hpos, he, add_sub_cancel_left, Int.toNat_natCast, hyoe, hdoy, hmp, hday]
  have hmo : (if (if m ≤ 2 then m + 9 else m - 3) < 10 then (if m ≤ 2 then m + 9 else m - 3) + 3
      else (if m ≤ 2 then m + 9 else m - 3) - 9) = m := by
    split_ifs <;> omega
  rw [hmo, marchYear]
  split_ifs <;> simp <;> omega

/-! ## The fields -/

lemma pack_eq {a b c i k : ℕ} (hb : b < 2 ^ k) (hc : c < 2 ^ i) :
    a <<< (k + i) ||| b <<< i ||| c = (a * 2 ^ k + b) * 2 ^ i + c := by
  rw [shiftLeft_add, ← shiftLeft_or_distrib, ← shiftLeft_add_eq_or_of_lt hb,
    ← shiftLeft_add_eq_or_of_lt hc, shiftLeft_eq, shiftLeft_eq]

lemma and_eq (x : ℕ) : x &&& 0x1F = x % 2 ^ 5 ∧ x &&& 0x0F = x % 2 ^ 4 ∧ x &&& 0x7F = x % 2 ^ 7 ∧
    x &&& 0x3F = x % 2 ^ 6 :=
  ⟨and_two_pow_sub_one_eq_mod x 5, and_two_pow_sub_one_eq_mod x 4, and_two_pow_sub_one_eq_mod x 7,
    and_two_pow_sub_one_eq_mod x 6⟩

lemma days_floor (s : ℤ) :
    (if s.tmod 86400 < 0 then s.tdiv 86400 - 1 else s.tdiv 86400) = s / 86400 ∧
    (if s.tmod 86400 < 0 then s.tmod 86400 + 86400 else s.tmod 86400) = s % 86400 := by
  have hdiv := Int.mul_tdiv_add_tmod s 86400
  obtain h | h := le_or_gt 0 s
  · have := Int.tmod_nonneg 86400 h
    rw [if_neg (by omega), if_neg (by omega), Int.tdiv_eq_ediv_of_nonneg h, Int.tmod_eq_emod_of_nonneg h]
    exact ⟨rfl, rfl⟩
  have hle : s.tmod 86400 ≤ 0 := by
    have := Int.tmod_nonneg 86400 (show 0 ≤ -s by omega)
    rw [Int.neg_tmod] at this
    omega
  have hlt := Int.lt_tmod_of_pos s (show (0 : ℤ) < 86400 by decide)
  split_ifs <;> omega

variable {y m d : ℕ} {ts : Timespec}
lemma timespecToFatDate_eq (h : IsDate y m d) (hy : 1980 ≤ y ∧ y ≤ 2107)
    (ht : ts.sec / 86400 = dayNumber y m d) : timespecToFatDate ts =
    ((y - 1980) * 2 ^ 4 + m) * 2 ^ 5 + d := by
  have := h.month
  have := h.day_le
  simp only [timespecToFatDate, (days_floor _).1, ht, civilFromDays_dayNumber h (show 1 ≤ y by omega),
    if_neg (show ¬ (y : ℤ) < 1980 by omega), if_neg (show ¬ (y : ℤ) > 2107 by omega),
    if_neg (show m ≠ 0 by omega), if_neg (show d ≠ 0 by omega)]
  rw [show (y - 1980 : ℤ).toNat = y - 1980 by omega, (and_eq (y - 1980)).2.2.1, (and_eq m).2.1,
    (and_eq d).1,
    mod_eq_of_lt (show y - 1980 < 2 ^ 7 by omega), mod_eq_of_lt (show m < 2 ^ 4 by omega),
    mod_eq_of_lt (show d < 2 ^ 5 by omega), pack_eq (i := 5) (k := 4) (by omega) (by omega)]
  exact mod_eq_of_lt (by omega)

lemma timespecToFatTime_eq {ho mn second : ℕ} (hh : ho ≤ 23) (hmin : mn ≤ 59) (hsec : second ≤ 59)
    (hr : ts.sec % 86400 = (ho * 3600 + mn * 60 + second : ℕ)) {hu : ℕ} (hlt : hu ≤ 99)
    (hns : ts.nsec / 10000000 = hu) :
    timespecToFatTime ts = ((ho * 2 ^ 6 + mn) * 2 ^ 5 + second / 2, second % 2 * 100 + hu) := by
  have hho : (ho * 3600 + mn * 60 + second) / 3600 = ho := by omega
  have hmi : (ho * 3600 + mn * 60 + second) % 3600 = mn * 60 + second := by omega
  have hmod : (mn * 60 + second) / 60 = mn ∧ (mn * 60 + second) % 60 = second := by omega
  have hn : (ts.nsec % 2 ^ 64 / 10000000 % 2 ^ 32).toNat = hu := by
    rw [Int.emod_eq_of_lt (show 0 ≤ ts.nsec by omega) (by omega), hns,
      Int.emod_eq_of_lt (by omega) (by omega), Int.toNat_natCast]
  simp only [timespecToFatTime, (days_floor _).2, hr, Int.toNat_natCast, hho, hmi, hmod.1, hmod.2, hn]
  rw [show 1 = 2 ^ 1 - 1 from rfl, and_two_pow_sub_one_eq_mod, Nat.min_eq_left hh, Nat.min_eq_left hmin,
    Nat.min_eq_left hsec, Nat.min_eq_left (b := 29) (by omega), Nat.min_eq_left hlt,
    Nat.min_eq_left (by omega), pack_eq (i := 5) (k := 6) (by omega) (by omega), mod_eq_of_lt (by omega),
    mod_eq_of_lt (b := 2 ^ 8) (by omega)]

lemma datetimeToTimespec_eq (h : IsDate y m d) (hy : 1980 ≤ y ∧ y ≤ 2107) {hr mn bs t : ℕ}
    (hh : hr ≤ 23) (hmin : mn ≤ 59) (hb : bs ≤ 29) (ht : t ≤ 199) :
    datetimeToTimespec (((y - 1980) * 2 ^ 4 + m) * 2 ^ 5 + d)
    ((hr * 2 ^ 6 + mn) * 2 ^ 5 + bs) t true =
      some ⟨dayNumber y m d * 86400 + hr * 3600 + mn * 60 + (bs * 2 + t / 100 : ℕ),
        (t % 100 : ℕ) * 10000000⟩ := by
  have := h.month
  have := h.day_le
  have hday : (((y - 1980) * 2 ^ 4 + m) * 2 ^ 5 + d) % 2 ^ 5 = d := by omega
  have hmo : (((y - 1980) * 2 ^ 4 + m) * 2 ^ 5 + d) / 2 ^ 5 % 2 ^ 4 = m := by omega
  have hye : (((y - 1980) * 2 ^ 4 + m) * 2 ^ 5 + d) / 2 ^ 9 % 2 ^ 7 = y - 1980 := by omega
  have hho : ((hr * 2 ^ 6 + mn) * 2 ^ 5 + bs) / 2 ^ 11 % 2 ^ 5 = hr := by omega
  have hmi : ((hr * 2 ^ 6 + mn) * 2 ^ 5 + bs) / 2 ^ 5 % 2 ^ 6 = mn := by omega
  have hba : ((hr * 2 ^ 6 + mn) * 2 ^ 5 + bs) % 2 ^ 5 = bs := by omega
  rw [datetimeToTimespec, if_neg (by omega)]
  simp only [and_eq, shiftRight_eq_div_pow, hday, hmo, hye, hho, hmi, hba, if_true]
  rw [if_neg (by omega), if_neg (by omega), if_neg (by omega),
    show ((y - 1980 : ℕ) : ℤ) + 1980 = y by omega,
    daysFromCivil_eq h (by omega), Nat.min_eq_left hh, Nat.min_eq_left hmin,
    Nat.min_eq_left (b := 58) (by omega),
    Nat.min_eq_left (b := 1) (by omega), Nat.min_eq_left (b := 59) (by omega),
    Nat.min_eq_left (b := 99) (by omega)]

/-- **Timestamps keep their value.** Encoding and decoding rounds down to 10 ms, or to an
even second when the tenths are not used; decoding and encoding gives the same fields. -/
theorem fat_timestamps_roundTrip :
    (∀ (ts : Timespec) (y m d : ℕ), 0 ≤ ts.nsec → ts.nsec < 10 ^ 9 → IsDate y m d → 1980 ≤ y → y ≤ 2107 →
      ts.sec / 86400 = dayNumber y m d →
      datetimeToTimespec (timespecToFatDate ts) (timespecToFatTime ts).1 (timespecToFatTime ts).2 true =
        some ⟨ts.sec, ts.nsec - ts.nsec % 10000000⟩ ∧
      datetimeToTimespec (timespecToFatDate ts) (timespecToFatTime ts).1 0 true =
        some ⟨ts.sec - ts.sec % 2, 0⟩) ∧
    (∀ date time tenths : ℕ, date < 2 ^ 16 → time < 2 ^ 16 →
      IsDate ((date >>> 9 &&& 0x7F) + 1980) (date >>> 5 &&& 0x0F) (date &&& 0x1F) →
      time >>> 11 &&& 0x1F ≤ 23 → time >>> 5 &&& 0x3F ≤ 59 → time &&& 0x1F ≤ 29 → tenths ≤ 199 →
      ∃ ts, datetimeToTimespec date time tenths true = some ts ∧ timespecToFatDate ts = date ∧
        timespecToFatTime ts = (time, tenths)) := by
  constructor
  · intro ts y m d hns hn' h hy hy' hts
    obtain ⟨ho, mn, s, hh, hmin, hsec, hr⟩ : ∃ ho mn s : ℕ, ho ≤ 23 ∧ mn ≤ 59 ∧
        s ≤ 59 ∧ ts.sec % 86400 = (ho * 3600 + mn * 60 + s : ℕ) :=
      ⟨(ts.sec % 86400).toNat / 3600, (ts.sec % 86400).toNat % 3600 / 60, (ts.sec % 86400).toNat % 60,
        by omega, by omega, by omega, by omega⟩
    obtain ⟨n, hn, hlt⟩ : ∃ n : ℕ, ts.nsec / 10000000 = n ∧ n ≤ 99 :=
      ⟨(ts.nsec / 10000000).toNat, by omega, by omega⟩
    have hte : (s % 2 * 100 + n) / 100 = s % 2 ∧ (s % 2 * 100 + n) % 100 = n := by omega
    rw [timespecToFatDate_eq h ⟨hy, hy'⟩ hts, timespecToFatTime_eq hh hmin hsec hr hlt hn,
      datetimeToTimespec_eq h ⟨hy, hy'⟩ hh hmin (by omega) (by omega),
      datetimeToTimespec_eq h ⟨hy, hy'⟩ hh hmin (by omega) (by omega), hte.1, hte.2, ← hts]
    simp only [Option.some.injEq, Timespec.mk.injEq]
    refine ⟨⟨?_, ?_⟩, ?_, rfl⟩
    · omega
    · omega
    · omega
  intro date time tenths hda hti h hh hmin hb ht
  have hd' : date = (((date >>> 9 &&& 0x7F) + 1980 - 1980) * 2 ^ 4 + (date >>> 5 &&& 0x0F)) * 2 ^ 5 +
      (date &&& 0x1F) := by
    simp only [and_eq, shiftRight_eq_div_pow]
    omega
  have ht' : time = ((time >>> 11 &&& 0x1F) * 2 ^ 6 + (time >>> 5 &&& 0x3F)) * 2 ^ 5 +
    (time &&& 0x1F) := by
    simp only [and_eq, shiftRight_eq_div_pow]
    omega
  have hy : 1980 ≤ (date >>> 9 &&& 0x7F) + 1980 ∧ (date >>> 9 &&& 0x7F) + 1980 ≤ 2107 := by
    simp only [and_eq]
    omega
  generalize (date >>> 9 &&& 0x7F) + 1980 = y, date >>> 5 &&& 0x0F = m, date &&& 0x1F = d,
    time >>> 11 &&& 0x1F = ho, time >>> 5 &&& 0x3F = mn, time &&& 0x1F = base at *
  subst hd' ht'
  have hte : tenths / 100 ≤ 1 := by omega
  refine ⟨_, datetimeToTimespec_eq h hy hh hmin hb ht, timespecToFatDate_eq h hy ?_,
    (timespecToFatTime_eq hh hmin (show base * 2 + tenths / 100 ≤ 59 by omega) ?_
      (show tenths % 100 ≤ 99 by omega) (Int.mul_ediv_cancel _ (by decide))).trans ?_⟩
  · dsimp only
    omega
  · dsimp only
    omega
  rw [Prod.mk.injEq]
  omega

/-- The last instant of the leap day of 2000. -/
theorem fat_timestamps_roundTrip_leap_day :
    datetimeToTimespec (timespecToFatDate ⟨951868799, 999999999⟩)
    (timespecToFatTime ⟨951868799, 999999999⟩).1
      (timespecToFatTime ⟨951868799, 999999999⟩).2 true = some ⟨951868799, 990000000⟩ :=
  (fat_timestamps_roundTrip.1 ⟨951868799, 999999999⟩ 2000 2 29 (by decide) (by decide)
    ⟨by decide, by decide⟩ (by decide) (by decide) (by decide +kernel)).1
end Menios.Fat32
