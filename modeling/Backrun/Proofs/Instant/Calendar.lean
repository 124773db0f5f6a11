import Backrun.Instant.Calendar

/-!
# Days and dates

`toDays_ofDays` and `isValid_ofDays`: each day that dates are kept for has a date of the
calendar, and that date names the day.  Both go by eras of 400 years; the era is taken
apart into centuries, groups of four years and years, so that every quotient in the
computation becomes one of the parts.
-/

namespace Backrun.Date

/-- A day of an era lies in a century, in four years of it, in a year of these and on a day
of that year. Only the last of four years has a leap day, which the last year of a century
goes without, unless the era ends with it. -/
theorem exists_century {e : Int} (hlow : 0 ≤ e) (hhigh : e < 146097) :
    ∃ c q k d : Int, e = 36524 * c + 1461 * q + 365 * k + d
      ∧ (0 ≤ c ∧ c ≤ 3) ∧ (0 ≤ q ∧ q ≤ 24) ∧ (0 ≤ k ∧ k ≤ 3) ∧ (0 ≤ d ∧ d ≤ 365)
      ∧ (d = 365 → k = 3 ∧ (q < 24 ∨ c = 3)) := by
  -- The last day of an era, and of four years, would else begin a fourth part of its own.
  let c := min 3 (e / 36524)
  let r := e - 36524 * c
  let k := min 3 (r % 1461 / 365)
  refine ⟨c, r / 1461, k, r % 1461 - 365 * k, ?_⟩
  have hcentury : 0 ≤ c ∧ c ≤ 3 ∧ 0 ≤ r ∧ (r < 36524 ∨ (c = 3 ∧ r ≤ 36524)) := by omega
  have hyear : k = min 3 (r % 1461 / 365) := rfl
  clear_value c k
  omega

/-- The year of an era that a day lies in, and the day of that year. -/
theorem yearOfEra_spec {e : Int} (hlow : 0 ≤ e) (hhigh : e < 146097) :
    ∃ y d : Int, (e - e / 1460 + e / 36524 - e / 146096) / 365 = y
      ∧ e - (365 * y + y / 4 - y / 100) = d ∧ (0 ≤ y ∧ y ≤ 399) ∧ (0 ≤ d ∧ d ≤ 365)
      ∧ (d = 365 → y % 4 = 3 ∧ (y % 100 ≠ 99 ∨ y = 399)) := by
  obtain ⟨c, q, k, d, he, hc, hq, hk, hd, hleap⟩ := exists_century hlow hhigh
  refine ⟨100 * c + 4 * q + k, d, ?_, ?_, by omega, hd, by omega⟩
  -- The last summand of the year only counts on the last day of the era.
  · rcases Int.lt_or_le e 146096 with hlast | hlast
    · have hcentury : e / 36524 = c := by omega
      have hera : e / 146096 = 0 := by omega
      have hfour : e / 1460 = 25 * c + q + (24 * c + q + 365 * k + d) / 1460 := by omega
      rw [hcentury, hera, hfour]
      omega
    · omega
  · have hfour : (100 * c + 4 * q + k) / 4 = 25 * c + q := by omega
    have hcentury : (100 * c + 4 * q + k) / 100 = c := by omega
    omega

/-- The year, counted from March on, and the day of that year that make up a day. -/
theorem ofDays_spec (days : Int) :
    ∃ era y d : Int, days + 719468 = 146097 * era + (365 * y + y / 4 - y / 100 + d)
      ∧ (0 ≤ y ∧ y ≤ 399) ∧ (0 ≤ d ∧ d ≤ 365)
      ∧ (d = 365 → y % 4 = 3 ∧ (y % 100 ≠ 99 ∨ y = 399))
      ∧ ofDays days =
        let month := (5 * d + 2) / 153
        let day := d - (153 * month + 2) / 5 + 1
        if month < 10 then ⟨y + era * 400, (month + 3).toNat, day.toNat⟩
        else ⟨y + era * 400 + 1, (month - 9).toNat, day.toNat⟩ := by
  obtain ⟨y, d, hy, hd, hyears, hdays, hleap⟩ := yearOfEra_spec
    (e := (days + 719468) % 146097) (by omega) (by omega)
  refine ⟨(days + 719468) / 146097, y, d, by omega, hyears, hdays, hleap, ?_⟩
  simp only [ofDays, hy, hd]

/-- The date of a day names that day. -/
theorem toDays_ofDays (days : Int) : (ofDays days).toDays = days := by
  obtain ⟨era, y, d, hsplit, hy, hd, -, hdate⟩ := ofDays_spec days
  rw [hdate]
  dsimp only
  have hmonth : 0 ≤ (5 * d + 2) / 153 ∧ (5 * d + 2) / 153 ≤ 11 := by omega
  have hday : 0 ≤ d - (153 * ((5 * d + 2) / 153) + 2) / 5 := by omega
  -- January and February belong to the next year.
  split
  · rename_i hspring
    have hyear : ¬ ((5 * d + 2) / 153 + 3).toNat ≤ 2 := by omega
    have hback : (((5 * d + 2) / 153 + 3).toNat + 9) % 12 = ((5 * d + 2) / 153).toNat := by omega
    simp only [toDays, if_neg hyear, hback]
    omega
  · rename_i hwinter
    have hyear : ((5 * d + 2) / 153 - 9).toNat ≤ 2 := by omega
    have hback : (((5 * d + 2) / 153 - 9).toNat + 9) % 12 = ((5 * d + 2) / 153).toNat := by omega
    simp only [toDays, if_pos hyear, hback]
    omega

/-- The last day of February in a year counted from March on is a leap day only if the
year after it, which that day belongs to, has one. -/
theorem isLeap_after {era y : Int} (h : y % 4 = 3 ∧ (y % 100 ≠ 99 ∨ y = 399)) :
    isLeap (y + era * 400 + 1) = true := by
  have hfour : (y + era * 400 + 1) % 4 = 0 := by omega
  rcases h.2 with hcentury | hlast
  · have hhundred : (y + era * 400 + 1) % 100 ≠ 0 := by omega
    simp [isLeap, hfour, hhundred]
  · have hwhole : (y + era * 400 + 1) % 400 = 0 := by omega
    simp [isLeap, hfour, hwhole]

/-- The days that dates are kept for begin with a January and end with a December: the
306th day from the first of March on is the first of January. -/
theorem year_bounds (era : Int) {y d : Int} (hy : 0 ≤ y ∧ y ≤ 399) (hd : 0 ≤ d ∧ d ≤ 365)
    (hfirst : firstDay + 719468 ≤ 146097 * era + (365 * y + y / 4 - y / 100 + d))
    (hlast : 146097 * era + (365 * y + y / 4 - y / 100 + d) ≤ lastDay + 719468) :
    (-262143 ≤ y + era * 400 ∨ (y + era * 400 = -262144 ∧ 306 ≤ d))
      ∧ (y + era * 400 ≤ 262141 ∨ (y + era * 400 = 262142 ∧ d ≤ 305)) := by
  rw [firstDay] at hfirst
  rw [lastDay] at hlast
  constructor
  · rcases (by omega : era = -656 ∨ -655 ≤ era) with rfl | hera
    · omega
    · omega
  · rcases (by omega : era = 655 ∨ era ≤ 654) with rfl | hera
    · omega
    · omega

/-- Each day that dates are kept for has a date of the calendar. -/
theorem isValid_ofDays {days : Int} (hfirst : firstDay ≤ days) (hlast : days ≤ lastDay) :
    (ofDays days).isValid = true := by
  obtain ⟨era, y, d, hsplit, hy, hd, hleap, hdate⟩ := ofDays_spec days
  have hyears := year_bounds era hy hd (by omega) (by omega)
  rw [hdate]
  dsimp only
  generalize hm : (5 * d + 2) / 153 = month
  have hmonth : 0 ≤ month ∧ month ≤ 11 := by omega
  clear hsplit hdate hfirst hlast
  -- Only February is shorter than the computed day may be, and then the year is a leap year.
  split
  · rename_i hspring
    simp only [isValid, Bool.and_eq_true, decide_eq_true_eq, yearInRange]
    refine ⟨⟨⟨⟨⟨?_, ?_⟩, by omega⟩, by omega⟩, by omega⟩, ?_⟩
    · omega
    · omega
    · unfold monthLength
      rw [if_neg (by omega)]
      split
      · omega
      · omega
  · rename_i hwinter
    simp only [isValid, Bool.and_eq_true, decide_eq_true_eq, yearInRange]
    refine ⟨⟨⟨⟨⟨?_, ?_⟩, by omega⟩, by omega⟩, by omega⟩, ?_⟩
    · omega
    · omega
    · unfold monthLength
      split
      · rcases Int.lt_or_le d 365 with hshort | hlong
        · split
          · omega
          · omega
        · rw [if_pos (isLeap_after (hleap (by omega)))]
          omega
      · rw [if_neg (by omega)]
        omega

/-- The parts of a valid date. -/
theorem isValid_iff {d : Date} : d.isValid = true ↔
    (-262143 ≤ d.year ∧ d.year ≤ 262142) ∧ (1 ≤ d.month ∧ d.month ≤ 12)
      ∧ (1 ≤ d.day ∧ d.day ≤ monthLength d.year d.month) := by
  simp only [isValid, yearInRange, Bool.and_eq_true, decide_eq_true_eq]
  constructor
  · rintro ⟨⟨⟨⟨hyear, hm⟩, hm'⟩, hd⟩, hd'⟩
    exact ⟨hyear, ⟨hm, hm'⟩, hd, hd'⟩
  · rintro ⟨hyear, ⟨hm, hm'⟩, hd, hd'⟩
    exact ⟨⟨⟨⟨hyear, hm⟩, hm'⟩, hd⟩, hd'⟩

theorem monthLength_le (year : Int) (month : Nat) : monthLength year month ≤ 31 := by
  unfold monthLength
  split
  · split <;> decide
  · split <;> decide

end Backrun.Date
