import UpgradeScope.Lib.Strings
import Mathlib.Tactic

/-!
# The calendar

The days of the proleptic Gregorian calendar, counted from 1 January of year 1, and the date of a day: its year by the
cycles of 400, 100, 4 and single years, its month by walking along the lengths of the year's months. `date_spec` says that
the date of a day is a date, and of that day; `dayNumber_lt` that days are in the order of their dates.
-/

namespace Go

/-! ## Years -/

/-- The days from 1 January of year 1 to 1 January of a year. -/
def yearStart (y : ℤ) : ℤ := 365 * (y - 1) + (y - 1) / 4 - (y - 1) / 100 + (y - 1) / 400

/-- The year of a day. -/
def yearOf (days : ℤ) : ℤ :=
  let n400 := days / 146097
  let days := days - 146097 * n400
  -- The last day of a cycle would be the first of a fifth part.
  let n100 := days / 36524 - days / 36524 / 4
  let days := days - 36524 * n100
  let n4 := days / 1461
  let days := days - 1461 * n4
  let n1 := days / 365 - days / 365 / 4
  400 * n400 + 100 * n100 + 4 * n4 + n1 + 1

/-- A day is in its year. -/
theorem yearOf_spec (days : ℤ) : yearStart (yearOf days) ≤ days ∧ days < yearStart (yearOf days + 1) := by
  simp only [yearOf, yearStart]
  generalize h400 : days / 146097 = n400
  generalize hd400 : days - 146097 * n400 = d400
  generalize h100 : d400 / 36524 - d400 / 36524 / 4 = n100
  generalize hd100 : d400 - 36524 * n100 = d100
  generalize h4 : d100 / 1461 = n4
  generalize hd4 : d100 - 1461 * n4 = d4
  generalize h1 : d4 / 365 - d4 / 365 / 4 = n1
  have hr400 : 0 ≤ d400 ∧ d400 < 146097 := by omega
  have hn100 : 0 ≤ n100 ∧ n100 ≤ 3 := by omega
  have hr100 : 0 ≤ d100 ∧ d100 ≤ 36524 ∧ (n100 < 3 → d100 < 36524) := by omega
  have hn4 : 0 ≤ n4 ∧ n4 ≤ 24 := by omega
  have hr4 : 0 ≤ d4 ∧ d4 < 1461 := by omega
  have hn1 : 0 ≤ n1 ∧ n1 ≤ 3 := by omega
  have hq4 : (400 * n400 + 100 * n100 + 4 * n4 + n1) / 4 = 100 * n400 + 25 * n100 + n4 := by omega
  have hq100 : (400 * n400 + 100 * n100 + 4 * n4 + n1) / 100 = 4 * n400 + n100 := by omega
  have hq400 : (400 * n400 + 100 * n100 + 4 * n4 + n1) / 400 = n400 := by omega
  have hdays : days = 146097 * n400 + 36524 * n100 + 1461 * n4 + d4 := by omega
  have hn1' : 365 * n1 ≤ d4 ∧ (d4 < 365 * n1 + 365 ∨ n1 = 3 ∧ d4 ≤ 365 * n1 + 365) := by omega
  -- A fourth year has its leap day, but for the last of a century that is not the last of a cycle.
  have hcentury : n4 = 24 → n100 < 3 → d4 < 1460 := by omega
  constructor
  · rw [add_sub_cancel_right, hq4, hq100, hq400]
    omega
  · rw [add_sub_cancel_right]
    by_cases h3 : n1 < 3
    · have e4 : (400 * n400 + 100 * n100 + 4 * n4 + n1 + 1) / 4 = 100 * n400 + 25 * n100 + n4 := by omega
      have e100 : (400 * n400 + 100 * n100 + 4 * n4 + n1 + 1) / 100 = 4 * n400 + n100 := by omega
      have e400 : (400 * n400 + 100 * n100 + 4 * n4 + n1 + 1) / 400 = n400 := by omega
      rw [e4, e100, e400]
      omega
    · obtain rfl : n1 = 3 := by omega
      have e4 : (400 * n400 + 100 * n100 + 4 * n4 + 3 + 1) / 4 = 100 * n400 + 25 * n100 + n4 + 1 := by omega
      by_cases h24 : n4 < 24
      · have e100 : (400 * n400 + 100 * n100 + 4 * n4 + 3 + 1) / 100 = 4 * n400 + n100 := by omega
        have e400 : (400 * n400 + 100 * n100 + 4 * n4 + 3 + 1) / 400 = n400 := by omega
        rw [e4, e100, e400]
        omega
      · obtain rfl : n4 = 24 := by omega
        have e100 : (400 * n400 + 100 * n100 + 4 * 24 + 3 + 1) / 100 = 4 * n400 + n100 + 1 := by omega
        rw [e4, e100]
        omega

/-- Years begin in order. -/
theorem yearStart_mono {y y' : ℤ} (h : y ≤ y') : yearStart y ≤ yearStart y' := by
  unfold yearStart
  omega

/-- The days of a year are those of its months. -/
theorem yearStart_succ (y : ℕ) : yearStart (y + 1) = yearStart y + if leapYear y then 366 else 365 := by
  unfold yearStart leapYear
  split_ifs with h
  · simp only [decide_eq_true_eq] at h
    omega
  · simp only [decide_eq_true_eq] at h
    omega

/-! ## Months -/

/-- The part of a list of lengths that a position falls into, and how far it is in it. -/
def locate : List ℕ → ℕ → ℕ × ℕ
  | [], d => (0, d)
  | n :: ns, d => if d < n then (0, d) else ((locate ns (d - n)).1 + 1, (locate ns (d - n)).2)

/-- A position before the end falls into one of the parts. -/
theorem locate_spec {ns : List ℕ} {d : ℕ} (h : d < ns.sum) :
    ∃ hi : (locate ns d).1 < ns.length,
      (ns.take (locate ns d).1).sum + (locate ns d).2 = d ∧ (locate ns d).2 < ns[(locate ns d).1] := by
  induction ns generalizing d with
  | nil => simp at h
  | cons n ns ih =>
    rw [List.sum_cons] at h
    by_cases hlt : d < n
    · simp [locate, hlt]
    · obtain ⟨hi, hsum, hin⟩ := ih (d := d - n) (by omega)
      simp only [locate, hlt, if_false, List.length_cons, List.take_succ_cons, List.sum_cons, List.getElem_cons_succ]
      exact ⟨by omega, by omega, hin⟩

/-- The days of a year before a month. -/
def monthStart (y m : ℕ) : ℕ := ((List.range (m - 1)).map fun i => daysIn y (i + 1)).sum

/-- The lengths of a year's months. -/
def monthLengths (y : ℕ) : List ℕ := (List.range 12).map fun i => daysIn y (i + 1)

/-- The number of a day is that of its year, its month and the day. -/
theorem dayNumber_eq (y m d : ℕ) : dayNumber y m d = yearStart y + monthStart y m + (d - 1) := by
  unfold dayNumber yearStart monthStart
  rw [Nat.cast_list_sum, List.map_map]
  rfl

/-- The next month begins when a month's days are over. -/
theorem monthStart_succ {y m : ℕ} (h : 0 < m) : monthStart y (m + 1) = monthStart y m + daysIn y m := by
  unfold monthStart
  obtain ⟨k, rfl⟩ := Nat.exists_eq_succ_of_ne_zero h.ne'
  rw [Nat.succ_sub_one, Nat.succ_sub_one, List.range_succ, List.map_append, List.sum_append]
  simp

/-- Months begin in order. -/
theorem monthStart_mono (y : ℕ) : Monotone (monthStart y) := by
  refine monotone_nat_of_le_succ fun m => ?_
  rcases Nat.eq_zero_or_pos m with rfl | h
  · rfl
  · rw [monthStart_succ h]
    omega

/-- The lengths of a year's months are its days. -/
theorem monthStart_end (y : ℕ) : monthStart y 13 = if leapYear y then 366 else 365 := by
  unfold monthStart daysIn
  cases leapYear y <;> rfl

/-- What is before a month among the lengths. -/
theorem take_monthLengths {y m : ℕ} (h : m ≤ 12) : ((monthLengths y).take m).sum = monthStart y (m + 1) := by
  unfold monthLengths monthStart
  rw [← List.map_take, List.take_range, Nat.add_sub_cancel, Nat.min_eq_left h]

/-! ## Dates -/

/-- A date of the calendar. -/
structure ValidDate (y m d : ℕ) : Prop where
  /-- The month is positive. -/
  one_le_month : 1 ≤ m
  /-- There are twelve months. -/
  month_le : m ≤ 12
  /-- The day is positive. -/
  one_le_day : 1 ≤ d
  /-- The month has the day. -/
  day_le : d ≤ daysIn y m

/-- The year, the month and the day of a day; the lengths of the months recur every 400 years. -/
def date (days : ℤ) : ℤ × ℕ × ℕ :=
  let y := yearOf days
  let p := locate (monthLengths (y % 400).toNat) (days - yearStart y).toNat
  (y, p.1 + 1, p.2 + 1)

/-- The months of a year are those of any year 400 years apart. -/
theorem daysIn_mod (y m : ℕ) : daysIn (y % 400) m = daysIn y m := by
  have hleap : leapYear (y % 400) = leapYear y := by
    unfold leapYear
    rw [decide_eq_decide]
    omega
  unfold daysIn
  rw [hleap]

/-- The date of a day, where its year is not negative, is a date of that day. -/
theorem date_spec {days : ℤ} (h : 0 ≤ (date days).1) :
    ValidDate (date days).1.toNat (date days).2.1 (date days).2.2 ∧
      dayNumber (date days).1.toNat (date days).2.1 (date days).2.2 = days := by
  obtain ⟨hstart, hend⟩ := yearOf_spec days
  obtain ⟨y, hy⟩ := Int.eq_ofNat_of_zero_le h
  have hyear : yearOf days = y := hy
  obtain ⟨k, hk⟩ := Int.eq_ofNat_of_zero_le (Int.sub_nonneg.mpr hstart)
  -- The months are laid out for the year within its cycle of 400, where they are as long.
  have hlengths : monthLengths ((y : ℤ) % 400).toNat = monthLengths y := by
    rw [show ((y : ℤ) % 400).toNat = y % 400 by omega]
    exact List.map_congr_left fun i _ => daysIn_mod y (i + 1)
  have hdate : date days = ((y : ℤ), (locate (monthLengths y) k).1 + 1, (locate (monthLengths y) k).2 + 1) := by
    simp only [date, hyear]
    rw [hyear] at hk
    rw [hlengths, hk, Int.toNat_natCast]
  have hsum : (monthLengths y).sum = monthStart y 13 := by
    rw [← take_monthLengths le_rfl]
    rfl
  have hlt : k < (monthLengths y).sum := by
    rw [hyear, yearStart_succ] at hend
    rw [hyear] at hk
    rw [hsum, monthStart_end]
    split_ifs at hend ⊢ <;> omega
  obtain ⟨hi, htake, hin⟩ := locate_spec hlt
  rw [hdate]
  generalize locate (monthLengths y) k = p at hi htake hin ⊢
  obtain ⟨i, o⟩ := p
  have hi12 : i < 12 := by simpa [monthLengths] using hi
  have hlen : o < daysIn y (i + 1) := by simpa [monthLengths] using hin
  rw [take_monthLengths hi12.le] at htake
  dsimp only at htake ⊢
  rw [Int.toNat_natCast]
  refine ⟨⟨by omega, by omega, by omega, by omega⟩, ?_⟩
  rw [dayNumber_eq]
  rw [hyear] at hk
  push_cast
  omega

/-- An earlier date is an earlier day. -/
theorem dayNumber_lt {y m d y' m' d' : ℕ} (h : ValidDate y m d) (h' : ValidDate y' m' d')
    (hlt : y < y' ∨ y = y' ∧ (m < m' ∨ m = m' ∧ d < d')) : dayNumber y m d < dayNumber y' m' d' := by
  have hmonth : monthStart y m + d ≤ monthStart y (m + 1) := by
    rw [monthStart_succ h.one_le_month]
    have := h.day_le
    omega
  have hd := h.one_le_day
  have hd' := h'.one_le_day
  rw [dayNumber_eq, dayNumber_eq]
  rcases hlt with hy | ⟨rfl, hm | ⟨rfl, hd⟩⟩
  · -- The year ends before the other begins.
    have hin : monthStart y (m + 1) ≤ monthStart y 13 := monthStart_mono y (by have := h.month_le; omega)
    have hyears := yearStart_mono (show ((y : ℤ) + 1) ≤ y' by exact_mod_cast hy)
    rw [monthStart_end] at hin
    rw [yearStart_succ] at hyears
    split_ifs at hin hyears <;> omega
  · have hmonths : monthStart y (m + 1) ≤ monthStart y m' := monthStart_mono y hm
    omega
  · omega

end Go
