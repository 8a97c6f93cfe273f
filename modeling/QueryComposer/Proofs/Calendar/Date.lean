import Mathlib.Algebra.GroupWithZero.Nat
import Mathlib.Order.Monotone.Basic
import QueryComposer.Calendar.Date

/-!
# Dates and day numbers

The dates of the calendar and the numbers from zero on are in bijection, and the order of dates is
the order of their numbers. A step to the next date, into the next month or year where one ends, is
a step to the next number, and the first of year one has number zero, so day numbers count the days
of the calendar one by one.

## Main results

* `Date.dayNumber_next`: the next date has the next number.
* `Date.dayNumber_lt`: the order of dates.
* `Date.ofDayNumber_spec`, `Date.ofDayNumber_dayNumber`: the bijection.

## Implementation notes

The number of a date is a sum of three, and what makes it grow with the date is that a year and a
month are as long as the way to the next one (`daysBeforeYear_succ`, `daysBeforeMonth_succ`). Of the
search for a date it is to be shown that no quotient takes more than there is, and that a year in
which a day with the number 365 is found is a leap year.
-/

namespace QueryComposer.Calendar

/-! ### Years -/

theorem isLeap_iff {year : Nat} :
    isLeap year = true ↔ 4 ∣ year ∧ (¬100 ∣ year ∨ 400 ∣ year) := by
  simp [isLeap, Nat.dvd_iff_mod_eq_zero]

theorem sum_monthLengths (year : Nat) :
    (monthLengths year).sum = if isLeap year = true then 366 else 365 := by
  rw [monthLengths]
  split <;> rfl

theorem daysBeforeYear_succ {year : Nat} (h : 1 ≤ year) :
    daysBeforeYear (year + 1) = daysBeforeYear year + (monthLengths year).sum := by
  obtain ⟨y, rfl⟩ := Nat.exists_eq_add_of_le' h
  have hcentury : 100 ∣ y + 1 → 4 ∣ y + 1 := Nat.dvd_trans (by decide)
  have hcycle : 400 ∣ y + 1 → 100 ∣ y + 1 := Nat.dvd_trans (by decide)
  have hle : y / 100 ≤ y := Nat.div_le_self y 100
  -- Each of the three quotients grows by one in the years that its period divides.
  rw [sum_monthLengths, daysBeforeYear, daysBeforeYear, Nat.add_sub_cancel, Nat.add_sub_cancel,
    Nat.succ_div, Nat.succ_div, Nat.succ_div]
  simp only [isLeap_iff]
  generalize y / 4 = fours at *
  generalize y / 100 = centuries at *
  generalize y / 400 = cycles at *
  by_cases h400 : 400 ∣ y + 1
  · simp only [h400, hcycle h400, hcentury (hcycle h400)]
    grind
  · by_cases h100 : 100 ∣ y + 1
    · simp only [h400, h100, hcentury h100]
      grind
    · simp only [h400, h100]
      grind

theorem monotone_daysBeforeYear : Monotone daysBeforeYear := by
  refine monotone_nat_of_le_succ fun year => ?_
  cases year with
  | zero => exact Nat.le_refl 0
  | succ year => exact daysBeforeYear_succ (Nat.succ_pos year) ▸ Nat.le_add_right _ _

theorem daysBeforeYear_add_le {year year' : Nat} (h : 1 ≤ year) (hlt : year < year') :
    daysBeforeYear year + (monthLengths year).sum ≤ daysBeforeYear year' :=
  daysBeforeYear_succ h ▸ monotone_daysBeforeYear hlt

/-! ### Months -/

/-- A month is not empty, and not longer than two digits can count. -/
theorem bounds_of_mem_monthLengths {year n : Nat} (h : n ∈ monthLengths year) :
    1 ≤ n ∧ n ≤ 31 := by
  have hall : ∀ n ∈ monthLengths year, 1 ≤ n ∧ n ≤ 31 := by
    rw [monthLengths]
    split <;> decide
  exact hall n h

theorem daysBeforeMonth_eq (year month : Nat) :
    daysBeforeMonth year month = ((monthLengths year).take (month - 1)).sum := rfl

theorem daysBeforeMonth_succ_succ (year month : Nat) :
    daysBeforeMonth year (month + 2) =
      daysBeforeMonth year (month + 1) + (monthLengths year)[month]?.getD 0 := by
  rw [daysBeforeMonth_eq, daysBeforeMonth_eq, Nat.add_sub_cancel, Nat.add_succ_sub_one,
    List.take_add_one, List.sum_append]
  cases (monthLengths year)[month]? <;> rfl

theorem daysBeforeMonth_succ {year month n : Nat} (hmonth : 1 ≤ month)
    (h : (monthLengths year)[month - 1]? = some n) :
    daysBeforeMonth year (month + 1) = daysBeforeMonth year month + n := by
  obtain ⟨month, rfl⟩ := Nat.exists_eq_add_of_le' hmonth
  rw [Nat.add_sub_cancel] at h
  rw [daysBeforeMonth_succ_succ, h]
  rfl

theorem monotone_daysBeforeMonth (year : Nat) : Monotone (daysBeforeMonth year) := by
  refine monotone_nat_of_le_succ fun month => ?_
  cases month with
  | zero => exact Nat.le_refl 0
  | succ month => exact daysBeforeMonth_succ_succ year month ▸ Nat.le_add_right _ _

theorem daysBeforeMonth_le (year month : Nat) :
    daysBeforeMonth year month ≤ (monthLengths year).sum := by
  calc daysBeforeMonth year month
      ≤ daysBeforeMonth year month + ((monthLengths year).drop (month - 1)).sum :=
        Nat.le_add_right _ _
    _ = (monthLengths year).sum := by
        rw [daysBeforeMonth_eq, ← List.sum_append, List.take_append_drop]

/-! ### Dates -/

namespace Date

variable {d d' : Date}

theorem IsValid.days_le (h : d.IsValid) :
    daysBeforeMonth d.year d.month + d.day ≤ daysBeforeMonth d.year (d.month + 1) := by
  obtain ⟨-, hmonth, -, n, hn, hday⟩ := h
  rw [daysBeforeMonth_succ hmonth hn]
  exact Nat.add_le_add_left hday _

theorem IsValid.month_le (h : d.IsValid) : d.month ≤ 12 := by
  obtain ⟨-, -, -, n, hn, -⟩ := h
  obtain ⟨hlt, -⟩ := List.getElem?_eq_some_iff.mp hn
  exact Nat.le_of_pred_lt hlt

theorem IsValid.day_le (h : d.IsValid) : d.day ≤ 31 := by
  obtain ⟨-, -, -, n, hn, hle⟩ := h
  exact Nat.le_trans hle (bounds_of_mem_monthLengths (List.mem_of_getElem? hn)).2

theorem isValid_first {year month : Nat} (hyear : 1 ≤ year) (hmonth : month < 12) :
    IsValid ⟨year, month + 1, 1⟩ := by
  refine ⟨hyear, Nat.succ_pos _, Nat.le_refl 1, _, List.getElem?_eq_getElem hmonth, ?_⟩
  exact (bounds_of_mem_monthLengths (List.getElem_mem hmonth)).1

/-- **Dates are numbered in their order**: the first difference decides. -/
theorem dayNumber_lt (h : d.IsValid)
    (hlt : d.year < d'.year ∨ d.year = d'.year ∧
      (d.month < d'.month ∨ d.month = d'.month ∧ d.day < d'.day)) :
    d.dayNumber < d'.dayNumber := by
  have hday := h.days_le
  have hpos := h.2.2.1
  rw [dayNumber, dayNumber]
  rcases hlt with hyear | ⟨hyear, hmonth | ⟨hmonth, hday⟩⟩
  · have hle := daysBeforeYear_add_le h.1 hyear
    have hend := daysBeforeMonth_le d.year (d.month + 1)
    omega
  · have hle := monotone_daysBeforeMonth d.year (Nat.succ_le_of_lt hmonth)
    rw [Nat.succ_eq_add_one] at hle
    rw [← hyear]
    omega
  · rw [← hyear, ← hmonth]
    omega

theorem dayNumber_injective (h : d.IsValid) (h' : d'.IsValid)
    (heq : d.dayNumber = d'.dayNumber) : d = d' := by
  obtain ⟨year, month, day⟩ := d
  obtain ⟨year', month', day'⟩ := d'
  have hnot := mt (dayNumber_lt h) (Nat.not_lt.mpr heq.ge)
  have hnot' := mt (dayNumber_lt h') (Nat.not_lt.mpr heq.le)
  dsimp only at hnot hnot'
  rw [mk.injEq]
  omega

theorem dayNumber_lt_daysBeforeYear_iff (h : d.IsValid) {year : Nat} :
    d.dayNumber < daysBeforeYear year ↔ d.year < year := by
  have hday := h.days_le
  have hend := daysBeforeMonth_le d.year (d.month + 1)
  have hpos := h.2.2.1
  rw [dayNumber]
  constructor
  · intro hlt
    by_contra hle
    have hmono := monotone_daysBeforeYear (Nat.not_lt.mp hle)
    omega
  · intro hlt
    have hle := daysBeforeYear_add_le h.1 hlt
    omega

/-! ### The next date -/

/-- The next day of the month, or the first of the next month, or the first of the next year. -/
def next (d : Date) : Date :=
  if (monthLengths d.year)[d.month - 1]? ≠ some d.day then ⟨d.year, d.month, d.day + 1⟩
  else if d.month < 12 then ⟨d.year, d.month + 1, 1⟩
  else ⟨d.year + 1, 1, 1⟩

theorem IsValid.next (h : d.IsValid) : d.next.IsValid := by
  obtain ⟨hyear, hmonth, hday, n, hn, hle⟩ := h
  rw [Date.next]
  split
  · next hne =>
    have hlt : d.day < n := Nat.lt_of_le_of_ne hle fun heq => hne (heq ▸ hn)
    exact ⟨hyear, hmonth, Nat.succ_pos _, n, hn, hlt⟩
  · split
    · next hlt => exact isValid_first hyear hlt
    · exact isValid_first (Nat.succ_pos _) (Nat.succ_pos 11)

/-- **The next date has the next number**, across the ends of months and years. -/
theorem dayNumber_next (h : d.IsValid) : d.next.dayNumber = d.dayNumber + 1 := by
  obtain ⟨hyear, hmonth, hday, n, hn, hle⟩ := id h
  rw [Date.next]
  split
  · dsimp only [dayNumber]
    omega
  · next hlast =>
    have hn' : n = d.day := Option.some.inj (hn.symm.trans (not_not.mp hlast))
    have hsucc := daysBeforeMonth_succ hmonth hn
    split
    · dsimp only [dayNumber]
      rw [hsucc]
      omega
    · next hlt =>
      have hmonth12 : d.month = 12 := Nat.le_antisymm h.month_le (Nat.not_lt.mp hlt)
      have hfirst : daysBeforeMonth (d.year + 1) 1 = 0 := rfl
      have hend : daysBeforeMonth d.year (12 + 1) = (monthLengths d.year).sum := rfl
      rw [hmonth12, hend] at hsucc
      dsimp only [dayNumber]
      rw [hmonth12, hfirst, daysBeforeYear_succ hyear, hsucc]
      omega

/-! ### The date of a number -/

theorem splitMonths_eq {lengths : List Nat} {n : Nat} (h : n < lengths.sum) :
    ∃ months days length, splitMonths lengths n = (months, days) ∧
      lengths[months]? = some length ∧ days < length ∧ (lengths.take months).sum + days = n := by
  induction lengths generalizing n with
  | nil => exact absurd h (Nat.not_lt_zero n)
  | cons length lengths ih =>
    rw [splitMonths]
    split
    · next hlt => exact ⟨0, n, length, rfl, rfl, hlt, Nat.zero_add n⟩
    · next hle =>
      rw [List.sum_cons] at h
      obtain ⟨months, days, length', hsplit, hlength, hlt, hsum⟩ :=
        ih (n := n - length) (by omega)
      rw [hsplit]
      refine ⟨months + 1, days, length', rfl, hlength, hlt, ?_⟩
      rw [List.take_succ_cons, List.sum_cons]
      omega

/-- A quotient that is cut at three leaves no more than one unit, unless it was cut. -/
theorem cut_div {unit : Nat} (hpos : 0 < unit) (n : Nat) :
    min 3 (n / unit) ≤ 3 ∧ unit * min 3 (n / unit) ≤ n ∧
      (n < unit * min 3 (n / unit) + unit ∨ min 3 (n / unit) = 3) := by
  refine ⟨Nat.min_le_left _ _, ?_, ?_⟩
  · calc unit * min 3 (n / unit) ≤ unit * (n / unit) :=
          Nat.mul_le_mul_left unit (Nat.min_le_right _ _)
      _ ≤ n := Nat.mul_div_le n unit
  · by_cases hcut : 3 ≤ n / unit
    · exact .inr (Nat.min_eq_left hcut)
    · rw [Nat.min_eq_right (Nat.le_of_not_le hcut)]
      exact .inl (Nat.lt_mul_div_succ n hpos)

/-- The days before a year, from its place in the cycle of four hundred years. -/
theorem daysBeforeYear_split (cycles : Nat) {centuries fours years : Nat}
    (hcenturies : centuries ≤ 3) (hfours : fours ≤ 24) (hyears : years ≤ 3) :
    daysBeforeYear (400 * cycles + 100 * centuries + 4 * fours + years + 1) =
      146097 * cycles + 36524 * centuries + 1461 * fours + 365 * years := by
  rw [daysBeforeYear, Nat.add_sub_cancel]
  have h4 : (400 * cycles + 100 * centuries + 4 * fours + years) / 4 =
    100 * cycles + 25 * centuries + fours := by omega
  have h100 : (400 * cycles + 100 * centuries + 4 * fours + years) / 100 =
    4 * cycles + centuries := by omega
  have h400 : (400 * cycles + 100 * centuries + 4 * fours + years) / 400 = cycles := by omega
  rw [h4, h100, h400]
  omega

/-- The fourth year of four is a leap year, but at the end of a century only in the last century. -/
theorem isLeap_split (cycles : Nat) {centuries fours : Nat} (hfours : fours ≤ 24)
    (h : fours = 24 → centuries = 3) :
    isLeap (400 * cycles + 100 * centuries + 4 * fours + 3 + 1) = true := by
  rw [isLeap_iff]
  omega

theorem splitYear_eq (n : Nat) :
    ∃ year days, splitYear n = (year, days) ∧ 1 ≤ year ∧ days < (monthLengths year).sum ∧
      daysBeforeYear year + days = n := by
  refine ⟨_, _, rfl, Nat.succ_pos _, ?_⟩
  -- What is left after each division gets a name, and the bound that the division gives.
  have hinCycle : n % 146097 < 146097 := Nat.mod_lt _ (by decide)
  have hn := Nat.div_add_mod n 146097
  generalize n / 146097 = cycles at *
  generalize n % 146097 = inCycle at *
  obtain ⟨hcenturies, hle, hinCentury⟩ := cut_div (show 0 < 36524 by decide) inCycle
  generalize min 3 (inCycle / 36524) = centuries at *
  obtain ⟨inCentury, rfl⟩ := Nat.exists_eq_add_of_le hle
  rw [Nat.add_sub_cancel_left]
  have hinFour : inCentury % 1461 < 1461 := Nat.mod_lt _ (by decide)
  have hdiv := Nat.div_add_mod inCentury 1461
  generalize inCentury / 1461 = fours at *
  generalize inCentury % 1461 = inFour at *
  have hfours : fours ≤ 24 := by omega
  obtain ⟨hyears, hle, hinYear⟩ := cut_div (show 0 < 365 by decide) inFour
  generalize min 3 (inFour / 365) = years at *
  obtain ⟨days, rfl⟩ := Nat.exists_eq_add_of_le hle
  rw [Nat.add_sub_cancel_left, daysBeforeYear_split cycles hcenturies hfours hyears,
    sum_monthLengths]
  refine ⟨?_, by omega⟩
  split
  · omega
  · next hleap =>
    -- A day more than these is in the fourth year, which is a leap year where there is such a day.
    by_contra hmore
    obtain rfl : years = 3 := by omega
    exact hleap (isLeap_split cycles hfours (by omega))

theorem ofDayNumber_spec (n : Nat) : (ofDayNumber n).IsValid ∧ (ofDayNumber n).dayNumber = n := by
  obtain ⟨year, rest, hyear, hpos, hrest, hn⟩ := splitYear_eq n
  obtain ⟨months, days, length, hmonths, hlength, hlt, hsum⟩ := splitMonths_eq hrest
  rw [ofDayNumber, hyear]
  dsimp only
  rw [hmonths]
  refine ⟨⟨hpos, Nat.succ_pos _, Nat.succ_pos _, length, hlength, hlt⟩, ?_⟩
  rw [dayNumber, daysBeforeMonth_eq]
  dsimp only
  rw [Nat.add_sub_cancel, Nat.add_sub_cancel]
  omega

theorem ofDayNumber_dayNumber (h : d.IsValid) : ofDayNumber d.dayNumber = d :=
  dayNumber_injective (ofDayNumber_spec _).1 h (ofDayNumber_spec _).2

end Date

end QueryComposer.Calendar
