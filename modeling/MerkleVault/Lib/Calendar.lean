import Mathlib

/-! # The Civil Calendar

Years and months are read off a number of days by the tables of the days before them.  Reading a
number off a table, and the rest, keeps the order, so dates compare as the days they stand for.

* `place_lt_iff`: numbers compare by their places in a table, then by the rests;
* `civil_lt_iff`: dates compare as days;
* `dayOf_civil`, `isDate_civil`: the date of a day is one, and the day is found from it. -/

namespace MerkleVault.Lib.Calendar

/-! ### Tables -/

/-- The last place of a table, up to a given one, with an entry that is not above the number. -/
def place (table : ℕ → ℕ) (last n : ℕ) : ℕ := Nat.findGreatest (fun i => table i ≤ n) last

/-- What the number is beyond its place. -/
def rest (table : ℕ → ℕ) (last n : ℕ) : ℕ := n - table (place table last n)

section Table

variable {table : ℕ → ℕ} {last : ℕ}

theorem place_le (n : ℕ) : place table last n ≤ last := Nat.findGreatest_le _

theorem table_place_le (h₀ : table 0 = 0) (n : ℕ) : table (place table last n) ≤ n :=
  Nat.findGreatest_spec (P := fun i => table i ≤ n) (Nat.zero_le last) (by simp [h₀])

theorem lt_table {n i : ℕ} (h : place table last n < i) (hi : i ≤ last) : n < table i :=
  Nat.lt_of_not_le (Nat.findGreatest_is_greatest (P := fun i => table i ≤ n) h hi)

/-- **Numbers compare by their places**, then by the rests. -/
theorem place_lt_iff (h₀ : table 0 = 0) {a b : ℕ} : a < b ↔
    place table last a < place table last b ∨
      place table last a = place table last b ∧ rest table last a < rest table last b := by
  have ha : table (place table last a) ≤ a := table_place_le h₀ a
  have hb : table (place table last b) ≤ b := table_place_le h₀ b
  have hstep : ∀ {a b : ℕ}, place table last a < place table last b → a < b := fun h =>
    Nat.lt_of_lt_of_le (lt_table h (place_le _)) (table_place_le h₀ _)
  rcases Nat.lt_trichotomy (place table last a) (place table last b) with h | h | h
  · exact iff_of_true (hstep h) (.inl h)
  · unfold rest
    rw [h] at ha ⊢
    omega
  · have hlt := hstep h
    omega

end Table

/-! ### Dates -/

/-- The days before the first of January, from the year 0 on. -/
def daysBeforeYear (y : ℕ) : ℕ := 365 * y + (y + 3) / 4 - (y + 99) / 100 + (y + 399) / 400

/-- A leap year of the Gregorian calendar. -/
def isLeap (y : ℕ) : Bool := y % 4 = 0 && (y % 100 ≠ 0 || y % 400 = 0)

/-- The days of a year before its month, counted from 0. -/
def daysBeforeMonth (leap : Bool) (m : ℕ) : ℕ :=
  [0, 31, 59, 90, 120, 151, 181, 212, 243, 273, 304, 334].getD m 365 +
    if leap && decide (2 ≤ m) then 1 else 0

/-- The year of a day, up to 9999. -/
def yearOf (day : ℕ) : ℕ := place daysBeforeYear 9999 day

/-- The day within its year. -/
def dayOfYear (day : ℕ) : ℕ := rest daysBeforeYear 9999 day

/-- The month and the day of the month, both counted from 0. -/
def monthOf (day : ℕ) : ℕ := place (daysBeforeMonth (isLeap (yearOf day))) 11 (dayOfYear day)

/-- The day within its month. -/
def dayOfMonth (day : ℕ) : ℕ := rest (daysBeforeMonth (isLeap (yearOf day))) 11 (dayOfYear day)

/-- The date of a day. -/
def civil (day : ℕ) : List ℕ := [yearOf day, monthOf day + 1, dayOfMonth day + 1]

theorem daysBeforeYear_zero : daysBeforeYear 0 = 0 := rfl

theorem daysBeforeMonth_zero (leap : Bool) : daysBeforeMonth leap 0 = 0 := by
  cases leap <;> rfl

/-- The first day past the calendar. -/
def endOfCalendar : ℕ := daysBeforeYear 10000

theorem dayOfYear_lt {day : ℕ} (h : day < endOfCalendar) : dayOfYear day < 366 := by
  have hle : daysBeforeYear (yearOf day) ≤ day := table_place_le daysBeforeYear_zero day
  have hlast : yearOf day ≤ 9999 := place_le day
  have hnext : day < daysBeforeYear (yearOf day + 1) := by
    rcases Nat.lt_or_eq_of_le hlast with hlt | heq
    · exact lt_table (Nat.lt_add_one _) hlt
    · rw [heq]
      exact h
  unfold dayOfYear rest
  unfold yearOf daysBeforeYear at *
  omega

/-- The months have at most 31 days. -/
theorem month_length (leap : Bool) : ∀ m < 12,
    daysBeforeMonth leap (m + 1) ≤ daysBeforeMonth leap m + 31 := by
  cases leap <;> decide

theorem dayOfMonth_lt {day : ℕ} (h : day < endOfCalendar) : dayOfMonth day < 32 := by
  have hday := dayOfYear_lt h
  have hlast : monthOf day ≤ 11 := place_le (dayOfYear day)
  change dayOfYear day - daysBeforeMonth (isLeap (yearOf day)) (monthOf day) < 32
  rcases Nat.lt_or_eq_of_le hlast with hlt | heq
  · have hnext : dayOfYear day < daysBeforeMonth (isLeap (yearOf day)) (monthOf day + 1) :=
      lt_table (Nat.lt_add_one _) hlt
    have hmonth := month_length (isLeap (yearOf day)) _ (Nat.lt_succ_of_lt hlt)
    omega
  · have hdecember : 334 ≤ daysBeforeMonth (isLeap (yearOf day)) 11 := by
      cases isLeap (yearOf day) <;> decide
    rw [heq]
    omega

/-- **Dates compare as days.** -/
theorem civil_lt_iff {a b : ℕ} : civil a < civil b ↔ a < b := by
  have hyears := @place_lt_iff _ 9999 daysBeforeYear_zero a b
  rw [hyears]
  unfold civil
  simp only [List.cons_lt_cons_iff, Nat.add_lt_add_iff_right, Nat.add_right_cancel_iff,
    List.not_lt_nil, and_false, or_false]
  refine or_congr_right (and_congr_right fun hyear => ?_)
  have hleap : isLeap (yearOf a) = isLeap (yearOf b) := congrArg isLeap hyear
  have hmonth := @place_lt_iff _ 11 (daysBeforeMonth_zero (isLeap (yearOf b))) (dayOfYear a) (dayOfYear b)
  unfold monthOf dayOfMonth
  rw [hleap]
  exact hmonth.symm

/-- Different days have different dates. -/
theorem civil_inj {a b : ℕ} (h : civil a = civil b) : a = b := by
  have hab := civil_lt_iff (a := a) (b := b)
  have hba := civil_lt_iff (a := b) (b := a)
  rw [h] at hab hba
  have := hab.not.mp (List.lt_irrefl _)
  have := hba.not.mp (List.lt_irrefl _)
  omega

/-! ### Days of dates -/

/-- The day of a date. -/
def dayOf (year month day : ℕ) : ℕ :=
  daysBeforeYear year + daysBeforeMonth (isLeap year) (month - 1) + (day - 1)

/-- The month is one of twelve and the day is one of the month's. -/
def IsDate (year month day : ℕ) : Prop :=
  1 ≤ month ∧ month ≤ 12 ∧ 1 ≤ day ∧
    daysBeforeMonth (isLeap year) (month - 1) + day ≤ daysBeforeMonth (isLeap year) month

instance (year month day : ℕ) : Decidable (IsDate year month day) :=
  inferInstanceAs (Decidable (_ ∧ _))

theorem IsDate.day_le {year month day : ℕ} (h : IsDate year month day) : day ≤ 31 := by
  obtain ⟨hmin, hmax, -, hday⟩ := h
  have hmonth := month_length (isLeap year) (month - 1) (by omega)
  rw [Nat.sub_add_cancel hmin] at hmonth
  omega

/-- **The day is found from its date.** -/
theorem dayOf_civil (day : ℕ) :
    dayOf (yearOf day) (monthOf day + 1) (dayOfMonth day + 1) = day := by
  have hyear : daysBeforeYear (yearOf day) ≤ day := table_place_le daysBeforeYear_zero day
  have hmonth : daysBeforeMonth (isLeap (yearOf day)) (monthOf day) ≤ dayOfYear day :=
    table_place_le (daysBeforeMonth_zero _) _
  have hday : dayOfMonth day = dayOfYear day - daysBeforeMonth (isLeap (yearOf day)) (monthOf day) := rfl
  have hrest : dayOfYear day = day - daysBeforeYear (yearOf day) := rfl
  unfold dayOf
  simp only [Nat.add_sub_cancel]
  omega

/-- Days and leap years without subtraction. -/
theorem daysBeforeYear_add (y : ℕ) :
    daysBeforeYear y + (y + 99) / 100 = 365 * y + (y + 3) / 4 + (y + 399) / 400 := by
  unfold daysBeforeYear
  omega

/-- The multiples of `k + 1` up to `y` are those below `y` and perhaps `y`. -/
theorem multiples_succ (y k : ℕ) :
    (y + k + 1) / (k + 1) = (y + k) / (k + 1) + if y % (k + 1) = 0 then 1 else 0 := by
  have hdvd : k + 1 ∣ y + k + 1 ↔ y % (k + 1) = 0 := by
    rw [Nat.add_assoc, Nat.dvd_add_self_right, Nat.dvd_iff_mod_eq_zero]
  rw [Nat.succ_div]
  exact congrArg _ (if_congr hdvd rfl rfl)

/-- A year has a day for each day of its months. -/
theorem daysBeforeYear_succ (y : ℕ) :
    daysBeforeYear (y + 1) = daysBeforeYear y + daysBeforeMonth (isLeap y) 12 := by
  have hlength : daysBeforeMonth (isLeap y) 12 = 365 + if isLeap y = true then 1 else 0 := by
    cases isLeap y <;> rfl
  have hleap : isLeap y = true ↔ y % 4 = 0 ∧ (y % 100 ≠ 0 ∨ y % 400 = 0) := by
    simp [isLeap]
  have hy := daysBeforeYear_add y
  have hsucc := daysBeforeYear_add (y + 1)
  rw [Nat.add_right_comm y 1 3, Nat.add_right_comm y 1 99, Nat.add_right_comm y 1 399,
    multiples_succ y 3, multiples_succ y 99, multiples_succ y 399] at hsucc
  rw [hlength, if_congr hleap rfl rfl]
  have h100 : y % 100 = 0 → y % 4 = 0 := by omega
  have h400 : y % 400 = 0 → y % 100 = 0 := by omega
  split_ifs at hsucc ⊢ <;> omega

/-- **The date of a day is a date.** -/
theorem isDate_civil {day : ℕ} (h : day < endOfCalendar) :
    IsDate (yearOf day) (monthOf day + 1) (dayOfMonth day + 1) := by
  have hlastYear : yearOf day ≤ 9999 := place_le day
  have hlastMonth : monthOf day ≤ 11 := place_le (dayOfYear day)
  have hyear : daysBeforeYear (yearOf day) ≤ day := table_place_le daysBeforeYear_zero day
  have hmonth : daysBeforeMonth (isLeap (yearOf day)) (monthOf day) ≤ dayOfYear day :=
    table_place_le (daysBeforeMonth_zero _) _
  have hrest : dayOfYear day = day - daysBeforeYear (yearOf day) := rfl
  have hday : dayOfMonth day = dayOfYear day - daysBeforeMonth (isLeap (yearOf day)) (monthOf day) := rfl
  have hnextYear : day < daysBeforeYear (yearOf day + 1) := by
    rcases Nat.lt_or_eq_of_le hlastYear with hlt | heq
    · exact lt_table (Nat.lt_add_one _) hlt
    · rw [heq]
      exact h
  have hnextMonth : dayOfYear day < daysBeforeMonth (isLeap (yearOf day)) (monthOf day + 1) := by
    rcases Nat.lt_or_eq_of_le hlastMonth with hlt | heq
    · exact lt_table (Nat.lt_add_one _) hlt
    · have hlength := daysBeforeYear_succ (yearOf day)
      rw [heq]
      change dayOfYear day < daysBeforeMonth (isLeap (yearOf day)) 12
      omega
  refine ⟨by omega, by omega, by omega, ?_⟩
  rw [Nat.add_sub_cancel]
  omega

end MerkleVault.Lib.Calendar
