import MerkleVault.Sqlite.AuditRows
import MerkleVault.Lib.Calendar
import MerkleVault.Lib.FixedWidth

/-! # Timestamps as Text

A time is stored as its RFC 3339 text in UTC, with six digits of the second, and SQLite compares such
texts byte by byte.  From the year 0 to 9999 that is the order of the times cut to the microsecond,
leap seconds included: their second is printed as 60.

* `rfc3339_lt_iff`: texts compare as times at microseconds;
* `printingCrates`: a printer of all times that writes those texts. -/

namespace MerkleVault.Sqlite.TimestampText

open MerkleVault.Types MerkleVault.External MerkleVault.Lib.Ascii
  MerkleVault.Lib.FixedWidth MerkleVault.Lib.Calendar
open MerkleVault.Sqlite.AuditRows MerkleVault.Audit.Integrity

/-- The seconds since the first of January of the year 0. -/
def secondsFromYearZero (t : Rfc3339Timestamp) : ℕ := (t.timestamp + 62167219200).toNat

/-- The day since the first of January of the year 0. -/
def dayNumber (t : Rfc3339Timestamp) : ℕ := secondsFromYearZero t / 86400

/-- Hour, minute, second and microsecond. -/
def timeOfDay (t : Rfc3339Timestamp) : List ℕ :=
  let second := secondsFromYearZero t % 86400
  [second / 3600, second / 60 % 60, second % 60 + t.subsec / 1000000000,
    t.subsec % 1000000000 / 1000]

/-- Date and time of day. -/
def dateTime (t : Rfc3339Timestamp) : List ℕ := civil (dayNumber t) ++ timeOfDay t

/-- The fields of the text and what follows each. -/
def shape : List (ℕ × Char) :=
  [(4, '-'), (2, '-'), (2, 'T'), (2, ':'), (2, ':'), (2, '.'), (6, 'Z')]

/-- `to_rfc3339_opts(SecondsFormat::Micros, true)`, for the years of four digits. -/
def rfc3339 (t : Rfc3339Timestamp) : String := String.ofList (fields shape (dateTime t))

/-- The order at microseconds. -/
def MicrosLt (a b : Rfc3339Timestamp) : Prop :=
  a.timestamp < b.timestamp ∨ a.timestamp = b.timestamp ∧ a.subsec / 1000 < b.subsec / 1000

instance (a b : Rfc3339Timestamp) : Decidable (MicrosLt a b) := inferInstanceAs (Decidable (_ ∨ _))

section

variable {a b t : Rfc3339Timestamp}

theorem dayNumber_lt (ht : FourDigitYear t) : dayNumber t < endOfCalendar := by
  obtain ⟨-, hhi⟩ := ht
  have hend : endOfCalendar = 3652425 := rfl
  rw [hend]
  unfold dayNumber secondsFromYearZero
  omega

/-- The date and the time fit their fields. -/
theorem dateTime_fits (ht : FourDigitYear t) : Fits shape (dateTime t) := by
  have hyear : yearOf (dayNumber t) ≤ 9999 := place_le _
  have hmonth : monthOf (dayNumber t) ≤ 11 := place_le _
  have hday := dayOfMonth_lt (dayNumber_lt ht)
  have hsub := t.subsec_lt
  unfold dateTime timeOfDay shape civil Fits
  simp only [List.cons_append, List.nil_append, List.forall₂_cons, List.forall₂_nil_left_iff, and_true]
  refine ⟨?_, ?_, ?_, ?_, ?_, ?_, ?_⟩ <;> omega

/-- Day, hour and minute compare as minutes. -/
theorem minute_lt_iff (n m : ℕ) : n / 60 < m / 60 ↔ n / 86400 < m / 86400 ∨ n / 86400 = m / 86400 ∧
    (n % 86400 / 3600 < m % 86400 / 3600 ∨ n % 86400 / 3600 = m % 86400 / 3600 ∧
      n % 86400 / 60 % 60 < m % 86400 / 60 % 60) := by
  omega

/-- Within a minute, second and microsecond compare as times, a leap second included. -/
theorem second_lt_iff {n m x y : ℕ} (hx : x < 2000000000) (hy : y < 2000000000)
    (hn : 1000000000 ≤ x → n % 60 = 59) (hm : 1000000000 ≤ y → m % 60 = 59) (hminute : n / 60 = m / 60) :
    (n % 60 + x / 1000000000 < m % 60 + y / 1000000000 ∨
      n % 60 + x / 1000000000 = m % 60 + y / 1000000000 ∧
        x % 1000000000 / 1000 < y % 1000000000 / 1000) ↔
      n < m ∨ n = m ∧ x / 1000 < y / 1000 := by
  omega

/-- A leap second is the last of a minute. -/
theorem leap_second (ht : FourDigitYear t) (h : 1000000000 ≤ t.subsec) :
    secondsFromYearZero t % 60 = 59 := by
  obtain ⟨hlo, -⟩ := ht
  have := t.leap h
  unfold secondsFromYearZero
  omega

theorem microsLt_iff (ha : FourDigitYear a) (hb : FourDigitYear b) : MicrosLt a b ↔
    secondsFromYearZero a < secondsFromYearZero b ∨
      secondsFromYearZero a = secondsFromYearZero b ∧ a.subsec / 1000 < b.subsec / 1000 := by
  obtain ⟨halo, -⟩ := ha
  obtain ⟨hblo, -⟩ := hb
  unfold MicrosLt secondsFromYearZero
  omega

/-- Dates compare first, then the time of day. -/
theorem dateTime_lt : dateTime a < dateTime b ↔
    dayNumber a < dayNumber b ∨ dayNumber a = dayNumber b ∧ timeOfDay a < timeOfDay b := by
  have hlength : (civil (dayNumber a)).length = (civil (dayNumber b)).length := by simp [civil]
  have hdate : civil (dayNumber a) = civil (dayNumber b) ↔ dayNumber a = dayNumber b :=
    ⟨civil_inj, congrArg civil⟩
  rw [dateTime, dateTime, append_lt_iff hlength, civil_lt_iff, hdate]

/-- **Dates and times compare as times at microseconds.** -/
theorem dateTime_lt_iff (ha : FourDigitYear a) (hb : FourDigitYear b) :
    dateTime a < dateTime b ↔ MicrosLt a b := by
  have hsecond := second_lt_iff a.subsec_lt b.subsec_lt (leap_second ha) (leap_second hb)
  have hminute := minute_lt_iff (secondsFromYearZero a) (secondsFromYearZero b)
  rw [microsLt_iff ha hb, dateTime_lt]
  simp only [dayNumber, timeOfDay, List.cons_lt_cons_iff, List.not_lt_nil, and_false, or_false]
  by_cases h : secondsFromYearZero a / 60 = secondsFromYearZero b / 60
  · -- in one minute the date, the hour and the minute agree
    rw [← hsecond h]
    omega
  · -- otherwise they decide
    omega

theorem rfc3339_ascii (t : Rfc3339Timestamp) : IsAscii (rfc3339 t).toList := by
  rw [rfc3339, String.toList_ofList]
  exact fields_ascii (by decide) _

/-- **Texts compare as times at microseconds.** -/
theorem rfc3339_lt_iff (ha : FourDigitYear a) (hb : FourDigitYear b) :
    codes (rfc3339 a).toList < codes (rfc3339 b).toList ↔ MicrosLt a b := by
  rw [rfc3339, rfc3339, String.toList_ofList, String.toList_ofList,
    fields_lt_iff (dateTime_fits ha) (dateTime_fits hb), dateTime_lt_iff ha hb]

end

/-! ### A printer of all times -/

instance (t : Rfc3339Timestamp) : Decidable (FourDigitYear t) := inferInstanceAs (Decidable (_ ∧ _))

/-- The text of RFC 3339 in its years, and a signed text in all others. -/
def timeText (t : Rfc3339Timestamp) : String :=
  if FourDigitYear t then rfc3339 t else String.ofList (epochText t)

section

variable {a b t : Rfc3339Timestamp}

/-- Equal texts are equal times at microseconds. -/
theorem micros_of_rfc3339 (ha : FourDigitYear a) (hb : FourDigitYear b) (h : rfc3339 a = rfc3339 b) :
    a.micros = b.micros := by
  have hab := (rfc3339_lt_iff ha hb).not.mp (h ▸ List.lt_irrefl _)
  have hba := (rfc3339_lt_iff hb ha).not.mp (h ▸ List.lt_irrefl _)
  unfold MicrosLt at hab hba
  refine Prod.ext ?_ ?_ <;> simp only [Rfc3339Timestamp.micros] <;> omega

/-- A text of RFC 3339 starts with a digit, all others with a sign. -/
theorem rfc3339_ne_epochText (hb : ¬FourDigitYear b) : rfc3339 a ≠ String.ofList (epochText b) := by
  have hdigit : ∀ d < 10, Char.ofNat (48 + d) ∉ ['-', '+'] := by decide
  have hsign : signChar b ∈ ['-', '+'] := by
    unfold signChar
    split_ifs <;> simp
  have hepoch : b.micros ≠ (0, 0) := by
    intro h
    have : b.timestamp = 0 := congrArg Prod.fst h
    exact hb ⟨by omega, by omega⟩
  intro h
  have hlists := congrArg List.head? (String.ofList_inj.mp h)
  rw [epochText, if_neg hepoch] at hlists
  exact hdigit _ (lead_digit_lt 3 _) (Option.some.inj hlists ▸ hsign)

theorem micros_of_timeText (h : timeText a = timeText b) : a.micros = b.micros := by
  unfold timeText at h
  split_ifs at h with ha hb hb
  · exact micros_of_rfc3339 ha hb h
  · exact absurd h (rfc3339_ne_epochText hb)
  · exact absurd h.symm (rfc3339_ne_epochText ha)
  · exact micros_of_epochText (String.ofList_inj.mp h)

theorem timeText_congr (h : a.micros = b.micros) : timeText a = timeText b := by
  obtain ⟨hsecs, hsub⟩ := Prod.ext_iff.mp h
  simp only [Rfc3339Timestamp.micros] at hsecs hsub
  have hdate : dateTime a = dateTime b := by
    have hleap : a.subsec / 1000000000 = b.subsec / 1000000000 := by omega
    have hrest : a.subsec % 1000000000 / 1000 = b.subsec % 1000000000 / 1000 := by omega
    simp only [dateTime, dayNumber, timeOfDay, secondsFromYearZero, hsecs, hleap, hrest]
  have hepoch : epochText a = epochText b := by
    unfold epochText signChar
    rw [h, hsecs, hsub]
  have hyears : FourDigitYear a ↔ FourDigitYear b := by rw [FourDigitYear, FourDigitYear, hsecs]
  unfold timeText rfc3339
  rw [hdate, hepoch]
  exact if_congr hyears rfl rfl

end

/-- Crates that print times as RFC 3339 has it. -/
def printingCrates : Crates :=
  { sampleCrates with
    toRfc3339 := timeText
    micros_of_toRfc3339 := fun _ _ => micros_of_timeText }

theorem printing_lawful : (Readers.inverse printingCrates).Lawful printingCrates :=
  Readers.inverse_lawful fun _ _ => timeText_congr

end MerkleVault.Sqlite.TimestampText
