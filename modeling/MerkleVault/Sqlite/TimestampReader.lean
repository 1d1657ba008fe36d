import MerkleVault.Sqlite.AuditQueries
import Mathlib

/-!
# Timestamps Read Back from Text

`Display` prints six digits of the second and `FromStr` reads the fields of the text.  What is read
back is the time cut to the microsecond, and times within one microsecond have one text.

* `instant_fieldsOf`: the fields that are printed stand for the time at microseconds;
* `parse_display_iff`: which times come back from their texts;
* `timestamp_text_exact_iff`: the times whose texts are lossless and in their order.
-/

namespace MerkleVault.Sqlite.TimestampReader

open MerkleVault.Types MerkleVault.External MerkleVault.Lib.FixedWidth MerkleVault.Lib.Calendar
open MerkleVault.Sqlite.AuditRows MerkleVault.Sqlite.TimestampText MerkleVault.Sqlite.AuditQueries
open MerkleVault.Audit.Integrity

/-! ### Dates and times of RFC 3339 -/

/-- A date and a time of day to the microsecond.  A second 60 is a leap second. -/
structure DateTimeFields where
  year : ℕ
  month : ℕ
  day : ℕ
  hour : ℕ
  minute : ℕ
  second : ℕ
  micro : ℕ
  year_le : year ≤ 9999
  date : IsDate year month day
  hour_lt : hour < 24
  minute_lt : minute < 60
  second_le : second ≤ 60
  micro_lt : micro < 1000000

namespace DateTimeFields

/-- The numbers of a text's fields. -/
def numbers (f : DateTimeFields) : List ℕ :=
  [f.year, f.month, f.day, f.hour, f.minute, f.second, f.micro]

/-- The fields as RFC 3339 text in UTC. -/
def text (f : DateTimeFields) : String := String.ofList (fields shape f.numbers)

/-- The instant that the fields stand for.  A leap second runs on from the second before it. -/
def instant (f : DateTimeFields) : Rfc3339Timestamp where
  timestamp := (dayOf f.year f.month f.day * 86400 + f.hour * 3600 + f.minute * 60 + min f.second 59 :
    ℕ) - 62167219200
  subsec := (if f.second = 60 then 1000000000 else 0) + f.micro * 1000
  subsec_lt := by
    have := f.micro_lt
    split_ifs <;> omega
  leap := by
    have := f.micro_lt
    intro h
    have hsecond : f.second = 60 := by
      by_contra hne
      rw [if_neg hne] at h
      omega
    omega

theorem instant_subsec (f : DateTimeFields) :
    f.instant.subsec = (if f.second = 60 then 1000000000 else 0) + f.micro * 1000 := rfl

end DateTimeFields

/-- A reader of RFC 3339 takes a text of valid fields for the instant they stand for. -/
def ReadsFields (R : Readers) : Prop := ∀ f : DateTimeFields, R.parseRfc3339 f.text = some f.instant

/-- The time has no digits below the microsecond. -/
def WholeMicros (t : Rfc3339Timestamp) : Prop := t.subsec % 1000 = 0

instance (t : Rfc3339Timestamp) : Decidable (WholeMicros t) := inferInstanceAs (Decidable (_ = _))

/-! ### What is printed -/

section

variable {t : Rfc3339Timestamp}

/-- The fields that are printed for a time. -/
def fieldsOf (ht : FourDigitYear t) : DateTimeFields where
  year := yearOf (dayNumber t)
  month := monthOf (dayNumber t) + 1
  day := dayOfMonth (dayNumber t) + 1
  hour := secondsFromYearZero t % 86400 / 3600
  minute := secondsFromYearZero t % 86400 / 60 % 60
  second := secondsFromYearZero t % 86400 % 60 + t.subsec / 1000000000
  micro := t.subsec % 1000000000 / 1000
  year_le := place_le _
  date := isDate_civil (dayNumber_lt ht)
  hour_lt := by omega
  minute_lt := by omega
  second_le := by
    have := t.subsec_lt
    omega
  micro_lt := by omega

theorem rfc3339_eq_text (ht : FourDigitYear t) : rfc3339 t = (fieldsOf ht).text := rfl

/-- Day, hour, minute and second make up the seconds. -/
theorem seconds_split (n : ℕ) :
    n / 86400 * 86400 + n % 86400 / 3600 * 3600 + n % 86400 / 60 % 60 * 60 + n % 86400 % 60 = n := by
  omega

/-- **The printed fields stand for the time at microseconds.** -/
theorem instant_fieldsOf (ht : FourDigitYear t) : (fieldsOf ht).instant = t.atMicros := by
  have hlo : -62167219200 ≤ t.timestamp := ht.1
  have hsub := t.subsec_lt
  have hleap := leap_second ht
  have hsplit := seconds_split (secondsFromYearZero t)
  have hday : dayOf (yearOf (dayNumber t)) (monthOf (dayNumber t) + 1) (dayOfMonth (dayNumber t) + 1) =
      secondsFromYearZero t / 86400 := dayOf_civil _
  have hsecond : (secondsFromYearZero t % 86400 % 60 + t.subsec / 1000000000 = 60 ↔
      1000000000 ≤ t.subsec) ∧
      min (secondsFromYearZero t % 86400 % 60 + t.subsec / 1000000000) 59 =
        secondsFromYearZero t % 86400 % 60 := by
    by_cases h : 1000000000 ≤ t.subsec
    · have := hleap h
      omega
    · omega
  have hseconds : (secondsFromYearZero t : ℤ) - 62167219200 = t.timestamp := by
    unfold secondsFromYearZero
    omega
  have htimestamp : (fieldsOf ht).instant.timestamp = t.atMicros.timestamp := by
    simp only [DateTimeFields.instant, fieldsOf, hday, hsecond.2, hsplit]
    exact hseconds
  have hsubsec : (fieldsOf ht).instant.subsec = t.atMicros.subsec := by
    have hleapSecond : (fieldsOf ht).second = 60 ↔ 1000000000 ≤ t.subsec := hsecond.1
    have hmicro : (fieldsOf ht).micro = t.subsec % 1000000000 / 1000 := rfl
    have hcut : t.atMicros.subsec = t.subsec / 1000 * 1000 := rfl
    rw [DateTimeFields.instant_subsec, hmicro, hcut]
    split_ifs with h
    · have := hleapSecond.mp h
      omega
    · have := hleapSecond.not.mp h
      omega
  generalize (fieldsOf ht).instant = a at htimestamp hsubsec ⊢
  generalize t.atMicros = b at htimestamp hsubsec ⊢
  cases a
  cases b
  simp only at htimestamp hsubsec
  subst htimestamp hsubsec
  rfl

theorem atMicros_eq_self : t.atMicros = t ↔ WholeMicros t := by
  have hsubsec : t.atMicros.subsec = t.subsec / 1000 * 1000 := rfl
  unfold WholeMicros
  constructor
  · intro h
    rw [h] at hsubsec
    omega
  · intro h
    have heq : t.atMicros.subsec = t.subsec := by omega
    have htimestamp : t.atMicros.timestamp = t.timestamp := rfl
    generalize t.atMicros = a at heq htimestamp ⊢
    cases a
    cases t
    simp only at heq htimestamp
    subst heq htimestamp
    rfl

end

/-! ### Round trip and order -/

section

variable {K : Crates} {R : Readers} (hK : Renders K) (hR : ReadsFields R) {t t₁ t₂ : Rfc3339Timestamp}

include hK hR in
/-- What is read back is the time at microseconds. -/
theorem parse_display (ht : FourDigitYear t) :
    parseTimestamp R (K.toRfc3339 t) = .ok t.atMicros := by
  rw [parseTimestamp, hK t ht, rfc3339_eq_text ht, hR (fieldsOf ht), instant_fieldsOf]

include hK hR in
/-- **A time comes back from its text** exactly if it is at a whole microsecond. -/
theorem parse_display_iff (ht : FourDigitYear t) :
    parseTimestamp R (K.toRfc3339 t) = .ok t ↔ WholeMicros t := by
  rw [parse_display hK hR ht, Except.ok.injEq, atMicros_eq_self]

include hK in
/-- The texts of whole microseconds are in the order of the times. -/
theorem text_lt_iff_lt (h₁ : FourDigitYear t₁) (h₂ : FourDigitYear t₂) (hw₁ : WholeMicros t₁)
    (hw₂ : WholeMicros t₂) :
    textBytes (K.toRfc3339 t₁) < textBytes (K.toRfc3339 t₂) ↔ t₁.lt t₂ = true := by
  have hlt := atMicros_lt_atMicros (a := t₁) (b := t₂)
  rw [atMicros_eq_self.mpr hw₁, atMicros_eq_self.mpr hw₂] at hlt
  rw [text_lt_iff hK h₁ h₂, hlt, decide_eq_true_iff]

include hK hR in
/-- **The texts of two times are lossless and in their order** exactly if neither time has digits
below the microsecond. -/
theorem timestamp_text_exact_iff (h₁ : FourDigitYear t₁) (h₂ : FourDigitYear t₂) :
    (parseTimestamp R (K.toRfc3339 t₁) = .ok t₁ ∧ parseTimestamp R (K.toRfc3339 t₂) = .ok t₂ ∧
      (textBytes (K.toRfc3339 t₁) < textBytes (K.toRfc3339 t₂) ↔ t₁.lt t₂ = true)) ↔
    WholeMicros t₁ ∧ WholeMicros t₂ := by
  rw [parse_display_iff hK hR h₁, parse_display_iff hK hR h₂]
  constructor
  · rintro ⟨hw₁, hw₂, -⟩
    exact ⟨hw₁, hw₂⟩
  · rintro ⟨hw₁, hw₂⟩
    exact ⟨hw₁, hw₂, text_lt_iff_lt hK h₁ h₂ hw₁ hw₂⟩

end

/-! ### A reader of the printed texts -/

/-- The fields of a text of the shape that is printed. -/
def readText (s : String) : Option DateTimeFields :=
  match readFields shape s.toList with
  | some [year, month, day, hour, minute, second, micro] =>
    if h : year ≤ 9999 ∧ IsDate year month day ∧ hour < 24 ∧ minute < 60 ∧ second ≤ 60 ∧
        micro < 1000000 then
      some ⟨year, month, day, hour, minute, second, micro, h.1, h.2.1, h.2.2.1, h.2.2.2.1, h.2.2.2.2.1,
        h.2.2.2.2.2⟩
    else none
  | _ => none

/-- A reader of times by their fields. -/
def fieldReaders : Readers where
  parseUuid _ := none
  parseRfc3339 s := (readText s).map DateTimeFields.instant

theorem DateTimeFields.fits (f : DateTimeFields) : Fits shape f.numbers := by
  have hday := f.date.day_le
  obtain ⟨-, hmonth, -, -⟩ := f.date
  have := f.year_le
  have := f.hour_lt
  have := f.minute_lt
  have := f.second_le
  have := f.micro_lt
  unfold DateTimeFields.numbers shape Fits
  simp only [List.forall₂_cons, List.forall₂_nil_left_iff, and_true]
  refine ⟨?_, ?_, ?_, ?_, ?_, ?_, ?_⟩ <;> omega

theorem fieldReaders_reads : ReadsFields fieldReaders := by
  intro f
  have hread : readFields shape f.text.toList = some f.numbers := by
    rw [DateTimeFields.text, String.toList_ofList, readFields_fields f.fits]
  have htext : readText f.text = some f := by
    unfold readText
    rw [hread]
    exact dif_pos ⟨f.year_le, f.date, f.hour_lt, f.minute_lt, f.second_le, f.micro_lt⟩
  change (readText f.text).map _ = _
  rw [htext, Option.map_some]

/-- A nanosecond past the epoch. -/
def nanosecondPastEpoch : Rfc3339Timestamp := ⟨0, 1, by decide, fun h => absurd h (by decide)⟩

/-- A nanosecond is lost, and with it the order of two times. -/
theorem nanosecond_lost : FourDigitYear epoch ∧ FourDigitYear nanosecondPastEpoch ∧
    parseTimestamp fieldReaders (printingCrates.toRfc3339 nanosecondPastEpoch) = .ok epoch ∧
    parseTimestamp fieldReaders (printingCrates.toRfc3339 nanosecondPastEpoch) ≠
      .ok nanosecondPastEpoch ∧
    epoch.lt nanosecondPastEpoch = true ∧
    ¬textBytes (printingCrates.toRfc3339 epoch) <
      textBytes (printingCrates.toRfc3339 nanosecondPastEpoch) := by
  have hyear : FourDigitYear nanosecondPastEpoch := by decide
  have hread := parse_display printing_renders fieldReaders_reads hyear
  have hcut : nanosecondPastEpoch.atMicros = epoch := by decide
  rw [hcut] at hread
  refine ⟨fourDigitYear_epoch, hyear, hread, ?_, by decide, ?_⟩
  · rw [hread]
    decide
  · rw [text_lt_iff printing_renders fourDigitYear_epoch hyear]
    decide

/-- One microsecond after the epoch. -/
def microsecondPastEpoch : Rfc3339Timestamp := ⟨0, 1000, by decide, fun h => absurd h (by decide)⟩

/-- A microsecond is kept, and so is the order. -/
theorem microsecond_kept :
    parseTimestamp fieldReaders (printingCrates.toRfc3339 microsecondPastEpoch) =
      .ok microsecondPastEpoch ∧
    textBytes (printingCrates.toRfc3339 epoch) <
      textBytes (printingCrates.toRfc3339 microsecondPastEpoch) := by
  have hyear : FourDigitYear microsecondPastEpoch := by decide
  obtain ⟨-, hread, horder⟩ := (timestamp_text_exact_iff printing_renders fieldReaders_reads
    fourDigitYear_epoch hyear).mpr ⟨by decide, by decide⟩
  exact ⟨hread, horder.mpr (by decide)⟩

end MerkleVault.Sqlite.TimestampReader
