import MailStack.Imap.Envelope
import MailStack.Machinery.Calendar
import MailStack.Machinery.Lines

/-!
# Imap/Weekday — the weekday `DateToEmlDate` computes

The code computes in `int`.  `dayOfWeek` is that computation with every sum checked, and `none`
where one overflows; `dayOfWeek_eq` says for which dates it does not, and that the result is then
the one of `dayName`.  Up to the year 9999 it is the weekday of the calendar
(`dateToEmlDate_timestamp`).
-/

open Bytes Calendar

namespace MailStack.Imap

/-! ## In `int` -/

/-- The value of an `int` expression; `none` where it overflows. -/
def int32 (n : ℤ) : Option ℤ := if -2 ^ 31 ≤ n ∧ n < 2 ^ 31 then some n else none

/-- The weekday as `DateToEmlDate` computes it, the index into `days`. -/
def DateTime.dayOfWeek (d : DateTime) : Option ℤ := do
  let adjustedMonth ← (if d.month < 3 then int32 (d.month + 12) else some d.month : Option ℤ)
  let adjustedYear ← (if d.month < 3 then int32 (d.year - 1) else some d.year : Option ℤ)
  let months ← int32 (13 * (← int32 (adjustedMonth + 1)))
  let sum ← int32 (d.day + months.tdiv 5)
  let sum ← int32 (sum + adjustedYear)
  let sum ← int32 (sum + adjustedYear.tdiv 4)
  let sum ← int32 (sum - adjustedYear.tdiv 100)
  let sum ← int32 (sum + adjustedYear.tdiv 400)
  let dow := sum.tmod 7
  int32 ((← int32 (dow + 6)).tmod 7)

/-- What the checks of `DateToEmlDate` let through. -/
structure DateTime.InRange (d : DateTime) : Prop where
  year : 1900 ≤ d.year ∧ d.year < 2 ^ 31
  month : 1 ≤ d.month ∧ d.month ≤ 12
  day : 1 ≤ d.day ∧ d.day ≤ 31

/-- A number that is read is an `int`. -/
theorem lt_of_readInt {s rest : Bytes} {n : ℤ} (h : readInt s = some (n, rest)) : n < 2 ^ 31 := by
  rw [readInt, Option.ite_none_left_eq_some] at h
  obtain ⟨hrange, h⟩ := h
  obtain ⟨rfl, -⟩ := Prod.mk.inj (Option.some.inj h)
  exact Int.not_le.mp fun hge => hrange (.inr (.inr hge))

/-- The fields of a date that is read are in range. -/
theorem inRange_of_parseDate {name : String} {str : Bytes} {d : DateTime}
    (h : parseDate name str = .ok d) : d.InRange := by
  rw [parseDate] at h
  split_ifs at h
  cases hread : readDate str with
  | none =>
    rw [hread] at h
    exact nomatch h
  | some p =>
    obtain ⟨d', separators⟩ := p
    rw [hread] at h
    dsimp only at h
    split_ifs at h with hseparators hrange
    obtain rfl := Except.ok.inj h
    have hyear : d'.year < 2 ^ 31 := by
      obtain ⟨⟨year, s⟩, hyear, hread⟩ := Option.bind_eq_some_iff.mp hread
      iterate 9 obtain ⟨_, -, hread⟩ := Option.bind_eq_some_iff.mp hread
      obtain ⟨rfl, -⟩ := Prod.mk.inj (Option.some.inj hread)
      exact lt_of_readInt hyear
    exact ⟨by omega, by omega, by omega⟩

/-! ## Where it overflows -/

/-- An `int` that fits is itself. -/
theorem int32_of_range {n : ℤ} (hlo : -2 ^ 31 ≤ n) (hhi : n < 2 ^ 31) : int32 n = some n :=
  if_pos ⟨hlo, hhi⟩

/-- One that does not is undefined. -/
theorem int32_of_ge {n : ℤ} (h : 2 ^ 31 ≤ n) : int32 n = none :=
  if_neg fun hrange => absurd hrange.2 (Int.not_lt.mpr h)

/-- `13 * (m + 1) / 5` for each month, January and February being months 13 and 14. -/
def monthShifts : List ℤ := [36, 39, 10, 13, 15, 18, 20, 23, 26, 28, 31, 33]

def monthShift (month : ℤ) : ℤ := monthShifts.getD (month - 1).toNat 0

/-- The month term of the congruence is a small number. -/
theorem monthShift_eq {month : ℤ} (hlo : 1 ≤ month) (hhi : month ≤ 12) :
    13 * ((if month < 3 then month + 12 else month) + 1) / 5 = monthShift month ∧
      0 ≤ monthShift month ∧ monthShift month ≤ 39 := by
  interval_cases month <;> decide

namespace DateTime

/-- The year, counted from March on. -/
def marchYear (d : DateTime) : ℤ := if d.month < 3 then d.year - 1 else d.year

/-- The year is not too large for an `int`. -/
def YearFits (d : DateTime) : Prop := 5 * d.marchYear + 4 * (d.day + monthShift d.month) < 2 ^ 33

instance (d : DateTime) : Decidable d.YearFits := inferInstanceAs (Decidable (_ < _))

/-- The number of the weekday. -/
def weekday (d : DateTime) : ℤ :=
  (d.day + monthShift d.month + d.marchYear + d.marchYear / 4 - d.marchYear / 100 +
    d.marchYear / 400 + 6) % 7

variable {d : DateTime}

/-- The year counted from March fits, for a date in range. -/
theorem marchYear_range (hd : d.InRange) : 1899 ≤ d.marchYear ∧ d.marchYear < 2 ^ 31 := by
  obtain ⟨⟨hlo, hhi⟩, -, -⟩ := hd
  rw [marchYear]
  split_ifs <;> omega

/-- **The weekday is computed exactly if the year is not too large.** -/
theorem dayOfWeek_eq (hd : d.InRange) :
    d.dayOfWeek = if d.YearFits then some d.weekday else none := by
  obtain ⟨hyear, hyear'⟩ := marchYear_range hd
  obtain ⟨hshift, hshift0, hshift39⟩ := monthShift_eq hd.month.1 hd.month.2
  obtain ⟨⟨hlo, hhi⟩, ⟨hmonth, hmonth'⟩, hday, hday'⟩ := hd
  have hadjustedMonth : (if d.month < 3 then int32 (d.month + 12) else some d.month) =
      some (if d.month < 3 then d.month + 12 else d.month) := by
    split_ifs
    · exact int32_of_range (by omega) (by omega)
    · rfl
  have hadjustedYear : (if d.month < 3 then int32 (d.year - 1) else some d.year) =
      some d.marchYear := by
    rw [marchYear]
    split_ifs
    · exact int32_of_range (by omega) (by omega)
    · rfl
  have hfits : d.YearFits ↔ 5 * d.marchYear + 4 * (d.day + monthShift d.month) < 2 ^ 33 := Iff.rfl
  rw [dayOfWeek, hadjustedMonth, hadjustedYear, if_congr hfits rfl rfl, weekday]
  generalize hM : (if d.month < 3 then d.month + 12 else d.month) = M at hshift ⊢
  have hM3 : 3 ≤ M ∧ M ≤ 14 := by
    rw [← hM]
    split_ifs <;> omega
  generalize d.marchYear = Y at hyear hyear' ⊢
  generalize monthShift d.month = k at hshift hshift0 hshift39 ⊢
  have hdiv : (13 * (M + 1)).tdiv 5 = k := by
    rw [Int.tdiv_eq_ediv_of_nonneg (by omega), hshift]
  have hmonths : int32 (M + 1) = some (M + 1) ∧ int32 (13 * (M + 1)) = some (13 * (M + 1)) :=
    ⟨int32_of_range (by omega) (by omega), int32_of_range (by omega) (by omega)⟩
  have hfirst : int32 (d.day + k) = some (d.day + k) := int32_of_range (by omega) (by omega)
  simp only [Option.bind_eq_bind, Option.bind_some, hmonths.1, hmonths.2, hdiv, hfirst,
    Int.tdiv_eq_ediv_of_nonneg (show 0 ≤ Y by omega)]
  by_cases hsmall : 5 * Y + 4 * (d.day + k) < 2 ^ 33
  · have hsum0 : 0 ≤ d.day + k + Y + Y / 4 - Y / 100 + Y / 400 := by omega
    rw [if_pos hsmall, int32_of_range (n := d.day + k + Y) (by omega) (by omega), Option.bind_some,
      int32_of_range (n := d.day + k + Y + Y / 4) (by omega) (by omega), Option.bind_some,
      int32_of_range (n := d.day + k + Y + Y / 4 - Y / 100) (by omega) (by omega), Option.bind_some,
      int32_of_range (n := d.day + k + Y + Y / 4 - Y / 100 + Y / 400) (by omega) (by omega),
      Option.bind_some, Int.tmod_eq_emod_of_nonneg hsum0]
    generalize d.day + k + Y + Y / 4 - Y / 100 + Y / 400 = sum
    rw [int32_of_range (n := sum % 7 + 6) (by omega) (by omega), Option.bind_some,
      Int.tmod_eq_emod_of_nonneg (by omega), int32_of_range (by omega) (by omega),
      Int.emod_add_emod]
  · rw [if_neg hsmall]
    by_cases hyears : d.day + k + Y < 2 ^ 31
    · rw [int32_of_range (n := d.day + k + Y) (by omega) hyears, Option.bind_some,
        int32_of_ge (n := d.day + k + Y + Y / 4) (by omega), Option.bind_none]
    · rw [int32_of_ge (n := d.day + k + Y) (Int.not_lt.mp hyears), Option.bind_none]

/-- Far beyond any date of a mail. -/
theorem yearFits_of_le (hd : d.InRange) (h : d.year ≤ 1717986862) : d.YearFits := by
  obtain ⟨-, -, hshift⟩ := monthShift_eq hd.month.1 hd.month.2
  have hday := hd.day.2
  rw [YearFits, marchYear]
  split_ifs <;> omega

/-- The result is an index into `days`. -/
theorem weekday_range (d : DateTime) : 0 ≤ d.weekday ∧ d.weekday ≤ 6 := by
  rw [weekday]
  omega

/-- `days[dow]`. -/
theorem dayName_eq (hd : d.InRange) : d.dayName = days.getD d.weekday.toNat [] := by
  obtain ⟨hshift, -, -⟩ := monthShift_eq hd.month.1 hd.month.2
  rw [dayName, hshift, ← marchYear, Int.emod_add_emod, weekday]

end DateTime

/-- **The index into `days` is valid exactly if the year is not too large.** -/
theorem dayOfWeek_iff {str : Bytes} {d : DateTime} (h : parseDate "DateToEmlDate" str = .ok d) :
    (∃ dow, d.dayOfWeek = some dow ∧ 0 ≤ dow ∧ dow ≤ 6) ↔ d.YearFits := by
  rw [DateTime.dayOfWeek_eq (inRange_of_parseDate h)]
  split_ifs with hfits
  · exact iff_of_true ⟨_, rfl, d.weekday_range⟩ hfits
  · exact iff_of_false (fun ⟨_, hdow, _⟩ => nomatch hdow) hfits

theorem dayOfWeek_iff_sample :
    (∃ dow, DateTime.dayOfWeek ⟨2025, 1, 15, 14, 30, 45⟩ = some dow ∧ 0 ≤ dow ∧ dow ≤ 6) ↔
      DateTime.YearFits ⟨2025, 1, 15, 14, 30, 45⟩ :=
  @dayOfWeek_iff (lit "2025-01-15 14:30:45") _ (by decide +kernel)

/-- The last year that the stream reads. -/
theorem not_dayOfWeek : ∃ str d, parseDate "DateToEmlDate" str = .ok d ∧
    ¬ ∃ dow, d.dayOfWeek = some dow ∧ 0 ≤ dow ∧ dow ≤ 6 := by
  refine ⟨lit "2147483647-01-15 14:30:45", ⟨2147483647, 1, 15, 14, 30, 45⟩, by decide +kernel, ?_⟩
  have hnone : DateTime.dayOfWeek ⟨2147483647, 1, 15, 14, 30, 45⟩ = none := by decide +kernel
  rw [hnone]
  exact fun ⟨_, hdow, _⟩ => nomatch hdow

/-! ## The calendar -/

/-- A number with zeros in front. -/
def padded (width n : ℕ) : Bytes :=
  List.replicate (width - (decimal n).length) '0'.toUInt8 ++ decimal n

/-- A time that exists. -/
structure TimeOfDay where
  hour : ℕ
  minute : ℕ
  second : ℕ
  hour_lt : hour < 24
  minute_lt : minute < 60
  second_lt : second < 60

/-- `HH:MM:SS`. -/
def TimeOfDay.text (t : TimeOfDay) : Bytes :=
  padded 2 t.hour ++ lit ":" ++ padded 2 t.minute ++ lit ":" ++ padded 2 t.second

/-- `YYYY-MM-DD HH:MM:SS`. -/
def timestamp (d : Date) (t : TimeOfDay) : Bytes :=
  padded 4 d.year ++ lit "-" ++ padded 2 d.month ++ lit "-" ++ padded 2 d.day ++ lit " " ++ t.text

/-- The day 0 is the Sunday before 1900. -/
def weekdayName (d : Date) : Bytes := days.getD (d.daysFrom 1900 % 7) []

/-- The line for a date, in UTC. -/
def emlDate (d : Date) (t : TimeOfDay) : Bytes :=
  weekdayName d ++ lit ", " ++ padded 2 d.day ++ lit " " ++ months.getD (d.month - 1) [] ++
    lit " " ++ padded 4 d.year ++ lit " " ++ t.text ++ lit " +0000"

/-- The fields as the code reads them. -/
def fields (d : Date) (t : TimeOfDay) : DateTime :=
  ⟨d.year, d.month, d.day, t.hour, t.minute, t.second⟩

/-! ### Reading -/

theorem isDigit_of_mem_padded {width n : ℕ} {c : UInt8} (h : c ∈ padded width n) :
    isDigit c = true := by
  rcases List.mem_append.mp h with h | h
  · rw [List.eq_of_mem_replicate h]
    decide
  · exact isDigit_of_mem_decimal h

/-- A padded number keeps its value. -/
theorem digitsValue_padded (width n : ℕ) : digitsValue (padded width n) = n := by
  rw [padded]
  induction width - (decimal n).length with
  | zero => exact digitsValue_decimal n
  | succ k ih => exact ih

theorem padded_ne_nil (width n : ℕ) : padded width n ≠ [] :=
  List.append_ne_nil_of_right_ne_nil _ (decimal_ne_nil n)

/-- **A padded number is read**, up to what is no digit. -/
theorem readInt_padded {width n : ℕ} (hn : n < 2 ^ 31) {rest : Bytes}
    (hrest : ∀ c ∈ rest.head?, isDigit c = false) :
    readInt (padded width n ++ rest) = some ((n : ℤ), rest) := by
  obtain ⟨c, s, hs⟩ := List.exists_cons_of_ne_nil (padded_ne_nil width n)
  have hc : isDigit c = true := isDigit_of_mem_padded (hs ▸ List.mem_cons_self)
  have hspace : (padded width n ++ rest).dropWhile isSpace = padded width n ++ rest := by
    rw [hs]
    exact List.dropWhile_cons_of_neg (by rw [not_isSpace_of_isDigit hc]; exact Bool.false_ne_true)
  have hsign : ∀ x : UInt8, isDigit x = false → (padded width n ++ rest).head? ≠ some x := by
    intro x hx heq
    rw [hs] at heq
    exact isDigit_ne hc hx (Option.some.inj heq)
  have hdigits : ∀ c ∈ padded width n, isDigit c = true := fun _ => isDigit_of_mem_padded
  obtain ⟨hnone, hstop⟩ := takeWhile_dropWhile_stop hrest
  have htake : (padded width n ++ rest).takeWhile isDigit = padded width n := by
    rw [List.takeWhile_append_of_pos hdigits, hnone, List.append_nil]
  have hdrop : (padded width n ++ rest).dropWhile isDigit = rest := by
    rw [List.dropWhile_append_of_pos hdigits, hstop]
  simp only [readInt, hspace, hsign _ (by decide : isDigit '-'.toUInt8 = false),
    hsign _ (by decide : isDigit '+'.toUInt8 = false), or_self, if_false, htake, hdrop,
    digitsValue_padded]
  rw [if_neg]
  rw [not_or, not_or]
  exact ⟨padded_ne_nil width n, by omega, by omega⟩

theorem readInt_blank (s : Bytes) : readInt (' '.toUInt8 :: s) = readInt s := rfl

theorem readChar_cons {c : UInt8} (hc : isSpace c = false) (s : Bytes) :
    readChar (c :: s) = some (c, s) := by
  rw [readChar, List.dropWhile_cons_of_neg (by rw [hc]; exact Bool.false_ne_true)]

/-- **A timestamp is read back**, up to the dashes behind it. -/
theorem readDate_timestamp {d : Date} (hd : d.year < 2 ^ 31) (t : TimeOfDay) :
    readDate (timestamp d t) = some (fields d t, lit "--::") := by
  have hday : d.day ≤ 31 := Nat.le_trans d.day_le (daysInMonth_le _ _)
  have hsmall := And.intro d.month_le (And.intro t.hour_lt (And.intro t.minute_lt t.second_lt))
  have hfield : ∀ {width n : ℕ}, n < 2 ^ 31 → ∀ (c : UInt8) (s : Bytes), isDigit c = false →
      readInt (padded width n ++ c :: s) = some ((n : ℤ), c :: s) := fun hn c s hc =>
    readInt_padded hn fun x hx => Option.some.inj hx ▸ hc
  have hlast : readInt (padded 2 t.second) = some ((t.second : ℤ), []) := by
    have h := @readInt_padded 2 t.second (by omega) [] (by simp)
    rwa [List.append_nil] at h
  have htext : timestamp d t = padded 4 d.year ++ '-'.toUInt8 :: (padded 2 d.month ++ '-'.toUInt8 ::
      (padded 2 d.day ++ ' '.toUInt8 :: (padded 2 t.hour ++ ':'.toUInt8 ::
        (padded 2 t.minute ++ ':'.toUInt8 :: padded 2 t.second)))) := by
    have hminus : lit "-" = ['-'.toUInt8] := rfl
    have hblank : lit " " = [' '.toUInt8] := rfl
    have hcolon : lit ":" = [':'.toUInt8] := rfl
    simp only [timestamp, TimeOfDay.text, hminus, hblank, hcolon, List.append_assoc,
      List.cons_append, List.nil_append]
  have hminus : isDigit '-'.toUInt8 = false ∧ isSpace '-'.toUInt8 = false := by decide
  have hcolon : isDigit ':'.toUInt8 = false ∧ isSpace ':'.toUInt8 = false := by decide
  rw [htext, readDate]
  refine Option.bind_eq_some_iff.mpr ⟨_, hfield hd _ _ hminus.1, ?_⟩
  refine Option.bind_eq_some_iff.mpr ⟨_, readChar_cons hminus.2 _, ?_⟩
  refine Option.bind_eq_some_iff.mpr ⟨_, hfield (by omega) _ _ hminus.1, ?_⟩
  refine Option.bind_eq_some_iff.mpr ⟨_, readChar_cons hminus.2 _, ?_⟩
  refine Option.bind_eq_some_iff.mpr ⟨_, hfield (by omega) _ _ (by decide), ?_⟩
  refine Option.bind_eq_some_iff.mpr ⟨_, (readInt_blank _).trans (hfield (by omega) _ _ hcolon.1), ?_⟩
  refine Option.bind_eq_some_iff.mpr ⟨_, readChar_cons hcolon.2 _, ?_⟩
  refine Option.bind_eq_some_iff.mpr ⟨_, hfield (by omega) _ _ hcolon.1, ?_⟩
  refine Option.bind_eq_some_iff.mpr ⟨_, readChar_cons hcolon.2 _, ?_⟩
  exact Option.bind_eq_some_iff.mpr ⟨_, hlast, rfl⟩

/-- **A date that exists passes the checks.** -/
theorem parseDate_timestamp {d : Date} (hlo : 1900 ≤ d.year) (hhi : d.year < 2 ^ 31) (name : String)
    (t : TimeOfDay) : parseDate name (timestamp d t) = .ok (fields d t) := by
  have hne : timestamp d t ≠ [] := by
    simp only [timestamp, List.append_assoc]
    exact List.append_ne_nil_of_left_ne_nil (padded_ne_nil 4 d.year) _
  have hday : d.day ≤ 31 := Nat.le_trans d.day_le (daysInMonth_le _ _)
  have hsmall := And.intro d.month_le (And.intro t.hour_lt (And.intro t.minute_lt t.second_lt))
  have hpos := And.intro d.one_le_month d.one_le_day
  rw [parseDate, if_neg hne, readDate_timestamp hhi]
  dsimp only
  rw [if_neg (fun h => h rfl), if_neg]
  simp only [fields]
  omega

/-! ### Counting -/

/-- The leap days before a date, by the year counted from March on. -/
theorem exists_marchYear {d : Date} (hlo : 1 ≤ d.year) (t : TimeOfDay) : ∃ y : ℕ,
    (fields d t).marchYear = y ∧ d.year = y + (if d.month < 3 then 1 else 0) ∧
      leapsBefore d.year + (if 2 < d.month ∧ IsLeap d.year then 1 else 0) =
        y / 4 - y / 100 + y / 400 := by
  have hmonthCast : (fields d t).month = (d.month : ℤ) := rfl
  have hyearCast : (fields d t).year = (d.year : ℤ) := rfl
  rw [DateTime.marchYear, hmonthCast, hyearCast]
  by_cases hmonth : d.month < 3
  · refine ⟨d.year - 1, ?_, ?_, ?_⟩
    · rw [if_pos (by omega)]
      omega
    · rw [if_pos hmonth]
      omega
    · rw [if_neg (by omega), leapsBefore, Nat.add_zero]
  · refine ⟨d.year, if_neg (by omega), (if_neg hmonth).symm ▸ rfl, ?_⟩
    have hsucc := leapsBefore_succ hlo
    rw [leapsBefore, Nat.add_sub_cancel] at hsucc
    rw [hsucc, if_congr (and_iff_right (by omega : 2 < d.month)) rfl rfl]

/-- The shift of a month is the number of days before it, up to weeks. -/
theorem monthShift_emod {month : ℕ} (hlo : 1 ≤ month) (hhi : month ≤ 12) :
    monthShift month % 7 = (commonDays month + (if month < 3 then 1 else 0) : ℕ) % 7 := by
  interval_cases month <;> decide

/-- **The weekday of the code is the weekday of the calendar.** -/
theorem weekday_fields {d : Date} (hlo : 1900 ≤ d.year) (t : TimeOfDay) :
    (fields d t).weekday = (d.daysFrom 1900 % 7 : ℕ) := by
  have hcount := d.daysFrom_eq (by decide) hlo
  obtain ⟨y, hy, hyear, hleaps⟩ := exists_marchYear (Nat.le_trans (by decide) hlo) t
  have hleap : leapsBefore 1900 = 460 := by decide
  have hshift := monthShift_emod d.one_le_month d.month_le
  have hmonth : (fields d t).month = (d.month : ℤ) := rfl
  have hday : (fields d t).day = (d.day : ℤ) := rfl
  rw [DateTime.weekday, hy, hmonth, hday]
  omega

/-- The day of the week is the one of the calendar. -/
theorem dayName_fields {d : Date} (hlo : 1900 ≤ d.year) (hhi : d.year < 2 ^ 31) (t : TimeOfDay) :
    (fields d t).dayName = weekdayName d := by
  have hrange := inRange_of_parseDate (parseDate_timestamp hlo hhi "DateToEmlDate" t)
  rw [DateTime.dayName_eq hrange, weekday_fields hlo t, Int.toNat_natCast, weekdayName]

/-! ### Writing -/

/-- Two digits are a number padded to two. -/
theorem twoDigits_eq {n : ℕ} (hn : n < 100) : twoDigits n = padded 2 n := by
  have hpos := List.length_pos_of_ne_nil (decimal_ne_nil n)
  have hle : ∀ {k : ℕ}, 0 < k → n < 10 ^ k → (decimal n).length ≤ k := fun hk h => by
    rw [decimal_natCast, List.length_map]
    exact (Nat.length_toDigits_le_iff (by decide) hk).mpr h
  rw [twoDigits, padded]
  by_cases h : n < 10
  · have hlength : (decimal n).length = 1 := Nat.le_antisymm (hle Nat.one_pos h) hpos
    rw [if_pos (by omega), hlength]
    rfl
  · have hlength : (decimal n).length = 2 := length_decimal (k := 1) (Nat.le_of_not_lt h) hn
    rw [if_neg (by omega), hlength]
    rfl

/-- **The date line has the weekday of the calendar**, and no sum overflows on the way to it. -/
theorem dateToEmlDate_timestamp {d : Date} (hlo : 1900 ≤ d.year) (hhi : d.year ≤ 9999)
    (t : TimeOfDay) : dateToEmlDate (timestamp d t) = .ok (emlDate d t) ∧
      (fields d t).dayOfWeek = some ((d.daysFrom 1900 % 7 : ℕ) : ℤ) := by
  have hyear : d.year < 2 ^ 31 := by omega
  have hparse := parseDate_timestamp hlo hyear "DateToEmlDate" t
  have hrange := inRange_of_parseDate hparse
  refine ⟨?_, ?_⟩
  · have hdecimal : decimal d.year = padded 4 d.year := by
      rw [padded, length_decimal (k := 3) (by omega) (by omega)]
      rfl
    have hday : d.day ≤ 31 := Nat.le_trans d.day_le (daysInMonth_le _ _)
    have hmonth : ((d.month : ℤ) - 1).toNat = d.month - 1 := by omega
    have hclock : (fields d t).clock = t.text ++ lit " +0000" := by
      simp only [DateTime.clock, fields, TimeOfDay.text]
      rw [twoDigits_eq (Nat.lt_trans t.hour_lt (by decide)),
        twoDigits_eq (Nat.lt_trans t.minute_lt (by decide)),
        twoDigits_eq (Nat.lt_trans t.second_lt (by decide))]
    have hline : dateToEmlDate (timestamp d t) = .ok ((fields d t).dayName ++ lit ", " ++
        twoDigits d.day ++ lit " " ++ months.getD ((d.month : ℤ) - 1).toNat [] ++ lit " " ++
          decimal d.year ++ lit " " ++ (fields d t).clock) := by
      rw [dateToEmlDate, hparse]
      rfl
    rw [hline, dayName_fields hlo hyear, twoDigits_eq (by omega), hmonth, hdecimal, hclock, emlDate]
    simp only [List.append_assoc]
  · have hfits := DateTime.yearFits_of_le hrange (show (d.year : ℤ) ≤ 1717986862 by omega)
    rw [DateTime.dayOfWeek_eq hrange, if_pos hfits, weekday_fields hlo t]

/-- A leap day. -/
def leapDay : Date := ⟨2024, 2, 29, by decide, by decide, by decide, by decide⟩

def lastSecond : TimeOfDay := ⟨23, 59, 59, by decide, by decide, by decide⟩

theorem dateToEmlDate_timestamp_leapDay :
    dateToEmlDate (timestamp leapDay lastSecond) = .ok (emlDate leapDay lastSecond) ∧
      (fields leapDay lastSecond).dayOfWeek = some ((leapDay.daysFrom 1900 % 7 : ℕ) : ℤ) :=
  dateToEmlDate_timestamp (by decide) (by decide) lastSecond

end MailStack.Imap
