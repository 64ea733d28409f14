/-
Timestamps of requests

`parseAmzDate` lets `timegm` carry every field into the next one and compares the
date back, so what a carry leaves on the same day goes unnoticed: a minute or a
second from sixty to ninety-nine is another instant under another name. Every other
text is read exactly as `formatAmzDate` writes it.
-/

import MonoBucket.S3.ByteRange
import MonoBucket.S3.Presign

namespace MonoBucket.S3

/-! ### The calendar -/

/-- A year of the four-hundred-year cycle, and the day in it. -/
theorem yearOfEra_spec {day : Int} (hlow : 0 ≤ day) (hhigh : day < 146097) {year : Int}
    (hyear : year = (day - day / 1460 + day / 36524 - day / 146096) / 365) :
    0 ≤ year ∧ year ≤ 399 ∧ 0 ≤ day - (365 * year + year / 4 - year / 100) ∧
      day - (365 * year + year / 4 - year / 100) ≤ 365 := by
  have hlast : day / 146096 = 0 ∨ day = 146096 := by omega
  rcases hlast with hlast | rfl
  · -- centuries, then spans of four years, then the days of the span
    obtain ⟨century, hcentury⟩ : ∃ century, century = day / 36524 := ⟨_, rfl⟩
    obtain ⟨span, hspan⟩ : ∃ span, span = (day - 36524 * century) / 1461 := ⟨_, rfl⟩
    obtain ⟨rest, hrest⟩ : ∃ rest, rest = day - 36524 * century - 1461 * span := ⟨_, rfl⟩
    obtain ⟨leap, hleap⟩ : ∃ leap, leap = (24 * century + span + rest) / 1460 := ⟨_, rfl⟩
    have hcarried : day / 1460 = 25 * century + span + leap := by omega
    have hsplit : year = 100 * century + 4 * span + (rest - leap) / 365 := by
      rw [hyear, hlast, hcarried, ← hcentury]
      omega
    have hinside : 0 ≤ rest - leap ∧ rest - leap ≤ 1459 := by omega
    have hfour : year / 4 = 25 * century + span := by omega
    have hhundred : year / 100 = century := by omega
    rw [hfour, hhundred]
    omega
  · subst hyear
    decide

/-- The calendar names every day, by a month and a day of a month. -/
theorem civilFromDays_spec {days year month day : Int} (h : civilFromDays days = (year, month, day)) :
    (1 ≤ month ∧ month ≤ 12) ∧ (1 ≤ day ∧ day ≤ 31) ∧ daysFromCivil year month day = days := by
  obtain ⟨era, hera⟩ : ∃ era, era = (days + 719468) / 146097 := ⟨_, rfl⟩
  obtain ⟨dayOfEra, hdayOfEra⟩ : ∃ dayOfEra, dayOfEra = days + 719468 - era * 146097 := ⟨_, rfl⟩
  obtain ⟨yearOfEra, hyearOfEra⟩ : ∃ yearOfEra, yearOfEra =
    (dayOfEra - dayOfEra / 1460 + dayOfEra / 36524 - dayOfEra / 146096) / 365 := ⟨_, rfl⟩
  obtain ⟨hfirst, hlast, hday, hdays⟩ := yearOfEra_spec (by omega) (by omega) hyearOfEra
  obtain ⟨dayOfYear, hdayOfYear⟩ : ∃ dayOfYear,
    dayOfYear = dayOfEra - (365 * yearOfEra + yearOfEra / 4 - yearOfEra / 100) := ⟨_, rfl⟩
  obtain ⟨monthIndex, hmonthIndex⟩ : ∃ monthIndex, monthIndex = (5 * dayOfYear + 2) / 153 := ⟨_, rfl⟩
  rw [← hdayOfYear] at hday hdays
  simp only [civilFromDays, ← hera, ← hdayOfEra, ← hyearOfEra, ← hdayOfYear, ← hmonthIndex,
    Prod.mk.injEq] at h
  obtain ⟨hyear, hmonth, hdayOfMonth⟩ := h
  rw [hmonth] at hyear
  refine ⟨?_, ?_, ?_⟩
  · split_ifs at hmonth <;> omega
  · omega
  · have hshifted : (if month ≤ 2 then year - 1 else year) = yearOfEra + era * 400 := by
      split_ifs at hyear ⊢ <;> omega
    have hback : (if month > 2 then month - 3 else month + 9) = monthIndex := by
      split_ifs at hmonth ⊢ <;> omega
    rw [daysFromCivil]
    simp only [hshifted, hback]
    have hsame : (yearOfEra + era * 400) / 400 = era := by omega
    rw [hsame, add_sub_cancel_right]
    omega

/-- The days of a month are counted from its first. -/
theorem daysFromCivil_first (year month day : Int) :
    daysFromCivil year month 1 + (day - 1) = daysFromCivil year month day := by
  simp only [daysFromCivil]
  omega

theorem timegm_of_month {year month day hour minute second : Int} (hlow : 1 ≤ month)
    (hhigh : month ≤ 12) : timegm year month day hour minute second =
      daysFromCivil year month day * 86400 + (hour * 3600 + minute * 60 + second) := by
  have hyear : (year * 12 + (month - 1)) / 12 = year := by omega
  have hmonth : (year * 12 + (month - 1)) % 12 + 1 = month := by omega
  simp only [timegm, hyear, hmonth, daysFromCivil_first]
  ring

/-! ### Digits -/

theorem length_paddedDecimal (width value : Nat) : (paddedDecimal width value).length = width := by
  induction width generalizing value with
  | zero => rfl
  | succ width ih => rw [paddedDecimal, List.length_append, ih, List.length_singleton]

theorem isDigit_ofNat {value : Nat} (h : value < 10) :
    isDigit (0x30 + value.toUInt8) ∧ (0x30 + value.toUInt8).toNat - 0x30 = value := by
  interval_cases value <;> decide

theorem isDigit_of_mem_paddedDecimal {width value : Nat} {ch : UInt8}
    (h : ch ∈ paddedDecimal width value) : isDigit ch := by
  induction width generalizing value with
  | zero => cases h
  | succ width ih =>
      rcases List.mem_append.mp h with hfront | hlast
      · exact ih hfront
      · rw [List.mem_singleton.mp hlast]
        exact (isDigit_ofNat (Nat.mod_lt _ (by decide))).1

theorem digitsValue_paddedDecimal {width value : Nat} (h : value < 10 ^ width) :
    digitsValue (paddedDecimal width value) = value := by
  induction width generalizing value with
  | zero =>
      rw [Nat.lt_one_iff.mp h]
      rfl
  | succ width ih =>
      have hrest : value / 10 < 10 ^ width := by
        rw [Nat.div_lt_iff_lt_mul (by decide), ← pow_succ]
        exact h
      rw [paddedDecimal, digitsValue_concat, ih hrest, (isDigit_ofNat (Nat.mod_lt _ (by decide))).2]
      omega

/-- Digits are their value in so many places. -/
theorem paddedDecimal_digitsValue {text : Bytes} (h : ∀ ch ∈ text, isDigit ch) :
    paddedDecimal text.length (digitsValue text) = text := by
  induction text using List.reverseRecOn with
  | nil => rfl
  | append_singleton text ch ih =>
      have hch : isDigit ch := h ch (by simp)
      have hdigit := (toNat_sub_of_isDigit hch).2
      have hquotient : (digitsValue text * 10 + (ch.toNat - 0x30)) / 10 = digitsValue text := by omega
      have hback : (0x30 : UInt8) + ((digitsValue text * 10 + (ch.toNat - 0x30)) % 10).toUInt8 = ch := by
        have hlow : 0x30 ≤ ch.toNat := UInt8.le_iff_toNat_le.mp (of_decide_eq_true hch).1
        have hunits : (digitsValue text * 10 + (ch.toNat - 0x30)) % 10 = ch.toNat - 0x30 := by omega
        rw [hunits]
        apply UInt8.toNat_inj.mp
        rw [UInt8.toNat_add, Nat.toUInt8_eq, UInt8.toNat_ofNat']
        simp only [UInt8.toNat_ofNat]
        omega
      rw [List.length_append, List.length_singleton, digitsValue_concat, paddedDecimal, hquotient,
        ih fun other hother => h other (List.mem_append_left _ hother), hback]

/-- Reading the digits that stand at an offset. -/
theorem digitsAt_of_eq (front : Bytes) {text back : Bytes} {offset width value : Nat}
    (hoffset : front.length = offset) (h : value < 10 ^ width)
    (htext : text = front ++ (paddedDecimal width value ++ back)) : digitsAt text offset width = some (value : Int) := by
  subst htext hoffset
  have hdigits : (paddedDecimal width value).all isDigit = true :=
    List.all_eq_true.mpr fun _ => isDigit_of_mem_paddedDecimal
  have hslice : ((front ++ (paddedDecimal width value ++ back)).drop front.length).take width =
      paddedDecimal width value := by
    rw [List.drop_left, List.take_left' (length_paddedDecimal width value)]
  rw [digitsAt]
  simp only [hslice, hdigits, if_true, digitsValue_paddedDecimal h]

theorem getElem?_of_eq (front : Bytes) {text back : Bytes} {offset : Nat} {byte : UInt8}
    (hoffset : front.length = offset) (htext : text = front ++ byte :: back) :
    text[offset]? = some byte := by
  subst htext hoffset
  rw [List.getElem?_append_right (le_refl _), Nat.sub_self, List.getElem?_cons_zero]

/-- Digits that are read are the value in so many places. -/
theorem slice_of_digitsAt {text : Bytes} {offset width : Nat} {value : Int}
    (hlength : offset + width ≤ text.length) (h : digitsAt text offset width = some value) :
    ∃ number : Nat, value = number ∧ number < 10 ^ width ∧
      (text.drop offset).take width = paddedDecimal width number := by
  simp only [digitsAt] at h
  split_ifs at h with hdigits
  have hwidth : ((text.drop offset).take width).length = width := by
    rw [List.length_take, List.length_drop]
    omega
  have hall : ∀ ch ∈ (text.drop offset).take width, isDigit ch := List.all_eq_true.mp hdigits
  refine ⟨digitsValue ((text.drop offset).take width), (Option.some.inj h).symm, ?_, ?_⟩
  · have hlt := digitsValue_lt hall
    rwa [hwidth] at hlt
  · have hback := paddedDecimal_digitsValue hall
    rw [hwidth] at hback
    exact hback.symm

/-! ### The fields of a timestamp -/

/-- The numbers a timestamp is written with, in or out of their range. -/
structure DateFields where
  year : Nat
  month : Nat
  day : Nat
  hour : Nat
  minute : Nat
  second : Nat
  deriving DecidableEq

namespace DateFields

variable (fields : DateFields)

/-- Each number fits its digits. -/
structure Fit : Prop where
  year : fields.year < 10 ^ 4
  month : fields.month < 10 ^ 2
  day : fields.day < 10 ^ 2
  hour : fields.hour < 10 ^ 2
  minute : fields.minute < 10 ^ 2
  second : fields.second < 10 ^ 2

def dateText : Bytes :=
  paddedDecimal 4 fields.year ++ paddedDecimal 2 fields.month ++ paddedDecimal 2 fields.day

def clockText : Bytes :=
  paddedDecimal 2 fields.hour ++ paddedDecimal 2 fields.minute ++ paddedDecimal 2 fields.second

def text : Bytes := fields.dateText ++ [letter 'T'] ++ fields.clockText ++ [letter 'Z']

def date : Int × Int × Int := (fields.year, fields.month, fields.day)

/-- Some day of the calendar has the date. -/
def IsDate : Prop := ∃ days, civilFromDays days = fields.date

/-- The seconds since midnight, with what is out of range carried. -/
def clock : Int := fields.hour * 3600 + fields.minute * 60 + fields.second

/-- The instant, with what is out of range carried. -/
def instant : Int := daysFromCivil fields.year fields.month fields.day * 86400 + fields.clock

variable {fields}

theorem length_dateText : fields.dateText.length = 8 := by
  simp only [dateText, List.length_append, length_paddedDecimal]

theorem length_clockText : fields.clockText.length = 6 := by
  simp only [clockText, List.length_append, length_paddedDecimal]

theorem length_text : fields.text.length = 16 := by
  simp only [text, List.length_append, length_dateText, length_clockText, List.length_singleton]

/-- The loops read the numbers back. -/
theorem digitsAt_text (h : fields.Fit) :
    digitsAt fields.text 0 4 = some (fields.year : Int) ∧
      digitsAt fields.text 4 2 = some (fields.month : Int) ∧
      digitsAt fields.text 6 2 = some (fields.day : Int) ∧
      digitsAt fields.text 9 2 = some (fields.hour : Int) ∧
      digitsAt fields.text 11 2 = some (fields.minute : Int) ∧
      digitsAt fields.text 13 2 = some (fields.second : Int) := by
  have hdate : (fields.dateText ++ [letter 'T']).length = 9 := by
    rw [List.length_append, length_dateText, List.length_singleton]
  have hyearMonth : (paddedDecimal 4 fields.year ++ paddedDecimal 2 fields.month).length = 6 := by
    rw [List.length_append, length_paddedDecimal, length_paddedDecimal]
  have hhour : (fields.dateText ++ [letter 'T'] ++ paddedDecimal 2 fields.hour).length = 11 := by
    rw [List.length_append, hdate, length_paddedDecimal]
  have hminute : (fields.dateText ++ [letter 'T'] ++ paddedDecimal 2 fields.hour ++
      paddedDecimal 2 fields.minute).length = 13 := by
    rw [List.length_append, hhour, length_paddedDecimal]
  refine ⟨?_, ?_, ?_, ?_, ?_, ?_⟩
  · apply digitsAt_of_eq [] rfl h.year
    simp only [text, dateText, List.append_assoc, List.nil_append]
    rfl
  · apply digitsAt_of_eq _ (length_paddedDecimal 4 fields.year) h.month
    simp only [text, dateText, List.append_assoc]
    rfl
  · apply digitsAt_of_eq _ hyearMonth h.day
    simp only [text, dateText, List.append_assoc]
    rfl
  · apply digitsAt_of_eq _ hdate h.hour
    simp only [text, clockText, List.append_assoc]
    rfl
  · apply digitsAt_of_eq _ hhour h.minute
    simp only [text, clockText, List.append_assoc]
    rfl
  · apply digitsAt_of_eq _ hminute h.second
    simp only [text, clockText, List.append_assoc]
    rfl

theorem shape_text : fields.text[8]? = some (letter 'T') ∧ fields.text[15]? = some (letter 'Z') := by
  have hclock : (fields.dateText ++ [letter 'T'] ++ fields.clockText).length = 15 := by
    rw [List.length_append, List.length_append, length_dateText, length_clockText,
      List.length_singleton]
  constructor
  · apply getElem?_of_eq _ (@length_dateText fields)
    simp only [text, List.append_assoc, List.singleton_append]
    rfl
  · apply getElem?_of_eq _ hclock
    rw [text]

theorem parseAmzDate_text (h : fields.Fit) : parseAmzDate fields.text =
    (let stamp := timegm fields.year fields.month fields.day fields.hour fields.minute fields.second
    if stamp = -1 ∨ civilFromDays (stamp / 86400) ≠ fields.date then none else some stamp) := by
  obtain ⟨hyear, hmonth, hday, hhour, hminute, hsecond⟩ := digitsAt_text h
  obtain ⟨htime, hzone⟩ := @shape_text fields
  have hshape : ¬ (fields.text.length ≠ 16 ∨ fields.text[8]? ≠ some (letter 'T') ∨
      fields.text[15]? ≠ some (letter 'Z')) := by
    rw [length_text, htime, hzone]
    decide
  rw [parseAmzDate, if_neg hshape, hyear, hmonth, hday, hhour, hminute, hsecond]
  rfl

/-- A text of sixteen characters is cut where its fields end. -/
theorem slices {text : Bytes} (hlength : text.length = 16) :
    text = (text.drop 0).take 4 ++ (text.drop 4).take 2 ++ (text.drop 6).take 2 ++
      (text.drop 8).take 1 ++ ((text.drop 9).take 2 ++ (text.drop 11).take 2 ++
      (text.drop 13).take 2) ++ (text.drop 15).take 1 := by
  have hcut : ∀ offset width, (text.drop offset).take width ++ text.drop (offset + width) =
      text.drop offset := by
    intro offset width
    rw [← List.drop_drop]
    exact List.take_append_drop width _
  have hend : text.drop 16 = [] := List.drop_eq_nil_of_le hlength.le
  simp only [List.append_assoc]
  rw [← List.append_nil ((text.drop 15).take 1), ← hend, hcut 15 1, hcut 13 2, hcut 11 2, hcut 9 2,
    hcut 8 1, hcut 6 2, hcut 4 2, hcut 0 4, List.drop_zero]

theorem slice_of_getElem? {text : Bytes} {offset : Nat} {byte : UInt8}
    (h : text[offset]? = some byte) : (text.drop offset).take 1 = [byte] := by
  obtain ⟨hlt, hbyte⟩ := List.getElem?_eq_some_iff.mp h
  rw [List.drop_eq_getElem_cons hlt, List.take_succ_cons, List.take_zero, hbyte]

/-- Only texts of digits in these places are read. -/
theorem exists_of_parseAmzDate {text : Bytes} {stamp : Int} (h : parseAmzDate text = some stamp) :
    ∃ fields : DateFields, fields.Fit ∧ text = fields.text := by
  rw [parseAmzDate] at h
  split_ifs at h with hshape
  push Not at hshape
  obtain ⟨hlength, htime, hzone⟩ := hshape
  obtain ⟨year, hyear, h⟩ := Option.bind_eq_some_iff.mp h
  obtain ⟨month, hmonth, h⟩ := Option.bind_eq_some_iff.mp h
  obtain ⟨day, hday, h⟩ := Option.bind_eq_some_iff.mp h
  obtain ⟨hour, hhour, h⟩ := Option.bind_eq_some_iff.mp h
  obtain ⟨minute, hminute, h⟩ := Option.bind_eq_some_iff.mp h
  obtain ⟨second, hsecond, -⟩ := Option.bind_eq_some_iff.mp h
  obtain ⟨year, -, hyearFits, hyear⟩ := slice_of_digitsAt (by omega) hyear
  obtain ⟨month, -, hmonthFits, hmonth⟩ := slice_of_digitsAt (by omega) hmonth
  obtain ⟨day, -, hdayFits, hday⟩ := slice_of_digitsAt (by omega) hday
  obtain ⟨hour, -, hhourFits, hhour⟩ := slice_of_digitsAt (by omega) hhour
  obtain ⟨minute, -, hminuteFits, hminute⟩ := slice_of_digitsAt (by omega) hminute
  obtain ⟨second, -, hsecondFits, hsecond⟩ := slice_of_digitsAt (by omega) hsecond
  refine ⟨⟨year, month, day, hour, minute, second⟩,
    ⟨hyearFits, hmonthFits, hdayFits, hhourFits, hminuteFits, hsecondFits⟩, ?_⟩
  rw [slices hlength, hyear, hmonth, hday, hhour, hminute, hsecond, slice_of_getElem? htime,
    slice_of_getElem? hzone]
  rfl

/-- A date of the calendar and a time of day: exactly these are read, each as the
instant the fields come to. -/
theorem parseAmzDate_text_eq_some_iff (h : fields.Fit) (hyear : 1970 ≤ fields.year) {stamp : Int} :
    parseAmzDate fields.text = some stamp ↔
      fields.IsDate ∧ fields.clock < 86400 ∧ fields.instant = stamp := by
  have hclock : 0 ≤ fields.clock := by
    rw [clock]
    omega
  rw [parseAmzDate_text h]
  dsimp only
  constructor
  · intro hread
    split_ifs at hread with hrefused
    obtain ⟨-, hdate⟩ := not_or.mp hrefused
    obtain rfl := Option.some.inj hread
    obtain hdate := not_not.mp hdate
    obtain ⟨⟨hlow, hhigh⟩, -, hdays⟩ := civilFromDays_spec hdate
    have hstamp := @timegm_of_month fields.year fields.month fields.day fields.hour fields.minute
      fields.second hlow hhigh
    rw [hstamp] at hdays
    refine ⟨⟨_, hdate⟩, ?_, hstamp.symm⟩
    rw [clock]
    omega
  · rintro ⟨⟨days, hdate⟩, hinside, rfl⟩
    obtain ⟨⟨hlow, hhigh⟩, -, hdays⟩ := civilFromDays_spec hdate
    have hstamp : timegm fields.year fields.month fields.day fields.hour fields.minute
        fields.second = fields.instant := timegm_of_month hlow hhigh
    have hsame : fields.instant / 86400 = days := by
      rw [instant, hdays]
      omega
    have hafter : fields.instant ≠ -1 := by
      intro hbefore
      rw [hbefore] at hsame
      obtain rfl := hsame
      have hlast : (1969 : Int) = fields.year := congrArg Prod.fst hdate
      omega
    rw [hstamp, hsame, if_neg (not_or.mpr ⟨hafter, not_not.mpr hdate⟩)]

/-- A date of the calendar from 1970 on, and a time of day none of whose numbers is
carried. -/
structure Normal (fields : DateFields) : Prop where
  fit : fields.Fit
  year : 1970 ≤ fields.year
  isDate : fields.IsDate
  clock : fields.clock < 86400
  minute : fields.minute < 60
  second : fields.second < 60

/-- Such fields are what is written for their instant. -/
theorem Normal.formatAmzDate (h : fields.Normal) : formatAmzDate fields.instant = fields.text := by
  obtain ⟨days, hdate⟩ := h.isDate
  obtain ⟨-, -, hdays⟩ := civilFromDays_spec hdate
  have hinside := h.clock
  have hminute := h.minute
  have hsecond := h.second
  have hfour : fields.year < 10000 := h.fit.year
  have hclock : 0 ≤ fields.clock := by
    rw [DateFields.clock]
    omega
  have hday : fields.instant / 86400 = days := by
    rw [instant, hdays]
    omega
  obtain ⟨clock, hcarried⟩ : ∃ clock : Nat, (clock : Int) = fields.clock := ⟨_, Int.toNat_of_nonneg hclock⟩
  have htime : (fields.instant % 86400).toNat = clock := by
    rw [instant, hdays]
    omega
  have hnumbers : clock = fields.hour * 3600 + fields.minute * 60 + fields.second := by
    rw [DateFields.clock] at hcarried
    omega
  have hhourBack : clock / 3600 = fields.hour := by omega
  have hminuteBack : clock / 60 % 60 = fields.minute := by omega
  have hsecondBack : clock % 60 = fields.second := by omega
  have hplaces : ¬ ((fields.year : Int) < 0 ∨ 9999 < (fields.year : Int)) := by omega
  simp only [S3.formatAmzDate, hday, hdate, date, htime, hhourBack, hminuteBack, hsecondBack,
    if_neg hplaces, Int.toNat_natCast, text, dateText, clockText, List.append_assoc]

/-- The year of their instant is written in four digits. -/
theorem Normal.civilFromDays (h : fields.Normal) :
    (civilFromDays (fields.instant / 86400)).1 = fields.year := by
  obtain ⟨days, hdate⟩ := h.isDate
  obtain ⟨-, -, hdays⟩ := civilFromDays_spec hdate
  have hinside := h.clock
  have hclock : 0 ≤ fields.clock := by
    rw [DateFields.clock]
    omega
  have hday : fields.instant / 86400 = days := by
    rw [instant, hdays]
    omega
  rw [hday, hdate, date]

end DateFields

/-- An instant of the years 1970 to 9999. -/
def InYears (seconds : Int) : Prop :=
  1970 ≤ (civilFromDays (seconds / 86400)).1 ∧ (civilFromDays (seconds / 86400)).1 ≤ 9999

/-- Every such instant is that of some fields. -/
theorem exists_normal_of_inYears {seconds : Int} (h : InYears seconds) :
    ∃ fields : DateFields, fields.Normal ∧ fields.instant = seconds := by
  obtain ⟨⟨year, month, day⟩, hdate⟩ : ∃ date, date = civilFromDays (seconds / 86400) := ⟨_, rfl⟩
  rw [InYears, ← hdate] at h
  obtain ⟨hfirst, hlast⟩ := h
  dsimp only at hfirst hlast
  obtain ⟨⟨hlow, hhigh⟩, ⟨hone, hmost⟩, hdays⟩ := civilFromDays_spec hdate.symm
  obtain ⟨clock, hclock⟩ : ∃ clock : Nat, (clock : Int) = seconds % 86400 :=
    ⟨_, Int.toNat_of_nonneg (Int.emod_nonneg _ (by decide))⟩
  have hinside : clock < 86400 := by omega
  obtain ⟨year, rfl⟩ := Int.eq_ofNat_of_zero_le (by omega : 0 ≤ year)
  obtain ⟨month, rfl⟩ := Int.eq_ofNat_of_zero_le (by omega : 0 ≤ month)
  obtain ⟨day, rfl⟩ := Int.eq_ofNat_of_zero_le (by omega : 0 ≤ day)
  refine ⟨⟨year, month, day, clock / 3600, clock / 60 % 60, clock % 60⟩,
    ⟨⟨?_, ?_, ?_, ?_, ?_, ?_⟩, ?_, ⟨_, hdate.symm⟩, ?_, ?_, ?_⟩, ?_⟩
  · dsimp only
    omega
  · dsimp only
    omega
  · dsimp only
    omega
  · dsimp only
    omega
  · dsimp only
    omega
  · dsimp only
    omega
  · dsimp only
    omega
  · simp only [DateFields.clock]
    omega
  · dsimp only
    omega
  · dsimp only
    omega
  · simp only [DateFields.instant, DateFields.clock, hdays]
    omega

/-! ### What is read and what is written -/

/-- The four digits of a year before 1970. -/
def BeginsBefore1970 (text : Bytes) : Prop := ∃ year < 1970, paddedDecimal 4 year <+: text

/-- A minute or a second past fifty-nine that is carried within its day. -/
def Carries (text : Bytes) : Prop :=
  ∃ fields : DateFields, fields.Fit ∧ text = fields.text ∧ fields.IsDate ∧ fields.clock < 86400 ∧
    (60 ≤ fields.minute ∨ 60 ≤ fields.second)

/-- A timestamp is accepted as one instant, under the only name the instant has. -/
structure ReadStrictly (text : Bytes) : Prop where
  accepts : ∀ seconds, parseAmzDate text = some seconds ↔
    InYears seconds ∧ text = formatAmzDate seconds
  alone : ∀ other seconds, ¬ BeginsBefore1970 other → ¬ Carries other →
    parseAmzDate text = some seconds → parseAmzDate other = some seconds → other = text

theorem DateFields.year_of_not_beginsBefore1970 {fields : DateFields}
    (h : ¬ BeginsBefore1970 fields.text) : 1970 ≤ fields.year := by
  by_contra hbefore
  refine h ⟨fields.year, by omega, ?_⟩
  simp only [text, dateText, List.append_assoc]
  exact List.prefix_append _ _

/-- A text without a carried number is accepted exactly when it is what is written. -/
theorem accepts_of_not_carries {text : Bytes} (hyear : ¬ BeginsBefore1970 text)
    (hcarries : ¬ Carries text) (seconds : Int) : parseAmzDate text = some seconds ↔
      InYears seconds ∧ text = formatAmzDate seconds := by
  constructor
  · intro hread
    obtain ⟨fields, hfit, rfl⟩ := DateFields.exists_of_parseAmzDate hread
    have hfrom := DateFields.year_of_not_beginsBefore1970 hyear
    obtain ⟨hdate, hclock, rfl⟩ := (DateFields.parseAmzDate_text_eq_some_iff hfit hfrom).mp hread
    have hsmall : ¬ (60 ≤ fields.minute ∨ 60 ≤ fields.second) := fun hlarge =>
      hcarries ⟨fields, hfit, rfl, hdate, hclock, hlarge⟩
    have hnormal : fields.Normal := ⟨hfit, hfrom, hdate, hclock, by omega, by omega⟩
    have hfour : fields.year < 10000 := hfit.year
    refine ⟨?_, hnormal.formatAmzDate.symm⟩
    rw [InYears, hnormal.civilFromDays]
    omega
  · rintro ⟨hyears, rfl⟩
    obtain ⟨fields, hnormal, rfl⟩ := exists_normal_of_inYears hyears
    rw [hnormal.formatAmzDate]
    exact (DateFields.parseAmzDate_text_eq_some_iff hnormal.fit hnormal.year).mpr
      ⟨hnormal.isDate, hnormal.clock, rfl⟩

/-- Fields are read back from their text. -/
theorem DateFields.text_injective {first second : DateFields} (hfirst : first.Fit)
    (hsecond : second.Fit) (h : first.text = second.text) :
    first.minute = second.minute ∧ first.second = second.second := by
  obtain ⟨-, -, -, -, hminute, hseconds⟩ := digitsAt_text hfirst
  obtain ⟨-, -, -, -, hminute', hseconds'⟩ := digitsAt_text hsecond
  rw [h] at hminute hseconds
  have hsameMinute := Option.some.inj (hminute.symm.trans hminute')
  have hsameSecond := Option.some.inj (hseconds.symm.trans hseconds')
  exact ⟨Int.ofNat_inj.mp hsameMinute, Int.ofNat_inj.mp hsameSecond⟩

/-- Timestamps are read strictly but for a carried minute or second. -/
theorem readStrictly_iff {text : Bytes} (hyear : ¬ BeginsBefore1970 text) :
    ReadStrictly text ↔ ¬ Carries text := by
  constructor
  · rintro hstrict ⟨fields, hfit, rfl, hdate, hclock, hlarge⟩
    have hfrom := DateFields.year_of_not_beginsBefore1970 hyear
    have hread : parseAmzDate fields.text = some fields.instant :=
      (DateFields.parseAmzDate_text_eq_some_iff hfit hfrom).mpr ⟨hdate, hclock, rfl⟩
    obtain ⟨hyears, hwritten⟩ := (hstrict.accepts _).mp hread
    obtain ⟨written, hnormal, hsame⟩ := exists_normal_of_inYears hyears
    rw [← hsame, hnormal.formatAmzDate] at hwritten
    obtain ⟨hminute, hsecond⟩ := DateFields.text_injective hfit hnormal.fit hwritten
    have hminuteSmall := hnormal.minute
    have hsecondSmall := hnormal.second
    omega
  · intro hcarries
    refine ⟨accepts_of_not_carries hyear hcarries, fun other seconds hother hplain hread hsame => ?_⟩
    obtain ⟨-, rfl⟩ := (accepts_of_not_carries hyear hcarries seconds).mp hread
    obtain ⟨-, rfl⟩ := (accepts_of_not_carries hother hplain seconds).mp hsame
    rfl

section Fixed

theorem not_beginsBefore1970_of_take {text : Bytes} {year : Nat} (hfrom : 1970 ≤ year)
    (hfour : year < 10 ^ 4) (htake : text.take 4 = paddedDecimal 4 year) : ¬ BeginsBefore1970 text := by
  rintro ⟨early, hearly, hprefix⟩
  have hsame := List.prefix_iff_eq_take.mp hprefix
  rw [length_paddedDecimal, htake] at hsame
  have hvalue := congrArg digitsValue hsame
  rw [digitsValue_paddedDecimal hfour, digitsValue_paddedDecimal (by omega)] at hvalue
  omega

def midnight : Bytes := ascii "20130524T000000Z"

theorem readStrictly_midnight : ReadStrictly midnight := by
  refine (readStrictly_iff (@not_beginsBefore1970_of_take _ 2013 (by decide) (by decide) (by decide))).mpr ?_
  rintro ⟨fields, hfit, htext, -, -, hlarge⟩
  obtain ⟨-, -, -, -, hminute, hsecond⟩ := DateFields.digitsAt_text hfit
  rw [← htext] at hminute hsecond
  have hzeroMinute : (0 : Int) = fields.minute := Option.some.inj hminute
  have hzeroSecond : (0 : Int) = fields.second := Option.some.inj hsecond
  omega

/-- Sixty minutes past midnight. -/
def carriedMinute : Bytes := ascii "20130524T006000Z"

/-- It is read as one o'clock, which has another name. -/
theorem carried_minute_is_read :
    parseAmzDate carriedMinute = some 1369357200 ∧
      formatAmzDate 1369357200 = ascii "20130524T010000Z" ∧
      parseAmzDate (ascii "20130524T010000Z") = some 1369357200 ∧
      ¬ ∀ text, ¬ BeginsBefore1970 text → ∀ seconds, parseAmzDate text = some seconds ↔
        InYears seconds ∧ text = formatAmzDate seconds := by
  have hread : parseAmzDate carriedMinute = some 1369357200 := by decide
  refine ⟨hread, by decide, by decide, fun hall => ?_⟩
  have hyear : ¬ BeginsBefore1970 carriedMinute :=
    @not_beginsBefore1970_of_take _ 2013 (by decide) (by decide) (by decide)
  have hwritten := ((hall carriedMinute hyear 1369357200).mp hread).2
  exact absurd hwritten (by decide)

end Fixed

end MonoBucket.S3
