/-
The Range header

`parseRange` reads one range of one unit. A numeral is read up to nineteen digits,
and the end of a range is read only when its start lies inside the object. So a
longer numeral makes a well-formed range absent, and text that is no numeral is
answered as a range past the object when the start is.

Every other header selects exactly the bytes it asks for.
-/

import MonoBucket.S3.UriRoundTrip
import MonoBucket.Storage.Keyspace

namespace MonoBucket.S3

inductive RangeResult
  | absent
  | unsatisfiable
  | satisfiable
  deriving DecidableEq, Repr

structure ByteRange where
  offset : UInt64 := 0
  length : UInt64 := 0
  deriving DecidableEq

def rangeUnit : Bytes := ascii "bytes="

def rangeDigit (value : UInt64) (ch : UInt8) : Option UInt64 :=
  if isDigit ch then some (value * 10 + (ch - 0x30).toUInt64) else none

def rangeNumber (text : Bytes) : Option UInt64 :=
  if text = [] ∨ 19 < text.length then none else text.foldlM rangeDigit 0

/-- `bytes=-N`, the last `N` bytes. -/
def suffixRange (lastText : Bytes) (objectSize : UInt64) (out : ByteRange) :
    RangeResult × ByteRange :=
  match rangeNumber lastText with
  | none => (.absent, out)
  | some count =>
    if count = 0 then (.unsatisfiable, out)
    else
      let length := min count objectSize
      (if length = 0 then .unsatisfiable else .satisfiable, ⟨objectSize - length, length⟩)

/-- What stands in front of the dash and behind it. -/
def readRange (firstText lastText : Bytes) (objectSize : UInt64) (out : ByteRange) :
    RangeResult × ByteRange :=
  if firstText = [] ∧ lastText = [] then (.absent, out)
  else if firstText = [] then suffixRange lastText objectSize out
  else
    match rangeNumber firstText with
    | none => (.absent, out)
    | some first =>
      if objectSize ≤ first then (.unsatisfiable, out)
      else if lastText = [] then (.satisfiable, ⟨first, objectSize - 1 - first + 1⟩)
      else
        match rangeNumber lastText with
        | none => (.absent, out)
        | some explicitLast =>
          let last := min explicitLast (objectSize - 1)
          if last < first then (.unsatisfiable, out)
          else (.satisfiable, ⟨first, last - first + 1⟩)

/-- The answer, and what the output parameter then holds. -/
def parseRange (header : Bytes) (objectSize : UInt64) (out : ByteRange) : RangeResult × ByteRange :=
  if ¬ rangeUnit <+: header then (.absent, out)
  else
    let spec := header.drop rangeUnit.length
    if letter ',' ∈ spec then (.absent, out)
    else
      match splitAtFirst (letter '-') spec with
      | none => (.absent, out)
      | some (firstText, lastText) => readRange firstText lastText objectSize out

/-! ### Numerals -/

/-- A decimal numeral of any length. -/
structure Numeral (text : Bytes) : Prop where
  nonempty : text ≠ []
  digits : ∀ ch ∈ text, isDigit ch

instance (text : Bytes) : Decidable (Numeral text) :=
  decidable_of_iff (text ≠ [] ∧ ∀ ch ∈ text, isDigit ch) ⟨fun h => ⟨h.1, h.2⟩, fun h => ⟨h.1, h.2⟩⟩

theorem digitsValue_concat (text : Bytes) (ch : UInt8) :
    digitsValue (text ++ [ch]) = digitsValue text * 10 + (ch.toNat - 0x30) := by
  rw [digitsValue, List.foldl_append]
  rfl

theorem toNat_sub_of_isDigit {ch : UInt8} (h : isDigit ch) :
    (ch - 0x30).toUInt64.toNat = ch.toNat - 0x30 ∧ ch.toNat - 0x30 ≤ 9 := by
  obtain ⟨hlow, hhigh⟩ := of_decide_eq_true h
  have hlow' : 0x30 ≤ ch.toNat := UInt8.le_iff_toNat_le.mp hlow
  have hhigh' : ch.toNat ≤ 0x39 := UInt8.le_iff_toNat_le.mp hhigh
  refine ⟨?_, by omega⟩
  rw [UInt8.toNat_toUInt64, UInt8.toNat_sub_of_le _ _ hlow]
  rfl

theorem digitsValue_lt {text : Bytes} (h : ∀ ch ∈ text, isDigit ch) :
    digitsValue text < 10 ^ text.length := by
  induction text using List.reverseRecOn with
  | nil => decide
  | append_singleton text ch ih =>
      have hrest := ih fun other hother => h other (List.mem_append_left _ hother)
      have hdigit := (toNat_sub_of_isDigit (h ch (by simp))).2
      rw [digitsValue_concat, List.length_append, List.length_singleton, pow_succ]
      omega

/-- The loop reads the value of a numeral that cannot overflow, and nothing else. -/
theorem foldlM_rangeDigit {text : Bytes} (hlength : text.length ≤ 19) :
    text.foldlM rangeDigit 0 =
      if ∀ ch ∈ text, isDigit ch then some (UInt64.ofNat (digitsValue text)) else none := by
  induction text using List.reverseRecOn with
  | nil => rfl
  | append_singleton text ch ih =>
      rw [List.length_append, List.length_singleton] at hlength
      rw [List.foldlM_append, ih (by omega)]
      by_cases hrest : ∀ other ∈ text, isDigit other
      · rw [if_pos hrest]
        show ((rangeDigit (UInt64.ofNat (digitsValue text)) ch).bind fun value => some value) = _
        rw [rangeDigit]
        by_cases hch : isDigit ch
        · have hall : ∀ other ∈ text ++ [ch], isDigit other := by
            intro other hother
            rcases List.mem_append.mp hother with hold | hlast
            · exact hrest other hold
            · rwa [List.mem_singleton.mp hlast]
          obtain ⟨hvalue, hbound⟩ := toNat_sub_of_isDigit hch
          have hlt := digitsValue_lt hrest
          have hpow : 10 ^ text.length ≤ 10 ^ 18 := Nat.pow_le_pow_right (by decide) (by omega)
          rw [if_pos hch, if_pos hall, digitsValue_concat, Option.bind_some]
          congr 1
          apply UInt64.toNat_inj.mp
          have hten : (10 : UInt64).toNat = 10 := rfl
          rw [UInt64.toNat_add, UInt64.toNat_mul, hvalue, hten, UInt64.toNat_ofNat',
            UInt64.toNat_ofNat']
          omega
        · rw [if_neg hch, if_neg fun hall => hch (hall ch (by simp))]
          rfl
      · rw [if_neg hrest, if_neg fun hall => hrest fun other hother =>
          hall other (List.mem_append_left _ hother)]
        rfl

theorem rangeNumber_eq (text : Bytes) :
    rangeNumber text =
      if Numeral text ∧ text.length ≤ 19 then some (UInt64.ofNat (digitsValue text)) else none := by
  rw [rangeNumber]
  by_cases hempty : text = []
  · rw [if_pos (Or.inl hempty), if_neg fun h => h.1.nonempty hempty]
  · by_cases hlong : 19 < text.length
    · rw [if_pos (Or.inr hlong), if_neg fun h => by omega]
    · rw [if_neg (by simp [hempty, hlong]), foldlM_rangeDigit (by omega)]
      by_cases hdigits : ∀ ch ∈ text, isDigit ch
      · rw [if_pos hdigits, if_pos ⟨⟨hempty, hdigits⟩, by omega⟩]
      · rw [if_neg hdigits, if_neg fun h => hdigits h.1.digits]

/-- A numeral that is read is read as its value. -/
theorem rangeNumber_of_numeral {text : Bytes} (h : Numeral text) (hlength : text.length ≤ 19) :
    ∃ value, rangeNumber text = some value ∧ value.toNat = digitsValue text := by
  refine ⟨_, (rangeNumber_eq text).trans (if_pos ⟨h, hlength⟩), ?_⟩
  have hlt := digitsValue_lt h.digits
  have hpow : 10 ^ text.length ≤ 10 ^ 19 := Nat.pow_le_pow_right (by decide) hlength
  rw [UInt64.toNat_ofNat']
  exact Nat.mod_eq_of_lt (lt_of_lt_of_le hlt (hpow.trans (by norm_num)))

theorem rangeNumber_eq_none {text : Bytes} (h : ¬ (Numeral text ∧ text.length ≤ 19)) :
    rangeNumber text = none := (rangeNumber_eq text).trans (if_neg h)

/-! ### What a header asks for -/

/-- The text around the dash of a header in the unit of bytes. -/
structure RangeSpec where
  first : Bytes
  last : Bytes

namespace RangeSpec

def header (spec : RangeSpec) : Bytes := rangeUnit ++ (spec.first ++ letter '-' :: spec.last)

/-- `a-b`, `a-` or `-n`. -/
inductive Formed : RangeSpec → Prop
  | closed {first last : Bytes} (hfirst : Numeral first) (hlast : Numeral last) :
    Formed ⟨first, last⟩
  | openEnd {first : Bytes} (hfirst : Numeral first) : Formed ⟨first, []⟩
  | suffix {last : Bytes} (hlast : Numeral last) : Formed ⟨[], last⟩

/-- The byte at the position is asked for, and it is in the object. -/
def Selects (spec : RangeSpec) (size position : Nat) : Prop :=
  position < size ∧
    if spec.first = [] then size ≤ position + digitsValue spec.last
    else digitsValue spec.first ≤ position ∧ (spec.last = [] ∨ position ≤ digitsValue spec.last)

/-- The range is inside the object and is what is asked for. -/
structure Covers (spec : RangeSpec) (size : Nat) (range : ByteRange) : Prop where
  nonempty : 1 ≤ range.length.toNat
  inside : range.offset.toNat + range.length.toNat ≤ size
  exact : ∀ position, spec.Selects size position ↔
    range.offset.toNat ≤ position ∧ position < range.offset.toNat + range.length.toNat

/-- A range of one of the three forms is answered by the bytes it selects. -/
def Answered (spec : RangeSpec) (size : Nat) (answer : RangeResult × ByteRange) : Prop :=
  (∃ position, spec.Selects size position) ∧ answer.1 = .satisfiable ∧ spec.Covers size answer.2 ∨
    (¬ ∃ position, spec.Selects size position) ∧ answer.1 = .unsatisfiable

/-- A numeral of over nineteen digits that is read, or text that is not read because the start
is past the object. -/
inductive Misread (size : Nat) : RangeSpec → Prop
  | longCount {last : Bytes} (hlast : Numeral last) (hlong : 19 < last.length) :
    Misread size ⟨[], last⟩
  | longFirst {first last : Bytes} (hfirst : Numeral first) (hlong : 19 < first.length)
    (hlast : last = [] ∨ Numeral last) : Misread size ⟨first, last⟩
  | longLast {first last : Bytes} (hfirst : Numeral first) (hshort : first.length ≤ 19)
    (hinside : digitsValue first < size) (hlast : Numeral last) (hlong : 19 < last.length) :
    Misread size ⟨first, last⟩
  | skipped {first last : Bytes} (hfirst : Numeral first) (hshort : first.length ≤ 19)
    (hpast : size ≤ digitsValue first) (hlast : last ≠ []) (hmalformed : ¬ Numeral last)
    (hsingle : letter ',' ∉ last) : Misread size ⟨first, last⟩

end RangeSpec

/-- Every header of one of the forms is answered by the bytes it selects, every other one is
absent. -/
def AnswersRange (header : Bytes) (size : Nat) (answer : RangeResult × ByteRange) : Prop :=
  (∀ spec : RangeSpec, header = spec.header → spec.Formed → spec.Answered size answer) ∧
    ((∀ spec : RangeSpec, header = spec.header → ¬ spec.Formed) → answer.1 = .absent)

section Reading

variable {first last : Bytes} {objectSize : UInt64} {out : ByteRange}

theorem Numeral.not_mem {text : Bytes} (h : Numeral text) {ch : UInt8} (hch : isDigit ch = false) :
    ch ∉ text := by
  intro hmem
  have hdigit := h.digits ch hmem
  rw [hch] at hdigit
  cases hdigit

theorem RangeSpec.Formed.dash_not_mem {spec : RangeSpec} (h : spec.Formed) :
    letter '-' ∉ spec.first := by
  cases h with
  | closed hfirst hlast => exact hfirst.not_mem (by decide)
  | openEnd hfirst => exact hfirst.not_mem (by decide)
  | suffix hlast => exact List.not_mem_nil

theorem RangeSpec.Misread.dash_not_mem {spec : RangeSpec} {size : Nat} (h : spec.Misread size) :
    letter '-' ∉ spec.first := by
  cases h with
  | longCount hlast hlong => exact List.not_mem_nil
  | longFirst hfirst hlong hlast => exact hfirst.not_mem (by decide)
  | longLast hfirst hshort hinside hlast hlong => exact hfirst.not_mem (by decide)
  | skipped hfirst hshort hpast hlast hmalformed hsingle => exact hfirst.not_mem (by decide)

/-- The first dash tells the two texts apart. -/
theorem RangeSpec.eq_of_header_eq {spec other : RangeSpec} (h : spec.header = other.header)
    (hspec : letter '-' ∉ spec.first) (hother : letter '-' ∉ other.first) : spec = other := by
  obtain ⟨hfirst, hlast⟩ := Keys.append_mark_inj hspec hother (List.append_cancel_left h)
  cases spec
  cases other
  rw [RangeSpec.mk.injEq]
  exact ⟨hfirst, hlast⟩

theorem parseRange_header (spec : RangeSpec) (hdash : letter '-' ∉ spec.first) :
    parseRange spec.header objectSize out =
      if letter ',' ∈ spec.first ++ letter '-' :: spec.last then (.absent, out)
      else readRange spec.first spec.last objectSize out := by
  have hfront : rangeUnit <+: spec.header := List.prefix_append ..
  rw [parseRange, if_neg (not_not.mpr hfront), RangeSpec.header, List.drop_left]
  dsimp only
  rw [splitAtFirst_append_cons hdash]

/-- A header is of some form around a dash, or it is absent. -/
theorem exists_header_or_absent (header : Bytes) :
    (∃ spec : RangeSpec, header = spec.header ∧ letter '-' ∉ spec.first) ∨
      (∀ spec : RangeSpec, header ≠ spec.header) ∧ parseRange header objectSize out = (.absent, out) := by
  by_cases hfront : rangeUnit <+: header
  · obtain ⟨text, rfl⟩ := hfront
    by_cases hdash : letter '-' ∈ text
    · left
      obtain ⟨first, last, rfl, hfirst⟩ := List.eq_append_cons_of_mem hdash
      exact ⟨⟨first, last⟩, rfl, hfirst⟩
    · right
      refine ⟨fun spec hspec => ?_, ?_⟩
      · apply hdash
        rw [List.append_cancel_left hspec]
        simp
      · rw [parseRange, if_neg (not_not.mpr (List.prefix_append ..)), List.drop_left]
        dsimp only
        rw [splitAtFirst_of_not_mem hdash]
        split_ifs <;> rfl
  · right
    refine ⟨fun spec hspec => hfront ?_, by rw [parseRange, if_pos hfront]⟩
    rw [hspec]
    exact List.prefix_append ..

theorem RangeSpec.answered_of_covers {spec : RangeSpec} {size : Nat} {range : ByteRange}
    (h : spec.Covers size range) : spec.Answered size (.satisfiable, range) := by
  have hnonempty := h.nonempty
  exact Or.inl ⟨⟨range.offset.toNat, (h.exact _).mpr ⟨le_refl _, by omega⟩⟩, rfl, h⟩

theorem RangeSpec.answered_of_forall {spec : RangeSpec} {size : Nat}
    (h : ∀ position, ¬ spec.Selects size position) : spec.Answered size (.unsatisfiable, out) :=
  Or.inr ⟨fun ⟨position, hposition⟩ => h position hposition, rfl⟩

theorem RangeSpec.not_answered_absent {spec : RangeSpec} {size : Nat} :
    ¬ spec.Answered size (.absent, out) := by
  rintro (⟨-, habsurd, -⟩ | ⟨-, habsurd⟩)
  · cases habsurd
  · cases habsurd

theorem toNat_min (first second : UInt64) :
    (min first second).toNat = min first.toNat second.toNat := by
  show (if first ≤ second then first else second).toNat = _
  rw [min_def, apply_ite UInt64.toNat]
  rfl

/-- The last bytes of the object. -/
theorem suffixRange_answered (hlast : Numeral last) (hshort : last.length ≤ 19) :
    (⟨[], last⟩ : RangeSpec).Answered objectSize.toNat (suffixRange last objectSize out) := by
  obtain ⟨count, hcount, hvalue⟩ := rangeNumber_of_numeral hlast hshort
  rw [suffixRange, hcount]
  dsimp only
  by_cases hzero : count = 0
  · rw [if_pos hzero]
    apply RangeSpec.answered_of_forall
    rintro position ⟨hposition, hselects⟩
    rw [if_pos rfl, ← hvalue, hzero] at hselects
    exact absurd hselects (by simpa using hposition)
  · have hpositive : 0 < count.toNat := by
      rw [Nat.pos_iff_ne_zero]
      exact fun h => hzero (UInt64.toNat_inj.mp h)
    have hlength := toNat_min count objectSize
    rw [if_neg hzero]
    by_cases hempty : min count objectSize = 0
    · rw [if_pos hempty]
      apply RangeSpec.answered_of_forall
      rintro position ⟨hposition, -⟩
      rw [hempty, UInt64.toNat_zero] at hlength
      omega
    · rw [if_neg hempty]
      apply RangeSpec.answered_of_covers
      have hsome : 0 < (min count objectSize).toNat := by
        rw [Nat.pos_iff_ne_zero]
        exact fun h => hempty (UInt64.toNat_inj.mp h)
      have hle : min count objectSize ≤ objectSize := UInt64.le_iff_toNat_le.mpr (by omega)
      have hoffset := UInt64.toNat_sub_of_le _ _ hle
      refine ⟨hsome, ?_, fun position => ?_⟩
      · dsimp only
        omega
      · dsimp only [RangeSpec.Selects]
        rw [if_pos rfl, hoffset, ← hvalue]
        omega

theorem toNat_pred {start : UInt64} (h : start < objectSize) :
    (objectSize - 1).toNat = objectSize.toNat - 1 := by
  have hinside := UInt64.lt_iff_toNat_lt.mp h
  have hone : (1 : UInt64).toNat ≤ objectSize.toNat := by
    change 1 ≤ _
    omega
  exact UInt64.toNat_sub_of_le _ _ (UInt64.le_iff_toNat_le.mpr hone)

/-- The bytes from one position to another, both counted, when the object has a byte more. -/
theorem toNat_span {start stop : UInt64} (h : start ≤ stop) (hstop : stop < objectSize) :
    (stop - start + 1).toNat = stop.toNat - start.toNat + 1 := by
  have hbelow := UInt64.lt_iff_toNat_lt.mp hstop
  have hbound := objectSize.toNat_lt
  rw [UInt64.toNat_add, UInt64.toNat_sub_of_le _ _ h]
  exact Nat.mod_eq_of_lt (by change _ + 1 < _; omega)

/-- From a start inside the object on. -/
theorem openRange_answered {start : UInt64} (hfirst : first ≠ [])
    (hstart : start.toNat = digitsValue first) (hinside : start < objectSize) :
    (⟨first, []⟩ : RangeSpec).Answered objectSize.toNat
      (.satisfiable, ⟨start, objectSize - 1 - start + 1⟩) := by
  have hinside' := UInt64.lt_iff_toNat_lt.mp hinside
  have hpred := toNat_pred hinside
  have habove : start ≤ objectSize - 1 := UInt64.le_iff_toNat_le.mpr (by omega)
  have hbelow : objectSize - 1 < objectSize := UInt64.lt_iff_toNat_lt.mpr (by omega)
  have hlength := toNat_span habove hbelow
  apply RangeSpec.answered_of_covers
  refine ⟨?_, ?_, fun position => ?_⟩
  · dsimp only
    omega
  · dsimp only
    omega
  · dsimp only [RangeSpec.Selects]
    rw [if_neg hfirst, ← hstart, hlength, hpred]
    simp only [true_or, and_true]
    omega

/-- From a start inside the object to an end that is read. -/
theorem closedRange_answered {start stop : UInt64} (hfirst : first ≠ []) (hlast : last ≠ [])
    (hstart : start.toNat = digitsValue first) (hstop : stop.toNat = digitsValue last)
    (hinside : start < objectSize) :
    (⟨first, last⟩ : RangeSpec).Answered objectSize.toNat
      (if min stop (objectSize - 1) < start then (.unsatisfiable, out)
      else (.satisfiable, ⟨start, min stop (objectSize - 1) - start + 1⟩)) := by
  have hinside' := UInt64.lt_iff_toNat_lt.mp hinside
  have hpred := toNat_pred hinside
  have hend := toNat_min stop (objectSize - 1)
  split_ifs with hbelow
  · have hbelow' := UInt64.lt_iff_toNat_lt.mp hbelow
    apply RangeSpec.answered_of_forall
    rintro position ⟨hposition, hselects⟩
    rw [if_neg hfirst, or_iff_right hlast, ← hstart, ← hstop] at hselects
    omega
  · have habove : start ≤ min stop (objectSize - 1) := UInt64.not_lt.mp hbelow
    have habove' := UInt64.le_iff_toNat_le.mp habove
    have hbelow' : min stop (objectSize - 1) < objectSize :=
      UInt64.lt_iff_toNat_lt.mpr (by omega)
    have hlength := toNat_span habove hbelow'
    apply RangeSpec.answered_of_covers
    refine ⟨?_, ?_, fun position => ?_⟩
    · dsimp only
      omega
    · dsimp only
      omega
    · dsimp only [RangeSpec.Selects]
      rw [if_neg hfirst, or_iff_right hlast, ← hstart, ← hstop, hlength]
      omega

/-! ### Exactly when a header is read -/

/-- What is answered for the text around the first dash, and how it should be. -/
def RangeSpec.Meets (spec : RangeSpec) (size : Nat) (answer : RangeResult × ByteRange) : Prop :=
  (spec.Formed → spec.Answered size answer) ∧ (¬ spec.Formed → answer.1 = .absent)

theorem RangeSpec.meets_of_answered {spec : RangeSpec} {size : Nat}
    {answer : RangeResult × ByteRange} (hformed : spec.Formed) (h : spec.Answered size answer) :
    spec.Meets size answer := ⟨fun _ => h, fun hnot => absurd hformed hnot⟩

theorem RangeSpec.meets_absent_iff {spec : RangeSpec} {size : Nat} :
    spec.Meets size (.absent, out) ↔ ¬ spec.Formed :=
  ⟨fun h hformed => RangeSpec.not_answered_absent (h.1 hformed), fun h =>
    ⟨fun hformed => absurd hformed h, fun _ => rfl⟩⟩

/-- A comma is in no numeral. -/
theorem RangeSpec.comma_not_mem {spec : RangeSpec} {size : Nat}
    (h : spec.Formed ∨ spec.Misread size) :
    letter ',' ∉ spec.first ++ letter '-' :: spec.last := by
  have hcomma : isDigit (letter ',') = false := by decide
  have hdash : letter ',' ≠ letter '-' := by decide
  suffices hboth : letter ',' ∉ spec.first ∧ letter ',' ∉ spec.last by
    simp [hboth.1, hboth.2, hdash]
  rcases h with hformed | hmisread
  · cases hformed with
    | closed hfirst hlast => exact ⟨hfirst.not_mem hcomma, hlast.not_mem hcomma⟩
    | openEnd hfirst => exact ⟨hfirst.not_mem hcomma, List.not_mem_nil⟩
    | suffix hlast => exact ⟨List.not_mem_nil, hlast.not_mem hcomma⟩
  · cases hmisread with
    | longCount hlast hlong => exact ⟨List.not_mem_nil, hlast.not_mem hcomma⟩
    | longFirst hfirst hlong hlast =>
        refine ⟨hfirst.not_mem hcomma, ?_⟩
        rcases hlast with rfl | hlast
        · exact List.not_mem_nil
        · exact hlast.not_mem hcomma
    | longLast hfirst hshort hinside hlast hlong =>
        exact ⟨hfirst.not_mem hcomma, hlast.not_mem hcomma⟩
    | skipped hfirst hshort hpast hlast hmalformed hsingle =>
        exact ⟨hfirst.not_mem hcomma, hsingle⟩

theorem RangeSpec.numeral_of_formed (hformed : (⟨first, last⟩ : RangeSpec).Formed) :
    (first = [] ∨ Numeral first) ∧ (last = [] ∨ Numeral last) ∧ (first ≠ [] ∨ last ≠ []) := by
  cases hformed with
  | closed hfirst hlast => exact ⟨.inr hfirst, .inr hlast, .inl hfirst.nonempty⟩
  | openEnd hfirst => exact ⟨.inr hfirst, .inl rfl, .inl hfirst.nonempty⟩
  | suffix hlast => exact ⟨.inl rfl, .inr hlast, .inr hlast.nonempty⟩

/-- No numeral has no digit. -/
theorem Numeral.not_nil : ¬ Numeral [] := fun h => h.nonempty rfl

/-- The last bytes are read exactly when their count has at most nineteen digits. -/
theorem suffixRange_meets_iff (hlast : last ≠ []) :
    (⟨[], last⟩ : RangeSpec).Meets objectSize.toNat (suffixRange last objectSize out) ↔
      ¬ (⟨[], last⟩ : RangeSpec).Misread objectSize.toNat := by
  have hmisread : (⟨[], last⟩ : RangeSpec).Misread objectSize.toNat ↔
      Numeral last ∧ 19 < last.length := by
    refine ⟨fun h => ?_, fun h => .longCount h.1 h.2⟩
    cases h with
    | longCount hnumeral hlong => exact ⟨hnumeral, hlong⟩
    | longFirst hfirst hlong => exact absurd hfirst Numeral.not_nil
    | longLast hfirst => exact absurd hfirst Numeral.not_nil
    | skipped hfirst => exact absurd hfirst Numeral.not_nil
  rw [hmisread]
  by_cases hnumeral : Numeral last
  · by_cases hlong : 19 < last.length
    · have habsent : suffixRange last objectSize out = (.absent, out) := by
        rw [suffixRange, rangeNumber_eq_none (by omega)]
      rw [habsent, RangeSpec.meets_absent_iff]
      exact ⟨fun h => absurd (.suffix hnumeral) h, fun h => absurd ⟨hnumeral, hlong⟩ h⟩
    · refine ⟨fun _ h => hlong h.2, fun _ => ?_⟩
      exact RangeSpec.meets_of_answered (.suffix hnumeral)
        (suffixRange_answered hnumeral (by omega))
  · have habsent : suffixRange last objectSize out = (.absent, out) := by
      rw [suffixRange, rangeNumber_eq_none fun h => hnumeral h.1]
    rw [habsent, RangeSpec.meets_absent_iff]
    refine ⟨fun _ h => hnumeral h.1, fun _ hformed => ?_⟩
    exact (RangeSpec.numeral_of_formed hformed).2.1.elim hlast hnumeral

theorem RangeSpec.formed_iff (hfirst : Numeral first) :
    (⟨first, last⟩ : RangeSpec).Formed ↔ last = [] ∨ Numeral last := by
  refine ⟨fun h => (RangeSpec.numeral_of_formed h).2.1, fun h => ?_⟩
  rcases h with rfl | hlast
  · exact .openEnd hfirst
  · exact .closed hfirst hlast

/-- The ways to misread a text with a start. -/
theorem RangeSpec.misread_iff {size : Nat} (hfirst : Numeral first) (hsingle : letter ',' ∉ last) :
    (⟨first, last⟩ : RangeSpec).Misread size ↔
      19 < first.length ∧ (last = [] ∨ Numeral last) ∨
        first.length ≤ 19 ∧ digitsValue first < size ∧ Numeral last ∧ 19 < last.length ∨
        first.length ≤ 19 ∧ size ≤ digitsValue first ∧ last ≠ [] ∧ ¬ Numeral last := by
  constructor
  · intro h
    cases h with
    | longCount hlast hlong => exact absurd hfirst Numeral.not_nil
    | longFirst hnumeral hlong hlast => exact Or.inl ⟨hlong, hlast⟩
    | longLast hnumeral hshort hinside hlast hlong =>
        exact Or.inr (Or.inl ⟨hshort, hinside, hlast, hlong⟩)
    | skipped hnumeral hshort hpast hlast hmalformed _ =>
        exact Or.inr (Or.inr ⟨hshort, hpast, hlast, hmalformed⟩)
  · rintro (⟨hlong, hlast⟩ | ⟨hshort, hinside, hlast, hlong⟩ | ⟨hshort, hpast, hlast, hmalformed⟩)
    · exact .longFirst hfirst hlong hlast
    · exact .longLast hfirst hshort hinside hlast hlong
    · exact .skipped hfirst hshort hpast hlast hmalformed hsingle

/-- A text whose start is read. -/
theorem readRange_of_first {start : UInt64} (hfirst : first ≠ [])
    (hstart : rangeNumber first = some start) :
    readRange first last objectSize out =
      if objectSize ≤ start then (.unsatisfiable, out)
      else if last = [] then (.satisfiable, ⟨start, objectSize - 1 - start + 1⟩)
      else
        match rangeNumber last with
        | none => (.absent, out)
        | some explicitLast =>
          if min explicitLast (objectSize - 1) < start then (.unsatisfiable, out)
          else (.satisfiable, ⟨start, min explicitLast (objectSize - 1) - start + 1⟩) := by
  rw [readRange, if_neg fun h => hfirst h.1, if_neg hfirst, hstart]

/-- Past the object, what is behind the dash is not looked at. -/
theorem readRange_meets_iff_past {start : UInt64} (hfirst : Numeral first)
    (hstart : rangeNumber first = some start) (hvalue : start.toNat = digitsValue first)
    (hpast : objectSize ≤ start) :
    (⟨first, last⟩ : RangeSpec).Meets objectSize.toNat (readRange first last objectSize out) ↔
      last = [] ∨ Numeral last := by
  have hpast' := UInt64.le_iff_toNat_le.mp hpast
  rw [readRange_of_first hfirst.nonempty hstart, if_pos hpast, ← RangeSpec.formed_iff hfirst]
  refine ⟨fun h => ?_, fun hformed => RangeSpec.meets_of_answered hformed ?_⟩
  · by_contra hnot
    cases h.2 hnot
  · apply RangeSpec.answered_of_forall
    rintro position ⟨hposition, hselects⟩
    rw [if_neg hfirst.nonempty, ← hvalue] at hselects
    omega

/-- Inside the object, the end is read. -/
theorem readRange_meets_iff_inside {start : UInt64} (hfirst : Numeral first)
    (hstart : rangeNumber first = some start) (hvalue : start.toNat = digitsValue first)
    (hinside : start < objectSize) :
    (⟨first, last⟩ : RangeSpec).Meets objectSize.toNat (readRange first last objectSize out) ↔
      ¬ (Numeral last ∧ 19 < last.length) := by
  rw [readRange_of_first hfirst.nonempty hstart, if_neg (UInt64.not_le.mpr hinside)]
  by_cases hempty : last = []
  · subst hempty
    rw [if_pos rfl]
    refine ⟨fun _ h => Numeral.not_nil h.1, fun _ => ?_⟩
    exact RangeSpec.meets_of_answered (.openEnd hfirst)
      (openRange_answered hfirst.nonempty hvalue hinside)
  · rw [if_neg hempty]
    by_cases hread : Numeral last ∧ last.length ≤ 19
    · obtain ⟨stop, hstop, hstopValue⟩ := rangeNumber_of_numeral hread.1 hread.2
      rw [hstop]
      refine ⟨fun _ h => by omega, fun _ => ?_⟩
      exact RangeSpec.meets_of_answered (.closed hfirst hread.1)
        (closedRange_answered hfirst.nonempty hempty hvalue hstopValue hinside)
    · rw [rangeNumber_eq_none hread]
      dsimp only
      rw [RangeSpec.meets_absent_iff, RangeSpec.formed_iff hfirst, or_iff_right hempty]
      exact not_congr ⟨fun h => ⟨h, by by_contra hshort; exact hread ⟨h, by omega⟩⟩, And.left⟩

/-- A text with a start is read unless it is misread. -/
theorem readRange_meets_iff (hfirst : first ≠ []) (hsingle : letter ',' ∉ last) :
    (⟨first, last⟩ : RangeSpec).Meets objectSize.toNat (readRange first last objectSize out) ↔
      ¬ (⟨first, last⟩ : RangeSpec).Misread objectSize.toNat := by
  by_cases hnumeral : Numeral first
  · rw [RangeSpec.misread_iff hnumeral hsingle]
    by_cases hlong : 19 < first.length
    · have habsent : readRange first last objectSize out = (.absent, out) := by
        rw [readRange, if_neg fun h => hfirst h.1, if_neg hfirst,
          rangeNumber_eq_none (by omega)]
      rw [habsent, RangeSpec.meets_absent_iff, RangeSpec.formed_iff hnumeral]
      simp only [hlong, Nat.not_le.mpr hlong, true_and, false_and, or_false]
    · obtain ⟨start, hstart, hvalue⟩ := rangeNumber_of_numeral hnumeral (by omega)
      have hshort : first.length ≤ 19 := by omega
      by_cases hpast : objectSize ≤ start
      · have hpast' := UInt64.le_iff_toNat_le.mp hpast
        rw [readRange_meets_iff_past hnumeral hstart hvalue hpast]
        simp only [hlong, hshort, ← hvalue, hpast', Nat.not_lt.mpr hpast', true_and, false_and,
          false_or]
        tauto
      · have hinside := UInt64.not_le.mp hpast
        have hinside' := UInt64.lt_iff_toNat_lt.mp hinside
        rw [readRange_meets_iff_inside hnumeral hstart hvalue hinside]
        simp only [hlong, hshort, ← hvalue, hinside', Nat.not_le.mpr hinside', true_and, false_and,
          or_false, false_or]
  · have habsent : readRange first last objectSize out = (.absent, out) := by
      rw [readRange, if_neg fun h => hfirst h.1, if_neg hfirst,
        rangeNumber_eq_none fun h => hnumeral h.1]
    rw [habsent, RangeSpec.meets_absent_iff]
    refine ⟨fun _ hmisread => ?_, fun _ hformed => ?_⟩
    · cases hmisread with
      | longCount hlast hlong => exact hfirst rfl
      | longFirst h => exact hnumeral h
      | longLast h => exact hnumeral h
      | skipped h => exact hnumeral h
    · exact (RangeSpec.numeral_of_formed hformed).1.elim hfirst hnumeral

/-- The text around the first dash is read unless it is misread. -/
theorem parseRange_meets_iff (spec : RangeSpec) (hdash : letter '-' ∉ spec.first) :
    spec.Meets objectSize.toNat (parseRange spec.header objectSize out) ↔
      ¬ spec.Misread objectSize.toNat := by
  obtain ⟨first, last⟩ := spec
  rw [parseRange_header _ hdash]
  by_cases hcomma : letter ',' ∈ first ++ letter '-' :: last
  · rw [if_pos hcomma, RangeSpec.meets_absent_iff]
    exact ⟨fun _ h => RangeSpec.comma_not_mem (.inr h) hcomma,
      fun _ h => @RangeSpec.comma_not_mem _ objectSize.toNat (.inl h) hcomma⟩
  · rw [if_neg hcomma]
    have hsingle : letter ',' ∉ last := fun h => hcomma (by simp [h])
    by_cases hfirst : first = []
    · subst hfirst
      by_cases hlast : last = []
      · subst hlast
        rw [readRange, if_pos ⟨rfl, rfl⟩, RangeSpec.meets_absent_iff]
        refine ⟨fun _ h => ?_, fun _ h => (RangeSpec.numeral_of_formed h).2.2.elim (· rfl) (· rfl)⟩
        cases h with
        | longCount h => exact Numeral.not_nil h
        | longFirst h => exact Numeral.not_nil h
        | longLast h => exact Numeral.not_nil h
        | skipped h => exact Numeral.not_nil h
      · rw [readRange, if_neg fun h => hlast h.2, if_pos rfl]
        exact suffixRange_meets_iff hlast
    · exact readRange_meets_iff hfirst hsingle

end Reading

/-- A range header is answered by the bytes it selects exactly when it is not misread. -/
theorem parseRange_answers_iff (header : Bytes) (objectSize : UInt64) (out : ByteRange) :
    AnswersRange header objectSize.toNat (parseRange header objectSize out) ↔
      ¬ ∃ spec : RangeSpec, header = spec.header ∧ spec.Misread objectSize.toNat := by
  rcases exists_header_or_absent header with ⟨spec, rfl, hdash⟩ | ⟨hnone, habsent⟩
  · have hsame : ∀ {other : RangeSpec}, spec.header = other.header → letter '-' ∉ other.first →
        spec = other := fun h hother => RangeSpec.eq_of_header_eq h hdash hother
    have hmisread : (∃ other : RangeSpec, spec.header = other.header ∧
        other.Misread objectSize.toNat) ↔ spec.Misread objectSize.toNat := by
      refine ⟨fun ⟨other, hheader, h⟩ => ?_, fun h => ⟨spec, rfl, h⟩⟩
      rwa [hsame hheader h.dash_not_mem]
    rw [hmisread, ← parseRange_meets_iff spec hdash]
    refine ⟨fun h => ⟨h.1 spec rfl, fun hnot => h.2 fun other hheader hformed => ?_⟩,
      fun h => ⟨fun other hheader hformed => ?_, fun hnot => h.2 (hnot spec rfl)⟩⟩
    · rw [hsame hheader hformed.dash_not_mem] at hnot
      exact hnot hformed
    · obtain rfl := hsame hheader hformed.dash_not_mem
      exact h.1 hformed
  · refine ⟨fun _ ⟨spec, hheader, _⟩ => hnone spec hheader, fun _ => ⟨fun spec hheader => ?_, ?_⟩⟩
    · exact absurd hheader (hnone spec)
    · intro _
      rw [habsent]

/-- An end that is no numeral, behind a start past the object. -/
theorem malformed_end_unsatisfiable :
    ¬ AnswersRange (ascii "bytes=60-x") 50 (parseRange (ascii "bytes=60-x") 50 {}) := by
  rintro ⟨-, habsent⟩
  have hmalformed : ∀ spec : RangeSpec, ascii "bytes=60-x" = spec.header → ¬ spec.Formed := by
    intro spec hheader hformed
    have hshape : ascii "bytes=60-x" = (⟨ascii "60", ascii "x"⟩ : RangeSpec).header := by decide
    obtain rfl := RangeSpec.eq_of_header_eq (hheader.symm.trans hshape) hformed.dash_not_mem
      (by decide)
    have hnot : ¬ Numeral (ascii "x") := by decide
    exact (RangeSpec.numeral_of_formed hformed).2.1.elim (by decide) hnot
  have hanswer : (parseRange (ascii "bytes=60-x") 50 {}).1 = .unsatisfiable := by decide
  rw [hanswer] at habsent
  cases habsent hmalformed

end MonoBucket.S3
