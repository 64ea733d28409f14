/-
What encoding keeps

Encoded text decodes to what it was, whatever its bytes, and it holds none of
the bytes a query string is cut at. So a canonical query string reads back as
the parameters it was written from, in the order it put them.
-/

import Mathlib.Data.List.TakeWhile
import MonoBucket.S3.Uri

namespace MonoBucket.S3

/-! ### One byte -/

theorem forall_byte_of_fin {P : UInt8 → Prop} (h : ∀ value : Fin 256, P (UInt8.ofFin value))
    (byte : UInt8) : P byte :=
  h byte.toFin

/-- An escape holds both halves of its byte, as digits that are not escaped again. -/
theorem escape_spec (byte : UInt8) :
    hexValue (upperHexDigit (byte >>> 4)) = some (byte >>> 4) ∧
      hexValue (upperHexDigit (byte &&& 0x0F)) = some (byte &&& 0x0F) ∧
      ((byte >>> 4) <<< 4) ||| (byte &&& 0x0F) = byte ∧
      isUnreserved (upperHexDigit (byte >>> 4)) ∧ isUnreserved (upperHexDigit (byte &&& 0x0F)) :=
  forall_byte_of_fin
    (P := fun byte => hexValue (upperHexDigit (byte >>> 4)) = some (byte >>> 4) ∧
      hexValue (upperHexDigit (byte &&& 0x0F)) = some (byte &&& 0x0F) ∧
      ((byte >>> 4) <<< 4) ||| (byte &&& 0x0F) = byte ∧
      isUnreserved (upperHexDigit (byte >>> 4)) ∧ isUnreserved (upperHexDigit (byte &&& 0x0F)))
    (by decide +kernel) byte

theorem hexValue_high (byte : UInt8) : hexValue (upperHexDigit (byte >>> 4)) = some (byte >>> 4) :=
  (escape_spec byte).1

theorem hexValue_low (byte : UInt8) :
    hexValue (upperHexDigit (byte &&& 0x0F)) = some (byte &&& 0x0F) :=
  (escape_spec byte).2.1

theorem high_or_low (byte : UInt8) : ((byte >>> 4) <<< 4) ||| (byte &&& 0x0F) = byte :=
  (escape_spec byte).2.2.1

theorem isUnreserved_high (byte : UInt8) : isUnreserved (upperHexDigit (byte >>> 4)) :=
  (escape_spec byte).2.2.2.1

theorem isUnreserved_low (byte : UInt8) : isUnreserved (upperHexDigit (byte &&& 0x0F)) :=
  (escape_spec byte).2.2.2.2

/-- The last change of case decides. -/
theorem letterCase_spec (byte : UInt8) :
    toLower (toUpper byte) = toLower byte ∧ toLower (toLower byte) = toLower byte ∧
      toUpper (toUpper byte) = toUpper byte :=
  forall_byte_of_fin
    (P := fun byte => toLower (toUpper byte) = toLower byte ∧ toLower (toLower byte) = toLower byte ∧
      toUpper (toUpper byte) = toUpper byte)
    (by decide +kernel) byte

theorem toLower_toUpper (byte : UInt8) : toLower (toUpper byte) = toLower byte :=
  (letterCase_spec byte).1

theorem toLower_toLower (byte : UInt8) : toLower (toLower byte) = toLower byte :=
  (letterCase_spec byte).2.1

theorem toUpper_toUpper (byte : UInt8) : toUpper (toUpper byte) = toUpper byte :=
  (letterCase_spec byte).2.2

/-! ### Text -/

theorem uriDecode_cons_of_ne {byte : UInt8} (h : byte ≠ letter '%') (rest : Bytes) :
    uriDecode (byte :: rest) = byte :: uriDecode rest := by
  match rest with
  | [] => rfl
  | [_] => rfl
  | _ :: _ :: _ => simp [uriDecode, h]

theorem uriDecode_escape (byte : UInt8) (rest : Bytes) :
    uriDecode (letter '%' :: upperHexDigit (byte >>> 4) :: upperHexDigit (byte &&& 0x0F) :: rest) =
      byte :: uriDecode rest := by
  rw [uriDecode, hexValue_high, hexValue_low]
  simp [high_or_low]

theorem percent_not_unreserved : ¬ isUnreserved (letter '%') := by decide

theorem uriDecode_uriEncode_append (text : Bytes) (encodeSlash : Bool) (rest : Bytes) :
    uriDecode (uriEncode text encodeSlash ++ rest) = text ++ uriDecode rest := by
  induction text with
  | nil => rfl
  | cons byte tail ih =>
      rw [uriEncode] at ih ⊢
      rw [List.flatMap_cons, List.append_assoc]
      split_ifs with hplain
      · have hne : byte ≠ letter '%' := by
          rintro rfl
          rcases hplain with hunreserved | hslash
          · exact percent_not_unreserved hunreserved
          · exact absurd hslash.1 (by decide)
        rw [List.singleton_append, uriDecode_cons_of_ne hne, ih]
        rfl
      · rw [List.cons_append, List.cons_append, List.singleton_append, uriDecode_escape, ih]
        rfl

theorem uriDecode_uriEncode (text : Bytes) (encodeSlash : Bool) :
    uriDecode (uriEncode text encodeSlash) = text := by
  have h := uriDecode_uriEncode_append text encodeSlash []
  rwa [List.append_nil, uriDecode, List.append_nil] at h

/-- What encoded text is made of. -/
theorem of_mem_uriEncode {text : Bytes} {encodeSlash : Bool} {byte : UInt8}
    (h : byte ∈ uriEncode text encodeSlash) :
    isUnreserved byte ∨ byte = letter '%' ∨ (byte = letter '/' ∧ ¬ encodeSlash) := by
  obtain ⟨source, -, hmem⟩ := List.mem_flatMap.mp h
  split_ifs at hmem with hplain
  · rw [List.mem_singleton] at hmem
    subst hmem
    rcases hplain with hunreserved | hslash
    · exact Or.inl hunreserved
    · exact Or.inr (Or.inr hslash)
  · simp only [List.mem_cons, List.not_mem_nil, or_false] at hmem
    rcases hmem with rfl | rfl | rfl
    · exact Or.inr (Or.inl rfl)
    · exact Or.inl (isUnreserved_high source)
    · exact Or.inl (isUnreserved_low source)

/-- A byte that is none of these is not in encoded text. -/
theorem not_mem_uriEncode {text : Bytes} {encodeSlash : Bool} {byte : UInt8}
    (h : isUnreserved byte = false ∧ byte ≠ letter '%' ∧ byte ≠ letter '/') :
    byte ∉ uriEncode text encodeSlash := by
  intro hmem
  rcases of_mem_uriEncode hmem with hunreserved | hpercent | hslash
  · rw [h.1] at hunreserved
    cases hunreserved
  · exact h.2.1 hpercent
  · exact h.2.2 hslash.1

/-- Text that needs no escaping is its own encoding. -/
theorem uriEncode_of_unreserved {text : Bytes} (encodeSlash : Bool)
    (h : ∀ byte ∈ text, isUnreserved byte) : uriEncode text encodeSlash = text := by
  induction text with
  | nil => rfl
  | cons byte rest ih =>
      obtain ⟨hbyte, hrest⟩ := List.forall_mem_cons.mp h
      have htail := ih hrest
      rw [uriEncode] at htail ⊢
      rw [List.flatMap_cons, if_pos (Or.inl hbyte), htail]
      rfl

theorem uriEncode_injective (encodeSlash : Bool) :
    Function.Injective fun text => uriEncode text encodeSlash := by
  intro first second h
  have hdecoded := congrArg uriDecode h
  rwa [uriDecode_uriEncode, uriDecode_uriEncode] at hdecoded

/-! ### Splitting -/

theorem splitAtFirst_append_cons {separator : UInt8} {front : Bytes} (h : separator ∉ front)
    (rest : Bytes) : splitAtFirst separator (front ++ separator :: rest) = some (front, rest) := by
  have hall : ∀ byte ∈ front, decide (byte ≠ separator) = true := by
    intro byte hbyte
    exact decide_eq_true fun heq => h (heq ▸ hbyte)
  rw [splitAtFirst, List.dropWhile_append_of_pos hall, List.takeWhile_append_of_pos hall]
  simp

theorem splitAtFirst_of_not_mem {separator : UInt8} {text : Bytes} (h : separator ∉ text) :
    splitAtFirst separator text = none := by
  have hall : text.dropWhile (· ≠ separator) = [] := by
    rw [List.dropWhile_eq_nil_iff]
    intro byte hbyte
    exact decide_eq_true fun heq => h (heq ▸ hbyte)
  rw [splitAtFirst, hall]

theorem eq_of_splitAtFirst {separator : UInt8} {text front rest : Bytes}
    (h : splitAtFirst separator text = some (front, rest)) :
    text = front ++ separator :: rest ∧ separator ∉ front := by
  by_cases hmem : separator ∈ text
  · obtain ⟨before, after, rfl, hbefore⟩ := List.eq_append_cons_of_mem hmem
    rw [splitAtFirst_append_cons hbefore] at h
    obtain ⟨rfl, rfl⟩ := Prod.mk.inj (Option.some.inj h)
    exact ⟨rfl, hbefore⟩
  · rw [splitAtFirst_of_not_mem hmem] at h
    cases h

/-- Joining by appending is intercalation, where no item is empty. -/
theorem joined_eq_intercalate {separator : UInt8} {items : List Bytes} (h : ∀ item ∈ items, item ≠ []) :
    joined separator items = [separator].intercalate items := by
  have hbehind : ∀ (rest : List Bytes) (out : Bytes), out ≠ [] →
      rest.foldl (fun out item => (if out = [] then [] else out ++ [separator]) ++ item) out =
        [separator].intercalate (out :: rest) := by
    intro rest
    induction rest with
    | nil =>
        intro out _
        simp
    | cons item rest ih =>
        intro out hout
        rw [List.foldl_cons, if_neg hout, ih _ (by simp), List.intercalate_cons_cons]
        cases rest with
        | nil => simp
        | cons next rest => simp [List.intercalate_cons_cons]
  cases items with
  | nil => rfl
  | cons item rest =>
      rw [joined, List.foldl_cons, if_pos rfl, List.nil_append]
      exact hbehind rest item (h item (List.mem_cons_self ..))

theorem intercalate_append_singleton {separator : Bytes} {items : List Bytes} (h : items ≠ [])
    (last : Bytes) :
    separator.intercalate (items ++ [last]) = separator.intercalate items ++ separator ++ last := by
  induction items with
  | nil => exact absurd rfl h
  | cons item rest ih =>
      cases rest with
      | nil => simp [List.intercalate_cons_cons]
      | cons next rest =>
          have htail := ih (by simp)
          rw [List.cons_append, List.cons_append, List.intercalate_cons_cons,
            List.intercalate_cons_cons, ← List.cons_append, htail]
          simp only [List.append_assoc]

/-! ### Query strings -/

/-- A parameter as the canonical query string writes it. -/
def encodedField (param : QueryParam) : Bytes × Bytes :=
  (uriEncode param.name true, uriEncode param.value true)

def fieldText (field : Bytes × Bytes) : Bytes := field.1 ++ [letter '='] ++ field.2

/-- The order of the canonical query string. -/
def fieldBefore (first second : Bytes × Bytes) : Prop :=
  first.1 < second.1 ∨ (first.1 = second.1 ∧ first.2 ≤ second.2)

instance : DecidableRel fieldBefore := fun _ _ => inferInstanceAs (Decidable (_ ∨ _))

/-- The encoded parameters of a canonical query string, in its order. -/
def canonicalFields (params : List QueryParam) (omitted : Bytes) : List (Bytes × Bytes) :=
  ((params.filter fun param => omitted = [] ∨ param.name ≠ omitted).map encodedField).insertionSort
    fieldBefore

/-- A field that is some parameter, encoded. -/
def IsEncoded (field : Bytes × Bytes) : Prop :=
  ∃ name value : Bytes, field = (uriEncode name true, uriEncode value true)

/-- What such a field reads back as. -/
def decodedField (field : Bytes × Bytes) : QueryParam :=
  { name := uriDecode field.1, value := uriDecode field.2, hasValue := true }

theorem fieldText_ne_nil (field : Bytes × Bytes) : fieldText field ≠ [] := by
  simp [fieldText]

theorem canonicalQueryString_eq (params : List QueryParam) (omitted : Bytes) :
    canonicalQueryString params omitted =
      [letter '&'].intercalate ((canonicalFields params omitted).map fieldText) := by
  rw [← joined_eq_intercalate]
  · rfl
  · intro item hitem
    obtain ⟨field, -, rfl⟩ := List.mem_map.mp hitem
    exact fieldText_ne_nil field

theorem isEncoded_of_mem_canonicalFields {params : List QueryParam} {omitted : Bytes}
    {field : Bytes × Bytes} (h : field ∈ canonicalFields params omitted) : IsEncoded field := by
  rw [canonicalFields, List.mem_insertionSort] at h
  obtain ⟨param, -, rfl⟩ := List.mem_map.mp h
  exact ⟨param.name, param.value, rfl⟩

section Encoded

variable {field : Bytes × Bytes}

theorem IsEncoded.separator_not_mem (h : IsEncoded field) : letter '&' ∉ fieldText field := by
  obtain ⟨name, value, rfl⟩ := h
  rw [fieldText]
  simp only [List.mem_append, List.mem_singleton, not_or]
  exact ⟨⟨not_mem_uriEncode (by decide), by decide⟩, not_mem_uriEncode (by decide)⟩

theorem IsEncoded.question_not_mem (h : IsEncoded field) : letter '?' ∉ fieldText field := by
  obtain ⟨name, value, rfl⟩ := h
  rw [fieldText]
  simp only [List.mem_append, List.mem_singleton, not_or]
  exact ⟨⟨not_mem_uriEncode (by decide), by decide⟩, not_mem_uriEncode (by decide)⟩

theorem IsEncoded.parseField_fieldText (h : IsEncoded field) :
    parseField (fieldText field) = decodedField field := by
  obtain ⟨name, value, rfl⟩ := h
  have hname : letter '=' ∉ uriEncode name true := not_mem_uriEncode (by decide)
  have hsplit : splitAtFirst (letter '=')
      (uriEncode name true ++ ([letter '='] ++ uriEncode value true)) =
        some (uriEncode name true, uriEncode value true) := splitAtFirst_append_cons hname _
  rw [parseField, fieldText, List.append_assoc, hsplit]
  rfl

theorem decodedField_encodedField (param : QueryParam) :
    decodedField (encodedField param) = { param with hasValue := true } := by
  rw [decodedField, encodedField, uriDecode_uriEncode, uriDecode_uriEncode]

end Encoded

/-- Fields that are put together by the separator come apart at it. -/
theorem parseQuery_intercalate {fields : List Bytes}
    (hfields : ∀ field ∈ fields, field ≠ [] ∧ letter '&' ∉ field ∧ field.head? ≠ some (letter '?')) :
    parseQuery ([letter '&'].intercalate fields) = fields.map parseField := by
  cases fields with
  | nil => rfl
  | cons first rest =>
      obtain ⟨hsome, -, hhead⟩ := hfields first (List.mem_cons_self ..)
      have hstart : ([letter '&'].intercalate (first :: rest)).head? = first.head? := by
        obtain ⟨byte, tail, rfl⟩ := List.exists_cons_of_ne_nil hsome
        cases rest <;> simp [List.intercalate_cons_cons]
      rw [parseQuery, if_neg (by rw [hstart]; exact hhead),
        List.splitOn_intercalate _ (fun field hfield => (hfields field hfield).2.1) (by simp),
        List.filter_eq_self.mpr fun field hfield => decide_eq_true (hfields field hfield).1]

theorem parseQuery_fields {fields : List (Bytes × Bytes)} (h : ∀ field ∈ fields, IsEncoded field) :
    parseQuery ([letter '&'].intercalate (fields.map fieldText)) = fields.map decodedField := by
  rw [parseQuery_intercalate, List.map_map]
  · exact List.map_congr_left fun field hfield => (h field hfield).parseField_fieldText
  · intro item hitem
    obtain ⟨field, hfield, rfl⟩ := List.mem_map.mp hitem
    have hencoded := h field hfield
    exact ⟨fieldText_ne_nil field, hencoded.separator_not_mem,
      fun hhead => hencoded.question_not_mem (List.mem_of_mem_head? hhead)⟩

/-- A canonical query string reads back as the parameters it was written from. -/
theorem parseQuery_canonicalQueryString (params : List QueryParam) (omitted : Bytes) :
    parseQuery (canonicalQueryString params omitted) =
      (canonicalFields params omitted).map decodedField := by
  rw [canonicalQueryString_eq]
  exact parseQuery_fields fun field => isEncoded_of_mem_canonicalFields

end MonoBucket.S3
