/-
Names that look like an address

`looksLikeIpv4` adds up the digits of a label in an `int`, and judges the label only
when it ends. A name may hold sixty-three characters, so a label of eleven digits
leaves the range of an `int` first. On every other name the answer is the right one.
-/

import MonoBucket.S3.ByteRange
import MonoBucket.S3.Names

namespace MonoBucket.S3

/-- The largest `int`. -/
def intMax : Nat := 2147483647

/-- The loop of `looksLikeIpv4` as an `int` counts, nothing once the value is out of
range. -/
def ipv4LoopInt (octets digits value : Nat) : Bytes → Option Bool
  | [] => some (!(digits = 0 ∨ 3 < digits ∨ 255 < value) && octets + 1 = 4)
  | byte :: rest =>
    if byte = letter '.' then
      if digits = 0 ∨ 3 < digits ∨ 255 < value then some false
      else ipv4LoopInt (octets + 1) 0 0 rest
    else if isDigit byte then
      let next := value * 10 + (byte - 0x30).toNat
      if intMax < next then none else ipv4LoopInt octets (digits + 1) next rest
    else some false

def looksLikeIpv4Int (name : Bytes) : Option Bool := ipv4LoopInt 0 0 0 name

/-- The checks of `isValidBucketName` in front of the last one. -/
structure NameChecked (name : Bytes) : Prop where
  long : minBucketNameLength ≤ name.length
  short : name.length ≤ maxBucketNameLength
  first : name.head?.any isAlnum
  last : name.getLast?.any isAlnum
  bytes : bucketNameBytes 0 name

/-- A decimal label of an address. -/
structure Octet (label : Bytes) : Prop where
  digits : ∀ byte ∈ label, isDigit byte
  nonempty : label ≠ []
  three : label.length ≤ 3
  value : digitsValue label ≤ 255

/-- Four labels between dots. -/
def IsIpv4 (name : Bytes) : Prop :=
  (name.splitOn (letter '.')).length = 4 ∧ ∀ label ∈ name.splitOn (letter '.'), Octet label

/-- A number that leaves the range of an `int`, behind labels of an address only. -/
inductive OverflowsInt : Bytes → Prop
  | here {digits back : Bytes} (hdigits : ∀ byte ∈ digits, isDigit byte)
    (hlarge : intMax < digitsValue digits) : OverflowsInt (digits ++ back)
  | later {octet rest : Bytes} (hoctet : Octet octet) (hrest : OverflowsInt rest) :
    OverflowsInt (octet ++ letter '.' :: rest)

/-! ### The loop -/

section Loop

variable {label rest : Bytes} {byte : UInt8} {octets : Nat}

theorem isDigit_dot : isDigit (letter '.') = false := by decide

theorem octet_iff (hlabel : ∀ byte ∈ label, isDigit byte) : Octet label ↔
    ¬ (label.length = 0 ∨ 3 < label.length ∨ 255 < digitsValue label) := by
  constructor
  · intro h
    have hsome := h.nonempty
    have hthree := h.three
    have hvalue := h.value
    rw [← List.length_pos_iff] at hsome
    omega
  · intro h
    refine ⟨hlabel, ?_, by omega, by omega⟩
    rintro rfl
    exact h (Or.inl rfl)

theorem digitsValue_snoc (label : Bytes) (byte : UInt8) (h : isDigit byte) :
    digitsValue (label ++ [byte]) = digitsValue label * 10 + (byte - 0x30).toNat := by
  have hlow : (0x30 : UInt8) ≤ byte := (of_decide_eq_true h).1
  rw [digitsValue_concat, UInt8.toNat_sub_of_le _ _ hlow]
  rfl

theorem forall_snoc (hlabel : ∀ byte ∈ label, isDigit byte) (hbyte : isDigit byte) :
    ∀ other ∈ label ++ [byte], isDigit other := by
  intro other hother
  rcases List.mem_append.mp hother with hold | hlast
  · exact hlabel other hold
  · rwa [List.mem_singleton.mp hlast]

/-- A longer numeral is no smaller. -/
theorem digitsValue_le_append (front back : Bytes) : digitsValue front ≤ digitsValue (front ++ back) := by
  induction back using List.reverseRecOn with
  | nil => rw [List.append_nil]
  | append_singleton back ch ih =>
      rw [← List.append_assoc, digitsValue_concat]
      omega

/-- Digits in front of something else are what `takeWhile` takes. -/
theorem takeWhile_label (hlabel : ∀ byte ∈ label, isDigit byte) (hbyte : isDigit byte = false) :
    (label ++ byte :: rest).takeWhile isDigit = label := by
  have hnone : ¬ isDigit byte = true := by
    rw [hbyte]
    exact Bool.false_ne_true
  rw [List.takeWhile_append_of_pos hlabel, List.takeWhile_cons_of_neg hnone, List.append_nil]

/-- Behind a label that ends, a number is out of range only if the label is an octet
and the rest overflows. -/
theorem overflowsInt_append_iff (hlabel : ∀ byte ∈ label, isDigit byte)
    (hfits : digitsValue label ≤ intMax) (hbyte : isDigit byte = false) :
    OverflowsInt (label ++ byte :: rest) ↔ byte = letter '.' ∧ Octet label ∧ OverflowsInt rest := by
  constructor
  · intro h
    generalize hname : label ++ byte :: rest = name at h
    have htaken : name.takeWhile isDigit = label := by
      rw [← hname]
      exact takeWhile_label hlabel hbyte
    cases h with
    | @here digits back hdigits hlarge =>
        rw [List.takeWhile_append_of_pos hdigits] at htaken
        have hmore := digitsValue_le_append digits (back.takeWhile isDigit)
        rw [htaken] at hmore
        omega
    | @later octet others hoctet hrest =>
        rw [takeWhile_label hoctet.digits isDigit_dot] at htaken
        subst htaken
        obtain ⟨rfl, rfl⟩ := List.cons.inj (List.append_cancel_left hname)
        exact ⟨rfl, hoctet, hrest⟩
  · rintro ⟨rfl, hoctet, hrest⟩
    exact .later hoctet hrest

theorem not_overflowsInt_label (hlabel : ∀ byte ∈ label, isDigit byte)
    (hfits : digitsValue label ≤ intMax) : ¬ OverflowsInt label := by
  intro h
  generalize hname : label = name at h
  cases h with
  | @here digits back hdigits hlarge =>
      have hmore := digitsValue_le_append digits back
      rw [← hname] at hmore
      omega
  | @later octet others hoctet hrest =>
      have hdot := hlabel (letter '.') (by rw [hname]; exact List.mem_append_cons_self)
      rw [isDigit_dot] at hdot
      exact absurd hdot Bool.false_ne_true

/-- The loop behind a label of digits: it leaves the range of an `int` exactly where a
number does, and otherwise answers as the unbounded loop. -/
theorem ipv4LoopInt_spec (hlabel : ∀ byte ∈ label, isDigit byte) (hfits : digitsValue label ≤ intMax) :
    (OverflowsInt (label ++ rest) ∧ ipv4LoopInt octets label.length (digitsValue label) rest = none) ∨
    (¬ OverflowsInt (label ++ rest) ∧
      ipv4LoopInt octets label.length (digitsValue label) rest =
        some (looksLikeIpv4Loop octets label.length (digitsValue label) rest)) := by
  induction rest generalizing label octets with
  | nil =>
      rw [List.append_nil]
      exact .inr ⟨not_overflowsInt_label hlabel hfits, rfl⟩
  | cons byte rest ih =>
      rw [ipv4LoopInt, looksLikeIpv4Loop]
      by_cases hdot : byte = letter '.'
      · subst hdot
        rw [overflowsInt_append_iff hlabel hfits isDigit_dot, octet_iff hlabel]
        simp only [if_true, true_and]
        by_cases hbad : label.length = 0 ∨ 3 < label.length ∨ 255 < digitsValue label
        · rw [if_pos hbad, if_pos hbad]
          exact .inr ⟨fun h => h.1 hbad, rfl⟩
        · rw [if_neg hbad, if_neg hbad]
          simp only [hbad, not_false_eq_true, true_and]
          exact @ih [] (octets + 1) (fun _ h => nomatch h) (Nat.zero_le _)
      · rw [if_neg hdot, if_neg hdot]
        by_cases hdigit : isDigit byte = true
        · have hvalue := digitsValue_snoc label byte hdigit
          have hlength : (label ++ [byte]).length = label.length + 1 := by
            rw [List.length_append, List.length_singleton]
          have hshape : label ++ byte :: rest = label ++ [byte] ++ rest := by
            rw [List.append_assoc, List.singleton_append]
          rw [if_pos hdigit, if_pos hdigit, ← hvalue, hshape, ← hlength]
          dsimp only
          by_cases hlarge : intMax < digitsValue (label ++ [byte])
          · rw [if_pos hlarge]
            exact .inl ⟨.here (forall_snoc hlabel hdigit) hlarge, rfl⟩
          · rw [if_neg hlarge]
            exact ih (forall_snoc hlabel hdigit) (not_lt.mp hlarge)
        · rw [if_neg hdigit, if_neg hdigit]
          have hother := Bool.eq_false_iff.mpr hdigit
          rw [overflowsInt_append_iff hlabel hfits hother]
          exact .inr ⟨fun h => hdot h.1, rfl⟩

/-- A byte other than the separator is in some piece. -/
theorem exists_piece_of_mem {text : Bytes} {separator : UInt8} (hmem : byte ∈ text)
    (hother : byte ≠ separator) : ∃ piece ∈ text.splitOn separator, byte ∈ piece := by
  induction text with
  | nil => cases hmem
  | cons first rest ih =>
      rw [List.splitOn_cons_eq_if_modifyHead]
      by_cases hfirst : first = separator
      · rw [if_pos (beq_iff_eq.mpr hfirst)]
        have hrest : byte ∈ rest := by
          rcases List.mem_cons.mp hmem with rfl | hrest
          · exact absurd hfirst hother
          · exact hrest
        obtain ⟨piece, hpiece, hin⟩ := ih hrest
        exact ⟨piece, List.mem_cons_of_mem _ hpiece, hin⟩
      · rw [if_neg (fun h => hfirst (beq_iff_eq.mp h))]
        cases hpieces : rest.splitOn separator with
        | nil => exact absurd hpieces (List.splitOn_ne_nil _ _)
        | cons head others =>
            rw [List.modifyHead_cons]
            rcases List.mem_cons.mp hmem with rfl | hrest
            · exact ⟨byte :: head, List.mem_cons_self, List.mem_cons_self⟩
            · obtain ⟨piece, hpiece, hin⟩ := ih hrest
              rw [hpieces] at hpiece
              rcases List.mem_cons.mp hpiece with rfl | hpiece
              · exact ⟨first :: piece, List.mem_cons_self, List.mem_cons_of_mem _ hin⟩
              · exact ⟨piece, List.mem_cons_of_mem _ hpiece, hin⟩

/-- The unbounded loop behind a label of digits. -/
theorem looksLikeIpv4Loop_iff (hlabel : ∀ byte ∈ label, isDigit byte) :
    looksLikeIpv4Loop octets label.length (digitsValue label) rest = true ↔
      octets + ((label ++ rest).splitOn (letter '.')).length = 4 ∧
        ∀ piece ∈ (label ++ rest).splitOn (letter '.'), Octet piece := by
  have hnone : letter '.' ∉ label := by
    intro hdot
    have hdigit := hlabel _ hdot
    rw [isDigit_dot] at hdigit
    exact Bool.false_ne_true hdigit
  induction rest generalizing label octets with
  | nil =>
      rw [List.append_nil, List.splitOn_eq_singleton hnone, List.length_singleton,
        List.forall_mem_singleton, octet_iff hlabel, looksLikeIpv4Loop]
      simp only [Bool.and_eq_true, Bool.not_eq_true', decide_eq_false_iff_not, decide_eq_true_eq]
      exact and_comm
  | cons byte rest ih =>
      rw [looksLikeIpv4Loop]
      by_cases hdot : byte = letter '.'
      · subst hdot
        rw [if_pos rfl, List.splitOn_append_cons_self, List.splitOn_eq_singleton hnone,
          List.singleton_append, List.length_cons, List.forall_mem_cons, octet_iff hlabel]
        have hrest := @ih [] (octets + 1) (fun _ h => nomatch h) List.not_mem_nil
        rw [List.nil_append] at hrest
        by_cases hbad : label.length = 0 ∨ 3 < label.length ∨ 255 < digitsValue label
        · rw [if_pos hbad]
          exact iff_of_false Bool.false_ne_true fun h => h.2.1 hbad
        · rw [if_neg hbad]
          refine hrest.trans (and_congr ?_ (by simp only [hbad, not_false_eq_true, true_and]))
          omega
      · rw [if_neg hdot]
        by_cases hdigit : isDigit byte = true
        · have hshape : label ++ byte :: rest = label ++ [byte] ++ rest := by
            rw [List.append_assoc, List.singleton_append]
          have hlength : (label ++ [byte]).length = label.length + 1 := by
            rw [List.length_append, List.length_singleton]
          have hnoneSnoc : letter '.' ∉ label ++ [byte] := by
            rw [List.mem_append, List.mem_singleton, not_or]
            exact ⟨hnone, fun h => hdot h.symm⟩
          rw [if_pos hdigit, hshape, ← digitsValue_snoc label byte hdigit, ← hlength]
          exact ih (forall_snoc hlabel hdigit) hnoneSnoc
        · rw [if_neg hdigit]
          refine iff_of_false Bool.false_ne_true fun h => ?_
          obtain ⟨piece, hpiece, hin⟩ := @exists_piece_of_mem byte (label ++ byte :: rest)
            (letter '.') List.mem_append_cons_self hdot
          exact hdigit ((h.2 piece hpiece).digits byte hin)

end Loop

/-! ### Every name -/

theorem looksLikeIpv4_iff (name : Bytes) : looksLikeIpv4 name = true ↔ IsIpv4 name := by
  have h := @looksLikeIpv4Loop_iff [] name 0 fun _ h => nomatch h
  rw [List.nil_append, Nat.zero_add] at h
  exact h

/-- No value leaves the range of an `int`, and the answer is whether the name is an
address. -/
def ClassifiedInRange (name : Bytes) : Prop :=
  ∃ answer, looksLikeIpv4Int name = some answer ∧ (answer = true ↔ IsIpv4 name)

/-- A name is classified but for a number that is too large. -/
theorem classifiedInRange_iff (name : Bytes) : ClassifiedInRange name ↔ ¬ OverflowsInt name := by
  have hspec := @ipv4LoopInt_spec [] name 0 (fun _ h => nomatch h) (Nat.zero_le _)
  rw [List.nil_append] at hspec
  rcases hspec with ⟨hover, hnone⟩ | ⟨hfits, hsome⟩
  · refine iff_of_false ?_ (not_not.mpr hover)
    rintro ⟨answer, hanswer, -⟩
    rw [looksLikeIpv4Int] at hanswer
    cases hnone.symm.trans hanswer
  · exact iff_of_true ⟨looksLikeIpv4 name, hsome, looksLikeIpv4_iff name⟩ hfits

section Fixed

/-- Eleven nines. -/
def longNumber : Bytes := ascii "99999999999"

theorem long_number_leaves_int :
    NameChecked longNumber ∧ looksLikeIpv4Int longNumber = none ∧
      ¬ ∀ name, NameChecked name → ClassifiedInRange name := by
  have hchecked : NameChecked longNumber :=
    ⟨by decide, by decide, by decide, by decide, by decide⟩
  have hnone : looksLikeIpv4Int longNumber = none := by decide
  refine ⟨hchecked, hnone, fun hall => ?_⟩
  obtain ⟨answer, hanswer, -⟩ := hall longNumber hchecked
  rw [hnone] at hanswer
  cases hanswer

end Fixed

end MonoBucket.S3
