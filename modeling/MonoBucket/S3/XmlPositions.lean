/-
The XML reader by position

The reader as it is written: one position into the document, moved forward by every step,
and a document that is read at the position, searched from it and cut by it. It follows the
reader of what is left of the document, so it never reads outside of it.
-/

import MonoBucket.Lib.Cursor
import MonoBucket.S3.XmlRoundTrip

namespace MonoBucket.S3.Xml.Parser

open Cursor

/-- A step of the reader, which may fault. -/
abbrev Step := Except (Fault XmlStop)

def fail {α : Type} (what : String) : Step α := .error (.failed (.parseError (ascii what)))

def outOfFuel {α : Type} : Step α := .error (.failed .outOfFuel)

variable (document : Bytes)

/-! ### What lies between elements -/

def skipSpace (pos : Nat) : Step Nat := skipWhile isXmlSpace document pos

def skipMisc : Nat → Nat → Step Nat
  | 0, _ => outOfFuel
  | fuel + 1, pos => do
    let pos ← skipSpace document pos
    let comment ← startsWith document (ascii "<!--") pos
    if comment then
      match RollUp.indexFrom (ascii "-->") document (pos + 4) with
      | none => fail "unterminated comment"
      | some found => skipMisc fuel (found + 3)
    else pure pos

def skipDeclaration (pos : Nat) : Step Nat := do
  let declared ← startsWith document (ascii "<?xml") pos
  if declared then
    match RollUp.indexFrom (ascii "?>") document pos with
    | none => fail "unterminated XML declaration"
    | some found => pure (found + 2)
  else pure pos

def skipProlog (pos : Nat) : Step Nat := do
  let pos ← skipSpace document pos
  let pos ← skipDeclaration document pos
  let pos ← skipMisc document (document.length - pos + 1) pos
  let doctype ← startsWith document (ascii "<!DOCTYPE") pos
  if doctype then fail "DOCTYPE declarations are not accepted" else pure pos

/-! ### Tags -/

def parseName (pos : Nat) : Step (Bytes × Nat) :=
  if document.length ≤ pos then fail "expected an element name"
  else do
    let first ← item document pos
    if isNameStart first then do
      let stop ← skipWhile isNameChar document pos
      let name ← slice document pos (stop - pos)
      pure (name, stop)
    else fail "expected an element name"

def skipQuoted (pos : Nat) : Step Nat := do
  let quote ← item document pos
  if quote = letter '"' ∨ quote = 0x27 then
    match RollUp.indexFrom [quote] document (pos + 1) with
    | none => fail "unterminated attribute value"
    | some found => pure (found + 1)
  else fail "unquoted attribute value"

def skipAttributeValue (pos : Nat) : Step Nat := do
  let pos ← skipSpace document pos
  if document.length ≤ pos then fail "malformed attribute"
  else do
    let equals ← item document pos
    if equals = letter '=' then do
      let pos ← skipSpace document (pos + 1)
      if document.length ≤ pos then fail "unquoted attribute value" else skipQuoted document pos
    else fail "malformed attribute"

def skipAttributes : Nat → Nat → Step (Bool × Nat)
  | 0, _ => outOfFuel
  | fuel + 1, pos => do
    let pos ← skipSpace document pos
    if document.length ≤ pos then fail "unterminated start tag"
    else do
      let byte ← item document pos
      if byte = letter '>' then pure (false, pos + 1)
      else do
        let closed ← startsWith document (ascii "/>") pos
        if closed then pure (true, pos + 2)
        else do
          let (_, pos) ← parseName document pos
          let pos ← skipAttributeValue document pos
          skipAttributes fuel pos

/-! ### Elements -/

def appendEntity (pos : Nat) : Step (Bytes × Nat) :=
  match RollUp.indexFrom [letter ';'] document pos with
  | none => fail "unterminated entity reference"
  | some stop =>
    if 12 < stop - pos then fail "unterminated entity reference"
    else do
      let name ← slice document (pos + 1) (stop - pos - 1)
      let text ← (entityText name).mapError .failed
      pure (text, stop + 1)

/-- An element at a position, with the elements met so far, and the position behind it. -/
abbrev ElementStep := Nat → Nat → Step (XmlNode × Nat × Nat)

def closeElement (name text : Bytes) (children : List XmlNode) : ElementStep :=
  fun elements pos => do
    let (closing, pos) ← parseName document pos
    if closing = name then do
      let pos ← skipSpace document pos
      if document.length ≤ pos then fail "malformed closing tag"
      else do
        let byte ← item document pos
        if byte = letter '>' then
          pure (.element name (if children.isEmpty then text else []) children, elements, pos + 1)
        else fail "malformed closing tag"
    else fail "mismatched closing tag"

/-- The loop over what an element holds. -/
def parseContent (parseChild : ElementStep) (name : Bytes) :
    Nat → Bytes → List XmlNode → ElementStep
  | 0, _, _, _, _ => outOfFuel
  | fuel + 1, text, children, elements, pos =>
    if document.length ≤ pos then fail "unterminated element"
    else do
      let byte ← item document pos
      if byte = letter '<' then do
        let closing ← startsWith document (ascii "</") pos
        if closing then closeElement document name text children elements (pos + 2)
        else do
          let comment ← startsWith document (ascii "<!--") pos
          if comment then
            match RollUp.indexFrom (ascii "-->") document (pos + 4) with
            | none => fail "unterminated comment"
            | some found => parseContent parseChild name fuel text children elements (found + 3)
          else do
            let cdata ← startsWith document (ascii "<![CDATA[") pos
            if cdata then
              match RollUp.indexFrom (ascii "]]>") document (pos + 9) with
              | none => fail "unterminated CDATA section"
              | some found => do
                let held ← slice document (pos + 9) (found - pos - 9)
                parseContent parseChild name fuel (text ++ held) children elements (found + 3)
            else do
              let instruction ← startsWith document (ascii "<?") pos
              if instruction then fail "processing instructions are not accepted"
              else do
                let (child, elements, pos) ← parseChild elements pos
                parseContent parseChild name fuel text (children ++ [child]) elements pos
      else if byte = letter '&' then do
        let (entity, pos) ← appendEntity document pos
        parseContent parseChild name fuel (text ++ entity) children elements pos
      else parseContent parseChild name fuel (text ++ [byte]) children elements (pos + 1)

def parseElement : Nat → ElementStep
  | 0, _, _ => fail "document nested too deeply"
  | levels + 1, elements, pos =>
    if kMaxXmlElements < elements + 1 then fail "document has too many elements"
    else if document.length ≤ pos then fail "expected an element"
    else do
      let byte ← item document pos
      if byte = letter '<' then do
        let (name, pos) ← parseName document (pos + 1)
        let (closed, pos) ← skipAttributes document (document.length - pos + 1) pos
        if closed then pure (.element name [] [], elements + 1, pos)
        else
          parseContent document (parseElement levels) name (document.length - pos + 1) [] []
            (elements + 1) pos
      else fail "expected an element"

def parseDocument : Step XmlNode := do
  let pos ← skipProlog document 0
  let (root, _, pos) ← parseElement document kMaxXmlDepth 0 pos
  let pos ← skipMisc document (document.length - pos + 1) pos
  if pos = document.length then pure root else fail "trailing content after the root element"

def parseXml : Step XmlNode :=
  if kMaxXmlBytes < document.length then fail "document is too large"
  else if trimmed document = [] then fail "document is empty"
  else parseDocument document

/-! ### The reader stays inside the document -/

section Following

variable {document rest : Bytes} {pos : Nat}

theorem skipSpace_eq (h : At document pos rest) :
    ∃ next, skipSpace document pos = .ok next ∧ At document next (Xml.skipSpace rest) := by
  obtain ⟨count, hcount, hat, -⟩ := h.skipWhile_eq isXmlSpace
  exact ⟨pos + count, hcount, hat⟩

theorem skipMisc_follows (fuel : Nat) (h : At document pos rest) :
    Follows (At document) (skipMisc document fuel pos) (Xml.skipMisc fuel rest) := by
  induction fuel generalizing pos rest with
  | zero => rfl
  | succ fuel ih =>
      obtain ⟨next, hnext, hat⟩ := skipSpace_eq h
      rw [skipMisc, Xml.skipMisc]
      refine .read hnext (.read (hat.startsWith_eq _) ?_)
      split_ifs with hcomment
      · have hbehind := hat.behind hcomment 4 (by decide)
        rw [hbehind.indexFrom_eq, skipPast]
        cases hindex : RollUp.indexOfPattern (ascii "-->") ((Xml.skipSpace rest).drop 4) with
        | none => rfl
        | some index => exact ih (hbehind.found hindex 3 (by decide) (by decide))
      · exact hat

theorem skipDeclaration_follows (h : At document pos rest) :
    Follows (At document) (skipDeclaration document pos) (Xml.skipDeclaration rest) := by
  rw [skipDeclaration, Xml.skipDeclaration]
  refine .read (h.startsWith_eq _) ?_
  split_ifs
  · rw [h.indexFrom_eq, skipPast]
    cases hindex : RollUp.indexOfPattern (ascii "?>") rest with
    | none => rfl
    | some index => exact h.found hindex 2 (by decide) (by decide)
  · exact h

theorem skipProlog_follows (h : At document pos rest) :
    Follows (At document) (skipProlog document pos) (Xml.skipProlog rest) := by
  obtain ⟨next, hnext, hat⟩ := skipSpace_eq h
  rw [skipProlog, Xml.skipProlog]
  refine .read hnext ((skipDeclaration_follows hat).bind fun pos rest hat => ?_)
  rw [← hat.length]
  refine (skipMisc_follows _ hat).bind fun pos rest hat => .read (hat.startsWith_eq _) ?_
  split_ifs
  · rfl
  · exact hat

/-- Related results that carry a position: the same value, and the position of what is left. -/
def Ahead (document : Bytes) {α : Type} (result : α × Nat) (other : α × Bytes) : Prop :=
  result.1 = other.1 ∧ At document result.2 other.2

theorem parseName_follows (h : At document pos rest) :
    Follows (Ahead document) (parseName document pos) (Xml.parseName rest) := by
  cases rest with
  | nil =>
      rw [parseName, if_pos h.length_le]
      rfl
  | cons first rest =>
      rw [parseName, Xml.parseName, if_neg (not_le.mpr h.lt_length)]
      refine .read h.item_eq ?_
      split_ifs
      · obtain ⟨count, hcount, hat, htake⟩ := h.skipWhile_eq isNameChar
        refine .read hcount (.read (h.slice_eq _) ?_)
        rw [Nat.add_sub_cancel_left]
        exact ⟨htake, hat⟩
      · rfl

theorem splitAtFirst_eq (separator : UInt8) (rest : Bytes) :
    splitAtFirst separator rest =
      (RollUp.indexOfPattern [separator] rest).map fun index =>
        (rest.take index, rest.drop (index + 1)) := by
  induction rest with
  | nil => rfl
  | cons byte rest ih =>
      by_cases hbyte : byte = separator
      · subst hbyte
        have hstands : [byte] <+: byte :: rest := ⟨rest, rfl⟩
        rw [splitAtFirst, RollUp.indexOfPattern, if_pos hstands,
          List.dropWhile_cons_of_neg (by simp), List.takeWhile_cons_of_neg (by simp)]
        rfl
      · have hstands : ¬ [separator] <+: byte :: rest := by
          rintro ⟨tail, htail⟩
          exact hbyte (List.cons.inj htail).1.symm
        rw [RollUp.indexOfPattern, if_neg hstands, Option.map_map]
        rw [splitAtFirst] at ih ⊢
        rw [List.dropWhile_cons_of_pos (by simpa using hbyte),
          List.takeWhile_cons_of_pos (by simpa using hbyte)]
        cases hrest : rest.dropWhile (· ≠ separator) with
        | nil =>
            rw [hrest] at ih
            rw [Option.map_eq_none_iff.mp ih.symm]
            rfl
        | cons head tail =>
            rw [hrest] at ih
            obtain ⟨index, hindex, hsplit⟩ := Option.map_eq_some_iff.mp ih.symm
            obtain ⟨htake, hdrop⟩ := Prod.mk.inj hsplit
            rw [hindex, ← htake, ← hdrop]
            rfl

theorem skipQuoted_follows {quote : UInt8} (h : At document pos (quote :: rest)) :
    Follows (At document) (skipQuoted document pos)
      (if quote = letter '"' ∨ quote = 0x27 then
        match splitAtFirst quote rest with
        | some (_, rest) => .ok rest
        | none => Xml.fail "unterminated attribute value"
      else Xml.fail "unquoted attribute value") := by
  rw [skipQuoted, splitAtFirst_eq]
  refine .read h.item_eq ?_
  split_ifs
  · rw [h.tail.indexFrom_eq]
    cases hindex : RollUp.indexOfPattern [quote] rest with
    | none => rfl
    | some index => exact h.tail.found hindex 1 (by simp) (by simp)
  · rfl

theorem skipAttributeValue_follows (h : At document pos rest) :
    Follows (At document) (skipAttributeValue document pos) (Xml.skipAttributeValue rest) := by
  obtain ⟨next, hnext, hat⟩ := skipSpace_eq h
  rw [skipAttributeValue, Xml.skipAttributeValue]
  refine .read hnext ?_
  cases hrest : Xml.skipSpace rest with
  | nil =>
      rw [hrest] at hat
      rw [if_pos hat.length_le]
      rfl
  | cons equals rest =>
      rw [hrest] at hat
      rw [if_neg (not_le.mpr hat.lt_length)]
      refine .read hat.item_eq ?_
      dsimp only
      split_ifs with hequals
      · obtain ⟨next, hnext, hat⟩ := skipSpace_eq hat.tail
        refine .read hnext ?_
        cases hrest : Xml.skipSpace rest with
        | nil =>
            rw [hrest] at hat
            rw [if_pos hat.length_le]
            rfl
        | cons quote rest =>
            rw [hrest] at hat
            rw [if_neg (not_le.mpr hat.lt_length)]
            exact skipQuoted_follows hat
      · rfl

theorem skipAttributes_follows (fuel : Nat) (h : At document pos rest) :
    Follows (Ahead document) (skipAttributes document fuel pos) (Xml.skipAttributes fuel rest) := by
  induction fuel generalizing pos rest with
  | zero => rfl
  | succ fuel ih =>
      obtain ⟨next, hnext, hat⟩ := skipSpace_eq h
      rw [skipAttributes, Xml.skipAttributes]
      refine .read hnext ?_
      cases hrest : Xml.skipSpace rest with
      | nil =>
          rw [hrest] at hat
          rw [if_pos hat.length_le]
          rfl
      | cons byte rest =>
          rw [hrest] at hat
          rw [if_neg (not_le.mpr hat.lt_length)]
          refine .read hat.item_eq ?_
          dsimp only
          by_cases hend : byte = letter '>'
          · rw [if_pos hend, if_pos hend]
            exact ⟨rfl, hat.tail⟩
          rw [if_neg hend, if_neg hend]
          refine .read (hat.startsWith_eq _) ?_
          split_ifs with hclosed
          · exact ⟨rfl, hat.behind hclosed 2 (by decide)⟩
          · refine (parseName_follows hat).bind fun named other hnamed => ?_
            refine (skipAttributeValue_follows hnamed.2).bind fun pos rest hat => ?_
            exact ih hat

theorem appendEntity_follows (h : At document pos rest) :
    Follows (Ahead document) (appendEntity document pos) (Xml.appendEntity rest) := by
  rw [appendEntity, Xml.appendEntity, splitAtFirst_eq, h.indexFrom_eq]
  cases hindex : RollUp.indexOfPattern [letter ';'] rest with
  | none => rfl
  | some index =>
      have hbehind := h.found hindex 1 (by simp) (by simp)
      have hinside := hbehind.inside
      have hlength := h.length
      have hfront : (rest.take index).length = index + pos - pos := by
        rw [List.length_take]
        omega
      have hname : slice document (pos + 1) (index + pos - pos - 1) =
          (.ok ((rest.take index).drop 1) : Step Bytes) := by
        have hnext : At document (pos + 1) (rest.drop 1) := h.drop (by omega)
        rw [hnext.slice_eq, List.drop_take, Nat.add_sub_cancel]
      dsimp only [Option.map_some]
      rw [hfront]
      split_ifs
      · rfl
      · refine .read hname ?_
        cases entityText ((rest.take index).drop 1) with
        | error stop => rfl
        | ok text => exact ⟨rfl, hbehind⟩

/-- Elements read to the same node, with as many elements met. -/
def FollowsElement (document : Bytes) (step : ElementStep) (parser : ElementParser) : Prop :=
  ∀ elements pos rest, At document pos rest →
    Follows (fun result other => result.1 = other.1 ∧ Ahead document result.2 other.2)
      (step elements pos) (parser elements rest)

theorem closeElement_follows (name text : Bytes) (children : List XmlNode) :
    FollowsElement document (closeElement document name text children)
      (Xml.closeElement name text children) := by
  intro elements pos rest h
  rw [closeElement, Xml.closeElement]
  refine (parseName_follows h).bind ?_
  rintro ⟨closing, pos⟩ ⟨other, rest⟩ ⟨hclosing, hat⟩
  obtain rfl : closing = other := hclosing
  dsimp only
  by_cases hname : closing = name
  · obtain ⟨next, hnext, hat⟩ := skipSpace_eq hat
    rw [if_pos hname, if_pos hname]
    refine .read hnext ?_
    cases hrest : Xml.skipSpace rest with
    | nil =>
        rw [hrest] at hat
        rw [if_pos hat.length_le]
        rfl
    | cons byte rest =>
        rw [hrest] at hat
        rw [if_neg (not_le.mpr hat.lt_length)]
        refine .read hat.item_eq ?_
        by_cases hend : byte = letter '>'
        · rw [if_pos hend]
          dsimp only
          rw [if_pos hend]
          exact ⟨rfl, rfl, hat.tail⟩
        · rw [if_neg hend]
          dsimp only
          rw [if_neg hend]
          rfl
  · rw [if_neg hname, if_neg hname]
    rfl

theorem parseContent_follows {parseChild : ElementStep} {parser : ElementParser}
    (hchild : FollowsElement document parseChild parser) (name : Bytes) (fuel : Nat) (text : Bytes)
    (children : List XmlNode) :
    FollowsElement document (parseContent document parseChild name fuel text children)
      (Xml.parseContent parser name fuel text children) := by
  induction fuel generalizing text children with
  | zero => exact fun _ _ _ _ => rfl
  | succ fuel ih =>
      intro elements pos rest h
      cases rest with
      | nil =>
          rw [parseContent, if_pos h.length_le]
          rfl
      | cons byte rest =>
          rw [parseContent, Xml.parseContent, if_neg (not_le.mpr h.lt_length)]
          refine .read h.item_eq ?_
          by_cases hopen : byte = letter '<'
          · subst hopen
            rw [if_pos rfl, if_pos rfl]
            -- the other reader has passed the bracket when it looks at what follows it
            have hclosing : (ascii "</").isPrefixOf (letter '<' :: rest) =
                (ascii "/").isPrefixOf rest := rfl
            have hcomment : (ascii "<!--").isPrefixOf (letter '<' :: rest) =
                (ascii "!--").isPrefixOf rest := rfl
            have hcdata : (ascii "<![CDATA[").isPrefixOf (letter '<' :: rest) =
                (ascii "![CDATA[").isPrefixOf rest := rfl
            have hinstruction : (ascii "<?").isPrefixOf (letter '<' :: rest) =
                (ascii "?").isPrefixOf rest := rfl
            refine .read (h.startsWith_eq _) ?_
            rw [hclosing]
            by_cases hstands : (ascii "/").isPrefixOf rest = true
            · rw [if_pos hstands, if_pos hstands]
              exact closeElement_follows _ _ _ _ _ _ (h.behind (hclosing.trans hstands) 2 (by decide))
            rw [if_neg hstands, if_neg hstands]
            refine .read (h.startsWith_eq _) ?_
            rw [hcomment]
            clear hstands
            by_cases hstands : (ascii "!--").isPrefixOf rest = true
            · have hbehind : At document (pos + 4) (rest.drop 3) :=
                h.behind (hcomment.trans hstands) 4 (by decide)
              rw [if_pos hstands, if_pos hstands, hbehind.indexFrom_eq, skipPast]
              cases hindex : RollUp.indexOfPattern (ascii "-->") (rest.drop 3) with
              | none => rfl
              | some index => exact ih _ _ _ _ _ (hbehind.found hindex 3 (by decide) (by decide))
            rw [if_neg hstands, if_neg hstands]
            refine .read (h.startsWith_eq _) ?_
            rw [hcdata]
            clear hstands
            by_cases hstands : (ascii "![CDATA[").isPrefixOf rest = true
            · have hbehind : At document (pos + 9) (rest.drop 8) :=
                h.behind (hcdata.trans hstands) 9 (by decide)
              rw [if_pos hstands, if_pos hstands, hbehind.indexFrom_eq]
              cases hindex : RollUp.indexOfPattern (ascii "]]>") (rest.drop 8) with
              | none => rfl
              | some index =>
                  have hheld : index + (pos + 9) - pos - 9 = index := by omega
                  refine .read (hbehind.slice_eq _) ?_
                  rw [hheld]
                  exact ih _ _ _ _ _ (hbehind.found hindex 3 (by decide) (by decide))
            rw [if_neg hstands, if_neg hstands]
            refine .read (h.startsWith_eq _) ?_
            rw [hinstruction]
            clear hstands
            by_cases hstands : (ascii "?").isPrefixOf rest = true
            · rw [if_pos hstands, if_pos hstands]
              rfl
            rw [if_neg hstands, if_neg hstands]
            refine (hchild elements pos _ h).bind ?_
            rintro ⟨child, elements, pos⟩ ⟨other, others, rest⟩ ⟨hchild, helements, hat⟩
            obtain rfl : child = other := hchild
            obtain rfl : elements = others := helements
            exact ih _ _ _ _ _ hat
          rw [if_neg hopen, if_neg hopen]
          split_ifs
          · refine (appendEntity_follows h).bind ?_
            rintro ⟨entity, pos⟩ ⟨other, rest⟩ ⟨hentity, hat⟩
            obtain rfl : entity = other := hentity
            exact ih _ _ elements pos rest hat
          · exact ih _ _ elements _ rest h.tail

theorem parseElement_follows (levels : Nat) :
    FollowsElement document (parseElement document levels) (Xml.parseElement levels) := by
  induction levels with
  | zero => exact fun _ _ _ _ => rfl
  | succ levels ih =>
      intro elements pos rest h
      cases rest with
      | nil =>
          rw [parseElement, Xml.parseElement, if_pos h.length_le]
          split_ifs
          · rfl
          · rfl
      | cons byte rest =>
          rw [parseElement, Xml.parseElement, if_neg (not_le.mpr h.lt_length)]
          by_cases hmany : kMaxXmlElements < elements + 1
          · rw [if_pos hmany, if_pos hmany]
            rfl
          rw [if_neg hmany, if_neg hmany]
          refine .read h.item_eq ?_
          dsimp only
          split_ifs
          · refine (parseName_follows h.tail).bind ?_
            rintro ⟨name, pos⟩ ⟨other, rest⟩ ⟨hname, hat⟩
            obtain rfl : name = other := hname
            dsimp only
            rw [← hat.length]
            refine (skipAttributes_follows _ hat).bind ?_
            rintro ⟨closed, pos⟩ ⟨other, rest⟩ ⟨hclosed, hat⟩
            obtain rfl : closed = other := hclosed
            dsimp only
            split_ifs
            · exact ⟨rfl, rfl, hat⟩
            · rw [← hat.length]
              exact parseContent_follows ih name _ _ _ _ _ _ hat
          · rfl

theorem parseDocument_follows (document : Bytes) :
    Follows (· = ·) (parseDocument document) (Xml.parseDocument document) := by
  rw [parseDocument, Xml.parseDocument]
  refine (skipProlog_follows (At.start document)).bind fun pos rest hat => ?_
  refine (parseElement_follows _ _ _ _ hat).bind ?_
  rintro ⟨root, elements, pos⟩ ⟨other, others, rest⟩ ⟨hroot, -, hat⟩
  obtain rfl : root = other := hroot
  replace hat : At document pos rest := hat
  dsimp only
  rw [← hat.length]
  refine (skipMisc_follows _ hat).bind fun pos rest hat => ?_
  have hend : pos = document.length ↔ rest = [] := by
    have hlength := hat.length
    have hinside := hat.inside
    rw [← List.length_eq_zero_iff]
    omega
  by_cases hrest : rest = []
  · rw [if_pos (hend.mpr hrest), if_pos hrest]
    exact rfl
  · rw [if_neg (hrest ∘ hend.mp), if_neg hrest]
    exact rfl

/-- The reader by position does what the reader of what is left does. -/
theorem parseXml_eq (document : Bytes) :
    parseXml document = (MonoBucket.S3.parseXml document).mapError .failed := by
  refine Follows.eq ?_
  rw [parseXml, MonoBucket.S3.parseXml]
  split_ifs
  · rfl
  · rfl
  · exact parseDocument_follows document

end Following

end MonoBucket.S3.Xml.Parser
