/-
What is written is read back

A document of nested elements, with text escaped and white space between the elements,
is read as the tree it was written from: the reader turns each escaped byte back into
the byte, keeps the text of a leaf whole, and drops the white space around children.
-/

import MonoBucket.S3.UriRoundTrip
import MonoBucket.S3.Xml

namespace MonoBucket.S3.Xml

/-! ### Names and tags -/

/-- A name the reader takes for an element. -/
def isName : Bytes → Bool
  | [] => false
  | first :: rest => isNameStart first && rest.all isNameChar

theorem isNameChar_of_isNameStart {byte : UInt8} (h : isNameStart byte) : isNameChar byte := by
  simp only [isNameStart, isAlpha, decide_eq_true_eq, Bool.decide_or, Bool.or_eq_true] at h
  simp only [isNameChar, isAlnum, decide_eq_true_eq, Bool.decide_or, Bool.or_eq_true]
  tauto

theorem parseName_append {name : Bytes} (hname : isName name) {byte : UInt8}
    (hbyte : isNameChar byte = false) (rest : Bytes) :
    parseName (name ++ byte :: rest) = .ok (name, byte :: rest) := by
  cases name with
  | nil => cases hname
  | cons first more =>
      obtain ⟨hfirst, hmore⟩ := Bool.and_eq_true_iff.mp hname
      have hall : ∀ letter ∈ first :: more, isNameChar letter := by
        intro letter hletter
        rcases List.mem_cons.mp hletter with rfl | hletter
        · exact isNameChar_of_isNameStart hfirst
        · exact List.all_eq_true.mp hmore letter hletter
      rw [List.cons_append, parseName, if_pos hfirst, ← List.cons_append,
        List.takeWhile_append_of_pos hall, List.dropWhile_append_of_pos hall,
        List.takeWhile_cons_of_neg (by simp [hbyte]), List.dropWhile_cons_of_neg (by simp [hbyte]),
        List.append_nil]

/-- White space only. -/
def Blank (gap : Bytes) : Prop := ∀ byte ∈ gap, isXmlSpace byte

instance (gap : Bytes) : Decidable (Blank gap) := inferInstanceAs (Decidable (∀ byte ∈ gap, _))

theorem skipSpace_append {gap : Bytes} (hgap : Blank gap) {byte : UInt8}
    (hbyte : isXmlSpace byte = false) (rest : Bytes) :
    skipSpace (gap ++ byte :: rest) = byte :: rest := by
  rw [skipSpace, List.dropWhile_append_of_pos hgap, List.dropWhile_cons_of_neg (by simp [hbyte])]

theorem skipSpace_of_blank {gap : Bytes} (hgap : Blank gap) : skipSpace gap = [] := by
  rw [skipSpace, List.dropWhile_eq_nil_iff]
  exact hgap

/-- The namespace of a root, or no attribute. -/
def attributeText (xmlns : Bytes) : Bytes :=
  if xmlns = [] then [] else ascii " xmlns=\"" ++ xmlns ++ ascii "\""

theorem skipAttributes_attributeText {xmlns : Bytes} (hquote : letter '"' ∉ xmlns) (rest : Bytes)
    (fuel : Nat) :
    skipAttributes (fuel + 2) (attributeText xmlns ++ letter '>' :: rest) = .ok (false, rest) := by
  have hend : ∀ fuel, skipAttributes (fuel + 1) (letter '>' :: rest) = .ok (false, rest) :=
    fun fuel => rfl
  rw [attributeText]
  split_ifs
  · exact hend _
  · have hvalue : skipAttributeValue
        (ascii "=\"" ++ (xmlns ++ letter '"' :: (letter '>' :: rest))) = .ok (letter '>' :: rest) := by
      have hsplit := splitAtFirst_append_cons hquote (letter '>' :: rest)
      have hequals : skipSpace (ascii "=\"" ++ (xmlns ++ letter '"' :: (letter '>' :: rest))) =
          letter '=' :: letter '"' :: (xmlns ++ letter '"' :: (letter '>' :: rest)) := rfl
      have hquoted : skipSpace (letter '"' :: (xmlns ++ letter '"' :: (letter '>' :: rest))) =
          letter '"' :: (xmlns ++ letter '"' :: (letter '>' :: rest)) := rfl
      rw [skipAttributeValue, hequals]
      dsimp only
      rw [if_pos rfl, hquoted]
      dsimp only
      rw [if_pos (Or.inl rfl), hsplit]
    have hspelled : ascii " xmlns=\"" ++ xmlns ++ ascii "\"" ++ letter '>' :: rest =
        ascii " xmlns" ++ (ascii "=\"" ++ (xmlns ++ letter '"' :: (letter '>' :: rest))) := by
      simp [ascii, letter]
    rw [hspelled]
    show (skipAttributeValue (ascii "=\"" ++ (xmlns ++ letter '"' :: (letter '>' :: rest))) >>=
      fun rest => skipAttributes (fuel + 1) rest) = _
    rw [hvalue]
    exact hend fuel

/-! ### Text -/

/-- A byte XML can carry. -/
def isCarried (byte : UInt8) : Bool := 0x20 ≤ byte ∨ byte = 0x09 ∨ byte = 0x0A ∨ byte = 0x0D

theorem appendEntity_eq {name text : Bytes} (hname : letter ';' ∉ name) (hshort : name.length < 12)
    (htext : entityText name = .ok text) (rest : Bytes) :
    appendEntity (letter '&' :: (name ++ letter ';' :: rest)) = .ok (text, rest) := by
  have hfront : letter ';' ∉ letter '&' :: name := by
    rw [List.mem_cons]
    rintro (h | h)
    · exact absurd h (by decide)
    · exact hname h
  rw [appendEntity, ← List.cons_append, splitAtFirst_append_cons hfront]
  have hlength : ¬ 12 < (letter '&' :: name).length := by
    rw [List.length_cons]
    omega
  dsimp only
  rw [if_neg hlength, List.drop_one, List.tail_cons, htext]
  rfl

section Content

variable {parseChild : ElementParser} {name : Bytes} {fuel : Nat} {text : Bytes}
  {children : List XmlNode} {elements : Nat} {rest : Bytes}

theorem parseContent_entity (entity : Bytes) {byte : UInt8} (hname : letter ';' ∉ entity)
    (hshort : entity.length < 12) (htext : entityText entity = .ok [byte]) :
    parseContent parseChild name (fuel + 1) text children elements
      (letter '&' :: (entity ++ letter ';' :: rest)) =
      parseContent parseChild name fuel (text ++ [byte]) children elements rest := by
  rw [parseContent, if_neg (by decide), if_pos rfl, appendEntity_eq hname hshort htext]
  rfl

/-- One turn of the loop reads an escaped byte back. -/
theorem parseContent_escapeByte {byte : UInt8} (hcarried : isCarried byte) :
    parseContent parseChild name (fuel + 1) text children elements (escapeByte byte ++ rest) =
      parseContent parseChild name fuel (text ++ [byte]) children elements rest := by
  rw [escapeByte]
  split_ifs with hamp hlt hgt hquote hapos hplain
  · subst hamp
    exact parseContent_entity (ascii "amp") (by decide) (by decide) rfl
  · subst hlt
    exact parseContent_entity (ascii "lt") (by decide) (by decide) rfl
  · subst hgt
    exact parseContent_entity (ascii "gt") (by decide) (by decide) rfl
  · subst hquote
    exact parseContent_entity (ascii "quot") (by decide) (by decide) rfl
  · subst hapos
    exact parseContent_entity (ascii "apos") (by decide) (by decide) rfl
  · rw [List.singleton_append, parseContent, if_neg hlt, if_neg hamp]
  · exact absurd (of_decide_eq_true hcarried) hplain

/-- The loop reads escaped text back, a byte a turn. -/
theorem parseContent_xmlEscape {more : Bytes} (hmore : ∀ byte ∈ more, isCarried byte) :
    parseContent parseChild name (more.length + fuel) text children elements
      (xmlEscape more ++ rest) =
      parseContent parseChild name fuel (text ++ more) children elements rest := by
  induction more generalizing text with
  | nil =>
      rw [List.length_nil, Nat.zero_add, List.append_nil]
      rfl
  | cons byte more ih =>
      obtain ⟨hbyte, hmore⟩ := List.forall_mem_cons.mp hmore
      have hsteps : (byte :: more).length + fuel = more.length + fuel + 1 := by
        rw [List.length_cons]
        omega
      rw [hsteps, xmlEscape, List.flatMap_cons, List.append_assoc, parseContent_escapeByte hbyte,
        ← xmlEscape, ih hmore, List.append_assoc, List.singleton_append]

theorem length_le_length_xmlEscape {more : Bytes} (hmore : ∀ byte ∈ more, isCarried byte) :
    more.length ≤ (xmlEscape more).length := by
  induction more with
  | nil => exact le_rfl
  | cons byte more ih =>
      obtain ⟨hbyte, hmore⟩ := List.forall_mem_cons.mp hmore
      have hone : 1 ≤ (escapeByte byte).length := by
        rw [escapeByte]
        split_ifs with _ _ _ _ _ hplain
        all_goals first | decide | exact le_rfl | exact absurd (of_decide_eq_true hbyte) hplain
      have hrest := ih hmore
      rw [xmlEscape, List.flatMap_cons, List.length_append, List.length_cons, ← xmlEscape]
      omega

theorem length_xmlEscape_le (text : Bytes) : (xmlEscape text).length ≤ 6 * text.length := by
  induction text with
  | nil => exact le_rfl
  | cons byte text ih =>
      have hsix : (escapeByte byte).length ≤ 6 := by
        rw [escapeByte]
        split_ifs
        all_goals first | decide | exact Nat.le_add_left 1 5
      rw [xmlEscape, List.flatMap_cons, List.length_append, List.length_cons, ← xmlEscape]
      omega

theorem isCarried_of_isXmlSpace {byte : UInt8} (h : isXmlSpace byte) : isCarried byte := by
  simp only [isXmlSpace, decide_eq_true_eq, Bool.decide_or, Bool.or_eq_true] at h
  rcases h with rfl | rfl | rfl | rfl
  all_goals decide

theorem xmlEscape_of_blank {gap : Bytes} (hgap : Blank gap) : xmlEscape gap = gap := by
  induction gap with
  | nil => rfl
  | cons byte gap ih =>
      obtain ⟨hbyte, hgap⟩ := List.forall_mem_cons.mp hgap
      have hsingle : escapeByte byte = [byte] := by
        simp only [isXmlSpace, decide_eq_true_eq, Bool.decide_or, Bool.or_eq_true] at hbyte
        rcases hbyte with rfl | rfl | rfl | rfl
        all_goals decide
      rw [xmlEscape, List.flatMap_cons, hsingle, ← xmlEscape, ih hgap]
      rfl

theorem parseContent_blank {gap : Bytes} (hgap : Blank gap) :
    parseContent parseChild name (gap.length + fuel) text children elements (gap ++ rest) =
      parseContent parseChild name fuel (text ++ gap) children elements rest := by
  have hread : parseContent parseChild name (gap.length + fuel) text children elements
      (xmlEscape gap ++ rest) =
      parseContent parseChild name fuel (text ++ gap) children elements rest :=
    parseContent_xmlEscape fun byte hbyte => isCarried_of_isXmlSpace (hgap byte hbyte)
  rwa [xmlEscape_of_blank hgap] at hread

def endTag (name : Bytes) : Bytes := ascii "</" ++ name ++ ascii ">"

theorem parseContent_endTag (hname : isName name) :
    parseContent parseChild name (fuel + 1) text children elements (endTag name ++ rest) =
      .ok (.element name (if children.isEmpty then text else []) children, elements, rest) := by
  have hspelled : endTag name ++ rest =
      letter '<' :: (letter '/' :: (name ++ letter '>' :: rest)) := by
    simp [endTag, ascii, letter]
  have hclose : closeElement name text children elements (name ++ letter '>' :: rest) =
      .ok (.element name (if children.isEmpty then text else []) children, elements, rest) := by
    rw [closeElement, parseName_append hname (by decide)]
    show (if name = name then _ else _) = _
    rw [if_pos rfl]
    rfl
  rw [hspelled, parseContent, if_pos rfl]
  exact hclose

end Content

/-! ### Elements -/

/-- The element is read from what is written, wherever it stands, when there are levels left
for it. -/
structure Reads (levels : Nat) (node : XmlNode) (size : Nat) (written : Bytes) : Prop where
  starts : ∃ first tail, written = letter '<' :: first :: tail ∧ isNameStart first
  reads : ∀ elements rest, elements + size ≤ kMaxXmlElements →
    parseElement levels elements (written ++ rest) = .ok (node, elements + size, rest)

/-- Elements after one another, each behind white space. -/
inductive ReadsAll (levels : Nat) : List XmlNode → Nat → Bytes → Prop
  | nil : ReadsAll levels [] 0 []
  | cons {gap written body : Bytes} {node : XmlNode} {nodes : List XmlNode} {size sizes : Nat}
    (blank : Blank gap) (head : Reads levels node size written)
    (tail : ReadsAll levels nodes sizes body) :
    ReadsAll levels (node :: nodes) (size + sizes) (gap ++ (written ++ body))

def startTag (name attributes : Bytes) : Bytes := ascii "<" ++ name ++ attributes ++ ascii ">"

theorem length_startTag (name attributes : Bytes) :
    (startTag name attributes).length = name.length + attributes.length + 2 := by
  have hopen : (ascii "<").length = 1 := rfl
  have hclose : (ascii ">").length = 1 := rfl
  rw [startTag, List.length_append, List.length_append, List.length_append, hopen, hclose]
  omega

theorem length_endTag (name : Bytes) : (endTag name).length = name.length + 3 := by
  have hopen : (ascii "</").length = 2 := rfl
  have hclose : (ascii ">").length = 1 := rfl
  rw [endTag, List.length_append, List.length_append, hopen, hclose]
  omega

/-- A start tag is read, and then what the element holds. -/
theorem parseElement_startTag {levels elements : Nat} {name xmlns : Bytes} (hname : isName name)
    (hquote : letter '"' ∉ xmlns) (hroom : elements + 1 ≤ kMaxXmlElements) (rest : Bytes) :
    parseElement (levels + 1) elements (startTag name (attributeText xmlns) ++ rest) =
      parseContent (parseElement levels) name (rest.length + 1) [] [] (elements + 1) rest := by
  have hspelled : startTag name (attributeText xmlns) ++ rest =
      letter '<' :: (name ++ (attributeText xmlns ++ letter '>' :: rest)) := by
    simp [startTag, ascii, letter]
  -- a name ends at the blank before an attribute, or at the end of the tag
  have hparse : parseName (name ++ (attributeText xmlns ++ letter '>' :: rest)) =
      .ok (name, attributeText xmlns ++ letter '>' :: rest) := by
    rw [attributeText]
    split_ifs
    · exact parseName_append hname (by decide) rest
    · exact @parseName_append name hname 0x20 (by decide) _
  have hfuel : (attributeText xmlns ++ letter '>' :: rest).length + 1 =
      (attributeText xmlns ++ rest).length + 2 := by
    simp only [List.length_append, List.length_cons]
    omega
  rw [hspelled, parseElement, if_neg (not_lt.mpr hroom)]
  dsimp only
  rw [if_pos rfl, hparse]
  show (skipAttributes ((attributeText xmlns ++ letter '>' :: rest).length + 1)
    (attributeText xmlns ++ letter '>' :: rest) >>= _) = _
  rw [hfuel, skipAttributes_attributeText hquote]
  rfl

theorem startTag_starts {name : Bytes} (hname : isName name) (attributes rest : Bytes) :
    ∃ first tail, startTag name attributes ++ rest = letter '<' :: first :: tail ∧
      isNameStart first := by
  cases name with
  | nil => cases hname
  | cons first more =>
      exact ⟨first, more ++ attributes ++ ascii ">" ++ rest, by simp [startTag, ascii, letter],
        (Bool.and_eq_true_iff.mp hname).1⟩

theorem Reads.leaf {levels : Nat} {name text : Bytes} (hname : isName name)
    (htext : ∀ byte ∈ text, isCarried byte) :
    Reads (levels + 1) (.element name text []) 1
      (startTag name [] ++ (xmlEscape text ++ endTag name)) where
  starts := startTag_starts hname _ _
  reads := by
    intro elements rest hroom
    have hfuel : ∃ more, (xmlEscape text ++ (endTag name ++ rest)).length + 1 =
        text.length + (more + 1) := by
      refine ⟨(xmlEscape text ++ (endTag name ++ rest)).length - text.length, ?_⟩
      have hlength := length_le_length_xmlEscape htext
      rw [List.length_append]
      omega
    obtain ⟨more, hfuel⟩ := hfuel
    rw [List.append_assoc, List.append_assoc]
    have hstart := @parseElement_startTag levels elements name [] hname (by decide) hroom
      (xmlEscape text ++ (endTag name ++ rest))
    rw [show startTag name [] = startTag name (attributeText []) from rfl, hstart, hfuel,
      parseContent_xmlEscape htext, parseContent_endTag hname, List.nil_append]
    rfl

/-- The loop reads the children, and the blanks between them into a text that is dropped. -/
theorem ReadsAll.parseContent {levels : Nat} {nodes : List XmlNode} {sizes : Nat} {body : Bytes}
    (h : ReadsAll levels nodes sizes body) (name : Bytes) :
    ∃ steps blanks, steps ≤ body.length ∧ (nodes = [] → blanks = []) ∧
      ∀ fuel text children elements rest, elements + sizes ≤ kMaxXmlElements →
        Xml.parseContent (parseElement levels) name (steps + fuel) text children elements
            (body ++ rest) =
          Xml.parseContent (parseElement levels) name fuel (text ++ blanks) (children ++ nodes)
            (elements + sizes) rest := by
  induction h with
  | nil =>
      refine ⟨0, [], le_rfl, fun _ => rfl, fun fuel text children elements rest _ => ?_⟩
      rw [Nat.zero_add, List.append_nil, List.append_nil]
      rfl
  | @cons gap written body node nodes size sizes blank head tail ih =>
      obtain ⟨steps, blanks, hsteps, -, hread⟩ := ih
      obtain ⟨first, rest, hwritten, hfirst⟩ := head.starts
      refine ⟨gap.length + (1 + steps), gap ++ blanks, ?_, (fun h => nomatch h), ?_⟩
      · rw [hwritten]
        simp only [List.length_append, List.length_cons]
        omega
      intro fuel text children elements following hroom
      have hchild := head.reads elements (body ++ following) (by omega)
      have hplain : ∀ c : UInt8, isNameStart c = false → first ≠ c := by
        rintro c hc rfl
        rw [hfirst] at hc
        cases hc
      have hslash := hplain (letter '/') (by decide)
      have hbang := hplain (letter '!') (by decide)
      have hquestion := hplain (letter '?') (by decide)
      have hopen : written ++ (body ++ following) =
          letter '<' :: (first :: (rest ++ (body ++ following))) := by
        rw [hwritten]
        rfl
      have hturn : Xml.parseContent (parseElement levels) name (steps + fuel + 1) (text ++ gap)
          children elements (written ++ (body ++ following)) =
          Xml.parseContent (parseElement levels) name (steps + fuel) (text ++ gap)
            (children ++ [node]) (elements + size) (body ++ following) := by
        rw [hopen] at hchild ⊢
        have hnone : ∀ (literal : Bytes) (c : UInt8), literal.head? = some c → first ≠ c →
            ¬ literal.isPrefixOf (first :: (rest ++ (body ++ following))) = true := by
          intro literal c hhead hne hstarts
          obtain ⟨tail, htail⟩ := List.isPrefixOf_iff_prefix.mp hstarts
          cases literal with
          | nil => cases hhead
          | cons head literal =>
              obtain rfl := Option.some.inj hhead
              exact hne (List.cons.inj htail).1.symm
        rw [Xml.parseContent, if_pos rfl, if_neg (hnone (ascii "/") _ rfl hslash),
          if_neg (hnone (ascii "!--") _ rfl hbang), if_neg (hnone (ascii "![CDATA[") _ rfl hbang),
          if_neg (hnone (ascii "?") _ rfl hquestion), hchild]
        rfl
      have hfuel : gap.length + (1 + steps) + fuel = gap.length + (steps + fuel + 1) := by omega
      rw [hfuel, List.append_assoc, List.append_assoc, parseContent_blank blank, hturn,
        hread fuel _ _ _ _ (by omega), List.append_assoc, List.append_assoc, Nat.add_assoc]
      rfl

/-- An element with children is read; without any, its text is the white space it holds. -/
theorem Reads.parent {levels : Nat} {name xmlns body gap : Bytes} {nodes : List XmlNode} {sizes : Nat}
    (hname : isName name) (hquote : letter '"' ∉ xmlns) (hbody : ReadsAll levels nodes sizes body)
    (hgap : Blank gap) :
    Reads (levels + 1) (.element name (if nodes.isEmpty then gap else []) nodes) (1 + sizes)
      (startTag name (attributeText xmlns) ++ (body ++ (gap ++ endTag name))) where
  starts := startTag_starts hname _ _
  reads := by
    intro elements rest hroom
    obtain ⟨steps, blanks, hsteps, hblanks, hread⟩ := hbody.parseContent name
    have hfuel : ∃ more, (body ++ (gap ++ (endTag name ++ rest))).length + 1 =
        steps + (gap.length + (more + 1)) := by
      refine ⟨body.length - steps + (endTag name ++ rest).length, ?_⟩
      simp only [List.length_append]
      omega
    obtain ⟨more, hfuel⟩ := hfuel
    have htext : (if nodes.isEmpty then blanks ++ gap else []) = if nodes.isEmpty then gap else [] := by
      cases nodes with
      | nil => rw [hblanks rfl, List.nil_append]
      | cons node nodes => rfl
    rw [List.append_assoc, List.append_assoc, List.append_assoc,
      parseElement_startTag hname hquote (by omega), hfuel,
      hread _ _ _ _ _ (by omega), parseContent_blank hgap, parseContent_endTag hname,
      List.nil_append, List.nil_append, htext, Nat.add_assoc]

/-! ### Documents -/

/-- Items after one another, each behind the same white space. -/
def spread (gap : Bytes) : List Bytes → Bytes
  | [] => []
  | item :: rest => gap ++ (item ++ spread gap rest)

theorem ReadsAll.spread {levels : Nat} {α : Type} {gap : Bytes} (hgap : Blank gap)
    {node : α → XmlNode} {size : α → Nat} {written : α → Bytes} {items : List α}
    (h : ∀ item ∈ items, Reads levels (node item) (size item) (written item)) :
    ReadsAll levels (items.map node) (items.map size).sum (Xml.spread gap (items.map written)) := by
  induction items with
  | nil => exact .nil
  | cons item items ih =>
      obtain ⟨hitem, hitems⟩ := List.forall_mem_cons.mp h
      exact .cons hgap hitem (ih hitems)

theorem length_spread_le {gap : Bytes} {items : List Bytes} {bound : Nat}
    (h : ∀ item ∈ items, item.length ≤ bound) :
    (spread gap items).length ≤ items.length * (gap.length + bound) := by
  induction items with
  | nil => exact Nat.zero_le _
  | cons item items ih =>
      obtain ⟨hitem, hitems⟩ := List.forall_mem_cons.mp h
      have hrest := ih hitems
      rw [spread, List.length_append, List.length_append, List.length_cons, Nat.succ_mul]
      omega

/-- The white space a formatter puts into a document, and what it starts with. -/
structure Layout where
  declared : Bool := true
  xmlns : Bytes := XmlWriter.kS3Namespace
  front : Bytes := []
  beforeEntry : Bytes := []
  beforeField : Bytes := []
  afterFields : Bytes := []
  afterEntries : Bytes := []
  trailing : Bytes := []
  gaps : ∀ gap ∈ [front, beforeEntry, beforeField, afterFields, afterEntries, trailing],
    Blank gap ∧ gap.length ≤ 64 := by decide
  namespaced : letter '"' ∉ xmlns ∧ xmlns.length ≤ 64 := by decide

/-- An entry of a document: its name, and its fields by name. -/
abbrev Entry := Bytes × List (Bytes × Bytes)

def leafText (field : Bytes × Bytes) : Bytes :=
  startTag field.1 [] ++ (xmlEscape field.2 ++ endTag field.1)

theorem length_leafText_le (field : Bytes × Bytes) :
    (leafText field).length ≤ 2 * field.1.length + 6 * field.2.length + 5 := by
  have hescaped := length_xmlEscape_le field.2
  rw [leafText, List.length_append, List.length_append, length_startTag, length_endTag,
    List.length_nil]
  omega

namespace Layout

variable (layout : Layout)

def entryText (entry : Entry) : Bytes :=
  startTag entry.1 [] ++ (spread layout.beforeField (entry.2.map leafText) ++
    (layout.afterFields ++ endTag entry.1))

def declaration : Bytes :=
  if layout.declared then ascii "<?xml version=\"1.0\" encoding=\"UTF-8\"?>" else []

/-- A root with entries, each with fields that hold text. -/
def document (root : Bytes) (entries : List Entry) : Bytes :=
  layout.declaration ++ (layout.front ++ (startTag root (attributeText layout.xmlns) ++
    (spread layout.beforeEntry (entries.map layout.entryText) ++
      (layout.afterEntries ++ endTag root)) ++ layout.trailing))

def entryNode (entry : Entry) : XmlNode :=
  .element entry.1 (if entry.2.isEmpty then layout.afterFields else [])
    (entry.2.map fun field => .element field.1 field.2 [])

def documentNode (root : Bytes) (entries : List Entry) : XmlNode :=
  .element root (if entries.isEmpty then layout.afterEntries else []) (entries.map layout.entryNode)

end Layout

/-- Names the reader takes, and text it can carry. -/
structure Legible (entry : Entry) : Prop where
  name : isName entry.1
  fields : ∀ field ∈ entry.2, isName field.1 ∧ ∀ byte ∈ field.2, isCarried byte

theorem Legible.reads {levels : Nat} (layout : Layout) {entry : Entry} (h : Legible entry) :
    Reads (levels + 2) (layout.entryNode entry) (1 + entry.2.length) (layout.entryText entry) := by
  have hfields : ReadsAll (levels + 1) (entry.2.map fun field => .element field.1 field.2 [])
      (entry.2.map fun _ => 1).sum (spread layout.beforeField (entry.2.map leafText)) :=
    ReadsAll.spread (layout.gaps layout.beforeField (by simp)).1
      fun field hfield => Reads.leaf (h.fields field hfield).1 (h.fields field hfield).2
  have hentry := @Reads.parent _ _ [] _ _ _ _ h.name (by decide) hfields
    (layout.gaps layout.afterFields (by simp)).1
  rw [List.map_const', List.sum_replicate, smul_eq_mul, mul_one, List.isEmpty_map] at hentry
  exact hentry

section Documents

variable (layout : Layout) {root : Bytes} {entries : List Entry}

/-- How many elements a document has. -/
def elementsOf (entries : List Entry) : Nat := 1 + (entries.map fun entry => 1 + entry.2.length).sum

theorem reads_root (hroot : isName root) (hentries : ∀ entry ∈ entries, Legible entry) :
    Reads kMaxXmlDepth (layout.documentNode root entries) (elementsOf entries)
      (startTag root (attributeText layout.xmlns) ++
        (spread layout.beforeEntry (entries.map layout.entryText) ++
          (layout.afterEntries ++ endTag root))) := by
  have hall : ReadsAll 15 (entries.map layout.entryNode)
      (entries.map fun entry => 1 + entry.2.length).sum
      (spread layout.beforeEntry (entries.map layout.entryText)) :=
    ReadsAll.spread (layout.gaps layout.beforeEntry (by simp)).1
      fun entry hentry => (hentries entry hentry).reads layout
  have hread := Reads.parent hroot layout.namespaced.1 hall (layout.gaps layout.afterEntries (by simp)).1
  rw [List.isEmpty_map] at hread
  exact hread

theorem skipMisc_of_element {gap : Bytes} (hgap : Blank gap) {first : UInt8} (hfirst : isNameStart first)
    (fuel : Nat) (tail : Bytes) :
    skipMisc (fuel + 1) (gap ++ letter '<' :: first :: tail) = .ok (letter '<' :: first :: tail) := by
  have hcomment : ¬ (ascii "<!--").isPrefixOf (letter '<' :: first :: tail) = true := by
    intro hstarts
    obtain ⟨rest, hrest⟩ := List.isPrefixOf_iff_prefix.mp hstarts
    obtain rfl : letter '!' = first := (List.cons.inj (List.cons.inj hrest).2).1
    exact absurd hfirst (by decide)
  rw [skipMisc, skipSpace_append hgap (by decide), if_neg hcomment]

theorem skipMisc_of_blank {gap : Bytes} (hgap : Blank gap) (fuel : Nat) :
    skipMisc (fuel + 1) gap = .ok [] := by
  rw [skipMisc, skipSpace_of_blank hgap]
  rfl

theorem not_isPrefixOf_element {literal : Bytes} {second first : UInt8} {tail : Bytes}
    (hsecond : literal[1]? = some second) (hne : first ≠ second) :
    ¬ literal.isPrefixOf (letter '<' :: first :: tail) = true := by
  intro hstarts
  obtain ⟨rest, hrest⟩ := List.isPrefixOf_iff_prefix.mp hstarts
  have hat := congrArg (fun text => text[1]?) hrest
  obtain ⟨hlength, -⟩ := List.getElem?_eq_some_iff.mp hsecond
  rw [List.getElem?_append_left hlength, hsecond] at hat
  exact hne (Option.some.inj hat).symm

theorem skipDeclaration_declared (rest : Bytes) :
    skipDeclaration (ascii "<?xml version=\"1.0\" encoding=\"UTF-8\"?>" ++ rest) = .ok rest := by
  rfl

/-- The prolog ends at the root. -/
theorem skipProlog_document {first : UInt8} (hfirst : isNameStart first) (tail : Bytes) :
    skipProlog (layout.declaration ++ (layout.front ++ letter '<' :: first :: tail)) =
      .ok (letter '<' :: first :: tail) := by
  have hplain : ∀ c : UInt8, isNameStart c = false → first ≠ c := by
    rintro c hc rfl
    rw [hfirst] at hc
    cases hc
  have hfront : Blank layout.front := (layout.gaps layout.front (by simp)).1
  have hdoctype : ¬ (ascii "<!DOCTYPE").isPrefixOf (letter '<' :: first :: tail) = true :=
    not_isPrefixOf_element rfl (hplain (letter '!') (by decide))
  have hrest : ∀ rest, skipDeclaration (skipSpace
      (layout.declaration ++ (layout.front ++ letter '<' :: first :: tail))) = .ok rest →
      (∃ gap, Blank gap ∧ rest = gap ++ letter '<' :: first :: tail) →
      skipProlog (layout.declaration ++ (layout.front ++ letter '<' :: first :: tail)) =
        .ok (letter '<' :: first :: tail) := by
    rintro rest hdeclaration ⟨gap, hgap, rfl⟩
    rw [skipProlog, hdeclaration]
    show (skipMisc _ _ >>= _) = _
    rw [skipMisc_of_element hgap hfirst]
    show (if _ then _ else _) = _
    rw [if_neg hdoctype]
    rfl
  by_cases hdeclared : layout.declared = true
  · refine hrest (layout.front ++ letter '<' :: first :: tail) ?_ ⟨_, hfront, rfl⟩
    rw [Layout.declaration, if_pos hdeclared]
    exact skipDeclaration_declared _
  · refine hrest (letter '<' :: first :: tail) ?_ ⟨[], fun _ h => (nomatch h), rfl⟩
    rw [Layout.declaration, if_neg hdeclared, List.nil_append, skipSpace_append hfront (by decide),
      skipDeclaration, if_neg (not_isPrefixOf_element rfl (hplain (letter '?') (by decide)))]

theorem trimmed_ne_nil {text : Bytes} {byte : UInt8} (hmem : byte ∈ text)
    (hbyte : isXmlSpace byte = false) : trimmed text ≠ [] := by
  rw [trimmed, ne_eq, List.rdropWhile_eq_nil_iff]
  intro hall
  have hne : text.dropWhile isXmlSpace ≠ [] := by
    rw [ne_eq, List.dropWhile_eq_nil_iff]
    intro hspace
    rw [hspace byte hmem] at hbyte
    cases hbyte
  have hhead := List.head_dropWhile_not isXmlSpace hne
  rw [hall _ (List.head_mem hne)] at hhead
  cases hhead

/-- A root that is read where it stands is read from the document around it. -/
theorem parseDocument_of_reads {node : XmlNode} {size : Nat} {written : Bytes}
    (hread : Reads kMaxXmlDepth node size written) (hsize : size ≤ kMaxXmlElements) :
    parseDocument (layout.declaration ++ (layout.front ++ (written ++ layout.trailing))) = .ok node := by
  obtain ⟨first, tail, hstarts, hfirst⟩ := hread.starts
  have hspelled : written ++ layout.trailing = letter '<' :: first :: (tail ++ layout.trailing) := by
    rw [hstarts]
    rfl
  have hroot := hread.reads 0 layout.trailing (by omega)
  rw [parseDocument]
  rw [hspelled] at hroot ⊢
  rw [skipProlog_document layout hfirst]
  show (parseElement kMaxXmlDepth 0 (letter '<' :: first :: (tail ++ layout.trailing)) >>= _) = _
  rw [hroot]
  show (skipMisc (layout.trailing.length + 1) layout.trailing >>= _) = _
  rw [skipMisc_of_blank (layout.gaps layout.trailing (by simp)).1]
  rfl

/-- So it is under the limit on the document's length. -/
theorem parseXml_of_reads {node : XmlNode} {size : Nat} {written : Bytes}
    (hread : Reads kMaxXmlDepth node size written) (hsize : size ≤ kMaxXmlElements)
    (hlength : (layout.declaration ++ (layout.front ++ (written ++ layout.trailing))).length ≤
      kMaxXmlBytes) :
    parseXml (layout.declaration ++ (layout.front ++ (written ++ layout.trailing))) = .ok node := by
  obtain ⟨first, tail, hstarts, hfirst⟩ := hread.starts
  have hmem : letter '<' ∈ layout.declaration ++ (layout.front ++ (written ++ layout.trailing)) := by
    rw [hstarts]
    simp
  rw [parseXml, if_neg (not_lt.mpr hlength), if_neg (trimmed_ne_nil hmem (by decide)),
    parseDocument_of_reads layout hread hsize]

/-- A document is read as it was written, when it is within the limits. -/
theorem parseXml_document (hroot : isName root) (hentries : ∀ entry ∈ entries, Legible entry)
    (hsize : elementsOf entries ≤ kMaxXmlElements)
    (hlength : (layout.document root entries).length ≤ kMaxXmlBytes) :
    parseXml (layout.document root entries) = .ok (layout.documentNode root entries) :=
  parseXml_of_reads layout (reads_root layout hroot hentries) hsize hlength

end Documents

/-! ### The writer's documents -/

/-- The layout of the writer: every element on a line of its own, indented. -/
def writerLayout : Layout where
  front := [0x0A]
  beforeEntry := [0x0A] ++ ascii "  "
  beforeField := [0x0A] ++ ascii "    "
  afterFields := [0x0A] ++ ascii "  "
  afterEntries := [0x0A]
  trailing := [0x0A]

def writeField (writer : XmlWriter) (field : Bytes × Bytes) : XmlWriter :=
  writer.element field.1 field.2

/-- An entry with its fields, as calls of the writer. -/
def writeEntry (writer : XmlWriter) (entry : Entry) : XmlWriter :=
  (entry.2.foldl writeField (writer.openElement entry.1)).close

theorem writeFields_spec {name root front : Bytes} (fields : List (Bytes × Bytes)) :
    fields.foldl writeField ⟨front ++ [0x0A], [name, root]⟩ =
      ⟨front ++ spread writerLayout.beforeField (fields.map leafText) ++ [0x0A], [name, root]⟩ := by
  induction fields generalizing front with
  | nil =>
      rw [List.foldl_nil, List.map_nil, spread, List.append_nil]
  | cons field fields ih =>
      have hfield : writeField ⟨front ++ [0x0A], [name, root]⟩ field =
          ⟨front ++ writerLayout.beforeField ++ leafText field ++ [0x0A], [name, root]⟩ := by
        simp [writeField, XmlWriter.element, XmlWriter.indent, writerLayout, leafText, startTag, endTag, ascii,
          List.replicate]
      rw [List.foldl_cons, hfield, ih, List.map_cons, spread]
      simp only [List.append_assoc]

theorem writeEntry_spec {root front : Bytes} (entry : Entry) :
    writeEntry ⟨front ++ [0x0A], [root]⟩ entry =
      ⟨front ++ writerLayout.beforeEntry ++ writerLayout.entryText entry ++ [0x0A], [root]⟩ := by
  have hopen : XmlWriter.openElement ⟨front ++ [0x0A], [root]⟩ entry.1 =
      ⟨front ++ writerLayout.beforeEntry ++ startTag entry.1 [] ++ [0x0A], [entry.1, root]⟩ := by
    simp [XmlWriter.openElement, XmlWriter.indent, writerLayout, startTag, ascii, List.replicate]
  rw [writeEntry, hopen, writeFields_spec]
  simp [XmlWriter.close, XmlWriter.indent, writerLayout, Layout.entryText, endTag, ascii,
    List.replicate]

theorem writeEntries_spec {root front : Bytes} (entries : List Entry) :
    entries.foldl writeEntry ⟨front ++ [0x0A], [root]⟩ =
      ⟨front ++ spread writerLayout.beforeEntry (entries.map writerLayout.entryText) ++ [0x0A],
        [root]⟩ := by
  induction entries generalizing front with
  | nil =>
      rw [List.foldl_nil, List.map_nil, spread, List.append_nil]
  | cons entry entries ih =>
      rw [List.foldl_cons, writeEntry_spec, ih, List.map_cons, spread]
      simp only [List.append_assoc]

/-- What the writer finishes is a document in its layout. -/
theorem finish_writeEntries (root : Bytes) (entries : List Entry) :
    (entries.foldl writeEntry (XmlWriter.start root XmlWriter.kS3Namespace)).finish =
      writerLayout.document root entries := by
  have hstart : XmlWriter.start root XmlWriter.kS3Namespace =
      ⟨(writerLayout.declaration ++ writerLayout.front ++
        startTag root (attributeText XmlWriter.kS3Namespace)) ++ [0x0A], [root]⟩ := by
    simp [XmlWriter.start, writerLayout, Layout.declaration, startTag, attributeText,
      XmlWriter.kS3Namespace, ascii]
  rw [hstart, writeEntries_spec]
  simp [XmlWriter.finish, XmlWriter.closeAll, writerLayout, Layout.document, endTag, ascii]

end MonoBucket.S3.Xml
