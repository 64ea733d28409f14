/-
Reading a CORS configuration and writing it back

What is read of a rendered configuration is each rule without the bytes XML cannot carry,
its name trimmed, and any max age below zero as none. So a configuration survives exactly
when that changes no rule, and the document is within the limits of the reader.
-/

import MonoBucket.S3.CorsDocument
import MonoBucket.S3.Decimal

namespace MonoBucket.S3

open Xml

/-! ### The document of the rules -/

/-- The texts of a list, each under a name. -/
def named (name : String) (texts : Sized Text) : List (Bytes × Bytes) :=
  texts.items.map fun text => (ascii name, text.items)

def idFields (rule : CorsRule) : List (Bytes × Bytes) :=
  if rule.id.items = [] then [] else [(ascii "ID", rule.id.items)]

def maxAgeFields (rule : CorsRule) : List (Bytes × Bytes) :=
  if 0 ≤ rule.maxAgeSeconds then
    [(ascii "MaxAgeSeconds", decimal rule.maxAgeSeconds.toInt.toNat)]
  else []

def corsFields (rule : CorsRule) : List (Bytes × Bytes) :=
  idFields rule ++ (named "AllowedOrigin" rule.allowedOrigins ++
    (named "AllowedMethod" rule.allowedMethods ++ (named "AllowedHeader" rule.allowedHeaders ++
      (named "ExposeHeader" rule.exposeHeaders ++ maxAgeFields rule))))

def corsEntry (rule : CorsRule) : Entry := (ascii "CORSRule", corsFields rule)

theorem writeTexts_eq (writer : XmlWriter) (name : String) (texts : Sized Text) :
    writeTexts writer (ascii name) texts = (named name texts).foldl writeField writer := by
  rw [writeTexts, named, List.foldl_map]
  rfl

theorem writeCorsRule_eq (writer : XmlWriter) (rule : CorsRule) :
    writeCorsRule writer rule = writeEntry writer (corsEntry rule) := by
  have hid : ∀ writer, elementIfSet writer (ascii "ID") rule.id.items =
      (idFields rule).foldl writeField writer := by
    intro writer
    rw [elementIfSet, idFields]
    split_ifs <;> rfl
  have hage : ∀ writer : XmlWriter,
      (if 0 ≤ rule.maxAgeSeconds then
        writer.element (ascii "MaxAgeSeconds") (decimal rule.maxAgeSeconds.toInt.toNat)
      else writer) = (maxAgeFields rule).foldl writeField writer := by
    intro writer
    rw [maxAgeFields]
    split_ifs <;> rfl
  rw [writeCorsRule, writeEntry, corsEntry]
  dsimp only
  rw [hid, hage, writeTexts_eq, writeTexts_eq, writeTexts_eq, writeTexts_eq, corsFields]
  simp only [List.foldl_append]

theorem renderCorsConfiguration_eq (rules : List CorsRule) :
    renderCorsConfiguration rules =
      writerLayout.document (ascii "CORSConfiguration") (rules.map corsEntry) := by
  have hwrite : writeCorsRule = fun writer rule => writeEntry writer (corsEntry rule) := by
    funext writer rule
    exact writeCorsRule_eq writer rule
  rw [renderCorsConfiguration, ← finish_writeEntries, List.foldl_map, hwrite]

/-! ### Its size -/

/-- How many bytes a byte of text is written as. -/
def escapedBytes (byte : UInt8) : Nat :=
  if byte = letter '&' then 5
  else if byte = letter '<' ∨ byte = letter '>' then 4
  else if byte = letter '"' ∨ byte = 0x27 then 6
  else if isCarried byte then 1
  else 0

def fieldSize (field : Bytes × Bytes) : Nat :=
  2 * field.1.length + (field.2.map escapedBytes).sum + 10

/-- How many bytes the document of the rules has. -/
def documentSize (rules : List CorsRule) : Nat :=
  128 + (rules.map fun rule => 27 + ((corsFields rule).map fieldSize).sum).sum

theorem length_escapeByte (byte : UInt8) : (escapeByte byte).length = escapedBytes byte := by
  refine forall_byte_of_fin (P := fun byte => (escapeByte byte).length = escapedBytes byte) ?_ byte
  decide +kernel

theorem length_xmlEscape (text : Bytes) : (xmlEscape text).length = (text.map escapedBytes).sum := by
  rw [xmlEscape, List.length_flatMap]
  simp only [length_escapeByte]

theorem length_spread (gap : Bytes) (items : List Bytes) :
    (spread gap items).length = (items.map fun item => gap.length + item.length).sum := by
  induction items with
  | nil => rfl
  | cons item items ih =>
      rw [spread, List.length_append, List.length_append, ih, List.map_cons, List.sum_cons,
        Nat.add_assoc]

theorem length_leafText (field : Bytes × Bytes) :
    writerLayout.beforeField.length + (leafText field).length = fieldSize field := by
  have hgap : writerLayout.beforeField.length = 5 := rfl
  rw [hgap, leafText, List.length_append, List.length_append, length_startTag, length_endTag,
    length_xmlEscape, fieldSize, List.length_nil]
  omega

theorem length_entryText (rule : CorsRule) :
    writerLayout.beforeEntry.length + (writerLayout.entryText (corsEntry rule)).length =
      27 + ((corsFields rule).map fieldSize).sum := by
  have hbefore : writerLayout.beforeEntry.length = 3 := rfl
  have hafter : writerLayout.afterFields.length = 3 := rfl
  have hname : (ascii "CORSRule").length = 8 := rfl
  have hfields : (spread writerLayout.beforeField ((corsFields rule).map leafText)).length =
      ((corsFields rule).map fieldSize).sum := by
    rw [length_spread, List.map_map]
    exact congrArg List.sum (List.map_congr_left fun field _ => length_leafText field)
  rw [hbefore, Layout.entryText, List.length_append, List.length_append, List.length_append,
    length_startTag, length_endTag, hafter, corsEntry]
  dsimp only
  rw [hname, hfields, List.length_nil]
  omega

theorem length_renderCorsConfiguration (rules : List CorsRule) :
    (renderCorsConfiguration rules).length = documentSize rules := by
  have hfront : (writerLayout.declaration ++ writerLayout.front).length = 39 := rfl
  have hafter : writerLayout.afterEntries.length = 1 := rfl
  have htrailing : writerLayout.trailing.length = 1 := rfl
  have hname : (ascii "CORSConfiguration").length = 17 := rfl
  have hattribute : (attributeText writerLayout.xmlns).length = 48 := rfl
  have hentries : (spread writerLayout.beforeEntry
      ((rules.map corsEntry).map writerLayout.entryText)).length =
      (rules.map fun rule => 27 + ((corsFields rule).map fieldSize).sum).sum := by
    rw [length_spread, List.map_map, List.map_map]
    exact congrArg List.sum (List.map_congr_left fun rule _ => length_entryText rule)
  rw [renderCorsConfiguration_eq, Layout.document, ← List.append_assoc, List.length_append, hfront,
    List.length_append, List.length_append, List.length_append, List.length_append, length_startTag,
    length_endTag, hname, hattribute, hentries, hafter, htrailing, documentSize]
  omega

/-! ### What is carried -/

/-- The bytes of a text that XML can carry. -/
def carriedPart (text : Bytes) : Bytes := text.filter isCarried

theorem xmlEscape_carriedPart (text : Bytes) : xmlEscape (carriedPart text) = xmlEscape text := by
  induction text with
  | nil => rfl
  | cons byte text ih =>
      rw [carriedPart, List.filter_cons]
      by_cases hbyte : isCarried byte = true
      · rw [if_pos hbyte, xmlEscape, xmlEscape, List.flatMap_cons, List.flatMap_cons, ← xmlEscape,
          ← xmlEscape, ← carriedPart, ih]
      · have hdropped : escapeByte byte = [] := by
          have hempty : (escapeByte byte).length = 0 := by
            have hzero : ∀ byte, isCarried byte = false → escapedBytes byte = 0 :=
              forall_byte_of_fin (P := fun byte => isCarried byte = false → escapedBytes byte = 0)
                (by decide +kernel)
            rw [length_escapeByte, hzero byte (Bool.not_eq_true _ ▸ hbyte)]
          exact List.length_eq_zero_iff.mp hempty
        rw [if_neg hbyte, ← carriedPart, ih, xmlEscape, xmlEscape, List.flatMap_cons, hdropped,
          List.nil_append]

theorem isCarried_of_mem_carriedPart {text : Bytes} : ∀ byte ∈ carriedPart text, isCarried byte :=
  fun _ h => (List.mem_filter.mp h).2

theorem carriedPart_eq_self_iff {text : Bytes} :
    carriedPart text = text ↔ ∀ byte ∈ text, isCarried byte :=
  List.filter_eq_self

/-- The entry as it is read. -/
def carriedEntry (entry : Entry) : Entry :=
  (entry.1, entry.2.map fun field => (field.1, carriedPart field.2))

theorem entryText_carriedEntry (layout : Layout) (entry : Entry) :
    layout.entryText (carriedEntry entry) = layout.entryText entry := by
  have hleaf : ∀ field : Bytes × Bytes, leafText (field.1, carriedPart field.2) = leafText field := by
    intro field
    rw [leafText, leafText, xmlEscape_carriedPart]
  rw [Layout.entryText, Layout.entryText, carriedEntry, List.map_map]
  simp only [Function.comp_def, hleaf]

theorem document_carriedEntry (layout : Layout) (root : Bytes) (entries : List Entry) :
    layout.document root (entries.map carriedEntry) = layout.document root entries := by
  rw [Layout.document, Layout.document, List.map_map]
  simp only [Function.comp_def, entryText_carriedEntry]

theorem elementsOf_carriedEntry (entries : List Entry) :
    elementsOf (entries.map carriedEntry) = elementsOf entries := by
  rw [elementsOf, elementsOf, List.map_map]
  simp only [Function.comp_def, carriedEntry, List.length_map]

theorem isName_corsFields (rule : CorsRule) : ∀ field ∈ corsFields rule, isName field.1 := by
  intro field hfield
  have hnamed : ∀ {name : String} {texts : Sized Text}, isName (ascii name) →
      field ∈ named name texts → isName field.1 := by
    intro name texts hname hfield
    obtain ⟨text, -, rfl⟩ := List.mem_map.mp hfield
    exact hname
  simp only [corsFields, List.mem_append] at hfield
  rcases hfield with hid | horigin | hmethod | hheader | hexpose | hage
  · rw [idFields] at hid
    split_ifs at hid
    · cases hid
    · rw [List.mem_singleton.mp hid]
      rfl
  · exact hnamed (by decide) horigin
  · exact hnamed (by decide) hmethod
  · exact hnamed (by decide) hheader
  · exact hnamed (by decide) hexpose
  · rw [maxAgeFields] at hage
    split_ifs at hage
    · rw [List.mem_singleton.mp hage]
      rfl
    · cases hage

theorem legible_carriedEntry (rule : CorsRule) : Legible (carriedEntry (corsEntry rule)) where
  name := rfl
  fields := by
    intro field hfield
    obtain ⟨source, hsource, rfl⟩ := List.mem_map.mp hfield
    exact ⟨isName_corsFields rule source hsource, isCarried_of_mem_carriedPart⟩

/-- Within the limits the document is read as the entries that can be carried. -/
theorem parseXml_renderCorsConfiguration {rules : List CorsRule}
    (hfew : elementsOf (rules.map corsEntry) ≤ kMaxXmlElements)
    (hshort : documentSize rules ≤ kMaxXmlBytes) :
    parseXml (renderCorsConfiguration rules) = .ok (writerLayout.documentNode
      (ascii "CORSConfiguration") ((rules.map corsEntry).map carriedEntry)) := by
  rw [← length_renderCorsConfiguration] at hshort
  rw [renderCorsConfiguration_eq, ← document_carriedEntry] at hshort ⊢
  refine parseXml_document writerLayout (by decide) ?_ ?_ hshort
  · intro entry hentry
    rw [List.map_map] at hentry
    obtain ⟨rule, -, rfl⟩ := List.mem_map.mp hentry
    exact legible_carriedEntry rule
  · rw [elementsOf_carriedEntry]
    exact hfew

/-! ### Numbers -/

theorem stoll_decimal {value : Nat} (h : value < 2 ^ 63) : stoll (decimal value) = .ok value := by
  have hall := @isDigit_of_mem_decimal value
  have hvalue := digitsValue_decimal value
  cases hdecimal : decimal value with
  | nil => exact absurd hdecimal (decimal_ne_nil value)
  | cons first rest =>
      rw [hdecimal] at hall hvalue
      have hplain : ∀ byte, isDigit byte → isSpace byte = false ∧ byte ≠ 0x2D ∧ byte ≠ 0x2B :=
        forall_byte_of_fin (P := fun byte => isDigit byte → isSpace byte = false ∧ byte ≠ 0x2D ∧
          byte ≠ 0x2B) (by decide +kernel)
      obtain ⟨hspace, hminus, hplus⟩ := hplain first (hall first List.mem_cons_self)
      have hsign : splitSign (first :: rest) = (false, first :: rest) := by
        unfold splitSign
        split
        · rename_i heq
          exact absurd (List.cons.inj heq).1 hminus
        · rename_i heq
          exact absurd (List.cons.inj heq).1 hplus
        · rfl
      have htake : (first :: rest).takeWhile isDigit = first :: rest :=
        List.takeWhile_eq_self_iff.mpr hall
      rw [stoll, List.dropWhile_cons_of_neg (by simp [hspace]), hsign]
      dsimp only
      rw [htake, if_neg (List.cons_ne_nil _ _), hvalue, if_neg]
      · rfl
      · rintro (hlow | hhigh)
        · have hnonneg : (0 : Int) ≤ value := Int.natCast_nonneg value
          simp only [Bool.false_eq_true, if_false] at hlow
          omega
        · simp only [Bool.false_eq_true, if_false] at hhigh
          omega

/-! ### What is read of a rule -/

theorem length_carriedPart_le (text : Bytes) : (carriedPart text).length ≤ text.length :=
  List.length_filter_le _ _

theorem length_trimmed_le (text : Bytes) : (trimmed text).length ≤ text.length := by
  have hfront := (List.dropWhile_sublist (l := text) isXmlSpace).length_le
  have hback := (List.rdropWhile_prefix isXmlSpace (text.dropWhile isXmlSpace)).length_le
  exact hback.trans hfront

def carriedText (text : Text) : Text :=
  ⟨carriedPart text.items, (length_carriedPart_le _).trans_lt text.fits⟩

/-- The rule as it is read back. -/
def carriedRule (rule : CorsRule) : CorsRule where
  id := ⟨trimmed (carriedPart rule.id.items),
    ((length_trimmed_le _).trans (length_carriedPart_le _)).trans_lt rule.id.fits⟩
  allowedOrigins := rule.allowedOrigins.map carriedText
  allowedMethods := rule.allowedMethods.map carriedText
  allowedHeaders := rule.allowedHeaders.map carriedText
  exposeHeaders := rule.exposeHeaders.map carriedText
  maxAgeSeconds := if 0 ≤ rule.maxAgeSeconds then rule.maxAgeSeconds else -1

theorem sized_eq {α : Type} {items : List α} (h : items.length < 2 ^ 64) : sized items = ⟨items, h⟩ :=
  dif_pos h

theorem sized_items {α : Type} (container : Sized α) : sized container.items = container :=
  sized_eq container.fits

theorem filter_named (name : String) (texts : Sized Text) (key : Bytes) :
    (named name texts).filter (fun field => field.1 = key) =
      if ascii name = key then named name texts else [] := by
  rw [named, List.filter_map]
  split_ifs with hkey
  · rw [List.filter_eq_self.mpr]
    exact fun text _ => decide_eq_true hkey
  · rw [List.filter_eq_nil_iff.mpr, List.map_nil]
    exact fun text _ => by simp [hkey]

theorem filter_idFields (rule : CorsRule) (key : Bytes) :
    (idFields rule).filter (fun field => field.1 = key) =
      if ascii "ID" = key then idFields rule else [] := by
  rw [idFields]
  split_ifs with hid hkey hkey
  · rfl
  · rfl
  · rw [List.filter_cons, if_pos (decide_eq_true hkey), List.filter_nil]
  · rw [List.filter_cons, if_neg (by simp [hkey]), List.filter_nil]

theorem filter_maxAgeFields (rule : CorsRule) (key : Bytes) :
    (maxAgeFields rule).filter (fun field => field.1 = key) =
      if ascii "MaxAgeSeconds" = key then maxAgeFields rule else [] := by
  rw [maxAgeFields]
  split_ifs with hage hkey hkey
  · rw [List.filter_cons, if_pos (decide_eq_true hkey), List.filter_nil]
  · rw [List.filter_cons, if_neg (by simp [hkey]), List.filter_nil]
  · rfl
  · rfl

/-- The fields of a name are those of the one list with that name. -/
theorem filter_corsFields (rule : CorsRule) (key : Bytes) :
    (corsFields rule).filter (fun field => field.1 = key) =
      (if ascii "ID" = key then idFields rule else []) ++
      ((if ascii "AllowedOrigin" = key then named "AllowedOrigin" rule.allowedOrigins else []) ++
      ((if ascii "AllowedMethod" = key then named "AllowedMethod" rule.allowedMethods else []) ++
      ((if ascii "AllowedHeader" = key then named "AllowedHeader" rule.allowedHeaders else []) ++
      ((if ascii "ExposeHeader" = key then named "ExposeHeader" rule.exposeHeaders else []) ++
      (if ascii "MaxAgeSeconds" = key then maxAgeFields rule else []))))) := by
  rw [corsFields, List.filter_append, List.filter_append, List.filter_append, List.filter_append,
    List.filter_append, filter_idFields, filter_named, filter_named, filter_named, filter_named,
    filter_maxAgeFields]

/-- The element a rule is read from. -/
def ruleNode (rule : CorsRule) : XmlNode := writerLayout.entryNode (carriedEntry (corsEntry rule))

theorem childrenNamed_ruleNode (rule : CorsRule) (key : Bytes) :
    (ruleNode rule).childrenNamed key =
      ((corsFields rule).filter fun field => field.1 = key).map fun field =>
        .element field.1 (carriedPart field.2) [] := by
  have hchildren : (ruleNode rule).children =
      (corsFields rule).map fun field => .element field.1 (carriedPart field.2) [] := by
    show ((corsFields rule).map fun field => (field.1, carriedPart field.2)).map _ = _
    rw [List.map_map]
    rfl
  rw [XmlNode.childrenNamed, hchildren, List.filter_map]
  rfl

theorem textsOf_ruleNode {rule : CorsRule} {name : String} {texts : Sized Text}
    (h : (corsFields rule).filter (fun field => field.1 = ascii name) = named name texts) :
    textsOf (ruleNode rule) (ascii name) = texts.map carriedText := by
  have htexts : ((ruleNode rule).childrenNamed (ascii name)).map (fun child => sized child.text) =
      (texts.map carriedText).items := by
    rw [childrenNamed_ruleNode, h, named, List.map_map, List.map_map, Sized.items_map]
    exact List.map_congr_left fun text _ => sized_items (carriedText text)
  rw [textsOf, htexts, sized_items]

theorem child?_eq_head? (node : XmlNode) (key : Bytes) :
    node.child? key = (node.childrenNamed key).head? :=
  (List.head?_filter ..).symm

theorem childText_id_ruleNode (rule : CorsRule) :
    (ruleNode rule).childText (ascii "ID") = trimmed (carriedPart rule.id.items) := by
  have hfields : (corsFields rule).filter (fun field => field.1 = ascii "ID") = idFields rule := by
    rw [filter_corsFields, if_pos rfl, if_neg (by decide), if_neg (by decide), if_neg (by decide),
      if_neg (by decide), if_neg (by decide)]
    simp
  rw [XmlNode.childText, child?_eq_head?, childrenNamed_ruleNode, hfields, idFields]
  by_cases hid : rule.id.items = []
  · rw [if_pos hid, hid]
    rfl
  · rw [if_neg hid]
    rfl

theorem maxAgeOfRule_ruleNode {rule : CorsRule} (hage : rule.maxAgeSeconds ≤ maxAgeLimit) :
    maxAgeOfRule (ruleNode rule) =
      .ok (if 0 ≤ rule.maxAgeSeconds then rule.maxAgeSeconds else -1) := by
  have hfields : (corsFields rule).filter (fun field => field.1 = ascii "MaxAgeSeconds") =
      maxAgeFields rule := by
    rw [filter_corsFields]
    simp [ascii]
  rw [maxAgeOfRule, child?_eq_head?, childrenNamed_ruleNode, hfields, maxAgeFields]
  by_cases hset : 0 ≤ rule.maxAgeSeconds
  · have hlow : 0 ≤ rule.maxAgeSeconds.toInt := Int32.le_iff_toInt_le.mp hset
    have hhigh : rule.maxAgeSeconds.toInt ≤ 86400 := Int32.le_iff_toInt_le.mp hage
    have hback : (rule.maxAgeSeconds.toInt.toNat : Int) = rule.maxAgeSeconds.toInt :=
      Int.toNat_of_nonneg hlow
    have hcarried : carriedPart (decimal rule.maxAgeSeconds.toInt.toNat) =
        decimal rule.maxAgeSeconds.toInt.toNat := by
      have hdigit : ∀ byte, isDigit byte → isCarried byte :=
        forall_byte_of_fin (P := fun byte => isDigit byte → isCarried byte) (by decide +kernel)
      exact carriedPart_eq_self_iff.mpr fun byte hbyte => hdigit byte (isDigit_of_mem_decimal byte hbyte)
    rw [if_pos hset, if_pos hset]
    show maxAgeOf (carriedPart (decimal rule.maxAgeSeconds.toInt.toNat)) = _
    rw [hcarried, maxAgeOf, stoll_decimal (by omega)]
    dsimp only
    rw [if_neg (by omega), hback, Int32.ofInt_toInt]
  · rw [if_neg hset, if_neg hset]
    rfl

theorem corsRuleOf_ruleNode {rule : CorsRule} (hage : rule.maxAgeSeconds ≤ maxAgeLimit) :
    corsRuleOf (ruleNode rule) = .ok (carriedRule rule) := by
  have horigins := @textsOf_ruleNode rule "AllowedOrigin" rule.allowedOrigins
    (by rw [filter_corsFields]; simp [ascii])
  have hmethods := @textsOf_ruleNode rule "AllowedMethod" rule.allowedMethods
    (by rw [filter_corsFields]; simp [ascii])
  have hheaders := @textsOf_ruleNode rule "AllowedHeader" rule.allowedHeaders
    (by rw [filter_corsFields]; simp [ascii])
  have hexpose := @textsOf_ruleNode rule "ExposeHeader" rule.exposeHeaders
    (by rw [filter_corsFields]; simp [ascii])
  have hid : sized (trimmed (carriedPart rule.id.items)) = (carriedRule rule).id := sized_eq _
  rw [corsRuleOf, maxAgeOfRule_ruleNode hage, horigins, hmethods, hheaders, hexpose,
    childText_id_ruleNode, hid]
  rfl

/-- A document of rules is read as the rules that can be carried, and these are checked. -/
theorem readCorsRules_documentNode {rules : Sized CorsRule} (hsome : rules.items ≠ [])
    (hages : ∀ rule ∈ rules.items, rule.maxAgeSeconds ≤ maxAgeLimit) :
    readCorsRules (writerLayout.documentNode (ascii "CORSConfiguration")
        ((rules.items.map corsEntry).map carriedEntry)) =
      validateCorsRules (rules.map carriedRule) := by
  have hchildren : (writerLayout.documentNode (ascii "CORSConfiguration")
      ((rules.items.map corsEntry).map carriedEntry)).childrenNamed (ascii "CORSRule") =
      rules.items.map ruleNode := by
    rw [Layout.documentNode, XmlNode.childrenNamed, XmlNode.children, List.map_map, List.map_map,
      List.filter_eq_self.mpr]
    · rfl
    · intro node hnode
      obtain ⟨rule, -, rfl⟩ := List.mem_map.mp hnode
      exact decide_eq_true rfl
  have hread : (rules.items.map ruleNode).mapM corsRuleOf = .ok (rules.items.map carriedRule) := by
    rw [Except.mapM_eq_ok_iff, List.forall₂_map_left_iff, List.forall₂_map_right_iff,
      List.forall₂_same]
    exact fun rule hrule => corsRuleOf_ruleNode (hages rule hrule)
  have hrules : corsRulesOf (writerLayout.documentNode (ascii "CORSConfiguration")
      ((rules.items.map corsEntry).map carriedEntry)) = .ok (rules.items.map carriedRule) := by
    rw [corsRulesOf, hchildren, hread]
    exact if_pos rfl
  rw [readCorsRules, hrules]
  show (if rules.items.map carriedRule = [] then _ else validateCorsRules _) = _
  rw [if_neg (by rwa [List.map_eq_nil_iff]), ← Sized.items_map, sized_items]

/-! ### The rules that are checked again -/

theorem count_star_map_toLower (text : Bytes) :
    (text.map toLower).count 0x2A = text.count 0x2A := by
  have hstar : ∀ byte, toLower byte = 0x2A ↔ byte = 0x2A :=
    forall_byte_of_fin (P := fun byte => toLower byte = 0x2A ↔ byte = 0x2A) (by decide +kernel)
  induction text with
  | nil => rfl
  | cons byte text ih =>
      rw [List.map_cons, List.count_cons, List.count_cons, ih]
      simp only [beq_iff_eq, hstar]

theorem normaliseCorsRule_normaliseCorsRule (rule : CorsRule) :
    normaliseCorsRule (normaliseCorsRule rule) = normaliseCorsRule rule := by
  have hmap : ∀ {f : UInt8 → UInt8}, (∀ byte, f (f byte) = f byte) → ∀ texts : Sized Text,
      (texts.map fun text => text.map f).map (fun text => text.map f) =
        texts.map fun text => text.map f := by
    intro f hf texts
    ext1
    simp only [Sized.items_map, List.map_map]
    refine List.map_congr_left fun text _ => ?_
    ext1
    simp only [Function.comp_apply, Sized.items_map, List.map_map]
    exact List.map_congr_left fun byte _ => hf byte
  rw [normaliseCorsRule, normaliseCorsRule]
  dsimp only
  rw [hmap toUpper_toUpper, hmap toLower_toLower]

theorem passesCheck_normaliseCorsRule {rule : CorsRule} (h : PassesCheck rule) :
    PassesCheck (normaliseCorsRule rule) where
  origins := h.origins
  originPatterns := h.originPatterns
  methods := by
    show rule.allowedMethods.items.map _ ≠ []
    rw [ne_eq, List.map_eq_nil_iff]
    exact h.methods
  methodNames := by
    rw [normaliseCorsRule_normaliseCorsRule]
    exact h.methodNames
  headerPatterns := by
    intro header hheader
    obtain ⟨source, hsource, rfl⟩ := List.mem_map.mp hheader
    have hpattern := h.headerPatterns source hsource
    rw [validatePattern] at hpattern ⊢
    simp only [Sized.items_map, count_star_map_toLower, List.map_eq_nil_iff]
    exact hpattern
  exposed := h.exposed
  age := h.age

/-- What was accepted is accepted as it is. -/
theorem validateCorsRules_accepted {rules accepted : Sized CorsRule}
    (h : validateCorsRules rules = .ok accepted) : validateCorsRules accepted = .ok accepted := by
  obtain ⟨hsome, hfew, hchecked, rfl⟩ := validateCorsRules_ok h
  have hagain : (rules.map normaliseCorsRule).map normaliseCorsRule = rules.map normaliseCorsRule := by
    ext1
    simp only [Sized.items_map, List.map_map]
    exact List.map_congr_left fun rule _ => normaliseCorsRule_normaliseCorsRule rule
  have hpassed : (rules.map normaliseCorsRule).items.forM checkCorsRule = .ok () := by
    refine Except.forM_eq_ok_iff.mpr fun rule hrule => ?_
    obtain ⟨source, hsource, rfl⟩ := List.mem_map.mp hrule
    exact checkCorsRule_eq_ok_iff.mpr
      (passesCheck_normaliseCorsRule (checkCorsRule_eq_ok_iff.mp (hchecked source hsource)))
  have hnonempty : (rules.map normaliseCorsRule).items ≠ [] := by
    rwa [Sized.items_map, ne_eq, List.map_eq_nil_iff]
  have hcount : ¬ maxRules < (rules.map normaliseCorsRule).items.length := by
    rw [Sized.items_map, List.length_map]
    exact not_lt.mpr hfew
  rw [validateCorsRules, if_neg hnonempty, if_neg hcount, hpassed]
  exact congrArg Except.ok hagain

/-! ### The elements that were read -/

section Counting

theorem length_sized_le {α : Type} (items : List α) : (sized items).items.length ≤ items.length := by
  rw [sized]
  split_ifs
  · exact le_rfl
  · exact Nat.zero_le _

theorem sum_filter_le {names : List Bytes} (hnodup : names.Nodup) (nodes : List XmlNode) :
    (names.map fun key => (nodes.filter fun node => node.name = key).length).sum ≤ nodes.length := by
  induction names generalizing nodes with
  | nil => exact Nat.zero_le _
  | cons name names ih =>
      obtain ⟨hname, hnodup⟩ := List.nodup_cons.mp hnodup
      have hothers := ih hnodup (nodes.filter fun node => ¬ node.name = name)
      have hsame : (names.map fun key => ((nodes.filter fun node => ¬ node.name = name).filter
          fun node => node.name = key).length) =
          names.map fun key => (nodes.filter fun node => node.name = key).length := by
        refine List.map_congr_left fun key hkey => ?_
        have hne : key ≠ name := fun hsame => hname (hsame ▸ hkey)
        rw [List.filter_filter]
        refine congrArg List.length (List.filter_congr fun node _ => ?_)
        by_cases hnode : node.name = key
        · simp [hnode, hne]
        · simp [hnode]
      have hsplit := List.length_eq_length_filter_add (l := nodes) fun node => decide (node.name = name)
      rw [hsame] at hothers
      rw [List.map_cons, List.sum_cons]
      simp only [decide_not] at hothers
      omega

theorem nodeCount_pos (node : XmlNode) : 1 + node.children.length ≤ nodeCount node := by
  have hlength : ∀ nodes : List XmlNode, nodes.length ≤ nodeCounts nodes := by
    intro nodes
    induction nodes with
    | nil => exact le_rfl
    | cons node nodes ih =>
        obtain ⟨name, text, children⟩ := node
        rw [List.length_cons, nodeCounts, nodeCount]
        omega
  obtain ⟨name, text, children⟩ := node
  rw [nodeCount]
  exact Nat.add_le_add_left (hlength children) 1

theorem sum_childrenNamed_le (nodes : List XmlNode) (kept : XmlNode → Bool) :
    ((nodes.filter kept).map fun node => 1 + node.children.length).sum ≤ nodeCounts nodes := by
  induction nodes with
  | nil => exact le_rfl
  | cons node nodes ih =>
      have hnode := nodeCount_pos node
      rw [nodeCounts, List.filter_cons]
      split_ifs
      · rw [List.map_cons, List.sum_cons]
        omega
      · omega

/-- A rule is read from as many children as it is written with. -/
theorem length_corsFields_le {node : XmlNode} {rule : CorsRule} (h : corsRuleOf node = .ok rule) :
    (corsFields (normaliseCorsRule rule)).length ≤ node.children.length := by
  obtain ⟨maxAge, hage, hrule⟩ := Except.bind_eq_ok_iff.mp h
  obtain rfl := Except.pure_eq_ok_iff.mp hrule
  have hone : ∀ {key : Bytes} {child : XmlNode}, node.child? key = some child →
      1 ≤ (node.childrenNamed key).length := by
    intro key child hchild
    rw [child?_eq_head?] at hchild
    exact List.length_pos_iff.mpr fun hnone => by rw [hnone] at hchild; cases hchild
  have htexts : ∀ key, (textsOf node key).items.length ≤ (node.childrenNamed key).length := by
    intro key
    have hle := length_sized_le ((node.childrenNamed key).map fun child => sized child.text)
    rwa [List.length_map] at hle
  have hid : (idFields { id := sized (node.childText (ascii "ID")) }).length ≤
      (node.childrenNamed (ascii "ID")).length := by
    rw [idFields]
    split_ifs with hempty
    · exact Nat.zero_le _
    · cases hchild : node.child? (ascii "ID") with
      | none =>
          refine absurd ?_ hempty
          rw [XmlNode.childText, hchild]
          rfl
      | some child => exact hone hchild
  have hmax : (maxAgeFields { maxAgeSeconds := maxAge }).length ≤
      (node.childrenNamed (ascii "MaxAgeSeconds")).length := by
    rw [maxAgeOfRule] at hage
    cases hchild : node.child? (ascii "MaxAgeSeconds") with
    | none =>
        rw [hchild] at hage
        obtain rfl := Except.ok.inj hage
        exact Nat.zero_le _
    | some child =>
        have hsome := hone hchild
        rw [maxAgeFields]
        split_ifs
        · exact hsome
        · exact Nat.zero_le _
  have horigins := htexts (ascii "AllowedOrigin")
  have hmethods := htexts (ascii "AllowedMethod")
  have hheaders := htexts (ascii "AllowedHeader")
  have hexposed := htexts (ascii "ExposeHeader")
  have hsum := @sum_filter_le [ascii "ID", ascii "AllowedOrigin", ascii "AllowedMethod",
    ascii "AllowedHeader", ascii "ExposeHeader", ascii "MaxAgeSeconds"] (by decide) node.children
  simp only [List.map_cons, List.map_nil, List.sum_cons, List.sum_nil] at hsum
  simp only [corsFields, List.length_append, named, List.length_map, normaliseCorsRule,
    Sized.items_map]
  have hfields := Nat.add_le_add hid hmax
  simp only [XmlNode.childrenNamed, idFields, maxAgeFields] at *
  omega

/-- What is read to a configuration has an element for all that the configuration has. -/
theorem elementsOf_le_nodeCount {root : XmlNode} {accepted : Sized CorsRule}
    (h : readCorsRules root = .ok accepted) :
    elementsOf (accepted.items.map corsEntry) ≤ nodeCount root := by
  obtain ⟨rules, hrules, h⟩ := Except.bind_eq_ok_iff.mp h
  split_ifs at h with hempty
  · cases h
  obtain ⟨hsome, -, -, rfl⟩ := validateCorsRules_ok h
  rw [corsRulesOf] at hrules
  split_ifs at hrules with hname
  · have hread := Except.mapM_eq_ok_iff.mp hrules
    have hitems : (sized rules).items = rules := by
      rw [sized] at hsome ⊢
      split_ifs at hsome ⊢
      · rfl
      · exact absurd rfl hsome
    have hrule : List.Forall₂ (· ≤ ·)
        (rules.map fun rule => 1 + (corsFields (normaliseCorsRule rule)).length)
        ((root.childrenNamed (ascii "CORSRule")).map fun node => 1 + node.children.length) := by
      rw [List.forall₂_map_left_iff, List.forall₂_map_right_iff]
      exact hread.flip.imp fun rule node hnode => Nat.add_le_add_left (length_corsFields_le hnode) 1
    have hsum := hrule.sum_le_sum
    have hall := sum_childrenNamed_le root.children fun node => node.name = ascii "CORSRule"
    have hroot : nodeCount root = 1 + nodeCounts root.children := by
      obtain ⟨name, text, children⟩ := root
      rw [nodeCount]
      rfl
    rw [XmlNode.childrenNamed] at hsum
    rw [elementsOf, Sized.items_map, hitems, List.map_map, List.map_map, hroot]
    exact Nat.add_le_add_left (hsum.trans hall) 1
  · cases hrules

end Counting

/-! ### What survives -/

/-- The texts of a rule. -/
def corsTexts (rule : CorsRule) : List Text :=
  rule.id :: (rule.allowedOrigins.items ++ (rule.allowedMethods.items ++
    (rule.allowedHeaders.items ++ rule.exposeHeaders.items)))

/-- XML can carry every text, no name starts or ends in white space, no max age is below
"none", and the document is within the limits of the reader. -/
structure SurvivesXml (rules : List CorsRule) : Prop where
  carried : ∀ rule ∈ rules, ∀ text ∈ corsTexts rule, ∀ byte ∈ text.items, isCarried byte
  trimmed : ∀ rule ∈ rules, Xml.trimmed rule.id.items = rule.id.items
  ages : ∀ rule ∈ rules, -1 ≤ rule.maxAgeSeconds
  few : elementsOf (rules.map corsEntry) ≤ kMaxXmlElements
  short : documentSize rules ≤ kMaxXmlBytes

section Surviving

theorem isCarried_of_length {text : Bytes} (h : text.length ≤ (carriedPart text).length) :
    ∀ byte ∈ text, isCarried byte :=
  List.length_filter_eq_length_iff.mp (le_antisymm (length_carriedPart_le text) h)

theorem carriedText_eq_self {text : Text} (h : ∀ byte ∈ text.items, isCarried byte) :
    carriedText text = text := by
  ext1
  exact carriedPart_eq_self_iff.mpr h

/-- A list of texts that is the same once it was read, however it was normalised. -/
theorem isCarried_of_map_eq {f : UInt8 → UInt8} {texts : Sized Text}
    (h : (texts.map carriedText).map (fun text => text.map f) = texts) :
    ∀ text ∈ texts.items, ∀ byte ∈ text.items, isCarried byte := by
  have hitems := congrArg Sized.items h
  rw [Sized.items_map, Sized.items_map, List.map_map] at hitems
  have hsame := List.map_inj_left.mp (hitems.trans (List.map_id _).symm)
  intro text htext
  have hlength := congrArg (fun text : Text => text.items.length) (hsame text htext)
  simp only [Function.comp_apply, Sized.items_map, List.length_map, id_eq] at hlength
  exact isCarried_of_length hlength.ge

variable {rule : CorsRule}

/-- Of a rule that is read back as it was nothing was lost. -/
theorem kept_of_normaliseCorsRule_eq (h : normaliseCorsRule (carriedRule rule) = rule) :
    (∀ text ∈ corsTexts rule, ∀ byte ∈ text.items, isCarried byte) ∧
      trimmed rule.id.items = rule.id.items ∧ -1 ≤ rule.maxAgeSeconds := by
  have hid : trimmed (carriedPart rule.id.items) = rule.id.items :=
    congrArg (fun rule : CorsRule => rule.id.items) h
  have horigins := congrArg CorsRule.allowedOrigins h
  have hexposed := congrArg CorsRule.exposeHeaders h
  have hage : (if 0 ≤ rule.maxAgeSeconds then rule.maxAgeSeconds else -1) = rule.maxAgeSeconds :=
    congrArg CorsRule.maxAgeSeconds h
  have hidCarried : ∀ byte ∈ rule.id.items, isCarried byte := by
    refine isCarried_of_length ?_
    rw [← congrArg List.length hid]
    exact length_trimmed_le _
  have hplain : ∀ texts : Sized Text, (texts.map carriedText).map (fun text => text.map id) =
      texts.map carriedText := by
    intro texts
    simp only [Sized.map_id]
    exact Sized.map_id _
  refine ⟨?_, ?_, ?_⟩
  · intro text htext
    simp only [corsTexts, List.mem_cons, List.mem_append] at htext
    rcases htext with rfl | htext | htext | htext | htext
    · exact hidCarried
    · exact isCarried_of_map_eq ((hplain _).trans horigins) text htext
    · exact isCarried_of_map_eq (congrArg CorsRule.allowedMethods h) text htext
    · exact isCarried_of_map_eq (congrArg CorsRule.allowedHeaders h) text htext
    · exact isCarried_of_map_eq ((hplain _).trans hexposed) text htext
  · rwa [carriedPart_eq_self_iff.mpr hidCarried] at hid
  · refine rule.reread_eq_self_iff.mp ?_
    rw [CorsRule.reread, hage]

theorem carriedRule_eq_self
    (hcarried : ∀ text ∈ corsTexts rule, ∀ byte ∈ text.items, isCarried byte)
    (htrimmed : trimmed rule.id.items = rule.id.items) (hage : -1 ≤ rule.maxAgeSeconds) :
    carriedRule rule = rule := by
  have htexts : ∀ texts : Sized Text, (∀ text ∈ texts.items, text ∈ corsTexts rule) →
      texts.map carriedText = texts := by
    intro texts hmem
    have hsame : texts.items.map carriedText = texts.items.map id :=
      List.map_congr_left fun text htext => carriedText_eq_self (hcarried text (hmem text htext))
    ext1
    rw [Sized.items_map, hsame, List.map_id]
  have hid : carriedPart rule.id.items = rule.id.items :=
    carriedPart_eq_self_iff.mpr (hcarried rule.id List.mem_cons_self)
  have hname : (carriedRule rule).id = rule.id := by
    ext1
    show trimmed (carriedPart rule.id.items) = rule.id.items
    rw [hid, htrimmed]
  have hreread : (if 0 ≤ rule.maxAgeSeconds then rule.maxAgeSeconds else -1) = rule.maxAgeSeconds :=
    congrArg CorsRule.maxAgeSeconds (rule.reread_eq_self_iff.mpr hage)
  have hfields : carriedRule rule =
      { id := (carriedRule rule).id
        allowedOrigins := rule.allowedOrigins.map carriedText
        allowedMethods := rule.allowedMethods.map carriedText
        allowedHeaders := rule.allowedHeaders.map carriedText
        exposeHeaders := rule.exposeHeaders.map carriedText
        maxAgeSeconds := if 0 ≤ rule.maxAgeSeconds then rule.maxAgeSeconds else -1 } := rfl
  rw [hfields, hname, htexts rule.allowedOrigins, htexts rule.allowedMethods,
    htexts rule.allowedHeaders, htexts rule.exposeHeaders, hreread]
  all_goals
    intro text htext
    simp only [corsTexts, List.mem_cons, List.mem_append]
    tauto

variable {rules accepted : Sized CorsRule}

theorem parseCorsConfiguration_eq (h : validateCorsRules rules = .ok accepted)
    (hfew : elementsOf (accepted.items.map corsEntry) ≤ kMaxXmlElements)
    (hshort : documentSize accepted.items ≤ kMaxXmlBytes) :
    parseCorsConfiguration (renderCorsConfiguration accepted.items) =
      validateCorsRules (accepted.map carriedRule) := by
  obtain ⟨hsome, -, hchecked, -⟩ := validateCorsRules_ok (validateCorsRules_accepted h)
  have hwritten : renderCorsConfiguration accepted.items ≠ [] := by
    rw [ne_eq, ← List.length_eq_zero_iff, length_renderCorsConfiguration, documentSize]
    omega
  rw [parseCorsConfiguration, if_neg hwritten, parseXml_renderCorsConfiguration hfew hshort]
  exact readCorsRules_documentNode hsome fun rule hrule =>
    Int32.not_lt.mp (checkCorsRule_eq_ok_iff.mp (hchecked rule hrule)).age

/-- What a front door accepts survives being read and written back exactly when XML can carry
all of it and the document is within the limits. -/
theorem parse_render_eq_iff (h : validateCorsRules rules = .ok accepted) :
    parseCorsConfiguration (renderCorsConfiguration accepted.items) = .ok accepted ↔
      SurvivesXml accepted.items := by
  constructor
  · intro hparse
    have hlimits : elementsOf (accepted.items.map corsEntry) ≤ kMaxXmlElements ∧
        documentSize accepted.items ≤ kMaxXmlBytes := by
      have hends := parseXml_ends (renderCorsConfiguration accepted.items)
      have hshort : ¬ kMaxXmlBytes < (renderCorsConfiguration accepted.items).length := by
        intro hlarge
        rw [parseCorsConfiguration, parseXml, if_pos hlarge] at hparse
        split_ifs at hparse
        all_goals cases hparse
      rw [length_renderCorsConfiguration] at hshort
      rw [parseCorsConfiguration] at hparse
      split_ifs at hparse
      · cases hparse
      cases hroot : parseXml (renderCorsConfiguration accepted.items) with
      | error stop =>
          rw [hroot] at hparse
          cases stop <;> cases hparse
      | ok root =>
          rw [hroot] at hparse hends
          exact ⟨(elementsOf_le_nodeCount hparse).trans hends.2, not_lt.mp hshort⟩
    rw [parseCorsConfiguration_eq h hlimits.1 hlimits.2] at hparse
    obtain ⟨-, -, -, hsame⟩ := validateCorsRules_ok hparse
    have hrules : ∀ rule ∈ accepted.items, normaliseCorsRule (carriedRule rule) = rule := by
      have hitems := congrArg Sized.items hsame
      rw [Sized.items_map, Sized.items_map, List.map_map] at hitems
      exact List.map_inj_left.mp (hitems.symm.trans (List.map_id _).symm)
    have hkept := fun rule hrule => kept_of_normaliseCorsRule_eq (hrules rule hrule)
    exact ⟨fun rule hrule => (hkept rule hrule).1, fun rule hrule => (hkept rule hrule).2.1,
      fun rule hrule => (hkept rule hrule).2.2, hlimits.1, hlimits.2⟩
  · intro hsurvives
    have hsame : accepted.map carriedRule = accepted := by
      have hrules : accepted.items.map carriedRule = accepted.items.map id :=
        List.map_congr_left fun rule hrule => carriedRule_eq_self (hsurvives.carried rule hrule)
          (hsurvives.trimmed rule hrule) (hsurvives.ages rule hrule)
      ext1
      rw [Sized.items_map, hrules, List.map_id]
    rw [parseCorsConfiguration_eq h hsurvives.few hsurvives.short, hsame]
    exact validateCorsRules_accepted h

end Surviving

/-- A rule of one origin and one method, under a name. -/
def namedRule (name : Text) : Sized CorsRule where
  items :=
    [{ id := name
       allowedOrigins := ⟨[⟨ascii "*", fits_star⟩], by decide⟩
       allowedMethods := ⟨[⟨ascii "GET", by decide⟩], by decide⟩
       maxAgeSeconds := 600 }]
  fits := by simp

theorem parse_render_eq_iff_web :
    validateCorsRules (namedRule ⟨ascii "web", by decide⟩) =
        .ok (namedRule ⟨ascii "web", by decide⟩) ∧
      parseCorsConfiguration (renderCorsConfiguration (namedRule ⟨ascii "web", by decide⟩).items) =
        .ok (namedRule ⟨ascii "web", by decide⟩) := by
  have haccepted : validateCorsRules (namedRule ⟨ascii "web", by decide⟩) =
      .ok (namedRule ⟨ascii "web", by decide⟩) := by decide +kernel
  refine ⟨haccepted, (parse_render_eq_iff haccepted).mpr ⟨?_, ?_, ?_, ?_, ?_⟩⟩
  all_goals decide +kernel

/-- The console accepts a name with a blank in front of it, which is trimmed when it is read
from the document. -/
theorem blank_in_front_is_lost :
    validateCorsRules (namedRule ⟨ascii " web", by decide⟩) =
        .ok (namedRule ⟨ascii " web", by decide⟩) ∧
      parseCorsConfiguration (renderCorsConfiguration (namedRule ⟨ascii " web", by decide⟩).items) ≠
        .ok (namedRule ⟨ascii " web", by decide⟩) := by
  decide +kernel

end MonoBucket.S3
