/-
The XML on the wire

A bounded reader of the documents clients send, and the writer of the documents they
are answered with. The reader decodes the predefined entities and character references,
drops attributes, and keeps the text of a leaf; the text of an element is trimmed when
it is asked for. The loops carry fuel for one turn a byte, which is more than they take.
-/

import Mathlib.Data.List.DropRight
import MonoBucket.Lib.RollUp
import MonoBucket.S3.Names
import MonoBucket.S3.Uri

namespace MonoBucket.S3

/-- One element of a parsed document. -/
inductive XmlNode
  | element (name text : Bytes) (children : List XmlNode)

namespace XmlNode

def name : XmlNode → Bytes
  | element name _ _ => name

def text : XmlNode → Bytes
  | element _ text _ => text

def children : XmlNode → List XmlNode
  | element _ _ children => children

end XmlNode

/-- A malformed document, or a loop out of fuel. -/
inductive XmlStop
  | parseError (what : Bytes)
  | outOfFuel
  deriving DecidableEq

namespace Xml

def kMaxXmlBytes : Nat := 8 * 1024 * 1024

def kMaxXmlDepth : Nat := 16

def kMaxXmlElements : Nat := 200000

def fail {α : Type} (what : String) : Except XmlStop α := .error (.parseError (ascii what))

/-- The white space of XML. -/
def isXmlSpace (byte : UInt8) : Bool := byte = 0x20 ∨ byte = 0x09 ∨ byte = 0x0D ∨ byte = 0x0A

def isAlpha (byte : UInt8) : Bool := (0x41 ≤ byte ∧ byte ≤ 0x5A) ∨ (0x61 ≤ byte ∧ byte ≤ 0x7A)

def isNameStart (byte : UInt8) : Bool := isAlpha byte ∨ byte = letter '_' ∨ byte = letter ':'

def isNameChar (byte : UInt8) : Bool :=
  isAlnum byte ∨ byte = letter '_' ∨ byte = letter ':' ∨ byte = letter '-' ∨ byte = letter '.'

/-! ### What lies between elements -/

def skipSpace (rest : Bytes) : Bytes := rest.dropWhile isXmlSpace

/-- What follows the first occurrence of a literal. -/
def skipPast (literal : Bytes) (rest : Bytes) : Option Bytes :=
  (RollUp.indexOfPattern literal rest).map fun index => rest.drop (index + literal.length)

/-- Comments and white space. -/
def skipMisc : Nat → Bytes → Except XmlStop Bytes
  | 0, _ => .error .outOfFuel
  | fuel + 1, rest =>
    let rest := skipSpace rest
    if (ascii "<!--").isPrefixOf rest then
      match skipPast (ascii "-->") (rest.drop 4) with
      | none => fail "unterminated comment"
      | some rest => skipMisc fuel rest
    else .ok rest

def skipDeclaration (rest : Bytes) : Except XmlStop Bytes :=
  if (ascii "<?xml").isPrefixOf rest then
    match skipPast (ascii "?>") rest with
    | none => fail "unterminated XML declaration"
    | some rest => .ok rest
  else .ok rest

def skipProlog (rest : Bytes) : Except XmlStop Bytes := do
  let rest ← skipDeclaration (skipSpace rest)
  let rest ← skipMisc (rest.length + 1) rest
  if (ascii "<!DOCTYPE").isPrefixOf rest then fail "DOCTYPE declarations are not accepted"
  else pure rest

/-! ### Tags -/

def parseName : Bytes → Except XmlStop (Bytes × Bytes)
  | [] => fail "expected an element name"
  | first :: rest =>
    if isNameStart first then
      .ok ((first :: rest).takeWhile isNameChar, (first :: rest).dropWhile isNameChar)
    else fail "expected an element name"

/-- The value of one attribute, dropped. -/
def skipAttributeValue (rest : Bytes) : Except XmlStop Bytes :=
  match skipSpace rest with
  | equals :: rest =>
    if equals = letter '=' then
      match skipSpace rest with
      | quote :: rest =>
        if quote = letter '"' ∨ quote = 0x27 then
          match splitAtFirst quote rest with
          | some (_, rest) => .ok rest
          | none => fail "unterminated attribute value"
        else fail "unquoted attribute value"
      | [] => fail "unquoted attribute value"
    else fail "malformed attribute"
  | [] => fail "malformed attribute"

/-- Attributes are consumed and discarded. Whether the tag closes itself. -/
def skipAttributes : Nat → Bytes → Except XmlStop (Bool × Bytes)
  | 0, _ => .error .outOfFuel
  | fuel + 1, rest =>
    match skipSpace rest with
    | [] => fail "unterminated start tag"
    | byte :: rest =>
      if byte = letter '>' then .ok (false, rest)
      else if (ascii "/>").isPrefixOf (byte :: rest) then .ok (true, rest.drop 1)
      else do
        let (_, rest) ← parseName (byte :: rest)
        let rest ← skipAttributeValue rest
        skipAttributes fuel rest

/-! ### Entities -/

def appendUtf8 (code : Nat) : Bytes :=
  if code < 0x80 then [code.toUInt8]
  else if code < 0x800 then [(0xC0 + code / 0x40).toUInt8, (0x80 + code % 0x40).toUInt8]
  else if code < 0x10000 then
    [(0xE0 + code / 0x1000).toUInt8, (0x80 + code / 0x40 % 0x40).toUInt8,
      (0x80 + code % 0x40).toUInt8]
  else
    [(0xF0 + code / 0x40000).toUInt8, (0x80 + code / 0x1000 % 0x40).toUInt8,
      (0x80 + code / 0x40 % 0x40).toUInt8, (0x80 + code % 0x40).toUInt8]

def digitValue (hex : Bool) (digit : UInt8) : Option Nat :=
  if hex then (hexValue digit).map UInt8.toNat
  else if isDigit digit then some (digit - 0x30).toNat
  else none

/-- The loop over the digits of a character reference. -/
def characterCode (hex : Bool) : Nat → Bytes → Except XmlStop Nat
  | code, [] => .ok code
  | code, digit :: digits =>
    match digitValue hex digit with
    | none => fail "malformed character reference"
    | some value =>
      let code := code * (if hex then 16 else 10) + value
      if 0x10FFFF < code then fail "character reference out of range"
      else characterCode hex code digits

def characterReference (rest : Bytes) : Except XmlStop Bytes :=
  let hex := match rest with
    | first :: _ => decide (first = letter 'x' ∨ first = letter 'X')
    | [] => false
  let digits := if hex then rest.drop 1 else rest
  if digits = [] then fail "malformed character reference"
  else do
    let code ← characterCode hex 0 digits
    pure (appendUtf8 code)

/-- The five predefined entities and character references. -/
def entityText (name : Bytes) : Except XmlStop Bytes :=
  if name = ascii "lt" then .ok (ascii "<")
  else if name = ascii "gt" then .ok (ascii ">")
  else if name = ascii "amp" then .ok (ascii "&")
  else if name = ascii "quot" then .ok (ascii "\"")
  else if name = ascii "apos" then .ok (ascii "\x27")
  else
    match name with
    | [] => fail "unknown entity reference"
    | first :: rest =>
      if first = letter '#' then characterReference rest else fail "unknown entity reference"

/-- The entity at an ampersand, and what follows its semicolon. -/
def appendEntity (rest : Bytes) : Except XmlStop (Bytes × Bytes) :=
  match splitAtFirst (letter ';') rest with
  | none => fail "unterminated entity reference"
  | some (front, rest) =>
    if 12 < front.length then fail "unterminated entity reference"
    else do
      let text ← entityText (front.drop 1)
      pure (text, rest)

/-! ### Elements -/

/-- An element at the start of the input: the element, how many elements were met so far,
and what follows it. -/
abbrev ElementParser := Nat → Bytes → Except XmlStop (XmlNode × Nat × Bytes)

/-- The end of an element, from its name in the closing tag on. -/
def closeElement (name text : Bytes) (children : List XmlNode) : ElementParser :=
  fun elements rest => do
    let (closing, rest) ← parseName rest
    if closing = name then
      match skipSpace rest with
      | byte :: rest =>
        if byte = letter '>' then
          pure (.element name (if children.isEmpty then text else []) children, elements, rest)
        else fail "malformed closing tag"
      | [] => fail "malformed closing tag"
    else fail "mismatched closing tag"

/-- The loop over what an element holds. -/
def parseContent (parseChild : ElementParser) (name : Bytes) :
    Nat → Bytes → List XmlNode → ElementParser
  | 0, _, _, _, _ => .error .outOfFuel
  | _ + 1, _, _, _, [] => fail "unterminated element"
  | fuel + 1, text, children, elements, byte :: rest =>
    if byte = letter '<' then
      if (ascii "/").isPrefixOf rest then
        closeElement name text children elements (rest.drop 1)
      else if (ascii "!--").isPrefixOf rest then
        match skipPast (ascii "-->") (rest.drop 3) with
        | none => fail "unterminated comment"
        | some rest => parseContent parseChild name fuel text children elements rest
      else if (ascii "![CDATA[").isPrefixOf rest then
        match RollUp.indexOfPattern (ascii "]]>") (rest.drop 8) with
        | none => fail "unterminated CDATA section"
        | some index =>
          parseContent parseChild name fuel (text ++ (rest.drop 8).take index) children elements
            ((rest.drop 8).drop (index + 3))
      else if (ascii "?").isPrefixOf rest then fail "processing instructions are not accepted"
      else do
        let (child, elements, rest) ← parseChild elements (byte :: rest)
        parseContent parseChild name fuel text (children ++ [child]) elements rest
    else if byte = letter '&' then do
      let (entity, rest) ← appendEntity (byte :: rest)
      parseContent parseChild name fuel (text ++ entity) children elements rest
    else parseContent parseChild name fuel (text ++ [byte]) children elements rest

/-- An element with `levels` levels of depth left for it. -/
def parseElement : Nat → ElementParser
  | 0, _, _ => fail "document nested too deeply"
  | levels + 1, elements, rest =>
    if kMaxXmlElements < elements + 1 then fail "document has too many elements"
    else
      match rest with
      | [] => fail "expected an element"
      | byte :: rest =>
        if byte = letter '<' then do
          let (name, rest) ← parseName rest
          let (closed, rest) ← skipAttributes (rest.length + 1) rest
          if closed then pure (.element name [] [], elements + 1, rest)
          else parseContent (parseElement levels) name (rest.length + 1) [] [] (elements + 1) rest
        else fail "expected an element"

def parseDocument (document : Bytes) : Except XmlStop XmlNode := do
  let rest ← skipProlog document
  let (root, _, rest) ← parseElement kMaxXmlDepth 0 rest
  let rest ← skipMisc (rest.length + 1) rest
  if rest = [] then pure root else fail "trailing content after the root element"

/-- Without the white space around it. -/
def trimmed (text : Bytes) : Bytes := (text.dropWhile isXmlSpace).rdropWhile isXmlSpace

end Xml

open Xml

def parseXml (document : Bytes) : Except XmlStop XmlNode :=
  if kMaxXmlBytes < document.length then fail "document is too large"
  else if trimmed document = [] then fail "document is empty"
  else parseDocument document

namespace XmlNode

/-- The first child of a name. -/
def child? (node : XmlNode) (childName : Bytes) : Option XmlNode :=
  node.children.find? fun child => child.name = childName

/-- The trimmed text of the first child of a name, or nothing. -/
def childText (node : XmlNode) (childName : Bytes) : Bytes :=
  match node.child? childName with
  | none => []
  | some child => trimmed child.text

def childrenNamed (node : XmlNode) (childName : Bytes) : List XmlNode :=
  node.children.filter fun child => child.name = childName

end XmlNode

/-! ### Writing -/

def escapeByte (byte : UInt8) : Bytes :=
  if byte = letter '&' then ascii "&amp;"
  else if byte = letter '<' then ascii "&lt;"
  else if byte = letter '>' then ascii "&gt;"
  else if byte = letter '"' then ascii "&quot;"
  else if byte = 0x27 then ascii "&apos;"
  else if 0x20 ≤ byte ∨ byte = 0x09 ∨ byte = 0x0A ∨ byte = 0x0D then [byte]
  else []

/-- What XML cannot represent is dropped. -/
def xmlEscape (text : Bytes) : Bytes := text.flatMap escapeByte

structure XmlWriter where
  out : Bytes
  stack : List Bytes

namespace XmlWriter

def kS3Namespace : Bytes := ascii "http://s3.amazonaws.com/doc/2006-03-01/"

/-- The declaration, and `root` opened. -/
def start (root xmlns : Bytes) : XmlWriter where
  out := ascii "<?xml version=\"1.0\" encoding=\"UTF-8\"?>" ++ [0x0A] ++ ascii "<" ++ root ++
    (if xmlns = [] then [] else ascii " xmlns=\"" ++ xmlns ++ ascii "\"") ++ ascii ">" ++ [0x0A]
  stack := [root]

def indent (writer : XmlWriter) : XmlWriter :=
  { writer with out := writer.out ++ List.replicate (writer.stack.length * 2) 0x20 }

def element (writer : XmlWriter) (name text : Bytes) : XmlWriter :=
  let writer := writer.indent
  { writer with
    out := writer.out ++ ascii "<" ++ name ++ ascii ">" ++ xmlEscape text ++ ascii "</" ++ name ++
      ascii ">" ++ [0x0A] }

/-- `open`. -/
def openElement (writer : XmlWriter) (name : Bytes) : XmlWriter :=
  let writer := writer.indent
  { out := writer.out ++ ascii "<" ++ name ++ ascii ">" ++ [0x0A], stack := name :: writer.stack }

/-- The root is closed by `finish`. -/
def close (writer : XmlWriter) : XmlWriter :=
  match writer.stack with
  | name :: parent :: stack =>
    let writer := XmlWriter.indent { writer with stack := parent :: stack }
    { writer with out := writer.out ++ ascii "</" ++ name ++ ascii ">" ++ [0x0A] }
  | _ => writer

/-- Close every open element but the root, one for each name above it. -/
def closeAll (writer : XmlWriter) : List Bytes → XmlWriter
  | _ :: rest => closeAll writer.close rest
  | [] => writer

def finish (writer : XmlWriter) : Bytes :=
  let writer := closeAll writer writer.stack.tail
  match writer.stack with
  | root :: _ => writer.out ++ ascii "</" ++ root ++ ascii ">" ++ [0x0A]
  | [] => writer.out

end XmlWriter

end MonoBucket.S3
