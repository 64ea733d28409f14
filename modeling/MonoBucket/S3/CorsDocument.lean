/-
The CORS configuration as a document

`renderCorsConfiguration` writes the rules a bucket keeps, `parseCorsConfiguration` reads the
rules of a document and puts them through `validateCorsRules`. The writer drops what XML
cannot carry; the reader keeps the text of every element as it stands but the rule's name,
which it trims.
-/

import MonoBucket.S3.Cors
import MonoBucket.S3.HeaderNumber
import MonoBucket.S3.XmlBounds
import MonoBucket.S3.XmlRoundTrip
import MonoBucket.Storage.MetadataStore

namespace MonoBucket.S3

open Xml

/-! ### Writing -/

/-- `elementIfSet`. -/
def elementIfSet (writer : XmlWriter) (name text : Bytes) : XmlWriter :=
  if text = [] then writer else writer.element name text

/-- An element for each text of a list. -/
def writeTexts (writer : XmlWriter) (name : Bytes) (texts : Sized Text) : XmlWriter :=
  texts.items.foldl (fun writer text => writer.element name text.items) writer

def writeCorsRule (writer : XmlWriter) (rule : CorsRule) : XmlWriter :=
  let writer := writer.openElement (ascii "CORSRule")
  let writer := elementIfSet writer (ascii "ID") rule.id.items
  let writer := writeTexts writer (ascii "AllowedOrigin") rule.allowedOrigins
  let writer := writeTexts writer (ascii "AllowedMethod") rule.allowedMethods
  let writer := writeTexts writer (ascii "AllowedHeader") rule.allowedHeaders
  let writer := writeTexts writer (ascii "ExposeHeader") rule.exposeHeaders
  let writer :=
    if 0 ≤ rule.maxAgeSeconds then
      writer.element (ascii "MaxAgeSeconds") (decimal rule.maxAgeSeconds.toInt.toNat)
    else writer
  writer.close

def renderCorsConfiguration (rules : List CorsRule) : Bytes :=
  (rules.foldl writeCorsRule
    (XmlWriter.start (ascii "CORSConfiguration") XmlWriter.kS3Namespace)).finish

/-! ### Reading -/

/-- What `std::stoll` throws. -/
inductive StollError
  | invalidArgument
  | outOfRange
  deriving DecidableEq

/-- `std::stoll` in base ten. -/
def stoll (text : Bytes) : Except StollError Int :=
  let (negative, rest) := splitSign (text.dropWhile isSpace)
  let digits := rest.takeWhile isDigit
  let value : Int := if negative then -(digitsValue digits : Int) else digitsValue digits
  if digits = [] then .error .invalidArgument
  else if value < -2 ^ 63 ∨ 2 ^ 63 ≤ value then .error .outOfRange
  else .ok value

def maxAgeOf (text : Bytes) : Except S3Exception Int32 :=
  match stoll text with
  | .error .invalidArgument => malformedXml (ascii "MaxAgeSeconds must be a number.")
  | .error .outOfRange => malformedXml (ascii "MaxAgeSeconds is out of range.")
  | .ok value =>
    if value < 0 ∨ 86400 < value then
      malformedXml (ascii "MaxAgeSeconds must be between 0 and 86400.")
    else .ok (Int32.ofInt value)

/-- The items in a container. A document has fewer parts than would not fit. -/
def sized {α : Type} (items : List α) : Sized α :=
  if h : items.length < 2 ^ 64 then ⟨items, h⟩ else .empty

/-- The texts of the children of a name. -/
def textsOf (node : XmlNode) (childName : Bytes) : Sized Text :=
  sized ((node.childrenNamed childName).map fun child => sized child.text)

def maxAgeOfRule (node : XmlNode) : Except S3Exception Int32 :=
  match node.child? (ascii "MaxAgeSeconds") with
  | none => .ok (-1)
  | some child => maxAgeOf child.text

def corsRuleOf (node : XmlNode) : Except S3Exception CorsRule := do
  let maxAgeSeconds ← maxAgeOfRule node
  pure
    { id := sized (node.childText (ascii "ID"))
      allowedOrigins := textsOf node (ascii "AllowedOrigin")
      allowedMethods := textsOf node (ascii "AllowedMethod")
      allowedHeaders := textsOf node (ascii "AllowedHeader")
      exposeHeaders := textsOf node (ascii "ExposeHeader")
      maxAgeSeconds := maxAgeSeconds }

/-- The rules of a document, before they are checked. -/
def corsRulesOf (root : XmlNode) : Except S3Exception (List CorsRule) :=
  if root.name = ascii "CORSConfiguration" then
    (root.childrenNamed (ascii "CORSRule")).mapM corsRuleOf
  else malformedXml (ascii "The root element must be <CORSConfiguration>.")

def readCorsRules (root : XmlNode) : Except S3Exception (Sized CorsRule) := do
  let rules ← corsRulesOf root
  if rules = [] then
    malformedXml (ascii "A CORS configuration must contain at least one <CORSRule>.")
  else validateCorsRules (sized rules)

def parseCorsConfiguration (document : Bytes) : Except S3Exception (Sized CorsRule) :=
  if document = [] then malformedXml (ascii "The CORS configuration is empty.")
  else
    match parseXml document with
    | .error (.parseError what) => malformedXml what
    | .error .outOfFuel => malformedXml []
    | .ok root => readCorsRules root

end MonoBucket.S3
