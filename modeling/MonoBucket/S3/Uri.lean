/-
URIs and query strings

The two things a signature covers are the path and the query as they arrived, so
what matters here is the order of the canonical query string and what decoding
does with text that is not an escape.
-/

import MonoBucket.S3.HeaderNumber

namespace MonoBucket.S3

/-! ### Text -/

def toLowerText (text : Bytes) : Bytes := text.map toLower

/-- The text up to the first separator, and what follows it. -/
def splitAtFirst (separator : UInt8) (text : Bytes) : Option (Bytes × Bytes) :=
  match text.dropWhile (· ≠ separator) with
  | [] => none
  | _ :: rest => some (text.takeWhile (· ≠ separator), rest)

/-- Append an item, with the separator in front unless nothing came before. -/
def joined (separator : UInt8) (items : List Bytes) : Bytes :=
  items.foldl (fun out item => (if out = [] then [] else out ++ [separator]) ++ item) []

/-! ### Escapes -/

def isUnreserved (byte : UInt8) : Bool :=
  (0x41 ≤ byte ∧ byte ≤ 0x5A) ∨ (0x61 ≤ byte ∧ byte ≤ 0x7A) ∨ isDigit byte ∨
    byte = letter '-' ∨ byte = letter '_' ∨ byte = letter '.' ∨ byte = letter '~'

/-- A digit of `0123456789ABCDEF`. -/
def upperHexDigit (value : UInt8) : UInt8 :=
  if value < 10 then 0x30 + value else 0x41 + (value - 10)

def hexValue (byte : UInt8) : Option UInt8 :=
  if isDigit byte then some (byte - 0x30)
  else if 0x61 ≤ byte ∧ byte ≤ 0x66 then some (byte - 0x61 + 10)
  else if 0x41 ≤ byte ∧ byte ≤ 0x46 then some (byte - 0x41 + 10)
  else none

def uriEncode (text : Bytes) (encodeSlash : Bool) : Bytes :=
  text.flatMap fun byte =>
    if isUnreserved byte ∨ (byte = letter '/' ∧ ¬ encodeSlash) then [byte]
    else [letter '%', upperHexDigit (byte >>> 4), upperHexDigit (byte &&& 0x0F)]

/-- A percent sign that two hex digits do not follow stands for itself. -/
def uriDecode : Bytes → Bytes
  | [] => []
  | byte :: high :: low :: rest =>
    match decide (byte = letter '%'), hexValue high, hexValue low with
    | true, some high, some low => ((high <<< 4) ||| low) :: uriDecode rest
    | _, _, _ => byte :: uriDecode (high :: low :: rest)
  | byte :: rest => byte :: uriDecode rest

/-! ### Query strings -/

structure QueryParam where
  name : Bytes
  value : Bytes := []
  hasValue : Bool := false
  deriving DecidableEq

def parseField (field : Bytes) : QueryParam :=
  match splitAtFirst (letter '=') field with
  | none => { name := uriDecode field }
  | some (name, value) => { name := uriDecode name, value := uriDecode value, hasValue := true }

def parseQuery (rawQuery : Bytes) : List QueryParam :=
  let fields := if rawQuery.head? = some (letter '?') then rawQuery.tail else rawQuery
  ((fields.splitOn (letter '&')).filter (· ≠ [])).map parseField

/-- Sorted by encoded name, then by encoded value. -/
def canonicalQueryString (params : List QueryParam) (omitted : Bytes) : Bytes :=
  let encoded := (params.filter fun param => omitted = [] ∨ param.name ≠ omitted).map fun param =>
    (uriEncode param.name true, uriEncode param.value true)
  let sorted := encoded.insertionSort fun first second =>
    first.1 < second.1 ∨ (first.1 = second.1 ∧ first.2 ≤ second.2)
  joined (letter '&') (sorted.map fun item => item.1 ++ [letter '='] ++ item.2)

def findQuery (params : List QueryParam) (name : Bytes) : Option Bytes :=
  (params.find? fun param => param.name = name).map QueryParam.value

example : uriDecode (ascii "a%2Fb%zz%4") = ascii "a/b%zz%4" := by decide +kernel

example : canonicalQueryString (parseQuery (ascii "?b=2&a&b=1")) [] = ascii "a=&b=1&b=2" := by
  decide +kernel

end MonoBucket.S3
