/-
Where a checksum is asked for

What `x-amz-checksum-*`, `x-amz-trailer` and `x-amz-sdk-checksum-algorithm` of a request
come to: one algorithm, and the value it should yield or the trailing header that will
bring it. A value header under any algorithm decides before the trailer is looked at, and an
empty one is passed over.
-/

import MonoBucket.S3.ResponseHeaders
import MonoBucket.Storage.ChecksumComputer

namespace MonoBucket.S3

/-! ### Base64 -/

def base64Value (byte : UInt8) : Option UInt32 :=
  if letter 'A' ≤ byte ∧ byte ≤ letter 'Z' then some (byte - letter 'A').toUInt32
  else if letter 'a' ≤ byte ∧ byte ≤ letter 'z' then some ((byte - letter 'a').toUInt32 + 26)
  else if letter '0' ≤ byte ∧ byte ≤ letter '9' then some ((byte - letter '0').toUInt32 + 52)
  else if byte = letter '+' then some 62
  else if byte = letter '/' then some 63
  else none

/-- Four values as three bytes, or so many fewer as there was padding. -/
def base64Triple (first second third fourth : UInt32) (padding : Nat) : Bytes :=
  let triple := (first <<< 18) ||| (second <<< 12) ||| (third <<< 6) ||| fourth
  [(triple >>> 16).toUInt8, (triple >>> 8).toUInt8, triple.toUInt8].take (3 - padding)

/-- The groups of four; padding is legal at the end of the last one only. -/
def base64Groups : Bytes → Option Bytes
  | [] => some []
  | [first, second, third, fourth] => do
    let first ← base64Value first
    let second ← base64Value second
    if third = letter '=' then
      if fourth = letter '=' then pure (base64Triple first second 0 0 2) else none
    else
      let third ← base64Value third
      if fourth = letter '=' then pure (base64Triple first second third 0 1)
      else
        let fourth ← base64Value fourth
        pure (base64Triple first second third fourth 0)
  | first :: second :: third :: fourth :: rest => do
    let first ← base64Value first
    let second ← base64Value second
    let third ← base64Value third
    let fourth ← base64Value fourth
    let others ← base64Groups rest
    pure (base64Triple first second third fourth 0 ++ others)
  | _ => none

def base64Decode (text : Bytes) : Option Bytes :=
  if text = [] ∨ text.length % 4 ≠ 0 then none else base64Groups text

/-! ### Checksums on the wire -/

def kChecksumPrefix : Bytes := ascii "x-amz-checksum-"

/-- Suffixes that name something other than a value. -/
def kReservedSuffixes : List Bytes := [ascii "algorithm", ascii "mode", ascii "type"]

def checksumHeaderName (algorithm : ChecksumAlgorithm) : Bytes :=
  kChecksumPrefix ++ toLowerText (checksumName algorithm)

/-- `refuse`. -/
def refuseChecksum {α : Type} (message : Bytes) : Except S3Exception α := .error ⟨.invalidRequest, message⟩

/-- A header that is for a checksum's value, whether or not it can be computed. -/
def namesChecksum (name : Bytes) : Bool :=
  kChecksumPrefix.isPrefixOf name ∧ kChecksumPrefix.length < name.length ∧
    name.drop kChecksumPrefix.length ∉ kReservedSuffixes

/-- `algorithmFromHeaderName`, as it is called: an unknown algorithm is refused. -/
def algorithmFromHeaderName (name : Bytes) : Except S3Exception (Option ChecksumAlgorithm) :=
  if namesChecksum name then
    match checksumAlgorithmFromString (name.drop kChecksumPrefix.length) with
    | some algorithm => .ok (some algorithm)
    | none =>
      refuseChecksum (ascii "This request carries a " ++ name ++
        ascii " header. MonoBucket verifies CRC32, CRC32C, CRC64NVME, SHA1 and SHA256, and " ++
        ascii "refuses a checksum it cannot check rather than storing the object as though it had.")
  else .ok none

/-- `from_chars` of a whole text as an unsigned 32-bit number that is not zero. -/
def partCount (text : Bytes) : Option UInt32 :=
  if text ≠ [] ∧ text.all isDigit ∧ digitsValue text ≠ 0 ∧ digitsValue text < 2 ^ 32 then
    some (digitsValue text).toUInt32
  else none

/-- A checksum's raw value and the number behind its last dash, zero without one. -/
def decodeChecksum (algorithm : ChecksumAlgorithm) (text : Bytes) : Option (Bytes × UInt32) := do
  if text = [] then none
  let (value, parts) ←
    if letter '-' ∈ text then
      let count := (text.reverse.takeWhile (· ≠ letter '-')).reverse
      let parts ← partCount count
      pure (text.take (text.length - count.length - 1), parts)
    else pure (text, 0)
  let raw ← base64Decode value
  if raw.length = checksumLength algorithm then pure (raw, parts) else none

def verifyChecksum (algorithm : ChecksumAlgorithm) (expected actualRaw : Bytes) :
    Except S3Exception Unit :=
  match decodeChecksum algorithm expected with
  | some (value, 0) =>
    if secureEquals value actualRaw then .ok ()
    else
      .error ⟨.badDigest, ascii "The " ++ checksumName algorithm ++
        ascii " checksum you specified did not match what was received."⟩
  | _ =>
    refuseChecksum (ascii "The " ++ checksumHeaderName algorithm ++ ascii " value is not base64 of a " ++
      checksumName algorithm ++ ascii " digest.")

/-! ### What a request asks to have verified -/

structure ChecksumRequest where
  algorithm : Option ChecksumAlgorithm := none
  /-- Base64 as the client wrote it, empty when it has not arrived yet. -/
  expected : Bytes := []
  inTrailer : Bool := false
  trailerName : Bytes := []
  deriving DecidableEq

/-- The checksum-bearing headers of a request, by name. -/
abbrev ChecksumHeaders := OrderedMap Bytes Bytes

def bearsChecksum (name : Bytes) : Bool :=
  kChecksumPrefix.isPrefixOf name ∨ name = ascii "x-amz-trailer" ∨
    name = ascii "x-amz-sdk-checksum-algorithm"

/-- `checksumHeaders`. -/
def checksumHeadersOf (http : HttpHeaders) : ChecksumHeaders :=
  OrderedMap.empty.emplaceAll
    ((http.map fun header => (toLowerText header.1, header.2)).filter fun header =>
      bearsChecksum header.1)

/-- The loop over the value headers: the only one that is not empty. -/
def chooseValue : List Header → ChecksumRequest → Except S3Exception ChecksumRequest
  | [], wanted => .ok wanted
  | (name, value) :: rest, wanted => do
    match ← algorithmFromHeaderName name with
    | none => chooseValue rest wanted
    | some algorithm =>
      if value = [] then chooseValue rest wanted
      else
        match wanted.algorithm with
        | some other =>
          refuseChecksum (ascii "This request carries checksums under both " ++ checksumName other ++
            ascii " and " ++ checksumName algorithm ++ ascii ". Send exactly one.")
        | none => chooseValue rest { wanted with algorithm := some algorithm, expected := value }

/-- The trailing header that `x-amz-trailer` announces. -/
def announcedTrailer (announced : Bytes) : Except S3Exception ChecksumRequest :=
  let trailer := toLowerText announced
  if letter ',' ∈ trailer then
    refuseChecksum (ascii "x-amz-trailer names more than one trailing header.")
  else do
    match ← algorithmFromHeaderName trailer with
    | none =>
      refuseChecksum (ascii "x-amz-trailer names \x27" ++ trailer ++
        ascii "\x27, which is not a checksum this build understands.")
    | some algorithm =>
      pure { algorithm := some algorithm, inTrailer := true, trailerName := trailer }

/-- The algorithm on its own, from the first of these headers that names one. -/
def namedAlgorithm (headers : ChecksumHeaders) : List Bytes → Except S3Exception ChecksumRequest
  | [] => .ok {}
  | name :: rest =>
    match headers.find? name with
    | none | some [] => namedAlgorithm headers rest
    | some value =>
      match checksumAlgorithmFromString value with
      | some algorithm => .ok { algorithm := some algorithm }
      | none =>
        refuseChecksum (name ++ ascii " names \x27" ++ value ++
          ascii "\x27, which is not an algorithm MonoBucket computes.")

def resolveChecksumRequest (headers : ChecksumHeaders) : Except S3Exception ChecksumRequest := do
  let wanted ← chooseValue headers.entries {}
  if wanted.algorithm.isSome then pure wanted
  else
    match headers.find? (ascii "x-amz-trailer") with
    | some announced => announcedTrailer announced
    | none =>
      namedAlgorithm headers [ascii "x-amz-sdk-checksum-algorithm", ascii "x-amz-checksum-algorithm"]

end MonoBucket.S3
