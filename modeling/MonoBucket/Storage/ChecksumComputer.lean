/-
Checksums computed as the payload goes past

The `x-amz-checksum-*` algorithms, fed a chunk at a time. The CRCs are table driven and
reflected; the two hashes are the crypto library's, which digests all it has been fed.
However a payload is cut into chunks, its checksum is the same.
-/

import MonoBucket.Storage.Records

namespace MonoBucket

/-- The hashes of the crypto library, raw, and MD5 in lower-case hex. -/
structure Evp where
  sha1 : Bytes → Text
  sha256 : Bytes → Text
  md5Hex : Bytes → Bytes

/-! ### CRCs -/

/-- One table entry: a byte shifted out bit by bit. -/
def crcShift32 (polynomial : UInt32) : Nat → UInt32 → UInt32
  | 0, value => value
  | bits + 1, value =>
    crcShift32 polynomial bits ((value >>> 1) ^^^ (if value &&& 1 ≠ 0 then polynomial else 0))

def crcShift64 (polynomial : UInt64) : Nat → UInt64 → UInt64
  | 0, value => value
  | bits + 1, value =>
    crcShift64 polynomial bits ((value >>> 1) ^^^ (if value &&& 1 ≠ 0 then polynomial else 0))

/-- `crcUpdate`, the table entry worked out where it is looked up. -/
def crcUpdate32 (polynomial state : UInt32) (data : Bytes) : UInt32 :=
  data.foldl (fun state byte =>
    crcShift32 polynomial 8 ((state ^^^ byte.toUInt32) &&& 0xFF) ^^^ (state >>> 8)) state

def crcUpdate64 (polynomial state : UInt64) (data : Bytes) : UInt64 :=
  data.foldl (fun state byte =>
    crcShift64 polynomial 8 ((state ^^^ byte.toUInt64) &&& 0xFF) ^^^ (state >>> 8)) state

def bigEndian32 (value : UInt32) : Text where
  items := [(value >>> 24).toUInt8, (value >>> 16).toUInt8, (value >>> 8).toUInt8, value.toUInt8]
  fits := by simp

def bigEndian64 (value : UInt64) : Text where
  items := (bigEndian32 (value >>> 32).toUInt32).items ++ (bigEndian32 value.toUInt32).items
  fits := by simp [bigEndian32]

def kCrc32Polynomial : UInt32 := 0xEDB88320

def kCrc32cPolynomial : UInt32 := 0x82F63B78

def kCrc64NvmePolynomial : UInt64 := 0x9A6C9329AC4BC9B5

/-! ### The computer -/

/-- One of these is live, decided by the algorithm; a hash is what it has been fed. -/
structure ChecksumComputer where
  algorithm : ChecksumAlgorithm
  crc32 : UInt32 := 0xFFFFFFFF
  crc64 : UInt64 := 0xFFFFFFFFFFFFFFFF
  hash : Bytes := []

namespace ChecksumComputer

def update (computer : ChecksumComputer) (data : Bytes) : ChecksumComputer :=
  if data = [] then computer
  else
    match computer.algorithm with
    | .crc32 => { computer with crc32 := crcUpdate32 kCrc32Polynomial computer.crc32 data }
    | .crc32c => { computer with crc32 := crcUpdate32 kCrc32cPolynomial computer.crc32 data }
    | .crc64Nvme => { computer with crc64 := crcUpdate64 kCrc64NvmePolynomial computer.crc64 data }
    | .sha1 | .sha256 => { computer with hash := computer.hash ++ data }

def finish (evp : Evp) (computer : ChecksumComputer) : Text :=
  match computer.algorithm with
  | .crc32 | .crc32c => bigEndian32 (computer.crc32 ^^^ 0xFFFFFFFF)
  | .crc64Nvme => bigEndian64 (computer.crc64 ^^^ 0xFFFFFFFFFFFFFFFF)
  | .sha1 => evp.sha1 computer.hash
  | .sha256 => evp.sha256 computer.hash

/-- Fed two chunks or both at once, a computer is the same. -/
theorem update_append (computer : ChecksumComputer) (first second : Bytes) :
    computer.update (first ++ second) = (computer.update first).update second := by
  cases first with
  | nil => rfl
  | cons byte first =>
      cases second with
      | nil => rw [List.append_nil]; rfl
      | cons other second =>
          cases computer with
          | mk algorithm crc32 crc64 hash =>
              cases algorithm <;>
                simp [update, crcUpdate32, crcUpdate64, List.foldl_append]

theorem foldl_update (computer : ChecksumComputer) (chunks : List Bytes) :
    chunks.foldl update computer = computer.update chunks.flatten := by
  induction chunks generalizing computer with
  | nil => rfl
  | cons chunk chunks ih => rw [List.foldl_cons, ih, List.flatten_cons, update_append]

end ChecksumComputer

/-- One-shot. -/
def checksumOf (evp : Evp) (algorithm : ChecksumAlgorithm) (data : Bytes) : Text :=
  (ChecksumComputer.update { algorithm := algorithm } data).finish evp

def checksumLength : ChecksumAlgorithm → Nat
  | .crc32 | .crc32c => 4
  | .crc64Nvme => 8
  | .sha1 => 20
  | .sha256 => 32

/-- A checksum's letters in upper case, as the source names it. -/
def checksumAlgorithmFromString (name : Bytes) : Option ChecksumAlgorithm :=
  let upper := name.map toUpper
  if upper = ascii "CRC32" then some .crc32
  else if upper = ascii "CRC32C" then some .crc32c
  else if upper = ascii "CRC64NVME" then some .crc64Nvme
  else if upper = ascii "SHA1" then some .sha1
  else if upper = ascii "SHA256" then some .sha256
  else none

/-- The check values of the three CRCs. -/
example : ∀ evp : Evp, evp = ⟨fun _ => .empty, fun _ => .empty, id⟩ →
    (checksumOf evp .crc32 (ascii "123456789")).items = [0xCB, 0xF4, 0x39, 0x26] ∧
      (checksumOf evp .crc32c (ascii "123456789")).items = [0xE3, 0x06, 0x92, 0x83] ∧
        (checksumOf evp .crc64Nvme (ascii "123456789")).items =
          [0xAE, 0x8B, 0x14, 0x86, 0x0A, 0x79, 0x98, 0x88] := by
  rintro evp rfl
  decide +kernel

end MonoBucket
