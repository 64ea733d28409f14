/-
Row keys

Every record type has its own tag byte, and the variable-length components of a
key are separated by NUL. A prefix of the key space is scanned between the
prefix and `upperBound` of it, and the keys in that interval are exactly the
ones that start with the prefix.

A part's number is four bytes at the end of its key, so the key determines the
upload and the number whatever bytes the upload id holds.
-/

import MonoBucket.Storage.Bytes

namespace MonoBucket.Keys

def separator : UInt8 := 0

/-! ### Type tags -/

/-- `b<name>` -/
def kBucket : UInt8 := 'b'.toNat.toUInt8
/-- `o<bucket>\0<key>` -/
def kObject : UInt8 := 'o'.toNat.toUInt8
/-- `u<bucket>\0<key>\0<uploadId>` -/
def kUploadByKey : UInt8 := 'u'.toNat.toUInt8
/-- `U<uploadId>` -/
def kUploadById : UInt8 := 'U'.toNat.toUInt8
/-- `p<uploadId>\0<be32 partNumber>` -/
def kPart : UInt8 := 'p'.toNat.toUInt8
/-- `x<blobId>` -/
def kOrphan : UInt8 := 'x'.toNat.toUInt8
/-- `m<name>` -/
def kMeta : UInt8 := 'm'.toNat.toUInt8
/-- `k<accessKeyId>` -/
def kAccessKey : UInt8 := 'k'.toNat.toUInt8
/-- `a<username>` -/
def kUser : UInt8 := 'a'.toNat.toUInt8
/-- `A<be64 sequence>` -/
def kAudit : UInt8 := 'A'.toNat.toUInt8

/-! ### Builders -/

def tagged (tag : UInt8) (rest : Bytes) : Bytes := tag :: rest

/-- `appendBigEndian32`, as the bytes it appends. -/
def bigEndian32 (value : UInt32) : Bytes :=
  [((value >>> 24) &&& 0xFF).toUInt8, ((value >>> 16) &&& 0xFF).toUInt8,
    ((value >>> 8) &&& 0xFF).toUInt8, (value &&& 0xFF).toUInt8]

/-- `appendBigEndian64`, as the bytes it appends. -/
def bigEndian64 (value : UInt64) : Bytes :=
  ([56, 48, 40, 32, 24, 16, 8, 0] : List UInt64).map fun shift =>
    ((value >>> shift) &&& 0xFF).toUInt8

def bucket (name : Bytes) : Bytes := tagged kBucket name

def bucketPrefix : Bytes := [kBucket]

def objectPrefix (bucketName : Bytes) : Bytes := kObject :: (bucketName ++ [separator])

def object (bucketName key : Bytes) : Bytes := objectPrefix bucketName ++ key

def uploadByKeyPrefix (bucketName : Bytes) : Bytes := kUploadByKey :: (bucketName ++ [separator])

def uploadByKey (bucketName key uploadId : Bytes) : Bytes :=
  uploadByKeyPrefix bucketName ++ key ++ [separator] ++ uploadId

def uploadById (uploadId : Bytes) : Bytes := tagged kUploadById uploadId

def partPrefix (uploadId : Bytes) : Bytes := kPart :: (uploadId ++ [separator])

def part (uploadId : Bytes) (partNumber : UInt32) : Bytes :=
  partPrefix uploadId ++ bigEndian32 partNumber

def orphan (blobId : Bytes) : Bytes := tagged kOrphan blobId

def orphanPrefix : Bytes := [kOrphan]

def user (username : Bytes) : Bytes := tagged kUser username

def userPrefix : Bytes := [kUser]

def audit (sequence : UInt64) : Bytes := kAudit :: bigEndian64 sequence

/-- `keys::meta`. -/
def metaRow (name : Bytes) : Bytes := tagged kMeta name

def accessKey (accessKeyId : Bytes) : Bytes := tagged kAccessKey accessKeyId

def accessKeyPrefix : Bytes := [kAccessKey]

/-! ### Parsers -/

/-- `stored.starts_with(front)` and the part of `stored` behind it. -/
def afterPrefix (front stored : Bytes) : Option Bytes :=
  if front <+: stored then some (stored.drop front.length) else none

def objectKey (stored bucketName : Bytes) : Option Bytes := afterPrefix (objectPrefix bucketName) stored

def partNumber (stored uploadId : Bytes) : Option UInt32 :=
  match afterPrefix (partPrefix uploadId) stored with
  | some [first, second, third, fourth] =>
    some ((first.toUInt32 <<< 24) ||| (second.toUInt32 <<< 16) ||| (third.toUInt32 <<< 8) |||
      fourth.toUInt32)
  | _ => none

def auditSequence (stored : Bytes) : Option UInt64 :=
  match stored with
  | tag :: digits =>
    if digits.length = 8 ∧ tag = kAudit then
      some (digits.foldl (fun value byte => (value <<< 8) ||| byte.toUInt64) 0)
    else none
  | [] => none

/-- The exclusive upper bound of the keys under a prefix, read from its end: a
trailing 0xFF has no successor and is dropped. -/
def upperBoundReversed : Bytes → Option Bytes
  | [] => none
  | last :: front =>
    if last = 0xFF then upperBoundReversed front else some (((last + 1) :: front).reverse)

def upperBound (front : Bytes) : Option Bytes := upperBoundReversed front.reverse

/-! ### Prefix scans -/

@[simp]
theorem upperBound_nil : upperBound [] = none := rfl

theorem upperBound_concat (front : Bytes) (last : UInt8) :
    upperBound (front ++ [last]) =
      if last = 0xFF then upperBound front else some (front ++ [last + 1]) := by
  simp [upperBound, upperBoundReversed]

/-- The keys that start with a prefix are those at or above it and below its
upper bound. -/
theorem isPrefix_iff_upperBound (front stored : Bytes) :
    front <+: stored ↔ front ≤ stored ∧ ∀ bound ∈ upperBound front, stored < bound := by
  induction front using List.reverseRecOn generalizing stored with
  | nil => simp [List.nil_le_list]
  | append_singleton front last ih =>
      rw [upperBound_concat]
      by_cases hlast : last = 0xFF
      · rw [if_pos hlast, List.concat_isPrefix_iff_of_isTop (hlast ▸ UInt8.ff_isTop), ih]
        constructor
        · rintro ⟨⟨-, hbound⟩, hle⟩
          exact ⟨hle, hbound⟩
        · rintro ⟨hle, hbound⟩
          exact ⟨⟨(List.le_of_isPrefix (List.prefix_append front [last])).trans hle, hbound⟩, hle⟩
      · rw [if_neg hlast, List.concat_isPrefix_iff_of_covBy (UInt8.covBy_add_one hlast)]
        simp

/-- A prefix with a byte that can be stepped up has an upper bound. -/
theorem exists_upperBound_eq_some {front : Bytes} {byte : UInt8} (hmem : byte ∈ front)
    (hbyte : byte ≠ 0xFF) : ∃ bound, upperBound front = some bound := by
  induction front using List.reverseRecOn with
  | nil => cases hmem
  | append_singleton front last ih =>
      rw [upperBound_concat]
      by_cases hlast : last = 0xFF
      · rw [if_pos hlast]
        apply ih
        rcases List.mem_append.mp hmem with hfront | hend
        · exact hfront
        · exact absurd (List.mem_singleton.mp hend) (fun heq => hbyte (heq.trans hlast))
      · rw [if_neg hlast]
        exact ⟨_, rfl⟩

theorem afterPrefix_eq_some_iff {front stored rest : Bytes} :
    afterPrefix front stored = some rest ↔ stored = front ++ rest := by
  rw [afterPrefix]
  constructor
  · intro h
    split_ifs at h with hprefix
    obtain ⟨tail, rfl⟩ := hprefix
    simpa using h
  · rintro rfl
    simp

/-- Only a key with the audit tag has a sequence. -/
theorem head?_of_auditSequence {stored : Bytes} {sequence : UInt64}
    (h : auditSequence stored = some sequence) : stored.head? = some kAudit := by
  cases stored with
  | nil => cases h
  | cons tag digits =>
      simp only [auditSequence] at h
      split_ifs at h with htag
      rw [htag.2]
      rfl

/-! ### Part keys -/

theorem toUInt32_toUInt8_and (value : UInt32) :
    (value &&& 0xFF).toUInt8.toUInt32 = value &&& 0xFF := by
  have hlow : value.toNat &&& 255 = value.toNat % 256 :=
    Nat.and_two_pow_sub_one_eq_mod value.toNat 8
  rw [← UInt32.toNat_inj]
  change (value.toNat &&& 255) % 256 = value.toNat &&& 255
  omega

/-- Four bytes, most significant first, are put together again. -/
theorem or_bigEndian32 (value : UInt32) :
    (((value >>> 24) &&& 0xFF).toUInt8.toUInt32 <<< 24) |||
      (((value >>> 16) &&& 0xFF).toUInt8.toUInt32 <<< 16) |||
      (((value >>> 8) &&& 0xFF).toUInt8.toUInt32 <<< 8) ||| (value &&& 0xFF).toUInt8.toUInt32 =
    value := by
  simp only [toUInt32_toUInt8_and]
  rw [← UInt32.toBitVec_inj]
  ext bit hbit
  simp
  interval_cases bit <;> simp

@[simp]
theorem partNumber_part (uploadId : Bytes) (number : UInt32) :
    partNumber (part uploadId number) uploadId = some number := by
  have hrest : afterPrefix (partPrefix uploadId) (part uploadId number) =
      some (bigEndian32 number) := afterPrefix_eq_some_iff.mpr rfl
  rw [partNumber, hrest]
  exact congrArg some (or_bigEndian32 number)

/-- Four bytes are the encoding of the number they are read as. -/
theorem bigEndian32_or (first second third fourth : UInt8) :
    bigEndian32 ((first.toUInt32 <<< 24) ||| (second.toUInt32 <<< 16) ||| (third.toUInt32 <<< 8) |||
      fourth.toUInt32) = [first, second, third, fourth] := by
  simp only [bigEndian32, List.cons.injEq, and_true]
  refine ⟨?_, ?_, ?_, ?_⟩ <;> rw [← UInt8.toBitVec_inj] <;> ext bit hbit <;> simp <;>
    interval_cases bit <;> simp

/-- A stored key has a part number exactly when it is the key of that part. -/
theorem partNumber_eq_some_iff {stored uploadId : Bytes} {number : UInt32} :
    partNumber stored uploadId = some number ↔ stored = part uploadId number := by
  constructor
  · intro h
    rw [partNumber] at h
    split at h
    · rename_i first second third fourth hrest
      rw [← Option.some_inj.mp h, part, bigEndian32_or]
      exact afterPrefix_eq_some_iff.mp hrest
    · cases h
  · rintro rfl
    exact partNumber_part uploadId number

/-- A name without a mark is read off the front of what has the mark behind it. -/
theorem append_mark_inj {mark : UInt8} {first second firstRest secondRest : Bytes}
    (hfirst : mark ∉ first) (hsecond : mark ∉ second)
    (h : first ++ mark :: firstRest = second ++ mark :: secondRest) :
    first = second ∧ firstRest = secondRest := by
  have htake : ∀ {name : Bytes} (rest : Bytes), mark ∉ name →
      (name ++ mark :: rest).takeWhile (fun byte => byte ≠ mark) = name := by
    intro name rest hname
    have hall : ∀ byte ∈ name, (decide (byte ≠ mark)) = true :=
      fun byte hbyte => decide_eq_true fun hequal => hname (hequal ▸ hbyte)
    rw [List.takeWhile_append_of_pos hall]
    simp
  have hname : first = second := by
    rw [← htake firstRest hfirst, h, htake secondRest hsecond]
  subst hname
  exact ⟨rfl, (List.cons.inj (List.append_cancel_left h)).2⟩

/-- What has the mark in it has a last one. -/
theorem exists_append_last_mark {mark : UInt8} {text : Bytes} (h : mark ∈ text) :
    ∃ front back, text = front ++ mark :: back ∧ mark ∉ back := by
  obtain ⟨back, front, hreverse, hlast⟩ := List.eq_append_cons_of_mem (List.mem_reverse.mpr h)
  refine ⟨front.reverse, back.reverse, ?_, fun hmem => hlast (List.mem_reverse.mp hmem)⟩
  rw [← List.reverse_reverse text, hreverse, List.reverse_append, List.reverse_cons,
    List.append_assoc, List.singleton_append]

/-- A name without separators is read off the front of a key. -/
theorem append_separator_inj {first second firstRest secondRest : Bytes}
    (hfirst : separator ∉ first) (hsecond : separator ∉ second)
    (h : first ++ separator :: firstRest = second ++ separator :: secondRest) :
    first = second ∧ firstRest = secondRest := append_mark_inj hfirst hsecond h

/-- A part's key determines its upload and its number. -/
theorem part_inj {firstId secondId : Bytes} {firstNumber secondNumber : UInt32}
    (h : part firstId firstNumber = part secondId secondNumber) :
    firstId = secondId ∧ firstNumber = secondNumber := by
  have hid : firstId = secondId := by
    obtain ⟨hhead, -⟩ := List.append_inj' h rfl
    simp only [partPrefix, List.cons.injEq, true_and] at hhead
    obtain ⟨hid, -⟩ := List.append_inj' hhead rfl
    exact hid
  subst hid
  have hnumber := partNumber_part firstId firstNumber
  rw [h, partNumber_part] at hnumber
  exact ⟨rfl, (Option.some_inj.mp hnumber).symm⟩

end MonoBucket.Keys
