/-
Bucket names and object keys

The validators both front doors rely on. A bucket name is a DNS-like label, so
it holds no NUL and no slash. An object key is almost any string: what the
validator looks for is control characters and `..` segments, and it finds every
such segment except one at the very end of a longer key.
-/

import MonoBucket.Storage.Keyspace

namespace MonoBucket.S3

/-! ### Bucket names -/

def minBucketNameLength : Nat := 3

def maxBucketNameLength : Nat := 63

/-- The loop of `looksLikeIpv4` over what is left of the name; the end of the
name closes an octet as a dot does. -/
def looksLikeIpv4Loop (octets digits value : Nat) : Bytes → Bool
  | [] => !(digits = 0 ∨ 3 < digits ∨ 255 < value) && octets + 1 = 4
  | byte :: rest =>
    if byte = letter '.' then
      if digits = 0 ∨ 3 < digits ∨ 255 < value then false
      else looksLikeIpv4Loop (octets + 1) 0 0 rest
    else if isDigit byte then
      looksLikeIpv4Loop octets (digits + 1) (value * 10 + (byte - 0x30).toNat) rest
    else false

def looksLikeIpv4 (name : Bytes) : Bool := looksLikeIpv4Loop 0 0 0 name

/-- `std::isalnum` in the C locale. -/
def isAlnum (byte : UInt8) : Bool :=
  isDigit byte ∨ (0x41 ≤ byte ∧ byte ≤ 0x5A) ∨ (0x61 ≤ byte ∧ byte ≤ 0x7A)

/-- A byte a bucket name may hold. -/
def isBucketNameByte (byte : UInt8) : Bool :=
  (0x61 ≤ byte ∧ byte ≤ 0x7A) ∨ isDigit byte ∨ byte = letter '-' ∨ byte = letter '.'

/-- The loop over a name's bytes: each is allowed, and no two dots are adjacent. -/
def bucketNameBytes (previous : UInt8) : Bytes → Bool
  | [] => true
  | byte :: rest =>
    isBucketNameByte byte && !(byte = letter '.' ∧ previous = letter '.') &&
      bucketNameBytes byte rest

def isValidBucketName (name : Bytes) : Bool :=
  minBucketNameLength ≤ name.length && name.length ≤ maxBucketNameLength &&
    name.head?.any isAlnum && name.getLast?.any isAlnum && bucketNameBytes 0 name &&
    !looksLikeIpv4 name

/-- Paths the server answers itself on the S3 listener. -/
def reservedNames : List Bytes :=
  [ascii "healthz", ascii "readyz", ascii "metrics", ascii "_mb"]

def isReservedBucketName (name : Bytes) : Bool := name ∈ reservedNames

theorem isBucketNameByte_of_mem {previous : UInt8} {name : Bytes}
    (h : bucketNameBytes previous name = true) {byte : UInt8} (hmem : byte ∈ name) :
    isBucketNameByte byte = true := by
  induction name generalizing previous with
  | nil => cases hmem
  | cons first rest ih =>
      simp only [bucketNameBytes, Bool.and_eq_true] at h
      rcases List.mem_cons.mp hmem with rfl | hrest
      · exact h.1.1
      · exact ih h.2 hrest

/-- A byte outside the alphabet of bucket names is in no valid name. -/
theorem not_mem_of_isValidBucketName {name : Bytes} (h : isValidBucketName name = true)
    {byte : UInt8} (hbyte : isBucketNameByte byte = false) : byte ∉ name := by
  intro hmem
  simp only [isValidBucketName, Bool.and_eq_true] at h
  have hallowed := isBucketNameByte_of_mem h.1.2 hmem
  rw [hbyte] at hallowed
  cases hallowed

theorem separator_notMem_of_isValidBucketName {name : Bytes} (h : isValidBucketName name = true) :
    Keys.separator ∉ name :=
  not_mem_of_isValidBucketName h (by decide)

/-! ### Object keys -/

def maxKeyLength : Nat := 1024

/-- A byte below 0x20, or DEL. -/
def isControl (byte : UInt8) : Bool := byte < 0x20 ∨ byte = 0x7F

def slash : UInt8 := letter '/'

def dotDot : Bytes := ascii ".."

def isValidObjectKey (key : Bytes) : Bool :=
  !(key = [] ∨ maxKeyLength < key.length) &&
    !(key = ascii "." ∨ key = dotDot ∨ slash :: (dotDot ++ [slash]) <:+: key ∨
      dotDot ++ [slash] <+: key) &&
    key.all fun byte => !isControl byte

/-- What lies between the slashes of a key. -/
def segments (key : Bytes) : List Bytes := key.splitOn slash

/-- The rule for object keys: no control character and no `..` segment. -/
def KeyRule (key : Bytes) : Prop := (∀ byte ∈ key, isControl byte = false) ∧ dotDot ∉ segments key

instance (key : Bytes) : Decidable (KeyRule key) := inferInstanceAs (Decidable (_ ∧ _))

theorem segments_append_slash (front back : Bytes) :
    segments (front ++ slash :: back) = segments front ++ segments back :=
  List.splitOn_append_cons_self front back

theorem segments_dotDot : segments dotDot = [dotDot] := by decide

/-- Joined lists are joined to each other by one more separator. -/
theorem intercalate_cons_append (first : Bytes) (rest : List Bytes) {tail : List Bytes}
    (htail : tail ≠ []) :
    [slash].intercalate (first :: rest ++ tail) =
      [slash].intercalate (first :: rest) ++ slash :: [slash].intercalate tail := by
  obtain ⟨next, others, rfl⟩ := List.exists_cons_of_ne_nil htail
  induction rest generalizing first with
  | nil => simp [List.intercalate_cons_cons]
  | cons second rest ih =>
      have hrest := ih second
      simp only [List.cons_append, List.intercalate_cons_cons] at hrest ⊢
      rw [hrest]
      simp

/-- A `..` segment is the whole key, starts it, ends it, or lies between two
slashes. -/
theorem dotDot_mem_segments_iff (key : Bytes) :
    dotDot ∈ segments key ↔ key = dotDot ∨ dotDot ++ [slash] <+: key ∨
      slash :: dotDot <:+ key ∨ slash :: (dotDot ++ [slash]) <:+: key := by
  constructor
  · intro h
    obtain ⟨front, back, hsplit⟩ := List.append_of_mem h
    have hkey : [slash].intercalate (front ++ dotDot :: back) = key := by
      rw [← hsplit]
      exact List.intercalate_splitOn slash
    cases front with
    | nil =>
        cases back with
        | nil => exact Or.inl (by rw [← hkey]; rfl)
        | cons next rest =>
            refine Or.inr (Or.inl ⟨[slash].intercalate (next :: rest), ?_⟩)
            rw [← hkey]
            simp [List.intercalate]
    | cons first rest =>
        have hback := intercalate_cons_append first rest (List.cons_ne_nil dotDot back)
        cases back with
        | nil =>
            refine Or.inr (Or.inr (Or.inl ⟨[slash].intercalate (first :: rest), ?_⟩))
            rw [← hkey, hback]
            rfl
        | cons next others =>
            refine Or.inr (Or.inr (Or.inr
              ⟨[slash].intercalate (first :: rest), [slash].intercalate (next :: others), ?_⟩))
            rw [← hkey, hback]
            simp [List.intercalate, List.intersperse]
  · rintro (rfl | ⟨back, rfl⟩ | ⟨front, rfl⟩ | ⟨front, back, rfl⟩)
    · rw [segments_dotDot]
      exact List.mem_singleton_self _
    · rw [List.append_assoc, List.singleton_append, segments_append_slash, segments_dotDot]
      simp
    · rw [segments_append_slash, segments_dotDot]
      simp
    · have hshape : front ++ slash :: (dotDot ++ [slash]) ++ back =
          front ++ slash :: (dotDot ++ slash :: back) := by simp
      rw [hshape, segments_append_slash, segments_append_slash, segments_dotDot]
      simp

/-- The validator meets the rule on every key that does not end in a `..`
segment behind a slash, and on no other key it accepts. -/
theorem keyRule_iff_of_isValidObjectKey {key : Bytes} (h : isValidObjectKey key = true) :
    KeyRule key ↔ ¬ slash :: dotDot <:+ key := by
  simp only [isValidObjectKey, Bool.and_eq_true, Bool.not_eq_true', decide_eq_false_iff_not,
    List.all_eq_true] at h
  obtain ⟨⟨-, hsegments⟩, hcontrol⟩ := h
  rw [KeyRule, dotDot_mem_segments_iff]
  constructor
  · intro hrule hends
    exact hrule.2 (Or.inr (Or.inr (Or.inl hends)))
  · intro hends
    exact ⟨hcontrol, by tauto⟩

end MonoBucket.S3
