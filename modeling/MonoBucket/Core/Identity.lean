/-
Who a request is, and what that entitles it to

The role matrix, and the bucket grants that narrow it. A role says what may be
done, a grant in which buckets, and an administrator is never narrowed. A
username is held to what can be typed unambiguously and is never empty.
-/

import MonoBucket.S3.Names
import MonoBucket.Storage.Records

namespace MonoBucket

inductive Permission
  | bucketRead
  | bucketWrite
  | objectRead
  | objectWrite
  | settingsRead
  | settingsWrite
  | capacityWrite
  | credentialRead
  | credentialWrite
  | userRead
  | userWrite
  | auditRead
  | backupWrite
  deriving DecidableEq, Repr

/-- `toString(permission)`. -/
def Permission.toText : Permission → Bytes
  | .bucketRead => ascii "bucket:read"
  | .bucketWrite => ascii "bucket:write"
  | .objectRead => ascii "object:read"
  | .objectWrite => ascii "object:write"
  | .settingsRead => ascii "settings:read"
  | .settingsWrite => ascii "settings:write"
  | .capacityWrite => ascii "capacity:write"
  | .credentialRead => ascii "credential:read"
  | .credentialWrite => ascii "credential:write"
  | .userRead => ascii "user:read"
  | .userWrite => ascii "user:write"
  | .auditRead => ascii "audit:read"
  | .backupWrite => ascii "backup:write"

/-- `permits(access, permission)`: what is not about one bucket is not narrowed. -/
def BucketAccess.permits (access : BucketAccess) : Permission → Bool
  | .bucketRead | .objectRead => access ≠ .none
  | .bucketWrite | .objectWrite | .capacityWrite => access = .write
  | .settingsRead | .settingsWrite | .credentialRead | .credentialWrite | .userRead | .userWrite
  | .auditRead | .backupWrite => true

/-- The access granted in a bucket: its exception, or the fallback. -/
def BucketGrants.forBucket (grants : BucketGrants) (bucket : Bytes) : BucketAccess :=
  match grants.exceptions.bindings.entries.find? fun entry => entry.1.items = bucket with
  | some entry => entry.2
  | none => grants.fallback

/-- Everything, decided by the role alone. -/
def BucketGrants.unrestricted (grants : BucketGrants) : Bool :=
  grants.fallback = .write ∧ grants.exceptions.bindings.entries = []

def Role.allows : Role → Permission → Bool
  | .administrator, _ => true
  | .operator, .bucketRead | .operator, .bucketWrite | .operator, .objectRead
  | .operator, .objectWrite | .operator, .settingsRead | .operator, .credentialRead
  | .operator, .credentialWrite => true
  | .operator, _ => false
  | .readOnly, .bucketRead | .readOnly, .objectRead | .readOnly, .settingsRead
  | .readOnly, .credentialRead => true
  | .readOnly, _ => false

/-- `allows(role, grants, bucket, permission)`. -/
def allowsIn (role : Role) (grants : BucketGrants) (bucket : Bytes) (permission : Permission) :
    Bool :=
  if role.allows permission then
    if role = .administrator then true else (grants.forBucket bucket).permits permission
  else false

/-! ### Comparing what is granted -/

/-- Nothing the first role may do is refused to the second. -/
def Role.within : Role → Role → Bool
  | .readOnly, _ => true
  | .operator, second => second ≠ .readOnly
  | .administrator, second => second = .administrator

theorem Role.within_iff {first second : Role} :
    first.within second ↔ ∀ permission, first.allows permission → second.allows permission := by
  constructor
  · intro h permission
    cases first <;> cases second <;> cases permission <;> revert h <;> decide
  · intro h
    have hwrite := h .bucketWrite
    have huser := h .userWrite
    cases first <;> cases second <;> revert hwrite huser <;> decide

@[simp]
theorem Role.within_refl (role : Role) : role.within role := by
  cases role <;> rfl

def BucketAccess.level : BucketAccess → Nat
  | .none => 0
  | .read => 1
  | .write => 2

namespace BucketGrants

/-- In no bucket do the first grants reach further than the second: it is enough
to compare the fallbacks, and the buckets either names. -/
def within (narrow wide : BucketGrants) : Bool :=
  narrow.fallback.level ≤ wide.fallback.level &&
    narrow.exceptions.bindings.entries.all (fun entry =>
      entry.2.level ≤ (wide.forBucket entry.1.items).level) &&
    wide.exceptions.bindings.entries.all fun entry =>
      (narrow.forBucket entry.1.items).level ≤ entry.2.level

theorem forBucket_of_mem {grants : BucketGrants} {entry : Text × BucketAccess}
    (hentry : entry ∈ grants.exceptions.bindings.entries) :
    grants.forBucket entry.1.items = entry.2 := by
  have hfind := OrderedMap.lookupEntry_eq_some_iff grants.exceptions.bindings.ordered |>.mpr hentry
  rw [forBucket]
  clear hentry
  generalize grants.exceptions.bindings.entries = entries at hfind ⊢
  induction entries with
  | nil => cases hfind
  | cons head rest ih =>
      rw [OrderedMap.lookupEntry] at hfind
      rw [List.find?_cons]
      split_ifs at hfind with hkey
      · rw [hkey]
        simpa using hfind
      · have hitems : ¬ head.1.items = entry.1.items := fun h => hkey (Sized.ext h).symm
        simpa [hitems] using ih hfind

@[simp]
theorem within_refl (grants : BucketGrants) : grants.within grants := by
  rw [within, Bool.and_eq_true, Bool.and_eq_true]
  refine ⟨⟨by simp, List.all_eq_true.mpr fun entry hentry => ?_⟩,
    List.all_eq_true.mpr fun entry hentry => ?_⟩
  · simp [forBucket_of_mem hentry]
  · simp [forBucket_of_mem hentry]

theorem level_le_of_within {narrow wide : BucketGrants} (h : narrow.within wide) (bucket : Bytes) :
    (narrow.forBucket bucket).level ≤ (wide.forBucket bucket).level := by
  rw [within, Bool.and_eq_true, Bool.and_eq_true] at h
  obtain ⟨⟨hfallback, hnarrow⟩, hwide⟩ := h
  rw [List.all_eq_true] at hnarrow hwide
  cases hfound : narrow.exceptions.bindings.entries.find? fun entry => entry.1.items = bucket with
  | some entry =>
      obtain rfl : entry.1.items = bucket := by simpa using List.find?_some hfound
      have hmem := List.mem_of_find?_eq_some hfound
      rw [forBucket_of_mem hmem]
      exact of_decide_eq_true (hnarrow entry hmem)
  | none =>
      cases hother : wide.exceptions.bindings.entries.find? fun entry => entry.1.items = bucket with
      | some entry =>
          obtain rfl : entry.1.items = bucket := by simpa using List.find?_some hother
          have hmem := List.mem_of_find?_eq_some hother
          rw [forBucket_of_mem hmem]
          exact of_decide_eq_true (hwide entry hmem)
      | none =>
          rw [forBucket, forBucket, hfound, hother]
          exact of_decide_eq_true hfallback

end BucketGrants

/-- Whether an account may be stored under a name. -/
def isValidUsername (username : Bytes) : Bool :=
  match username with
  | [] => false
  | first :: _ =>
    username.length ≤ 64 && S3.isAlnum first &&
      username.all fun byte => S3.isAlnum byte ∨ byte = letter '.' ∨ byte = letter '_' ∨
        byte = letter '-'

end MonoBucket
