/-
The rule for object keys, over both front doors

Three requests store something under a key the client chose: PutObject and
CreateMultipartUpload check it with the validator, the console's upload with a
check of its own. The validator lets a key through that ends in a `..` segment;
the console's check lets control characters through, and `.` and `//`. A
completion stores its object under the key its upload was created with.

Where every key let through meets the rule, every object row and every upload row
is one of a key that meets it.
-/

import MonoBucket.Server.FrontDoors

namespace MonoBucket.FrontDoors

open S3 Codec

/-! ### The rule over rows -/

/-- A key the validator accepts and the rule allows. -/
def Ruled (key : Bytes) : Prop := isValidObjectKey key = true ∧ KeyRule key

/-- An object row is one of an object whose key meets the rule, and so are both
rows of an upload. -/
structure RuledRow (key stored : Bytes) : Prop where
  object : key.head? = some Keys.kObject → ∃ bucket, ∃ object : ObjectRecord,
    key = Keys.object bucket object.key ∧ stored = encodeObject object ∧ Ruled object.key
  upload : key.head? = some Keys.kUploadById → ∃ upload : UploadRecord,
    key = Keys.uploadById upload.uploadId ∧ stored = encodeUpload upload ∧ Ruled upload.key.items
  uploadKey : key.head? = some Keys.kUploadByKey → ∃ upload : UploadRecord,
    key = Keys.uploadByKey upload.bucket.items upload.key.items upload.uploadId ∧
      Ruled upload.key.items

theorem ruledRow_of_tag {key stored : Bytes} {tag : UInt8} (hkey : key.head? = some tag)
    (htag : tag ∉ [Keys.kObject, Keys.kUploadById, Keys.kUploadByKey]) : RuledRow key stored := by
  simp only [List.mem_cons, List.not_mem_nil, or_false, not_or] at htag
  constructor
  · intro h
    exact absurd (Option.some.inj (hkey.symm.trans h)) htag.1
  · intro h
    exact absurd (Option.some.inj (hkey.symm.trans h)) htag.2.1
  · intro h
    exact absurd (Option.some.inj (hkey.symm.trans h)) htag.2.2

/-- An upload that is loaded has a key that meets the rule. -/
theorem ruled_of_loadUpload {rows : Rows} (hrows : rows.Holds RuledRow) {uploadId : Bytes}
    {upload : UploadRecord} (h : loadUpload rows uploadId = .ok (some upload)) :
    Ruled upload.key.items := by
  obtain ⟨stored, hfind, hdecode⟩ := decode_of_readRow h
  obtain ⟨written, hkey, rfl, hruled⟩ := (hrows _ stored hfind).upload rfl
  obtain rfl : uploadId = written.uploadId := (List.cons.inj hkey).2
  rw [decodeUpload_encodeUpload] at hdecode
  rwa [← Except.ok.inj hdecode]

/-! ### Requests that choose a key -/

/-- The bucket and the key a request would store something under, when its own
check lets the key through. -/
def chosen : Request → Option (Bytes × Bytes)
  | .putObject bucket object _ _ =>
    if isValidObjectKey object.key then some (bucket, object.key) else none
  | .createMultipartUpload upload =>
    if isValidObjectKey upload.key.items then some (upload.bucket.items, upload.key.items) else none
  | .consoleUpload bucket object _ =>
    if object.key = [] ∨ consoleKeyRefused object.key then none else some (bucket, object.key)
  | _ => none

/-- A key let through for a bucket that is there is one the validator accepts, and
it does not end in a `..` segment. -/
def ChoosesRuled (server : Server) (label : Label) : Prop :=
  ∀ target ∈ chosen label.2, (server.engine.metadata.rows.find? (Keys.bucket target.1)).isSome →
    isValidObjectKey target.2 = true ∧ ¬ slash :: dotDot <:+ target.2

instance (server : Server) (label : Label) : Decidable (ChoosesRuled server label) :=
  inferInstanceAs (Decidable (∀ target ∈ chosen label.2, _ → _ ∧ ¬ _))

/-- The console's check leaves the validator nothing to refuse but `.` and control
characters, and no `..` at all. -/
theorem not_endsDotDot_of_console {key : Bytes} (h : consoleKeyRefused key = false) :
    ¬ slash :: dotDot <:+ key := by
  intro hends
  simp only [consoleKeyRefused, decide_eq_false_iff_not, not_or] at h
  exact h.2.2.2 (((List.suffix_cons slash dotDot).trans hends).isInfix)

section Kept

variable {server : Server} {request : Request} {ticks : Int64} {name key : Bytes} {stored : Stored}

/-- Every key a request stores something under meets the rule. -/
theorem ruled_of_stores (hrows : server.engine.metadata.rows.Holds RuledRow)
    (hguard : ChoosesRuled server (ticks, request))
    (hsubject : subject server.engine.metadata.rows request = some name)
    (hbucket : (server.engine.metadata.rows.find? (Keys.bucket name)).isSome)
    (hstores : Stores server.engine.metadata.rows request stored) : Ruled stored.key := by
  have hruled : (name, stored.key) ∈ chosen request → Ruled stored.key := fun hchosen => by
    obtain ⟨hvalid, hends⟩ := hguard (name, stored.key) hchosen hbucket
    exact ⟨hvalid, (keyRule_iff_of_isValidObjectKey hvalid).mpr hends⟩
  cases request with
  | putObject bucket object declared now =>
      obtain ⟨rfl, hvalid⟩ := hstores
      obtain rfl : bucket = name := Option.some.inj hsubject
      exact hruled (by simp [chosen, Stored.key, hvalid])
  | createMultipartUpload upload =>
      obtain ⟨rfl, hvalid⟩ := hstores
      obtain rfl : upload.bucket.items = name := Option.some.inj hsubject
      exact hruled (by simp [chosen, Stored.key, hvalid])
  | completeMultipartUpload bucket key uploadId requested assembled now =>
      obtain ⟨upload, hload, rfl⟩ := hstores
      exact ruled_of_loadUpload hrows hload
  | consoleUpload bucket object now =>
      obtain ⟨rfl, hempty, hrefused⟩ := hstores
      obtain rfl : bucket = name := Option.some.inj hsubject
      exact hruled (by simp [chosen, Stored.key, hempty, hrefused])
  | _ => cases hstores

/-- A row a request puts meets the rule. -/
theorem ruledRow_of_writes (hrows : server.engine.metadata.rows.Holds RuledRow)
    (hguard : ChoosesRuled server (ticks, request)) {value : Bytes}
    (h : Writes server.engine.metadata.rows request (.put key value)) : RuledRow key value := by
  cases h with
  | bucketRow name hsubject hkey hknown =>
      obtain rfl : key = Keys.bucket name := hkey
      exact ruledRow_of_tag rfl (by decide)
  | system tag hmem hkey =>
      have hdisjoint : ∀ tag ∈ systemTags,
          tag ∉ [Keys.kObject, Keys.kUploadById, Keys.kUploadByKey] := by decide +kernel
      exact ruledRow_of_tag hkey (hdisjoint tag hmem)
  | touch name hsubject htouch =>
      cases htouch with
      | marker _ blobId hkey =>
          obtain rfl : key = Keys.orphan blobId := hkey
          exact ruledRow_of_tag rfl (by decide)
      | putPart part upload hload hname => exact ruledRow_of_tag rfl (by decide)
      | putObject object hbucket hstores =>
          have hruled := ruled_of_stores hrows hguard hsubject hbucket hstores
          refine ⟨fun _ => ⟨name, object, rfl, rfl, hruled⟩, fun h => ?_, fun h => ?_⟩
          · exact absurd (Option.some.inj h) (by decide)
          · exact absurd (Option.some.inj h) (by decide)
      | putUpload upload hbucket hname hstores =>
          have hruled := ruled_of_stores hrows hguard hsubject hbucket hstores
          refine ⟨fun h => ?_, fun _ => ⟨upload, rfl, rfl, hruled⟩, fun h => ?_⟩
          · exact absurd (Option.some.inj h) (by decide)
          · exact absurd (Option.some.inj h) (by decide)
      | putUploadKey upload hbucket hname hstores =>
          have hruled := ruled_of_stores hrows hguard hsubject hbucket hstores
          refine ⟨fun h => ?_, fun h => ?_, fun _ => ⟨upload, by rw [hname], hruled⟩⟩
          · exact absurd (Option.some.inj h) (by decide)
          · exact absurd (Option.some.inj h) (by decide)

end Kept

/-- Every object row and every row of an upload is one of a key the validator
accepts, with no control character and no `..` segment, as long as every key let
through meets the rule. -/
theorem ruled_of_choosesRuled {config : ServerConfig} {start final : Server}
    {labels : List Label} (hempty : start.engine.metadata.rows = .empty)
    (hchooses : Trace.Every (step config) ChoosesRuled start labels)
    (hrun : Trace.run (step config) start labels = some final) :
    final.engine.metadata.rows.Holds RuledRow := by
  have hstart : start.engine.metadata.rows.Holds RuledRow := by
    rw [hempty]
    exact Rows.Holds.empty
  apply hchooses.run_invariant ?_ hstart hrun
  intro server label next hrows hguard hstep
  simp only [step] at hstep
  split_ifs at hstep
  obtain rfl := Option.some.inj hstep
  exact (writes_perform config label.1 server label.2).holds hrows fun _ _ hput =>
    ruledRow_of_writes hrows hguard hput

/-! ### Fixed runs -/

section Fixed

/-- An object of no bytes. -/
def emptyObject (key : Bytes) : ObjectRecord :=
  { key := key, size := 0, blobId := ⟨ascii "blob", fits_blob⟩ }

/-- A bucket, an object put under a key over S3 and one uploaded in the console. -/
def storingRun (put uploaded : Bytes) : List Label :=
  [(0, .consoleCreateBucket photos 1000 0), (1, .putObject photos (emptyObject put) 0 1),
    (2, .consoleUpload photos (emptyObject uploaded) 2)]

def plainKey : Bytes := ascii "2024/a.jpg"

theorem ruled_of_choosesRuled_storingRun :
    (after smallConfig coldServer (storingRun plainKey plainKey)).engine.metadata.rows.Holds
      RuledRow := by
  have hruns : (Trace.run (step smallConfig) coldServer (storingRun plainKey plainKey)).isSome := by
    decide +kernel
  obtain ⟨final, hfinal⟩ := Option.isSome_iff_exists.mp hruns
  have hafter : after smallConfig coldServer (storingRun plainKey plainKey) = final := by
    rw [after, hfinal]
    rfl
  rw [hafter]
  exact ruled_of_choosesRuled rfl (by decide +kernel) hfinal

/-- A key that ends in a `..` segment, which the validator accepts. -/
def climbingKey : Bytes := ascii "2024/.."

/-- A key the validator refuses for its control character, and the console does not. -/
def bellKey : Bytes := ascii "2024/" ++ [7]

theorem not_holds_of_stored {rows : Rows} {key : Bytes} (hkey : Keys.separator ∉ key)
    (hstored : (rows.find? (Keys.object photos key)).isSome) (hruled : ¬ Ruled key) :
    ¬ rows.Holds RuledRow := by
  intro hrows
  obtain ⟨stored, hfind⟩ := Option.isSome_iff_exists.mp hstored
  obtain ⟨bucket, object, hname, -, hobject⟩ := (hrows _ stored hfind).object rfl
  simp only [Keys.object, Keys.objectPrefix, List.cons_append, List.append_assoc,
    List.cons.injEq, true_and] at hname
  have hphotos : Keys.separator ∉ photos := by decide
  obtain ⟨-, -, rfl⟩ := (List.append_cons_inj_of_notMem hphotos hkey).mp hname
  exact hruled hobject

/-- Each door stores an object the rule forbids: PutObject under a key with a `..`
segment, and the console under a key with a control character. -/
theorem unruled_keys_stored :
    (isValidObjectKey climbingKey = true ∧ dotDot ∈ segments climbingKey ∧
      ¬ (after smallConfig coldServer
        (storingRun climbingKey plainKey)).engine.metadata.rows.Holds RuledRow) ∧
      isValidObjectKey bellKey = false ∧
      ¬ (after smallConfig coldServer
        (storingRun plainKey bellKey)).engine.metadata.rows.Holds RuledRow := by
  have hclimbing : ¬ Ruled climbingKey := fun h => h.2.2 (by decide)
  have hbell : ¬ Ruled bellKey := fun h => absurd h.1 (by decide)
  refine ⟨⟨by decide, by decide, ?_⟩, by decide, ?_⟩
  · exact not_holds_of_stored (by decide) (by decide +kernel) hclimbing
  · exact not_holds_of_stored (by decide) (by decide +kernel) hbell

end Fixed

end MonoBucket.FrontDoors
