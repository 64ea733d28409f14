/-
DeleteObjects

One request names up to a thousand keys in an XML document. A key is read as the text of
its element without the white space around it, so a key that starts or ends with a space
is taken for another: that other object is deleted, and reported. Where no key does, the
request deletes exactly the objects it names and reports every key as it was given.
-/

import MonoBucket.S3.XmlRoundTrip
import MonoBucket.Server.BucketIsolation
import MonoBucket.Storage.BucketView

namespace MonoBucket.FrontDoors

open S3 Codec Xml

/-! ### The handler -/

def kMaxDeleteKeys : Nat := 1000

/-- What a request reports about one key. -/
inductive DeleteReport
  | deleted (key : Bytes)
  | failed (key code message : Bytes)
  deriving DecidableEq

/-- `describe(fromStorage(code)).code`. -/
def storageErrorName : StorageErrorCode → Bytes
  | .noSuchBucket => ascii "NoSuchBucket"
  | .noSuchKey => ascii "NoSuchKey"
  | .noSuchUpload => ascii "NoSuchUpload"
  | .bucketAlreadyExists => ascii "BucketAlreadyExists"
  | .bucketNotEmpty => ascii "BucketNotEmpty"
  | .invalidPart => ascii "InvalidPart"
  | .quotaExceeded => ascii "QuotaExceeded"
  | .quotaBelowUsage => ascii "InvalidArgument"
  | .objectTooLarge => ascii "EntityTooLarge"
  | .checksumMismatch => ascii "BadDigest"
  | .insufficientCapacity => ascii "InsufficientCapacity"
  | .corruption | .io | .internal => ascii "InternalError"

/-- The calls of the writer for one key. -/
def reportEntry : DeleteReport → Entry
  | .deleted key => (ascii "Deleted", [(ascii "Key", key)])
  | .failed key code message =>
    (ascii "Error", [(ascii "Key", key), (ascii "Code", code), (ascii "Message", message)])

/-- The response document. -/
def deleteResult (reports : List DeleteReport) : Bytes :=
  ((reports.map reportEntry).foldl writeEntry
    (XmlWriter.start (ascii "DeleteResult") XmlWriter.kS3Namespace)).finish

section Handler

variable (config : ServerConfig) (ticks : Int64)
variable (checkContentMd5 : Bytes → Bytes → Except S3Exception Unit)

/-- `verifyContentMd5`; the comparison of the header with the digest is a parameter. -/
def verifyContentMd5 (header payload : Bytes) : Except S3Exception Unit :=
  if header = [] then .ok () else checkContentMd5 header payload

/-- `parseXml`, its error as the protocol's. -/
def parseRequestXml (document : Bytes) : Except S3Exception XmlNode :=
  match parseXml document with
  | .ok root => .ok root
  | .error (.parseError what) => malformedXml what
  | .error .outOfFuel => malformedXml []

/-- Whether a request asks for no reports of success, and the keys it names. -/
def readDeletion (contentMd5 document : Bytes) : Except S3Exception (Bool × List Bytes) := do
  verifyContentMd5 checkContentMd5 contentMd5 document
  let root ← parseRequestXml document
  if root.name = ascii "Delete" then
    let entries := root.childrenNamed (ascii "Object")
    if entries.isEmpty then malformedXml (ascii "The request listed no objects to delete.")
    else if kMaxDeleteKeys < entries.length then
      malformedXml (ascii "A single request may delete at most " ++ decimal kMaxDeleteKeys ++
        ascii " objects.")
    else
      pure (root.childText (ascii "Quiet") = ascii "true",
        entries.map fun entry => entry.childText (ascii "Key"))
  else malformedXml (ascii "The root element must be <Delete>.")

/-- One turn of the loop. An error of the protocol or of the storage engine is reported; a
record that does not decode ends the request. -/
def deleteOne (server : Server) (bucket : Bytes) (quiet : Bool) (now : TimestampMs) (key : Bytes) :
    Server × Except HandlerError (List DeleteReport) :=
  if key = [] then
    (server, .ok [.failed key (ascii "InvalidArgument") (ascii "The key is empty.")])
  else
    match server.engine.deleteObject bucket key now with
    | (engine, .ok _) =>
      (invalidateObject config bucket key { server with engine := engine },
        .ok (if quiet then [] else [.deleted key]))
    | (engine, .error (.storage code what)) =>
      ({ server with engine := engine }, .ok [.failed key (storageErrorName code) what])
    | (engine, .error error) => ({ server with engine := engine }, .error (.storage error))

/-- The loop over the keys. -/
def deleteEach (bucket : Bytes) (quiet : Bool) (now : TimestampMs) :
    Server → List Bytes → Server × Except HandlerError (List DeleteReport)
  | server, [] => (server, .ok [])
  | server, key :: keys =>
    match deleteOne config server bucket quiet now key with
    | (server, .error error) => (server, .error error)
    | (server, .ok reports) =>
      match deleteEach bucket quiet now server keys with
      | (server, .error error) => (server, .error error)
      | (server, .ok others) => (server, .ok (reports ++ others))

/-- `handleDeleteObjects`, up to the document its reports are written to. -/
def handleDeleteObjects (server : Server) (bucket contentMd5 document : Bytes) (now : TimestampMs) :
    Server × Except HandlerError (List DeleteReport) :=
  match S3.requireBucket config.hash server.engine.metadata.rows config.cacheTtlSeconds ticks
      server.cache bucket with
  | (cache, .error error) => ({ server with cache := cache }, .error error)
  | (cache, .ok _) =>
    match readDeletion checkContentMd5 contentMd5 document with
    | .error exception => ({ server with cache := cache }, .error (.s3 exception))
    | .ok (quiet, keys) => deleteEach config bucket quiet now { server with cache := cache } keys

end Handler

/-! ### The claim of a deletion -/

/-- The document that carries each key as the text of its `Key` element. -/
def deletionDocument (layout : Layout) (keys : List Bytes) : Bytes :=
  layout.document (ascii "Delete") (keys.map fun key => (ascii "Object", [(ascii "Key", key)]))

/-- What an answer reports; an error response reports no key. -/
def reportsOf (answer : Except HandlerError (List DeleteReport)) : List DeleteReport :=
  match answer with
  | .ok reports => reports
  | .error _ => []

/-- A deletion does what it was asked: the objects named are gone, no other object is
touched, and every key is reported as it was given, in a document it can be read from. -/
structure DeletesGiven (before : Rows) (bucket : Bytes) (keys : List Bytes)
    (answer : Server × Except HandlerError (List DeleteReport)) : Prop where
  removed : ∀ key ∈ keys, answer.1.engine.metadata.rows.find? (Keys.object bucket key) = none
  untouched : ∀ row : Bytes, row.head? = some Keys.kObject →
    (∀ key ∈ keys, row ≠ Keys.object bucket key) →
    answer.1.engine.metadata.rows.find? row = before.find? row
  reported : reportsOf answer.2 = keys.map DeleteReport.deleted
  legible : ∀ reports, answer.2 = .ok reports → ∃ root,
    parseXml (deleteResult reports) = .ok root ∧
    root.children.map (fun entry => (entry.name, (entry.child? (ascii "Key")).map XmlNode.text)) =
      keys.map fun key => (ascii "Deleted", some key)

/-! ### What the request is read as -/

section Reading

variable {layout : Layout} {keys : List Bytes}

theorem isCarried_of_isValidObjectKey {key : Bytes} (h : isValidObjectKey key = true) :
    ∀ byte ∈ key, isCarried byte := by
  simp only [isValidObjectKey, Bool.and_eq_true, List.all_eq_true] at h
  intro byte hbyte
  have hcontrol := h.2 byte hbyte
  simp only [isControl, Bool.not_eq_true', decide_eq_false_iff_not, not_or, not_lt] at hcontrol
  exact decide_eq_true (.inl hcontrol.1)

theorem length_le_of_isValidObjectKey {key : Bytes} (h : isValidObjectKey key = true) :
    key.length ≤ 1024 := by
  simp only [isValidObjectKey, Bool.and_eq_true, Bool.not_eq_true', decide_eq_false_iff_not,
    not_or, not_lt] at h
  exact h.1.1.2

/-- An entry with one `Key` field. -/
def keyEntry (name key : Bytes) : Entry := (name, [(ascii "Key", key)])

theorem legible_keyEntry {name key : Bytes} (hname : isName name)
    (hkey : ∀ byte ∈ key, isCarried byte) : Legible (keyEntry name key) where
  name := hname
  fields := by
    intro field hfield
    obtain rfl := List.mem_singleton.mp hfield
    exact ⟨rfl, hkey⟩

/-- A document of at most a thousand keys is within the limits. -/
theorem parseXml_keyEntries {root name : Bytes} (layout : Layout) (hroot : isName root)
    (hname : isName name) (hshortRoot : root.length ≤ 16) (hshort : name.length ≤ 16)
    (hcount : keys.length ≤ 1000)
    (hkeys : ∀ key ∈ keys, key.length ≤ 1024 ∧ ∀ byte ∈ key, isCarried byte) :
    parseXml (layout.document root (keys.map (keyEntry name))) =
      .ok (layout.documentNode root (keys.map (keyEntry name))) := by
  refine parseXml_document layout hroot ?_ ?_ ?_
  · intro entry hentry
    obtain ⟨key, hkey, rfl⟩ := List.mem_map.mp hentry
    exact legible_keyEntry hname (hkeys key hkey).2
  · have hsum : ((keys.map (keyEntry name)).map fun entry => 1 + entry.2.length).sum =
        keys.length * 2 := by
      rw [List.map_map]
      show (keys.map fun _ => 2).sum = _
      rw [List.map_const', List.sum_replicate, smul_eq_mul]
    rw [elementsOf, hsum, kMaxXmlElements]
    omega
  · have hgap : ∀ gap ∈ [layout.front, layout.beforeEntry, layout.beforeField, layout.afterFields,
        layout.afterEntries, layout.trailing], gap.length ≤ 64 :=
      fun gap hmem => (layout.gaps gap hmem).2
    simp only [List.forall_mem_cons, List.not_mem_nil, false_implies, implies_true, and_true] at hgap
    obtain ⟨hfront, hbeforeEntry, hbeforeField, hafterFields, hafterEntries, htrailing⟩ := hgap
    have hentry : ∀ text ∈ (keys.map (keyEntry name)).map layout.entryText, text.length ≤ 6500 := by
      intro text htext
      obtain ⟨entry, hentry, rfl⟩ := List.mem_map.mp htext
      obtain ⟨key, hkey, rfl⟩ := List.mem_map.mp hentry
      have hfield := length_leafText_le (ascii "Key", key)
      have hkeyName : (ascii "Key").length = 3 := rfl
      have hlength := (hkeys key hkey).1
      simp only [Layout.entryText, keyEntry, spread, List.map_cons, List.map_nil, List.length_append,
        length_startTag, length_endTag, List.length_nil]
      dsimp only at hfield
      omega
    have hspread := @length_spread_le layout.beforeEntry _ 6500 hentry
    rw [List.length_map, List.length_map] at hspread
    have hdeclaration : layout.declaration.length ≤ 64 := by
      rw [Layout.declaration]
      split_ifs
      · exact (by decide : (38 : Nat) ≤ 64)
      · exact Nat.zero_le _
    have hattribute : (attributeText layout.xmlns).length ≤ 80 := by
      have hxmlns := layout.namespaced.2
      have hname : (ascii " xmlns=\"").length = 8 := rfl
      have hquote : (ascii "\"").length = 1 := rfl
      rw [attributeText]
      split_ifs
      · exact Nat.zero_le _
      · rw [List.length_append, List.length_append, hname, hquote]
        omega
    have htotal : keys.length * (layout.beforeEntry.length + 6500) ≤ 1000 * 6564 :=
      Nat.mul_le_mul hcount (by omega)
    simp only [Layout.document, List.length_append, length_startTag, length_endTag, kMaxXmlBytes]
    omega

theorem map_keyEntry_eq (layout : Layout) (keys : List Bytes) : deletionDocument layout keys =
    layout.document (ascii "Delete") (keys.map (keyEntry (ascii "Object"))) := rfl

theorem childText_keyEntry (layout : Layout) (name key : Bytes) :
    (layout.entryNode (keyEntry name key)).childText (ascii "Key") = trimmed key := by
  rfl

section Root

variable {checkContentMd5 : Bytes → Bytes → Except S3Exception Unit} {contentMd5 document : Bytes}
  {root : XmlNode}

theorem readDeletion_of_root
    (hmd5 : verifyContentMd5 checkContentMd5 contentMd5 document = .ok ())
    (hread : parseRequestXml document = .ok root) (hroot : root.name = ascii "Delete")
    (hfilled : (root.childrenNamed (ascii "Object")).isEmpty = false)
    (hcount : (root.childrenNamed (ascii "Object")).length ≤ kMaxDeleteKeys) :
    readDeletion checkContentMd5 contentMd5 document =
      .ok (root.childText (ascii "Quiet") = ascii "true",
        (root.childrenNamed (ascii "Object")).map fun entry => entry.childText (ascii "Key")) := by
  rw [readDeletion, hmd5]
  show (parseRequestXml document >>= _) = _
  rw [hread]
  show (if root.name = ascii "Delete" then _ else _) = _
  rw [if_pos hroot, hfilled, if_neg Bool.false_ne_true, if_neg (not_lt.mpr hcount)]
  rfl

theorem readDeletion_of_empty (hread : parseRequestXml document = .ok root)
    (hempty : (root.childrenNamed (ascii "Object")).isEmpty = true) :
    ∃ exception, readDeletion checkContentMd5 contentMd5 document = .error exception := by
  rw [readDeletion]
  cases verifyContentMd5 checkContentMd5 contentMd5 document with
  | error exception => exact ⟨exception, rfl⟩
  | ok passed =>
      show ∃ exception, (parseRequestXml document >>= _) = _
      rw [hread]
      show ∃ exception, (if root.name = ascii "Delete" then _ else _) = _
      by_cases hroot : root.name = ascii "Delete"
      · rw [if_pos hroot, hempty]
        exact ⟨_, rfl⟩
      · rw [if_neg hroot]
        exact ⟨_, rfl⟩

end Root

/-- The request is read as its keys without the white space around them. -/
theorem readDeletion_deletionDocument {checkContentMd5 : Bytes → Bytes → Except S3Exception Unit}
    {contentMd5 : Bytes} (hcount : keys.length ≤ kMaxDeleteKeys)
    (hkeys : ∀ key ∈ keys, isValidObjectKey key = true) (hnonempty : keys ≠ [])
    (hmd5 : verifyContentMd5 checkContentMd5 contentMd5 (deletionDocument layout keys) = .ok ()) :
    readDeletion checkContentMd5 contentMd5 (deletionDocument layout keys) =
      .ok (false, keys.map trimmed) := by
  have hparse : parseXml (deletionDocument layout keys) =
      .ok (layout.documentNode (ascii "Delete") (keys.map (keyEntry (ascii "Object")))) :=
    parseXml_keyEntries layout rfl rfl (by decide) (by decide) hcount fun key hkey =>
      ⟨length_le_of_isValidObjectKey (hkeys key hkey), isCarried_of_isValidObjectKey (hkeys key hkey)⟩
  have hnode : ∀ node ∈ (layout.documentNode (ascii "Delete")
      (keys.map (keyEntry (ascii "Object")))).children, node.name = ascii "Object" := by
    intro node hnode
    obtain ⟨entry, hentry, rfl⟩ := List.mem_map.mp hnode
    obtain ⟨key, -, rfl⟩ := List.mem_map.mp hentry
    rfl
  have hentries : (layout.documentNode (ascii "Delete")
      (keys.map (keyEntry (ascii "Object")))).childrenNamed (ascii "Object") =
      (keys.map (keyEntry (ascii "Object"))).map layout.entryNode :=
    List.filter_eq_self.mpr fun node hmem => decide_eq_true (hnode node hmem)
  have hquiet : (layout.documentNode (ascii "Delete")
      (keys.map (keyEntry (ascii "Object")))).childText (ascii "Quiet") = [] := by
    have hnone : (layout.documentNode (ascii "Delete")
        (keys.map (keyEntry (ascii "Object")))).child? (ascii "Quiet") = none := by
      refine List.find?_eq_none.mpr fun node hmem h => ?_
      exact absurd ((hnode node hmem).symm.trans (of_decide_eq_true h)) (by decide)
    rw [XmlNode.childText, hnone]
  have hread : parseRequestXml (deletionDocument layout keys) =
      .ok (layout.documentNode (ascii "Delete") (keys.map (keyEntry (ascii "Object")))) := by
    rw [parseRequestXml, hparse]
  have hfilled : ((keys.map (keyEntry (ascii "Object"))).map layout.entryNode).isEmpty = false := by
    cases keys with
    | nil => exact absurd rfl hnonempty
    | cons key keys => rfl
  have htexts : ((keys.map (keyEntry (ascii "Object"))).map layout.entryNode).map
      (fun entry => entry.childText (ascii "Key")) = keys.map trimmed := by
    rw [List.map_map, List.map_map]
    exact List.map_congr_left fun key _ => childText_keyEntry layout (ascii "Object") key
  have hall := readDeletion_of_root hmd5 hread rfl (hentries ▸ hfilled) (by
    rw [hentries, List.length_map, List.length_map]
    exact hcount)
  rw [hall, hentries, hquiet, htexts]
  rfl

/-- A request that names no key is refused. -/
theorem readDeletion_nil {checkContentMd5 : Bytes → Bytes → Except S3Exception Unit}
    {contentMd5 : Bytes} :
    ∃ exception, readDeletion checkContentMd5 contentMd5 (deletionDocument layout []) =
      .error exception := by
  have hread : parseRequestXml (deletionDocument layout []) =
      .ok (layout.documentNode (ascii "Delete") []) := by
    have hparse := @parseXml_keyEntries [] (ascii "Delete") (ascii "Object") layout rfl rfl
      (by decide) (by decide) (Nat.zero_le _) (fun key hkey => nomatch hkey)
    rw [parseRequestXml, map_keyEntry_eq, hparse]
    rfl
  exact readDeletion_of_empty hread rfl

end Reading

/-! ### What the loop does -/

section Deleting

variable {config : ServerConfig} {server : Server} {bucket : Bytes} {now : TimestampMs}

/-- The bucket is there, and its object rows decode. -/
structure Deletable (rows : Rows) (bucket : Bytes) : Prop where
  present : requireBucket rows bucket = .ok ()
  readable : ∀ key, (loadObject rows (Keys.object bucket key) key).Returns

/-- A row after the objects of some keys were deleted. -/
def rowAfter (rows : Rows) (bucket : Bytes) (keys : List Bytes) (row : Bytes) : Option Bytes :=
  if row ∈ keys.map (Keys.object bucket) then none else rows.find? row

theorem find?_of_loadObject_none {rows : Rows} {storedKey key : Bytes}
    (h : loadObject rows storedKey key = .ok none) : rows.find? storedKey = none := by
  rw [loadObject, readRow] at h
  cases hfind : rows.find? storedKey with
  | none => rfl
  | some stored =>
      rw [hfind] at h
      cases hdecode : decodeObject key stored with
      | error error => simp [hdecode, decoded, Except.map] at h
      | ok object => simp [hdecode, decoded, Except.map] at h

/-- The store drops the row of the object, if there is one, and queues its payload. -/
theorem deleteObject_eq {store : MetadataStore} (h : Deletable store.rows bucket) (key : Bytes) :
    ∃ next outcome, MonoBucket.deleteObject store bucket key now = .ok (next, outcome) ∧
      ∀ row : Bytes, row.head? ≠ some Keys.kOrphan →
        next.rows.find? row = rowAfter store.rows bucket [key] row := by
  have hrow : ∀ row, rowAfter store.rows bucket [key] row =
      if row = Keys.object bucket key then none else store.rows.find? row := by
    intro row
    simp only [rowAfter, List.map_cons, List.map_nil, List.mem_singleton]
  obtain ⟨found, hload⟩ := h.readable key
  cases found with
  | none =>
      refine ⟨store, {}, ?_, fun row _ => ?_⟩
      · rw [MonoBucket.deleteObject, h.present]
        show (loadObject store.rows (Keys.object bucket key) key >>= _) = _
        rw [hload]
        rfl
      · rw [hrow]
        split_ifs with hsame
        · rw [hsame]
          exact find?_of_loadObject_none hload
        · rfl
  | some existing =>
      refine ⟨{ store with
          rows := store.rows.write (deleteObjectBatch bucket key existing now)
          counters :=
            { store.counters with
              objects := store.counters.objects - 1
              bytes := store.counters.bytes - existing.size
              orphans := store.counters.orphans + 1 } },
        DeleteOutcome.ofObject existing, ?_, fun row hrowHead => ?_⟩
      · rw [MonoBucket.deleteObject, h.present]
        show (loadObject store.rows (Keys.object bucket key) key >>= _) = _
        rw [hload]
        rfl
      · have hmarker : row ≠ (orphanRow existing.blobId.items now).key := by
          rintro rfl
          exact hrowHead rfl
        show (store.rows.write (deleteObjectBatch bucket key existing now)).find? row = _
        rw [hrow, deleteObjectBatch, Rows.write_cons, Rows.write_cons, Rows.write_nil,
          Rows.find?_apply, if_neg hmarker, Rows.find?_apply]
        rfl

/-- And so does the engine, which forgets the payload's marker at once. -/
theorem engine_deleteObject {engine : StorageEngine} (h : Deletable engine.metadata.rows bucket)
    (key : Bytes) :
    ∃ next, engine.deleteObject bucket key now = (next, .ok ()) ∧
      ∀ row : Bytes, row.head? ≠ some Keys.kOrphan →
        next.metadata.rows.find? row = rowAfter engine.metadata.rows bucket [key] row := by
  obtain ⟨store, outcome, hstore, hrows⟩ := @deleteObject_eq bucket now engine.metadata h key
  have hdelete : engine.deleteObject bucket key now =
      (StorageEngine.reclaimNow
        { engine with
          metadata := store
          quotas := engine.quotas.recordDeletion bucket outcome.releasedBytes }
        outcome.releasedBlobId.toList, .ok ()) := by
    rw [StorageEngine.deleteObject, hstore]
  refine ⟨_, hdelete, fun row hrow => ?_⟩
  rw [← hrows row hrow]
  exact find?_of_markers (markers_forgetOrphans store _) hrow

/-- What stays of the bucket after a deletion. -/
theorem Deletable.of_rowAfter {before after : Rows} {keys : List Bytes} (h : Deletable before bucket)
    (hafter : ∀ row : Bytes, row.head? ≠ some Keys.kOrphan →
      after.find? row = rowAfter before bucket keys row) : Deletable after bucket where
  present := by
    have hsame : after.find? (Keys.bucket bucket) = before.find? (Keys.bucket bucket) := by
      rw [hafter _ (by simp [Keys.bucket, Keys.tagged, Keys.kBucket, Keys.kOrphan]), rowAfter,
        if_neg]
      intro hmem
      obtain ⟨key, -, hkey⟩ := List.mem_map.mp hmem
      exact absurd (congrArg List.head? hkey) (by
        simp [Keys.object, Keys.objectPrefix, Keys.bucket, Keys.tagged, Keys.kBucket, Keys.kObject])
    rw [requireBucket_congr hsame]
    exact h.present
  readable := by
    intro key
    have hrow := hafter (Keys.object bucket key) (by
      simp [Keys.object, Keys.objectPrefix, Keys.kObject, Keys.kOrphan])
    by_cases hmem : Keys.object bucket key ∈ keys.map (Keys.object bucket)
    · refine ⟨none, ?_⟩
      rw [loadObject, readRow, hrow, rowAfter, if_pos hmem]
    · rw [rowAfter, if_neg hmem] at hrow
      obtain ⟨found, hload⟩ := h.readable key
      exact ⟨found, (readRow_congr hrow).trans hload⟩

/-- What is reported about a key the loop comes to. -/
def reportOf (key : Bytes) : DeleteReport :=
  if key = [] then .failed key (ascii "InvalidArgument") (ascii "The key is empty.")
  else .deleted key

/-- One turn deletes the object of the key, unless the key is empty. -/
theorem deleteOne_spec (h : Deletable server.engine.metadata.rows bucket) (key : Bytes) :
    ∃ next, deleteOne config server bucket false now key = (next, .ok [reportOf key]) ∧
      ∀ row : Bytes, row.head? ≠ some Keys.kOrphan →
        next.engine.metadata.rows.find? row =
          rowAfter server.engine.metadata.rows bucket ([key].filter fun key => key ≠ []) row := by
  by_cases hempty : key = []
  · refine ⟨server, ?_, fun row _ => ?_⟩
    · rw [deleteOne, if_pos hempty, reportOf, if_pos hempty]
    · rw [List.filter_cons_of_neg (by simp [hempty])]
      rfl
  · obtain ⟨next, hdelete, hrows⟩ := @engine_deleteObject bucket now _ h key
    refine ⟨invalidateObject config bucket key { server with engine := next }, ?_, fun row hrow => ?_⟩
    · rw [deleteOne, if_neg hempty, hdelete, reportOf, if_neg hempty]
      rfl
    · rw [List.filter_cons_of_pos (by simp [hempty])]
      exact hrows row hrow

theorem rowAfter_append {rows after : Rows} {first second : List Bytes} {row : Bytes}
    (h : after.find? row = rowAfter rows bucket first row) :
    rowAfter after bucket second row = rowAfter rows bucket (first ++ second) row := by
  simp only [rowAfter, List.map_append, List.mem_append] at h ⊢
  rw [h]
  by_cases hfirst : row ∈ first.map (Keys.object bucket)
  · simp [hfirst]
  · simp [hfirst]

/-- The loop deletes the objects of all its keys but the empty ones, and reports each. -/
theorem deleteEach_spec {keys : List Bytes} (h : Deletable server.engine.metadata.rows bucket) :
    ∃ next, deleteEach config bucket false now server keys = (next, .ok (keys.map reportOf)) ∧
      ∀ row : Bytes, row.head? ≠ some Keys.kOrphan →
        next.engine.metadata.rows.find? row =
          rowAfter server.engine.metadata.rows bucket (keys.filter fun key => key ≠ []) row := by
  induction keys generalizing server with
  | nil => exact ⟨server, rfl, fun row _ => rfl⟩
  | cons key keys ih =>
      obtain ⟨middle, hone, hrows⟩ := @deleteOne_spec config server bucket now h key
      obtain ⟨next, hrest, hafter⟩ := ih (h.of_rowAfter hrows)
      refine ⟨next, ?_, fun row hrow => ?_⟩
      · rw [deleteEach, hone]
        dsimp only
        rw [hrest]
        rfl
      · have hsplit : (key :: keys).filter (fun key => key ≠ []) =
            [key].filter (fun key => key ≠ []) ++ keys.filter fun key => key ≠ [] := by
          rw [← List.filter_append]
          rfl
        rw [hafter row hrow, hsplit]
        exact rowAfter_append (hrows row hrow)

end Deleting

/-! ### Exactly the objects named -/

section Exact

variable {config : ServerConfig} {ticks : Int64} {server : Server} {bucket contentMd5 : Bytes}
  {now : TimestampMs} {checkContentMd5 : Bytes → Bytes → Except S3Exception Unit}
  {layout : Layout} {keys : List Bytes}

/-- A bucket that is there and decodes is found, in the cache or in the rows. -/
theorem requireBucket_finds (hname : isValidBucketName bucket = true) {record : BucketRecord}
    (hbucket : loadBucket server.engine.metadata.rows bucket = .ok (some record)) :
    ∃ cache found, S3.requireBucket config.hash server.engine.metadata.rows config.cacheTtlSeconds ticks
      server.cache bucket = (cache, .ok found) := by
  rw [S3.requireBucket, if_pos hname]
  dsimp only
  split
  · exact ⟨_, _, rfl⟩
  · rw [hbucket]
    exact ⟨_, _, rfl⟩

/-- What the handler makes of a document that carries valid keys. -/
theorem handleDeleteObjects_eq (hname : isValidBucketName bucket = true) {record : BucketRecord}
    (hbucket : loadBucket server.engine.metadata.rows bucket = .ok (some record))
    (hcount : keys.length ≤ kMaxDeleteKeys) (hkeys : ∀ key ∈ keys, isValidObjectKey key = true)
    (hnonempty : keys ≠ [])
    (hmd5 : verifyContentMd5 checkContentMd5 contentMd5 (deletionDocument layout keys) = .ok ()) :
    ∃ cache, handleDeleteObjects config ticks checkContentMd5 server bucket contentMd5
        (deletionDocument layout keys) now =
      deleteEach config bucket false now { server with cache := cache } (keys.map trimmed) := by
  obtain ⟨cache, found, hfound⟩ := @requireBucket_finds config ticks server bucket hname record hbucket
  refine ⟨cache, ?_⟩
  rw [handleDeleteObjects, hfound]
  dsimp only
  rw [readDeletion_deletionDocument hcount hkeys hnonempty hmd5]

/-- The response can be read for the keys it reports. -/
theorem parseXml_deleteResult (hcount : keys.length ≤ kMaxDeleteKeys)
    (hkeys : ∀ key ∈ keys, isValidObjectKey key = true) :
    ∃ root, parseXml (deleteResult (keys.map DeleteReport.deleted)) = .ok root ∧
      root.children.map (fun entry => (entry.name, (entry.child? (ascii "Key")).map XmlNode.text)) =
        keys.map fun key => (ascii "Deleted", some key) := by
  have hentries : (keys.map DeleteReport.deleted).map reportEntry =
      keys.map (keyEntry (ascii "Deleted")) := by
    rw [List.map_map]
    rfl
  refine ⟨writerLayout.documentNode (ascii "DeleteResult") (keys.map (keyEntry (ascii "Deleted"))),
    ?_, ?_⟩
  · rw [deleteResult, hentries, finish_writeEntries]
    exact parseXml_keyEntries writerLayout rfl rfl (by decide) (by decide) hcount fun key hkey =>
      ⟨length_le_of_isValidObjectKey (hkeys key hkey), isCarried_of_isValidObjectKey (hkeys key hkey)⟩
  · show ((keys.map (keyEntry (ascii "Deleted"))).map writerLayout.entryNode).map _ = _
    rw [List.map_map, List.map_map]
    rfl

/-- Every object of a state the front doors reach can be read. -/
theorem Filed.readable {rows : Rows} (h : Filed rows) (bucket key : Bytes) :
    (loadObject rows (Keys.object bucket key) key).Returns := by
  cases hfind : rows.find? (Keys.object bucket key) with
  | none =>
      refine ⟨none, ?_⟩
      rw [loadObject, readRow, hfind]
  | some stored =>
      obtain ⟨object, rfl⟩ := (h.filed _ stored hfind).object rfl
      exact ⟨some { object with key := key },
        readRow_of_find? hfind (decodeObject_encodeObject { object with key := key })⟩

theorem present_of_loadBucket {rows : Rows} {record : BucketRecord}
    (h : loadBucket rows bucket = .ok (some record)) : requireBucket rows bucket = .ok () := by
  obtain ⟨stored, hfind, -⟩ := decode_of_readRow h
  rw [requireBucket, hfind]

/-- A valid key is trimmed of spaces only. -/
theorem trimmed_eq_self_iff {key : Bytes} (hvalid : isValidObjectKey key = true) :
    trimmed key = key ↔ key.head? ≠ some 0x20 ∧ key.getLast? ≠ some 0x20 := by
  have hspace : ∀ byte ∈ key, isXmlSpace byte = true ↔ byte = 0x20 := by
    intro byte hbyte
    have hcarried := isCarried_of_isValidObjectKey hvalid byte hbyte
    simp only [isValidObjectKey, Bool.and_eq_true, List.all_eq_true] at hvalid
    have hcontrol := hvalid.2 byte hbyte
    simp only [isControl, Bool.not_eq_true', decide_eq_false_iff_not, not_or, not_lt] at hcontrol
    constructor
    · intro hblank
      simp only [isXmlSpace, decide_eq_true_eq, Bool.decide_or, Bool.or_eq_true] at hblank
      rcases hblank with rfl | rfl | rfl | rfl
      · rfl
      · exact absurd hcontrol.1 (by decide)
      · exact absurd hcontrol.1 (by decide)
      · exact absurd hcontrol.1 (by decide)
    · rintro rfl
      rfl
  have hhead : key.dropWhile isXmlSpace = key ↔ key.head? ≠ some 0x20 := by
    rw [List.dropWhile_eq_self_iff]
    cases key with
    | nil => simp
    | cons byte rest =>
        have := hspace byte List.mem_cons_self
        simp [this]
  have hlast : key.rdropWhile isXmlSpace = key ↔ key.getLast? ≠ some 0x20 := by
    rw [List.rdropWhile_eq_self_iff]
    constructor
    · intro h hlast
      have hne : key ≠ [] := by
        rintro rfl
        exact absurd hlast (by simp)
      rw [List.getLast?_eq_some_getLast hne] at hlast
      exact h hne ((hspace _ (List.getLast_mem hne)).mpr (Option.some.inj hlast))
    · intro h hne hblank
      refine h ?_
      rw [List.getLast?_eq_some_getLast hne]
      exact congrArg some ((hspace _ (List.getLast_mem hne)).mp hblank)
  rw [← hhead, ← hlast, trimmed]
  constructor
  · intro h
    have hshort : key.length ≤ (key.dropWhile isXmlSpace).length := by
      have hdrop := (List.rdropWhile_prefix isXmlSpace (l := key.dropWhile isXmlSpace)).length_le
      rwa [h] at hdrop
    have hfront : key.dropWhile isXmlSpace = key :=
      (List.dropWhile_suffix isXmlSpace).eq_of_length_le hshort
    rw [hfront] at h
    exact ⟨hfront, h⟩
  · rintro ⟨hfront, hback⟩
    rw [hfront, hback]

/-- A deletion does what it was asked exactly when no key starts or ends with a space. -/
theorem deletesGiven_iff (hname : isValidBucketName bucket = true) {record : BucketRecord}
    (hbucket : loadBucket server.engine.metadata.rows bucket = .ok (some record))
    (hobjects : ∀ key, (loadObject server.engine.metadata.rows (Keys.object bucket key) key).Returns)
    (hcount : keys.length ≤ kMaxDeleteKeys) (hkeys : ∀ key ∈ keys, isValidObjectKey key = true)
    (hmd5 : verifyContentMd5 checkContentMd5 contentMd5 (deletionDocument layout keys) = .ok ()) :
    DeletesGiven server.engine.metadata.rows bucket keys
        (handleDeleteObjects config ticks checkContentMd5 server bucket contentMd5
          (deletionDocument layout keys) now) ↔
      ∀ key ∈ keys, key.head? ≠ some 0x20 ∧ key.getLast? ≠ some 0x20 := by
  have hdeletable : Deletable server.engine.metadata.rows bucket :=
    ⟨present_of_loadBucket hbucket, hobjects⟩
  have htrimmed : (∀ key ∈ keys, key.head? ≠ some 0x20 ∧ key.getLast? ≠ some 0x20) ↔
      ∀ key ∈ keys, trimmed key = key :=
    forall₂_congr fun key hkey => (trimmed_eq_self_iff (hkeys key hkey)).symm
  rw [htrimmed]
  by_cases hnonempty : keys = []
  · subst hnonempty
    obtain ⟨cache, found, hfound⟩ := @requireBucket_finds config ticks server bucket hname record hbucket
    obtain ⟨exception, hexception⟩ := @readDeletion_nil layout checkContentMd5 contentMd5
    have hanswer : handleDeleteObjects config ticks checkContentMd5 server bucket contentMd5
        (deletionDocument layout []) now = ({ server with cache := cache }, .error (.s3 exception)) := by
      rw [handleDeleteObjects, hfound]
      dsimp only
      rw [hexception]
    rw [hanswer]
    refine iff_of_true ⟨fun _ h => (nomatch h), fun _ _ _ => rfl, rfl, fun _ h => (nomatch h)⟩
      fun _ h => (nomatch h)
  · obtain ⟨cache, hanswer⟩ := @handleDeleteObjects_eq config ticks server bucket contentMd5 now
      checkContentMd5 layout keys hname record hbucket hcount hkeys hnonempty hmd5
    obtain ⟨next, hnext, hrows⟩ := @deleteEach_spec config { server with cache := cache } bucket now
      (keys.map trimmed) hdeletable
    rw [hanswer, hnext]
    constructor
    · intro h key hkey
      have hreported : (keys.map trimmed).map reportOf = keys.map DeleteReport.deleted := h.reported
      rw [List.map_map] at hreported
      have hsame := List.map_inj_left.mp hreported key hkey
      simp only [Function.comp_apply, reportOf] at hsame
      split_ifs at hsame
      exact DeleteReport.deleted.inj hsame
    · intro h
      have hall : keys.map trimmed = keys := by
        conv_rhs => rw [← List.map_id keys]
        exact List.map_congr_left h
      have hfilled : ∀ key ∈ keys, key ≠ [] := by
        rintro key hkey rfl
        exact absurd (hkeys [] hkey) (by decide)
      have hfilter : keys.filter (fun key => key ≠ []) = keys :=
        List.filter_eq_self.mpr fun key hkey => decide_eq_true (hfilled key hkey)
      have hreports : keys.map reportOf = keys.map DeleteReport.deleted :=
        List.map_congr_left fun key hkey => if_neg (hfilled key hkey)
      rw [hall, hfilter] at hrows
      rw [hall, hreports]
      refine ⟨fun key hkey => ?_, fun row hrow hother => ?_, rfl, fun reports hreported => ?_⟩
      · rw [hrows _ (by simp [Keys.object, Keys.objectPrefix, Keys.kObject, Keys.kOrphan]), rowAfter,
          if_pos (List.mem_map_of_mem hkey)]
      · rw [hrows row (by simp [hrow, Keys.kObject, Keys.kOrphan]), rowAfter, if_neg]
        intro hmem
        obtain ⟨key, hkey, hsame⟩ := List.mem_map.mp hmem
        exact hother key hkey hsame.symm
      · obtain rfl := Except.ok.inj hreported
        exact parseXml_deleteResult hcount hkeys

end Exact

/-! ### Fixed runs -/

section Fixed

/-- Two objects whose keys differ by a space. -/
def spacedKeys : List Label :=
  [(0, .createBucket photos 0),
    (1, .consoleUpload photos { key := ascii "a", blobId := ⟨ascii "blob", fits_blob⟩ } 1),
    (2, .consoleUpload photos { key := ascii " a", blobId := ⟨ascii "other", by decide⟩ } 2)]

/-- The answer to a request without a Content-MD5 header that names one of the keys. -/
def deletion (key : Bytes) : Server × Except HandlerError (List DeleteReport) :=
  handleDeleteObjects smallConfig 3 (fun _ _ => .ok ()) (after smallConfig coldServer spacedKeys)
    photos [] (deletionDocument writerLayout [key]) 3

theorem filed_spacedKeys : Filed (after smallConfig coldServer spacedKeys).engine.metadata.rows := by
  have hruns : (Trace.run (step smallConfig) coldServer spacedKeys).isSome := by decide +kernel
  obtain ⟨final, hfinal⟩ := Option.isSome_iff_exists.mp hruns
  have hafter : after smallConfig coldServer spacedKeys = final := by rw [after, hfinal]; rfl
  rw [hafter]
  exact filed_of_createsValid rfl (by decide +kernel) hfinal

theorem loadBucket_spacedKeys : loadBucket (after smallConfig coldServer spacedKeys).engine.metadata.rows
    photos = .ok (some { name := photos }) := by
  decide +kernel

/-- The object without the space is deleted alone. -/
theorem deletesGiven_iff_plain : DeletesGiven
    (after smallConfig coldServer spacedKeys).engine.metadata.rows photos [ascii "a"]
    (deletion (ascii "a")) :=
  (deletesGiven_iff (by decide) loadBucket_spacedKeys (filed_spacedKeys.readable photos) (by decide)
    (by decide) rfl).mpr (by decide)

/-- A deletion of the object with the space deletes the other one, and reports it. -/
theorem spaced_key_deletes_another :
    isValidObjectKey (ascii " a") = true ∧
      (deletion (ascii " a")).1.engine.metadata.rows.find? (Keys.object photos (ascii "a")) = none ∧
      ((after smallConfig coldServer spacedKeys).engine.metadata.rows.find?
        (Keys.object photos (ascii "a"))).isSome ∧
      ((deletion (ascii " a")).1.engine.metadata.rows.find?
        (Keys.object photos (ascii " a"))).isSome ∧
      reportsOf (deletion (ascii " a")).2 = [.deleted (ascii "a")] ∧
      ¬ DeletesGiven (after smallConfig coldServer spacedKeys).engine.metadata.rows photos
        [ascii " a"] (deletion (ascii " a")) := by
  have hdeletable : Deletable (after smallConfig coldServer spacedKeys).engine.metadata.rows photos :=
    ⟨present_of_loadBucket loadBucket_spacedKeys, filed_spacedKeys.readable photos⟩
  obtain ⟨cache, hanswer⟩ := @handleDeleteObjects_eq smallConfig 3
    (after smallConfig coldServer spacedKeys) photos [] 3 (fun _ _ => .ok ()) writerLayout [ascii " a"]
    (by decide) _ loadBucket_spacedKeys (by decide) (by decide) (by decide) rfl
  obtain ⟨next, hnext, hrows⟩ := @deleteEach_spec smallConfig
    { after smallConfig coldServer spacedKeys with cache := cache } photos 3 [ascii "a"] hdeletable
  have hdeletion : deletion (ascii " a") = (next, .ok [.deleted (ascii "a")]) := hanswer.trans hnext
  have hstays : next.engine.metadata.rows.find? (Keys.object photos (ascii " a")) =
      (after smallConfig coldServer spacedKeys).engine.metadata.rows.find?
        (Keys.object photos (ascii " a")) := hrows _ (by decide)
  have hstored : ((after smallConfig coldServer spacedKeys).engine.metadata.rows.find?
      (Keys.object photos (ascii " a"))).isSome := by decide +kernel
  rw [hdeletion]
  refine ⟨by decide, hrows _ (by decide), by decide +kernel, ?_, rfl, fun h => ?_⟩
  · rw [hstays]
    exact hstored
  · have hgone := h.removed _ (List.mem_singleton.mpr rfl)
    rw [hstays] at hgone
    rw [hgone] at hstored
    exact absurd hstored (by decide)

end Fixed

end MonoBucket.FrontDoors
