/-
Counting the rows

The usage counters are sums over the rows: a row counts for each kind whose tag it
has, an object's row for its size as well. The scan of a start adds them up row by
row; here the same sums are followed through every batch the store writes.
-/

import MonoBucket.Storage.BlobRows
import MonoBucket.Storage.Written

namespace MonoBucket

open Codec

/-! ### What a row counts for -/

/-- The counters of `usage()`. -/
inductive Kind
  | buckets | objects | bytes | uploads | orphans
  deriving DecidableEq

namespace Kind

/-- The rows a counter is over. -/
def tag : Kind → UInt8
  | buckets => Keys.kBucket
  | objects | bytes => Keys.kObject
  | uploads => Keys.kUploadById
  | orphans => Keys.kOrphan

end Kind

/-- The size in an object's or a part's row, zero when it is not one. -/
def payloadSize (stored : Bytes) : UInt64 := (runOn decodePayloadSize stored).toOption.getD 0

def Kind.amount (stored : Bytes) : Kind → Nat
  | .bytes => (payloadSize stored).toNat
  | _ => 1

def weigh (kind : Kind) (key stored : Bytes) : Nat :=
  if key.head? = some kind.tag then kind.amount stored else 0

/-- The sum over all rows. -/
def Rows.tally (rows : Rows) (kind : Kind) : Nat := OrderedMap.total rows (weigh kind)

def Counters.get (counters : Counters) : Kind → UInt64
  | .buckets => counters.buckets
  | .objects => counters.objects
  | .bytes => counters.bytes
  | .uploads => counters.uploads
  | .orphans => counters.orphans

theorem Counters.eq_of_get {first second : Counters}
    (h : ∀ kind, first.get kind = second.get kind) : first = second := by
  obtain ⟨buckets, objects, bytes, uploads, orphans⟩ := first
  rw [Counters.mk.injEq]
  exact ⟨h .buckets, h .objects, h .bytes, h .uploads, h .orphans⟩

theorem payloadSize_encodeObject (object : ObjectRecord) :
    payloadSize (encodeObject object) = object.size := by
  rw [payloadSize, decodePayloadSize_encodeObject]
  rfl

/-! ### The scan -/

section Scan

variable {scan next : MetadataScan} {rows : Rows}

theorem scanRow_counters {row : Bytes × Bytes} (h : scan.scanRow row = .ok next) (kind : Kind) :
    next.counters.get kind = scan.counters.get kind + UInt64.ofNat (weigh kind row.1 row.2) := by
  have hzero : ∀ n : UInt64, n = n + UInt64.ofNat 0 := fun n => (UInt64.add_zero n).symm
  obtain ⟨_ | ⟨tag, rest⟩, stored⟩ := row
  · obtain rfl := Except.ok.inj h
    exact hzero _
  · rw [MetadataScan.scanRow] at h
    split_ifs at h with hbucket hupload horphan hpart hobject
    · obtain rfl := Except.ok.inj h
      subst hbucket
      cases kind <;> first | rfl | exact hzero _
    · obtain ⟨upload, -, h⟩ := Except.bind_eq_ok_iff.mp h
      obtain rfl := Except.pure_eq_ok_iff.mp h
      subst hupload
      cases kind <;> first | rfl | exact hzero _
    · obtain rfl := Except.ok.inj h
      subst horphan
      cases kind <;> first | rfl | exact hzero _
    · subst hpart
      rw [MetadataScan.scanPart] at h
      split at h
      · obtain rfl := Except.ok.inj h
        cases kind <;> exact hzero _
      · obtain ⟨size, -, h⟩ := Except.bind_eq_ok_iff.mp h
        obtain rfl := Except.pure_eq_ok_iff.mp h
        cases kind <;> exact hzero _
    · obtain ⟨size, hsize, h⟩ := Except.bind_eq_ok_iff.mp h
      obtain rfl := Except.pure_eq_ok_iff.mp h
      subst hobject
      cases kind with
      | bytes =>
          have hamount : weigh .bytes (Keys.kObject :: rest) stored = size.toNat := by
            have htag : (Keys.kObject :: rest).head? = some Kind.bytes.tag := rfl
            rw [weigh, if_pos htag, Kind.amount, payloadSize, hsize]
            rfl
          rw [hamount, UInt64.ofNat_toNat]
          rfl
      | _ => first | rfl | exact hzero _
    · obtain rfl := Except.ok.inj h
      have hnone : weigh kind (tag :: rest) stored = 0 := by
        rw [weigh, if_neg]
        intro htag
        obtain rfl := Option.some.inj htag
        cases kind <;> first | exact hbucket rfl | exact hobject rfl | exact hupload rfl |
          exact horphan rfl
      rw [hnone]
      exact hzero _

theorem scanRows_counters {listed : List (Bytes × Bytes)} (h : scanRows scan listed = .ok next)
    (kind : Kind) :
    next.counters.get kind = scan.counters.get kind +
      UInt64.ofNat (listed.map fun row => weigh kind row.1 row.2).sum := by
  induction listed generalizing scan with
  | nil =>
      obtain rfl := Except.ok.inj h
      exact (UInt64.add_zero _).symm
  | cons row rest ih =>
      rw [scanRows] at h
      obtain ⟨middle, hrow, hrest⟩ := Except.bind_eq_ok_iff.mp h
      have hread : scan.scanRow row = .ok middle := by
        cases hscan : scan.scanRow row with
        | error error => simp [hscan, decoded] at hrow
        | ok read => simpa [hscan, decoded] using hrow
      rw [ih hrest, scanRow_counters hread, List.map_cons, List.sum_cons, UInt64.ofNat_add,
        UInt64.add_assoc]

end Scan

/-! ### Rows put and rows deleted -/

section Tally

variable {rows : Rows} {kind : Kind} {key stored value : Bytes} {now : TimestampMs}

theorem tally_apply_put (rows : Rows) (kind : Kind) (key value : Bytes) :
    (rows.apply (.put key value)).tally kind + (rows.find? key).elim 0 (weigh kind key) =
      rows.tally kind + weigh kind key value :=
  OrderedMap.total_insert rows (weigh kind) key value

theorem tally_apply_delete (rows : Rows) (kind : Kind) (key : Bytes) :
    (rows.apply (.delete key)).tally kind + (rows.find? key).elim 0 (weigh kind key) =
      rows.tally kind :=
  OrderedMap.total_erase rows (weigh kind) key

theorem weigh_of_tag (h : key.head? ≠ some kind.tag) : weigh kind key stored = 0 := if_neg h

/-- A row of another kind comes and goes unnoticed. -/
theorem tally_apply_of_tag {op : RowOp} (h : op.key.head? ≠ some kind.tag) :
    (rows.apply op).tally kind = rows.tally kind := by
  have hold : (rows.find? op.key).elim 0 (weigh kind op.key) = 0 := by
    cases rows.find? op.key with
    | none => rfl
    | some stored => exact weigh_of_tag h
  cases op with
  | put key value =>
      have hput := tally_apply_put rows kind key value
      have hold : (rows.find? key).elim 0 (weigh kind key) = 0 := hold
      have hnew : weigh kind key value = 0 := weigh_of_tag h
      omega
  | delete key =>
      have hdelete := tally_apply_delete rows kind key
      have hold : (rows.find? key).elim 0 (weigh kind key) = 0 := hold
      omega

theorem tally_write_of_tags {batch : WriteBatch} (h : ∀ op ∈ batch, op.key.head? ≠ some kind.tag) :
    (rows.write batch).tally kind = rows.tally kind := by
  induction batch generalizing rows with
  | nil => rfl
  | cons op rest ih =>
      rw [Rows.write_cons, ih fun other hother => h other (List.mem_cons_of_mem _ hother),
        tally_apply_of_tag (h op (List.mem_cons_self ..))]

theorem tally_put_new (htag : key.head? = some kind.tag) (hfree : rows.find? key = none) :
    (rows.apply (.put key value)).tally kind = rows.tally kind + kind.amount value := by
  have hput := tally_apply_put rows kind key value
  rwa [hfree, weigh, if_pos htag] at hput

theorem tally_put_over (htag : key.head? = some kind.tag) (hfind : rows.find? key = some stored) :
    (rows.apply (.put key value)).tally kind + kind.amount stored =
      rows.tally kind + kind.amount value := by
  have hput := tally_apply_put rows kind key value
  rw [hfind, Option.elim_some, weigh, weigh, if_pos htag] at hput
  simpa [htag] using hput

theorem tally_delete (htag : key.head? = some kind.tag) (hfind : rows.find? key = some stored) :
    (rows.apply (.delete key)).tally kind + kind.amount stored = rows.tally kind := by
  have hdelete := tally_apply_delete rows kind key
  rw [hfind, Option.elim_some, weigh, if_pos htag] at hdelete
  exact hdelete

/-! ### Markers -/

theorem find?_orphan_of_queuedAt {blobId : Bytes} (h : rows.queuedAt blobId = none) :
    rows.find? (Keys.orphan blobId) = none := Option.map_eq_none_iff.mp h

theorem tally_mark {blobId : Bytes} (h : rows.queuedAt blobId = none) :
    (rows.apply (orphanRow blobId now)).tally .orphans = rows.tally .orphans + 1 :=
  tally_put_new rfl (find?_orphan_of_queuedAt h)

theorem tally_unmark {blobId : Bytes} (h : rows.queuedAt blobId ≠ none) :
    (rows.apply (.delete (Keys.orphan blobId))).tally .orphans + 1 = rows.tally .orphans := by
  obtain ⟨stored, hstored⟩ : ∃ stored, rows.find? (Keys.orphan blobId) = some stored := by
    cases hfind : rows.find? (Keys.orphan blobId) with
    | none => exact absurd (by rw [Rows.queuedAt, hfind]; rfl) h
    | some stored => exact ⟨stored, rfl⟩
  exact tally_delete rfl hstored

/-- Publishing takes the payload's own marker and adds one for what it releases. -/
theorem tally_publishBatch {storedKey blobId : Bytes} {released : Option Bytes}
    (hkey : storedKey.head? ≠ some Keys.kOrphan) (hmarked : rows.queuedAt blobId ≠ none)
    (hreleased : ∀ old ∈ released, old ≠ blobId ∧ rows.queuedAt old = none) :
    (rows.write (publishBatch storedKey value blobId released now)).tally .orphans + 1 =
      rows.tally .orphans + released.toList.length := by
  have hput : (rows.apply (.put storedKey value)).queuedAt = rows.queuedAt :=
    queuedAt_apply_of_tag hkey
  have htally : (rows.apply (.put storedKey value)).tally .orphans = rows.tally .orphans :=
    tally_apply_of_tag hkey
  have hdropped : ((rows.apply (.put storedKey value)).apply
      (.delete (Keys.orphan blobId))).tally .orphans + 1 =
      (rows.apply (.put storedKey value)).tally .orphans := tally_unmark (by rwa [hput])
  cases released with
  | none =>
      show ((rows.apply (.put storedKey value)).apply
        (.delete (Keys.orphan blobId))).tally .orphans + 1 = _
      rw [hdropped, htally]
      rfl
  | some old =>
      obtain ⟨hne, hfree⟩ := hreleased old rfl
      have hmark : (((rows.apply (.put storedKey value)).apply (.delete (Keys.orphan blobId))).apply
          (orphanRow old now)).tally .orphans =
          ((rows.apply (.put storedKey value)).apply (.delete (Keys.orphan blobId))).tally .orphans +
            1 := tally_mark (by rw [queuedAt_delete_orphan, if_neg hne, hput, hfree])
      show (((rows.apply (.put storedKey value)).apply (.delete (Keys.orphan blobId))).apply
        (orphanRow old now)).tally .orphans + 1 = _
      rw [hmark, hdropped, htally]
      rfl

theorem tally_publishBatch_of_ne {storedKey blobId : Bytes} {released : Option Bytes}
    (hkind : kind ≠ .orphans) :
    (rows.write (publishBatch storedKey value blobId released now)).tally kind =
      (rows.apply (.put storedKey value)).tally kind := by
  have htag : (Keys.kOrphan : UInt8) ≠ kind.tag := by
    cases kind <;> first | decide | exact absurd rfl hkind
  show ((rows.apply (.put storedKey value)).write (.delete (Keys.orphan blobId) ::
    released.toList.map fun blobId => orphanRow blobId now)).tally kind = _
  refine tally_write_of_tags fun op hop hsame => htag ?_
  rcases List.mem_cons.mp hop with rfl | hmark
  · exact Option.some.inj hsame
  · obtain ⟨old, -, rfl⟩ := List.mem_map.mp hmark
    exact Option.some.inj hsame

/-- Every part released gets a marker. -/
theorem tally_releasePartsBatch {uploadId : Bytes} {parts : List PartRecord}
    (hnodup : (partBlobIds parts).Nodup) (hfree : ∀ blobId ∈ partBlobIds parts,
      rows.queuedAt blobId = none) :
    (rows.write (releasePartsBatch uploadId parts now)).tally .orphans =
      rows.tally .orphans + parts.length := by
  induction parts generalizing rows with
  | nil => rfl
  | cons part rest ih =>
      obtain ⟨hnew, hnodup⟩ := List.nodup_cons.mp hnodup
      have hdelete : (rows.apply (.delete (Keys.part uploadId part.partNumber))).queuedAt =
          rows.queuedAt := queuedAt_apply_of_tag (by decide : some Keys.kPart ≠ some Keys.kOrphan)
      have htally : (rows.apply (.delete (Keys.part uploadId part.partNumber))).tally .orphans =
          rows.tally .orphans :=
        tally_apply_of_tag (by decide : some Keys.kPart ≠ some Keys.kOrphan)
      have hmark : ((rows.apply (.delete (Keys.part uploadId part.partNumber))).apply
          (orphanRow part.blobId.items now)).tally .orphans =
          (rows.apply (.delete (Keys.part uploadId part.partNumber))).tally .orphans + 1 :=
        tally_mark (by rw [hdelete, hfree _ (List.mem_cons_self ..)])
      show (((rows.apply (.delete (Keys.part uploadId part.partNumber))).apply
        (orphanRow part.blobId.items now)).write (releasePartsBatch uploadId rest now)).tally
          .orphans = _
      rw [ih hnodup, hmark, htally, List.length_cons]
      · omega
      · intro blobId hmem
        have hne : blobId ≠ part.blobId.items := fun h => hnew (by rwa [h] at hmem)
        rw [queuedAt_put_orphan, if_neg hne, hdelete]
        exact hfree blobId (List.mem_cons_of_mem _ hmem)

theorem tally_releasePartsBatch_of_ne {uploadId : Bytes} {parts : List PartRecord}
    (hkind : kind ≠ .orphans) :
    (rows.write (releasePartsBatch uploadId parts now)).tally kind = rows.tally kind := by
  refine tally_write_of_tags fun op hop hsame => ?_
  obtain ⟨part, -, hmem⟩ := List.mem_flatMap.mp hop
  rcases List.mem_cons.mp hmem with rfl | hmark
  · have htag : some Keys.kPart = some kind.tag := hsame
    cases kind <;> exact absurd htag (by decide)
  · obtain rfl := List.mem_singleton.mp hmark
    have htag : some Keys.kOrphan = some kind.tag := hsame
    cases kind <;> first | exact hkind rfl | exact absurd htag (by decide)

/-- The marks of distinct payloads dropped together. -/
theorem tally_forget {blobIds : List Bytes} (hnodup : blobIds.Nodup)
    (hmarked : ∀ blobId ∈ blobIds, rows.queuedAt blobId ≠ none) :
    (rows.write (blobIds.map fun blobId => .delete (Keys.orphan blobId))).tally .orphans +
      blobIds.length = rows.tally .orphans := by
  induction blobIds generalizing rows with
  | nil => rfl
  | cons blobId rest ih =>
      obtain ⟨hnew, hnodup⟩ := List.nodup_cons.mp hnodup
      have hfirst := tally_unmark (hmarked blobId (List.mem_cons_self ..))
      have hkept : ∀ other ∈ rest,
          (rows.apply (.delete (Keys.orphan blobId))).queuedAt other ≠ none := by
        intro other hother
        have hne : other ≠ blobId := fun h => hnew (by rwa [h] at hother)
        rw [queuedAt_delete_orphan, if_neg hne]
        exact hmarked other (List.mem_cons_of_mem _ hother)
      have hrest := ih hnodup hkept
      rw [List.map_cons, Rows.write_cons, List.length_cons]
      omega

end Tally

/-! ### Counters that are counted right -/

/-- The counters are the sums over the rows. -/
def Counted (counters : Counters) (rows : Rows) : Prop :=
  ∀ kind, counters.get kind = UInt64.ofNat (rows.tally kind)

section Counted

variable {rows after : Rows} {counters : Counters} {now : TimestampMs}

/-- Opening the store on rows counts them. -/
theorem counted_openMetadataStore {opened : MetadataStore}
    {charges : OrderedMap Bytes BucketCharge} (h : openMetadataStore rows = .ok (opened, charges)) :
    Counted opened.counters rows := by
  rw [openMetadataStore] at h
  obtain ⟨verified, hverified, h⟩ := Except.bind_eq_ok_iff.mp h
  obtain ⟨scan, hscan, h⟩ := Except.bind_eq_ok_iff.mp h
  obtain ⟨rfl, -⟩ := Prod.mk.inj (Except.pure_eq_ok_iff.mp h)
  have hsame : ∀ kind, verified.tally kind = rows.tally kind := by
    intro kind
    rw [verifyFormatVersion] at hverified
    split at hverified
    · obtain rfl := Except.ok.inj hverified
      refine tally_write_of_tags fun op hop htag => ?_
      obtain rfl := List.mem_singleton.mp hop
      have htag : some Keys.kMeta = some kind.tag := htag
      cases kind <;> exact absurd htag (by decide)
    · split_ifs at hverified
      · obtain rfl := Except.ok.inj hverified
        rfl
      · cases hverified
  intro kind
  rw [← hsame, scanRows_counters hscan kind]
  have hzero : ({} : MetadataScan).counters.get kind = 0 := by cases kind <;> rfl
  rw [hzero, UInt64.zero_add]
  rfl

/-- A store opens on the rows it has written. -/
theorem openMetadataStore_returns {P : BucketRecord → Prop} (hrows : rows.Holds (Written P)) :
    (openMetadataStore rows).Returns := by
  have hverified : (verifyFormatVersion rows).Yields fun verified =>
      verified.Holds (Written P) := by
    rw [verifyFormatVersion]
    split
    · refine ⟨_, rfl, hrows.write fun key value hput => ?_⟩
      obtain ⟨rfl, rfl⟩ := RowOp.put.inj (List.mem_singleton.mp hput)
      exact Written.formatVersion
    · rename_i stored hfind
      obtain rfl := (hrows _ _ hfind).formatVersion_inv rfl
      exact ⟨rows, if_pos (by decide +kernel), hrows⟩
  have hopened : (openMetadataStore rows).Yields fun _ => True :=
    hverified.bind fun verified hwritten =>
      (scanRows_returns (fun row hrow => hwritten.of_mem hrow) {}).yields.bind
        fun _ _ => ⟨_, rfl, trivial⟩
  exact hopened.returns

/-- A count changes by what comes and what goes, in 64 bits as in numbers. -/
theorem ofNat_of_add {before after removed added : Nat} (h : after + removed = before + added) :
    UInt64.ofNat after = UInt64.ofNat before - UInt64.ofNat removed + UInt64.ofNat added := by
  have hcount := congrArg UInt64.ofNat h
  rw [UInt64.ofNat_add, UInt64.ofNat_add] at hcount
  grind

/-! ### The mutations' counters -/

variable {P : BucketRecord → Prop}

/-- The row of an object that was read has the size that was read. -/
theorem payloadSize_of_loadObject (hrows : rows.Holds (Written P)) {bucket key : Bytes}
    {object : ObjectRecord} (h : loadObject rows (Keys.object bucket key) key = .ok (some object)) :
    ∃ stored, rows.find? (Keys.object bucket key) = some stored ∧
      payloadSize stored = object.size := by
  obtain ⟨stored, hfind, hdecode⟩ := decode_of_readRow h
  refine ⟨stored, hfind, ?_⟩
  obtain ⟨written, rfl⟩ := (hrows _ _ hfind).object_inv rfl
  have hread : decodeObject key (encodeObject written) = .ok { written with key := key } :=
    decodeObject_encodeObject { written with key := key }
  rw [hread] at hdecode
  obtain rfl := Except.ok.inj hdecode
  exact payloadSize_encodeObject written

theorem orphans_publishing (counters : Counters) (previous : Option ObjectRecord) :
    (counters.publishing previous).orphans =
      counters.orphans - 1 + UInt64.ofNat previous.toList.length := by
  cases previous with
  | none => exact (UInt64.add_zero _).symm
  | some object => rfl

/-- An object's row written: what `putObject` and the first part of a completion
count. -/
theorem counted_putObjectBatch (h : Counted counters rows) (hrows : rows.Holds (Written P))
    {bucket : Bytes} {object : ObjectRecord} {previous : Option ObjectRecord}
    (hload : loadObject rows (Keys.object bucket object.key) object.key = .ok previous)
    (hmarked : rows.queuedAt object.blobId.items ≠ none)
    (hreleased : ∀ old ∈ previous, old.blobId.items ≠ object.blobId.items ∧
      rows.queuedAt old.blobId.items = none) :
    Counted
      { counters.publishing previous with
        bytes := (counters.publishing previous).bytes + object.size }
      (rows.write (putObjectBatch bucket object previous now)) := by
  have hrow : ∀ {kind : Kind}, kind ≠ .orphans →
      (rows.write (putObjectBatch bucket object previous now)).tally kind =
        (rows.apply (.put (Keys.object bucket object.key) (encodeObject object))).tally kind :=
    fun hkind => tally_publishBatch_of_ne hkind
  have hother : ∀ {kind : Kind}, kind ≠ .orphans → some Keys.kObject ≠ some kind.tag →
      (rows.write (putObjectBatch bucket object previous now)).tally kind = rows.tally kind :=
    fun hkind htag => (hrow hkind).trans (tally_apply_of_tag htag)
  intro kind
  cases kind with
  | buckets =>
      rw [hother (by decide) (by decide), ← h .buckets]
      cases previous <;> rfl
  | uploads =>
      rw [hother (by decide) (by decide), ← h .uploads]
      cases previous <;> rfl
  | orphans =>
      have hcount : (rows.write (putObjectBatch bucket object previous now)).tally .orphans + 1 =
          rows.tally .orphans + (PutOutcome.ofObject previous).releasedBlobId.toList.length := by
        refine tally_publishBatch (by decide : some Keys.kObject ≠ some Keys.kOrphan) hmarked ?_
        intro blobId hblobId
        obtain ⟨old, hold, rfl⟩ := Option.map_eq_some_iff.mp hblobId
        exact hreleased old hold
      have hlength : (PutOutcome.ofObject previous).releasedBlobId.toList.length =
          previous.toList.length := by cases previous <;> rfl
      rw [ofNat_of_add hcount, hlength, ← h .orphans]
      exact orphans_publishing counters previous
  | objects =>
      rw [hrow (by decide)]
      cases previous with
      | none =>
          rw [tally_put_new rfl (find?_of_readRow_none hload), UInt64.ofNat_add, ← h .objects]
          rfl
      | some old =>
          obtain ⟨stored, hfind, -⟩ := payloadSize_of_loadObject hrows hload
          have hover : (rows.apply (.put (Keys.object bucket object.key)
              (encodeObject object))).tally .objects + 1 = rows.tally .objects + 1 :=
            tally_put_over rfl hfind
          rw [Nat.add_right_cancel hover, ← h .objects]
          rfl
  | bytes =>
      rw [hrow (by decide)]
      have hamount : Kind.amount (encodeObject object) .bytes = object.size.toNat := by
        rw [Kind.amount, payloadSize_encodeObject]
      cases previous with
      | none =>
          rw [tally_put_new rfl (find?_of_readRow_none hload), hamount, UInt64.ofNat_add,
            UInt64.ofNat_toNat, ← h .bytes]
          rfl
      | some old =>
          obtain ⟨stored, hfind, hsize⟩ := payloadSize_of_loadObject hrows hload
          have hold : Kind.amount stored .bytes = old.size.toNat := congrArg UInt64.toNat hsize
          have hover : (rows.apply (.put (Keys.object bucket object.key)
              (encodeObject object))).tally .bytes + old.size.toNat =
              rows.tally .bytes + object.size.toNat := by
            rw [← hold, ← hamount]
            exact tally_put_over rfl hfind
          rw [ofNat_of_add hover, UInt64.ofNat_toNat, UInt64.ofNat_toNat, ← h .bytes]
          rfl

theorem counted_deleteObjectBatch (h : Counted counters rows) (hrows : rows.Holds (Written P))
    {bucket key : Bytes} {existing : ObjectRecord}
    (hload : loadObject rows (Keys.object bucket key) key = .ok (some existing))
    (hfree : rows.queuedAt existing.blobId.items = none) :
    Counted
      { counters with
        objects := counters.objects - 1
        bytes := counters.bytes - existing.size
        orphans := counters.orphans + 1 }
      (rows.write (deleteObjectBatch bucket key existing now)) := by
  obtain ⟨stored, hfind, hsize⟩ := payloadSize_of_loadObject hrows hload
  have hdelete : ∀ {kind : Kind}, some Keys.kOrphan ≠ some kind.tag →
      (rows.write (deleteObjectBatch bucket key existing now)).tally kind =
        (rows.apply (.delete (Keys.object bucket key))).tally kind := by
    intro kind htag
    have hkey : (orphanRow existing.blobId.items now).key.head? ≠ some kind.tag := htag
    exact tally_apply_of_tag hkey
  have hother : ∀ {kind : Kind}, some Keys.kOrphan ≠ some kind.tag →
      some Keys.kObject ≠ some kind.tag →
      (rows.write (deleteObjectBatch bucket key existing now)).tally kind = rows.tally kind :=
    fun hmark htag => (hdelete hmark).trans (tally_apply_of_tag htag)
  intro kind
  cases kind with
  | buckets => exact (h .buckets).trans (by rw [hother (by decide) (by decide)])
  | uploads => exact (h .uploads).trans (by rw [hother (by decide) (by decide)])
  | objects =>
      have hgone : (rows.apply (.delete (Keys.object bucket key))).tally .objects + 1 =
          rows.tally .objects + 0 := tally_delete rfl hfind
      rw [hdelete (by decide), ofNat_of_add hgone, ← h .objects]
      exact (UInt64.add_zero _).symm
  | bytes =>
      have hold : Kind.amount stored .bytes = existing.size.toNat := congrArg UInt64.toNat hsize
      have hgone : (rows.apply (.delete (Keys.object bucket key))).tally .bytes +
          existing.size.toNat = rows.tally .bytes + 0 := by
        rw [← hold]
        exact tally_delete rfl hfind
      rw [hdelete (by decide), ofNat_of_add hgone, UInt64.ofNat_toNat, ← h .bytes]
      exact (UInt64.add_zero _).symm
  | orphans =>
      have hkey : (RowOp.delete (Keys.object bucket key)).key.head? ≠ some Keys.kOrphan :=
        (by decide : some Keys.kObject ≠ some Keys.kOrphan)
      have hmark : (rows.write (deleteObjectBatch bucket key existing now)).tally .orphans =
          (rows.apply (.delete (Keys.object bucket key))).tally .orphans + 1 :=
        tally_mark (by rw [queuedAt_apply_of_tag hkey, hfree])
      rw [hmark, tally_apply_of_tag hkey, UInt64.ofNat_add, ← h .orphans]
      rfl

theorem counted_putPartBatch (h : Counted counters rows) {uploadId : Bytes} {part : PartRecord}
    {previous : Option PartRecord} (hmarked : rows.queuedAt part.blobId.items ≠ none)
    (hreleased : ∀ old ∈ previous, old.blobId.items ≠ part.blobId.items ∧
      rows.queuedAt old.blobId.items = none) :
    Counted (counters.storingPart previous)
      (rows.write (putPartBatch uploadId part previous now)) := by
  intro kind
  by_cases hkind : kind = .orphans
  · subst hkind
    have hcount : (rows.write (putPartBatch uploadId part previous now)).tally .orphans + 1 =
        rows.tally .orphans + (PutOutcome.ofPart previous).releasedBlobId.toList.length := by
      refine tally_publishBatch (by decide : some Keys.kPart ≠ some Keys.kOrphan) hmarked ?_
      intro blobId hblobId
      obtain ⟨old, hold, rfl⟩ := Option.map_eq_some_iff.mp hblobId
      exact hreleased old hold
    rw [ofNat_of_add hcount, ← h .orphans]
    cases previous with
    | none => exact (UInt64.add_zero _).symm
    | some old => rfl
  · have htag : some Keys.kPart ≠ some kind.tag := by cases kind <;> decide
    have hsame : (rows.write (putPartBatch uploadId part previous now)).tally kind =
        rows.tally kind := (tally_publishBatch_of_ne hkind).trans (tally_apply_of_tag htag)
    rw [hsame, ← h kind]
    cases kind <;> first | rfl | exact absurd rfl hkind

/-- The end of an upload: its row gone and its parts released. -/
theorem counted_abortUploadBatch (h : Counted counters rows) {upload : UploadRecord}
    {parts : List PartRecord} (hthere : rows.find? (Keys.uploadById upload.uploadId) ≠ none)
    (hnodup : (partBlobIds parts).Nodup)
    (hfree : ∀ blobId ∈ partBlobIds parts, rows.queuedAt blobId = none) :
    Counted (counters.finished parts) (rows.write (abortUploadBatch upload parts now)) := by
  have hdrop : ∀ {kind : Kind}, kind ≠ .uploads →
      (rows.write (abortUploadBatch upload parts now)).tally kind =
        (rows.write (releasePartsBatch upload.uploadId parts now)).tally kind := by
    intro kind hkind
    rw [abortUploadBatch, Rows.write_append]
    refine tally_write_of_tags fun op hop hsame => ?_
    rcases List.mem_cons.mp hop with rfl | hlast
    · have htag : some Keys.kUploadById = some kind.tag := hsame
      cases kind <;> first | exact hkind rfl | exact absurd htag (by decide)
    · obtain rfl := List.mem_singleton.mp hlast
      have htag : some Keys.kUploadByKey = some kind.tag := hsame
      cases kind <;> exact absurd htag (by decide)
  intro kind
  cases kind with
  | orphans =>
      rw [hdrop (by decide), tally_releasePartsBatch hnodup hfree, UInt64.ofNat_add, ← h .orphans]
      rfl
  | uploads =>
      have hkept : (rows.write (releasePartsBatch upload.uploadId parts now)).find?
          (Keys.uploadById upload.uploadId) = rows.find? (Keys.uploadById upload.uploadId) := by
        refine Rows.find?_write_of_forall_ne _ fun op hop hkey => ?_
        obtain ⟨part, -, hmem⟩ := List.mem_flatMap.mp hop
        rcases List.mem_cons.mp hmem with rfl | hmark
        · exact absurd (congrArg List.head? hkey)
            (by decide : ¬ some Keys.kPart = some Keys.kUploadById)
        · obtain rfl := List.mem_singleton.mp hmark
          exact absurd (congrArg List.head? hkey)
            (by decide : ¬ some Keys.kOrphan = some Keys.kUploadById)
      obtain ⟨stored, hstored⟩ := Option.ne_none_iff_exists'.mp hthere
      have hgone : ((rows.write (releasePartsBatch upload.uploadId parts now)).apply
          (.delete (Keys.uploadById upload.uploadId))).tally .uploads + 1 =
          (rows.write (releasePartsBatch upload.uploadId parts now)).tally .uploads + 0 :=
        tally_delete rfl (hkept.trans hstored)
      have hlast : (rows.write (abortUploadBatch upload parts now)).tally .uploads =
          ((rows.write (releasePartsBatch upload.uploadId parts now)).apply
            (.delete (Keys.uploadById upload.uploadId))).tally .uploads := by
        have hkey : (RowOp.delete (Keys.uploadByKey upload.bucket.items upload.key.items
            upload.uploadId)).key.head? ≠ some Kind.uploads.tag :=
          (by decide : some Keys.kUploadByKey ≠ some Keys.kUploadById)
        rw [abortUploadBatch, Rows.write_append]
        exact tally_apply_of_tag hkey
      rw [hlast, ofNat_of_add hgone, tally_releasePartsBatch_of_ne (by decide), ← h .uploads]
      exact (UInt64.add_zero _).symm
  | buckets =>
      rw [hdrop (by decide), tally_releasePartsBatch_of_ne (by decide), ← h .buckets]
      rfl
  | objects =>
      rw [hdrop (by decide), tally_releasePartsBatch_of_ne (by decide), ← h .objects]
      rfl
  | bytes =>
      rw [hdrop (by decide), tally_releasePartsBatch_of_ne (by decide), ← h .bytes]
      rfl

/-- Forgetting marks that are there takes as many off; the subtraction saturates
only at what is left of none. -/
theorem counted_forgetOrphans {store : MetadataStore} (h : Counted store.counters store.rows)
    {blobIds : List Bytes} (hnodup : blobIds.Nodup)
    (hmarked : ∀ blobId ∈ blobIds, store.rows.queuedAt blobId ≠ none)
    (hbound : store.rows.tally .orphans < 2 ^ 64) :
    Counted (forgetOrphans store blobIds).counters (forgetOrphans store blobIds).rows := by
  intro kind
  rw [rows_forgetOrphans]
  by_cases hkind : kind = .orphans
  · subst hkind
    have hcount := tally_forget hnodup hmarked
    by_cases hempty : blobIds = []
    · rw [hempty]
      exact h .orphans
    · have hleft : UInt64.ofNat ((store.rows.write (blobIds.map fun blobId =>
          .delete (Keys.orphan blobId))).tally .orphans) =
          store.counters.orphans - blobIds.length.toUInt64 := by
        rw [ofNat_of_add (hcount.trans (Nat.add_zero _).symm), ← h .orphans]
        exact UInt64.add_zero _
      have horphans : (forgetOrphans store blobIds).counters.get .orphans =
          if blobIds.length.toUInt64 < store.counters.orphans then
            store.counters.orphans - blobIds.length.toUInt64
          else 0 := by
        rw [forgetOrphans, if_neg hempty]
        rfl
      rw [horphans]
      split_ifs with hlt
      · exact hleft.symm
      · have hcurrent : store.counters.orphans = UInt64.ofNat (store.rows.tally .orphans) :=
          h .orphans
        have hlength : blobIds.length < 2 ^ 64 := by omega
        have hle : store.rows.tally .orphans ≤ blobIds.length := by
          rw [hcurrent, UInt64.lt_iff_toNat_lt] at hlt
          have htotal : (UInt64.ofNat (store.rows.tally .orphans)).toNat =
              store.rows.tally .orphans := UInt64.toNat_ofNat_of_lt' hbound
          have hremoved : blobIds.length.toUInt64.toNat = blobIds.length :=
            UInt64.toNat_ofNat_of_lt' hlength
          omega
        have hnone : (store.rows.write (blobIds.map fun blobId =>
            .delete (Keys.orphan blobId))).tally .orphans = 0 := by omega
        rw [hnone]
        rfl
  · have hsame : (forgetOrphans store blobIds).counters.get kind = store.counters.get kind := by
      rw [forgetOrphans]
      split_ifs <;> cases kind <;> first | rfl | exact absurd rfl hkind
    rw [hsame, h kind, tally_write_of_tags]
    intro op hop htag
    obtain ⟨blobId, -, rfl⟩ := List.mem_map.mp hop
    have htag : some Keys.kOrphan = some kind.tag := htag
    cases kind <;> first | exact hkind rfl | exact absurd htag (by decide)

end Counted

end MonoBucket
