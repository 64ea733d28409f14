/-
Usage counters over a run

Any sequence of the store's operations that do not fail, with every id fresh and
every payload tracked once before it is published, and what the counters hold when
it is done: what the scan of the next start computes from the rows.
-/

import MonoBucket.Lib.Trace
import MonoBucket.Storage.RowTally
import MonoBucket.Storage.StoreCommits

namespace MonoBucket.Recount

open Codec StoreCalls

/-! ### Payloads of a sequence -/

/-- Where the payloads of a sequence are: named by one row and not marked, or
marked until they are published. -/
structure Tracked (rows : Rows) (tracked published forgotten : List Bytes) : Prop where
  once : ∀ {key other blobId}, rows.blobAt key = some blobId → rows.blobAt other = some blobId →
    key = other
  named : ∀ {key blobId}, rows.blobAt key = some blobId → blobId ∈ published
  unmarked : ∀ {key blobId}, rows.blobAt key = some blobId → rows.queuedAt blobId = none
  pending : ∀ {blobId}, blobId ∈ tracked → blobId ∉ published → blobId ∉ forgotten →
    rows.queuedAt blobId ≠ none
  known : ∀ {blobId}, rows.queuedAt blobId ≠ none → blobId ∈ tracked
  publishedTracked : ∀ {blobId}, blobId ∈ published → blobId ∈ tracked

section Tracked

variable {rows after : Rows} {tracked published forgotten : List Bytes} {now : TimestampMs}

/-- Rows that name and mark the same payloads. -/
theorem Tracked.congr (h : Tracked rows tracked published forgotten)
    (hblobs : after.blobAt = rows.blobAt) (hmarks : after.queuedAt = rows.queuedAt) :
    Tracked after tracked published forgotten where
  once := by rw [hblobs]; exact h.once
  named := by rw [hblobs]; exact h.named
  unmarked := by rw [hblobs, hmarks]; exact h.unmarked
  pending := by rw [hmarks]; exact h.pending
  known := by rw [hmarks]; exact h.known
  publishedTracked := h.publishedTracked

theorem Tracked.write (h : Tracked rows tracked published forgotten) {batch : WriteBatch}
    (htags : ∀ op ∈ batch, ∃ tag, op.key.head? = some tag ∧ tag ≠ Keys.kObject ∧
      tag ≠ Keys.kPart ∧ tag ≠ Keys.kOrphan) :
    Tracked (rows.write batch) tracked published forgotten := by
  refine h.congr (blobAt_write_of_tags fun op hop => ?_) (queuedAt_write_of_tags fun op hop => ?_)
  · obtain ⟨tag, htag, hobject, hpart, -⟩ := htags op hop
    exact ⟨tag, htag, hobject, hpart⟩
  · obtain ⟨tag, htag, -, -, horphan⟩ := htags op hop
    rw [htag]
    exact fun hsame => horphan (Option.some.inj hsame)

/-- A commit of a fresh payload that releases what it read. -/
theorem Tracked.commit (h : Tracked rows tracked published forgotten) {commit : Commit}
    (hfresh : ∀ blobId ∈ commit.published.map Prod.snd, blobId ∈ tracked ∧ blobId ∉ published)
    (hreleased : ∀ pair ∈ commit.released, rows.blobAt pair.1 = some pair.2) :
    Tracked (rows.write (commit.batch now)) tracked
      ((commit.published.map Prod.snd).toList ++ published) forgotten := by
  have hcases : ∀ {key blobId}, (rows.write (commit.batch now)).blobAt key = some blobId →
      commit.published = some (key, blobId) ∨
        (key ∉ commit.released.map Prod.fst ∧ rows.blobAt key = some blobId) := by
    intro key blobId hblob
    rw [blobAt_commit] at hblob
    exact Commit.blobAfter_cases hblob
  have hput : ∀ {key other blobId}, commit.published = some (key, blobId) →
      rows.blobAt other ≠ some blobId :=
    fun hpublished hblob => (hfresh _ (by rw [hpublished]; rfl)).2 (h.named hblob)
  have hgone : ∀ {blobId}, blobId ∈ commit.released.map Prod.snd →
      ∃ key, key ∈ commit.released.map Prod.fst ∧ rows.blobAt key = some blobId := by
    intro blobId hmem
    obtain ⟨pair, hpair, rfl⟩ := List.mem_map.mp hmem
    exact ⟨pair.1, List.mem_map_of_mem hpair, hreleased pair hpair⟩
  refine
    { once := ?_, named := ?_, unmarked := ?_, pending := ?_, known := ?_, publishedTracked := ?_ }
  · intro key other blobId hkey hother
    rcases hcases hkey with hpublished | ⟨-, hbefore⟩
    · rcases hcases hother with hsame | ⟨-, hbeforeOther⟩
      · exact (Prod.mk.inj (Option.some.inj (hpublished.symm.trans hsame))).1
      · exact absurd hbeforeOther (hput hpublished)
    · rcases hcases hother with hpublished | ⟨-, hbeforeOther⟩
      · exact absurd hbefore (hput hpublished)
      · exact h.once hbefore hbeforeOther
  · intro key blobId hkey
    rcases hcases hkey with hpublished | ⟨-, hbefore⟩
    · exact List.mem_append_left _ (by rw [hpublished]; exact List.mem_singleton_self blobId)
    · exact List.mem_append_right _ (h.named hbefore)
  · intro key blobId hkey
    have hkept : blobId ∉ commit.released.map Prod.snd := by
      intro hmem
      obtain ⟨other, hreleasedKey, hother⟩ := hgone hmem
      rcases hcases hkey with hpublished | ⟨hnot, hbefore⟩
      · exact hput hpublished hother
      · exact hnot (h.once hother hbefore ▸ hreleasedKey)
    rw [queuedAt_commit, if_neg hkept]
    rcases hcases hkey with hpublished | ⟨-, hbefore⟩
    · rw [hpublished]
      exact if_pos rfl
    · split_ifs
      · rfl
      · exact h.unmarked hbefore
  · intro blobId htracked hunpublished hkept
    have hnot : commit.published.map Prod.snd ≠ some blobId := fun hsame =>
      hunpublished (List.mem_append_left _ (by rw [hsame]; exact List.mem_singleton_self blobId))
    rw [queuedAt_commit, if_neg hnot]
    split_ifs
    · exact Option.some_ne_none now
    · exact h.pending htracked (fun hmem => hunpublished (List.mem_append_right _ hmem)) hkept
  · intro blobId hmarked
    rw [queuedAt_commit] at hmarked
    split_ifs at hmarked with hmem
    · obtain ⟨key, -, hkey⟩ := hgone hmem
      exact h.publishedTracked (h.named hkey)
    · exact absurd rfl hmarked
    · exact h.known hmarked
  · intro blobId hmem
    rcases List.mem_append.mp hmem with hnew | hold
    · exact (hfresh blobId (Option.mem_toList.mp hnew)).1
    · exact h.publishedTracked hold

theorem Tracked.track (h : Tracked rows tracked published forgotten) {blobId : Bytes}
    (hnew : blobId ∉ tracked) :
    Tracked (rows.write [orphanRow blobId now]) (blobId :: tracked) published forgotten := by
  have hblobs : (rows.write [orphanRow blobId now]).blobAt = rows.blobAt := blobAt_orphanRow
  have hmarks : ∀ other, (rows.write [orphanRow blobId now]).queuedAt other =
      if other = blobId then some now else rows.queuedAt other := queuedAt_put_orphan now
  refine
    { once := by rw [hblobs]; exact h.once, named := by rw [hblobs]; exact h.named, unmarked := ?_,
      pending := ?_, known := ?_, publishedTracked := ?_ }
  · intro key other hkey
    rw [hblobs] at hkey
    rw [hmarks, if_neg]
    · exact h.unmarked hkey
    · rintro rfl
      exact hnew (h.publishedTracked (h.named hkey))
  · intro other hmem hunpublished hkept
    rw [hmarks]
    split_ifs with hsame
    · exact Option.some_ne_none now
    · exact h.pending ((List.mem_cons.mp hmem).resolve_left hsame) hunpublished hkept
  · intro other hmarked
    rw [hmarks] at hmarked
    split_ifs at hmarked with hsame
    · rw [hsame]
      exact List.mem_cons_self ..
    · exact List.mem_cons_of_mem _ (h.known hmarked)
  · exact fun hmem => List.mem_cons_of_mem _ (h.publishedTracked hmem)

theorem Tracked.forget (h : Tracked rows tracked published forgotten) (blobIds : List Bytes) :
    Tracked (rows.write (blobIds.map fun blobId => .delete (Keys.orphan blobId))) tracked published
      (blobIds ++ forgotten) := by
  refine
    { once := by rw [blobAt_forget]; exact h.once, named := by rw [blobAt_forget]; exact h.named,
      unmarked := ?_, pending := ?_, known := ?_, publishedTracked := h.publishedTracked }
  · intro key blobId hkey
    rw [blobAt_forget] at hkey
    rw [queuedAt_forget]
    split_ifs
    · rfl
    · exact h.unmarked hkey
  · intro blobId htracked hunpublished hkept
    rw [queuedAt_forget, if_neg fun hmem => hkept (List.mem_append_left _ hmem)]
    exact h.pending htracked hunpublished fun hmem => hkept (List.mem_append_right _ hmem)
  · intro blobId hmarked
    rw [queuedAt_forget] at hmarked
    split_ifs at hmarked
    · exact absurd rfl hmarked
    · exact h.known hmarked

/-- The parts of an upload have payloads of their own. -/
theorem Tracked.nodup_parts (h : Tracked rows tracked published forgotten) {uploadId : Bytes}
    {parts : List PartRecord} (hparts : collectParts rows uploadId = .ok parts) :
    (partBlobIds parts).Nodup := by
  have hkeys := List.pairwise_map.mp (nodup_of_collectParts hparts)
  refine List.pairwise_map.mpr (hkeys.imp_of_mem fun {first second} hfirst hsecond hne hsame => ?_)
  have hblob := blobAt_of_collectParts hparts hsecond
  rw [← hsame] at hblob
  exact hne (h.once (blobAt_of_collectParts hparts hfirst) hblob)

theorem Tracked.unmarked_parts (h : Tracked rows tracked published forgotten) {uploadId : Bytes}
    {parts : List PartRecord} (hparts : collectParts rows uploadId = .ok parts) :
    ∀ blobId ∈ partBlobIds parts, rows.queuedAt blobId = none := by
  intro blobId hmem
  obtain ⟨part, hpart, rfl⟩ := List.mem_map.mp hmem
  exact h.unmarked (blobAt_of_collectParts hparts hpart)

/-- There are at most as many markers as payloads that were tracked. -/
theorem Tracked.tally_orphans_le (h : Tracked rows tracked published forgotten) :
    rows.tally .orphans ≤ tracked.length := by
  have hcount : rows.tally .orphans =
      (rows.entries.filter fun row => row.1.head? = some Keys.kOrphan).length := by
    rw [Rows.tally, OrderedMap.total, ← List.countP_eq_length_filter]
    induction rows.entries with
    | nil => rfl
    | cons row rest ih =>
        rw [List.map_cons, List.sum_cons, ih, List.countP_cons, Nat.add_comm, weigh]
        by_cases htag : row.1.head? = some Keys.kOrphan <;> simp [htag, Kind.tag, Kind.amount]
  have hnodup : ((rows.entries.filter fun row => row.1.head? = some Keys.kOrphan).map
      Prod.fst).Nodup :=
    List.pairwise_map.mpr ((rows.ordered.filter _).imp fun hlt => hlt.ne)
  have hsubset : ((rows.entries.filter fun row => row.1.head? = some Keys.kOrphan).map Prod.fst) ⊆
      tracked.map Keys.orphan := by
    intro key hkey
    obtain ⟨row, hrow, rfl⟩ := List.mem_map.mp hkey
    obtain ⟨hentry, htag⟩ := List.mem_filter.mp hrow
    obtain ⟨rest, hrest⟩ : ∃ blobId, row.1 = Keys.orphan blobId := by
      obtain ⟨_ | ⟨tag, rest⟩, stored⟩ := row
      · simp at htag
      · obtain rfl : tag = Keys.kOrphan := by simpa using htag
        exact ⟨rest, rfl⟩
    have hmarked : rows.queuedAt rest ≠ none := by
      rw [Rows.queuedAt, ← hrest, rows.find?_eq_some_iff.mpr hentry]
      exact Option.some_ne_none _
    exact List.mem_map.mpr ⟨rest, h.known hmarked, hrest.symm⟩
  have hlength := (List.subperm_of_subset hnodup hsubset).length_le
  simpa [hcount] using hlength

end Tracked

/-! ### Sequences of operations -/

/-- RocksDB numbers the rows it writes with 56 bits and writes none past the last
number. -/
def maxSequenceNumber : Nat := 2 ^ 56 - 1

/-- A store on an empty directory. -/
def fresh : MetadataStore where
  rows := Rows.write .empty
    [.put (Keys.metaRow formatVersionName) (decimal storageFormatVersion.toNat)]

theorem openMetadataStore_empty : openMetadataStore .empty = .ok (fresh, .empty) := by
  decide +kernel

/-- The store and the ids of the sequence so far. -/
structure System where
  store : MetadataStore := fresh
  tracked : List Bytes := []
  published : List Bytes := []
  forgotten : List Bytes := []
  uploads : List Bytes := []

inductive Op
  | createBucket (bucket : BucketRecord)
  | deleteBucket (name : Bytes)
  | putObject (bucket : Bytes) (object : ObjectRecord) (now : TimestampMs)
  | deleteObject (bucket key : Bytes) (now : TimestampMs)
  | createUpload (upload : UploadRecord)
  | putPart (uploadId : Bytes) (part : PartRecord) (now : TimestampMs)
  | abortUpload (uploadId : Bytes) (now : TimestampMs)
  | completeUpload (bucket uploadId : Bytes) (object : ObjectRecord) (now : TimestampMs)
  | trackBlob (blobId : Bytes) (now : TimestampMs)
  | forgetOrphans (blobIds : List Bytes) (limit : Nat) (queuedAtOrBefore : TimestampMs)

namespace System

/-- The system after an operation that returned. -/
def leave (system : System) (store : MetadataStore) : System := { system with store := store }

/-- An operation that publishes a payload: one that was tracked, and not published
or forgotten. -/
def publish (system : System) (blobId : Bytes) {α : Type} :
    Except StoreError (MetadataStore × α) → Option System
  | .error _ => none
  | .ok (store, _) =>
    if blobId ∈ system.tracked ∧ blobId ∉ system.published ∧ blobId ∉ system.forgotten then
      some { system with store := store, published := blobId :: system.published }
    else none

end System

/-- One operation of a sequence; none that fails. -/
def step (system : System) : Op → Option System
  | .createBucket bucket =>
    (createBucket system.store bucket).toOption.map system.leave
  | .deleteBucket name => (deleteBucket system.store name).toOption.map system.leave
  | .putObject bucket object now =>
    system.publish object.blobId.items (putObject system.store bucket object now)
  | .deleteObject bucket key now =>
    (deleteObject system.store bucket key now).toOption.map fun deleted => system.leave deleted.1
  | .createUpload upload =>
    if upload.uploadId ∈ system.uploads then none
    else
      (createUpload system.store upload).toOption.map fun store =>
        { system with store := store, uploads := upload.uploadId :: system.uploads }
  | .putPart uploadId part now =>
    system.publish part.blobId.items (putPart system.store uploadId part now)
  | .abortUpload uploadId now =>
    (abortUpload system.store uploadId now).toOption.map fun aborted => system.leave aborted.1
  | .completeUpload bucket uploadId object now =>
    system.publish object.blobId.items (completeUpload system.store bucket uploadId object now)
  | .trackBlob blobId now =>
    if blobId ∈ system.tracked ∨ maxSequenceNumber ≤ system.tracked.length then none
    else
      some { system with
        store := trackBlob system.store blobId now
        tracked := blobId :: system.tracked }
  | .forgetOrphans blobIds limit queuedAtOrBefore =>
    if blobIds.Nodup ∧ ∀ blobId ∈ blobIds,
        blobId ∈ listOrphans system.store.rows limit queuedAtOrBefore then
      some { system with
        store := forgetOrphans system.store blobIds
        forgotten := blobIds ++ system.forgotten }
    else none

/-! ### What a sequence keeps -/

structure Kept (system : System) : Prop where
  written : system.store.rows.Holds (Written fun _ => True)
  tracked : Tracked system.store.rows system.tracked system.published system.forgotten
  counted : Counted system.store.counters system.store.rows
  uploads : ∀ uploadId, system.store.rows.find? (Keys.uploadById uploadId) ≠ none →
    uploadId ∈ system.uploads
  numbered : system.tracked.length ≤ maxSequenceNumber

section Kept

variable {system next : System}

theorem mem_listOrphans {rows : Rows} {limit : Nat} {queuedAtOrBefore : TimestampMs}
    {blobId : Bytes} (h : blobId ∈ listOrphans rows limit queuedAtOrBefore) :
    rows.queuedAt blobId ≠ none := by
  obtain ⟨queuedAt, hqueued, -⟩ := queuedAt_of_mem_listOrphans h
  rw [hqueued]
  exact Option.some_ne_none queuedAt

theorem kept_start : Kept {} where
  written := by
    refine Rows.Holds.write (fun _ _ h => nomatch h) fun key value hput => ?_
    obtain ⟨rfl, rfl⟩ := RowOp.put.inj (List.mem_singleton.mp hput)
    exact Written.formatVersion
  tracked := by
    have hempty : Tracked (.empty : Rows) [] [] [] :=
      { once := fun h => nomatch h
        named := fun h => nomatch h
        unmarked := fun h => nomatch h
        pending := fun h => nomatch h
        known := fun h => absurd rfl h
        publishedTracked := fun h => nomatch h }
    refine hempty.write fun op hop => ?_
    rw [List.mem_singleton.mp hop]
    exact ⟨_, rfl, by decide, by decide, by decide⟩
  counted := counted_openMetadataStore openMetadataStore_empty
  uploads := by
    intro uploadId hthere
    rw [show ({} : System).store.rows = Rows.write .empty
      [.put (Keys.metaRow formatVersionName) (decimal storageFormatVersion.toNat)] from rfl,
      Rows.find?_write_of_forall_ne] at hthere
    · exact absurd rfl hthere
    · intro op hop hkey
      rw [List.mem_singleton.mp hop] at hkey
      exact absurd (congrArg List.head? hkey) (by decide : ¬ some Keys.kMeta = some Keys.kUploadById)
  numbered := Nat.zero_le _

/-- A commit that publishes a fresh payload, and counts. -/
theorem Kept.commit (h : Kept system) (commit : Commit) {now : TimestampMs} {counters : Counters}
    (hfresh : ∀ blobId ∈ commit.published.map Prod.snd,
      blobId ∈ system.tracked ∧ blobId ∉ system.published)
    (hreleased : ∀ pair ∈ commit.released, system.store.rows.blobAt pair.1 = some pair.2)
    (hwritten : (system.store.rows.write (commit.batch now)).Holds (Written fun _ => True))
    (hcounted : Counted counters (system.store.rows.write (commit.batch now))) :
    Kept
      { system with
        store :=
          { system.store with
            rows := system.store.rows.write (commit.batch now), counters := counters }
        published := (commit.published.map Prod.snd).toList ++ system.published } where
  written := hwritten
  tracked := h.tracked.commit hfresh hreleased
  counted := hcounted
  uploads := fun uploadId hthere => h.uploads uploadId (find?_upload_after hthere).1
  numbered := h.numbered

/-- A write of rows that name and mark nothing, and are no upload's. -/
theorem Kept.write (h : Kept system) {batch : WriteBatch} {counters : Counters}
    (htags : ∀ op ∈ batch, ∃ tag, op.key.head? = some tag ∧ tag ≠ Keys.kObject ∧
      tag ≠ Keys.kPart ∧ tag ≠ Keys.kOrphan ∧ tag ≠ Keys.kUploadById)
    (hwritten : (system.store.rows.write batch).Holds (Written fun _ => True))
    (hcounted : Counted counters (system.store.rows.write batch)) :
    Kept
      { system with
        store := { system.store with rows := system.store.rows.write batch, counters := counters } }
    where
  written := hwritten
  tracked := h.tracked.write fun op hop => by
    obtain ⟨tag, htag, hobject, hpart, horphan, -⟩ := htags op hop
    exact ⟨tag, htag, hobject, hpart, horphan⟩
  counted := hcounted
  uploads := by
    intro uploadId hthere
    refine h.uploads uploadId fun hnone => hthere ?_
    rw [← hnone]
    refine Rows.find?_write_of_forall_ne _ fun op hop hkey => ?_
    obtain ⟨tag, htag, -, -, -, hupload⟩ := htags op hop
    rw [hkey] at htag
    exact hupload (Option.some.inj htag).symm
  numbered := h.numbered

theorem Kept.createBucket (h : Kept system) {bucket : BucketRecord} {store : MetadataStore}
    (hstore : MonoBucket.createBucket system.store bucket = .ok store) :
    Kept (system.leave store) := by
  rw [MonoBucket.createBucket] at hstore
  split at hstore
  · cases hstore
  · rename_i hfree
    obtain rfl := Except.ok.inj hstore
    refine h.write (fun op hop => ?_) ?_ fun kind => ?_
    · rw [List.mem_singleton.mp hop]
      exact ⟨_, rfl, by decide, by decide, by decide, by decide⟩
    · exact StorageEngine.holds_put h.written (Written.bucket bucket trivial)
    · by_cases hkind : kind = .buckets
      · subst hkind
        have hput : (system.store.rows.write
            [.put (Keys.bucket bucket.name) (encodeBucket bucket)]).tally .buckets =
            system.store.rows.tally .buckets + 1 := tally_put_new rfl hfree
        rw [hput, UInt64.ofNat_add, ← h.counted .buckets]
        rfl
      · rw [tally_write_of_tags, ← h.counted kind]
        · cases kind <;> first | rfl | exact absurd rfl hkind
        · intro op hop htag
          rw [List.mem_singleton.mp hop] at htag
          have htag : some Keys.kBucket = some kind.tag := htag
          cases kind <;> first | exact hkind rfl | exact absurd htag (by decide)

theorem Kept.deleteBucket (h : Kept system) {name : Bytes} {store : MetadataStore}
    (hstore : MonoBucket.deleteBucket system.store name = .ok store) :
    Kept (system.leave store) := by
  rw [MonoBucket.deleteBucket] at hstore
  obtain ⟨found, hload, hstore⟩ := Except.bind_eq_ok_iff.mp hstore
  cases found with
  | none => cases hstore
  | some bucket =>
      simp only [fail] at hstore
      split_ifs at hstore
      obtain rfl := Except.pure_eq_ok_iff.mp hstore
      obtain ⟨stored, hfind, -⟩ := decode_of_readRow hload
      refine h.write (fun op hop => ?_) (h.written.write (by simp)) fun kind => ?_
      · rw [List.mem_singleton.mp hop]
        exact ⟨_, rfl, by decide, by decide, by decide, by decide⟩
      · by_cases hkind : kind = .buckets
        · subst hkind
          have hgone : (system.store.rows.write [.delete (Keys.bucket name)]).tally .buckets + 1 =
              system.store.rows.tally .buckets + 0 := tally_delete rfl hfind
          rw [ofNat_of_add hgone, ← h.counted .buckets]
          exact (UInt64.add_zero _).symm
        · rw [tally_write_of_tags, ← h.counted kind]
          · cases kind <;> first | rfl | exact absurd rfl hkind
          · intro op hop htag
            rw [List.mem_singleton.mp hop] at htag
            have htag : some Keys.kBucket = some kind.tag := htag
            cases kind <;> first | exact hkind rfl | exact absurd htag (by decide)

theorem Kept.createUpload (h : Kept system) {upload : UploadRecord} {store : MetadataStore}
    (hnew : upload.uploadId ∉ system.uploads)
    (hstore : MonoBucket.createUpload system.store upload = .ok store) :
    Kept { system with store := store, uploads := upload.uploadId :: system.uploads } := by
  obtain ⟨_, -, hstore⟩ := Except.bind_eq_ok_iff.mp hstore
  obtain rfl := Except.pure_eq_ok_iff.mp hstore
  have hfree : system.store.rows.find? (Keys.uploadById upload.uploadId) = none := by
    by_contra hthere
    exact hnew (h.uploads _ hthere)
  have htags : ∀ op ∈ createUploadBatch upload, ∃ tag, op.key.head? = some tag ∧
      (tag = Keys.kUploadById ∨ tag = Keys.kUploadByKey) := by
    intro op hop
    rcases List.mem_cons.mp hop with rfl | hlast
    · exact ⟨_, rfl, Or.inl rfl⟩
    · obtain rfl := List.mem_singleton.mp hlast
      exact ⟨_, rfl, Or.inr rfl⟩
  refine ⟨holds_createUploadBatch h.written upload, ?_, fun kind => ?_, ?_, h.numbered⟩
  · refine h.tracked.write fun op hop => ?_
    obtain ⟨tag, htag, rfl | rfl⟩ := htags op hop
    · exact ⟨_, htag, by decide, by decide, by decide⟩
    · exact ⟨_, htag, by decide, by decide, by decide⟩
  · by_cases hkind : kind = .uploads
    · subst hkind
      have hkey : (RowOp.put (Keys.uploadByKey upload.bucket.items upload.key.items
          upload.uploadId) []).key.head? ≠ some Kind.uploads.tag :=
        (by decide : some Keys.kUploadByKey ≠ some Keys.kUploadById)
      have hput : (system.store.rows.write (createUploadBatch upload)).tally .uploads =
          system.store.rows.tally .uploads + 1 :=
        (tally_apply_of_tag hkey).trans (tally_put_new rfl hfree)
      rw [hput, UInt64.ofNat_add, ← h.counted .uploads]
      rfl
    · rw [tally_write_of_tags, ← h.counted kind]
      · cases kind <;> first | rfl | exact absurd rfl hkind
      · intro op hop hsame
        obtain ⟨tag, htag, hkinds⟩ := htags op hop
        obtain rfl := Option.some.inj (htag.symm.trans hsame)
        cases kind <;> first | exact hkind rfl | exact absurd hkinds (by decide)
  · intro uploadId hthere
    by_cases hsame : uploadId = upload.uploadId
    · rw [hsame]
      exact List.mem_cons_self ..
    · refine List.mem_cons_of_mem _ (h.uploads uploadId fun hnone => hthere ?_)
      rw [← hnone]
      refine Rows.find?_write_of_forall_ne _ fun op hop hkey => ?_
      rcases List.mem_cons.mp hop with rfl | hlast
      · exact hsame (List.cons.inj hkey).2.symm
      · obtain rfl := List.mem_singleton.mp hlast
        exact absurd (congrArg List.head? hkey)
          (by decide : ¬ some Keys.kUploadByKey = some Keys.kUploadById)

/-- A payload that may be published: tracked, and not published or forgotten. -/
def Publishable (system : System) (blobId : Bytes) : Prop :=
  blobId ∈ system.tracked ∧ blobId ∉ system.published ∧ blobId ∉ system.forgotten

theorem Kept.marked (h : Kept system) {blobId : Bytes} (hfresh : Publishable system blobId) :
    system.store.rows.queuedAt blobId ≠ none :=
  h.tracked.pending hfresh.1 hfresh.2.1 hfresh.2.2

/-- What a row names is marked nowhere, and is no payload yet to be published. -/
theorem Kept.replaced (h : Kept system) {key blobId old : Bytes} (hfresh : Publishable system blobId)
    (hold : system.store.rows.blobAt key = some old) :
    old ≠ blobId ∧ system.store.rows.queuedAt old = none := by
  refine ⟨?_, h.tracked.unmarked hold⟩
  rintro rfl
  exact hfresh.2.1 (h.tracked.named hold)

theorem fresh_of_publishable {commit : Commit} {blobId : Bytes}
    (hpublished : commit.published.map Prod.snd = some blobId) (hfresh : Publishable system blobId) :
    ∀ other ∈ commit.published.map Prod.snd, other ∈ system.tracked ∧ other ∉ system.published := by
  intro other hother
  obtain rfl := Option.some.inj (hpublished.symm.trans hother)
  exact ⟨hfresh.1, hfresh.2.1⟩

theorem Kept.counted_put (h : Kept system) {bucket : Bytes} {object : ObjectRecord}
    {previous : Option ObjectRecord} {now : TimestampMs}
    (hload : loadObject system.store.rows (Keys.object bucket object.key) object.key = .ok previous)
    (hfresh : Publishable system object.blobId.items) :
    Counted
      { system.store.counters.publishing previous with
        bytes := (system.store.counters.publishing previous).bytes + object.size }
      (system.store.rows.write (putObjectBatch bucket object previous now)) := by
  refine counted_putObjectBatch h.counted h.written hload (h.marked hfresh) fun old hold => ?_
  have hblob := blobAt_of_loadObject hload
  rw [hold] at hblob
  exact h.replaced hfresh hblob

theorem Kept.putObject (h : Kept system) {bucket : Bytes} {object : ObjectRecord}
    {now : TimestampMs} {store : MetadataStore} {outcome : PutOutcome}
    (hfresh : Publishable system object.blobId.items)
    (hstore : MonoBucket.putObject system.store bucket object now = .ok (store, outcome)) :
    Kept { system with store := store, published := object.blobId.items :: system.published } := by
  obtain ⟨_, -, hstore⟩ := Except.bind_eq_ok_iff.mp hstore
  obtain ⟨previous, hload, hstore⟩ := Except.bind_eq_ok_iff.mp hstore
  obtain ⟨rfl, -⟩ := Prod.mk.inj (Except.pure_eq_ok_iff.mp hstore)
  exact h.commit (.putObject bucket object previous) (fresh_of_publishable rfl hfresh)
    (fun pair => mem_replacedObject_of_load hload)
    (holds_putObjectBatch h.written bucket object previous now) (h.counted_put hload hfresh)

theorem Kept.deleteObject (h : Kept system) {bucket key : Bytes} {now : TimestampMs}
    {store : MetadataStore} {outcome : DeleteOutcome}
    (hstore : MonoBucket.deleteObject system.store bucket key now = .ok (store, outcome)) :
    Kept (system.leave store) := by
  obtain ⟨_, -, hstore⟩ := Except.bind_eq_ok_iff.mp hstore
  obtain ⟨found, hload, hstore⟩ := Except.bind_eq_ok_iff.mp hstore
  cases found with
  | none =>
      obtain ⟨rfl, -⟩ := Prod.mk.inj (Except.pure_eq_ok_iff.mp hstore)
      exact h
  | some existing =>
      obtain ⟨rfl, -⟩ := Prod.mk.inj (Except.pure_eq_ok_iff.mp hstore)
      refine h.commit (.deleteObject bucket key existing) (fun _ hnone => nomatch hnone)
        (fun pair hpair => ?_) (holds_deleteObjectBatch h.written bucket key existing now)
        (counted_deleteObjectBatch h.counted h.written hload ?_)
      · obtain rfl := List.mem_singleton.mp hpair
        exact blobAt_of_loadObject hload
      · exact h.tracked.unmarked (blobAt_of_loadObject hload)

theorem Kept.putPart (h : Kept system) {uploadId : Bytes} {part : PartRecord}
    {now : TimestampMs} {store : MetadataStore} {outcome : PutOutcome}
    (hfresh : Publishable system part.blobId.items)
    (hstore : MonoBucket.putPart system.store uploadId part now = .ok (store, outcome)) :
    Kept { system with store := store, published := part.blobId.items :: system.published } := by
  obtain ⟨_, -, hstore⟩ := Except.bind_eq_ok_iff.mp hstore
  obtain ⟨found, -, hstore⟩ := Except.bind_eq_ok_iff.mp hstore
  cases found with
  | none => cases hstore
  | some upload =>
      obtain ⟨previous, hload, hstore⟩ := Except.bind_eq_ok_iff.mp hstore
      obtain ⟨rfl, -⟩ := Prod.mk.inj (Except.pure_eq_ok_iff.mp hstore)
      have hblob := blobAt_of_loadPart hload
      refine h.commit (.putPart uploadId part previous) (fresh_of_publishable rfl hfresh)
        (fun pair hpair => ?_) (holds_putPartBatch h.written uploadId part previous now)
        (counted_putPartBatch h.counted (h.marked hfresh) fun old hold => ?_)
      · obtain ⟨old, hold, rfl⟩ := List.mem_map.mp hpair
        rw [Option.mem_toList.mp hold] at hblob
        exact hblob
      · rw [hold] at hblob
        exact h.replaced hfresh hblob

theorem find?_of_loadUpload {rows : Rows} {uploadId : Bytes} {upload : UploadRecord}
    (hload : loadUpload rows uploadId = .ok (some upload)) :
    rows.find? (Keys.uploadById uploadId) ≠ none := by
  obtain ⟨stored, hfind, -⟩ := decode_of_readRow hload
  rw [hfind]
  exact Option.some_ne_none stored

theorem Kept.abortUpload (h : Kept system) {uploadId : Bytes} {now : TimestampMs}
    {store : MetadataStore} {outcome : AbortOutcome}
    (hstore : MonoBucket.abortUpload system.store uploadId now = .ok (store, outcome)) :
    Kept (system.leave store) := by
  obtain ⟨found, hload, hstore⟩ := Except.bind_eq_ok_iff.mp hstore
  cases found with
  | none => cases hstore
  | some upload =>
      obtain ⟨parts, hparts, hstore⟩ := Except.bind_eq_ok_iff.mp hstore
      obtain ⟨rfl, -⟩ := Prod.mk.inj (Except.pure_eq_ok_iff.mp hstore)
      obtain rfl := uploadId_of_loadUpload hload
      exact h.commit (.abortUpload upload parts) (fun _ hnone => nomatch hnone)
        (fun pair => mem_releasedParts_of_collect hparts)
        (holds_abortUploadBatch h.written upload parts now)
        (counted_abortUploadBatch h.counted (find?_of_loadUpload hload)
          (h.tracked.nodup_parts hparts) (h.tracked.unmarked_parts hparts))

theorem Kept.completeUpload (h : Kept system) {bucket uploadId : Bytes} {object : ObjectRecord}
    {now : TimestampMs} {store : MetadataStore} {outcome : CompleteOutcome}
    (hfresh : Publishable system object.blobId.items)
    (hstore : MonoBucket.completeUpload system.store bucket uploadId object now =
      .ok (store, outcome)) :
    Kept { system with store := store, published := object.blobId.items :: system.published } := by
  obtain ⟨_, -, hstore⟩ := Except.bind_eq_ok_iff.mp hstore
  obtain ⟨found, hupload, hstore⟩ := Except.bind_eq_ok_iff.mp hstore
  cases found with
  | none => cases hstore
  | some upload =>
      obtain ⟨previous, hload, hstore⟩ := Except.bind_eq_ok_iff.mp hstore
      obtain ⟨parts, hparts, hstore⟩ := Except.bind_eq_ok_iff.mp hstore
      obtain ⟨rfl, -⟩ := Prod.mk.inj (Except.pure_eq_ok_iff.mp hstore)
      obtain rfl := uploadId_of_loadUpload hupload
      -- The object's row first; what follows finds the parts and the upload as they were.
      have hthere : (system.store.rows.write (putObjectBatch bucket object previous now)).find?
          (Keys.uploadById upload.uploadId) ≠ none := by
        have hsame : (system.store.rows.write
            (Commit.batch now (.putObject bucket object previous))).find?
              (Keys.uploadById upload.uploadId) =
            system.store.rows.find? (Keys.uploadById upload.uploadId) :=
          find?_upload_commit fun other hends => by cases hends
        show (system.store.rows.write (Commit.batch now (.putObject bucket object previous))).find?
          (Keys.uploadById upload.uploadId) ≠ none
        rw [hsame]
        exact find?_of_loadUpload hupload
      have hfree : ∀ blobId ∈ partBlobIds parts,
          (system.store.rows.write (putObjectBatch bucket object previous now)).queuedAt blobId =
            none := by
        intro blobId hmem
        obtain ⟨part, hpart, rfl⟩ := List.mem_map.mp hmem
        have hblob := blobAt_of_collectParts hparts hpart
        obtain ⟨hne, hunmarked⟩ := h.replaced hfresh hblob
        rw [queuedAt_putObjectBatch, if_neg, if_neg fun hsame => hne (Option.some.inj hsame).symm,
          hunmarked]
        intro hreplaced
        obtain ⟨pair, hpair, hsame⟩ := List.mem_map.mp hreplaced
        have hobject := mem_replacedObject_of_load hload hpair
        rw [hsame, eq_of_mem_replacedObject pair.1 (List.mem_map_of_mem hpair)] at hobject
        exact part_ne_object _ _ _ _ (h.tracked.once hblob hobject)
      refine h.commit (.completeUpload bucket upload object previous parts)
        (fresh_of_publishable rfl hfresh) (fun pair hpair => ?_)
        (holds_completeUploadBatch h.written bucket upload object previous parts now) ?_
      · exact (List.mem_append.mp hpair).elim (mem_replacedObject_of_load hload)
          (mem_releasedParts_of_collect hparts)
      · show Counted _ (system.store.rows.write (completeUploadBatch bucket upload object previous
          parts now))
        rw [completeUploadBatch, List.append_assoc, Rows.write_append]
        exact counted_abortUploadBatch (h.counted_put hload hfresh) hthere
          (h.tracked.nodup_parts hparts) hfree

theorem Kept.trackBlob (h : Kept system) {blobId : Bytes} {now : TimestampMs}
    (hnew : blobId ∉ system.tracked) (hroom : system.tracked.length < maxSequenceNumber) :
    Kept { system with
      store := MonoBucket.trackBlob system.store blobId now
      tracked := blobId :: system.tracked } where
  written := h.written.write fun key value hput => by
    obtain ⟨rfl, rfl⟩ := RowOp.put.inj (List.mem_singleton.mp hput)
    exact Written.orphan blobId now
  tracked := h.tracked.track hnew
  counted := by
    have hfree : system.store.rows.queuedAt blobId = none := by
      by_contra hmarked
      exact hnew (h.tracked.known hmarked)
    intro kind
    show _ = UInt64.ofNat ((system.store.rows.apply (orphanRow blobId now)).tally kind)
    by_cases hkind : kind = .orphans
    · subst hkind
      rw [tally_mark hfree, UInt64.ofNat_add, ← h.counted .orphans]
      rfl
    · have htag : (orphanRow blobId now).key.head? ≠ some kind.tag := by
        have htags : some Keys.kOrphan ≠ some kind.tag := by
          cases kind <;> first | decide | exact absurd rfl hkind
        exact htags
      rw [tally_apply_of_tag htag, ← h.counted kind]
      cases kind <;> first | rfl | exact absurd rfl hkind
  uploads := by
    intro uploadId hthere
    refine h.uploads uploadId fun hnone => hthere ?_
    rw [← hnone]
    refine Rows.find?_write_of_forall_ne _ fun op hop hkey => ?_
    rw [List.mem_singleton.mp hop] at hkey
    exact absurd (congrArg List.head? hkey)
      (by decide : ¬ some Keys.kOrphan = some Keys.kUploadById)
  numbered := hroom

/-- Fewer markers than 64 bits count: the counter takes off what the rows lose. -/
theorem Kept.forgetOrphans (h : Kept system) {blobIds : List Bytes} (hnodup : blobIds.Nodup)
    (hmarked : ∀ blobId ∈ blobIds, system.store.rows.queuedAt blobId ≠ none) :
    Kept { system with
      store := MonoBucket.forgetOrphans system.store blobIds
      forgotten := blobIds ++ system.forgotten } := by
  have hrows := rows_forgetOrphans system.store blobIds
  have hbound : system.store.rows.tally .orphans < 2 ^ 64 := by
    have hle := h.tracked.tally_orphans_le.trans h.numbered
    have hmax : maxSequenceNumber < 2 ^ 64 := by decide
    omega
  refine ⟨holds_forgetOrphans h.written blobIds, ?_,
    counted_forgetOrphans h.counted hnodup hmarked hbound, ?_, h.numbered⟩
  · show Tracked (MonoBucket.forgetOrphans system.store blobIds).rows _ _ _
    rw [hrows]
    exact h.tracked.forget blobIds
  · intro uploadId hthere
    have hthere : (MonoBucket.forgetOrphans system.store blobIds).rows.find?
      (Keys.uploadById uploadId) ≠ none := hthere
    refine h.uploads uploadId fun hnone => hthere ?_
    rw [hrows, ← hnone]
    refine Rows.find?_write_of_forall_ne _ fun op hop hkey => ?_
    obtain ⟨blobId, -, rfl⟩ := List.mem_map.mp hop
    exact absurd (congrArg List.head? hkey)
      (by decide : ¬ some Keys.kOrphan = some Keys.kUploadById)

theorem publish_eq_some {α : Type} {blobId : Bytes} {result : Except StoreError (MetadataStore × α)}
    (h : system.publish blobId result = some next) :
    Publishable system blobId ∧ ∃ store outcome, result = .ok (store, outcome) ∧
      next = { system with store := store, published := blobId :: system.published } := by
  cases result with
  | error error => cases h
  | ok returned =>
      simp only [System.publish] at h
      split_ifs at h with hfresh
      exact ⟨hfresh, returned.1, returned.2, rfl, (Option.some.inj h).symm⟩

theorem toOption_map_eq_some {α β : Type} {result : Except StoreError α} {f : α → β} {final : β}
    (h : result.toOption.map f = some final) : ∃ value, result = .ok value ∧ final = f value := by
  cases result with
  | error error => cases h
  | ok value => exact ⟨value, rfl, (Option.some.inj h).symm⟩

theorem Kept.step (h : Kept system) {op : Op} (hstep : step system op = some next) : Kept next := by
  cases op with
  | createBucket bucket =>
      obtain ⟨store, hstore, rfl⟩ := toOption_map_eq_some hstep
      exact h.createBucket hstore
  | deleteBucket name =>
      obtain ⟨store, hstore, rfl⟩ := toOption_map_eq_some hstep
      exact h.deleteBucket hstore
  | putObject bucket object now =>
      obtain ⟨hfresh, store, outcome, hstore, rfl⟩ := publish_eq_some hstep
      exact h.putObject hfresh hstore
  | deleteObject bucket key now =>
      obtain ⟨⟨store, outcome⟩, hstore, rfl⟩ := toOption_map_eq_some hstep
      exact h.deleteObject hstore
  | createUpload upload =>
      rw [Recount.step] at hstep
      split_ifs at hstep with hused
      obtain ⟨store, hstore, rfl⟩ := toOption_map_eq_some hstep
      exact h.createUpload hused hstore
  | putPart uploadId part now =>
      obtain ⟨hfresh, store, outcome, hstore, rfl⟩ := publish_eq_some hstep
      exact h.putPart hfresh hstore
  | abortUpload uploadId now =>
      obtain ⟨⟨store, outcome⟩, hstore, rfl⟩ := toOption_map_eq_some hstep
      exact h.abortUpload hstore
  | completeUpload bucket uploadId object now =>
      obtain ⟨hfresh, store, outcome, hstore, rfl⟩ := publish_eq_some hstep
      exact h.completeUpload hfresh hstore
  | trackBlob blobId now =>
      rw [Recount.step] at hstep
      split_ifs at hstep with hrefused
      obtain rfl := Option.some.inj hstep
      obtain ⟨hnew, hroom⟩ := not_or.mp hrefused
      exact h.trackBlob hnew (Nat.lt_of_not_le hroom)
  | forgetOrphans blobIds limit queuedAtOrBefore =>
      rw [Recount.step] at hstep
      split_ifs at hstep with hlisted
      obtain rfl := Option.some.inj hstep
      exact h.forgetOrphans hlisted.1 fun blobId hmem => mem_listOrphans (hlisted.2 blobId hmem)

end Kept

/-! ### Every sequence -/

/-- Whenever the store is closed and opened again, the scan computes the counters
it was closed with. -/
theorem counters_eq_rescan {system : System} {ops : List Op}
    (hrun : Trace.run step {} ops = some system) :
    ∃ reopened charges, openMetadataStore system.store.rows = .ok (reopened, charges) ∧
      reopened.counters = system.store.counters := by
  have hkept : Kept system :=
    Trace.run_invariant (fun h hstep => Kept.step h hstep) kept_start hrun
  obtain ⟨⟨reopened, charges⟩, hopened⟩ := openMetadataStore_returns hkept.written
  refine ⟨reopened, charges, hopened, Counters.eq_of_get fun kind => ?_⟩
  exact (counted_openMetadataStore hopened kind).trans (hkept.counted kind).symm

/-- An object replaced by an upload of one part, and another upload given up. -/
def replacedAndAborted : List Op :=
  [.createBucket { name := ascii "photos" }, .trackBlob (ascii "a") 1,
    .putObject (ascii "photos") { key := ascii "cat", blobId := ⟨ascii "a", fits_a⟩, size := 3 } 2,
    .createUpload
      { uploadId := ascii "u", bucket := ⟨ascii "photos", fits_photos⟩,
        key := ⟨ascii "cat", fits_cat⟩ },
    .trackBlob (ascii "b") 3,
    .putPart (ascii "u") { partNumber := 1, blobId := ⟨ascii "b", fits_b⟩, size := 5 } 4,
    .trackBlob (ascii "c") 5,
    .completeUpload (ascii "photos") (ascii "u")
      { key := ascii "cat", blobId := ⟨ascii "c", by decide⟩, size := 5 } 6,
    .createUpload
      { uploadId := ascii "v", bucket := ⟨ascii "photos", fits_photos⟩,
        key := ⟨ascii "dog", by decide⟩ },
    .abortUpload (ascii "v") 7, .forgetOrphans [ascii "b"] 1000 6]

theorem counters_eq_rescan_replacedAndAborted :
    ∃ system, Trace.run step {} replacedAndAborted = some system ∧
      system.store.counters = ⟨1, 1, 5, 0, 1⟩ ∧
      ∃ reopened charges, openMetadataStore system.store.rows = .ok (reopened, charges) ∧
        reopened.counters = system.store.counters := by
  have hruns : (Trace.run step {} replacedAndAborted).isSome := by decide +kernel
  obtain ⟨system, hsystem⟩ := Option.isSome_iff_exists.mp hruns
  have hcounters : ((Trace.run step {} replacedAndAborted).map fun system =>
      system.store.counters) = some ⟨1, 1, 5, 0, 1⟩ := by decide +kernel
  rw [hsystem] at hcounters
  exact ⟨system, hsystem, Option.some.inj hcounters, counters_eq_rescan hsystem⟩

end MonoBucket.Recount
