/-
The payload tree over whole runs

What each step of the store keeps, and from it what holds in every state reached: the
payloads in the tree are whole, they are there, what `commit` reports is what the file
holds, and a reader gives the bytes it was asked for, however few the system hands over
at a time.
-/

import MonoBucket.Storage.BlobIntegrity

namespace MonoBucket.BlobFiles

open PowerLoss (Entry Link)

variable {config : Config} {shared next : Shared} {phase after : Phase}

/-! ### Steps of a thread that makes a payload -/

section Making

variable {disk : Disk} {writer : BlobWriter} {handed : Bytes} {durability : Durability} {path : Path}

theorem Orderly.unpublished_of_unmade (h : Orderly shared) {blobId : Bytes}
    (hunmade : blobId ∉ shared.made) : shared.published blobId = none := by
  cases hpublished : shared.published blobId with
  | none => rfl
  | some payload =>
      exact absurd (List.mem_of_getElem? (h.kept blobId payload hpublished).made) hunmade

/-- The file of a payload in the tree is not one still being written. -/
theorem Orderly.inode_ne_fd (h : Orderly shared) (howns : shared.Owns writer) {blobId : Bytes}
    {payload : Published} (hpublished : shared.published blobId = some payload) :
    payload.inode ≠ writer.fd := by
  intro hsame
  have hmade := (h.kept blobId payload hpublished).made
  rw [hsame, howns.made] at hmade
  rw [← Option.some.inj hmade, howns.unpublished] at hpublished
  cases hpublished

theorem create_spec (h : Orderly shared) {blobId : Bytes} {inode : Nat}
    (hissued : blobId ∈ shared.issued) (hunmade : blobId ∉ shared.made)
    (hcreate : shared.disk.create (temporaryPath blobId) = some (disk, inode)) :
    Orderly (shared.create blobId disk) ∧ Frame (some blobId) shared (shared.create blobId disk) ∧
      (shared.create blobId disk).Holds ⟨blobId, inode, []⟩ [] := by
  obtain ⟨-, rfl, hnext, hfiles, hlinks⟩ := PowerLoss.Disk.create_eq_some hcreate
  have hlast : (shared.made ++ [blobId])[shared.disk.next]? = some blobId := by
    rw [← h.next, List.getElem?_concat_length]
  have hmade : ∀ (inode : Nat) (other : Bytes), shared.made[inode]? = some other →
      (shared.made ++ [blobId])[inode]? = some other ∧ inode ≠ shared.disk.next := by
    intro inode other hother
    have hlt := (List.getElem?_eq_some_iff.mp hother).1
    exact ⟨(List.getElem?_append_left hlt).trans hother, by rw [← h.next]; exact hlt.ne⟩
  have hsame : ∀ (inode : Nat) (other : Bytes), shared.made[inode]? = some other →
      disk.files inode = shared.disk.files inode := fun inode other hother => by
    rw [hfiles, Function.update_of_ne (hmade inode other hother).2]
  have hlook : ∀ other, other ≠ temporaryPath blobId → disk.look other = shared.disk.look other :=
    fun other hne => look_of_putLink hlinks hne
  refine ⟨⟨?_, ?_, ?_, ?_, ?_⟩, ⟨rfl, fun _ hmem => hmem, fun inode other hother => (hmade inode other
    hother).1, ?_, fun _ payload hpublished => ⟨payload, hpublished, .refl payload⟩, ?_,
    fun _ _ hnone => hnone, fun other inode _ hother => hsame inode other hother, ?_⟩, ⟨⟨hlast,
    h.unpublished_of_unmade hunmade, ?_⟩, ?_, rfl⟩⟩
  · show (shared.made ++ [blobId]).length = disk.next
    rw [List.length_append, hnext, h.next, List.length_singleton]
  · exact List.nodup_append.mpr ⟨h.nodup, List.nodup_singleton blobId, fun other hother last hlast => by
      rw [List.mem_singleton.mp hlast]
      rintro rfl
      exact hunmade hother⟩
  · intro other hother
    rcases List.mem_append.mp hother with hold | hlast
    · exact h.issued other hold
    · rw [List.mem_singleton.mp hlast]
      exact hissued
  · intro path inode hmem
    change some (Entry.file inode) ∈ (disk.links path).survivors at hmem
    rw [hlinks] at hmem
    rcases PowerLoss.Disk.mem_survivors_putLink hmem with ⟨rfl, hfile⟩ | hold
    · cases hfile
      exact ⟨blobId, hlast, .inl rfl⟩
    · obtain ⟨other, hother, hpath⟩ := h.named path inode hold
      exact ⟨other, (hmade inode other hother).1, hpath⟩
  · intro other payload hpublished
    have hkept := h.kept other payload hpublished
    refine ⟨(hmade _ _ hkept.made).1, ?_, ?_, fun hunremoved hcuts => ?_, hkept.cuts_le⟩
    · show _ → (disk.files payload.inode).flushed = true
      rw [hsame _ _ hkept.made]
      exact hkept.flushed
    · show _ → (disk.files payload.inode).contents = _
      rw [hsame _ _ hkept.made]
      exact hkept.contents
    · obtain ⟨path, hpath, hfound⟩ := hkept.linked hunremoved hcuts
      exact ⟨path, hpath, (hlook path (finalPath_ne_temporaryPath hpath)).trans hfound⟩
  · intro other hne hunmade hmem
    rcases List.mem_append.mp hmem with hold | hlast
    · exact hunmade hold
    · exact hne (congrArg some (List.mem_singleton.mp hlast).symm)
  · exact fun other payload hpublished => hsame _ _ (h.kept other payload hpublished).made
  · intro other hne
    exact hlook _ fun hsame => hne (congrArg some (temporaryPath_injective hsame).symm)
  · show disk.look _ = _
    rw [PowerLoss.Disk.look, hlinks, PowerLoss.Disk.putLink, Function.update_self]
    rfl
  · show (disk.files shared.disk.next).contents = []
    rw [hfiles, Function.update_self]

/-- A writer's own file changes, and nothing else. -/
theorem onFile_spec (h : Orderly shared) (howns : shared.Owns writer)
    (hlinks : disk.links = shared.disk.links) (hnext : disk.next = shared.disk.next)
    (hfiles : ∀ inode, inode ≠ writer.fd → disk.files inode = shared.disk.files inode) :
    Orderly (shared.onDisk disk) ∧ Frame (some writer.blobId) shared (shared.onDisk disk) ∧
      (shared.onDisk disk).Owns writer := by
  have hlook : ∀ path, disk.look path = shared.disk.look path := fun path => by
    rw [PowerLoss.Disk.look, hlinks, PowerLoss.Disk.look]
  refine ⟨⟨h.next.trans hnext.symm, h.nodup, h.issued, ?_, ?_⟩, ⟨rfl, fun _ hmem => hmem,
    fun _ _ hmade => hmade, fun _ _ hunmade => hunmade,
    fun _ payload hpublished => ⟨payload, hpublished, .refl payload⟩,
    fun blobId payload hpublished => hfiles _ (h.inode_ne_fd howns hpublished),
    fun _ _ hnone => hnone, ?_, fun _ _ => hlook _⟩,
    ⟨howns.made, howns.unpublished, (hlook _).trans howns.linked⟩⟩
  · intro path inode hmem
    change some (Entry.file inode) ∈ (disk.links path).survivors at hmem
    rw [hlinks] at hmem
    exact h.named path inode hmem
  · intro blobId payload hpublished
    have hkept := h.kept blobId payload hpublished
    have hsame := hfiles _ (h.inode_ne_fd howns hpublished)
    refine ⟨hkept.made, ?_, ?_, fun hunremoved hcuts => ?_, hkept.cuts_le⟩
    · show _ → (disk.files payload.inode).flushed = true
      rw [hsame]
      exact hkept.flushed
    · show _ → (disk.files payload.inode).contents = _
      rw [hsame]
      exact hkept.contents
    · obtain ⟨path, hpath, hfound⟩ := hkept.linked hunremoved hcuts
      exact ⟨path, hpath, (hlook path).trans hfound⟩
  · intro blobId inode hother hmade
    refine hfiles inode ?_
    rintro rfl
    rw [howns.made] at hmade
    exact hother hmade

/-- A file gets its name in the tree. -/
theorem publish_spec (h : Orderly shared) (hready : shared.Ready writer handed durability)
    (hpath : finalPath writer.blobId = .ok path)
    (hrename : shared.disk.rename (temporaryPath writer.blobId) path = some disk) :
    Orderly (shared.publish writer handed durability disk) ∧
      Frame (some writer.blobId) shared (shared.publish writer handed durability disk) := by
  have howns := hready.holds.owns
  have hne : temporaryPath writer.blobId ≠ path := (finalPath_ne_temporaryPath hpath).symm
  obtain ⟨inode, hsource, hsame, hlinks⟩ := PowerLoss.Disk.rename_eq_some hne hrename
  obtain rfl : writer.fd = inode := by
    rw [howns.linked] at hsource
    cases hsource
    rfl
  have hpublished : ∀ blobId payload, shared.published blobId = some payload →
      (shared.publish writer handed durability disk).published blobId = some payload := by
    intro blobId payload hold
    rw [shared.published_publish_of_ne disk handed durability, hold]
    rintro rfl
    rw [howns.unpublished] at hold
    cases hold
  have hself := shared.published_publish_self disk writer handed durability
  have hlook : ∀ other, other ≠ path → other ≠ temporaryPath writer.blobId →
      disk.look other = shared.disk.look other := by
    intro other hpath htemporary
    rw [PowerLoss.Disk.look, hlinks, Function.update_of_ne htemporary, PowerLoss.Disk.putLink,
      Function.update_of_ne hpath, PowerLoss.Disk.look]
  have hfound : disk.look path = some (.file writer.fd) := by
    rw [PowerLoss.Disk.look, hlinks, Function.update_of_ne hne.symm, PowerLoss.Disk.putLink,
      Function.update_self]
    rfl
  refine ⟨⟨h.next.trans hsame.next.symm, h.nodup, h.issued, ?_, ?_⟩, ⟨rfl, fun _ hmem => hmem,
    fun _ _ hmade => hmade, fun _ _ hunmade => hunmade,
    fun blobId payload hold => ⟨payload, hpublished blobId payload hold, .refl payload⟩,
    fun _ _ _ => congrFun hsame.files _, ?_, fun _ _ _ _ => congrFun hsame.files _, ?_⟩⟩
  · intro other inode hmem
    change some (Entry.file inode) ∈ (disk.links other).survivors at hmem
    have hcases : (other = path ∧ inode = writer.fd) ∨
        some (Entry.file inode) ∈ (shared.disk.links other).survivors := by
      rw [hlinks] at hmem
      by_cases htemporary : other = temporaryPath writer.blobId
      · subst htemporary
        rw [Function.update_self] at hmem
        exact .inr ((Link.mem_survivors_put.mp hmem).resolve_left fun hfile => by cases hfile)
      · rw [Function.update_of_ne htemporary] at hmem
        refine (PowerLoss.Disk.mem_survivors_putLink hmem).imp_left fun hnew => ⟨hnew.1, ?_⟩
        have hfile := hnew.2
        cases hfile
        rfl
    rcases hcases with ⟨rfl, rfl⟩ | hold
    · exact ⟨writer.blobId, howns.made, .inr ⟨hpath, _, hself, rfl⟩⟩
    · obtain ⟨blobId, hmade, hpath⟩ := h.named other inode hold
      refine ⟨blobId, hmade, hpath.imp_right fun hfinal => ⟨hfinal.1, ?_⟩⟩
      obtain ⟨payload, hold, hinode⟩ := hfinal.2
      exact ⟨payload, hpublished blobId payload hold, hinode⟩
  · intro blobId payload hnew
    by_cases hsameId : blobId = writer.blobId
    · subst hsameId
      rw [hself] at hnew
      obtain rfl := Option.some.inj hnew
      refine ⟨howns.made, fun hdurable => ?_, fun _ => ?_, fun _ _ => ⟨path, hpath, hfound⟩, le_rfl⟩
      · show (disk.files writer.fd).flushed = true
        rw [hsame.files]
        exact hready.flushed hdurable
      · show (disk.files writer.fd).contents = handed
        rw [hsame.files]
        exact hready.holds.contents
    · rw [shared.published_publish_of_ne disk handed durability hsameId] at hnew
      have hkept := h.kept blobId payload hnew
      refine ⟨hkept.made, ?_, ?_, fun hunremoved hcuts => ?_, hkept.cuts_le⟩
      · show _ → (disk.files payload.inode).flushed = true
        rw [hsame.files]
        exact hkept.flushed
      · show _ → (disk.files payload.inode).contents = _
        rw [hsame.files]
        exact hkept.contents
      · obtain ⟨other, hother, hlooked⟩ := hkept.linked hunremoved hcuts
        refine ⟨other, hother, (hlook other ?_ (finalPath_ne_temporaryPath hother)).trans hlooked⟩
        rintro rfl
        exact hsameId (finalPath_injective hother hpath)
  · intro blobId hother hnone
    rw [shared.published_publish_of_ne disk handed durability fun hsameId => hother (by rw [hsameId])]
    exact hnone
  · intro blobId hother
    refine hlook _ (finalPath_ne_temporaryPath hpath).symm fun hsameName => hother ?_
    rw [temporaryPath_injective hsameName]

end Making

/-- What a name in the tree leads to was renamed there under its id. -/
theorem Orderly.leads_of_look (h : Orderly shared) {blobId : Bytes} {path : Path} {inode : Nat}
    (hpath : finalPath blobId = .ok path) (hlook : shared.disk.look path = some (.file inode)) :
    shared.Leads blobId inode := by
  have hmem : some (Entry.file inode) ∈ (shared.disk.links path).survivors := by
    rw [← hlook]
    exact Link.current_mem_survivors _
  obtain ⟨other, -, htemporary | ⟨hother, hleads⟩⟩ := h.named path inode hmem
  · exact absurd htemporary (finalPath_ne_temporaryPath hpath)
  · rw [finalPath_injective hpath hother]
    exact hleads

/-- The power goes. What was flushed is there as it was. -/
theorem orderly_cut (h : Orderly shared) (age : Path → Nat) (torn : Nat → Bytes) :
    Orderly { shared with disk := shared.disk.cut age torn, cuts := shared.cuts + 1 } where
  next := h.next
  nodup := h.nodup
  issued := h.issued
  named path inode hmem := by
    rcases PowerLoss.Disk.mem_survivors_cutLinks hmem with hnone | hold
    · cases hnone
    · exact h.named path inode hold
  kept blobId payload hpublished := by
    have hkept := h.kept blobId payload hpublished
    have hpast : payload.cuts ≠ shared.cuts + 1 := (Nat.lt_succ_of_le hkept.cuts_le).ne
    refine ⟨hkept.made, fun _ => rfl, fun hdurable => ?_, fun _ hcuts => absurd hcuts hpast,
      hkept.cuts_le.trans (Nat.le_succ _)⟩
    have hflushed := hdurable.resolve_right hpast
    show (if (shared.disk.files payload.inode).flushed then (shared.disk.files payload.inode).contents
      else torn payload.inode) = payload.handed
    rw [if_pos (hkept.flushed hflushed)]
    exact hkept.contents (.inl hflushed)

/-! ### Reading -/

section Reading

variable {disk : Disk} {reader later : BlobReader} {capacity transferred : Nat} {data : Bytes}

theorem pread_eq_some {inode offset wanted : Nat}
    (h : disk.pread inode offset wanted transferred = some data) :
    data.length ≤ wanted ∧ data <+: (disk.files inode).contents.drop offset ∧
      (data = [] → (disk.files inode).contents.drop offset = []) := by
  rw [PowerLoss.Disk.pread] at h
  split_ifs at h with hcan
  cases h
  refine ⟨(List.length_take_le _ _).trans hcan.1, List.take_prefix _ _, fun hnone => ?_⟩
  rcases List.take_eq_nil_iff.mp hnone with hzero | hrest
  · exact hcan.2.2 hzero
  · exact hrest

theorem read_eq_some (h : reader.read disk capacity transferred = some (.ok (later, data))) :
    later = { reader with offset := reader.offset + data.length } ∧
      data.length ≤ reader.remaining ∧ data <+: (disk.files reader.fd).contents.drop reader.offset := by
  obtain ⟨found, hpread, hfound⟩ := Option.map_eq_some_iff.mp h
  obtain ⟨hlength, hprefix, -⟩ := pread_eq_some hpread
  split_ifs at hfound
  · cases hfound
  cases hfound
  exact ⟨rfl, hlength.trans (min_le_right _ _), hprefix⟩

theorem remaining_eq (hfollows : shared.Follows reader) :
    reader.remaining = reader.stop - reader.offset := by
  rw [BlobReader.remaining]
  have hle := hfollows.offset_le
  split_ifs <;> omega

/-- A reader goes on as far as it was given bytes. -/
theorem follows_read (hfollows : shared.Follows reader)
    (h : reader.read shared.disk capacity transferred = some (.ok (later, data))) :
    shared.Follows later ∧ later.fd = reader.fd ∧ later.stop = reader.stop ∧
      later.size = reader.size ∧ later.offset = reader.offset + data.length ∧
      data ++ (shared.contents reader.fd).drop later.offset =
        (shared.contents reader.fd).drop reader.offset := by
  obtain ⟨rfl, hlength, rest, hrest⟩ := read_eq_some h
  rw [remaining_eq hfollows] at hlength
  have hle := hfollows.offset_le
  refine ⟨⟨hfollows.leads, hfollows.size, hfollows.stop_le, ?_⟩, rfl, rfl, rfl, rfl, ?_⟩
  · show reader.offset + data.length ≤ reader.stop
    omega
  · rw [Shared.contents, ← List.drop_drop, ← hrest, List.drop_left]

/-- A read of what is there does not find it ended. -/
theorem read_ne_error (hfollows : shared.Follows reader) (hmore : reader.remaining ≠ 0)
    (transferred : Nat) (error : StoreError) :
    reader.read shared.disk capacity transferred ≠ some (.error error) := by
  intro h
  obtain ⟨found, hpread, hfound⟩ := Option.map_eq_some_iff.mp h
  split_ifs at hfound with hnone
  have hend := List.drop_eq_nil_iff.mp ((pread_eq_some hpread).2.2 hnone)
  have hsize := hfollows.size
  have hstop := hfollows.stop_le
  rw [remaining_eq hfollows] at hmore
  rw [Shared.contents] at hsize
  omega

theorem follows_ofFile {blobId : Bytes} {fd : Nat} (hleads : shared.Leads blobId fd) :
    shared.Follows (.ofFile fd (shared.contents fd).length) :=
  ⟨⟨blobId, hleads⟩, rfl, le_rfl, Nat.zero_le _⟩

theorem follows_limitTo (hfollows : shared.Follows reader) (offset length : Nat) :
    shared.Follows (reader.limitTo offset length) := by
  refine ⟨hfollows.leads, hfollows.size, ?_, ?_⟩
  all_goals
    simp only [BlobReader.limitTo]
    have hmin := min_le_right offset reader.size
    split_ifs <;> omega

end Reading

/-! ### Phases -/

section Phases

variable {writer : BlobWriter} {handed data remaining : Bytes} {source : Option BlobReader}
  {durability : Durability} {path : Path} {directories : List Path}

theorem sound_nextChunk {source : BlobReader} (howns : shared.Owns writer)
    (hcontents : shared.contents writer.fd = writer.digest)
    (hhanded : writer.digest ++ shared.rest (some source) = handed)
    (hfollows : shared.Follows source) (hstop : source.stop = source.size) :
    Sound shared (nextChunk writer handed source) := by
  rw [nextChunk]
  split_ifs with hdone
  · have hrest : shared.rest (some source) = [] := by
      have hsize := hfollows.size
      rw [remaining_eq hfollows] at hdone
      exact List.drop_eq_nil_iff.mpr (by omega)
    rw [hrest, List.append_nil] at hhanded
    exact ⟨howns, hcontents.trans hhanded, hhanded⟩
  · exact ⟨howns, hcontents, hhanded, hfollows, hstop, hdone⟩

theorem sound_nextWrite (howns : shared.Owns writer)
    (hwritten : shared.contents writer.fd ++ remaining = writer.digest ++ data)
    (hhanded : writer.digest ++ data ++ shared.rest source = handed)
    (hsource : ∀ reader ∈ source, shared.Follows reader ∧ reader.stop = reader.size) :
    Sound shared (nextWrite writer handed data remaining source) := by
  rw [nextWrite]
  split_ifs with hdone
  · rw [hdone, List.append_nil] at hwritten
    have howns' : shared.Owns { writer with digest := writer.digest ++ data } :=
      ⟨howns.made, howns.unpublished, howns.linked⟩
    cases source with
    | none =>
        have hall : writer.digest ++ data = handed := by
          rw [← hhanded]
          exact (List.append_nil _).symm
        exact ⟨howns', hwritten.trans hall, hall⟩
    | some reader =>
        obtain ⟨hfollows, hstop⟩ := hsource reader rfl
        exact sound_nextChunk howns' hwritten hhanded hfollows hstop
  · exact ⟨howns, hwritten, hhanded, hsource⟩

theorem sound_nextShard (hready : shared.Ready writer handed durability)
    (hpath : finalPath writer.blobId = .ok path)
    (hdirectories : ∀ other ∈ directories, IsDirectoryPath other) :
    Sound shared (nextShard writer handed durability path directories) := by
  cases directories with
  | nil => exact ⟨hready, hpath⟩
  | cons directory rest => exact ⟨hready, hpath, hdirectories⟩

@[simp]
theorem making_nextChunk {source : BlobReader} :
    (nextChunk writer handed source).making = some writer.blobId := by
  rw [nextChunk]
  split_ifs <;> rfl

@[simp]
theorem making_nextWrite :
    (nextWrite writer handed data remaining source).making = some writer.blobId := by
  rw [nextWrite]
  split_ifs
  · cases source with
    | none => rfl
    | some reader => exact making_nextChunk
  · rfl

@[simp]
theorem making_nextShard :
    (nextShard writer handed durability path directories).making = some writer.blobId := by
  cases directories <;> rfl

/-- A writer that can fail has a file of its own. -/
theorem owns_of_unwinding (hsound : Sound shared phase) (h : phase.unwinding = some writer) :
    shared.Owns writer ∧ phase.making = some writer.blobId := by
  cases phase with
  | rests _ | create _ | holds _ _ | openShard _ _ _ | flushShard _ _ _ | returned _ | unwind _ _
  | opening _ _ | stat _ _ | reads _ _ _ _ | read _ _ _ _ _ => cases h
  | write _ _ _ _ _ | copy _ _ _ =>
      cases h
      exact ⟨hsound.1, rfl⟩
  | flush _ _ _ =>
      cases h
      exact ⟨hsound.owns, rfl⟩
  | openSource _ _ _ _ | statSource _ _ _ _ =>
      cases h
      exact ⟨hsound.1.owns, rfl⟩
  | close _ _ _ =>
      cases h
      exact ⟨hsound.holds.owns, rfl⟩
  | makeShard _ _ _ _ _ _ | rename _ _ _ _ =>
      cases h
      exact ⟨hsound.1.holds.owns, rfl⟩

theorem Orderly.issued_of_owns (h : Orderly shared) (howns : shared.Owns writer) :
    writer.blobId ∈ shared.issued := h.issued _ (List.mem_of_getElem? howns.made)

theorem sound_fails (h : Orderly shared) (hsound : Sound shared phase) (error : StoreError) :
    Sound shared (phase.fails error) ∧
      ((phase.fails error).making = phase.making ∨ (phase.fails error).making = none) := by
  rw [Phase.fails]
  cases hunwinding : phase.unwinding with
  | none => exact ⟨trivial, .inr rfl⟩
  | some writer =>
      obtain ⟨howns, hmaking⟩ := owns_of_unwinding hsound hunwinding
      exact ⟨⟨h.issued_of_owns howns, howns.unpublished⟩, .inl hmaking.symm⟩

/-- The id a thread is making a payload under was drawn for it. -/
theorem issued_of_making (h : Orderly shared) (hsound : Sound shared phase) {blobId : Bytes}
    (hmaking : phase.making = some blobId) : blobId ∈ shared.issued := by
  cases phase with
  | rests _ | openShard _ _ _ | flushShard _ _ _ | returned _ | opening _ _ | stat _ _
  | reads _ _ _ _ | read _ _ _ _ _ => cases hmaking
  | create other =>
      cases hmaking
      exact hsound.1
  | unwind writer error =>
      cases hmaking
      exact hsound.1
  | holds writer handed =>
      cases hmaking
      exact h.issued_of_owns hsound.owns
  | write _ _ _ _ _ | openSource _ _ _ _ | statSource _ _ _ _ | copy _ _ _ | flush _ _ _
  | close _ _ _ | makeShard _ _ _ _ _ _ | rename _ _ _ _ =>
      cases hmaking
      exact h.issued_of_owns (owns_of_unwinding hsound rfl).1

/-- What a system call keeps, and what its thread knows when it returns. -/
theorem Move.spec (hmove : Move config shared phase next after) (h : Orderly shared)
    (hsound : Sound shared phase) :
    Orderly next ∧ Frame phase.making shared next ∧ Sound next after ∧
      (after.making = phase.making ∨ after.making = none) ∧ next.serving = shared.serving := by
  cases hmove with
  | stays => exact ⟨h, .refl _ _, hsound, .inl rfl, rfl⟩
  | fails =>
      obtain ⟨hafter, hmaking⟩ := sound_fails h hsound _
      exact ⟨h, .refl _ _, hafter, hmaking, rfl⟩
  | create hcreate =>
      obtain ⟨horderly, hframe, hholds⟩ := create_spec h hsound.1 hsound.2 hcreate
      exact ⟨horderly, hframe, hholds, .inl rfl, rfl⟩
  | @write writer handed data remaining source transferred =>
      obtain ⟨howns, hwritten, hhanded, hsource⟩ := hsound
      obtain ⟨horderly, hframe, howns'⟩ :=
        @onFile_spec _ (shared.disk.write writer.fd (remaining.take transferred)) _ h howns rfl rfl
          fun inode hne => Function.update_of_ne hne _ _
      have hcontents : (shared.onDisk (shared.disk.write writer.fd
          (remaining.take transferred))).contents writer.fd =
          shared.contents writer.fd ++ remaining.take transferred :=
        congrArg PowerLoss.File.contents (Function.update_self writer.fd _ shared.disk.files)
      refine ⟨horderly, hframe, sound_nextWrite howns' ?_ ?_ fun reader hmem =>
        (hsource reader hmem).imp_left hframe.follows, .inl making_nextWrite, rfl⟩
      · rw [hcontents, List.append_assoc, List.take_append_drop]
        exact hwritten
      · rw [hframe.rest hsource]
        exact hhanded
  | openSource hlook =>
      exact ⟨h, .refl _ _, ⟨hsound.1, h.leads_of_look hsound.2 hlook⟩, .inl rfl, rfl⟩
  | statSource =>
      obtain ⟨hholds, hleads⟩ := hsound
      refine ⟨h, .refl _ _, sound_nextChunk hholds.owns (hholds.contents.trans hholds.digest.symm) ?_
        (follows_ofFile hleads) rfl, .inl making_nextChunk, rfl⟩
      rw [hholds.digest]
      rfl
  | copy hread =>
      obtain ⟨howns, hcontents, hhanded, hfollows, hstop, -⟩ := hsound
      obtain ⟨hlater, hfd, hlaterStop, hlaterSize, -, hrest⟩ := follows_read hfollows hread
      refine ⟨h, .refl _ _, sound_nextWrite howns (by rw [hcontents]) ?_ ?_, .inl making_nextWrite, rfl⟩
      · rw [List.append_assoc, ← hhanded]
        refine congrArg _ ?_
        show _ ++ (shared.contents _).drop _ = _
        rw [hfd]
        exact hrest
      · rintro reader hmem
        cases hmem
        exact ⟨hlater, by rw [hlaterStop, hlaterSize, hstop]⟩
  | @flush writer handed durability =>
      obtain ⟨howns, hcontents, hdigest⟩ := hsound
      obtain ⟨horderly, hframe, howns'⟩ :=
        @onFile_spec _ (shared.disk.flushFile writer.fd) _ h howns rfl rfl
          fun inode hne => Function.update_of_ne hne _ _
      have hfile : (shared.disk.flushFile writer.fd).files writer.fd =
          ⟨shared.contents writer.fd, true⟩ := Function.update_self writer.fd _ shared.disk.files
      refine ⟨horderly, hframe, ⟨⟨howns', ?_, hdigest⟩, fun _ => ?_⟩, .inl rfl, rfl⟩
      · exact (congrArg PowerLoss.File.contents hfile).trans hcontents
      · exact congrArg PowerLoss.File.flushed hfile
  | close hpath =>
      exact ⟨h, .refl _ _, sound_nextShard hsound hpath (isDirectoryPath_of_mem_directoriesOf hpath),
        .inl making_nextShard, rfl⟩
  | makeShard hmake =>
      obtain ⟨hready, hpath, hdirectories⟩ := hsound
      obtain ⟨hrelinks, htemporary⟩ := relinks_makeDirectory (hdirectories _ List.mem_cons_self) hmake
      have hframe : Frame none shared _ := hrelinks.frame fun blobId _ => htemporary blobId
      refine ⟨hrelinks.orderly h, hrelinks.frame fun blobId _ => htemporary blobId,
        sound_nextShard (hframe.ready (Option.some_ne_none _).symm hready) hpath fun other hmem =>
          hdirectories other (List.mem_cons_of_mem _ hmem), .inl making_nextShard, rfl⟩
  | @rename writer handed durability path disk hrename =>
      obtain ⟨hready, hpath⟩ := hsound
      obtain ⟨horderly, hframe⟩ := publish_spec h hready hpath hrename
      have hself := shared.published_publish_self disk writer handed durability
      refine ⟨horderly, hframe, ?_, ?_, rfl⟩
      · split_ifs with hstrict
        · exact ⟨hready.holds.digest, hpath, _, hself, rfl, hstrict, rfl⟩
        · exact ⟨_, hself, hready.holds.digest.symm, decide_eq_true hstrict⟩
      · split_ifs <;> exact .inr rfl
  | openShard => exact ⟨h, .refl _ _, hsound, .inl rfl, rfl⟩
  | @flushShard writer handed path =>
      obtain ⟨hdigest, hpath, payload, hpublished, hhanded, -, -⟩ := hsound
      have hrelinks := relinks_acknowledge shared writer.blobId path.dropLast
      refine ⟨hrelinks.orderly h, hrelinks.frame fun blobId _ =>
        PowerLoss.Disk.current_flushLinks shared.disk _ _, ⟨{ payload with returned := true }, ?_,
        hhanded.trans hdigest.symm, rfl⟩, .inr rfl, rfl⟩
      rw [shared.published_acknowledge_self, hpublished]
      rfl
  | @unwind writer error disk hunlink =>
      have hrelinks := relinks_unlink hunlink fun blobId other hother =>
        finalPath_ne_temporaryPath hother
      refine ⟨hrelinks.orderly h, hrelinks.frame fun blobId hother => ?_, trivial, .inr rfl, rfl⟩
      refine look_of_putLink (PowerLoss.Disk.unlink_eq_some hunlink).2 fun hsame => hother ?_
      rw [temporaryPath_injective hsame]
      rfl
  | unwound => exact ⟨h, .refl _ _, trivial, .inr rfl, rfl⟩
  | opening hlook => exact ⟨h, .refl _ _, h.leads_of_look hsound hlook, .inl rfl, rfl⟩
  | stat =>
      refine ⟨h, .refl _ _, ⟨hsound, follows_ofFile hsound, rfl, List.nil_prefix⟩, .inl rfl, rfl⟩
  | @read blobId given data reader later start capacity transferred hread =>
      obtain ⟨⟨hleads, hfollows, hoffset, hgiven⟩, -⟩ := hsound
      obtain ⟨hlater, hfd, -, -, hlaterOffset, hrest⟩ := follows_read hfollows hread
      refine ⟨h, .refl _ _, ⟨by rw [hfd]; exact hleads, hlater, ?_, ?_⟩, .inl rfl, rfl⟩
      · rw [hlaterOffset, List.length_append, ← hoffset, Nat.add_assoc]
      · obtain ⟨rest, hall⟩ := hgiven
        have hdrop : rest = (shared.contents reader.fd).drop reader.offset := by
          rw [← hoffset, ← List.drop_drop, ← hall, List.drop_left]
        rw [hfd, ← hall, hdrop, ← hrest, ← List.append_assoc]
        exact List.prefix_append _ _

/-- A call of the interface changes nothing on the disk. A payload is begun under an id that
was not drawn before. -/
theorem begin_spec {call : Call} (hbegin : begin shared phase call = some (next, after))
    (hfresh : ∀ first second, call = .create first second →
      newBlobId first second ∉ shared.issued)
    (h : Orderly shared) (hsound : Sound shared phase) :
    Orderly next ∧ Frame phase.making shared next ∧ Sound next after ∧
      (∀ blobId, after.making = some blobId →
        phase.making = some blobId ∨ blobId ∉ shared.issued) ∧ next.serving = shared.serving := by
  have hsame : ∀ {other : Phase}, Sound shared other →
      (∀ blobId, other.making = some blobId → phase.making = some blobId) →
      Orderly shared ∧ Frame phase.making shared shared ∧ Sound shared other ∧
        (∀ blobId, other.making = some blobId →
          phase.making = some blobId ∨ blobId ∉ shared.issued) ∧ shared.serving = shared.serving :=
    fun hother hmaking => ⟨h, .refl _ _, hother, fun blobId hid => .inl (hmaking blobId hid), rfl⟩
  unfold begin at hbegin
  split at hbegin
  · next first second =>
      cases hbegin
      have hunissued := hfresh first second rfl
      refine ⟨⟨h.next, h.nodup, fun blobId hmade => List.mem_cons_of_mem _ (h.issued blobId hmade),
        h.named, fun blobId payload hpublished => ?_⟩, ⟨rfl, fun _ hmem => List.mem_cons_of_mem _ hmem,
        fun _ _ hmade => hmade, fun _ _ hunmade => hunmade,
        fun _ payload hpublished => ⟨payload, hpublished, .refl payload⟩, fun _ _ _ => rfl,
        fun _ _ hnone => hnone, fun _ _ _ _ => rfl, fun _ _ => rfl⟩,
        ⟨List.mem_cons_self, fun hmade => hunissued (h.issued _ hmade)⟩, ?_, rfl⟩
      · obtain ⟨hmade, hflushed, hcontents, hlinked, hcuts⟩ := h.kept blobId payload hpublished
        exact ⟨hmade, hflushed, hcontents, hlinked, hcuts⟩
      · rintro blobId hid
        cases hid
        exact .inr hunissued
  · next blobId =>
      split at hbegin
      · cases hbegin
        exact hsame trivial fun _ hid => by cases hid
      · next path hpath =>
          cases hbegin
          exact hsame hpath fun _ hid => by cases hid
  · next writer handed data =>
      cases hbegin
      obtain ⟨howns, hcontents, hdigest⟩ := hsound
      refine hsame (sound_nextWrite howns (by rw [hcontents, hdigest]) ?_ fun _ hmem => by cases hmem)
        fun _ hid => by rw [making_nextWrite] at hid; exact hid
      rw [hdigest]
      exact List.append_nil _
  · next writer handed blobId =>
      split at hbegin
      · cases hbegin
        exact hsame ⟨h.issued_of_owns hsound.owns, hsound.owns.unpublished⟩ fun _ hid => hid
      · next path hpath =>
          cases hbegin
          exact hsame ⟨hsound, hpath⟩ fun _ hid => hid
  · next writer handed durability =>
      cases hbegin
      split_ifs with hnone
      · exact hsame ⟨hsound, fun hdurable => absurd hnone hdurable⟩ fun _ hid => hid
      · exact hsame hsound fun _ hid => hid
  · cases hbegin
    exact hsame ⟨h.issued_of_owns hsound.owns, hsound.owns.unpublished⟩ fun _ hid => hid
  · cases hbegin
    exact hsame trivial fun _ hid => by cases hid
  · next blobId reader start given offset length =>
      cases hbegin
      exact hsame ⟨hsound.leads, follows_limitTo hsound.follows offset length, rfl, List.nil_prefix⟩
        fun _ hid => by cases hid
  · next blobId reader start given capacity =>
      cases hbegin
      split_ifs with hnone
      · exact hsame hsound fun _ hid => hid
      · exact hsame ⟨hsound, not_or.mp hnone⟩ fun _ hid => hid
  · cases hbegin
    exact hsame trivial fun _ hid => by cases hid
  · cases hbegin

end Phases

/-! ### Every state reached -/

section Runs

variable {ι : Type} {state : State ι} {who : ι}

/-- What holds in every state reached: each thread knows what it should, no two make a
payload under one id, and before the store is open nobody uses it. -/
structure Invariant (state : State ι) : Prop where
  orderly : Orderly state.shared
  sound : ∀ who, Sound state.shared (state.calls who)
  apart : ∀ who other, who ≠ other → ∀ blobId, (state.calls who).making = some blobId →
    (state.calls other).making ≠ some blobId
  quiet : state.shared.serving = false → ∀ who, ∃ error, state.calls who = .rests error

theorem relinks_serving (shared : Shared) (serving : Bool) :
    Relinks shared { shared with serving := serving } where
  issued := rfl
  made := rfl
  cuts := rfl
  same := ⟨rfl, rfl⟩
  names _ _ hmem := hmem
  published _ payload hpublished := ⟨payload, hpublished, .refl payload⟩
  kept _ payload hpublished :=
    ⟨payload, hpublished, .refl payload, fun hunremoved => ⟨hunremoved, fun _ _ => rfl⟩⟩

theorem removed_spec (shared : Shared) (blobId : Bytes) (outcome : Outcome) :
    removed shared blobId outcome = shared ∨
      ∃ path disk, finalPath blobId = .ok path ∧ shared.disk.unlink path = some disk ∧
        removed shared blobId outcome = shared.remove blobId disk := by
  cases outcome with
  | interrupted | failed _ => exact .inl rfl
  | done _ =>
      simp only [removed]
      split
      · exact .inl rfl
      · next path hpath =>
          split
          · exact .inl rfl
          · next disk hunlink => exact .inr ⟨path, disk, hpath, hunlink, rfl⟩

theorem swept_spec (shared : Shared) (name : Bytes) (outcome : Outcome) :
    swept shared name outcome = shared ∨
      ∃ disk, shared.disk.unlink (temporaryDir ++ [name]) = some disk ∧
        swept shared name outcome = shared.onDisk disk := by
  cases outcome with
  | interrupted | failed _ => exact .inl rfl
  | done _ =>
      simp only [swept]
      cases hunlink : shared.disk.unlink (temporaryDir ++ [name]) with
      | none => exact .inl rfl
      | some disk => exact .inr ⟨disk, rfl, rfl⟩

theorem invariant_start : Invariant (start : State ι) where
  orderly :=
    ⟨rfl, List.nodup_nil, fun _ hmem => (List.not_mem_nil hmem).elim,
      fun _ _ hmem => (Option.some_ne_none _ (List.mem_singleton.mp hmem)).elim,
      fun _ _ hpublished => by cases hpublished⟩
  sound _ := trivial
  apart _ _ _ _ hmaking := by cases hmaking
  quiet _ _ := ⟨none, rfl⟩

theorem invariant_restarted (h : Orderly shared) : Invariant (restarted shared : State ι) where
  orderly := (relinks_serving shared false).orderly h
  sound _ := trivial
  apart _ _ _ _ hmaking := by cases hmaking
  quiet _ _ := ⟨none, rfl⟩

namespace Invariant

/-- One thread moves. -/
theorem move [DecidableEq ι] (h : Invariant state) (horderly : Orderly next)
    (hframe : Frame (state.calls who).making state.shared next) (hsound : Sound next after)
    (hmaking : ∀ blobId, after.making = some blobId →
      (state.calls who).making = some blobId ∨ blobId ∉ state.shared.issued)
    (hserving : next.serving = true) : Invariant (state.move who next after) := by
  have hothers : ∀ other, other ≠ who → ∀ blobId, (state.calls other).making = some blobId →
      after.making ≠ some blobId := by
    intro other hne blobId hother hafter
    rcases hmaking blobId hafter with hwho | hunissued
    · exact h.apart who other hne.symm blobId hwho hother
    · exact hunissued (issued_of_making h.orderly (h.sound other) hother)
  refine ⟨horderly, ?_, fun first second hne blobId hfirst hsecond => ?_, fun hquiet => ?_⟩
  · exact (state.forall_move who next after).mpr ⟨hsound, fun other hne =>
      hframe.sound (fun blobId hother hwho => h.apart who other hne.symm blobId hwho hother)
        (h.sound other)⟩
  · by_cases hfirstIs : first = who
    · subst hfirstIs
      rw [Pool.move_calls_self] at hfirst
      rw [state.move_calls_of_ne _ _ hne.symm] at hsecond
      exact hothers second hne.symm blobId hsecond hfirst
    · rw [state.move_calls_of_ne _ _ hfirstIs] at hfirst
      by_cases hsecondIs : second = who
      · subst hsecondIs
        rw [Pool.move_calls_self] at hsecond
        exact hothers first hfirstIs blobId hfirst hsecond
      · rw [state.move_calls_of_ne _ _ hsecondIs] at hsecond
        exact h.apart first second hne blobId hfirst hsecond
  · rw [Pool.move_shared, hserving] at hquiet
    cases hquiet

/-- Names change while no thread moves. -/
theorem relinks (h : Invariant state) (hrelinks : Relinks state.shared next)
    (htemporary : next.serving = true → ∀ blobId, next.disk.look (temporaryPath blobId) =
      state.shared.disk.look (temporaryPath blobId))
    (hserving : next.serving = false → state.shared.serving = false) :
    Invariant { state with shared := next } where
  orderly := hrelinks.orderly h.orderly
  sound who := by
    cases hnext : next.serving with
    | true =>
        have hframe : Frame none state.shared next := hrelinks.frame fun blobId _ => htemporary hnext blobId
        exact hframe.sound (fun _ _ hnone => by cases hnone) (h.sound who)
    | false =>
        obtain ⟨error, hrests⟩ := h.quiet (hserving hnext) who
        show Sound next (state.calls who)
        rw [hrests]
        trivial
  apart := h.apart
  quiet hquiet := h.quiet (hserving hquiet)

/-- A system call returns only to a store that is open. -/
theorem serving_of_advance (h : Invariant state) {outcome : Outcome} {result : Shared × Phase}
    (hadvance : advance config state.shared (state.calls who) outcome = some result) :
    state.shared.serving = true := by
  by_contra hclosed
  obtain ⟨error, hrests⟩ := h.quiet (Bool.eq_false_of_not_eq_true hclosed) who
  rw [hrests] at hadvance
  cases hadvance

theorem step [DecidableEq ι] (h : Invariant state) {label : Label ι} (hfresh : Fresh state label)
    {after : State ι} (hstep : BlobFiles.step config state label = some after) : Invariant after := by
  cases label with
  | call who call =>
      simp only [BlobFiles.step] at hstep
      split_ifs at hstep with hserving
      obtain ⟨⟨next, phase⟩, hbegin, rfl⟩ := Option.map_eq_some_iff.mp hstep
      obtain ⟨horderly, hframe, hsound, hmaking, hkeeps⟩ := begin_spec hbegin
        (fun first second hcall => by subst hcall; exact hfresh) h.orderly (h.sound who)
      exact h.move horderly hframe hsound hmaking (hkeeps.trans hserving)
  | system who outcome =>
      obtain ⟨⟨next, phase⟩, hadvance, rfl⟩ := Option.map_eq_some_iff.mp hstep
      obtain ⟨horderly, hframe, hsound, hmaking, hkeeps⟩ :=
        (move_of_advance hadvance).spec h.orderly (h.sound who)
      refine h.move horderly hframe hsound (fun blobId hid => ?_)
        (hkeeps.trans (h.serving_of_advance hadvance))
      rcases hmaking with hsame | hnone
      · exact .inl (hsame ▸ hid)
      · rw [hnone] at hid
        cases hid
  | remove blobId outcome =>
      simp only [BlobFiles.step] at hstep
      split_ifs at hstep with hserving
      cases hstep
      rcases removed_spec state.shared blobId outcome with hsame | ⟨path, disk, hpath, hunlink, hremoved⟩
      · rw [hsame]
        exact h
      · rw [hremoved]
        refine h.relinks (relinks_remove hpath hunlink) (fun _ other => ?_) fun hclosed => hclosed
        exact look_of_putLink (PowerLoss.Disk.unlink_eq_some hunlink).2
          (finalPath_ne_temporaryPath hpath).symm
  | kill =>
      cases hstep
      exact invariant_restarted h.orderly
  | cut age torn =>
      cases hstep
      exact invariant_restarted (orderly_cut h.orderly age torn)
  | layOut =>
      simp only [BlobFiles.step] at hstep
      split_ifs at hstep with hserving
      obtain ⟨disk, hmake, rfl⟩ := Option.map_eq_some_iff.mp hstep
      obtain ⟨laid, hlaid, hdisk⟩ := Option.bind_eq_some_iff.mp hmake
      obtain ⟨hobjects, hlook⟩ := relinks_makeDirectory (.inl le_rfl) hlaid
      have hfirst := h.relinks hobjects (fun _ => hlook) fun hclosed => hclosed
      obtain ⟨htemporary, hlook⟩ := @relinks_makeDirectory (state.shared.onDisk laid) _ temporaryDir
        (.inl le_rfl) hdisk
      exact hfirst.relinks htemporary (fun _ => hlook) fun hclosed => hclosed
  | sweep name outcome =>
      simp only [BlobFiles.step] at hstep
      split_ifs at hstep with hserving
      cases hstep
      rcases swept_spec state.shared name outcome with hsame | ⟨disk, hunlink, hswept⟩
      · rw [hsame]
        exact h
      · rw [hswept]
        refine h.relinks (relinks_unlink hunlink fun blobId other hother => ?_)
          (fun hopen => absurd hopen hserving) fun hclosed => hclosed
        rw [eq_of_finalPath hother]
        intro hsame
        simpa [temporaryDir] using congrArg List.length hsame
  | serve =>
      cases hstep
      exact h.relinks (relinks_serving _ true) (fun _ _ => rfl) fun hclosed => by cases hclosed

end Invariant

/-- What the store's callers rely on. -/
structure Intact (state : State ι) : Prop where
  /-- What a name in the tree leads to is all that was handed to one writer, unless none of it
  was flushed before the power went. -/
  whole : ∀ blobId path body, finalPath blobId = .ok path →
    state.shared.disk.read? path = some body →
      ∃ payload, state.shared.published blobId = some payload ∧
        (payload.durability ≠ .none ∨ payload.cuts = state.shared.cuts → body = payload.handed)
  /-- And it is there, until it is removed or the power goes. -/
  present : ∀ blobId payload, state.shared.published blobId = some payload →
    payload.removed = false → payload.cuts = state.shared.cuts →
      ∃ path, finalPath blobId = .ok path ∧ state.shared.disk.read? path = some payload.handed
  /-- What `commit` reports its size and digests of is what the payload holds. -/
  reported : ∀ who committed, state.calls who = .returned committed →
    ∃ payload, state.shared.published committed.blobId = some payload ∧
      payload.handed = committed.hashed ∧ payload.returned = true
  /-- A reader gives the bytes between where it was set to and where it is, and it is never past
  where it was to stop. -/
  given : ∀ who blobId reader start given, state.calls who = .reads blobId reader start given →
    ∃ payload, state.shared.published blobId = some payload ∧ start + given.length = reader.offset ∧
      reader.offset ≤ reader.stop ∧
      (payload.durability ≠ .none ∨ payload.cuts = state.shared.cuts →
        given = (payload.handed.drop start).take given.length ∧ reader.size = payload.handed.length)
  /-- And it does not find the payload ended early. -/
  unended : ∀ who blobId reader start given capacity,
    state.calls who = .read blobId reader start given capacity → ∀ transferred error,
      reader.read state.shared.disk capacity transferred ≠ some (.error error)

theorem Invariant.intact (h : Invariant state) : Intact state where
  whole blobId path body hpath hread := by
    rw [PowerLoss.Disk.read?] at hread
    cases hlook : state.shared.disk.look path with
    | none =>
        rw [hlook] at hread
        cases hread
    | some entry =>
        cases entry with
        | directory =>
            rw [hlook] at hread
            cases hread
        | file inode =>
            rw [hlook] at hread
            obtain rfl := Option.some.inj hread
            obtain ⟨payload, hpublished, rfl⟩ := h.orderly.leads_of_look hpath hlook
            exact ⟨payload, hpublished, (h.orderly.kept blobId payload hpublished).contents⟩
  present blobId payload hpublished hunremoved hcuts := by
    have hkept := h.orderly.kept blobId payload hpublished
    obtain ⟨path, hpath, hlook⟩ := hkept.linked hunremoved hcuts
    refine ⟨path, hpath, ?_⟩
    rw [PowerLoss.Disk.read?, hlook]
    exact congrArg some (hkept.contents (.inr hcuts))
  reported who committed hreturned := by
    have hsound := h.sound who
    rw [hreturned] at hsound
    exact hsound
  given who blobId reader start given hreads := by
    have hsound := h.sound who
    rw [hreads] at hsound
    obtain ⟨⟨payload, hpublished, hinode⟩, hfollows, hoffset, hgiven⟩ := hsound
    refine ⟨payload, hpublished, hoffset, hfollows.offset_le, fun hdurable => ?_⟩
    have hcontents := (h.orderly.kept blobId payload hpublished).contents hdurable
    rw [hinode] at hcontents
    rw [hcontents] at hgiven
    exact ⟨List.prefix_iff_eq_take.mp hgiven, by rw [hfollows.size, hcontents]⟩
  unended who blobId reader start given capacity hread transferred error := by
    have hsound := h.sound who
    rw [hread] at hsound
    exact read_ne_error hsound.1.follows hsound.2.1 transferred error

variable [DecidableEq ι] {labels : List (Label ι)} {final : State ι}

/-- In every state of every run, the tree holds whole payloads only, the ones renamed into it,
and what is reported and read of them is theirs. -/
theorem intact_of_run (hfresh : Trace.Every (step config) Fresh start labels)
    (hrun : Trace.run (step config) start labels = some final) : Intact final :=
  (hfresh.run_invariant (fun h hfresh hstep => Invariant.step h hfresh hstep) invariant_start
    hrun).intact

end Runs

/-! ### A run -/

section Fixed

def slashConfig : Config := ⟨65536, fun path => (path.map fun name => ascii "/" ++ name).flatten⟩

def catId : Bytes := newBlobId 1 2

/-- One thread stores `abc`, which the system takes in two pieces with an interruption
between them. -/
def stores (durability : Durability) : List (Label (Fin 2)) :=
  [.layOut, .serve, .call 0 (.create 1 2), .system 0 (.done 0), .call 0 (.write (ascii "abc")),
    .system 0 (.done 2), .system 0 .interrupted, .system 0 (.done 1), .call 0 (.commit durability)] ++
  List.replicate 8 (.system 0 (.done 0))

/-- Another reads all but its first byte, of which the system gives one at a time. -/
def readsRange : List (Label (Fin 2)) :=
  [.call 1 (.openReader catId), .system 1 (.done 0), .system 1 (.done 0), .call 1 (.limitTo 1 9),
    .call 1 (.read 64), .system 1 (.done 1), .call 1 (.read 64)]

def afterRun (labels : List (Label (Fin 2))) : State (Fin 2) :=
  (Trace.run (step slashConfig) start labels).getD start

theorem run_eq_afterRun {labels : List (Label (Fin 2))}
    (h : (Trace.run (step slashConfig) start labels).isSome) :
    Trace.run (step slashConfig) start labels = some (afterRun labels) := by
  obtain ⟨final, hfinal⟩ := Option.isSome_iff_exists.mp h
  rw [afterRun, hfinal]
  rfl

theorem intact_of_run_read : Intact (afterRun (stores .strict ++ readsRange)) :=
  intact_of_run (by decide +kernel) (run_eq_afterRun (by decide +kernel))

end Fixed

end MonoBucket.BlobFiles
