/-
Half a payload is never seen

A file gets its name in the tree once all of it has been written, under an id nobody
else has, and nothing writes to it afterwards. So whatever a name in the tree leads to is
the whole of what was handed to one writer, across any interleaving of threads and any
number of restarts; after a power cut too, if it was flushed before it was renamed. And
until the power goes, the tree is exactly what has been renamed into it and not removed.
-/

import MonoBucket.Storage.BlobFileSteps

namespace MonoBucket.BlobFiles

open PowerLoss (Entry Link)

/-! ### What a phase knows -/

namespace Shared

variable (shared : Shared)

def contents (inode : Nat) : Bytes := (shared.disk.files inode).contents

/-- A file is its writer's own, under the temporary name. -/
structure Owns (writer : BlobWriter) : Prop where
  made : shared.made[writer.fd]? = some writer.blobId
  unpublished : shared.published writer.blobId = none
  linked : shared.disk.look (temporaryPath writer.blobId) = some (.file writer.fd)

/-- A file was renamed into the tree under an id. -/
def Leads (blobId : Bytes) (inode : Nat) : Prop :=
  ∃ payload, shared.published blobId = some payload ∧ payload.inode = inode

/-- A reader has a payload's file open, and does not read past its end. -/
structure Follows (reader : BlobReader) : Prop where
  leads : ∃ blobId, shared.Leads blobId reader.fd
  size : reader.size = (shared.contents reader.fd).length
  stop_le : reader.stop ≤ reader.size
  offset_le : reader.offset ≤ reader.stop

/-- What a source has left to append. -/
def rest : Option BlobReader → Bytes
  | none => []
  | some source => (shared.contents source.fd).drop source.offset

/-- All that was handed over is in the file, and hashed. -/
structure Holds (writer : BlobWriter) (handed : Bytes) : Prop where
  owns : shared.Owns writer
  contents : shared.contents writer.fd = handed
  digest : writer.digest = handed

/-- The file is as it has to be for the rename. -/
structure Ready (writer : BlobWriter) (handed : Bytes) (durability : Durability) : Prop where
  holds : shared.Holds writer handed
  flushed : durability ≠ .none → (shared.disk.files writer.fd).flushed = true

/-- A payload is in the tree, not yet lastingly. -/
def Linked (writer : BlobWriter) (handed : Bytes) (path : Path) : Prop :=
  writer.digest = handed ∧ finalPath writer.blobId = .ok path ∧
    ∃ payload, shared.published writer.blobId = some payload ∧ payload.handed = handed ∧
      payload.durability = .strict ∧ payload.cuts = shared.cuts

/-- A reader has given what stands between where it was set to and where it is. -/
structure Gives (blobId : Bytes) (reader : BlobReader) (start : Nat) (given : Bytes) : Prop where
  leads : shared.Leads blobId reader.fd
  follows : shared.Follows reader
  offset : start + given.length = reader.offset
  given : given <+: (shared.contents reader.fd).drop start

end Shared

/-- What a phase knows of the state. -/
def Sound (shared : Shared) : Phase → Prop
  | .rests _ => True
  | .create blobId => blobId ∈ shared.issued ∧ blobId ∉ shared.made
  | .holds writer handed => shared.Holds writer handed
  | .write writer handed data remaining source =>
    shared.Owns writer ∧ shared.contents writer.fd ++ remaining = writer.digest ++ data ∧
      writer.digest ++ data ++ shared.rest source = handed ∧
      ∀ reader ∈ source, shared.Follows reader ∧ reader.stop = reader.size
  | .openSource writer handed blobId path =>
    shared.Holds writer handed ∧ finalPath blobId = .ok path
  | .statSource writer handed blobId fd => shared.Holds writer handed ∧ shared.Leads blobId fd
  | .copy writer handed source =>
    shared.Owns writer ∧ shared.contents writer.fd = writer.digest ∧
      writer.digest ++ shared.rest (some source) = handed ∧
      shared.Follows source ∧ source.stop = source.size ∧ source.remaining ≠ 0
  | .flush writer handed _ => shared.Holds writer handed
  | .close writer handed durability => shared.Ready writer handed durability
  | .makeShard writer handed durability path directory rest =>
    shared.Ready writer handed durability ∧ finalPath writer.blobId = .ok path ∧
      ∀ other ∈ directory :: rest, IsDirectoryPath other
  | .rename writer handed durability path =>
    shared.Ready writer handed durability ∧ finalPath writer.blobId = .ok path
  | .openShard writer handed path | .flushShard writer handed path =>
    shared.Linked writer handed path
  | .returned committed =>
    ∃ payload, shared.published committed.blobId = some payload ∧
      payload.handed = committed.hashed ∧ payload.returned = true
  | .unwind writer _ => writer.blobId ∈ shared.issued ∧ shared.published writer.blobId = none
  | .opening blobId path => finalPath blobId = .ok path
  | .stat blobId fd => shared.Leads blobId fd
  | .reads blobId reader start given => shared.Gives blobId reader start given
  | .read blobId reader start given capacity =>
    shared.Gives blobId reader start given ∧ reader.remaining ≠ 0 ∧ capacity ≠ 0

/-- The id of the payload a thread is making, until it is in the tree. -/
def Phase.making : Phase → Option Bytes
  | .create blobId => some blobId
  | .holds writer _ | .write writer .. | .openSource writer .. | .statSource writer ..
  | .copy writer .. | .flush writer .. | .close writer .. | .makeShard writer ..
  | .rename writer .. | .unwind writer _ => some writer.blobId
  | .rests _ | .openShard .. | .flushShard .. | .returned _ | .opening .. | .stat .. | .reads ..
  | .read .. => none

/-! ### The state -/

/-- A payload that was renamed into the tree: its file was made under its id, holds what was
handed over unless the power went before any of it was flushed, and can be found by its name
until it is removed or the power goes. -/
structure Kept (shared : Shared) (blobId : Bytes) (payload : Published) : Prop where
  made : shared.made[payload.inode]? = some blobId
  flushed : payload.durability ≠ .none → (shared.disk.files payload.inode).flushed = true
  contents : payload.durability ≠ .none ∨ payload.cuts = shared.cuts →
    shared.contents payload.inode = payload.handed
  linked : payload.removed = false → payload.cuts = shared.cuts →
    ∃ path, finalPath blobId = .ok path ∧ shared.disk.look path = some (.file payload.inode)
  cuts_le : payload.cuts ≤ shared.cuts

/-- A name that leads to a file, now or after a power cut, is one of the two of the id it was
made under, and the one in the tree only when it was renamed there. -/
def Named (shared : Shared) : Prop :=
  ∀ path inode, some (Entry.file inode) ∈ (shared.disk.links path).survivors →
    ∃ blobId, shared.made[inode]? = some blobId ∧
      (path = temporaryPath blobId ∨ finalPath blobId = .ok path ∧ shared.Leads blobId inode)

structure Orderly (shared : Shared) : Prop where
  next : shared.made.length = shared.disk.next
  nodup : shared.made.Nodup
  issued : ∀ blobId ∈ shared.made, blobId ∈ shared.issued
  named : Named shared
  kept : ∀ blobId payload, shared.published blobId = some payload → Kept shared blobId payload

/-! ### What a thread leaves alone -/

/-- A payload in the tree stays the payload it is. -/
structure Published.Goes (before after : Published) : Prop where
  inode : after.inode = before.inode
  handed : after.handed = before.handed
  durability : after.durability = before.durability
  cuts : after.cuts = before.cuts
  returned : before.returned = true → after.returned = true

theorem Published.Goes.refl (payload : Published) : Published.Goes payload payload :=
  ⟨rfl, rfl, rfl, rfl, id⟩

theorem Published.Goes.trans {first second third : Published} (h : first.Goes second)
    (hnext : second.Goes third) : first.Goes third :=
  ⟨hnext.inode.trans h.inode, hnext.handed.trans h.handed, hnext.durability.trans h.durability,
    hnext.cuts.trans h.cuts, fun hreturned => hnext.returned (h.returned hreturned)⟩

/-- What stays as it is when the thread making a payload, if any, moves: the files in the
tree, and what belongs to every other payload being made. -/
structure Frame (making : Option Bytes) (shared next : Shared) : Prop where
  cuts : next.cuts = shared.cuts
  issued : ∀ blobId ∈ shared.issued, blobId ∈ next.issued
  made : ∀ (inode : Nat) (blobId : Bytes), shared.made[inode]? = some blobId → next.made[inode]? = some blobId
  unmade : ∀ blobId, making ≠ some blobId → blobId ∉ shared.made → blobId ∉ next.made
  published : ∀ blobId payload, shared.published blobId = some payload →
    ∃ after, next.published blobId = some after ∧ payload.Goes after
  files : ∀ blobId payload, shared.published blobId = some payload →
    next.disk.files payload.inode = shared.disk.files payload.inode
  unpublished : ∀ blobId, making ≠ some blobId → shared.published blobId = none →
    next.published blobId = none
  own : ∀ (blobId : Bytes) (inode : Nat), making ≠ some blobId → shared.made[inode]? = some blobId →
    next.disk.files inode = shared.disk.files inode
  temporary : ∀ blobId, making ≠ some blobId →
    next.disk.look (temporaryPath blobId) = shared.disk.look (temporaryPath blobId)

theorem Frame.refl (making : Option Bytes) (shared : Shared) : Frame making shared shared where
  cuts := rfl
  issued := fun _ h => h
  made := fun _ _ h => h
  unmade := fun _ _ h => h
  published := fun _ payload h => ⟨payload, h, .refl payload⟩
  files := fun _ _ _ => rfl
  unpublished := fun _ _ h => h
  own := fun _ _ _ _ => rfl
  temporary := fun _ _ => rfl

namespace Frame

variable {making : Option Bytes} {shared next : Shared} (h : Frame making shared next)
include h

theorem owns {writer : BlobWriter} (hother : making ≠ some writer.blobId)
    (howns : shared.Owns writer) : next.Owns writer where
  made := h.made _ _ howns.made
  unpublished := h.unpublished _ hother howns.unpublished
  linked := (h.temporary _ hother).trans howns.linked

theorem leads {blobId : Bytes} {inode : Nat} (hleads : shared.Leads blobId inode) :
    next.Leads blobId inode := by
  obtain ⟨payload, hpublished, hinode⟩ := hleads
  obtain ⟨after, hafter, hgoes⟩ := h.published blobId payload hpublished
  exact ⟨after, hafter, hgoes.inode.trans hinode⟩

theorem contents_of_leads {blobId : Bytes} {inode : Nat} (hleads : shared.Leads blobId inode) :
    next.contents inode = shared.contents inode := by
  obtain ⟨payload, hpublished, rfl⟩ := hleads
  rw [Shared.contents, h.files blobId payload hpublished, Shared.contents]

theorem follows {reader : BlobReader} (hfollows : shared.Follows reader) : next.Follows reader := by
  obtain ⟨⟨blobId, hleads⟩, hsize, hstop, hoffset⟩ := hfollows
  exact ⟨⟨blobId, h.leads hleads⟩, by rw [h.contents_of_leads hleads, hsize], hstop, hoffset⟩

theorem rest {source : Option BlobReader}
    (hfollows : ∀ reader ∈ source, shared.Follows reader ∧ reader.stop = reader.size) :
    next.rest source = shared.rest source := by
  cases source with
  | none => rfl
  | some reader =>
      obtain ⟨blobId, hleads⟩ := (hfollows reader rfl).1.leads
      show (next.contents reader.fd).drop reader.offset = _
      rw [h.contents_of_leads hleads]
      rfl

theorem holds {writer : BlobWriter} {handed : Bytes} (hother : making ≠ some writer.blobId)
    (hholds : shared.Holds writer handed) : next.Holds writer handed where
  owns := h.owns hother hholds.owns
  contents := by
    rw [Shared.contents, h.own _ _ hother hholds.owns.made]
    exact hholds.contents
  digest := hholds.digest

theorem ready {writer : BlobWriter} {handed : Bytes} {durability : Durability}
    (hother : making ≠ some writer.blobId) (hready : shared.Ready writer handed durability) :
    next.Ready writer handed durability where
  holds := h.holds hother hready.holds
  flushed := by
    rw [h.own _ _ hother hready.holds.owns.made]
    exact hready.flushed

theorem gives {blobId : Bytes} {reader : BlobReader} {start : Nat} {given : Bytes}
    (hgives : shared.Gives blobId reader start given) : next.Gives blobId reader start given where
  leads := h.leads hgives.leads
  follows := h.follows hgives.follows
  offset := hgives.offset
  given := by
    rw [h.contents_of_leads hgives.leads]
    exact hgives.given

/-- What a thread knows stays true when another one moves. -/
theorem sound {phase : Phase} (hother : ∀ blobId, phase.making = some blobId → making ≠ some blobId)
    (hsound : Sound shared phase) : Sound next phase := by
  cases phase with
  | rests _ => trivial
  | opening blobId path => exact hsound
  | create blobId => exact ⟨h.issued _ hsound.1, h.unmade _ (hother _ rfl) hsound.2⟩
  | holds writer handed | flush writer handed _ => exact h.holds (hother _ rfl) hsound
  | openSource writer handed blobId path => exact ⟨h.holds (hother _ rfl) hsound.1, hsound.2⟩
  | write writer handed data remaining source =>
      obtain ⟨howns, hwritten, hhanded, hsource⟩ := hsound
      refine ⟨h.owns (hother _ rfl) howns, ?_, ?_, fun reader hmem =>
        (hsource reader hmem).imp_left h.follows⟩
      · rw [Shared.contents, h.own _ _ (hother _ rfl) howns.made]
        exact hwritten
      · rw [h.rest hsource]
        exact hhanded
  | statSource writer handed blobId fd =>
      exact ⟨h.holds (hother _ rfl) hsound.1, h.leads hsound.2⟩
  | copy writer handed source =>
      obtain ⟨howns, hcontents, hhanded, hfollows, hstop, hmore⟩ := hsound
      refine ⟨h.owns (hother _ rfl) howns, ?_, ?_, h.follows hfollows, hstop, hmore⟩
      · rw [Shared.contents, h.own _ _ (hother _ rfl) howns.made]
        exact hcontents
      · rw [h.rest fun reader hmem => by cases hmem; exact ⟨hfollows, hstop⟩]
        exact hhanded
  | close writer handed durability => exact h.ready (hother _ rfl) hsound
  | makeShard writer handed durability path directory rest =>
      exact ⟨h.ready (hother _ rfl) hsound.1, hsound.2⟩
  | rename writer handed durability path => exact ⟨h.ready (hother _ rfl) hsound.1, hsound.2⟩
  | openShard writer handed path | flushShard writer handed path =>
      obtain ⟨hdigest, hpath, payload, hpublished, hhanded, hdurability, hcuts⟩ := hsound
      obtain ⟨after, hafter, hgoes⟩ := h.published _ _ hpublished
      exact ⟨hdigest, hpath, after, hafter, hgoes.handed.trans hhanded,
        hgoes.durability.trans hdurability, by rw [hgoes.cuts, hcuts, h.cuts]⟩
  | returned committed =>
      obtain ⟨payload, hpublished, hhanded, hreturned⟩ := hsound
      obtain ⟨after, hafter, hgoes⟩ := h.published _ _ hpublished
      exact ⟨after, hafter, hgoes.handed.trans hhanded, hgoes.returned hreturned⟩
  | unwind writer error => exact ⟨h.issued _ hsound.1, h.unpublished _ (hother _ rfl) hsound.2⟩
  | stat blobId fd => exact h.leads hsound
  | reads blobId reader start given => exact h.gives hsound
  | read blobId reader start given capacity => exact ⟨h.gives hsound.1, hsound.2⟩

end Frame

/-! ### Names change -/

/-- Only names change, and none comes to lead to a file. A payload that is not removed is found
under its name as before. -/
structure Relinks (shared next : Shared) : Prop where
  issued : next.issued = shared.issued
  made : next.made = shared.made
  cuts : next.cuts = shared.cuts
  same : PowerLoss.Disk.SameFiles shared.disk next.disk
  names : ∀ path inode, some (Entry.file inode) ∈ (next.disk.links path).survivors →
    some (Entry.file inode) ∈ (shared.disk.links path).survivors
  published : ∀ blobId payload, shared.published blobId = some payload →
    ∃ after, next.published blobId = some after ∧ payload.Goes after
  kept : ∀ blobId after, next.published blobId = some after →
    ∃ payload, shared.published blobId = some payload ∧ payload.Goes after ∧
      (after.removed = false → payload.removed = false ∧ ∀ path, finalPath blobId = .ok path →
        next.disk.look path = shared.disk.look path)

namespace Relinks

variable {shared next : Shared} (h : Relinks shared next)
include h

theorem leads {blobId : Bytes} {inode : Nat} (hleads : shared.Leads blobId inode) :
    next.Leads blobId inode := by
  obtain ⟨payload, hpublished, hinode⟩ := hleads
  obtain ⟨after, hafter, hgoes⟩ := h.published blobId payload hpublished
  exact ⟨after, hafter, hgoes.inode.trans hinode⟩

theorem orderly (horderly : Orderly shared) : Orderly next where
  next := by rw [h.made, h.same.next, horderly.next]
  nodup := by rw [h.made]; exact horderly.nodup
  issued := by rw [h.made, h.issued]; exact horderly.issued
  named path inode hmem := by
    obtain ⟨blobId, hmade, hpath⟩ := horderly.named path inode (h.names path inode hmem)
    exact ⟨blobId, by rw [h.made, hmade], hpath.imp_right fun hfinal => ⟨hfinal.1, h.leads hfinal.2⟩⟩
  kept blobId after hafter := by
    obtain ⟨payload, hpublished, hgoes, hremoved⟩ := h.kept blobId after hafter
    obtain ⟨hmade, hflushed, hcontents, hlinked, hcuts⟩ := horderly.kept blobId payload hpublished
    refine ⟨?_, ?_, ?_, fun hunremoved hsame => ?_, ?_⟩
    · rw [h.made, hgoes.inode, hmade]
    · rw [hgoes.durability, hgoes.inode, h.same.files]
      exact hflushed
    · rw [hgoes.durability, hgoes.cuts, h.cuts, hgoes.inode, hgoes.handed, Shared.contents,
        h.same.files]
      exact hcontents
    · rw [hgoes.cuts, h.cuts] at hsame
      obtain ⟨path, hpath, hlook⟩ := hlinked (hremoved hunremoved).1 hsame
      exact ⟨path, hpath, by rw [(hremoved hunremoved).2 path hpath, hgoes.inode, hlook]⟩
    · rw [hgoes.cuts, h.cuts]
      exact hcuts

theorem frame {making : Option Bytes} (htemporary : ∀ blobId, making ≠ some blobId →
    next.disk.look (temporaryPath blobId) = shared.disk.look (temporaryPath blobId)) :
    Frame making shared next where
  cuts := h.cuts
  issued := by rw [h.issued]; exact fun _ hmem => hmem
  made := by rw [h.made]; exact fun _ _ hmade => hmade
  unmade := by rw [h.made]; exact fun _ _ hmem => hmem
  published := h.published
  files := by rw [h.same.files]; exact fun _ _ _ => rfl
  unpublished blobId _ hnone := by
    cases hafter : next.published blobId with
    | none => rfl
    | some after =>
        obtain ⟨payload, hpublished, -⟩ := h.kept blobId after hafter
        rw [hnone] at hpublished
        cases hpublished
  own := by rw [h.same.files]; exact fun _ _ _ _ => rfl
  temporary := htemporary

end Relinks

section Names

variable {shared : Shared} {disk : Disk}

/-- What has been renamed into the tree stays so, and only names the tree does not use
change. -/
theorem relinks_onDisk (hsame : PowerLoss.Disk.SameFiles shared.disk disk)
    (hnames : ∀ path inode, some (Entry.file inode) ∈ (disk.links path).survivors →
      some (Entry.file inode) ∈ (shared.disk.links path).survivors)
    (hlook : ∀ blobId path, finalPath blobId = .ok path → disk.look path = shared.disk.look path) :
    Relinks shared (shared.onDisk disk) where
  issued := rfl
  made := rfl
  cuts := rfl
  same := hsame
  names := hnames
  published _ payload hpublished := ⟨payload, hpublished, .refl payload⟩
  kept blobId payload hpublished :=
    ⟨payload, hpublished, .refl payload, fun hunremoved => ⟨hunremoved, hlook blobId⟩⟩

theorem look_of_putLink {path other : Path} {entry : Option Entry}
    (hlinks : disk.links = shared.disk.putLink path entry) (hne : other ≠ path) :
    disk.look other = shared.disk.look other := by
  rw [PowerLoss.Disk.look, hlinks, PowerLoss.Disk.putLink, Function.update_of_ne hne,
    PowerLoss.Disk.look]

/-- A name that does not come to lead to a file adds none. -/
theorem names_of_putLink {path : Path} {entry : Option Entry}
    (hlinks : disk.links = shared.disk.putLink path entry) (hentry : ∀ inode, entry ≠ some (.file inode)) :
    ∀ other inode, some (Entry.file inode) ∈ (disk.links other).survivors →
      some (Entry.file inode) ∈ (shared.disk.links other).survivors := by
  intro other inode hmem
  rw [hlinks] at hmem
  rcases PowerLoss.Disk.mem_survivors_putLink hmem with ⟨-, hfile⟩ | hold
  · exact absurd hfile.symm (hentry inode)
  · exact hold

theorem relinks_makeDirectory {directory : Path} (hdirectory : IsDirectoryPath directory)
    (hmake : shared.disk.makeDirectory directory = some disk) :
    Relinks shared (shared.onDisk disk) ∧
      ∀ blobId, disk.look (temporaryPath blobId) = shared.disk.look (temporaryPath blobId) := by
  obtain ⟨-, hsame, hlinks | hlinks⟩ := PowerLoss.Disk.makeDirectory_eq_some hmake
  · have hlook : ∀ path, disk.look path = shared.disk.look path := fun path => by
      rw [PowerLoss.Disk.look, hlinks, PowerLoss.Disk.look]
    exact ⟨relinks_onDisk hsame (by rw [hlinks]; exact fun _ _ hmem => hmem) fun _ path _ => hlook path,
      fun blobId => hlook _⟩
  · refine ⟨relinks_onDisk hsame (names_of_putLink hlinks fun _ hfile => by cases hfile)
      fun blobId path hpath => ?_, fun blobId => ?_⟩
    · exact look_of_putLink hlinks (hdirectory.ne_finalPath hpath)
    · exact look_of_putLink hlinks (hdirectory.ne_temporaryPath blobId)

/-- A name outside the tree goes. -/
theorem relinks_unlink {path : Path} (hunlink : shared.disk.unlink path = some disk)
    (hpath : ∀ blobId other, finalPath blobId = .ok other → other ≠ path) :
    Relinks shared (shared.onDisk disk) := by
  obtain ⟨hsame, hlinks⟩ := PowerLoss.Disk.unlink_eq_some hunlink
  refine relinks_onDisk hsame (names_of_putLink hlinks fun _ hfile => by cases hfile)
    fun blobId other hother => ?_
  exact look_of_putLink hlinks (hpath blobId other hother)

theorem relinks_acknowledge (shared : Shared) (blobId : Bytes) (directory : Path) :
    Relinks shared (shared.acknowledge blobId (shared.disk.flushDirectory directory)) where
  issued := rfl
  made := rfl
  cuts := rfl
  same := ⟨rfl, rfl⟩
  names _ _ hmem := PowerLoss.Disk.mem_survivors_flushLinks hmem
  published other payload hpublished := by
    by_cases hsame : other = blobId
    · subst hsame
      refine ⟨{ payload with returned := true }, ?_, ⟨rfl, rfl, rfl, rfl, fun _ => rfl⟩⟩
      rw [Shared.published_acknowledge_self, hpublished, Option.map_some]
    · refine ⟨payload, ?_, .refl payload⟩
      rw [Shared.published_acknowledge_of_ne _ _ hsame, hpublished]
  kept other after hafter := by
    have hlook : ∀ path : Path, (shared.disk.flushDirectory directory).look path =
        shared.disk.look path := fun path =>
      PowerLoss.Disk.current_flushLinks shared.disk directory path
    by_cases hsame : other = blobId
    · subst hsame
      rw [Shared.published_acknowledge_self] at hafter
      obtain ⟨payload, hpublished, rfl⟩ := Option.map_eq_some_iff.mp hafter
      exact ⟨payload, hpublished, ⟨rfl, rfl, rfl, rfl, fun _ => rfl⟩,
        fun hunremoved => ⟨hunremoved, fun path _ => hlook path⟩⟩
    · rw [Shared.published_acknowledge_of_ne _ _ hsame] at hafter
      exact ⟨after, hafter, .refl after, fun hunremoved => ⟨hunremoved, fun path _ => hlook path⟩⟩

theorem relinks_remove {blobId : Bytes} {path : Path} (hpath : finalPath blobId = .ok path)
    (hunlink : shared.disk.unlink path = some disk) : Relinks shared (shared.remove blobId disk) where
  issued := rfl
  made := rfl
  cuts := rfl
  same := (PowerLoss.Disk.unlink_eq_some hunlink).1
  names := names_of_putLink (PowerLoss.Disk.unlink_eq_some hunlink).2 fun _ hfile => by cases hfile
  published other payload hpublished := by
    by_cases hsame : other = blobId
    · subst hsame
      refine ⟨{ payload with removed := true }, ?_, ⟨rfl, rfl, rfl, rfl, id⟩⟩
      rw [Shared.published_remove_self, hpublished, Option.map_some]
    · refine ⟨payload, ?_, .refl payload⟩
      rw [Shared.published_remove_of_ne _ _ hsame, hpublished]
  kept other after hafter := by
    by_cases hsame : other = blobId
    · subst hsame
      rw [Shared.published_remove_self] at hafter
      obtain ⟨payload, hpublished, rfl⟩ := Option.map_eq_some_iff.mp hafter
      exact ⟨payload, hpublished, ⟨rfl, rfl, rfl, rfl, id⟩, fun hunremoved => by cases hunremoved⟩
    · rw [Shared.published_remove_of_ne _ _ hsame] at hafter
      refine ⟨after, hafter, .refl after, fun hunremoved => ⟨hunremoved, fun found hfound => ?_⟩⟩
      refine look_of_putLink (PowerLoss.Disk.unlink_eq_some hunlink).2 ?_
      rintro rfl
      exact hsame (finalPath_injective hfound hpath)

end Names

end MonoBucket.BlobFiles
