/-
What a step of the payload store can do

Every system call a thread can come back from, said once: the phase before, the state it
leaves and the phase after. With it what each phase knows of the disk, and what a thread
leaves alone when it moves: every payload in the tree, and the file and the names of
every other writer.
-/

import MonoBucket.Storage.BlobFiles

namespace MonoBucket.BlobFiles

open PowerLoss (Entry Link)

/-! ### Names apart -/

theorem eq_of_finalPath {blobId : Bytes} {path : Path} (h : finalPath blobId = .ok path) :
    path = [ascii "objects", blobId.take 2, (blobId.drop 2).take 2, blobId] := by
  rw [finalPath, pathFor] at h
  split_ifs at h
  · exact (Except.ok.inj h).symm
  · cases h

theorem finalPath_injective {first second : Bytes} {path : Path} (hfirst : finalPath first = .ok path)
    (hsecond : finalPath second = .ok path) : first = second := by
  have hsame := (eq_of_finalPath hfirst).symm.trans (eq_of_finalPath hsecond)
  simp only [List.cons.injEq, and_true, true_and] at hsame
  exact hsame.2.2

theorem temporaryPath_injective {first second : Bytes}
    (h : temporaryPath first = temporaryPath second) : first = second := by
  simp only [temporaryPath, List.cons.injEq, and_true, true_and] at h
  exact List.append_cancel_right h

theorem finalPath_ne_temporaryPath {first second : Bytes} {path : Path}
    (h : finalPath first = .ok path) : path ≠ temporaryPath second := by
  rw [eq_of_finalPath h]
  intro hsame
  simpa [temporaryPath] using congrArg List.length hsame

/-- The paths that are directories when there is anything at them. -/
def IsDirectoryPath (path : Path) : Prop :=
  path.length ≤ 1 ∨ (path.head? = some (ascii "objects") ∧ path.length ≤ 3)

theorem IsDirectoryPath.ne_temporaryPath {path : Path} (h : IsDirectoryPath path) (blobId : Bytes) :
    temporaryPath blobId ≠ path := by
  rintro rfl
  rcases h with hshort | ⟨hhead, -⟩
  · simp [temporaryPath] at hshort
  · have hsame : ascii "tmp" = ascii "objects" := Option.some.inj hhead
    exact absurd hsame (by decide)

theorem IsDirectoryPath.ne_finalPath {path directory : Path} (h : IsDirectoryPath directory)
    {blobId : Bytes} (hpath : finalPath blobId = .ok path) : path ≠ directory := by
  rw [eq_of_finalPath hpath]
  rintro rfl
  rcases h with hshort | ⟨-, hshort⟩ <;>
    simp only [List.length_cons, List.length_nil] at hshort <;> omega

theorem isDirectoryPath_of_mem_directoriesOf {blobId : Bytes} {path : Path}
    (h : finalPath blobId = .ok path) : ∀ directory ∈ directoriesOf path, IsDirectoryPath directory := by
  rw [eq_of_finalPath h]
  intro directory hmem
  obtain ⟨depth, hdepth, rfl⟩ := List.mem_map.mp hmem
  have hle : depth < 3 := List.mem_range.mp hdepth
  refine .inr ⟨by rw [List.take_succ_cons, List.head?_cons], ?_⟩
  rw [List.length_take]
  omega

/-! ### A thread comes back from the system -/

/-- The writer a failure takes down. -/
def Phase.unwinding : Phase → Option BlobWriter
  | .write writer .. | .openSource writer .. | .statSource writer .. | .copy writer ..
  | .flush writer .. | .close writer .. | .makeShard writer .. | .rename writer .. => some writer
  | _ => none

def Phase.fails (phase : Phase) (error : StoreError) : Phase :=
  match phase.unwinding with
  | some writer => .unwind writer (some error)
  | none => .rests (some error)

inductive Move (config : Config) (shared : Shared) : Phase → Shared → Phase → Prop
  | stays {phase : Phase} : Move config shared phase shared phase
  | fails {phase : Phase} {error : StoreError} : Move config shared phase shared (phase.fails error)
  | create {blobId : Bytes} {disk : Disk} {inode : Nat}
      (hcreate : shared.disk.create (temporaryPath blobId) = some (disk, inode)) :
      Move config shared (.create blobId) (shared.create blobId disk) (.holds ⟨blobId, inode, []⟩ [])
  | write {writer : BlobWriter} {handed data remaining : Bytes} {source : Option BlobReader}
      {transferred : Nat} :
      Move config shared (.write writer handed data remaining source)
        (shared.onDisk (shared.disk.write writer.fd (remaining.take transferred)))
        (nextWrite writer handed data (remaining.drop transferred) source)
  | openSource {writer : BlobWriter} {handed blobId : Bytes} {path : Path} {fd : Nat}
      (hlook : shared.disk.look path = some (.file fd)) :
      Move config shared (.openSource writer handed blobId path) shared
        (.statSource writer handed blobId fd)
  | statSource {writer : BlobWriter} {handed blobId : Bytes} {fd : Nat} :
      Move config shared (.statSource writer handed blobId fd) shared
        (nextChunk writer (handed ++ (shared.disk.files fd).contents)
          (.ofFile fd (shared.disk.files fd).contents.length))
  | copy {writer : BlobWriter} {handed data : Bytes} {source later : BlobReader} {transferred : Nat}
      (hread : source.read shared.disk config.chunk transferred = some (.ok (later, data))) :
      Move config shared (.copy writer handed source) shared
        (nextWrite writer handed data data (some later))
  | flush {writer : BlobWriter} {handed : Bytes} {durability : Durability} :
      Move config shared (.flush writer handed durability)
        (shared.onDisk (shared.disk.flushFile writer.fd)) (.close writer handed durability)
  | close {writer : BlobWriter} {handed : Bytes} {durability : Durability} {path : Path}
      (hpath : finalPath writer.blobId = .ok path) :
      Move config shared (.close writer handed durability) shared
        (nextShard writer handed durability path (directoriesOf path))
  | makeShard {writer : BlobWriter} {handed : Bytes} {durability : Durability}
      {path directory : Path} {rest : List Path} {disk : Disk}
      (hmake : shared.disk.makeDirectory directory = some disk) :
      Move config shared (.makeShard writer handed durability path directory rest)
        (shared.onDisk disk) (nextShard writer handed durability path rest)
  | rename {writer : BlobWriter} {handed : Bytes} {durability : Durability} {path : Path}
      {disk : Disk} (hrename : shared.disk.rename (temporaryPath writer.blobId) path = some disk) :
      Move config shared (.rename writer handed durability path)
        (shared.publish writer handed durability disk)
        (if durability = .strict then .openShard writer handed path
          else .returned ⟨writer.blobId, writer.digest⟩)
  | openShard {writer : BlobWriter} {handed : Bytes} {path : Path} :
      Move config shared (.openShard writer handed path) shared (.flushShard writer handed path)
  | flushShard {writer : BlobWriter} {handed : Bytes} {path : Path} :
      Move config shared (.flushShard writer handed path)
        (shared.acknowledge writer.blobId (shared.disk.flushDirectory path.dropLast))
        (.returned ⟨writer.blobId, writer.digest⟩)
  | unwind {writer : BlobWriter} {error : Option StoreError} {disk : Disk}
      (hunlink : shared.disk.unlink (temporaryPath writer.blobId) = some disk) :
      Move config shared (.unwind writer error) (shared.onDisk disk) (.rests error)
  | unwound {writer : BlobWriter} {error : Option StoreError} :
      Move config shared (.unwind writer error) shared (.rests error)
  | opening {blobId : Bytes} {path : Path} {fd : Nat}
      (hlook : shared.disk.look path = some (.file fd)) :
      Move config shared (.opening blobId path) shared (.stat blobId fd)
  | stat {blobId : Bytes} {fd : Nat} :
      Move config shared (.stat blobId fd) shared
        (.reads blobId (.ofFile fd (shared.disk.files fd).contents.length) 0 [])
  | read {blobId given data : Bytes} {reader later : BlobReader} {start capacity transferred : Nat}
      (hread : reader.read shared.disk capacity transferred = some (.ok (later, data))) :
      Move config shared (.read blobId reader start given capacity) shared
        (.reads blobId later start (given ++ data))

section Inversion

variable {config : Config} {shared next : Shared} {phase after : Phase} {outcome : Outcome}

/-- What a call that is retried comes to. -/
theorem retried_eq_some {failed : Bytes → Phase} {done : Nat → Option (Shared × Phase)}
    {result : Shared × Phase} (h : retried shared phase outcome failed done = some result) :
    result = (shared, phase) ∨ (∃ reason, result = (shared, failed reason)) ∨
      ∃ transferred, done transferred = some result := by
  cases outcome with
  | done transferred => exact .inr (.inr ⟨transferred, h⟩)
  | interrupted => exact .inl (Option.some.inj h).symm
  | failed reason => exact .inr (.inl ⟨reason, (Option.some.inj h).symm⟩)

theorem once_eq_some {failed : Bytes → Phase} {done : Option (Shared × Phase)}
    {result : Shared × Phase} (h : once shared outcome failed done = some result) :
    (∃ reason, result = (shared, failed reason)) ∨ done = some result := by
  cases outcome with
  | done transferred => exact .inr h
  | interrupted => exact .inl ⟨_, (Option.some.inj h).symm⟩
  | failed reason => exact .inl ⟨reason, (Option.some.inj h).symm⟩

/-- The three ends of a call that is retried, each a move. -/
theorem move_of_retried {failed : Bytes → StoreError} {done : Nat → Option (Shared × Phase)}
    (h : retried shared phase outcome (fun reason => phase.fails (failed reason)) done =
      some (next, after))
    (hdone : ∀ transferred, done transferred = some (next, after) →
      Move config shared phase next after) : Move config shared phase next after := by
  rcases retried_eq_some h with hstays | ⟨reason, hfails⟩ | ⟨transferred, hend⟩
  · cases hstays
    exact .stays
  · cases hfails
    exact .fails
  · exact hdone transferred hend

theorem move_of_once {failed : Bytes → StoreError} {done : Option (Shared × Phase)}
    (h : once shared outcome (fun reason => phase.fails (failed reason)) done = some (next, after))
    (hdone : done = some (next, after) → Move config shared phase next after) :
    Move config shared phase next after := by
  rcases once_eq_some h with ⟨reason, hfails⟩ | hend
  · cases hfails
    exact .fails
  · exact hdone hend

theorem move_of_advanceOpen {blobId : Bytes} {path : Path} {opened : Nat → Phase}
    (h : advanceOpen shared blobId path phase outcome phase.fails opened = some (next, after))
    (hopened : ∀ fd, shared.disk.look path = some (.file fd) →
      Move config shared phase shared (opened fd)) : Move config shared phase next after := by
  refine move_of_retried h fun _ hdone => ?_
  split at hdone
  · next fd hlook =>
      cases hdone
      exact hopened fd hlook
  · cases hdone
  · cases hdone
    exact .fails

theorem move_of_advanceRead {reader : BlobReader} {capacity : Nat} {got : BlobReader → Bytes → Phase}
    (h : advanceRead shared reader capacity phase outcome phase.fails got = some (next, after))
    (hgot : ∀ transferred later data,
      reader.read shared.disk capacity transferred = some (.ok (later, data)) →
        Move config shared phase shared (got later data)) : Move config shared phase next after := by
  refine move_of_retried h fun transferred hdone => ?_
  obtain ⟨result, hread, hresult⟩ := Option.map_eq_some_iff.mp hdone
  cases result with
  | error error =>
      cases hresult
      exact .fails
  | ok pair =>
      obtain ⟨later, data⟩ := pair
      cases hresult
      exact hgot transferred later data hread

/-- A system call returns, and its thread moves. -/
theorem move_of_advance (h : advance config shared phase outcome = some (next, after)) :
    Move config shared phase next after := by
  cases phase with
  | rests _ | holds _ _ | returned _ | reads _ _ _ _ => cases h
  | create blobId =>
      refine move_of_retried h fun _ hdone => ?_
      obtain ⟨⟨disk, inode⟩, hcreate, hresult⟩ := Option.map_eq_some_iff.mp hdone
      cases hresult
      exact .create hcreate
  | write writer handed data remaining source =>
      refine move_of_retried h fun transferred hdone => ?_
      split_ifs at hdone
      cases hdone
      exact .write
  | openSource writer handed blobId path => exact move_of_advanceOpen h fun fd hlook => .openSource hlook
  | statSource writer handed blobId fd =>
      refine move_of_once h fun hdone => ?_
      cases hdone
      exact .statSource
  | copy writer handed source =>
      exact move_of_advanceRead h fun transferred later data hread => .copy hread
  | flush writer handed durability =>
      refine move_of_retried h fun _ hdone => ?_
      cases hdone
      exact .flush
  | close writer handed durability =>
      refine move_of_once h fun hdone => ?_
      cases hpath : finalPath writer.blobId with
      | error error =>
          simp only [hpath] at hdone
          cases hdone
          exact .fails
      | ok path =>
          simp only [hpath] at hdone
          cases hdone
          exact .close hpath
  | makeShard writer handed durability path directory rest =>
      refine move_of_once h fun hdone => ?_
      obtain ⟨disk, hmake, hresult⟩ := Option.map_eq_some_iff.mp hdone
      cases hresult
      exact .makeShard hmake
  | rename writer handed durability path =>
      refine move_of_once h fun hdone => ?_
      obtain ⟨disk, hrename, hresult⟩ := Option.map_eq_some_iff.mp hdone
      cases hresult
      exact .rename hrename
  | openShard writer handed path =>
      refine move_of_retried h fun _ hdone => ?_
      cases hdone
      exact .openShard
  | flushShard writer handed path =>
      refine move_of_retried h fun _ hdone => ?_
      cases hdone
      exact .flushShard
  | unwind writer error =>
      rw [advance, advanceUnwind] at h
      rcases once_eq_some h with ⟨reason, hfails⟩ | hdone
      · cases hfails
        exact .unwound
      · cases hunlink : shared.disk.unlink (temporaryPath writer.blobId) with
        | none =>
            rw [hunlink] at hdone
            cases hdone
            exact .unwound
        | some disk =>
            rw [hunlink] at hdone
            cases hdone
            exact .unwind hunlink
  | opening blobId path => exact move_of_advanceOpen h fun fd hlook => .opening hlook
  | stat blobId fd =>
      refine move_of_once h fun hdone => ?_
      cases hdone
      exact .stat
  | read blobId reader start given capacity =>
      exact move_of_advanceRead h fun transferred later data hread => .read hread

end Inversion

end MonoBucket.BlobFiles
