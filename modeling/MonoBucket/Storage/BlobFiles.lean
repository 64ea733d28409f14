/-
The payload store, system call by system call

A payload is written to a file of its own under `tmp/`, hashed as it goes, flushed,
closed and renamed into the tree; strictly durable, the directory it was renamed into is
flushed too. A writer that is dropped before the rename removes its file. Between two
system calls another thread can run, the process can be killed, or the power can go; a
system call can be interrupted, transfer less than it was asked to, or fail.

The whole of it is a step function on labels, one system call or one call of the store's
interface each. What follows the disk in the state is not the program's: which ids have
been drawn, which file was made under which, and what was handed to each payload that
was renamed into the tree.
-/

import MonoBucket.Lib.PowerLoss
import MonoBucket.Lib.Trace
import MonoBucket.Storage.Fsck

namespace MonoBucket.BlobFiles

abbrev Path := List Bytes

abbrev Disk := PowerLoss.Disk Bytes UInt8

structure Config where
  chunkBytes : Nat
  /-- `std::filesystem::path::string`, of a path under the root. -/
  string : Path → Bytes

/-- A chunk is never smaller than a page. -/
def Config.chunk (config : Config) : Nat := max config.chunkBytes 4096

/-! ### Names -/

def kHexDigits : Bytes := ascii "0123456789abcdef"

/-- Sixteen digits of a drawn number, the lowest first. -/
def hexDigits (value : UInt64) : Bytes :=
  (List.range 16).map fun i => kHexDigits.getD ((value >>> (4 * i).toUInt64) &&& 0x0F).toNat 0

def newBlobId (first second : UInt64) : Bytes := hexDigits first ++ hexDigits second

def objectsDir : Path := [ascii "objects"]

def temporaryDir : Path := [ascii "tmp"]

def temporaryPath (blobId : Bytes) : Path := [ascii "tmp", blobId ++ ascii ".part"]

/-- `BlobStore::pathFor`, from the root. -/
def finalPath (blobId : Bytes) : Except StoreError Path :=
  (pathFor blobId).map fun path => objectsDir ++ path

/-- The directories a path lies in, the outermost first. -/
def directoriesOf (path : Path) : List Path :=
  (List.range (path.length - 1)).map fun depth => path.take (depth + 1)

/-! ### Errors -/

/-- The system's text for an error follows what was being done. -/
def failErrno (code : StorageErrorCode) (what reason : Bytes) : StoreError :=
  .storage code (what ++ ascii ": " ++ reason)

/-- What a system call comes to. -/
inductive Outcome
  | done (transferred : Nat)
  | interrupted
  | failed (reason : Bytes)

/-! ### A reader -/

structure BlobReader where
  fd : Nat
  size : Nat
  offset : Nat
  stop : Nat

namespace BlobReader

def ofFile (fd size : Nat) : BlobReader := ⟨fd, size, 0, size⟩

def remaining (reader : BlobReader) : Nat :=
  if reader.stop > reader.offset then reader.stop - reader.offset else 0

def limitTo (reader : BlobReader) (offset length : Nat) : BlobReader :=
  let offset := min offset reader.size
  { reader with
    offset := offset
    stop := if length > reader.size - offset then reader.size else offset + length }

/-- One `pread`, of what is asked for and there. -/
def read (disk : Disk) (reader : BlobReader) (capacity transferred : Nat) :
    Option (Except StoreError (BlobReader × Bytes)) :=
  (disk.pread reader.fd reader.offset (min capacity reader.remaining) transferred).map fun data =>
    if data = [] then
      fail .corruption (ascii "payload ended " ++ decimal reader.remaining ++ ascii " bytes early")
    else .ok ({ reader with offset := reader.offset + data.length }, data)

end BlobReader

/-! ### A writer -/

/-- A writer with its file open. What it has hashed is what the size and the digests it
reports are of. -/
structure BlobWriter where
  blobId : Bytes
  fd : Nat
  digest : Bytes := []

/-- What `commit` reports: the id, and what the size and the digests are of. -/
structure Committed where
  blobId : Bytes
  hashed : Bytes
  deriving DecidableEq

/-- Where a thread is in its use of a writer or a reader. Beside a writer stands what has
been handed to it; beside a reader, where it was set to and what it has given since. -/
inductive Phase
  /-- Using none, with what the last call threw. -/
  | rests (error : Option StoreError)
  | create (blobId : Bytes)
  | holds (writer : BlobWriter) (handed : Bytes)
  /-- In `write`, with some of the data left to write; from a source in `appendBlob`. -/
  | write (writer : BlobWriter) (handed data remaining : Bytes) (source : Option BlobReader)
  | openSource (writer : BlobWriter) (handed blobId : Bytes) (path : Path)
  | statSource (writer : BlobWriter) (handed blobId : Bytes) (fd : Nat)
  | copy (writer : BlobWriter) (handed : Bytes) (source : BlobReader)
  | flush (writer : BlobWriter) (handed : Bytes) (durability : Durability)
  | close (writer : BlobWriter) (handed : Bytes) (durability : Durability)
  | makeShard (writer : BlobWriter) (handed : Bytes) (durability : Durability) (path : Path)
    (directory : Path) (rest : List Path)
  | rename (writer : BlobWriter) (handed : Bytes) (durability : Durability) (path : Path)
  | openShard (writer : BlobWriter) (handed : Bytes) (path : Path)
  | flushShard (writer : BlobWriter) (handed : Bytes) (path : Path)
  | returned (committed : Committed)
  /-- About to remove the file of a writer that did not get to rename it. -/
  | unwind (writer : BlobWriter) (error : Option StoreError)
  | opening (blobId : Bytes) (path : Path)
  | stat (blobId : Bytes) (fd : Nat)
  | reads (blobId : Bytes) (reader : BlobReader) (start : Nat) (given : Bytes)
  | read (blobId : Bytes) (reader : BlobReader) (start : Nat) (given : Bytes) (capacity : Nat)

/-- The loop of `appendBlob`, about to read. -/
def nextChunk (writer : BlobWriter) (handed : Bytes) (source : BlobReader) : Phase :=
  if source.remaining = 0 then .holds writer handed else .copy writer handed source

/-- The loop of `write`. What was written is hashed when all of it has been. -/
def nextWrite (writer : BlobWriter) (handed data remaining : Bytes) (source : Option BlobReader) :
    Phase :=
  if remaining = [] then
    let writer := { writer with digest := writer.digest ++ data }
    match source with
    | none => .holds writer handed
    | some source => nextChunk writer handed source
  else .write writer handed data remaining source

/-- The loop of `create_directories`. -/
def nextShard (writer : BlobWriter) (handed : Bytes) (durability : Durability) (path : Path) :
    List Path → Phase
  | [] => .rename writer handed durability path
  | directory :: rest => .makeShard writer handed durability path directory rest

/-! ### State -/

/-- A payload that was renamed into the tree: its file, what had been handed to its writer,
how durable it was to be, how often the power had gone by then, whether `commit` has
returned, and whether it has been removed. -/
structure Published where
  inode : Nat
  handed : Bytes
  durability : Durability
  cuts : Nat
  returned : Bool
  removed : Bool := false
  deriving DecidableEq

structure Shared where
  disk : Disk := .empty
  /-- The store is open to callers. -/
  serving : Bool := false
  issued : List Bytes := []
  /-- Under which id each file was made. -/
  made : List Bytes := []
  published : Bytes → Option Published := fun _ => none
  cuts : Nat := 0

namespace Shared

def onDisk (shared : Shared) (disk : Disk) : Shared := { shared with disk := disk }

def create (shared : Shared) (blobId : Bytes) (disk : Disk) : Shared :=
  { shared with disk := disk, made := shared.made ++ [blobId] }

def publish (shared : Shared) (writer : BlobWriter) (handed : Bytes) (durability : Durability)
    (disk : Disk) : Shared :=
  { shared with
    disk := disk
    published := Function.update shared.published writer.blobId
      (some ⟨writer.fd, handed, durability, shared.cuts, durability ≠ .strict, false⟩) }

def acknowledge (shared : Shared) (blobId : Bytes) (disk : Disk) : Shared :=
  { shared with
    disk := disk
    published := Function.update shared.published blobId
      ((shared.published blobId).map fun payload => { payload with returned := true }) }

def remove (shared : Shared) (blobId : Bytes) (disk : Disk) : Shared :=
  { shared with
    disk := disk
    published := Function.update shared.published blobId
      ((shared.published blobId).map fun payload => { payload with removed := true }) }

section Updates

variable (shared : Shared) (disk : Disk) {blobId other : Bytes}

theorem published_publish_self (writer : BlobWriter) (handed : Bytes) (durability : Durability) :
    (shared.publish writer handed durability disk).published writer.blobId =
      some ⟨writer.fd, handed, durability, shared.cuts, durability ≠ .strict, false⟩ :=
  Function.update_self ..

theorem published_publish_of_ne {writer : BlobWriter} (handed : Bytes) (durability : Durability)
    (hne : other ≠ writer.blobId) :
    (shared.publish writer handed durability disk).published other = shared.published other :=
  Function.update_of_ne hne ..

theorem published_acknowledge_self :
    (shared.acknowledge blobId disk).published blobId =
      (shared.published blobId).map fun payload => { payload with returned := true } :=
  Function.update_self ..

theorem published_acknowledge_of_ne (hne : other ≠ blobId) :
    (shared.acknowledge blobId disk).published other = shared.published other :=
  Function.update_of_ne hne ..

theorem published_remove_self :
    (shared.remove blobId disk).published blobId =
      (shared.published blobId).map fun payload => { payload with removed := true } :=
  Function.update_self ..

theorem published_remove_of_ne (hne : other ≠ blobId) :
    (shared.remove blobId disk).published other = shared.published other :=
  Function.update_of_ne hne ..

end Updates

end Shared

/-! ### System calls -/

/-- A call that is made again when it is interrupted. -/
def retried (shared : Shared) (phase : Phase) (outcome : Outcome) (failed : Bytes → Phase)
    (done : Nat → Option (Shared × Phase)) : Option (Shared × Phase) :=
  match outcome with
  | .done transferred => done transferred
  | .interrupted => some (shared, phase)
  | .failed reason => some (shared, failed reason)

/-- A call for which an interruption is an error like any other. -/
def once (shared : Shared) (outcome : Outcome) (failed : Bytes → Phase)
    (done : Option (Shared × Phase)) : Option (Shared × Phase) :=
  match outcome with
  | .done _ => done
  | .interrupted => some (shared, failed (ascii "Interrupted system call"))
  | .failed reason => some (shared, failed reason)

section Advance

variable (config : Config) (shared : Shared)

def advanceCreate (blobId : Bytes) (outcome : Outcome) : Option (Shared × Phase) :=
  let path := temporaryPath blobId
  let what := ascii "cannot open a temporary payload at \x27" ++ config.string path ++ ascii "\x27"
  retried shared (.create blobId) outcome (fun reason => .rests (some (failErrno .io what reason)))
    fun _ => (shared.disk.create path).map fun opened =>
      (shared.create blobId opened.1, .holds ⟨blobId, opened.2, []⟩ [])

def advanceWrite (writer : BlobWriter) (handed data remaining : Bytes)
    (source : Option BlobReader) (outcome : Outcome) : Option (Shared × Phase) :=
  let what := ascii "cannot write payload " ++ writer.blobId
  retried shared (.write writer handed data remaining source) outcome
    (fun reason => .unwind writer (some (failErrno .io what reason)))
    fun transferred =>
      if transferred ≤ remaining.length then
        some (shared.onDisk (shared.disk.write writer.fd (remaining.take transferred)),
          nextWrite writer handed data (remaining.drop transferred) source)
      else none

/-- `open`, for reading, and what follows when the file is there or is not. -/
def advanceOpen (blobId : Bytes) (path : Path) (phase : Phase) (outcome : Outcome)
    (threw : StoreError → Phase) (opened : Nat → Phase) : Option (Shared × Phase) :=
  retried shared phase outcome
    (fun reason => threw (failErrno .io (ascii "cannot open payload " ++ blobId) reason))
    fun _ =>
      match shared.disk.look path with
      | some (.file inode) => some (shared, opened inode)
      | some .directory => none
      | none =>
        some (shared, threw (.storage .noSuchKey
          (ascii "payload " ++ blobId ++ ascii " is missing from the store")))

def advanceStat (blobId : Bytes) (fd : Nat) (outcome : Outcome) (threw : StoreError → Phase)
    (found : Bytes → Phase) : Option (Shared × Phase) :=
  once shared outcome
    (fun reason => threw (failErrno .io (ascii "cannot stat payload " ++ blobId) reason))
    (some (shared, found (shared.disk.files fd).contents))

def advanceRead (reader : BlobReader) (capacity : Nat) (phase : Phase) (outcome : Outcome)
    (threw : StoreError → Phase) (got : BlobReader → Bytes → Phase) : Option (Shared × Phase) :=
  retried shared phase outcome
    (fun reason => threw (failErrno .io (ascii "cannot read payload") reason))
    fun transferred => (reader.read shared.disk capacity transferred).map fun result =>
      match result with
      | .error error => (shared, threw error)
      | .ok (reader, data) => (shared, got reader data)

def advanceClose (writer : BlobWriter) (handed : Bytes) (durability : Durability)
    (outcome : Outcome) : Option (Shared × Phase) :=
  let what := ascii "cannot close payload " ++ writer.blobId
  once shared outcome (fun reason => .unwind writer (some (failErrno .io what reason)))
    (some (shared,
      match finalPath writer.blobId with
      | .error error => .unwind writer (some error)
      | .ok path => nextShard writer handed durability path (directoriesOf path)))

def advanceShard (writer : BlobWriter) (handed : Bytes) (durability : Durability)
    (path directory : Path) (rest : List Path) (outcome : Outcome) : Option (Shared × Phase) :=
  let what := ascii "cannot create \x27" ++ config.string path.dropLast ++ ascii "\x27"
  once shared outcome (fun reason => .unwind writer (some (failErrno .io what reason)))
    ((shared.disk.makeDirectory directory).map fun disk =>
      (shared.onDisk disk, nextShard writer handed durability path rest))

def advanceRename (writer : BlobWriter) (handed : Bytes) (durability : Durability) (path : Path)
    (outcome : Outcome) : Option (Shared × Phase) :=
  let what := ascii "cannot publish payload " ++ writer.blobId ++ ascii " to \x27" ++
    config.string path ++ ascii "\x27"
  once shared outcome (fun reason => .unwind writer (some (failErrno .io what reason)))
    ((shared.disk.rename (temporaryPath writer.blobId) path).map fun disk =>
      (shared.publish writer handed durability disk,
        if durability = .strict then .openShard writer handed path
        else .returned ⟨writer.blobId, writer.digest⟩))

/-- `fsyncDirectory`. The payload is in the tree by now, whatever comes of it. -/
def advanceShardFlush (writer : BlobWriter) (handed : Bytes) (path : Path) (outcome : Outcome) :
    Option (Shared × Phase) :=
  let what := ascii "cannot flush directory \x27" ++ config.string path.dropLast ++ ascii "\x27"
  retried shared (.flushShard writer handed path) outcome
    (fun reason => .rests (some (failErrno .io what reason)))
    fun _ => some (shared.acknowledge writer.blobId (shared.disk.flushDirectory path.dropLast),
      .returned ⟨writer.blobId, writer.digest⟩)

/-- `abort`, in the destructor: the file goes, and an error there goes unnoticed. -/
def advanceUnwind (writer : BlobWriter) (error : Option StoreError) (outcome : Outcome) :
    Option (Shared × Phase) :=
  once shared outcome (fun _ => .rests error)
    (some (shared.onDisk ((shared.disk.unlink (temporaryPath writer.blobId)).getD shared.disk),
      .rests error))

/-- The system call a thread is at returns. -/
def advance (phase : Phase) (outcome : Outcome) : Option (Shared × Phase) :=
  match phase with
  | .rests _ | .holds .. | .returned _ | .reads .. => none
  | .create blobId => advanceCreate config shared blobId outcome
  | .write writer handed data remaining source =>
    advanceWrite shared writer handed data remaining source outcome
  | .openSource writer handed blobId path =>
    advanceOpen shared blobId path phase outcome (fun error => .unwind writer (some error))
      fun fd => .statSource writer handed blobId fd
  | .statSource writer handed blobId fd =>
    advanceStat shared blobId fd outcome (fun error => .unwind writer (some error))
      fun contents => nextChunk writer (handed ++ contents) (.ofFile fd contents.length)
  | .copy writer handed source =>
    advanceRead shared source config.chunk phase outcome (fun error => .unwind writer (some error))
      fun source data => nextWrite writer handed data data (some source)
  | .flush writer handed durability =>
    let what := ascii "cannot flush payload " ++ writer.blobId
    retried shared phase outcome (fun reason => .unwind writer (some (failErrno .io what reason)))
      fun _ => some (shared.onDisk (shared.disk.flushFile writer.fd), .close writer handed durability)
  | .close writer handed durability => advanceClose shared writer handed durability outcome
  | .makeShard writer handed durability path directory rest =>
    advanceShard config shared writer handed durability path directory rest outcome
  | .rename writer handed durability path =>
    advanceRename config shared writer handed durability path outcome
  | .openShard writer handed path =>
    let what := ascii "cannot open directory \x27" ++ config.string path.dropLast ++ ascii "\x27"
    retried shared phase outcome (fun reason => .rests (some (failErrno .io what reason)))
      fun _ => some (shared, .flushShard writer handed path)
  | .flushShard writer handed path => advanceShardFlush config shared writer handed path outcome
  | .unwind writer error => advanceUnwind shared writer error outcome
  | .opening blobId path =>
    advanceOpen shared blobId path phase outcome (fun error => .rests (some error))
      fun fd => .stat blobId fd
  | .stat blobId fd =>
    advanceStat shared blobId fd outcome (fun error => .rests (some error))
      fun contents => .reads blobId (.ofFile fd contents.length) 0 []
  | .read blobId reader start given capacity =>
    advanceRead shared reader capacity phase outcome (fun error => .rests (some error))
      fun reader data => .reads blobId reader start (given ++ data)

end Advance

/-! ### Calls of the interface -/

/-- The calls a thread makes. The two numbers `create` draws its id from come from the
system's random source. -/
inductive Call
  | create (first second : UInt64)
  | write (data : Bytes)
  | append (blobId : Bytes)
  | commit (durability : Durability)
  /-- The writer or the reader is destroyed. -/
  | destroy
  | openReader (blobId : Bytes)
  | limitTo (offset length : Nat)
  | read (capacity : Nat)

def begin (shared : Shared) : Phase → Call → Option (Shared × Phase)
  | .rests _, .create first second =>
    let blobId := newBlobId first second
    some ({ shared with issued := blobId :: shared.issued }, .create blobId)
  | .rests _, .openReader blobId =>
    match finalPath blobId with
    | .error error => some (shared, .rests (some error))
    | .ok path => some (shared, .opening blobId path)
  | .holds writer handed, .write data =>
    some (shared, nextWrite writer (handed ++ data) data data none)
  | .holds writer handed, .append blobId =>
    match finalPath blobId with
    | .error error => some (shared, .unwind writer (some error))
    | .ok path => some (shared, .openSource writer handed blobId path)
  | .holds writer handed, .commit durability =>
    some (shared,
      if durability = .none then .close writer handed durability
      else .flush writer handed durability)
  | .holds writer _, .destroy => some (shared, .unwind writer none)
  | .returned _, .destroy => some (shared, .rests none)
  | .reads blobId reader _ _, .limitTo offset length =>
    let reader := reader.limitTo offset length
    some (shared, .reads blobId reader reader.offset [])
  | .reads blobId reader start given, .read capacity =>
    some (shared,
      if reader.remaining = 0 ∨ capacity = 0 then .reads blobId reader start given
      else .read blobId reader start given capacity)
  | .reads .., .destroy => some (shared, .rests none)
  | _, _ => none

/-! ### The system -/

abbrev State (ι : Type) := Pool ι Shared Phase

inductive Label (ι : Type)
  | call (who : ι) (call : Call)
  | system (who : ι) (outcome : Outcome)
  /-- `BlobStore::remove`, by whoever reclaims a payload. -/
  | remove (blobId : Bytes) (outcome : Outcome)
  /-- The process is killed. -/
  | kill
  /-- The power goes: each name keeps the entry it had so many changes ago, and a file that
  was not flushed holds what it may. -/
  | cut (age : Path → Nat) (torn : Nat → Bytes)
  /-- `BlobStore::BlobStore`, of a process that starts. -/
  | layOut
  /-- `sweepTemporaries` comes to an entry. -/
  | sweep (name : Bytes) (outcome : Outcome)
  | serve

def removed (shared : Shared) (blobId : Bytes) : Outcome → Shared
  | .done _ =>
    match finalPath blobId with
    | .error _ => shared
    | .ok path =>
      match shared.disk.unlink path with
      | none => shared
      | some disk => shared.remove blobId disk
  | .interrupted | .failed _ => shared

def swept (shared : Shared) (name : Bytes) : Outcome → Shared
  | .done _ =>
    shared.onDisk ((shared.disk.unlink (temporaryDir ++ [name])).getD shared.disk)
  | .interrupted | .failed _ => shared

/-- A process that has started, and serves nobody yet. -/
def restarted {ι : Type} (shared : Shared) : State ι :=
  ⟨{ shared with serving := false }, fun _ => .rests none⟩

def step {ι : Type} [DecidableEq ι] (config : Config) (state : State ι) : Label ι → Option (State ι)
  | .call who call =>
    if state.shared.serving then
      (begin state.shared (state.calls who) call).map fun result =>
        state.move who result.1 result.2
    else none
  | .system who outcome =>
    (advance config state.shared (state.calls who) outcome).map fun result =>
      state.move who result.1 result.2
  | .remove blobId outcome =>
    if state.shared.serving then some { state with shared := removed state.shared blobId outcome }
    else none
  | .kill => some (restarted state.shared)
  | .cut age torn =>
    some (restarted
      { state.shared with disk := state.shared.disk.cut age torn, cuts := state.shared.cuts + 1 })
  | .layOut =>
    if state.shared.serving then none
    else
      ((state.shared.disk.makeDirectory objectsDir).bind fun disk =>
        disk.makeDirectory temporaryDir).map fun disk =>
          { state with shared := state.shared.onDisk disk }
  | .sweep name outcome =>
    if state.shared.serving then none
    else some { state with shared := swept state.shared name outcome }
  | .serve => some { state with shared := { state.shared with serving := true } }

/-- No id is drawn twice. -/
def Fresh {ι : Type} (state : State ι) : Label ι → Prop
  | .call _ (.create first second) => newBlobId first second ∉ state.shared.issued
  | _ => True

instance decidableFresh {ι : Type} (state : State ι) : ∀ label, Decidable (Fresh state label)
  | .call _ (.create first second) =>
    inferInstanceAs (Decidable (newBlobId first second ∉ state.shared.issued))
  | .call _ (.write _) | .call _ (.append _) | .call _ (.commit _) | .call _ .destroy
  | .call _ (.openReader _) | .call _ (.limitTo ..) | .call _ (.read _) | .system .. | .remove .. | .kill
  | .cut .. | .layOut | .sweep .. | .serve => isTrue trivial

/-- A store that was never used. -/
def start {ι : Type} : State ι := ⟨{}, fun _ => .rests none⟩

end MonoBucket.BlobFiles
