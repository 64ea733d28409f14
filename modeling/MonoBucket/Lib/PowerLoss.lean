/-
A file system that can lose power

A path names a file or a directory, and two paths can name one file. What a file holds
is on the disk once the file has been flushed; what a name in a directory stands for is
on the disk once that directory has been flushed. A power cut leaves a file that was not
flushed holding anything, and each name standing for what it stood for at some moment
since its directory was last flushed, its own choice at each name. A name in a directory
that is lost is lost with it.

Two rules carry the results. What a name may stand for after a power cut is among what
it has stood for (`survivors`), which every operation but the one that puts a name leaves
alone; and a name just flushed survives any cut that keeps the directories above it.
-/

import Mathlib.Tactic

universe u v

namespace PowerLoss

inductive Entry
  | directory
  | file (inode : Nat)
  deriving DecidableEq

/-- What a name stands for, and what it has stood for since its directory was last
flushed, the latest first. -/
structure Link where
  current : Option Entry := none
  older : List (Option Entry) := []
  deriving DecidableEq

namespace Link

def survivors (link : Link) : List (Option Entry) := link.current :: link.older

def put (link : Link) (entry : Option Entry) : Link := ⟨entry, link.survivors⟩

def flush (link : Link) : Link := ⟨link.current, []⟩

def survivor (link : Link) (age : Nat) : Option Entry := link.survivors.getD age link.current

theorem current_mem_survivors (link : Link) : link.current ∈ link.survivors := List.mem_cons_self

theorem survivor_mem_survivors (link : Link) (age : Nat) :
    link.survivor age ∈ link.survivors := by
  rw [survivor, List.getD_eq_getElem?_getD]
  cases h : link.survivors[age]? with
  | none => exact link.current_mem_survivors
  | some entry => exact List.mem_of_getElem? h

theorem mem_survivors_put {link : Link} {entry other : Option Entry} :
    other ∈ (link.put entry).survivors ↔ other = entry ∨ other ∈ link.survivors := List.mem_cons

theorem mem_survivors_of_flush {link : Link} {entry : Option Entry}
    (h : entry ∈ link.flush.survivors) : entry ∈ link.survivors := by
  rw [List.mem_singleton.mp h]
  exact link.current_mem_survivors

end Link

structure File (β : Type v) where
  contents : List β := []
  flushed : Bool := false

variable {α : Type u} {β : Type v}

def IsDirectory (links : List α → Link) (path : List α) : Prop :=
  path = [] ∨ (links path).current = some .directory

instance decidableIsDirectory [DecidableEq α] (links : List α → Link) (path : List α) :
    Decidable (IsDirectory links path) :=
  inferInstanceAs (Decidable (path = [] ∨ (links path).current = some .directory))

/-- Every name lies in a directory. -/
def Placed (links : List α → Link) : Prop :=
  ∀ path, (links path).current ≠ none → IsDirectory links path.dropLast

structure Disk (α : Type u) (β : Type v) where
  files : Nat → File β
  links : List α → Link
  /-- The number the next file gets. -/
  next : Nat
  placed : Placed links

theorem placed_nothing : Placed fun _ : List α => ({} : Link) := fun _ h => absurd rfl h

namespace Disk

def empty : Disk α β := ⟨fun _ => {}, fun _ => {}, 0, placed_nothing⟩

variable (disk : Disk α β)

/-- What a path names. -/
def look (path : List α) : Option Entry := (disk.links path).current

/-- The contents of the file a path names. -/
def read? (path : List α) : Option (List β) :=
  match disk.look path with
  | some (.file inode) => some (disk.files inode).contents
  | some .directory | none => none

section Names

variable [DecidableEq α]

/-- A name can be put into a directory, and a directory stays one. -/
def CanPut (path : List α) (entry : Option Entry) : Prop :=
  IsDirectory disk.links path.dropLast ∧ (disk.look path = some .directory → entry = some .directory)

instance decidableCanPut (path : List α) (entry : Option Entry) :
    Decidable (disk.CanPut path entry) :=
  inferInstanceAs (Decidable (_ ∧ (_ → _)))

def putLink (path : List α) (entry : Option Entry) : List α → Link :=
  Function.update disk.links path ((disk.links path).put entry)

variable {disk} in
theorem placed_put {path : List α} {entry : Option Entry} (h : disk.CanPut path entry) :
    Placed (disk.putLink path entry) := by
  have hdirectory : ∀ {dir : List α}, IsDirectory disk.links dir →
      IsDirectory (disk.putLink path entry) dir := by
    rintro dir (rfl | hdir)
    · exact .inl rfl
    · by_cases hsame : dir = path
      · subst hsame
        exact .inr (by rw [putLink, Function.update_self, Link.put, h.2 hdir])
      · exact .inr (by rw [putLink, Function.update_of_ne hsame, hdir])
  intro other hother
  by_cases hsame : other = path
  · subst hsame
    exact hdirectory h.1
  · rw [putLink, Function.update_of_ne hsame] at hother
    exact hdirectory (disk.placed other hother)

/-- Let a path name something else, or nothing. -/
def put? (path : List α) (entry : Option Entry) : Option (Disk α β) :=
  if h : disk.CanPut path entry then
    some { disk with links := disk.putLink path entry, placed := placed_put h }
  else none

/-- `open` with `O_CREAT | O_EXCL`. -/
def create (path : List α) : Option (Disk α β × Nat) :=
  match disk.look path with
  | some _ => none
  | none =>
    (disk.put? path (some (.file disk.next))).map fun opened =>
      ({ opened with files := Function.update disk.files disk.next {}, next := disk.next + 1 },
        disk.next)

/-- `mkdir`, of a directory that may be there. -/
def makeDirectory (path : List α) : Option (Disk α β) :=
  match disk.look path with
  | some .directory => some disk
  | some (.file _) => none
  | none => disk.put? path (some .directory)

/-- `rename` of a file, over what the new name stood for. -/
def rename (source target : List α) : Option (Disk α β) :=
  match disk.look source with
  | some (.file inode) =>
    (disk.put? target (some (.file inode))).bind fun linked => linked.put? source none
  | some .directory | none => none

def unlink (path : List α) : Option (Disk α β) :=
  match disk.look path with
  | some (.file _) => disk.put? path none
  | some .directory | none => none

end Names

/-! ### What files hold -/

def write (inode : Nat) (data : List β) : Disk α β :=
  { disk with
    files := Function.update disk.files inode ⟨(disk.files inode).contents ++ data, false⟩ }

/-- `pread` of at most `wanted` items: it may transfer fewer, and none only at the end. -/
def pread (inode offset wanted transferred : Nat) : Option (List β) :=
  let rest := (disk.files inode).contents.drop offset
  if transferred ≤ wanted ∧ transferred ≤ rest.length ∧ (transferred = 0 → rest = []) then
    some (rest.take transferred)
  else none

/-- `fsync` of a file. -/
def flushFile (inode : Nat) : Disk α β :=
  { disk with
    files := Function.update disk.files inode ⟨(disk.files inode).contents, true⟩ }

def flushLinks [DecidableEq α] (directory path : List α) : Link :=
  if path.dropLast = directory then (disk.links path).flush else disk.links path

theorem current_flushLinks [DecidableEq α] (directory path : List α) :
    (disk.flushLinks directory path).current = disk.look path := by
  rw [flushLinks]
  split_ifs <;> rfl

theorem placed_flushLinks [DecidableEq α] (directory : List α) :
    Placed (disk.flushLinks directory) := by
  intro path hpath
  rw [current_flushLinks] at hpath
  exact (disk.placed path hpath).imp_right fun hdir => by rw [current_flushLinks]; exact hdir

/-- `fsync` of a directory. -/
def flushDirectory [DecidableEq α] (directory : List α) : Disk α β :=
  { disk with
    links := disk.flushLinks directory
    placed := disk.placed_flushLinks directory }

/-! ### A power cut -/

section PowerCut

/-- The entry a cut leaves under a name: the one it had so many changes ago. -/
def chosen (age : List α → Nat) (path : List α) : Option Entry :=
  (disk.links path).survivor (age path)

/-- Every directory above a name is still there. -/
def Reached (age : List α → Nat) (path : List α) : Prop :=
  ∀ depth < path.length, 0 < depth → disk.chosen age (path.take depth) = some .directory

instance decidableReached (age : List α → Nat) (path : List α) :
    Decidable (disk.Reached age path) :=
  inferInstanceAs (Decidable (∀ depth < path.length, 0 < depth → _ = _))

def cutLinks (age : List α → Nat) (path : List α) : Link where
  current := if disk.Reached age path then disk.chosen age path else none

theorem placed_cutLinks (age : List α → Nat) : Placed (disk.cutLinks age) := by
  intro path hpath
  have hreached : disk.Reached age path := by
    by_contra hlost
    exact hpath (if_neg hlost)
  by_cases hshort : path.length ≤ 1
  · left
    rw [← List.length_eq_zero_iff, List.length_dropLast]
    omega
  right
  have habove : disk.Reached age path.dropLast := by
    intro depth hdepth hpos
    rw [List.length_dropLast] at hdepth
    rw [List.dropLast_eq_take, List.take_take, min_eq_left (by omega)]
    exact hreached depth (by omega) hpos
  rw [cutLinks, if_pos habove, List.dropLast_eq_take]
  exact hreached _ (by omega) (by omega)

/-- The power goes: each name keeps one of the entries it can, and a file that was not
flushed holds anything. -/
def cut (age : List α → Nat) (torn : Nat → List β) : Disk α β where
  files inode :=
    ⟨if (disk.files inode).flushed then (disk.files inode).contents else torn inode, true⟩
  links := disk.cutLinks age
  next := disk.next
  placed := disk.placed_cutLinks age

/-- Every directory there is survives the cut. -/
def KeepsDirectories (age : List α → Nat) : Prop :=
  ∀ path, disk.look path = some .directory → disk.chosen age path = some .directory

end PowerCut

/-! ### What an operation does -/

section Effects

variable {disk} {next : Disk α β} {path : List α} {entry : Option Entry}

/-- Nothing happened to what the files hold. -/
structure SameFiles (disk next : Disk α β) : Prop where
  files : next.files = disk.files
  next : next.next = disk.next

variable [DecidableEq α]

theorem put?_eq_some (h : disk.put? path entry = some next) :
    disk.CanPut path entry ∧ SameFiles disk next ∧ next.links = disk.putLink path entry := by
  rw [put?] at h
  split_ifs at h with hcan
  cases h
  exact ⟨hcan, ⟨rfl, rfl⟩, rfl⟩

theorem create_eq_some {inode : Nat} (h : disk.create path = some (next, inode)) :
    disk.look path = none ∧ inode = disk.next ∧ next.next = disk.next + 1 ∧
      next.files = Function.update disk.files disk.next {} ∧
      next.links = disk.putLink path (some (.file disk.next)) := by
  rw [create] at h
  cases hlook : disk.look path with
  | some _ => simp [hlook] at h
  | none =>
      simp only [hlook, Option.map_eq_some_iff, Prod.mk.injEq] at h
      obtain ⟨opened, hput, rfl, rfl⟩ := h
      exact ⟨rfl, rfl, rfl, rfl, (put?_eq_some hput).2.2⟩

theorem makeDirectory_eq_some (h : disk.makeDirectory path = some next) :
    next.look path = some .directory ∧ SameFiles disk next ∧
      (next.links = disk.links ∨ next.links = disk.putLink path (some .directory)) := by
  rw [makeDirectory] at h
  split at h
  · next hlook =>
      cases h
      exact ⟨hlook, ⟨rfl, rfl⟩, .inl rfl⟩
  · cases h
  · obtain ⟨-, hsame, hlinks⟩ := put?_eq_some h
    refine ⟨?_, hsame, .inr hlinks⟩
    rw [look, hlinks, putLink, Function.update_self]
    rfl

theorem rename_eq_some {source target : List α} (hne : source ≠ target)
    (h : disk.rename source target = some next) :
    ∃ inode, disk.look source = some (.file inode) ∧ SameFiles disk next ∧
      next.links = Function.update (disk.putLink target (some (.file inode))) source
        ((disk.links source).put none) := by
  rw [rename] at h
  cases hlook : disk.look source with
  | none => simp [hlook] at h
  | some found =>
      cases found with
      | directory => simp [hlook] at h
      | file inode =>
          simp only [hlook, Option.bind_eq_some_iff] at h
          obtain ⟨linked, hlinked, hput⟩ := h
          obtain ⟨-, hfiles, hlinks⟩ := put?_eq_some hlinked
          obtain ⟨-, hfilesPut, hlinksPut⟩ := put?_eq_some hput
          refine ⟨inode, rfl, ⟨hfilesPut.files.trans hfiles.files, hfilesPut.next.trans hfiles.next⟩, ?_⟩
          rw [hlinksPut, putLink, hlinks, putLink, Function.update_of_ne hne]

theorem unlink_eq_some (h : disk.unlink path = some next) :
    SameFiles disk next ∧ next.links = disk.putLink path none := by
  rw [unlink] at h
  split at h
  · exact (put?_eq_some h).2
  all_goals cases h

/-! What a name can stand for after a cut. -/

theorem mem_survivors_putLink {other : List α} {found : Option Entry}
    (h : found ∈ (disk.putLink path entry other).survivors) :
    (other = path ∧ found = entry) ∨ found ∈ (disk.links other).survivors := by
  by_cases hother : other = path
  · subst hother
    rw [putLink, Function.update_self] at h
    exact (Link.mem_survivors_put.mp h).imp_left fun hfound => ⟨rfl, hfound⟩
  · rw [putLink, Function.update_of_ne hother] at h
    exact .inr h

theorem mem_survivors_flushLinks {directory other : List α} {found : Option Entry}
    (h : found ∈ (disk.flushLinks directory other).survivors) :
    found ∈ (disk.links other).survivors := by
  rw [flushLinks] at h
  split_ifs at h
  · exact Link.mem_survivors_of_flush h
  · exact h

omit [DecidableEq α] in
theorem mem_survivors_cutLinks {age : List α → Nat} {other : List α} {found : Option Entry}
    (h : found ∈ (disk.cutLinks age other).survivors) :
    found = none ∨ found ∈ (disk.links other).survivors := by
  rw [List.mem_singleton.mp h, cutLinks]
  split_ifs
  · exact .inr (Link.survivor_mem_survivors _ _)
  · exact .inl rfl

end Effects

/-! ### What lasts -/

section Lasting

variable {disk}

/-- The name stands for the entry, and has since its directory was last flushed. -/
def Lasts (disk : Disk α β) (path : List α) (entry : Entry) : Prop :=
  disk.links path = ⟨some entry, []⟩

theorem lasts_flushDirectory [DecidableEq α] {path directory : List α} {entry : Entry}
    (hlook : disk.look path = some entry) (hdirectory : path.dropLast = directory) :
    (disk.flushDirectory directory).Lasts path entry := by
  show disk.flushLinks directory path = _
  rw [flushLinks, if_pos hdirectory, Link.flush]
  exact congrArg (Link.mk · []) hlook

theorem Lasts.flushDirectory [DecidableEq α] {path : List α} {entry : Entry}
    (h : disk.Lasts path entry) (directory : List α) :
    (disk.flushDirectory directory).Lasts path entry := by
  show disk.flushLinks directory path = _
  rw [flushLinks, h]
  split_ifs <;> rfl

/-- A cut that takes nothing back keeps the directories. -/
theorem keepsDirectories_current (disk : Disk α β) : disk.KeepsDirectories fun _ => 0 :=
  fun _ hlook => hlook

/-- Every directory above a name that is there is there too. -/
theorem look_take {path : List α} (h : disk.look path ≠ none) {depth : Nat} (hpos : 0 < depth)
    (hdepth : depth < path.length) : disk.look (path.take depth) = some .directory := by
  induction path using List.reverseRecOn with
  | nil => cases hdepth
  | append_singleton above last ih =>
      have hdirectory := disk.placed _ h
      rw [List.dropLast_concat] at hdirectory
      rw [List.length_append, List.length_singleton] at hdepth
      rw [List.take_append_of_le_length (by omega)]
      rcases hdirectory with rfl | hdirectory
      · simp at hdepth
        omega
      by_cases hlast : depth = above.length
      · rw [hlast, List.take_length]
        exact hdirectory
      · exact ih (by rw [look, hdirectory]; exact Option.some_ne_none _) (by omega)

/-- A cut that keeps the directories keeps what lasts. -/
theorem Lasts.cut {path : List α} {entry : Entry} (h : disk.Lasts path entry)
    {age : List α → Nat} (hkeeps : disk.KeepsDirectories age) (torn : Nat → List β) :
    (disk.cut age torn).Lasts path entry := by
  have hlook : disk.look path = some entry := congrArg Link.current h
  have hreached : disk.Reached age path := fun depth hdepth hpos =>
    hkeeps _ (look_take (by rw [hlook]; exact Option.some_ne_none _) hpos hdepth)
  have hchosen : disk.chosen age path = some entry := by
    have hmem := Link.survivor_mem_survivors (disk.links path) (age path)
    rw [h] at hmem
    rw [chosen, h]
    exact List.mem_singleton.mp hmem
  show disk.cutLinks age path = _
  rw [cutLinks, if_pos hreached, hchosen]

end Lasting

end Disk

end PowerLoss
