/-
A shard as it is linked

A shard of the cache is a hash map from keys to nodes, a doubly linked list through the
same nodes and a byte counter, and every operation changes all three. Nodes are addresses
here, `cells` is what is stored at each, and a new node gets an address no node has had.
The hash map is the list of its entries in the order an iterator meets them.

`Sound` is what holds between the three. It says which addresses the list consists of, so
that a sound shard is a `Shard` read off its links, and each operation is what the
operation of that name does to it.
-/

import MonoBucket.Lib.LinkedList
import MonoBucket.Cache.Accounting

namespace MonoBucket

structure LinkedShard where
  map : List (Bytes × Nat) := []
  cells : Nat → CacheNode := fun _ => ⟨[], [], 0, 0, false⟩
  links : Links Nat := Links.empty
  /-- Where the next node is allocated. -/
  fresh : Nat := 0
  bytes : UInt64 := 0
  budget : UInt64 := 0

namespace LinkedShard

section Operations

variable (shard : LinkedShard)

/-- `map.find`. -/
def find? (key : Bytes) : Option Nat :=
  (shard.map.find? fun entry => entry.1 = key).map Prod.snd

def removeLocked (node : Nat) : LinkedShard :=
  { shard with
    bytes := shard.bytes - (shard.cells node).bytes
    links := shard.links.unlink node
    map := shard.map.filter fun entry => entry.1 ≠ (shard.cells node).key }

/-- A node unlinked and pushed to the front, with what it holds replaced. -/
def moveToFront (node : Nat) (cell : CacheNode) : LinkedShard :=
  { shard with
    cells := Function.update shard.cells node cell
    links := (shard.links.unlink node).pushFront node }

/-- The loop of `evictOneLocked`, with so many reprieves left: whether it evicted. -/
def evictLoop : Nat → LinkedShard → LinkedShard × Bool
  | 0, shard =>
    match shard.links.tail with
    | none => (shard, false)
    | some victim => (shard.removeLocked victim, true)
  | reprieves + 1, shard =>
    match shard.links.tail with
    | none => (shard, false)
    | some victim =>
      if (shard.cells victim).accessed then
        evictLoop reprieves (shard.moveToFront victim { shard.cells victim with accessed := false })
      else (shard.removeLocked victim, true)

def evictOneLocked : LinkedShard × Bool := evictLoop shard.map.length shard

/-- `while (shard.bytes > limit && evictOneLocked(shard))`; nothing when so many rounds
are too few. -/
def evictDownTo (limit : UInt64) : Nat → LinkedShard → Option LinkedShard
  | 0, _ => none
  | rounds + 1, shard =>
    if limit < shard.bytes then
      match shard.evictOneLocked with
      | (next, true) => evictDownTo limit rounds next
      | (next, false) => some next
    else some shard

def shrink (limit : UInt64) : Option LinkedShard := evictDownTo limit (shard.map.length + 1) shard

/-- `purgeExpiredLocked` at one entry of the map. -/
def purgeEntry (ticks : Int64) (shard : LinkedShard) (entry : Bytes × Nat) : LinkedShard :=
  if ticks < (shard.cells entry.2).expiresAt then shard
  else
    { shard with
      bytes := shard.bytes - (shard.cells entry.2).bytes
      links := shard.links.unlink entry.2
      map := shard.map.filter fun other => other.1 ≠ entry.1 }

def purgeExpiredLocked (ticks : Int64) : LinkedShard :=
  shard.map.foldl (purgeEntry ticks) shard

def get (ticks : Int64) (key : Bytes) : LinkedShard × Option Bytes :=
  match shard.find? key with
  | none => (shard, none)
  | some node =>
    let cell := shard.cells node
    if ticks < cell.expiresAt then
      ({ shard with cells := Function.update shard.cells node { cell with accessed := true } },
        some cell.value)
    else (shard.removeLocked node, none)

def del (key : Bytes) : LinkedShard :=
  match shard.find? key with
  | none => shard
  | some node => shard.removeLocked node

/-- The entry in its new place, before anything is evicted for it. -/
def place (cell : CacheNode) : LinkedShard :=
  match shard.find? cell.key with
  | some node =>
    { shard.moveToFront node cell with
      bytes := shard.bytes - (shard.cells node).bytes + cell.bytes }
  | none =>
    { shard with
      map := (cell.key, shard.fresh) :: shard.map
      cells := Function.update shard.cells shard.fresh cell
      links := shard.links.pushFront shard.fresh
      fresh := shard.fresh + 1
      bytes := shard.bytes + cell.bytes }

def set (cell : CacheNode) : Option LinkedShard :=
  if shard.budget < cell.bytes then some (shard.del cell.key)
  else (shard.place cell).shrink shard.budget

def evict (ticks : Int64) (limit : UInt64) : Option LinkedShard :=
  (shard.purgeExpiredLocked ticks).shrink limit

def clear : LinkedShard :=
  { shard with map := [], links := { shard.links with head := none, tail := none }, bytes := 0 }

end Operations

/-! ### Sound shards -/

/-- The list leads over these addresses and back, the map has an entry for each of them
under its key, and the counter is the sum of their bytes. -/
structure Sound (shard : LinkedShard) (ids : List Nat) : Prop where
  spells : shard.links.Spells ids
  mapped : shard.map.Perm (ids.map fun id => ((shard.cells id).key, id))
  distinct : (ids.map fun id => (shard.cells id).key).Nodup
  allocated : ∀ id ∈ ids, id < shard.fresh
  counted : shard.bytes = (ids.map fun id => (shard.cells id).bytes).sum

section Sound

variable {shard : LinkedShard} {ids front back : List Nat} {node id : Nat} {cell : CacheNode}
  {key : Bytes}

theorem Sound.length_map (h : shard.Sound ids) : shard.map.length = ids.length := by
  rw [h.mapped.length_eq, List.length_map]

theorem Sound.nodup_keys (h : shard.Sound ids) : (shard.map.map Prod.fst).Nodup := by
  rw [(h.mapped.map Prod.fst).nodup_iff, List.map_map]
  exact h.distinct

theorem Sound.mem_map_iff (h : shard.Sound ids) :
    (key, id) ∈ shard.map ↔ id ∈ ids ∧ (shard.cells id).key = key := by
  rw [h.mapped.mem_iff, List.mem_map]
  constructor
  · rintro ⟨other, hother, hpair⟩
    obtain ⟨hkey, rfl⟩ := Prod.mk.inj hpair
    exact ⟨hother, hkey⟩
  · rintro ⟨hid, rfl⟩
    exact ⟨id, hid, rfl⟩

theorem key_update {cells : Nat → CacheNode} (hkey : cell.key = (cells node).key) (id : Nat) :
    (Function.update cells node cell id).key = (cells id).key := by
  rcases eq_or_ne id node with rfl | hne
  · rw [Function.update_self, hkey]
  · rw [Function.update_of_ne hne]

/-- What a node holds is nothing to a list it is not in. -/
theorem map_update {α : Type} (f : CacheNode → Nat → α) {cells : Nat → CacheNode} (h : node ∉ ids) :
    (ids.map fun id => f (Function.update cells node cell id) id) = ids.map fun id => f (cells id) id := by
  refine List.map_congr_left fun id hid => ?_
  rw [Function.update_of_ne]
  rintro rfl
  exact h hid

theorem sound_empty (budget : UInt64) : Sound { budget := budget } [] :=
  ⟨Links.spells_empty, List.Perm.refl _, List.nodup_nil, by simp, rfl⟩

theorem sound_clear (shard : LinkedShard) : shard.clear.Sound [] :=
  ⟨⟨List.nodup_nil, rfl, rfl⟩, List.Perm.refl _, List.nodup_nil, by simp [clear], rfl⟩

/-- A node out of its list, its entry out of the map and its bytes out of the counter. -/
theorem Sound.takeOut (h : shard.Sound (front ++ node :: back)) :
    ({ shard with
       bytes := shard.bytes - (shard.cells node).bytes
       links := shard.links.unlink node
       map := shard.map.filter fun entry => entry.1 ≠ (shard.cells node).key } : LinkedShard).Sound
      (front ++ back) where
  spells := h.spells.unlink
  mapped := by
    have hfilter := h.mapped.filter fun entry => entry.1 ≠ (shard.cells node).key
    have hdistinct : (((front ++ node :: back).map fun id => ((shard.cells id).key, id)).map
        Prod.fst).Nodup := by
      rw [List.map_map]
      exact h.distinct
    rw [List.map_append, List.map_cons] at hdistinct
    rw [List.map_append, List.map_cons, filter_ne_of_nodup_map hdistinct, ← List.map_append]
      at hfilter
    exact hfilter
  distinct := by
    have hdistinct := h.distinct
    rw [List.map_append, List.map_cons, List.nodup_middle, List.nodup_cons,
      ← List.map_append] at hdistinct
    exact hdistinct.2
  allocated id hid :=
    h.allocated id ((List.mem_append.mp hid).elim (List.mem_append_left _)
      fun hback => List.mem_append_right _ (List.mem_cons_of_mem _ hback))
  counted := by
    have hperm : (front ++ node :: back).Perm (node :: (front ++ back)) := List.perm_middle
    have hsum := (hperm.map fun id => (shard.cells id).bytes).sum_eq
    rw [List.map_cons, List.sum_cons] at hsum
    simp only [h.counted, hsum]
    exact add_sub_cancel_left ..

/-- What one node holds replaced, its key the same. -/
theorem Sound.overwrite (h : shard.Sound (front ++ node :: back))
    (hkey : cell.key = (shard.cells node).key) :
    ({ shard with
       cells := Function.update shard.cells node cell
       bytes := shard.bytes - (shard.cells node).bytes + cell.bytes } : LinkedShard).Sound
      (front ++ node :: back) where
  spells := h.spells
  mapped := by
    simp only [key_update hkey]
    exact h.mapped
  distinct := by
    simp only [key_update hkey]
    exact h.distinct
  allocated := h.allocated
  counted := by
    have hperm : (front ++ node :: back).Perm (node :: (front ++ back)) := List.perm_middle
    have hnode := ((hperm.nodup_iff).mp h.spells.nodup)
    have hothers : ((front ++ back).map fun id => (Function.update shard.cells node cell id).bytes) =
        (front ++ back).map fun id => (shard.cells id).bytes :=
      map_update (fun cell _ => cell.bytes) (List.nodup_cons.mp hnode).1
    rw [(hperm.map fun id => (Function.update shard.cells node cell id).bytes).sum_eq,
      List.map_cons, List.sum_cons, hothers, Function.update_self]
    simp only [h.counted, (hperm.map fun id => (shard.cells id).bytes).sum_eq]
    rw [List.map_cons, List.sum_cons, add_sub_cancel_left, add_comm]

/-- A node taken to the front. -/
theorem Sound.toFront (h : shard.Sound (front ++ node :: back)) :
    ({ shard with links := (shard.links.unlink node).pushFront node } : LinkedShard).Sound
      (node :: (front ++ back)) :=
  have hperm : (front ++ node :: back).Perm (node :: (front ++ back)) := List.perm_middle
  { spells := h.spells.unlink.pushFront (List.nodup_cons.mp (hperm.nodup_iff.mp h.spells.nodup)).1
    mapped := h.mapped.trans (hperm.map _)
    distinct := (hperm.map _).nodup_iff.mp h.distinct
    allocated := fun id hid => h.allocated id (hperm.mem_iff.mpr hid)
    counted := h.counted.trans (hperm.map _).sum_eq }

/-- A new node at the front. -/
theorem Sound.pushNew (h : shard.Sound ids) (hnew : ∀ id ∈ ids, (shard.cells id).key ≠ cell.key) :
    ({ shard with
       map := (cell.key, shard.fresh) :: shard.map
       cells := Function.update shard.cells shard.fresh cell
       links := shard.links.pushFront shard.fresh
       fresh := shard.fresh + 1
       bytes := shard.bytes + cell.bytes } : LinkedShard).Sound (shard.fresh :: ids) := by
  have hfresh : shard.fresh ∉ ids := fun hmem => Nat.lt_irrefl _ (h.allocated _ hmem)
  refine ⟨h.spells.pushFront hfresh, ?_, ?_, ?_, ?_⟩
  · simp only [List.map_cons, Function.update_self,
      map_update (fun cell id => (cell.key, id)) hfresh]
    exact h.mapped.cons _
  · simp only [List.map_cons, Function.update_self, map_update (fun cell _ => cell.key) hfresh]
    refine List.nodup_cons.mpr ⟨fun hmem => ?_, h.distinct⟩
    obtain ⟨id, hid, hkey⟩ := List.mem_map.mp hmem
    exact hnew id hid hkey
  · intro id hid
    rcases List.mem_cons.mp hid with rfl | hid
    · exact Nat.lt_succ_self _
    · exact Nat.lt_succ_of_lt (h.allocated id hid)
  · simp only [List.map_cons, List.sum_cons, Function.update_self,
      map_update (fun cell _ => cell.bytes) hfresh, h.counted]
    exact add_comm ..

end Sound

/-! ### A linked shard and its list -/

/-- Read along its links the linked shard is this one. -/
structure Refines (linked : LinkedShard) (shard : Shard) (ids : List Nat) : Prop where
  sound : linked.Sound ids
  nodes : shard.nodes = ids.map linked.cells
  bytes : shard.bytes = linked.bytes
  budget : shard.budget = linked.budget

section Refines

variable {linked next : LinkedShard} {shard after : Shard} {ids front back : List Nat} {node : Nat}
  {cell : CacheNode} {key : Bytes} {ticks : Int64} {limit : UInt64}

theorem Refines.length_nodes (h : linked.Refines shard ids) : shard.nodes.length = ids.length := by
  rw [h.nodes, List.length_map]

theorem Refines.counted (h : linked.Refines shard ids) : shard.Counted := by
  rw [Shard.Counted, h.bytes, h.sound.counted, h.nodes, List.map_map]
  rfl

/-- What the map finds is in the list, under that key. -/
theorem Sound.of_find? (h : linked.Sound ids) (hfind : linked.find? key = some node) :
    node ∈ ids ∧ (linked.cells node).key = key := by
  obtain ⟨⟨found, id⟩, hentry, rfl⟩ := Option.map_eq_some_iff.mp hfind
  have hkey : found = key := by simpa using List.find?_some hentry
  rw [← hkey]
  exact h.mem_map_iff.mp (List.mem_of_find?_eq_some hentry)

theorem Sound.key_ne_of_find? (h : linked.Sound ids) (hfind : linked.find? key = none) :
    ∀ id ∈ ids, (linked.cells id).key ≠ key := by
  intro id hid hkey
  have hentry : (key, id) ∈ linked.map := h.mem_map_iff.mpr ⟨hid, hkey⟩
  have hmiss := List.find?_eq_none.mp (Option.map_eq_none_iff.mp hfind) _ hentry
  exact hmiss (decide_eq_true rfl)

/-- The map finds the entry the list has under the key. -/
theorem Refines.find? (h : linked.Refines shard ids) :
    shard.find? key = (linked.find? key).map linked.cells := by
  cases hfind : linked.find? key with
  | none =>
      refine List.find?_eq_none.mpr fun cell hcell => ?_
      rw [h.nodes] at hcell
      obtain ⟨id, hid, rfl⟩ := List.mem_map.mp hcell
      simpa using h.sound.key_ne_of_find? hfind id hid
  | some id =>
      obtain ⟨hid, hkey⟩ := h.sound.of_find? hfind
      obtain ⟨front, back, rfl⟩ := List.append_of_mem hid
      have hnodup := h.sound.distinct
      rw [List.map_append, List.nodup_append] at hnodup
      rw [Option.map_some, Shard.find?, h.nodes, List.map_append, List.map_cons,
        List.find?_append, List.find?_eq_none.mpr, Option.none_or]
      · simp only [List.find?_cons, hkey, decide_true]
      intro cell hcell
      obtain ⟨other, hother, rfl⟩ := List.mem_map.mp hcell
      have hne : (linked.cells other).key ≠ (linked.cells id).key :=
        hnodup.2.2 _ (List.mem_map_of_mem hother) _ List.mem_cons_self
      rw [hkey] at hne
      simpa using hne

theorem Refines.removeLocked (h : linked.Refines shard (front ++ node :: back)) :
    (linked.removeLocked node).Refines (shard.remove (linked.cells node)) (front ++ back) where
  sound := h.sound.takeOut
  nodes := by
    rw [Shard.nodes_remove_of_split (by rw [h.nodes, List.map_append, List.map_cons]),
      ← List.map_append]
    rfl
  bytes := congrArg (· - (linked.cells node).bytes) h.bytes
  budget := h.budget

theorem Refines.removeLocked_of_mem (h : linked.Refines shard ids) (hnode : node ∈ ids) :
    ∃ rest, (linked.removeLocked node).Refines (shard.remove (linked.cells node)) rest := by
  obtain ⟨front, back, rfl⟩ := List.append_of_mem hnode
  exact ⟨_, h.removeLocked⟩

/-- What the nodes hold after one of them was replaced and taken to the front. -/
theorem map_update_front (h : (front ++ node :: back).Nodup) (cells : Nat → CacheNode) :
    (node :: (front ++ back)).map (Function.update cells node cell) =
      cell :: (front ++ back).map cells := by
  have hperm : (front ++ node :: back).Perm (node :: (front ++ back)) := List.perm_middle
  rw [List.map_cons, Function.update_self]
  exact congrArg _ (map_update (fun cell _ => cell) (List.nodup_cons.mp (hperm.nodup_iff.mp h)).1)

theorem Refines.reprieve (h : linked.Refines shard (front ++ [node])) :
    (linked.moveToFront node { linked.cells node with accessed := false }).Refines shard.reprieve
      (node :: (front ++ [])) := by
  have hlast : shard.nodes.getLast? = some (linked.cells node) := by
    rw [h.nodes, List.map_append, List.map_singleton, List.getLast?_concat]
  obtain ⟨hnodes, hbytes, hbudget⟩ := Shard.nodes_reprieve hlast
  have hkey : ({ linked.cells node with accessed := false } : CacheNode).key =
      (linked.cells node).key := rfl
  have hsound := (h.sound.overwrite hkey).toFront
  simp only [sub_add_cancel] at hsound
  refine ⟨hsound, ?_, hbytes.trans h.bytes, hbudget.trans h.budget⟩
  rw [hnodes, h.nodes, List.map_append, List.map_singleton, List.dropLast_concat]
  exact ((map_update_front h.sound.spells.nodup linked.cells).trans (by rw [List.append_nil]; rfl)).symm

/-- What the entries under other keys are charged. -/
def chargedBeside (shard : LinkedShard) (key : Bytes) : Nat :=
  ((shard.map.filter fun entry => entry.1 ≠ key).map fun entry =>
    (shard.cells entry.2).bytes.toNat).sum

theorem Refines.chargedBeside (h : linked.Refines shard ids) (key : Bytes) :
    linked.chargedBeside key = Shard.total (shard.nodes.filter fun other => other.key ≠ key) := by
  have hperm := (h.sound.mapped.filter fun entry => entry.1 ≠ key).map fun entry =>
    (linked.cells entry.2).bytes.toNat
  rw [LinkedShard.chargedBeside, hperm.sum_eq, Shard.total, h.nodes, List.filter_map, List.filter_map,
    List.map_map, List.map_map]
  rfl

/-! Evicting -/

theorem evictLoop_of_empty (h : linked.links.tail = none) (reprieves : Nat) :
    linked.evictLoop reprieves = (linked, false) := by
  cases reprieves <;> simp only [evictLoop, h]

/-- The last node of a list, and what the shard it is read as has last. -/
theorem Refines.last (h : linked.Refines shard (front ++ [node])) :
    linked.links.tail = some node ∧ shard.nodes.getLast? = some (linked.cells node) := by
  constructor
  · rw [h.sound.spells.tail_eq, List.getLast?_concat]
  · rw [h.nodes, List.map_append, List.map_singleton, List.getLast?_concat]

theorem Refines.evictLoop {reprieves : Nat} (h : linked.Refines shard ids)
    (hafter : Shard.evictWalk reprieves shard = some after) :
    ∃ next rest, linked.evictLoop reprieves = (next, true) ∧ next.Refines after rest := by
  induction reprieves generalizing linked shard ids with
  | zero =>
      obtain rfl | ⟨front, node, rfl⟩ := ids.eq_nil_or_concat'
      · rw [Shard.evictWalk, h.nodes] at hafter
        cases hafter
      · obtain ⟨htail, hlast⟩ := h.last
        rw [Shard.evictWalk, hlast] at hafter
        obtain rfl := Option.some.inj hafter
        simp only [LinkedShard.evictLoop, htail]
        exact ⟨_, _, rfl, h.removeLocked⟩
  | succ reprieves ih =>
      obtain rfl | ⟨front, node, rfl⟩ := ids.eq_nil_or_concat'
      · rw [Shard.evictWalk, h.nodes] at hafter
        cases hafter
      · obtain ⟨htail, hlast⟩ := h.last
        rw [Shard.evictWalk, hlast] at hafter
        simp only [LinkedShard.evictLoop, htail]
        simp only at hafter
        split_ifs at hafter ⊢
        · exact ih h.reprieve hafter
        · obtain rfl := Option.some.inj hafter
          exact ⟨_, _, rfl, h.removeLocked⟩

theorem Refines.evictOneLocked (h : linked.Refines shard ids) (hafter : shard.evictOne = some after) :
    ∃ next rest, linked.evictOneLocked = (next, true) ∧ next.Refines after rest := by
  rw [LinkedShard.evictOneLocked, h.sound.length_map, ← h.length_nodes]
  exact h.evictLoop hafter

/-- The loop that evicts down to a limit ends, and within one round more than there are
entries. -/
theorem Refines.evictDownTo {rounds : Nat} (h : linked.Refines shard ids)
    (hrounds : ids.length < rounds) :
    ∃ next rest, linked.evictDownTo limit rounds = some next ∧
      next.Refines (shard.evictDownTo limit rounds) rest := by
  induction rounds generalizing linked shard ids with
  | zero => exact absurd hrounds (Nat.not_lt_zero _)
  | succ rounds ih =>
      rw [LinkedShard.evictDownTo, Shard.evictDownTo, h.bytes]
      split_ifs with hlimit
      · cases hafter : shard.evictOne with
        | none =>
            have hnil := Shard.nodes_eq_nil_of_evictWalk hafter
            rw [h.nodes, List.map_eq_nil_iff] at hnil
            have htail : linked.links.tail = none := by
              rw [h.sound.spells.tail_eq, hnil]
              rfl
            rw [LinkedShard.evictOneLocked, evictLoop_of_empty htail]
            exact ⟨_, _, rfl, h⟩
        | some after =>
            obtain ⟨next, rest, hnext, hrefines⟩ := h.evictOneLocked hafter
            have hlength := Shard.length_evictWalk_lt hafter
            rw [h.length_nodes, hrefines.length_nodes] at hlength
            rw [hnext]
            exact ih hrefines (by omega)
      · exact ⟨_, _, rfl, h⟩

theorem Refines.shrink (h : linked.Refines shard ids) (limit : UInt64) :
    ∃ next rest, linked.shrink limit = some next ∧ next.Refines (shard.shrink limit) rest := by
  rw [LinkedShard.shrink, Shard.shrink, h.sound.length_map, h.length_nodes]
  exact h.evictDownTo (Nat.lt_succ_self _)

/-! Purging -/

/-- Of the entries of the map that a purge has come to, the unexpired ones stay. -/
theorem Sound.purge {entries : List (Bytes × Nat)} (h : linked.Sound ids) (ticks : Int64)
    (hentries : entries.Nodup) (hmap : ∀ entry ∈ entries, entry ∈ linked.map) :
    let purged := entries.foldl (purgeEntry ticks) linked
    purged.cells = linked.cells ∧ purged.budget = linked.budget ∧
      purged.Sound (ids.filter fun id =>
        ticks < (linked.cells id).expiresAt ∨ ((linked.cells id).key, id) ∉ entries) := by
  induction entries generalizing linked ids with
  | nil =>
      refine ⟨rfl, rfl, ?_⟩
      rw [List.filter_eq_self.mpr]
      · exact h
      · simp
  | cons entry entries ih =>
      obtain ⟨key, node⟩ := entry
      obtain ⟨hnew, hentries⟩ := List.nodup_cons.mp hentries
      obtain ⟨hnode, hkey⟩ := h.mem_map_iff.mp (hmap (key, node) List.mem_cons_self)
      have htail : ∀ entry ∈ entries, entry ∈ linked.map :=
        fun entry hentry => hmap entry (List.mem_cons_of_mem _ hentry)
      rw [List.foldl_cons, purgeEntry]
      split_ifs with hticks
      · have hfilter : (ids.filter fun id => ticks < (linked.cells id).expiresAt ∨
              ((linked.cells id).key, id) ∉ (key, node) :: entries) =
            ids.filter fun id => ticks < (linked.cells id).expiresAt ∨
              ((linked.cells id).key, id) ∉ entries := by
          refine List.filter_congr fun id hid => ?_
          rcases eq_or_ne id node with rfl | hne
          · simp [hticks]
          · simp [hne]
        rw [hfilter]
        exact ih h hentries htail
      · obtain ⟨front, back, rfl⟩ := List.append_of_mem hnode
        have hout := h.takeOut
        rw [hkey] at hout
        have hkept : ∀ entry ∈ entries, entry ∈ linked.map.filter fun other => other.1 ≠ key := by
          intro entry hentry
          refine List.mem_filter.mpr ⟨htail entry hentry, decide_eq_true fun hsame => hnew ?_⟩
          have hpair := List.inj_on_of_nodup_map h.nodup_keys (htail entry hentry)
            (hmap (key, node) List.mem_cons_self) hsame
          rw [← hpair]
          exact hentry
        obtain ⟨hcells, hbudget, hsound⟩ := ih hout hentries hkept
        have hnodup := h.spells.nodup
        rw [List.nodup_middle, List.nodup_cons] at hnodup
        have hfilter : ((front ++ node :: back).filter fun id => ticks < (linked.cells id).expiresAt ∨
              ((linked.cells id).key, id) ∉ (key, node) :: entries) =
            (front ++ back).filter fun id => ticks < (linked.cells id).expiresAt ∨
              ((linked.cells id).key, id) ∉ entries := by
          rw [List.filter_append, List.filter_cons_of_neg (by simp [hticks, hkey]),
            ← List.filter_append]
          refine List.filter_congr fun id hid => ?_
          have hne : id ≠ node := by
            rintro rfl
            exact hnodup.1 hid
          simp [hne]
        rw [hfilter]
        exact ⟨hcells, hbudget, hsound⟩

theorem Refines.purgeExpired (h : linked.Refines shard ids) (ticks : Int64) :
    ∃ rest, (linked.purgeExpiredLocked ticks).Refines (shard.purgeExpired ticks) rest := by
  have hnodup : linked.map.Nodup := h.sound.nodup_keys.of_map
  obtain ⟨hcells, hbudget, hsound⟩ := h.sound.purge ticks hnodup fun _ => id
  have hnodes : (shard.purgeExpired ticks).nodes =
      (ids.filter fun id => ticks < (linked.cells id).expiresAt ∨
        ((linked.cells id).key, id) ∉ linked.map).map linked.cells := by
    rw [Shard.purgeExpired]
    simp only [h.nodes, List.filter_map]
    congr 1
    refine List.filter_congr fun id hid => ?_
    have hentry : ((linked.cells id).key, id) ∈ linked.map := h.sound.mem_map_iff.mpr ⟨hid, rfl⟩
    simp [hentry]
  refine ⟨_, hsound, ?_, ?_, ?_⟩
  · rw [hnodes, purgeExpiredLocked, hcells]
  · have hcounted := h.counted.purgeExpired ticks
    have hsum := hsound.counted
    simp only [hcells] at hsum
    rw [hcounted, hnodes, List.map_map]
    exact hsum.symm
  · exact h.budget.trans hbudget.symm

/-! The operations -/

theorem Refines.markAccessed (h : linked.Refines shard ids) (hnode : node ∈ ids)
    (hkey : (linked.cells node).key = key) :
    ({ linked with
       cells := Function.update linked.cells node { linked.cells node with accessed := true } } :
      LinkedShard).Refines (shard.markAccessed key) ids where
  sound := by
    obtain ⟨front, back, rfl⟩ := List.append_of_mem hnode
    have hsame : ({ linked.cells node with accessed := true } : CacheNode).key =
        (linked.cells node).key := rfl
    have hsound := h.sound.overwrite hsame
    simp only [sub_add_cancel] at hsound
    exact hsound
  nodes := by
    rw [Shard.nodes_markAccessed, h.nodes, List.map_map]
    refine List.map_congr_left fun id hid => ?_
    rw [Function.comp_apply]
    rcases eq_or_ne id node with rfl | hne
    · simp only [if_pos hkey, Function.update_self]
    · have hother : (linked.cells id).key ≠ key := by
        rw [← hkey]
        exact fun hsame => hne (List.inj_on_of_nodup_map h.sound.distinct hid hnode hsame)
      simp only [if_neg hother, Function.update_of_ne hne]
  bytes := h.bytes
  budget := h.budget

/-- A read marks what it returns and takes out what has expired. -/
theorem Refines.get (h : linked.Refines shard ids) (ticks : Int64) (key : Bytes) :
    match shard.find? key with
    | none => linked.get ticks key = (linked, none)
    | some cell =>
      ∃ rest, (linked.get ticks key).1.Refines
          (if ticks < cell.expiresAt then shard.markAccessed key else shard.remove cell) rest ∧
        (linked.get ticks key).2 = if ticks < cell.expiresAt then some cell.value else none := by
  rw [h.find?]
  cases hfind : linked.find? key with
  | none => simp only [LinkedShard.get, hfind, Option.map_none]
  | some node =>
      obtain ⟨hnode, hkey⟩ := h.sound.of_find? hfind
      simp only [LinkedShard.get, hfind, Option.map_some]
      split_ifs with hticks
      · exact ⟨ids, h.markAccessed hnode hkey, rfl⟩
      · obtain ⟨rest, hrest⟩ := h.removeLocked_of_mem hnode
        exact ⟨rest, hrest, rfl⟩

/-- A deletion takes out the entry under the key, if there is one. -/
theorem Refines.del (h : linked.Refines shard ids) (key : Bytes) :
    ∃ rest, (linked.del key).Refines ((shard.find? key).elim shard shard.remove) rest := by
  rw [h.find?]
  cases hfind : linked.find? key with
  | none =>
      simp only [LinkedShard.del, hfind, Option.map_none, Option.elim_none]
      exact ⟨ids, h⟩
  | some node =>
      simp only [LinkedShard.del, hfind, Option.map_some, Option.elim_some]
      exact h.removeLocked_of_mem (h.sound.of_find? hfind).1

theorem Refines.place (h : linked.Refines shard ids) (cell : CacheNode) :
    ∃ rest, (linked.place cell).Refines (shard.insert cell) rest := by
  have hfound : shard.find? cell.key = (linked.find? cell.key).map linked.cells := h.find?
  cases hfind : linked.find? cell.key with
  | none =>
      have hnew := h.sound.key_ne_of_find? hfind
      have hfresh : linked.fresh ∉ ids := fun hmem => Nat.lt_irrefl _ (h.sound.allocated _ hmem)
      simp only [LinkedShard.place, hfind]
      refine ⟨linked.fresh :: ids, h.sound.pushNew hnew, ?_, ?_, h.budget⟩
      · have hothers : (shard.nodes.filter fun other => other.key ≠ cell.key) = shard.nodes := by
          refine List.filter_eq_self.mpr fun other hother => ?_
          rw [h.nodes] at hother
          obtain ⟨id, hid, rfl⟩ := List.mem_map.mp hother
          exact decide_eq_true (hnew id hid)
        rw [Shard.nodes_insert, hothers, h.nodes]
        simp only [List.map_cons, Function.update_self]
        exact congrArg _ (map_update (fun cell _ => cell) hfresh).symm
      · simp only [Shard.insert, hfound, hfind, Option.map_none, Option.elim_none, sub_zero, h.bytes]
  | some node =>
      obtain ⟨hnode, hkey⟩ := h.sound.of_find? hfind
      obtain ⟨front, back, rfl⟩ := List.append_of_mem hnode
      simp only [LinkedShard.place, hfind]
      refine ⟨node :: (front ++ back), (h.sound.overwrite hkey.symm).toFront, ?_, ?_, h.budget⟩
      · have hothers : (shard.nodes.filter fun other => other.key ≠ cell.key) =
            (front ++ back).map linked.cells := by
          rw [← hkey, ← Shard.nodes_remove,
            Shard.nodes_remove_of_split (by rw [h.nodes, List.map_append, List.map_cons]),
            List.map_append]
        rw [Shard.nodes_insert, hothers]
        exact (map_update_front h.sound.spells.nodup linked.cells).symm
      · simp only [Shard.insert, hfound, hfind, Option.map_some, Option.elim_some, h.bytes]

theorem Refines.evict (h : linked.Refines shard ids) (ticks : Int64) (limit : UInt64) :
    ∃ next rest, linked.evict ticks limit = some next ∧
      next.Refines ((shard.purgeExpired ticks).shrink limit) rest := by
  obtain ⟨rest, hpurged⟩ := h.purgeExpired ticks
  exact hpurged.shrink limit

theorem Refines.clear (h : linked.Refines shard ids) :
    linked.clear.Refines { budget := shard.budget } [] :=
  ⟨sound_clear linked, rfl, rfl, h.budget⟩

end Refines

end LinkedShard

end MonoBucket
