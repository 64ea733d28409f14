/-
The in-memory cache

`MemoryCache` as its callers see it: a key reads what was last set under it, or
nothing. Entries go away on their own, by expiry, by the budget of their shard,
or because a value is larger than the shard; a deletion is never undone.

A shard is the list its linked list is, from the entry last inserted or
reprieved to the next one to evict; the hash map beside it finds an entry by key
and is that same list. The hit and miss counters are not here.
-/

import MonoBucket.Storage.Bytes

namespace MonoBucket

/-! ### Shards -/

structure CacheNode where
  key : Bytes
  value : Bytes
  bytes : UInt64
  expiresAt : Int64
  accessed : Bool := false
  deriving DecidableEq

structure Shard where
  nodes : List CacheNode := []
  bytes : UInt64 := 0
  budget : UInt64 := 0
  /-- One entry a key. -/
  distinct : (nodes.map CacheNode.key).Nodup := by
    first | exact List.nodup_nil | simp

namespace Shard

def find? (shard : Shard) (key : Bytes) : Option CacheNode :=
  shard.nodes.find? fun node => node.key = key

/-- `removeLocked`. -/
def remove (shard : Shard) (node : CacheNode) : Shard where
  nodes := shard.nodes.filter fun other => other.key ≠ node.key
  bytes := shard.bytes - node.bytes
  budget := shard.budget
  distinct := shard.distinct.sublist (List.filter_sublist.map _)

/-- The last entry moved to the front, its flag consumed. -/
def reprieve (shard : Shard) : Shard :=
  match hlast : shard.nodes.getLast? with
  | none => shard
  | some victim =>
    { nodes := { victim with accessed := false } :: shard.nodes.dropLast
      bytes := shard.bytes
      budget := shard.budget
      distinct := by
        have hperm : (shard.nodes.dropLast ++ [victim]).Perm (victim :: shard.nodes.dropLast) :=
          List.perm_append_singleton ..
        rw [List.dropLast_append_getLast? victim hlast] at hperm
        exact (hperm.map CacheNode.key).nodup_iff.mp shard.distinct }

/-- The walk of `evictOneLocked` from the tail, with so many reprieves left. -/
def evictWalk : Nat → Shard → Option Shard
  | 0, shard => shard.nodes.getLast?.map shard.remove
  | reprieves + 1, shard =>
    match shard.nodes.getLast? with
    | none => none
    | some victim =>
      if victim.accessed then evictWalk reprieves shard.reprieve else some (shard.remove victim)

/-- `evictOneLocked`: nothing when there is nothing to evict. -/
def evictOne (shard : Shard) : Option Shard := evictWalk shard.nodes.length shard

/-- `while (shard.bytes > limit && evictOneLocked(shard))`, for so many rounds. -/
def evictDownTo (limit : UInt64) : Nat → Shard → Shard
  | 0, shard => shard
  | rounds + 1, shard =>
    if limit < shard.bytes then
      match shard.evictOne with
      | none => shard
      | some next => evictDownTo limit rounds next
    else shard

/-- Each round takes one entry, so as many rounds as there are entries end it. -/
def shrink (shard : Shard) (limit : UInt64) : Shard :=
  evictDownTo limit (shard.nodes.length + 1) shard

def purgeExpired (shard : Shard) (ticks : Int64) : Shard where
  nodes := shard.nodes.filter fun node => ticks < node.expiresAt
  bytes := (shard.nodes.filter fun node => ¬ ticks < node.expiresAt).foldl
    (fun bytes node => bytes - node.bytes) shard.bytes
  budget := shard.budget
  distinct := shard.distinct.sublist (List.filter_sublist.map _)

def markAccessed (shard : Shard) (key : Bytes) : Shard where
  nodes := shard.nodes.map fun node => if node.key = key then { node with accessed := true } else node
  bytes := shard.bytes
  budget := shard.budget
  distinct := by
    have hkeys : (CacheNode.key ∘ fun node : CacheNode =>
        if node.key = key then { node with accessed := true } else node) = CacheNode.key := by
      funext node
      simp only [Function.comp_apply]
      split_ifs <;> rfl
    rw [List.map_map, hkeys]
    exact shard.distinct

/-- A fresh entry at the front, in place of any older one under its key. -/
def insert (shard : Shard) (node : CacheNode) : Shard where
  nodes := node :: shard.nodes.filter fun other => other.key ≠ node.key
  bytes := shard.bytes - ((shard.find? node.key).elim 0 CacheNode.bytes) + node.bytes
  budget := shard.budget
  distinct := by
    rw [List.map_cons, List.nodup_cons]
    refine ⟨?_, shard.distinct.sublist (List.filter_sublist.map _)⟩
    simp

end Shard

/-! ### The cache -/

structure MemoryCache where
  shards : UInt64 → Shard
  shardMask : UInt64 := 0

namespace MemoryCache

def kEntryOverheadBytes : UInt64 := 128

def kNever : Int64 := Int64.maxValue

/-- Deadlines are in milliseconds; no time to live means "until evicted". -/
def expiryFrom (ticks ttlSeconds : Int64) : Int64 :=
  if ttlSeconds = 0 then kNever else ticks + ttlSeconds * 1000

section Operations

variable (hash : Bytes → UInt64)

def shardIndex (cache : MemoryCache) (key : Bytes) : UInt64 := hash key &&& cache.shardMask

def shardFor (cache : MemoryCache) (key : Bytes) : Shard := cache.shards (cache.shardIndex hash key)

def setShard (cache : MemoryCache) (key : Bytes) (shard : Shard) : MemoryCache :=
  { cache with shards := Function.update cache.shards (cache.shardIndex hash key) shard }

/-- A hit marks the entry; an expired entry is dropped by the read that found it. -/
def get (cache : MemoryCache) (ticks : Int64) (key : Bytes) : MemoryCache × Option Bytes :=
  let shard := cache.shardFor hash key
  match shard.find? key with
  | none => (cache, none)
  | some node =>
    if ticks < node.expiresAt then
      (cache.setShard hash key (shard.markAccessed key), some node.value)
    else (cache.setShard hash key (shard.remove node), none)

def del (cache : MemoryCache) (key : Bytes) : MemoryCache × Bool :=
  let shard := cache.shardFor hash key
  match shard.find? key with
  | none => (cache, false)
  | some node => (cache.setShard hash key (shard.remove node), true)

/-- `set`, which `put` is with the value wrapped. A value larger than its whole
shard is refused, and drops the older entry under its key. -/
def set (cache : MemoryCache) (ticks : Int64) (key value : Bytes) (ttlSeconds : Int64) :
    MemoryCache :=
  let bytes := key.length.toUInt64 + value.length.toUInt64 + kEntryOverheadBytes
  let shard := cache.shardFor hash key
  if shard.budget < bytes then (cache.del hash key).1
  else
    cache.setShard hash key
      ((shard.insert ⟨key, value, bytes, expiryFrom ticks ttlSeconds, false⟩).shrink shard.budget)

end Operations

/-- `evict(budgetBytes)`: expired entries first, then cold ones. -/
def evict (cache : MemoryCache) (ticks : Int64) (budgetBytes : UInt64) : MemoryCache :=
  { cache with
    shards := fun index =>
      ((cache.shards index).purgeExpired ticks).shrink (budgetBytes / (cache.shardMask + 1)) }

def clear (cache : MemoryCache) : MemoryCache :=
  { cache with shards := fun index => { budget := (cache.shards index).budget } }

end MemoryCache

/-! ### What a shard holds -/

namespace Shard

/-- Every entry of `after` was one of `before`, up to its flag. -/
def Within (after before : Shard) : Prop :=
  ∀ node ∈ after.nodes, ∃ older ∈ before.nodes, older.key = node.key ∧ older.value = node.value

theorem Within.of_subset {after before : Shard} (h : after.nodes ⊆ before.nodes) :
    Within after before := fun node hnode => ⟨node, h hnode, rfl, rfl⟩

theorem within_remove (shard : Shard) (node : CacheNode) : Within (shard.remove node) shard :=
  Within.of_subset (List.filter_subset_self _)

/-- The entry without its flag. -/
def cold (node : CacheNode) : CacheNode := { node with accessed := false }

/-- The entries of `after` are some of those of `before`, in any order, up to their flags. -/
def Kept (after before : Shard) : Prop :=
  (after.nodes.map cold).Subperm (before.nodes.map cold)

theorem Kept.exists_cold {after before : Shard} (h : Kept after before) {node : CacheNode}
    (hnode : node ∈ after.nodes) : ∃ older ∈ before.nodes, cold older = cold node :=
  List.mem_map.mp (h.subset (List.mem_map_of_mem hnode))

theorem Kept.within {after before : Shard} (h : Kept after before) : Within after before := by
  intro node hnode
  obtain ⟨older, holder, hcold⟩ := h.exists_cold hnode
  have hkey : (cold older).key = (cold node).key := congrArg CacheNode.key hcold
  have hvalue : (cold older).value = (cold node).value := congrArg CacheNode.value hcold
  exact ⟨older, holder, hkey, hvalue⟩

theorem kept_remove (shard : Shard) (node : CacheNode) : Kept (shard.remove node) shard :=
  (List.filter_sublist.map _).subperm

theorem kept_reprieve (shard : Shard) : Kept shard.reprieve shard := by
  rw [reprieve]
  split
  · exact List.Subperm.refl _
  · rename_i victim hlast
    have hperm : (cold victim :: shard.nodes.dropLast.map cold).Perm (shard.nodes.map cold) := by
      conv_rhs => rw [← List.dropLast_append_getLast? victim hlast, List.map_append]
      exact (List.perm_append_singleton ..).symm
    exact hperm.subperm

theorem kept_evictWalk {reprieves : Nat} {shard next : Shard}
    (h : evictWalk reprieves shard = some next) : Kept next shard := by
  induction reprieves generalizing shard with
  | zero =>
      obtain ⟨victim, -, rfl⟩ := Option.map_eq_some_iff.mp h
      exact kept_remove shard victim
  | succ reprieves ih =>
      rw [evictWalk] at h
      split at h
      · cases h
      · rename_i victim _
        split_ifs at h
        · exact (ih h).trans (kept_reprieve shard)
        · obtain rfl := Option.some.inj h
          exact kept_remove shard victim

theorem kept_evictDownTo (limit : UInt64) (rounds : Nat) (shard : Shard) :
    Kept (evictDownTo limit rounds shard) shard := by
  induction rounds generalizing shard with
  | zero => exact List.Subperm.refl _
  | succ rounds ih =>
      rw [evictDownTo]
      split_ifs
      · split
        · exact List.Subperm.refl _
        · rename_i next hnext
          exact (ih next).trans (kept_evictWalk hnext)
      · exact List.Subperm.refl _

theorem kept_shrink (shard : Shard) (limit : UInt64) : Kept (shard.shrink limit) shard :=
  kept_evictDownTo limit _ shard

theorem within_shrink (shard : Shard) (limit : UInt64) : Within (shard.shrink limit) shard :=
  (kept_shrink shard limit).within

theorem within_markAccessed (shard : Shard) (key : Bytes) : Within (shard.markAccessed key) shard := by
  intro node hnode
  obtain ⟨older, holder, rfl⟩ := List.mem_map.mp hnode
  refine ⟨older, holder, ?_⟩
  split_ifs <;> exact ⟨rfl, rfl⟩

/-! ### The budget

The loop over `evictOneLocked` ends with the shard within its limit or empty. -/

theorem length_reprieve (shard : Shard) : shard.reprieve.nodes.length = shard.nodes.length := by
  rw [reprieve]
  split
  · rfl
  · rename_i victim hlast
    have hne : shard.nodes ≠ [] := by
      rintro hnil
      rw [hnil] at hlast
      cases hlast
    have hpos := List.length_pos_iff.mpr hne
    simp only [List.length_cons, List.length_dropLast]
    omega

theorem length_remove_lt {shard : Shard} {victim : CacheNode} (h : victim ∈ shard.nodes) :
    (shard.remove victim).nodes.length < shard.nodes.length := by
  apply List.length_filter_lt_length_iff_exists.mpr
  exact ⟨victim, h, by simp⟩

theorem length_evictWalk_lt {reprieves : Nat} {shard next : Shard}
    (h : evictWalk reprieves shard = some next) : next.nodes.length < shard.nodes.length := by
  induction reprieves generalizing shard with
  | zero =>
      obtain ⟨victim, hvictim, rfl⟩ := Option.map_eq_some_iff.mp h
      exact length_remove_lt (List.mem_of_getLast? hvictim)
  | succ reprieves ih =>
      rw [evictWalk] at h
      split at h
      · cases h
      · rename_i victim hvictim
        split_ifs at h
        · rw [← length_reprieve shard]
          exact ih h
        · obtain rfl := Option.some.inj h
          exact length_remove_lt (List.mem_of_getLast? hvictim)

/-- Only an empty shard has nothing to evict. -/
theorem nodes_eq_nil_of_evictWalk {reprieves : Nat} {shard : Shard}
    (h : evictWalk reprieves shard = none) : shard.nodes = [] := by
  induction reprieves generalizing shard with
  | zero => simpa [evictWalk] using h
  | succ reprieves ih =>
      rw [evictWalk] at h
      split at h
      · rename_i hlast
        exact List.getLast?_eq_none_iff.mp hlast
      · split_ifs at h
        have hlength := length_reprieve shard
        rw [ih h] at hlength
        exact List.length_eq_zero_iff.mp hlength.symm

theorem bytes_evictDownTo_le {limit : UInt64} {rounds : Nat} {shard : Shard}
    (hrounds : shard.nodes.length < rounds) :
    (evictDownTo limit rounds shard).bytes ≤ limit ∨ (evictDownTo limit rounds shard).nodes = [] := by
  induction rounds generalizing shard with
  | zero => exact absurd hrounds (Nat.not_lt_zero _)
  | succ rounds ih =>
      rw [evictDownTo]
      split_ifs with hlimit
      · split
        · rename_i hnone
          exact Or.inr (nodes_eq_nil_of_evictWalk hnone)
        · rename_i next hnext
          have hlength := length_evictWalk_lt hnext
          exact ih (by omega)
      · exact Or.inl (UInt64.not_lt.mp hlimit)

theorem bytes_shrink_le (shard : Shard) (limit : UInt64) :
    (shard.shrink limit).bytes ≤ limit ∨ (shard.shrink limit).nodes = [] :=
  bytes_evictDownTo_le (Nat.lt_succ_self _)

end Shard

/-! ### What the cache holds -/

namespace MemoryCache

variable (hash : Bytes → UInt64)

/-- An entry, expired or not, that a read under its key would look at. -/
def Holds (cache : MemoryCache) (key value : Bytes) : Prop :=
  ∃ node ∈ (cache.shardFor hash key).nodes, node.key = key ∧ node.value = value

variable {hash} {cache : MemoryCache} {ticks : Int64} {key value other held : Bytes}

theorem shardFor_setShard (shard : Shard) :
    (cache.setShard hash other shard).shardFor hash key =
      if cache.shardIndex hash key = cache.shardIndex hash other then shard
      else cache.shardFor hash key := by
  rw [shardFor, setShard, shardIndex]
  split_ifs with hindex
  · rw [← hindex]
    exact Function.update_self ..
  · exact Function.update_of_ne hindex ..

/-- What a cache holds after one of its shards was replaced: an entry of the new
shard, or of an untouched one. -/
theorem Holds.of_setShard {shard : Shard} (h : (cache.setShard hash other shard).Holds hash key value)
    (hshard : ∀ node ∈ shard.nodes, node.key = key → node.value = value →
      cache.shardIndex hash key = cache.shardIndex hash other → cache.Holds hash key value) :
    cache.Holds hash key value := by
  obtain ⟨node, hnode, hkey, hvalue⟩ := h
  rw [shardFor_setShard] at hnode
  split_ifs at hnode with hindex
  · exact hshard node hnode hkey hvalue hindex
  · exact ⟨node, hnode, hkey, hvalue⟩

theorem Holds.of_setShard_within {shard : Shard}
    (h : (cache.setShard hash other shard).Holds hash key value)
    (hwithin : shard.Within (cache.shardFor hash other)) : cache.Holds hash key value := by
  refine h.of_setShard fun node hnode hkey hvalue hindex => ?_
  obtain ⟨older, holder, hkey', hvalue'⟩ := hwithin node hnode
  refine ⟨older, ?_, hkey'.trans hkey, hvalue'.trans hvalue⟩
  rw [shardFor, hindex]
  exact holder

/-- A read returns what the cache holds, and holds no more afterwards. -/
theorem holds_of_get (h : (cache.get hash ticks key).2 = some value) : cache.Holds hash key value := by
  simp only [get] at h
  split at h
  · cases h
  · rename_i node hfind
    split_ifs at h
    obtain rfl := Option.some.inj h
    exact ⟨node, List.mem_of_find?_eq_some hfind, by simpa using List.find?_some hfind, rfl⟩

theorem Holds.of_get (h : (cache.get hash ticks other).1.Holds hash key value) :
    cache.Holds hash key value := by
  simp only [get] at h
  split at h
  · exact h
  · split_ifs at h
    · exact h.of_setShard_within (Shard.within_markAccessed _ _)
    · exact h.of_setShard_within (Shard.within_remove _ _)

theorem Holds.of_del (h : (cache.del hash other).1.Holds hash key value) :
    cache.Holds hash key value := by
  simp only [del] at h
  split at h
  · exact h
  · exact h.of_setShard_within (Shard.within_remove _ _)

/-- Nothing is held under a key after it was deleted. -/
theorem not_holds_del : ¬ (cache.del hash key).1.Holds hash key value := by
  rintro ⟨node, hnode, hkey, -⟩
  simp only [del] at hnode
  split at hnode
  · rename_i hnone
    have hmiss := List.find?_eq_none.mp hnone node hnode
    exact hmiss (decide_eq_true hkey)
  · rename_i found hfind
    rw [shardFor_setShard, if_pos rfl] at hnode
    have hfound : found.key = key := by simpa using List.find?_some hfind
    have hkept := (List.mem_filter.mp hnode).2
    simp [hfound, hkey] at hkept

/-- After a set a key holds the new value or nothing, and every other key no
more than before. -/
theorem Holds.of_set {ttlSeconds : Int64}
    (h : (cache.set hash ticks other held ttlSeconds).Holds hash key value) :
    (key = other ∧ value = held) ∨ (key ≠ other ∧ cache.Holds hash key value) := by
  simp only [set] at h
  split_ifs at h
  · refine Or.inr ⟨?_, h.of_del⟩
    rintro rfl
    exact not_holds_del h
  · obtain ⟨node, hnode, hkey, hvalue⟩ := h
    rw [shardFor_setShard] at hnode
    split_ifs at hnode with hindex
    · obtain ⟨older, holder, hkey', hvalue'⟩ := Shard.within_shrink _ _ node hnode
      rcases List.mem_cons.mp holder with rfl | hrest
      · exact Or.inl ⟨(hkey'.trans hkey).symm, (hvalue'.trans hvalue).symm⟩
      · obtain ⟨holder, hother⟩ := List.mem_filter.mp hrest
        refine Or.inr ⟨?_, older, ?_, hkey'.trans hkey, hvalue'.trans hvalue⟩
        · rintro rfl
          simp [hkey'.trans hkey] at hother
        · rw [shardFor, hindex]
          exact holder
    · refine Or.inr ⟨?_, node, hnode, hkey, hvalue⟩
      rintro rfl
      exact hindex rfl

theorem Holds.of_evict {budgetBytes : UInt64}
    (h : (cache.evict ticks budgetBytes).Holds hash key value) : cache.Holds hash key value := by
  obtain ⟨node, hnode, hkey, hvalue⟩ := h
  obtain ⟨older, holder, hkey', hvalue'⟩ := Shard.within_shrink _ _ node hnode
  exact ⟨older, (List.mem_filter.mp holder).1, hkey'.trans hkey, hvalue'.trans hvalue⟩

theorem not_holds_clear : ¬ cache.clear.Holds hash key value := by
  rintro ⟨node, hnode, -, -⟩
  cases hnode

end MemoryCache

end MonoBucket
