/-
The cache over its linked shards

`MemoryCache` as it is built: so many shards, each with its share of the budget, and every
call on the shard its key hashes to. Followed along its links it is the cache its callers
see, call by call, and every loop that evicts comes to its end on the way.
-/

import Mathlib.Data.List.GetD
import MonoBucket.Lib.Trace
import MonoBucket.Cache.LinkedShard

namespace MonoBucket

/-! ### Options -/

namespace MemoryCache

structure Options where
  maxBytes : UInt64 := 128 * 1024 * 1024
  shards : UInt32 := 8

def kMinShardBudgetBytes : UInt64 := 1024 * 1024

/-- `while (result * 2 <= value) result *= 2`, for so many rounds. -/
def doubleUpTo (value : Nat) : Nat → Nat → Nat
  | 0, result => result
  | rounds + 1, result => if result * 2 ≤ value then doubleUpTo value rounds (result * 2) else result

def floorPowerOfTwo (value : Nat) : Nat := doubleUpTo value value 1

/-- So many shards as asked for, or as the budget is enough for. -/
def Options.shardCount (options : Options) : Nat :=
  let count := if options.shards = 0 then 8 else options.shards.toNat
  let affordable := max 1 (options.maxBytes / kMinShardBudgetBytes)
  floorPowerOfTwo (min (min count 64) affordable.toNat)

def Options.shardBudget (options : Options) : UInt64 :=
  options.maxBytes / options.shardCount.toUInt64

theorem lt_mul_doubleUpTo {value rounds result : Nat} (h : value < result * 2 ^ rounds * 2) :
    value < doubleUpTo value rounds result * 2 := by
  induction rounds generalizing result with
  | zero => simpa [doubleUpTo] using h
  | succ rounds ih =>
      rw [doubleUpTo]
      split_ifs with hmore
      · refine ih ?_
        rw [pow_succ] at h
        calc value < result * (2 ^ rounds * 2) * 2 := h
          _ = result * 2 * 2 ^ rounds * 2 := by ring
      · omega

/-- The loop ends where doubling once more would be too much. -/
theorem lt_floorPowerOfTwo (value : Nat) : value < floorPowerOfTwo value * 2 := by
  apply lt_mul_doubleUpTo
  have hpow : value < 2 ^ value := Nat.lt_two_pow_self
  omega

theorem doubleUpTo_mem_Icc {value rounds result : Nat} (hpos : 0 < result)
    (hle : result ≤ max 1 value) :
    0 < doubleUpTo value rounds result ∧ doubleUpTo value rounds result ≤ max 1 value := by
  induction rounds generalizing result with
  | zero => exact ⟨hpos, hle⟩
  | succ rounds ih =>
      rw [doubleUpTo]
      split_ifs with hmore
      · exact ih (by omega) (by omega)
      · exact ⟨hpos, hle⟩

theorem Options.shardCount_mem_Icc (options : Options) :
    0 < options.shardCount ∧ options.shardCount ≤ 64 := by
  obtain ⟨hpos, hle⟩ := @doubleUpTo_mem_Icc _ _ _ Nat.one_pos (le_max_left 1 _)
  refine ⟨hpos, hle.trans ?_⟩
  omega

/-- A cache with nothing in it. -/
def new (options : Options) : MemoryCache where
  shards _ := { budget := options.shardBudget }
  shardMask := (options.shardCount - 1).toUInt64

end MemoryCache

/-! ### Calls -/

inductive CacheCall
  | get (key : Bytes)
  | set (key : Bytes) (value : Option Bytes) (ttlSeconds : Int64)
  | del (key : Bytes)
  | evict (budgetBytes : UInt64)
  | clear

/-- What an entry is charged. -/
def entryBytes (key value : Bytes) : UInt64 :=
  key.length.toUInt64 + value.length.toUInt64 + MemoryCache.kEntryOverheadBytes

structure LinkedCache where
  shards : List LinkedShard
  shardMask : UInt64

namespace LinkedCache

def new (options : MemoryCache.Options) : LinkedCache where
  shards := List.replicate options.shardCount { budget := options.shardBudget }
  shardMask := (options.shardCount - 1).toUInt64

section Operations

variable (hash : Bytes → UInt64) (cache : LinkedCache) (ticks : Int64)

def shardIndex (key : Bytes) : Nat := (hash key &&& cache.shardMask).toNat

def shardFor (key : Bytes) : LinkedShard := cache.shards.getD (cache.shardIndex hash key) {}

def setShard (key : Bytes) (shard : LinkedShard) : LinkedCache :=
  { cache with shards := cache.shards.set (cache.shardIndex hash key) shard }

def get (key : Bytes) : LinkedCache × Option Bytes :=
  let (shard, value) := (cache.shardFor hash key).get ticks key
  (cache.setShard hash key shard, value)

def del (key : Bytes) : LinkedCache := cache.setShard hash key ((cache.shardFor hash key).del key)

def set (key value : Bytes) (ttlSeconds : Int64) : Option LinkedCache :=
  ((cache.shardFor hash key).set
    ⟨key, value, entryBytes key value, MemoryCache.expiryFrom ticks ttlSeconds, false⟩).map
    (cache.setShard hash key)

def evict (budgetBytes : UInt64) : Option LinkedCache :=
  (cache.shards.mapM fun shard : LinkedShard =>
    shard.evict ticks (budgetBytes / cache.shards.length.toUInt64)).map
    fun shards => { cache with shards := shards }

def clear : LinkedCache := { cache with shards := cache.shards.map LinkedShard.clear }

/-- One call, at one reading of the clock: the cache after it, unless a loop does not end,
and what it returns. A set of no value deletes. -/
def serve : CacheCall → Option (LinkedCache × Option Bytes)
  | .get key => some (cache.get hash ticks key)
  | .set key none _ => some (cache.del hash key, none)
  | .set key (some value) ttlSeconds => (cache.set hash ticks key value ttlSeconds).map (·, none)
  | .del key => some (cache.del hash key, none)
  | .evict budgetBytes => (cache.evict ticks budgetBytes).map (·, none)
  | .clear => some (cache.clear, none)

def step (call : Int64 × CacheCall) : Option LinkedCache :=
  (cache.serve hash call.1 call.2).map Prod.fst

end Operations

end LinkedCache

/-! ### The same calls on the cache its callers see -/

namespace MemoryCache

variable (hash : Bytes → UInt64) (cache : MemoryCache) (ticks : Int64)

def serve : CacheCall → MemoryCache × Option Bytes
  | .get key => cache.get hash ticks key
  | .set key none _ => ((cache.del hash key).1, none)
  | .set key (some value) ttlSeconds => (cache.set hash ticks key value ttlSeconds, none)
  | .del key => ((cache.del hash key).1, none)
  | .evict budgetBytes => (cache.evict ticks budgetBytes, none)
  | .clear => (cache.clear, none)

end MemoryCache

namespace LinkedCache

/-- Read along their links the shards are those of this cache. -/
structure Refines (linked : LinkedCache) (cache : MemoryCache) : Prop where
  mask : cache.shardMask = linked.shardMask
  length : linked.shards.length = linked.shardMask.toNat + 1
  shards : ∀ (index : Nat) (h : index < linked.shards.length),
    ∃ ids, linked.shards[index].Refines (cache.shards index.toUInt64) ids

variable {hash : Bytes → UInt64} {linked : LinkedCache} {cache : MemoryCache} {ticks : Int64}
  {key : Bytes}

theorem refines_new (options : MemoryCache.Options) : (new options).Refines (MemoryCache.new options) where
  mask := rfl
  length := by
    obtain ⟨hpos, hle⟩ := options.shardCount_mem_Icc
    simp only [new, List.length_replicate]
    rw [Nat.toUInt64_eq, UInt64.toNat_ofNat_of_lt' (by
      have hsize : UInt64.size = 2 ^ 64 := rfl
      omega)]
    omega
  shards index h := by
    refine ⟨[], ?_⟩
    simp only [new, List.getElem_replicate]
    exact ⟨LinkedShard.sound_empty _, rfl, rfl, rfl⟩

theorem Refines.shardIndex (h : linked.Refines cache) (hash : Bytes → UInt64) (key : Bytes) :
    linked.shardIndex hash key = (cache.shardIndex hash key).toNat ∧
      linked.shardIndex hash key < linked.shards.length := by
  rw [LinkedCache.shardIndex, MemoryCache.shardIndex, h.mask, h.length]
  refine ⟨rfl, Nat.lt_succ_of_le ?_⟩
  rw [UInt64.toNat_and]
  exact Nat.and_le_right

theorem Refines.shardFor (h : linked.Refines cache) (hash : Bytes → UInt64) (key : Bytes) :
    ∃ ids, (linked.shardFor hash key).Refines (cache.shardFor hash key) ids := by
  obtain ⟨hindex, hlt⟩ := h.shardIndex hash key
  obtain ⟨ids, hids⟩ := h.shards _ hlt
  have hsame : (linked.shardIndex hash key).toUInt64 = cache.shardIndex hash key := by
    rw [hindex, Nat.toUInt64_eq, UInt64.ofNat_toNat]
  rw [hsame] at hids
  refine ⟨ids, ?_⟩
  rw [LinkedCache.shardFor, List.getD_eq_getElem _ _ hlt, MemoryCache.shardFor]
  exact hids

theorem Refines.setShard (h : linked.Refines cache) {shard : LinkedShard} {after : Shard}
    {ids : List Nat} (hshard : shard.Refines after ids) :
    (linked.setShard hash key shard).Refines (cache.setShard hash key after) where
  mask := h.mask
  length := by
    rw [LinkedCache.setShard, List.length_set]
    exact h.length
  shards index hindex := by
    obtain ⟨htoNat, hlt⟩ := h.shardIndex hash key
    have hsize : index < UInt64.size := by
      rw [LinkedCache.setShard, List.length_set, h.length] at hindex
      exact hindex.trans_le (Nat.succ_le_of_lt linked.shardMask.toNat_lt)
    simp only [LinkedCache.setShard, MemoryCache.setShard, List.getElem_set]
    split_ifs with hsame
    · refine ⟨ids, ?_⟩
      rw [← hsame, htoNat, Nat.toUInt64_eq, UInt64.ofNat_toNat, Function.update_self]
      exact hshard
    · have hne : index.toUInt64 ≠ cache.shardIndex hash key := by
        intro heq
        apply hsame
        rw [htoNat, ← heq, Nat.toUInt64_eq, UInt64.toNat_ofNat_of_lt' hsize]
      rw [Function.update_of_ne hne]
      exact h.shards index (by simpa [LinkedCache.setShard] using hindex)

/-- A shard that reads as before, put back. -/
theorem Refines.setShard_same (h : linked.Refines cache) {shard : LinkedShard} {ids : List Nat}
    (hshard : shard.Refines (cache.shardFor hash key) ids) :
    (linked.setShard hash key shard).Refines cache := by
  have hset : (linked.setShard hash key shard).Refines
      (cache.setShard hash key (cache.shardFor hash key)) := h.setShard hshard
  rwa [MemoryCache.setShard, MemoryCache.shardFor, Function.update_eq_self] at hset

/-- Where a step succeeds at every place of a list, it does so along the list. -/
theorem mapM_of_forall_some {α β : Type} {xs : List α} {f : α → Option β} {P : Nat → β → Prop}
    (h : ∀ (index : Nat) (hindex : index < xs.length), ∃ y, f xs[index] = some y ∧ P index y) :
    ∃ ys, xs.mapM f = some ys ∧ ys.length = xs.length ∧
      ∀ (index : Nat) (hindex : index < ys.length), P index ys[index] := by
  induction xs generalizing P with
  | nil => exact ⟨[], rfl, rfl, fun index hindex => absurd hindex (Nat.not_lt_zero _)⟩
  | cons x xs ih =>
      obtain ⟨y, hy, hP⟩ := h 0 (Nat.zero_lt_succ _)
      obtain ⟨ys, hys, hlength, hall⟩ := @ih (fun index => P (index + 1)) fun index hindex =>
        h (index + 1) (Nat.succ_lt_succ hindex)
      rw [List.getElem_cons_zero] at hy
      refine ⟨y :: ys, ?_, congrArg Nat.succ hlength, fun index hindex => ?_⟩
      · rw [List.mapM_cons, hy, hys]
        rfl
      · cases index with
        | zero => exact hP
        | succ index => exact hall index (Nat.lt_of_succ_lt_succ hindex)

/-! The calls -/

theorem Refines.get (h : linked.Refines cache) (hash : Bytes → UInt64) (ticks : Int64) (key : Bytes) :
    (linked.get hash ticks key).1.Refines (cache.get hash ticks key).1 ∧
      (linked.get hash ticks key).2 = (cache.get hash ticks key).2 := by
  obtain ⟨ids, hshard⟩ := h.shardFor hash key
  have hread := hshard.get ticks key
  cases hfind : (cache.shardFor hash key).find? key with
  | none =>
      simp only [hfind] at hread
      simp only [LinkedCache.get, MemoryCache.get, hfind, hread]
      exact ⟨h.setShard_same hshard, trivial⟩
  | some cell =>
      simp only [hfind] at hread
      obtain ⟨rest, hrest, hvalue⟩ := hread
      simp only [LinkedCache.get, MemoryCache.get, hfind, hvalue]
      split_ifs at hrest ⊢
      · exact ⟨h.setShard hrest, rfl⟩
      · exact ⟨h.setShard hrest, rfl⟩

theorem Refines.del (h : linked.Refines cache) (hash : Bytes → UInt64) (key : Bytes) :
    (linked.del hash key).Refines (cache.del hash key).1 := by
  obtain ⟨ids, hshard⟩ := h.shardFor hash key
  obtain ⟨rest, hrest⟩ := hshard.del key
  simp only [LinkedCache.del, MemoryCache.del]
  cases hfind : (cache.shardFor hash key).find? key with
  | none =>
      rw [hfind] at hrest
      exact h.setShard_same hrest
  | some cell =>
      rw [hfind] at hrest
      exact h.setShard hrest

theorem Refines.set (h : linked.Refines cache) (hash : Bytes → UInt64) (ticks : Int64)
    (key value : Bytes) (ttlSeconds : Int64) :
    ∃ next, linked.set hash ticks key value ttlSeconds = some next ∧
      next.Refines (cache.set hash ticks key value ttlSeconds) := by
  obtain ⟨ids, hshard⟩ := h.shardFor hash key
  simp only [LinkedCache.set, LinkedShard.set, MemoryCache.set, ← hshard.budget]
  split_ifs with hbudget hother hother
  · exact ⟨_, rfl, h.del hash key⟩
  · exact absurd hbudget hother
  · exact absurd hother hbudget
  · obtain ⟨rest, hplaced⟩ := hshard.place
      ⟨key, value, entryBytes key value, MemoryCache.expiryFrom ticks ttlSeconds, false⟩
    obtain ⟨next, last, hnext, hrefines⟩ := hplaced.shrink (cache.shardFor hash key).budget
    rw [hnext]
    exact ⟨_, rfl, h.setShard hrefines⟩

theorem Refines.clear (h : linked.Refines cache) : linked.clear.Refines cache.clear where
  mask := h.mask
  length := by
    rw [LinkedCache.clear, List.length_map]
    exact h.length
  shards index hindex := by
    obtain ⟨ids, hshard⟩ := h.shards index (by simpa [LinkedCache.clear] using hindex)
    simp only [LinkedCache.clear, List.getElem_map]
    exact ⟨[], hshard.clear⟩

theorem Refines.evict (h : linked.Refines cache) (ticks : Int64) (budgetBytes : UInt64) :
    ∃ next, linked.evict ticks budgetBytes = some next ∧
      next.Refines (cache.evict ticks budgetBytes) := by
  have hcount : linked.shards.length.toUInt64 = cache.shardMask + 1 := by
    rw [h.length, h.mask, Nat.toUInt64_eq, UInt64.ofNat_add, UInt64.ofNat_toNat]
    rfl
  obtain ⟨shards, hshards, hlength, hevicted⟩ := @mapM_of_forall_some _ _ linked.shards
    (fun shard => shard.evict ticks (budgetBytes / linked.shards.length.toUInt64))
    (fun index next => ∃ ids, next.Refines (((cache.shards index.toUInt64).purgeExpired ticks).shrink
      (budgetBytes / linked.shards.length.toUInt64)) ids) fun index hindex => by
        obtain ⟨ids, hids⟩ := h.shards index hindex
        obtain ⟨next, rest, hnext, hrefines⟩ := hids.evict ticks _
        exact ⟨next, hnext, rest, hrefines⟩
  refine ⟨{ linked with shards := shards }, ?_, h.mask, hlength.trans h.length, fun index hindex => ?_⟩
  · rw [LinkedCache.evict, hshards]
    rfl
  · obtain ⟨rest, hrest⟩ := hevicted index hindex
    rw [hcount] at hrest
    exact ⟨rest, hrest⟩

/-- Call by call, the linked cache is the one its callers see. -/
theorem Refines.serve (h : linked.Refines cache) (hash : Bytes → UInt64) (ticks : Int64)
    (call : CacheCall) :
    ∃ next, linked.serve hash ticks call = some (next, (cache.serve hash ticks call).2) ∧
      next.Refines (cache.serve hash ticks call).1 := by
  cases call with
  | get key =>
      obtain ⟨hrefines, hvalue⟩ := h.get hash ticks key
      refine ⟨_, ?_, hrefines⟩
      rw [LinkedCache.serve, MemoryCache.serve, ← hvalue]
  | set key value ttlSeconds =>
      cases value with
      | none => exact ⟨_, rfl, h.del hash key⟩
      | some value =>
          obtain ⟨next, hnext, hrefines⟩ := h.set hash ticks key value ttlSeconds
          refine ⟨next, ?_, hrefines⟩
          rw [LinkedCache.serve, hnext]
          rfl
  | del key => exact ⟨_, rfl, h.del hash key⟩
  | evict budgetBytes =>
      obtain ⟨next, hnext, hrefines⟩ := h.evict ticks budgetBytes
      refine ⟨next, ?_, hrefines⟩
      rw [LinkedCache.serve, hnext]
      rfl
  | clear => exact ⟨_, rfl, h.clear⟩

end LinkedCache

end MonoBucket
