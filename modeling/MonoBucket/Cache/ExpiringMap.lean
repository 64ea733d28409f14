/-
The cache as an expiring map

What a key was last set to is remembered with the reading of the clock and the time to
live of that set, until it is deleted, cleared or set to a value too large for its shard.
A read returns what is remembered or nothing, whatever the calls between were, and every
shard stays linked as it should be.

A deadline is a signed 64-bit number of milliseconds. A negative time to live that is far
enough in the past takes it below the smallest of them, and it is then one far in the
future: such an entry is read long after its deadline. The byte counter is 64 bits wide as
well, and is the sum of the entries' bytes as long as that sum is.
-/

import MonoBucket.Cache.LinkedCache

namespace MonoBucket

/-! ### What is remembered -/

/-- Under a key the value last set, when that was and for how long. -/
abbrev CacheMemory := Bytes → Option (Bytes × Int64 × Int64)

def remember (budget : UInt64) (memory : CacheMemory) : Int64 × CacheCall → CacheMemory
  | (ticks, .set key (some value) ttlSeconds) =>
    Function.update memory key
      (if budget < entryBytes key value then none else some (value, ticks, ttlSeconds))
  | (_, .set key none _) => Function.update memory key none
  | (_, .del key) => Function.update memory key none
  | (_, .clear) => fun _ => none
  | (_, .get _) => memory
  | (_, .evict _) => memory

/-- What so many calls on an empty cache leave to be remembered. -/
def rememberAll (budget : UInt64) (calls : List (Int64 × CacheCall)) : CacheMemory :=
  calls.foldl (remember budget) fun _ => none

namespace Shard

variable {index : Bytes → UInt64} {memory : CacheMemory} {place : UInt64} {shard after : Shard}
  {key : Bytes} {found : Option (Bytes × Int64 × Int64)} {budget : UInt64}

/-- Every entry is remembered as it is, and in the shard its key hashes to. -/
def Remembered (index : Bytes → UInt64) (memory : CacheMemory) (place : UInt64) (shard : Shard) :
    Prop :=
  ∀ node ∈ shard.nodes, index node.key = place ∧ ∃ ticks ttlSeconds,
    memory node.key = some (node.value, ticks, ttlSeconds) ∧
      node.expiresAt = MemoryCache.expiryFrom ticks ttlSeconds

theorem Remembered.kept (h : shard.Remembered index memory place) (hkept : Kept after shard) :
    after.Remembered index memory place := by
  intro node hnode
  obtain ⟨older, holder, hcold⟩ := hkept.exists_cold hnode
  have hkey : (cold older).key = (cold node).key := congrArg CacheNode.key hcold
  have hvalue : (cold older).value = (cold node).value := congrArg CacheNode.value hcold
  have hexpires : (cold older).expiresAt = (cold node).expiresAt :=
    congrArg CacheNode.expiresAt hcold
  simp only [cold] at hkey hvalue hexpires
  rw [← hkey, ← hvalue, ← hexpires]
  exact h older holder

/-- What is remembered under a key is nothing to a shard that has no entry under it. -/
theorem Remembered.update (h : shard.Remembered index memory place)
    (hother : ∀ node ∈ shard.nodes, node.key ≠ key) :
    shard.Remembered index (Function.update memory key found) place := by
  intro node hnode
  rw [Function.update_of_ne (hother node hnode)]
  exact h node hnode

theorem Remembered.remove (h : shard.Remembered index memory place) (node : CacheNode) :
    (shard.remove node).Remembered index (Function.update memory node.key found) place := by
  refine (h.kept (kept_remove shard node)).update fun other hother => ?_
  exact of_decide_eq_true (List.mem_filter.mp hother).2

theorem Remembered.insert (h : shard.Remembered index memory place) (node : CacheNode)
    {ticks ttlSeconds : Int64} (hindex : index node.key = place)
    (hexpires : node.expiresAt = MemoryCache.expiryFrom ticks ttlSeconds) :
    (shard.insert node).Remembered index
      (Function.update memory node.key (some (node.value, ticks, ttlSeconds))) place := by
  intro other hother
  rcases List.mem_cons.mp hother with rfl | hother
  · exact ⟨hindex, ticks, ttlSeconds, Function.update_self .., hexpires⟩
  · exact h.remove node other hother

/-! The bytes, as natural numbers -/

/-- The entries' bytes come to no more than the budget, and the counter to their sum. -/
structure Fits (budget : UInt64) (shard : Shard) : Prop where
  counted : shard.Counted
  total_le : total shard.nodes ≤ budget.toNat
  budget_eq : shard.budget = budget

theorem Fits.kept (h : shard.Fits budget) (hkept : Kept after shard) (hcounted : after.Counted)
    (hbudget : after.budget = shard.budget) : after.Fits budget :=
  ⟨hcounted, hkept.total_le.trans h.total_le, hbudget.trans h.budget_eq⟩

theorem Fits.bytes_le (h : shard.Fits budget) :
    shard.bytes.toNat = total shard.nodes ∧ shard.bytes ≤ budget := by
  have hbytes := h.counted.toNat_bytes (h.total_le.trans_lt budget.toNat_lt)
  refine ⟨hbytes, UInt64.le_iff_toNat_le.mpr ?_⟩
  rw [hbytes]
  exact h.total_le

theorem budget_evictWalk {reprieves : Nat} {next : Shard} (h : evictWalk reprieves shard = some next) :
    next.budget = shard.budget := by
  induction reprieves generalizing shard with
  | zero =>
      obtain ⟨victim, -, rfl⟩ := Option.map_eq_some_iff.mp h
      rfl
  | succ reprieves ih =>
      rw [evictWalk] at h
      split at h
      · cases h
      · rename_i victim hvictim
        split_ifs at h
        · rw [ih h, (nodes_reprieve hvictim).2.2]
        · obtain rfl := Option.some.inj h
          rfl

theorem budget_evictDownTo (limit : UInt64) (rounds : Nat) (shard : Shard) :
    (evictDownTo limit rounds shard).budget = shard.budget := by
  induction rounds generalizing shard with
  | zero => rfl
  | succ rounds ih =>
      rw [evictDownTo]
      split_ifs
      · split
        · rfl
        · rename_i next hnext
          rw [ih, budget_evictWalk hnext]
      · rfl

theorem budget_shrink (shard : Shard) (limit : UInt64) : (shard.shrink limit).budget = shard.budget :=
  budget_evictDownTo limit _ shard

/-- Shrinking to the budget is enough where the counter is the sum. -/
theorem fits_shrink (hcounted : shard.Counted) (htotal : total shard.nodes < 2 ^ 64) :
    (shard.shrink shard.budget).Fits shard.budget := by
  have hafter := hcounted.shrink shard.budget
  have hle := (kept_shrink shard shard.budget).total_le
  refine ⟨hafter, ?_, budget_shrink shard _⟩
  rcases bytes_shrink_le shard shard.budget with hbytes | hnil
  · rw [← hafter.toNat_bytes (hle.trans_lt htotal)]
    exact UInt64.le_iff_toNat_le.mp hbytes
  · rw [hnil]
    exact Nat.zero_le _

end Shard

/-! ### The cache its callers see -/

namespace MemoryCache

variable {hash : Bytes → UInt64} {cache : MemoryCache} {memory : CacheMemory} {budget : UInt64}
  {key : Bytes}

/-- The cache after so many calls. -/
def after (hash : Bytes → UInt64) (cache : MemoryCache) (calls : List (Int64 × CacheCall)) :
    MemoryCache :=
  calls.foldl (fun cache call => (cache.serve hash call.1 call.2).1) cache

def Remembers (hash : Bytes → UInt64) (memory : CacheMemory) (cache : MemoryCache) : Prop :=
  ∀ place, (cache.shards place).Remembered (cache.shardIndex hash) memory place

theorem Remembers.setShard (h : cache.Remembers hash memory) {shard : Shard}
    {found : Option (Bytes × Int64 × Int64)}
    (hshard : shard.Remembered (cache.shardIndex hash) (Function.update memory key found)
      (cache.shardIndex hash key)) :
    (cache.setShard hash key shard).Remembers hash (Function.update memory key found) := by
  intro place
  rcases eq_or_ne place (cache.shardIndex hash key) with rfl | hne
  · simp only [MemoryCache.setShard, Function.update_self]
    exact hshard
  · simp only [MemoryCache.setShard, Function.update_of_ne hne]
    refine (h place).update fun node hnode hkey => hne ?_
    rw [← (h place node hnode).1, hkey]

/-- What is remembered of a key stays so where its shard is replaced by part of it. -/
theorem Remembers.setShard_kept (h : cache.Remembers hash memory) {shard : Shard}
    (hkept : Shard.Kept shard (cache.shardFor hash key)) :
    (cache.setShard hash key shard).Remembers hash memory := by
  have hshard : shard.Remembered (cache.shardIndex hash) (Function.update memory key (memory key))
      (cache.shardIndex hash key) := by
    rw [Function.update_eq_self]
    exact (h _).kept hkept
  have hset := h.setShard hshard
  rwa [Function.update_eq_self] at hset

theorem Remembers.get (h : cache.Remembers hash memory) (ticks : Int64) (key : Bytes) :
    (cache.get hash ticks key).1.Remembers hash memory := by
  simp only [MemoryCache.get]
  split
  · exact h
  · split_ifs
    · exact h.setShard_kept (Shard.kept_markAccessed _ key)
    · exact h.setShard_kept (Shard.kept_remove _ _)

theorem Remembers.del (h : cache.Remembers hash memory) (key : Bytes) :
    (cache.del hash key).1.Remembers hash (Function.update memory key none) := by
  simp only [MemoryCache.del]
  split
  · rename_i hnone
    intro place
    refine (h place).update fun node hnode hkey => ?_
    have hplace := (h place node hnode).1
    rw [hkey] at hplace
    have hmiss := List.find?_eq_none.mp hnone node (by rw [shardFor, hplace]; exact hnode)
    exact hmiss (decide_eq_true hkey)
  · rename_i found hfound
    have hkey : found.key = key := by simpa using List.find?_some hfound
    refine h.setShard ?_
    rw [← hkey]
    exact (h _).remove found

theorem set_eq (ticks : Int64) (key value : Bytes) (ttlSeconds : Int64) :
    cache.set hash ticks key value ttlSeconds =
      if (cache.shardFor hash key).budget < entryBytes key value then (cache.del hash key).1
      else cache.setShard hash key (((cache.shardFor hash key).insert
        ⟨key, value, entryBytes key value, expiryFrom ticks ttlSeconds, false⟩).shrink
          (cache.shardFor hash key).budget) := rfl

theorem Remembers.set (h : cache.Remembers hash memory) (ticks : Int64) (key value : Bytes)
    (ttlSeconds : Int64) (hbudget : (cache.shardFor hash key).budget = budget) :
    (cache.set hash ticks key value ttlSeconds).Remembers hash
      (remember budget memory (ticks, .set key (some value) ttlSeconds)) := by
  rw [remember, ← hbudget, set_eq]
  split_ifs with hlarge
  · exact h.del key
  · refine h.setShard ?_
    have hinsert := (h (cache.shardIndex hash key)).insert
      ⟨key, value, entryBytes key value, expiryFrom ticks ttlSeconds, false⟩ rfl rfl
    exact hinsert.kept (Shard.kept_shrink _ _)

theorem Remembers.evict (h : cache.Remembers hash memory) (ticks : Int64) (budgetBytes : UInt64) :
    (cache.evict ticks budgetBytes).Remembers hash memory := fun place =>
  (h place).kept ((Shard.kept_shrink _ _).trans (Shard.kept_purgeExpired _ ticks))

/-- Every call leaves remembered what it should. -/
theorem Remembers.serve (h : cache.Remembers hash memory) (ticks : Int64) (call : CacheCall)
    (hbudget : ∀ place, (cache.shards place).budget = budget) :
    (cache.serve hash ticks call).1.Remembers hash (remember budget memory (ticks, call)) := by
  cases call with
  | get key => exact h.get ticks key
  | set key value ttlSeconds =>
      cases value with
      | none => exact h.del key
      | some value => exact h.set ticks key value ttlSeconds (hbudget _)
  | del key => exact h.del key
  | evict budgetBytes => exact h.evict ticks budgetBytes
  | clear => exact fun place node hnode => nomatch hnode

/-! The budgets -/

theorem budget_setShard {shard : Shard} (h : ∀ place, (cache.shards place).budget = budget)
    (hshard : shard.budget = budget) (place : UInt64) :
    ((cache.setShard hash key shard).shards place).budget = budget := by
  rcases eq_or_ne place (cache.shardIndex hash key) with rfl | hne
  · simp only [MemoryCache.setShard, Function.update_self]
    exact hshard
  · simp only [MemoryCache.setShard, Function.update_of_ne hne]
    exact h place

theorem budget_del (h : ∀ place, (cache.shards place).budget = budget) (key : Bytes)
    (place : UInt64) : ((cache.del hash key).1.shards place).budget = budget := by
  simp only [MemoryCache.del]
  split
  · exact h place
  · refine budget_setShard h ?_ place
    exact h _

theorem budget_serve (h : ∀ place, (cache.shards place).budget = budget) (ticks : Int64)
    (call : CacheCall) (place : UInt64) :
    ((cache.serve hash ticks call).1.shards place).budget = budget := by
  cases call with
  | get key =>
      simp only [MemoryCache.serve, MemoryCache.get]
      split
      · exact h place
      · split_ifs
        · refine budget_setShard h ?_ place
          exact h _
        · refine budget_setShard h ?_ place
          exact h _
  | set key value ttlSeconds =>
      cases value with
      | none => exact budget_del h key place
      | some value =>
          rw [MemoryCache.serve, set_eq]
          split_ifs
          · exact budget_del h key place
          · refine budget_setShard h ?_ place
            rw [Shard.budget_shrink]
            exact h _
  | del key => exact budget_del h key place
  | evict budgetBytes => exact (Shard.budget_shrink _ _).trans (h place)
  | clear => exact h place

theorem budget_after (h : ∀ place, (cache.shards place).budget = budget)
    (calls : List (Int64 × CacheCall)) (place : UInt64) :
    ((cache.after hash calls).shards place).budget = budget := by
  induction calls generalizing cache with
  | nil => exact h place
  | cons call calls ih => exact ih (budget_serve h call.1 call.2)

/-! The bytes -/

theorem fits_setShard {shard : Shard} (h : ∀ place, (cache.shards place).Fits budget)
    (hshard : shard.Fits budget) (place : UInt64) :
    ((cache.setShard hash key shard).shards place).Fits budget := by
  rcases eq_or_ne place (cache.shardIndex hash key) with rfl | hne
  · simp only [MemoryCache.setShard, Function.update_self]
    exact hshard
  · simp only [MemoryCache.setShard, Function.update_of_ne hne]
    exact h place

theorem fits_del (h : ∀ place, (cache.shards place).Fits budget) (key : Bytes) (place : UInt64) :
    ((cache.del hash key).1.shards place).Fits budget := by
  simp only [MemoryCache.del]
  split
  · exact h place
  · rename_i node hfind
    have hshard : (cache.shardFor hash key).Fits budget := h _
    exact fits_setShard h (hshard.kept (Shard.kept_remove _ _)
      (hshard.counted.remove (List.mem_of_find?_eq_some hfind)) rfl) place

theorem fits_get (h : ∀ place, (cache.shards place).Fits budget) (ticks : Int64) (key : Bytes)
    (place : UInt64) : ((cache.get hash ticks key).1.shards place).Fits budget := by
  have hshard : (cache.shardFor hash key).Fits budget := h _
  simp only [MemoryCache.get]
  split
  · exact h place
  · rename_i node hfind
    split_ifs
    · exact fits_setShard h (hshard.kept (Shard.kept_markAccessed _ key)
        (hshard.counted.markAccessed key) rfl) place
    · exact fits_setShard h (hshard.kept (Shard.kept_remove _ _)
        (hshard.counted.remove (List.mem_of_find?_eq_some hfind)) rfl) place

/-- A set keeps within the budget what stays below 2^64 on the way. -/
theorem fits_set (h : ∀ place, (cache.shards place).Fits budget) (ticks : Int64) (key value : Bytes)
    (ttlSeconds : Int64)
    (hroom : entryBytes key value ≤ budget →
      Shard.total ((cache.shardFor hash key).nodes.filter fun other => other.key ≠ key) +
        (entryBytes key value).toNat < 2 ^ 64) (place : UInt64) :
    ((cache.set hash ticks key value ttlSeconds).shards place).Fits budget := by
  have hshard : (cache.shardFor hash key).Fits budget := h _
  rw [set_eq]
  split_ifs with hlarge
  · exact fits_del h key place
  · refine fits_setShard h ?_ place
    rw [hshard.budget_eq] at hlarge
    have hcounted := hshard.counted.insert
      ⟨key, value, entryBytes key value, expiryFrom ticks ttlSeconds, false⟩
    have hfits := Shard.fits_shrink hcounted (by
      rw [Shard.nodes_insert, Shard.total_cons, add_comm]
      exact hroom (UInt64.not_lt.mp hlarge))
    rw [← hshard.budget_eq]
    exact hfits

theorem fits_evict (h : ∀ place, (cache.shards place).Fits budget) (ticks : Int64)
    (budgetBytes : UInt64) (place : UInt64) :
    ((cache.evict ticks budgetBytes).shards place).Fits budget :=
  (h place).kept ((Shard.kept_shrink _ _).trans (Shard.kept_purgeExpired _ ticks))
    (((h place).counted.purgeExpired ticks).shrink _) (Shard.budget_shrink _ _)

/-! The deadlines -/

theorem toInt_expiryFrom (ticks ttlSeconds : Int64) (h : ttlSeconds ≠ 0) :
    (expiryFrom ticks ttlSeconds).toInt =
      (ticks.toInt + 1000 * ttlSeconds.toInt).bmod (2 ^ 64) := by
  have hthousand : (1000 : Int64).toInt = 1000 := rfl
  rw [expiryFrom, if_neg h, Int64.toInt_add, Int64.toInt_mul, Int.add_bmod_bmod, hthousand,
    mul_comm]

/-- A deadline that 64 bits can hold from below is not put off. -/
theorem toInt_expiryFrom_le {ticks ttlSeconds : Int64} (h : ttlSeconds ≠ 0)
    (hdeadline : -2 ^ 63 ≤ ticks.toInt + 1000 * ttlSeconds.toInt) :
    (expiryFrom ticks ttlSeconds).toInt ≤ ticks.toInt + 1000 * ttlSeconds.toInt := by
  rw [toInt_expiryFrom ticks ttlSeconds h, Int.bmod_def]
  omega

end MemoryCache

/-! ### Runs of the linked cache -/

namespace LinkedShard

/-- What all entries are charged. -/
def charged (shard : LinkedShard) : Nat :=
  (shard.map.map fun entry => (shard.cells entry.2).bytes.toNat).sum

theorem Refines.charged {linked : LinkedShard} {shard : Shard} {ids : List Nat}
    (h : linked.Refines shard ids) : linked.charged = Shard.total shard.nodes := by
  have hperm := h.sound.mapped.map fun entry => (linked.cells entry.2).bytes.toNat
  rw [LinkedShard.charged, hperm.sum_eq, Shard.total, h.nodes, List.map_map, List.map_map]
  rfl

end LinkedShard

namespace LinkedCache

variable {hash : Bytes → UInt64} {linked final : LinkedCache} {cache : MemoryCache}
  {memory : CacheMemory} {budget : UInt64} {calls : List (Int64 × CacheCall)}

/-- A set that is not refused has a deadline no lower than the smallest 64 bits hold, and
takes what its shard is charged to no more than they hold. -/
def Orderly (hash : Bytes → UInt64) (cache : LinkedCache) (call : Int64 × CacheCall) : Prop :=
  match call.2 with
  | .set key (some value) ttlSeconds =>
    entryBytes key value ≤ (cache.shardFor hash key).budget →
      (ttlSeconds ≠ 0 → -2 ^ 63 ≤ call.1.toInt + 1000 * ttlSeconds.toInt) ∧
        (cache.shardFor hash key).chargedBeside key + (entryBytes key value).toNat < 2 ^ 64
  | _ => True

/-- Every call is served, and the shards read along their links go with the cache. -/
theorem Refines.run (h : linked.Refines cache) (hash : Bytes → UInt64)
    (calls : List (Int64 × CacheCall)) :
    ∃ final, Trace.run (step hash) linked calls = some final ∧ final.Refines (cache.after hash calls) := by
  induction calls generalizing linked cache with
  | nil => exact ⟨linked, rfl, h⟩
  | cons call calls ih =>
      obtain ⟨next, hnext, hrefines⟩ := h.serve hash call.1 call.2
      obtain ⟨final, hfinal, hafter⟩ := ih hrefines
      refine ⟨final, ?_, hafter⟩
      rw [Trace.run_cons, step, hnext]
      exact hfinal

theorem Refines.of_step (h : linked.Refines cache) {call : Int64 × CacheCall}
    (hstep : step hash linked call = some final) : final.Refines (cache.serve hash call.1 call.2).1 := by
  obtain ⟨next, hnext, hrefines⟩ := h.serve hash call.1 call.2
  rw [step, hnext] at hstep
  obtain rfl := Option.some.inj hstep
  exact hrefines

/-- An orderly call keeps every shard within its budget. -/
theorem Refines.fits_serve (h : linked.Refines cache) {call : Int64 × CacheCall}
    (hcall : linked.Orderly hash call) (hfits : ∀ place, (cache.shards place).Fits budget)
    (place : UInt64) : ((cache.serve hash call.1 call.2).1.shards place).Fits budget := by
  obtain ⟨ticks, call⟩ := call
  cases call with
  | get key => exact MemoryCache.fits_get hfits ticks key place
  | set key value ttlSeconds =>
      cases value with
      | none => exact MemoryCache.fits_del hfits key place
      | some value =>
          refine MemoryCache.fits_set hfits ticks key value ttlSeconds (fun hlarge => ?_) place
          obtain ⟨ids, hshard⟩ := h.shardFor hash key
          have hbudget : (cache.shardFor hash key).budget = budget := (hfits _).budget_eq
          rw [← hbudget, hshard.budget] at hlarge
          rw [← hshard.chargedBeside]
          exact (hcall hlarge).2
  | del key => exact MemoryCache.fits_del hfits key place
  | evict budgetBytes => exact MemoryCache.fits_evict hfits ticks budgetBytes place
  | clear => exact ⟨rfl, Nat.zero_le _, (hfits place).budget_eq⟩

/-- Of what is remembered no deadline is put off. -/
def Timely (memory : CacheMemory) : Prop :=
  ∀ key value ticks ttlSeconds, memory key = some (value, ticks, ttlSeconds) →
    ttlSeconds ≠ 0 → -2 ^ 63 ≤ ticks.toInt + 1000 * ttlSeconds.toInt

theorem Timely.update (h : Timely memory) {found : Option (Bytes × Int64 × Int64)} (key : Bytes)
    (hfound : ∀ value ticks ttlSeconds, found = some (value, ticks, ttlSeconds) →
      ttlSeconds ≠ 0 → -2 ^ 63 ≤ ticks.toInt + 1000 * ttlSeconds.toInt) :
    Timely (Function.update memory key found) := by
  intro other value ticks ttlSeconds hother
  rcases eq_or_ne other key with rfl | hne
  · rw [Function.update_self] at hother
    exact hfound value ticks ttlSeconds hother
  · rw [Function.update_of_ne hne] at hother
    exact h other value ticks ttlSeconds hother

theorem Timely.remember (h : Timely memory) {call : Int64 × CacheCall}
    (hcall : linked.Orderly hash call)
    (hbudget : ∀ key, (linked.shardFor hash key).budget = budget) :
    Timely (remember budget memory call) := by
  obtain ⟨ticks, call⟩ := call
  cases call with
  | get key => exact h
  | set key value ttlSeconds =>
      cases value with
      | none => exact h.update key fun _ _ _ hnone => nomatch hnone
      | some value =>
          refine h.update key fun stored since lifetime hfound => ?_
          split_ifs at hfound with hlarge
          obtain ⟨-, rfl, rfl⟩ : value = stored ∧ ticks = since ∧ ttlSeconds = lifetime := by
            simpa using hfound
          simp only [Orderly, hbudget key] at hcall
          exact (hcall (UInt64.not_lt.mp hlarge)).1
  | del key => exact h.update key fun _ _ _ hnone => nomatch hnone
  | evict budgetBytes => exact h
  | clear => exact fun _ _ _ _ hnone => nomatch hnone

/-- In an orderly run every shard stays within its budget, and no deadline that is still to
come is put off. -/
theorem Refines.orderly_run (h : linked.Refines cache)
    (hevery : Trace.Every (step hash) (Orderly hash) linked calls)
    (hfits : ∀ place, (cache.shards place).Fits budget) (htimely : Timely memory) :
    (∀ place, ((cache.after hash calls).shards place).Fits budget) ∧
      Timely (calls.foldl (MonoBucket.remember budget) memory) := by
  induction calls generalizing linked cache memory with
  | nil => exact ⟨hfits, htimely⟩
  | cons call calls ih =>
      obtain ⟨hcall, hrest⟩ := hevery
      obtain ⟨next, hnext, hrefines⟩ := h.serve hash call.1 call.2
      have hstep : step hash linked call = some next := by
        rw [step, hnext]
        rfl
      refine ih hrefines (hrest next hstep) (h.fits_serve hcall hfits) ?_
      refine htimely.remember hcall fun key => ?_
      obtain ⟨ids, hshard⟩ := h.shardFor hash key
      rw [← hshard.budget]
      exact (hfits _).budget_eq

/-- What a run leaves in the cache is what it leaves to be remembered. -/
theorem remembers_after (hremembers : cache.Remembers hash memory)
    (hbudget : ∀ place, (cache.shards place).budget = budget) :
    (cache.after hash calls).Remembers hash (calls.foldl (MonoBucket.remember budget) memory) := by
  induction calls generalizing cache memory with
  | nil => exact hremembers
  | cons call calls ih =>
      exact ih (hremembers.serve call.1 call.2 hbudget)
        (MemoryCache.budget_serve hbudget call.1 call.2)

/-- What a shard's entry is remembered as, a read returns before its deadline. -/
theorem value_of_get (hremembers : cache.Remembers hash memory) {later : Int64} {key value : Bytes}
    (hget : (cache.get hash later key).2 = some value) :
    ∃ ticks ttlSeconds, memory key = some (value, ticks, ttlSeconds) ∧
      later < MemoryCache.expiryFrom ticks ttlSeconds := by
  simp only [MemoryCache.get] at hget
  split at hget
  · cases hget
  · rename_i node hfind
    split_ifs at hget with hlater
    obtain rfl := Option.some.inj hget
    have hkey : node.key = key := by simpa using List.find?_some hfind
    obtain ⟨-, ticks, ttlSeconds, hmemory, hexpires⟩ :=
      hremembers _ node (List.mem_of_find?_eq_some hfind)
    rw [hkey] at hmemory
    rw [hexpires] at hlater
    exact ⟨ticks, ttlSeconds, hmemory, hlater⟩

/-- Every run of calls on a new cache comes to its end, whatever the calls, and leaves
every shard sound. Where each set has a deadline that 64 bits hold from below and keeps
its shard's bytes under 2^64, the counters are the entries' bytes and within the budget,
and a read returns what the key was last set to, before the deadline of that set. -/
theorem expiring_map_of_run (hash : Bytes → UInt64) (options : MemoryCache.Options)
    (calls : List (Int64 × CacheCall)) :
    ∃ cache, Trace.run (step hash) (new options) calls = some cache ∧
      (∀ shard ∈ cache.shards, ∃ ids, shard.Sound ids) ∧
      (Trace.Every (step hash) (Orderly hash) (new options) calls →
        (∀ shard ∈ cache.shards,
          shard.bytes.toNat = shard.charged ∧ shard.bytes ≤ options.shardBudget) ∧
        ∀ later key value, (cache.get hash later key).2 = some value →
          ∃ ticks ttlSeconds,
            rememberAll options.shardBudget calls key = some (value, ticks, ttlSeconds) ∧
              (ttlSeconds ≠ 0 → later.toInt < ticks.toInt + 1000 * ttlSeconds.toInt)) := by
  obtain ⟨final, hrun, hrefines⟩ := (refines_new options).run hash calls
  have hshards : ∀ shard ∈ final.shards, ∃ place ids,
      shard.Refines (((MemoryCache.new options).after hash calls).shards place) ids := by
    intro shard hshard
    obtain ⟨index, hindex, rfl⟩ := List.getElem_of_mem hshard
    exact ⟨_, hrefines.shards index hindex⟩
  refine ⟨final, hrun, fun shard hshard => ?_, fun hevery => ?_⟩
  · obtain ⟨place, ids, hids⟩ := hshards shard hshard
    exact ⟨ids, hids.sound⟩
  · have hempty : ∀ place, ((MemoryCache.new options).shards place).Fits options.shardBudget :=
      fun place => ⟨rfl, Nat.zero_le _, rfl⟩
    have hnothing : Timely fun _ => none := fun _ _ _ _ hnone => nomatch hnone
    have hnew : (MemoryCache.new options).Remembers hash fun _ => none :=
      fun place node hnode => nomatch hnode
    obtain ⟨hfits, htimely⟩ := (refines_new options).orderly_run hevery hempty hnothing
    constructor
    · intro shard hshard
      obtain ⟨place, ids, hids⟩ := hshards shard hshard
      rw [hids.charged, ← hids.bytes]
      exact (hfits place).bytes_le
    · intro later key value hget
      rw [(hrefines.get hash later key).2] at hget
      obtain ⟨ticks, ttlSeconds, hmemory, hlater⟩ :=
        value_of_get (remembers_after hnew fun _ => rfl) hget
      refine ⟨ticks, ttlSeconds, hmemory, fun httl => ?_⟩
      calc later.toInt < (MemoryCache.expiryFrom ticks ttlSeconds).toInt :=
            Int64.lt_iff_toInt_lt.mp hlater
        _ ≤ ticks.toInt + 1000 * ttlSeconds.toInt :=
            MemoryCache.toInt_expiryFrom_le httl (htimely key value ticks ttlSeconds hmemory httl)

/-- A time to live of nine quadrillion seconds below zero: what is set at 0 is read at 0. -/
theorem long_expired_entry_is_read :
    ((Trace.run (step fun _ => 0) (new {}) [(0, .set [] (some [0x61]) (-9223372036854776))]).map
        fun cache => (cache.get (fun _ => 0) 0 []).2) = some (some [0x61]) ∧
      rememberAll (MemoryCache.Options.shardBudget {})
        [(0, .set [] (some [0x61]) (-9223372036854776))] [] =
          some ([0x61], 0, -9223372036854776) ∧
      ¬ (0 : Int64).toInt < (0 : Int64).toInt + 1000 * (-9223372036854776 : Int64).toInt := by
  decide +kernel

end LinkedCache

end MonoBucket
