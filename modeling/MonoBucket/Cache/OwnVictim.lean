/-
What an insert may evict

A new entry goes to the front and evictions begin at the tail, but every entry that was read
since it was placed is taken to the front first, before the new one. When no entry that was
not read is left, the new one is the last: it is evicted for itself. So a key can be read
after it was set just when the entries that were read leave room for it.
-/

import MonoBucket.Cache.ExpiringMap

namespace MonoBucket

namespace Shard

variable {shard after : Shard} {front hots rotated pending : List CacheNode} {node : CacheNode}
  {limit : UInt64}

/-- Entries at the tail that were read are taken to the front, in their order. -/
theorem evictWalk_hots {reprieves : Nat} (hnodes : shard.nodes = front ++ hots)
    (hhots : ∀ hot ∈ hots, hot.accessed) (hreprieves : hots.length ≤ reprieves) :
    ∃ next, evictWalk reprieves shard = evictWalk (reprieves - hots.length) next ∧
      next.nodes = hots.map cold ++ front ∧ next.bytes = shard.bytes := by
  induction hots using List.reverseRecOn generalizing shard reprieves front with
  | nil => exact ⟨shard, rfl, by simpa using hnodes, rfl⟩
  | append_singleton hots hot ih =>
      rw [List.length_append, List.length_singleton] at hreprieves
      obtain ⟨rest, rfl⟩ : ∃ rest, reprieves = rest + 1 := ⟨reprieves - 1, by omega⟩
      have hlast : shard.nodes.getLast? = some hot := by
        rw [hnodes, ← List.append_assoc, List.getLast?_concat]
      obtain ⟨hreprieved, hbytes, -⟩ := nodes_reprieve hlast
      rw [hnodes, ← List.append_assoc, List.dropLast_concat, ← List.cons_append] at hreprieved
      obtain ⟨next, hnext, hrest, hsame⟩ : ∃ next,
          evictWalk rest shard.reprieve = evictWalk (rest - hots.length) next ∧
            next.nodes = hots.map cold ++ (cold hot :: front) ∧
              next.bytes = shard.reprieve.bytes :=
        ih hreprieved (fun other hother => hhots other (List.mem_append_left _ hother)) (by omega)
      refine ⟨next, ?_, ?_, hsame.trans hbytes⟩
      · rw [evictWalk, hlast]
        simp only [hhots hot (by simp), if_true, hnext, List.length_append, List.length_singleton,
          Nat.add_sub_add_right]
      · rw [hrest, List.map_append, List.append_assoc]
        rfl

theorem evictWalk_of_cold {reprieves : Nat} (hnodes : shard.nodes = front ++ [node])
    (hcold : node.accessed = false) : evictWalk reprieves shard = some (shard.remove node) := by
  have hlast : shard.nodes.getLast? = some node := by
    rw [hnodes, List.getLast?_concat]
  cases reprieves with
  | zero => rw [evictWalk, hlast, Option.map_some]
  | succ reprieves =>
      rw [evictWalk, hlast]
      simp [hcold]

/-- The last entry that was not read goes, and the ones behind it that were go to the front. -/
theorem evictOne_of_hots (hnodes : shard.nodes = front ++ node :: hots)
    (hcold : node.accessed = false) (hhots : ∀ hot ∈ hots, hot.accessed) :
    ∃ next, shard.evictOne = some next ∧ next.nodes = hots.map cold ++ front ∧
      next.bytes = shard.bytes - node.bytes := by
  have hsplit : shard.nodes = (front ++ [node]) ++ hots := by
    rw [hnodes, List.append_assoc, List.singleton_append]
  have hlength : hots.length ≤ shard.nodes.length := by
    rw [hsplit, List.length_append]
    omega
  obtain ⟨turned, hturned, hrest, hbytes⟩ := evictWalk_hots hsplit hhots hlength
  have hturnedNodes : turned.nodes = (hots.map cold ++ front) ++ [node] := by
    rw [hrest, List.append_assoc]
  refine ⟨turned.remove node, ?_, ?_, ?_⟩
  · rw [evictOne, hturned, evictWalk_of_cold hturnedNodes hcold]
  · rw [nodes_remove_of_split hturnedNodes, List.append_nil]
  · rw [← hbytes]
    rfl

/-- The entries that were read, and those that were not, in their order. -/
def hot (nodes : List CacheNode) : List CacheNode := nodes.filter fun node => node.accessed

def unread (nodes : List CacheNode) : List CacheNode := nodes.filter fun node => !node.accessed

def sum (nodes : List CacheNode) : UInt64 := (nodes.map CacheNode.bytes).sum

/-- With some of the entries that were not read evicted from the tail on, so much and the
rest come to no more than the limit. -/
def LeaveRoom (limit bytes : UInt64) (nodes : List CacheNode) : Prop :=
  ∃ spared ∈ (unread nodes).inits, bytes + sum (hot nodes) + sum spared ≤ limit

instance (limit bytes : UInt64) (nodes : List CacheNode) : Decidable (LeaveRoom limit bytes nodes) :=
  inferInstanceAs (Decidable (∃ spared ∈ (unread nodes).inits, _))

theorem unread_append (front back : List CacheNode) :
    unread (front ++ back) = unread front ++ unread back := List.filter_append ..

theorem hot_append (front back : List CacheNode) : hot (front ++ back) = hot front ++ hot back :=
  List.filter_append ..

theorem hot_cons_of_unread (h : node.accessed = false) (nodes : List CacheNode) :
    hot (node :: nodes) = hot nodes := List.filter_cons_of_neg (by simp [h])

theorem unread_cons_of_unread (h : node.accessed = false) (nodes : List CacheNode) :
    unread (node :: nodes) = node :: unread nodes := List.filter_cons_of_pos (by simp [h])

@[simp]
theorem sum_nil : sum [] = 0 := rfl

theorem sum_append (front back : List CacheNode) : sum (front ++ back) = sum front + sum back := by
  rw [sum, List.map_append, List.sum_append]
  rfl

theorem sum_cold (nodes : List CacheNode) : sum (nodes.map cold) = sum nodes := by
  rw [sum, sum, List.map_map]
  rfl

theorem sum_hot_add_sum_unread (nodes : List CacheNode) :
    sum (hot nodes) + sum (unread nodes) = sum nodes := by
  have hperm := List.filter_append_perm (fun node : CacheNode => node.accessed) nodes
  have hsum := (hperm.map CacheNode.bytes).sum_eq
  rw [List.map_append, List.sum_append] at hsum
  exact hsum

/-- The entries up to the last one that was not read, and those behind it. -/
theorem split_at_last_unread (nodes : List CacheNode) :
    (∀ node ∈ nodes, node.accessed) ∨ ∃ front node hots, nodes = front ++ node :: hots ∧
      node.accessed = false ∧ ∀ hot ∈ hots, hot.accessed := by
  induction nodes using List.reverseRecOn with
  | nil => exact Or.inl fun _ hnode => nomatch hnode
  | append_singleton nodes last ih =>
      cases hlast : last.accessed with
      | false => exact Or.inr ⟨nodes, last, [], rfl, hlast, fun _ hnode => nomatch hnode⟩
      | true =>
          rcases ih with hall | ⟨front, node, hots, rfl, hcold, hhots⟩
          · refine Or.inl fun node hnode => ?_
            rcases List.mem_append.mp hnode with hnode | hnode
            · exact hall node hnode
            · rw [List.mem_singleton.mp hnode, hlast]
          · refine Or.inr ⟨front, node, hots ++ [last], by simp, hcold, fun hot hhot => ?_⟩
            rcases List.mem_append.mp hhot with hhot | hhot
            · exact hhots hot hhot
            · rw [List.mem_singleton.mp hhot, hlast]

theorem hot_of_all {nodes : List CacheNode} (h : ∀ node ∈ nodes, node.accessed) :
    hot nodes = nodes ∧ unread nodes = [] :=
  ⟨List.filter_eq_self.mpr h, List.filter_eq_nil_iff.mpr fun node hnode => by simp [h node hnode]⟩

/-- Where the last entry that was not read has to go, there is room if there is without it. -/
theorem leaveRoom_split {bytes : UInt64} (hcold : node.accessed = false)
    (hhots : ∀ hot ∈ hots, hot.accessed)
    (hover : ¬ bytes + sum (front ++ node :: hots) ≤ limit) :
    LeaveRoom limit bytes (front ++ node :: hots) ↔ LeaveRoom limit (bytes + sum hots) front := by
  obtain ⟨hhotHots, hunreadHots⟩ := hot_of_all hhots
  have hhot : hot (front ++ node :: hots) = hot front ++ hots := by
    rw [hot_append, hot_cons_of_unread hcold, hhotHots]
  have hunread : unread (front ++ node :: hots) = unread front ++ [node] := by
    rw [unread_append, unread_cons_of_unread hcold, hunreadHots]
  have hsum : ∀ spared, bytes + sum hots + sum (hot front) + sum spared =
      bytes + sum (hot (front ++ node :: hots)) + sum spared := by
    intro spared
    rw [hhot, sum_append]
    abel
  simp only [LeaveRoom, hsum, List.mem_inits]
  constructor
  · rintro ⟨spared, hspared, hroom⟩
    rw [hunread, List.prefix_concat_iff] at hspared
    rcases hspared with rfl | hspared
    · rw [← hunread, add_assoc, sum_hot_add_sum_unread] at hroom
      exact absurd hroom hover
    · exact ⟨spared, hspared, hroom⟩
  · rintro ⟨spared, hspared, hroom⟩
    refine ⟨spared, ?_, hroom⟩
    rw [hunread]
    exact hspared.trans (List.prefix_append _ _)

/-- The others, turned or not, have other keys. -/
theorem key_ne_of_turned {other : CacheNode} (hnodes : shard.nodes = rotated ++ node :: pending)
    (hother : other ∈ pending.map cold ++ rotated) : other.key ≠ node.key := by
  have hdistinct := shard.distinct
  rw [hnodes, List.map_append, List.map_cons, List.nodup_middle, List.nodup_cons,
    ← List.map_append] at hdistinct
  intro hkey
  apply hdistinct.1
  rw [← hkey]
  rcases List.mem_append.mp hother with hpending | hrotated
  · obtain ⟨older, holder, rfl⟩ := List.mem_map.mp hpending
    have hmem := List.mem_map_of_mem (f := CacheNode.key) (List.mem_append_right rotated holder)
    exact hmem
  · exact List.mem_map_of_mem (List.mem_append_left _ hrotated)

/-- The entry behind the ones already turned stays just when the ones still ahead of it
leave room. -/
theorem mem_evictDownTo_iff {rounds : Nat} (hnodes : shard.nodes = rotated ++ node :: pending)
    (hcold : node.accessed = false) (hcounted : shard.Counted)
    (hrounds : shard.nodes.length < rounds) :
    (∃ other ∈ (evictDownTo limit rounds shard).nodes, other.key = node.key) ↔
      LeaveRoom limit (node.bytes + sum rotated) pending := by
  induction rounds generalizing shard rotated pending with
  | zero => exact absurd hrounds (Nat.not_lt_zero _)
  | succ rounds ih =>
      have hbytes : shard.bytes = node.bytes + sum rotated + sum pending := by
        rw [hcounted, hnodes, List.map_append, List.map_cons, List.sum_append, List.sum_cons]
        simp only [sum]
        abel
      rw [evictDownTo]
      split_ifs with hover
      · rw [hbytes, ← UInt64.not_le] at hover
        rcases split_at_last_unread pending with hall | ⟨front, last, hots, rfl, hlast, hhots⟩
        · obtain ⟨next, hnext, hrest, -⟩ := evictOne_of_hots hnodes hcold hall
          rw [hnext]
          refine iff_of_false ?_ ?_
          · rintro ⟨other, hother, hkey⟩
            obtain ⟨older, holder, hsame⟩ := (kept_evictDownTo limit rounds next).exists_cold hother
            have hsameKey : (cold older).key = (cold other).key := congrArg CacheNode.key hsame
            rw [hrest] at holder
            exact key_ne_of_turned hnodes holder (hsameKey.trans hkey)
          · obtain ⟨hhot, hunread⟩ := hot_of_all hall
            rintro ⟨spared, hspared, hroom⟩
            rw [hunread, List.mem_inits, List.prefix_nil] at hspared
            rw [hhot, hspared, sum_nil, add_zero] at hroom
            exact hover hroom
        · have hsplit : shard.nodes = (rotated ++ node :: front) ++ last :: hots := by
            rw [hnodes, List.append_assoc, List.cons_append]
          obtain ⟨next, hnext, hrest, -⟩ := evictOne_of_hots hsplit hlast hhots
          have hlength := length_evictWalk_lt hnext
          rw [hnext, ih (by rw [hrest, ← List.append_assoc]) (hcounted.evictWalk hnext) (by omega),
            leaveRoom_split hlast hhots hover, sum_append, sum_cold, add_assoc, add_comm (sum rotated)]
      · rw [hbytes, UInt64.not_lt] at hover
        refine iff_of_true ⟨node, by rw [hnodes]; simp, rfl⟩ ⟨unread pending, ?_, ?_⟩
        · exact (List.mem_inits _ _).mpr (List.prefix_refl _)
        · rw [add_assoc, sum_hot_add_sum_unread]
          exact hover

/-- A new entry stays where the others leave room, and is then found under its key. -/
theorem find?_shrink_insert (hcounted : shard.Counted) (hcold : node.accessed = false) :
    (∃ found, ((shard.insert node).shrink limit).find? node.key = some found ∧
        found.value = node.value ∧ found.expiresAt = node.expiresAt) ∧
          LeaveRoom limit node.bytes (shard.nodes.filter fun other => other.key ≠ node.key) ∨
      ((shard.insert node).shrink limit).find? node.key = none ∧
        ¬ LeaveRoom limit node.bytes (shard.nodes.filter fun other => other.key ≠ node.key) := by
  have hiff := @mem_evictDownTo_iff (shard.insert node) [] _ node limit _ (nodes_insert shard node)
    hcold (hcounted.insert node) (Nat.lt_succ_self _)
  rw [sum_nil, add_zero] at hiff
  cases hfind : ((shard.insert node).shrink limit).find? node.key with
  | none =>
      refine Or.inr ⟨rfl, fun hroom => ?_⟩
      obtain ⟨other, hother, hkey⟩ := hiff.mpr hroom
      exact List.find?_eq_none.mp hfind other hother (decide_eq_true hkey)
  | some found =>
      have hfound := List.mem_of_find?_eq_some hfind
      have hkey : found.key = node.key := by simpa using List.find?_some hfind
      refine Or.inl ⟨⟨found, rfl, ?_⟩, hiff.mp ⟨found, hfound, hkey⟩⟩
      obtain ⟨older, holder, hsame⟩ := (kept_shrink (shard.insert node) limit).exists_cold hfound
      have holderKey : (cold older).key = (cold found).key := congrArg CacheNode.key hsame
      have hvalue : (cold older).value = (cold found).value := congrArg CacheNode.value hsame
      have hexpires : (cold older).expiresAt = (cold found).expiresAt :=
        congrArg CacheNode.expiresAt hsame
      rcases List.mem_cons.mp holder with rfl | hrest
      · exact ⟨hvalue.symm, hexpires.symm⟩
      · have hne := of_decide_eq_true (List.mem_filter.mp hrest).2
        exact absurd (holderKey.trans hkey) hne

end Shard

namespace LinkedShard

/-- The entries, from the head along the links. -/
def listed (shard : LinkedShard) : List CacheNode :=
  (Links.walk shard.links.next shard.map.length shard.links.head).map shard.cells

theorem Refines.listed {linked : LinkedShard} {shard : Shard} {ids : List Nat}
    (h : linked.Refines shard ids) : linked.listed = shard.nodes := by
  rw [LinkedShard.listed, (h.sound.spells.walk_eq h.sound.length_map.ge).1, h.nodes]

end LinkedShard

namespace MemoryCache

variable {hash : Bytes → UInt64} {cache : MemoryCache} {key value : Bytes}

theorem get_set_iff {ticks later ttlSeconds : Int64}
    (hcounted : (cache.shardFor hash key).Counted)
    (hsize : entryBytes key value ≤ (cache.shardFor hash key).budget) :
    ((cache.set hash ticks key value ttlSeconds).get hash later key).2 = some value ↔
      Shard.LeaveRoom (cache.shardFor hash key).budget (entryBytes key value)
          ((cache.shardFor hash key).nodes.filter fun other => other.key ≠ key) ∧
        later < expiryFrom ticks ttlSeconds := by
  rw [set_eq, if_neg (UInt64.not_lt.mpr hsize)]
  have hfind := @Shard.find?_shrink_insert (cache.shardFor hash key)
    ⟨key, value, entryBytes key value, expiryFrom ticks ttlSeconds, false⟩
    (cache.shardFor hash key).budget hcounted rfl
  simp only [MemoryCache.get, shardFor_setShard, if_true]
  rcases hfind with ⟨⟨found, hfound, hvalue, hexpires⟩, hroom⟩ | ⟨hnone, hfull⟩
  · rw [hfound]
    simp only [hexpires, hvalue]
    split_ifs with hlater
    · exact iff_of_true rfl ⟨hroom, hlater⟩
    · exact iff_of_false not_false fun h => hlater h.2
  · rw [hnone]
    exact iff_of_false (Option.some_ne_none value).symm fun h => hfull h.1

theorem lt_expiryFrom_iff {ticks later ttlSeconds : Int64} :
    later < expiryFrom ticks ttlSeconds ↔
      if ttlSeconds = 0 then later.toInt < 2 ^ 63 - 1
      else later.toInt < (ticks.toInt + 1000 * ttlSeconds.toInt).bmod (2 ^ 64) := by
  split_ifs with httl
  · rw [expiryFrom, if_pos httl, Int64.lt_iff_toInt_lt]
    exact Iff.rfl
  · rw [Int64.lt_iff_toInt_lt, toInt_expiryFrom ticks ttlSeconds httl]

end MemoryCache

namespace LinkedCache

/-- From any state a run leads to: a set of a value that is not too large is read back
just when the entries of other keys that were read leave room for it, and its deadline as 64
bits hold it is not passed. -/
theorem reads_own_insert_iff {hash : Bytes → UInt64} {options : MemoryCache.Options}
    {calls : List (Int64 × CacheCall)} {cache : LinkedCache}
    (hrun : Trace.run (step hash) (new options) calls = some cache)
    {key value : Bytes} {ticks later ttlSeconds : Int64}
    (hsize : entryBytes key value ≤ options.shardBudget) :
    ∃ after, cache.set hash ticks key value ttlSeconds = some after ∧
      ((after.get hash later key).2 = some value ↔
        Shard.LeaveRoom options.shardBudget (entryBytes key value)
            ((cache.shardFor hash key).listed.filter fun other => other.key ≠ key) ∧
          if ttlSeconds = 0 then later.toInt < 2 ^ 63 - 1
          else later.toInt < (ticks.toInt + 1000 * ttlSeconds.toInt).bmod (2 ^ 64)) := by
  obtain ⟨final, hfinal, hrefines⟩ := (refines_new options).run hash calls
  rw [hrun] at hfinal
  obtain rfl := Option.some.inj hfinal
  obtain ⟨after, hafter, hset⟩ := hrefines.set hash ticks key value ttlSeconds
  obtain ⟨ids, hshard⟩ := hrefines.shardFor hash key
  have hbudget : (((MemoryCache.new options).after hash calls).shardFor hash key).budget =
      options.shardBudget := MemoryCache.budget_after (fun _ => rfl) calls _
  refine ⟨after, hafter, ?_⟩
  rw [(hset.get hash later key).2, MemoryCache.get_set_iff hshard.counted (by rw [hbudget]; exact hsize),
    hbudget, hshard.listed, MemoryCache.lt_expiryFrom_iff]

theorem reads_own_insert_iff_empty :
    ∃ after, (new { maxBytes := 280, shards := 1 }).set (fun _ => 0) 5 [0x63] [0x31] 60 = some after ∧
      ((after.get (fun _ => 0) 6 [0x63]).2 = some [0x31] ↔
        Shard.LeaveRoom (MemoryCache.Options.shardBudget { maxBytes := 280, shards := 1 })
            (entryBytes [0x63] [0x31])
            (((new { maxBytes := 280, shards := 1 }).shardFor (fun _ => 0) [0x63]).listed.filter
              fun other => other.key ≠ [0x63]) ∧
          if (60 : Int64) = 0 then (6 : Int64).toInt < 2 ^ 63 - 1
          else (6 : Int64).toInt < ((5 : Int64).toInt + 1000 * (60 : Int64).toInt).bmod (2 ^ 64)) :=
  reads_own_insert_iff (Trace.run_nil _) (by decide)

/-- Room for two entries, both read: a third is evicted for itself. -/
theorem third_entry_is_its_own_victim :
    entryBytes [0x63] [0x31] ≤ MemoryCache.Options.shardBudget { maxBytes := 280, shards := 1 } ∧
      (Trace.run (step fun _ => 0) (new { maxBytes := 280, shards := 1 })
        [(0, .set [0x61] (some [0x31]) 60), (0, .set [0x62] (some [0x31]) 60), (0, .get [0x61]),
          (0, .get [0x62]), (0, .set [0x63] (some [0x31]) 60)]).map
        (fun cache => (cache.get (fun _ => 0) 0 [0x63]).2) = some none := by
  decide +kernel

end LinkedCache

end MonoBucket
