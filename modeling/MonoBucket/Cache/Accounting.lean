/-
What a shard of the cache is charged

The byte counter of a shard is kept by adding and subtracting; here it is the sum of the
bytes of the entries, whatever was done to the shard. The counter is 64 bits wide, and so
is the sum. Where the entries together stay under 2^64 bytes it is the sum of natural
numbers as well.
-/

import Mathlib.Data.UInt
import Mathlib.Algebra.Order.BigOperators.Group.List
import MonoBucket.Cache.MemoryCache

namespace MonoBucket

/-- Where members are told apart by their keys, one is filtered out by its key. -/
theorem filter_ne_of_nodup_map {α β : Type} [DecidableEq β] {f : α → β} {x : α} {front back : List α}
    (h : ((front ++ x :: back).map f).Nodup) :
    (front ++ x :: back).filter (fun y => f y ≠ f x) = front ++ back := by
  rw [List.map_append, List.map_cons, List.nodup_middle, List.nodup_cons, ← List.map_append] at h
  rw [List.filter_append, List.filter_cons_of_neg (by simp), ← List.filter_append]
  refine List.filter_eq_self.mpr fun y hy => decide_eq_true fun hkey => h.1 ?_
  rw [← hkey]
  exact List.mem_map_of_mem hy

namespace Shard

variable {shard after before : Shard} {node : CacheNode}

/-- The counter is the sum of the entries' bytes. -/
def Counted (shard : Shard) : Prop := shard.bytes = (shard.nodes.map CacheNode.bytes).sum

/-- The entries' bytes, as natural numbers. -/
def total (nodes : List CacheNode) : Nat := (nodes.map fun node => node.bytes.toNat).sum

@[simp]
theorem total_nil : total [] = 0 := rfl

@[simp]
theorem total_cons (node : CacheNode) (nodes : List CacheNode) :
    total (node :: nodes) = node.bytes.toNat + total nodes := by
  simp [total]

@[simp]
theorem total_append (front back : List CacheNode) : total (front ++ back) = total front + total back := by
  simp [total]

theorem total_perm {nodes others : List CacheNode} (h : nodes.Perm others) :
    total nodes = total others := (h.map _).sum_eq

theorem total_cold (nodes : List CacheNode) : total (nodes.map cold) = total nodes := by
  simp [total, cold, Function.comp_def]

theorem Kept.total_le (h : Kept after before) : total after.nodes ≤ total before.nodes := by
  obtain ⟨kept, hperm, hsublist⟩ := h
  calc total after.nodes = total (after.nodes.map cold) := (total_cold _).symm
    _ = total kept := total_perm hperm.symm
    _ ≤ total (before.nodes.map cold) := (hsublist.map _).sum_le_sum fun _ _ => Nat.zero_le _
    _ = total before.nodes := total_cold _

theorem toNat_sum {nodes : List CacheNode} (h : total nodes < 2 ^ 64) :
    (nodes.map CacheNode.bytes).sum.toNat = total nodes := by
  induction nodes with
  | nil => rfl
  | cons node nodes ih =>
      rw [total_cons] at h ⊢
      rw [List.map_cons, List.sum_cons, UInt64.toNat_add, ih (by omega), Nat.mod_eq_of_lt h]

theorem Counted.toNat_bytes (h : shard.Counted) (htotal : total shard.nodes < 2 ^ 64) :
    shard.bytes.toNat = total shard.nodes := by
  rw [h]
  exact toNat_sum htotal

/-! ### What each operation takes and leaves -/

theorem nodes_remove (shard : Shard) (node : CacheNode) :
    (shard.remove node).nodes = shard.nodes.filter fun other => other.key ≠ node.key := rfl

theorem nodes_markAccessed (shard : Shard) (key : Bytes) : (shard.markAccessed key).nodes =
    shard.nodes.map fun node => if node.key = key then { node with accessed := true } else node := rfl

theorem nodes_insert (shard : Shard) (node : CacheNode) : (shard.insert node).nodes =
    node :: shard.nodes.filter fun other => other.key ≠ node.key := rfl

theorem nodes_remove_of_split {front back : List CacheNode}
    (h : shard.nodes = front ++ node :: back) : (shard.remove node).nodes = front ++ back := by
  have hdistinct := shard.distinct
  rw [h] at hdistinct
  rw [nodes_remove, h]
  exact filter_ne_of_nodup_map hdistinct

/-- The entry taken out, and the others. -/
theorem perm_remove (h : node ∈ shard.nodes) :
    shard.nodes.Perm (node :: (shard.remove node).nodes) := by
  obtain ⟨front, back, hsplit⟩ := List.append_of_mem h
  rw [nodes_remove_of_split hsplit, hsplit]
  exact List.perm_middle

theorem perm_reprieve (h : shard.nodes.getLast? = some node) :
    shard.nodes.Perm (node :: shard.nodes.dropLast) := by
  conv_lhs => rw [← List.dropLast_append_getLast? node h]
  exact List.perm_append_singleton ..

theorem nodes_reprieve (h : shard.nodes.getLast? = some node) :
    shard.reprieve.nodes = cold node :: shard.nodes.dropLast ∧ shard.reprieve.bytes = shard.bytes ∧
      shard.reprieve.budget = shard.budget := by
  rw [reprieve]
  split
  · rename_i hnone
    rw [h] at hnone
    cases hnone
  · rename_i victim hlast
    rw [h] at hlast
    obtain rfl := Option.some.inj hlast
    exact ⟨rfl, rfl, rfl⟩

theorem Counted.remove (h : shard.Counted) (hnode : node ∈ shard.nodes) :
    (shard.remove node).Counted := by
  have hsum := ((perm_remove hnode).map CacheNode.bytes).sum_eq
  rw [List.map_cons, List.sum_cons] at hsum
  rw [Counted, Shard.remove, h, hsum]
  exact add_sub_cancel_left ..

theorem Counted.reprieve (h : shard.Counted) : shard.reprieve.Counted := by
  cases hlast : shard.nodes.getLast? with
  | none =>
      rw [Shard.reprieve]
      split
      · exact h
      · rename_i victim hsome
        rw [hlast] at hsome
        cases hsome
  | some victim =>
      obtain ⟨hnodes, hbytes, -⟩ := nodes_reprieve hlast
      have hsum := ((perm_reprieve hlast).map CacheNode.bytes).sum_eq
      rw [Counted, hbytes, hnodes, h, hsum]
      rfl

theorem Counted.evictWalk {reprieves : Nat} {next : Shard} (h : shard.Counted)
    (hnext : evictWalk reprieves shard = some next) : next.Counted := by
  induction reprieves generalizing shard with
  | zero =>
      obtain ⟨victim, hvictim, rfl⟩ := Option.map_eq_some_iff.mp hnext
      exact h.remove (List.mem_of_getLast? hvictim)
  | succ reprieves ih =>
      rw [Shard.evictWalk] at hnext
      split at hnext
      · cases hnext
      · rename_i victim hvictim
        split_ifs at hnext
        · exact ih h.reprieve hnext
        · obtain rfl := Option.some.inj hnext
          exact h.remove (List.mem_of_getLast? hvictim)

theorem Counted.evictDownTo {limit : UInt64} {rounds : Nat} (h : shard.Counted) :
    (evictDownTo limit rounds shard).Counted := by
  induction rounds generalizing shard with
  | zero => exact h
  | succ rounds ih =>
      rw [Shard.evictDownTo]
      split_ifs
      · split
        · exact h
        · rename_i next hnext
          exact ih (h.evictWalk hnext)
      · exact h

theorem Counted.shrink (h : shard.Counted) (limit : UInt64) : (shard.shrink limit).Counted :=
  h.evictDownTo

theorem foldl_sub (nodes : List CacheNode) (bytes : UInt64) :
    nodes.foldl (fun bytes node => bytes - node.bytes) bytes =
      bytes - (nodes.map CacheNode.bytes).sum := by
  induction nodes generalizing bytes with
  | nil => exact (sub_zero bytes).symm
  | cons node nodes ih => rw [List.foldl_cons, ih, List.map_cons, List.sum_cons, sub_sub]

theorem Counted.purgeExpired (h : shard.Counted) (ticks : Int64) :
    (shard.purgeExpired ticks).Counted := by
  have hperm := List.filter_append_perm (fun node => decide (ticks < node.expiresAt)) shard.nodes
  have hsum := (hperm.map CacheNode.bytes).sum_eq
  rw [List.map_append, List.sum_append] at hsum
  rw [Counted, Shard.purgeExpired, foldl_sub, h, ← hsum]
  simp only [decide_not]
  exact add_sub_cancel_right ..

theorem kept_purgeExpired (shard : Shard) (ticks : Int64) : Kept (shard.purgeExpired ticks) shard :=
  (List.filter_sublist.map _).subperm

theorem map_markAccessed {α : Type} (f : CacheNode → α)
    (hf : ∀ node : CacheNode, f { node with accessed := true } = f node) (shard : Shard)
    (key : Bytes) : (shard.markAccessed key).nodes.map f = shard.nodes.map f := by
  rw [nodes_markAccessed, List.map_map]
  apply List.map_congr_left
  intro node hnode
  simp only [Function.comp_apply]
  split_ifs
  · exact hf node
  · rfl

theorem Counted.markAccessed (h : shard.Counted) (key : Bytes) : (shard.markAccessed key).Counted := by
  rw [Counted, map_markAccessed CacheNode.bytes (fun _ => rfl)]
  exact h

theorem kept_markAccessed (shard : Shard) (key : Bytes) : Kept (shard.markAccessed key) shard := by
  rw [Kept, map_markAccessed cold (fun _ => rfl)]

/-- The bytes of the entry under a key, if there is one, and of the others. -/
theorem sum_find? (shard : Shard) (key : Bytes) :
    (shard.nodes.map CacheNode.bytes).sum = (shard.find? key).elim 0 CacheNode.bytes +
      ((shard.nodes.filter fun other => other.key ≠ key).map CacheNode.bytes).sum := by
  cases hfind : shard.find? key with
  | none =>
      have hall : (shard.nodes.filter fun other => other.key ≠ key) = shard.nodes := by
        refine List.filter_eq_self.mpr fun other hother => ?_
        simpa using List.find?_eq_none.mp hfind other hother
      rw [hall, Option.elim_none, zero_add]
  | some node =>
      have hkey : node.key = key := by simpa using List.find?_some hfind
      have hsum := ((perm_remove (List.mem_of_find?_eq_some hfind)).map CacheNode.bytes).sum_eq
      rw [List.map_cons, List.sum_cons] at hsum
      rw [hsum, nodes_remove, hkey, Option.elim_some]

theorem Counted.insert (h : shard.Counted) (node : CacheNode) : (shard.insert node).Counted := by
  rw [Counted, nodes_insert, Shard.insert, h, sum_find? shard node.key, List.map_cons, List.sum_cons,
    add_sub_cancel_left, add_comm]

end Shard

end MonoBucket
