/-
The rows and what a write batch does to them

RocksDB as the metadata store uses it: one ordered family of byte strings, read
by key and by seeking under an upper bound, and changed by write batches that
apply whole, in order, later operations winning.
-/

import MonoBucket.Lib.OrderedMap
import MonoBucket.Storage.Keyspace

namespace MonoBucket

/-- The column family: stored keys and values. -/
abbrev Rows := OrderedMap Bytes Bytes

/-- One operation of a `rocksdb::WriteBatch`. -/
inductive RowOp
  | put (key value : Bytes)
  | delete (key : Bytes)
  deriving DecidableEq

abbrev WriteBatch := List RowOp

namespace RowOp

def key : RowOp → Bytes
  | put key _ => key
  | delete key => key

/-- What the row holds afterwards. -/
def value : RowOp → Option Bytes
  | put _ value => some value
  | delete _ => none

end RowOp

namespace Rows

def apply (rows : Rows) : RowOp → Rows
  | .put key value => rows.insert key value
  | .delete key => rows.erase key

/-- `db_->Write`. -/
def write (rows : Rows) (batch : WriteBatch) : Rows := batch.foldl apply rows

theorem find?_apply (rows : Rows) (op : RowOp) (key : Bytes) :
    (rows.apply op).find? key = if key = op.key then op.value else rows.find? key := by
  cases op with
  | put other value =>
      by_cases h : key = other <;> simp [apply, RowOp.key, RowOp.value, OrderedMap.find?_insert, h]
  | delete other =>
      by_cases h : key = other <;> simp [apply, RowOp.key, RowOp.value, OrderedMap.find?_erase, h]

@[simp]
theorem write_nil (rows : Rows) : rows.write [] = rows := rfl

theorem write_cons (rows : Rows) (op : RowOp) (batch : WriteBatch) :
    rows.write (op :: batch) = (rows.apply op).write batch := rfl

theorem write_append (rows : Rows) (first second : WriteBatch) :
    rows.write (first ++ second) = (rows.write first).write second :=
  List.foldl_append

/-- A row no operation of the batch names keeps its value. -/
theorem find?_write_of_forall_ne (rows : Rows) {batch : WriteBatch} {key : Bytes}
    (h : ∀ op ∈ batch, op.key ≠ key) : (rows.write batch).find? key = rows.find? key := by
  induction batch generalizing rows with
  | nil => rfl
  | cons op rest ih =>
      rw [write_cons, ih (rows.apply op) fun other hother => h other (by simp [hother]),
        find?_apply, if_neg (Ne.symm (h op (by simp)))]

/-- The last operation on a row decides it. -/
theorem find?_write_of_last (rows : Rows) (front : WriteBatch) (op : RowOp) {rest : WriteBatch}
    (h : ∀ other ∈ rest, other.key ≠ op.key) :
    (rows.write (front ++ op :: rest)).find? op.key = op.value := by
  rw [write_append, write_cons, find?_write_of_forall_ne _ h, find?_apply, if_pos rfl]

/-- Every row after a batch is an old one or one the batch put. -/
theorem mem_entries_write {rows : Rows} {batch : WriteBatch} {row : Bytes × Bytes}
    (hrow : row ∈ (rows.write batch).entries) :
    row ∈ rows.entries ∨ RowOp.put row.1 row.2 ∈ batch := by
  induction batch generalizing rows with
  | nil => exact Or.inl hrow
  | cons op rest ih =>
      rcases ih hrow with hold | hput
      · have hfind := (OrderedMap.find?_eq_some_iff _).mpr hold
        rw [find?_apply] at hfind
        split_ifs at hfind with hkey
        · cases op with
          | put key value =>
              obtain ⟨rfl⟩ : key = row.1 := hkey.symm
              obtain ⟨rfl⟩ : value = row.2 := Option.some_inj.mp hfind
              exact Or.inr (by simp)
          | delete key => cases hfind
        · exact Or.inl ((OrderedMap.find?_eq_some_iff _).mp hfind)
      · exact Or.inr (by simp [hput])

/-- Every row is one the relation allows. -/
def Holds (Q : Bytes → Bytes → Prop) (rows : Rows) : Prop :=
  ∀ key stored, rows.find? key = some stored → Q key stored

namespace Holds

variable {Q : Bytes → Bytes → Prop} {rows : Rows}

theorem empty : Holds Q .empty := fun _ _ h => by cases h

theorem of_mem (hrows : Holds Q rows) {row : Bytes × Bytes} (hrow : row ∈ rows.entries) :
    Q row.1 row.2 :=
  hrows row.1 row.2 ((OrderedMap.find?_eq_some_iff _).mpr hrow)

/-- A batch that puts only allowed rows leaves only allowed rows. -/
theorem write (hrows : Holds Q rows) {batch : WriteBatch}
    (hbatch : ∀ key value, RowOp.put key value ∈ batch → Q key value) :
    Holds Q (rows.write batch) := by
  intro key stored hfind
  rcases mem_entries_write ((OrderedMap.find?_eq_some_iff _).mp hfind) with hold | hput
  · exact hrows.of_mem hold
  · exact hbatch key stored hput

end Holds

/-- Rows that one batch of allowed operations leads to. -/
def ChangedBy (allowed : RowOp → Prop) (before after : Rows) : Prop :=
  ∃ batch, after = before.write batch ∧ ∀ op ∈ batch, allowed op

namespace ChangedBy

variable {allowed wider : RowOp → Prop} {before middle after : Rows}

theorem refl (rows : Rows) : ChangedBy allowed rows rows := ⟨[], rfl, by simp⟩

theorem of_batch {batch : WriteBatch} (h : ∀ op ∈ batch, allowed op) :
    ChangedBy allowed before (before.write batch) := ⟨batch, rfl, h⟩

theorem trans (h : ChangedBy allowed before middle) (hnext : ChangedBy allowed middle after) :
    ChangedBy allowed before after := by
  obtain ⟨first, rfl, hfirst⟩ := h
  obtain ⟨second, rfl, hsecond⟩ := hnext
  refine ⟨first ++ second, (write_append _ _ _).symm, fun op hop => ?_⟩
  exact (List.mem_append.mp hop).elim (hfirst op) (hsecond op)

theorem mono (h : ChangedBy allowed before after) (hwider : ∀ op, allowed op → wider op) :
    ChangedBy wider before after := by
  obtain ⟨batch, rfl, hbatch⟩ := h
  exact ⟨batch, rfl, fun op hop => hwider op (hbatch op hop)⟩

/-- A key no allowed operation is on reads as before. -/
theorem find?_eq (h : ChangedBy allowed before after) {key : Bytes}
    (hkey : ∀ op, allowed op → op.key ≠ key) : after.find? key = before.find? key := by
  obtain ⟨batch, rfl, hbatch⟩ := h
  exact find?_write_of_forall_ne before fun op hop => hkey op (hbatch op hop)

/-- A row that is there afterwards was there or was put. -/
theorem find?_or_put (h : ChangedBy allowed before after) {key stored : Bytes}
    (hfind : after.find? key = some stored) :
    before.find? key = some stored ∨ allowed (.put key stored) := by
  obtain ⟨batch, rfl, hbatch⟩ := h
  rcases mem_entries_write ((OrderedMap.find?_eq_some_iff _).mp hfind) with hold | hput
  · exact Or.inl ((OrderedMap.find?_eq_some_iff _).mpr hold)
  · exact Or.inr (hbatch _ hput)

/-- A relation the allowed rows are in is kept. -/
theorem holds (h : ChangedBy allowed before after) {Q : Bytes → Bytes → Prop}
    (hrows : before.Holds Q) (hallowed : ∀ key value, allowed (.put key value) → Q key value) :
    after.Holds Q := by
  obtain ⟨batch, rfl, hbatch⟩ := h
  exact hrows.write fun key value hput => hallowed key value (hbatch _ hput)

end ChangedBy

/-! ### Iteration -/

/-- The rows an iterator visits from `Seek(target)` under `iterate_upper_bound`. -/
def seek (rows : Rows) (bound : Option Bytes) (target : Bytes) : List (Bytes × Bytes) :=
  (rows.entries.dropWhile fun row => row.1 < target).takeWhile fun row =>
    bound.all fun limit => row.1 < limit

/-- A scan of the rows under a prefix: seek to it, bounded above, and stop at the
first row that does not start with it. -/
def scan (rows : Rows) (front : Bytes) : List (Bytes × Bytes) :=
  (rows.seek (Keys.upperBound front) front).takeWhile fun row => front.isPrefixOf row.1

theorem seek_eq_filter (rows : Rows) (bound : Option Bytes) (target : Bytes) :
    rows.seek bound target = rows.entries.filter fun row =>
      target ≤ row.1 ∧ ∀ limit ∈ bound, row.1 < limit := by
  have hdrop : (rows.entries.dropWhile fun row => row.1 < target) =
      rows.entries.filter fun row => !decide (row.1 < target) :=
    OrderedMap.dropWhile_eq_filter_not (rows.ordered.imp fun {first second} hlt hbelow => by
      simp only [decide_eq_true_eq] at hbelow ⊢
      exact hlt.trans hbelow)
  rw [seek, hdrop, OrderedMap.takeWhile_eq_filter, List.filter_filter]
  · refine List.filter_congr fun row _ => ?_
    have hbelow : (!decide (row.1 < target)) = decide (target ≤ row.1) := by
      rw [← decide_not]
      exact decide_eq_decide.mpr not_lt
    rw [hbelow]
    cases bound <;> simp [Bool.and_comm]
  · refine (rows.ordered.filter _).imp fun {first second} hlt hbelow => ?_
    cases bound with
    | none => rfl
    | some limit =>
        simp only [Option.all_some, decide_eq_true_eq] at hbelow ⊢
        exact hlt.trans hbelow

/-- A prefix scan visits exactly the rows whose key starts with the prefix. -/
theorem scan_eq_filter (rows : Rows) (front : Bytes) :
    rows.scan front = rows.entries.filter fun row => front.isPrefixOf row.1 := by
  have hseek : rows.seek (Keys.upperBound front) front =
      rows.entries.filter fun row => front.isPrefixOf row.1 := by
    rw [seek_eq_filter]
    refine List.filter_congr fun row _ => ?_
    rw [Bool.eq_iff_iff, decide_eq_true_eq, List.isPrefixOf_iff_prefix,
      Keys.isPrefix_iff_upperBound]
  rw [scan, hseek]
  have hall : ∀ row ∈ rows.entries.filter fun row => front.isPrefixOf row.1,
      front.isPrefixOf row.1 = true := fun row hrow => (List.mem_filter.mp hrow).2
  rw [OrderedMap.takeWhile_eq_filter, List.filter_eq_self.mpr hall]
  exact List.pairwise_of_forall_mem_list fun first hfirst _ _ _ => hall first hfirst

theorem mem_scan {rows : Rows} {front : Bytes} {row : Bytes × Bytes} :
    row ∈ rows.scan front ↔ row ∈ rows.entries ∧ front <+: row.1 := by
  rw [scan_eq_filter, List.mem_filter, List.isPrefixOf_iff_prefix]

/-- `hasAny`: whether any row starts with the prefix. -/
def hasAny (rows : Rows) (front : Bytes) : Bool := !(rows.scan front).isEmpty

/-! ### What iteration reads

An iterator bounded by the end of a prefix and started inside it visits rows
under the prefix only. -/

section Congr

variable {first second : Rows} {front : Bytes}

theorem seek_congr (h : ∀ key, front <+: key → first.find? key = second.find? key)
    {target : Bytes} (htarget : front ≤ target) :
    first.seek (Keys.upperBound front) target = second.seek (Keys.upperBound front) target := by
  rw [seek_eq_filter, seek_eq_filter]
  refine OrderedMap.filter_entries_congr
    (fun key => decide (target ≤ key ∧ ∀ limit ∈ Keys.upperBound front, key < limit)) fun key hkey => ?_
  obtain ⟨hle, hbound⟩ := of_decide_eq_true hkey
  exact h key ((Keys.isPrefix_iff_upperBound front key).mpr ⟨htarget.trans hle, hbound⟩)

theorem scan_congr (h : ∀ key, front <+: key → first.find? key = second.find? key) :
    first.scan front = second.scan front := by
  rw [scan, scan, seek_congr h le_rfl]

theorem hasAny_congr (h : ∀ key, front <+: key → first.find? key = second.find? key) :
    first.hasAny front = second.hasAny front := by
  rw [hasAny, hasAny, scan_congr h]

end Congr

end Rows

end MonoBucket
