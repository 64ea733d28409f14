/-
The audit ring over a store's life

An append takes the next sequence number, puts its row and deletes the row one
capacity below; the number is taken before the batch is written, and an append
whose write fails keeps it. Opening the store takes the number up again from the
last audit row. A number that is taken and not written is one deletion missed:
the row one capacity below stays, and is behind every later deletion.
-/

import MonoBucket.Lib.Trace
import MonoBucket.Storage.Recount

namespace MonoBucket

open Codec

/-! ### Audit keys in order -/

namespace Keys

/-- A byte string as a number, most significant byte first. -/
def bigEndianValue : Bytes → Nat
  | [] => 0
  | byte :: rest => byte.toNat * 256 ^ rest.length + bigEndianValue rest

theorem bigEndianValue_lt (digits : Bytes) : bigEndianValue digits < 256 ^ digits.length := by
  induction digits with
  | nil => simp [bigEndianValue]
  | cons byte rest ih =>
      have hbyte : byte.toNat + 1 ≤ 256 := byte.toNat_lt
      calc bigEndianValue (byte :: rest)
          < byte.toNat * 256 ^ rest.length + 256 ^ rest.length := Nat.add_lt_add_left ih _
        _ = (byte.toNat + 1) * 256 ^ rest.length := by ring
        _ ≤ 256 * 256 ^ rest.length := Nat.mul_le_mul_right _ hbyte
        _ = 256 ^ (byte :: rest).length := by rw [List.length_cons, pow_succ, mul_comm]

/-- Byte strings of one length compare as the numbers they are. -/
theorem lt_iff_bigEndianValue_lt {first second : Bytes} (hlength : first.length = second.length) :
    first < second ↔ bigEndianValue first < bigEndianValue second := by
  induction first generalizing second with
  | nil =>
      obtain rfl := List.length_eq_zero_iff.mp hlength.symm
      simp [bigEndianValue]
  | cons byte rest ih =>
      cases second with
      | nil => cases hlength
      | cons other others =>
          have hrest : rest.length = others.length := Nat.succ.inj hlength
          have hlow := bigEndianValue_lt rest
          have hhigh := bigEndianValue_lt others
          rw [hrest] at hlow
          rw [List.cons_lt_cons_iff, ih hrest, bigEndianValue, bigEndianValue, hrest,
            UInt8.lt_iff_toNat_lt, ← UInt8.toNat_inj]
          constructor
          · rintro (hlt | ⟨heq, hlt⟩)
            · nlinarith [Nat.mul_le_mul_right (256 ^ others.length) hlt]
            · rw [heq]
              omega
          · intro hlt
            obtain hbyte | heq | hbyte := lt_trichotomy byte.toNat other.toNat
            · exact .inl hbyte
            · rw [heq] at hlt
              exact .inr ⟨heq, by omega⟩
            · have := Nat.mul_le_mul_right (256 ^ others.length) (Nat.succ_le_of_lt hbyte)
              rw [Nat.succ_mul] at this
              omega

theorem length_bigEndian64 (value : UInt64) : (bigEndian64 value).length = 8 := rfl

theorem bigEndianValue_bigEndian64 (value : UInt64) :
    bigEndianValue (bigEndian64 value) = value.toNat := by
  have hbyte : ∀ shift : UInt64, ((value >>> shift) &&& 0xFF).toUInt8.toNat =
      value.toNat >>> (shift.toNat % 64) % 256 := by
    intro shift
    rw [UInt64.toNat_toUInt8, UInt64.toNat_and, UInt64.toNat_shiftRight]
    have hlow : value.toNat >>> (shift.toNat % 64) &&& 255 = value.toNat >>> (shift.toNat % 64) % 256 :=
      Nat.and_two_pow_sub_one_eq_mod _ 8
    change (value.toNat >>> (shift.toNat % 64) &&& 255) % 2 ^ 8 = _
    rw [hlow]
    omega
  have hvalue := value.toNat_lt
  simp only [bigEndian64, List.map_cons, List.map_nil, bigEndianValue, List.length_cons,
    List.length_nil, hbyte, Nat.shiftRight_eq_div_pow]
  simp only [UInt64.reduceToNat, Nat.reduceMod, Nat.reducePow, Nat.reduceAdd]
  omega

/-- Two byte strings of one length with one value are the same. -/
theorem bigEndianValue_inj {first second : Bytes} (hlength : first.length = second.length)
    (hvalue : bigEndianValue first = bigEndianValue second) : first = second := by
  obtain hlt | heq | hlt := lt_trichotomy first second
  · exact absurd ((lt_iff_bigEndianValue_lt hlength).mp hlt) (by omega)
  · exact heq
  · exact absurd ((lt_iff_bigEndianValue_lt hlength.symm).mp hlt) (by omega)

/-- Reading eight bytes back, one shift at a time. -/
theorem toNat_foldl_bytes {digits : Bytes} {value : UInt64}
    (hfits : value.toNat * 256 ^ digits.length + bigEndianValue digits < 2 ^ 64) :
    (digits.foldl (fun (value : UInt64) byte => (value <<< 8) ||| byte.toUInt64) value).toNat =
      value.toNat * 256 ^ digits.length + bigEndianValue digits := by
  induction digits generalizing value with
  | nil => simp [bigEndianValue]
  | cons byte rest ih =>
      have hbyte : byte.toNat < 2 ^ 8 := byte.toNat_lt
      have hpos : 0 < 256 ^ rest.length := Nat.pow_pos (by decide)
      rw [List.length_cons, pow_succ, bigEndianValue] at hfits
      have hshift : value.toNat * 256 < 2 ^ 64 := by
        refine lt_of_le_of_lt ?_ hfits
        calc value.toNat * 256 ≤ value.toNat * 256 * 256 ^ rest.length := Nat.le_mul_of_pos_right _ hpos
          _ = value.toNat * (256 ^ rest.length * 256) := by ring
          _ ≤ _ := Nat.le_add_right _ _
      have hnext : ((value <<< 8) ||| byte.toUInt64).toNat = value.toNat * 256 + byte.toNat := by
        rw [UInt64.toNat_or, UInt64.toNat_shiftLeft, UInt8.toNat_toUInt64]
        change value.toNat <<< 8 % 2 ^ 64 ||| byte.toNat = _
        rw [Nat.shiftLeft_eq, Nat.mod_eq_of_lt hshift, ← Nat.shiftLeft_eq value.toNat 8,
          ← Nat.shiftLeft_add_eq_or_of_lt hbyte, Nat.shiftLeft_eq]
      have hregroup : (value.toNat * 256 + byte.toNat) * 256 ^ rest.length + bigEndianValue rest =
          value.toNat * (256 ^ rest.length * 256) +
            (byte.toNat * 256 ^ rest.length + bigEndianValue rest) := by ring
      rw [List.foldl_cons, ih (by rw [hnext, hregroup]; exact hfits), hnext, hregroup,
        List.length_cons, pow_succ, bigEndianValue]

@[simp]
theorem auditSequence_audit (sequence : UInt64) : auditSequence (audit sequence) = some sequence := by
  rw [audit, auditSequence, if_pos ⟨length_bigEndian64 sequence, rfl⟩, Option.some.injEq,
    ← UInt64.toNat_inj, toNat_foldl_bytes] <;>
    rw [bigEndianValue_bigEndian64, UInt64.toNat_zero, zero_mul, zero_add]
  exact sequence.toNat_lt

theorem audit_lt_audit {first second : UInt64} : audit first < audit second ↔ first < second := by
  have hdigits : bigEndian64 first < bigEndian64 second ↔ first < second := by
    rw [lt_iff_bigEndianValue_lt ((length_bigEndian64 first).trans (length_bigEndian64 second).symm),
      bigEndianValue_bigEndian64, bigEndianValue_bigEndian64, UInt64.lt_iff_toNat_lt]
  rw [audit, audit, List.cons_lt_cons_iff, hdigits]
  exact ⟨fun h => h.elim (fun hlt => absurd hlt (lt_irrefl _)) And.right, fun h => .inr ⟨rfl, h⟩⟩

theorem audit_inj {first second : UInt64} (h : audit first = audit second) : first = second := by
  have hsame := congrArg auditSequence h
  rw [auditSequence_audit, auditSequence_audit] at hsame
  exact Option.some.inj hsame

theorem head?_audit (sequence : UInt64) : (audit sequence).head? = some kAudit := rfl

end Keys

/-! ### The audit region -/

/-- The rows with an audit key, in key order. -/
def auditRows (rows : Rows) : List (Bytes × Bytes) :=
  rows.entries.filter fun row => row.1.head? = some Keys.kAudit

def auditRow (entry : AuditRecord) : Bytes × Bytes := (Keys.audit entry.sequence, encodeAudit entry)

theorem mem_auditRows {rows : Rows} {row : Bytes × Bytes} :
    row ∈ auditRows rows ↔ rows.find? row.1 = some row.2 ∧ row.1.head? = some Keys.kAudit := by
  rw [auditRows, List.mem_filter, OrderedMap.find?_eq_some_iff, decide_eq_true_eq]

theorem auditRows_ordered (rows : Rows) : (auditRows rows).Pairwise fun first second => first.1 < second.1 :=
  rows.ordered.filter _

/-- Rows whose key is not an audit key are before all audit rows or behind them. -/
theorem lt_audit_of_head? {key : Bytes} {limit sequence : UInt64} (hle : key ≤ Keys.audit limit)
    (hhead : key.head? ≠ some Keys.kAudit) : key < Keys.audit sequence := by
  cases key with
  | nil => exact List.nil_lt_cons _ _
  | cons byte rest =>
      have hbyte : byte ≠ Keys.kAudit := fun heq => hhead (heq ▸ rfl)
      have hlt : byte :: rest < Keys.kAudit :: Keys.bigEndian64 limit :=
        lt_of_le_of_ne hle fun heq => hbyte (List.cons.inj heq).1
      obtain hbelow | ⟨heq, -⟩ := List.cons_lt_cons_iff.mp hlt
      · exact List.cons_lt_cons_iff.mpr (.inl hbelow)
      · exact absurd heq hbyte

/-- The rows up to the last possible audit key: some that are none, then the ring. -/
theorem filter_le_audit {rows : Rows} {ring : List AuditRecord}
    (hring : auditRows rows = ring.map auditRow) :
    ∃ below, (∀ row ∈ below, Keys.auditSequence row.1 = none) ∧
      (rows.entries.filter fun row => row.1 ≤ Keys.audit (0 - 1)) = below ++ ring.map auditRow := by
  refine ⟨rows.entries.filter fun row => row.1 ≤ Keys.audit (0 - 1) ∧ row.1.head? ≠ some Keys.kAudit,
    fun row hrow => ?_, ?_⟩
  · have hhead := (of_decide_eq_true (List.mem_filter.mp hrow).2).2
    cases hsequence : Keys.auditSequence row.1 with
    | none => rfl
    | some sequence => exact absurd (Keys.head?_of_auditSequence hsequence) hhead
  · have hle : ∀ row ∈ auditRows rows, row.1 ≤ Keys.audit (0 - 1) := by
      intro row hrow
      rw [hring] at hrow
      obtain ⟨entry, -, rfl⟩ := List.mem_map.mp hrow
      refine not_lt.mp fun hlt => ?_
      exact absurd (Keys.audit_lt_audit.mp hlt) (by
        rw [UInt64.lt_iff_toNat_lt]
        have := entry.sequence.toNat_lt
        simp
        omega)
    rw [← hring]
    refine OrderedMap.eq_of_mem_iff Prod.fst (rows.ordered.filter _) ?_ fun row => ?_
    · refine List.pairwise_append.mpr ⟨rows.ordered.filter _, auditRows_ordered rows, ?_⟩
      intro row hrow other hother
      rw [hring] at hother
      obtain ⟨entry, -, rfl⟩ := List.mem_map.mp hother
      obtain ⟨hbelow, hhead⟩ := of_decide_eq_true (List.mem_filter.mp hrow).2
      exact lt_audit_of_head? hbelow hhead
    · rw [List.mem_append, List.mem_filter, List.mem_filter, decide_eq_true_eq, decide_eq_true_eq]
      constructor
      · rintro ⟨hrow, hbelow⟩
        by_cases hhead : row.1.head? = some Keys.kAudit
        · exact .inr (List.mem_filter.mpr ⟨hrow, decide_eq_true hhead⟩)
        · exact .inl ⟨hrow, hbelow, hhead⟩
      · rintro (⟨hrow, hbelow, -⟩ | hrow)
        · exact ⟨hrow, hbelow⟩
        · exact ⟨(List.mem_filter.mp hrow).1, hle row hrow⟩

theorem readAll_map {α : Type} {decode : Bytes → Bytes → Except DecodeError (Option α)}
    {row : α → Bytes × Bytes} (hdecode : ∀ entry, decode (row entry).1 (row entry).2 = .ok (some entry))
    (entries : List α) : readAll decode (entries.map row) = .ok entries := by
  induction entries with
  | nil => rfl
  | cons entry rest ih =>
      rw [List.map_cons, readAll, hdecode, ih]
      rfl

/-- The newest entries of the ring, newest first. -/
theorem listAudit_eq {rows : Rows} {ring : List AuditRecord}
    (hring : auditRows rows = ring.map auditRow) (limit : Nat) :
    listAudit rows limit = .ok (ring.reverse.take limit) := by
  obtain ⟨below, hbelow, hrows⟩ := filter_le_audit hring
  rw [listAudit, hrows, List.reverse_append, List.takeWhile_append_of_pos, ← List.map_reverse]
  · have hnone : (below.reverse.takeWhile fun row => (Keys.auditSequence row.1).isSome) = [] := by
      cases hreverse : below.reverse with
      | nil => rfl
      | cons row rest =>
          have hmem : row ∈ below := List.mem_reverse.mp (hreverse ▸ List.mem_cons_self)
          exact List.takeWhile_cons_of_neg (by rw [hbelow row hmem]; exact Bool.false_ne_true)
    rw [hnone, List.append_nil, ← List.map_take]
    refine readAll_map (fun entry => ?_) _
    dsimp only [auditRow]
    rw [Keys.auditSequence_audit]
    dsimp only
    rw [decodeAudit_encodeAudit]
    rfl
  · intro row hrow
    obtain ⟨entry, -, rfl⟩ := List.mem_map.mp (List.mem_reverse.mp hrow)
    dsimp only [auditRow]
    rw [Keys.auditSequence_audit]
    rfl

/-- Opening takes the sequence up from the last entry of the ring. -/
theorem seedAuditSequence_eq {rows : Rows} {ring : List AuditRecord}
    (hring : auditRows rows = ring.map auditRow) :
    seedAuditSequence rows = (ring.getLast?.map AuditRecord.sequence).getD 0 := by
  obtain ⟨below, hbelow, hrows⟩ := filter_le_audit hring
  rw [seedAuditSequence, hrows, List.getLast?_append, List.getLast?_map]
  cases hlast : ring.getLast? with
  | none =>
      cases hother : below.getLast? with
      | none => rfl
      | some row =>
          dsimp only [Option.map_none, Option.none_or, Option.getD_none]
          rw [hbelow row (List.mem_of_getLast? hother)]
          rfl
  | some entry =>
      dsimp only [Option.map_some, Option.some_or, Option.getD_some, auditRow]
      rw [Keys.auditSequence_audit]
      rfl

/-! ### The log over a store's life -/

namespace AuditLog

/-- An append whose batch is not written. -/
def appendAuditFailed (store : MetadataStore) : MetadataStore :=
  { store with auditSequence := store.auditSequence + 1 }

/-- A store with the entries it has taken in, numbered as they were, in order. -/
structure State where
  store : MetadataStore
  history : List AuditRecord := []

inductive Label
  | append (entry : AuditRecord) (written : Bool)
  | reopen

def step (state : State) : Label → Option State
  | .append entry true =>
    let (store, sequence) := appendAudit state.store entry
    some ⟨store, state.history ++ [{ entry with sequence := sequence }]⟩
  | .append _ false => some { state with store := appendAuditFailed state.store }
  | .reopen =>
    match openMetadataStore state.store.rows with
    | .ok (store, _) => some { state with store := store }
    | .error _ => none

/-- What the log promises: no more rows than the capacity, numbered in the order of
the appends, the most recent ones, and listed newest first. -/
structure Sound (state : State) : Prop where
  bounded : (auditRows state.store.rows).length ≤ auditCapacity.toNat
  increasing : state.history.Pairwise fun first second => first.sequence < second.sequence
  recent : ∃ ring, ring <:+ state.history ∧ (state.history ≠ [] → ring ≠ []) ∧
    auditRows state.store.rows = ring.map auditRow ∧
    ∀ limit, listAudit state.store.rows limit = .ok (ring.reverse.take limit)

/-- What the next append deletes is the oldest row, or there is no such row and the
ring has room; and the sequence is not at its end. -/
def TrimsOldest (state : State) : Label → Prop
  | .append _ written =>
    let slot := Keys.audit (state.store.auditSequence + 1 - auditCapacity)
    state.store.auditSequence ≠ 0 - 1 ∧
      (written = true → auditCapacity < state.store.auditSequence + 1 →
        (auditRows state.store.rows).head?.map Prod.fst = some slot ∨
          state.store.rows.find? slot = none ∧
            (auditRows state.store.rows).length < auditCapacity.toNat)
  | .reopen => True

/-- What holds all along: the rows are the last few entries, and the sequence is not
behind any of them. -/
structure Kept (state : State) (ring : List AuditRecord) : Prop where
  rows : auditRows state.store.rows = ring.map auditRow
  recent : ring <:+ state.history
  newest : state.history ≠ [] → ring ≠ []
  increasing : state.history.Pairwise fun first second => first.sequence < second.sequence
  positive : ∀ entry ∈ state.history, 0 < entry.sequence
  numbered : ∀ entry ∈ state.history, entry.sequence ≤ state.store.auditSequence
  bounded : ring.length ≤ auditCapacity.toNat

namespace Kept

variable {state next : State} {ring : List AuditRecord}

theorem sound (h : Kept state ring) : Sound state where
  bounded := by
    rw [h.rows, List.length_map]
    exact h.bounded
  increasing := h.increasing
  recent := ⟨ring, h.recent, h.newest, h.rows, listAudit_eq h.rows⟩

theorem ring_increasing (h : Kept state ring) :
    ring.Pairwise fun first second => first.sequence < second.sequence :=
  h.increasing.sublist h.recent.sublist

end Kept

theorem lt_add_one {sequence : UInt64} (hroom : sequence ≠ 0 - 1) : sequence < sequence + 1 := by
  have hlast : sequence.toNat ≠ 2 ^ 64 - 1 := fun heq => hroom (UInt64.toNat_inj.mp (by rw [heq]; rfl))
  have hbound := sequence.toNat_lt
  rw [UInt64.lt_iff_toNat_lt, UInt64.toNat_add]
  simp
  omega

theorem toNat_add_one {sequence : UInt64} (hroom : sequence ≠ 0 - 1) :
    (sequence + 1).toNat = sequence.toNat + 1 := by
  have hlt := UInt64.lt_iff_toNat_lt.mp (lt_add_one hroom)
  rw [UInt64.toNat_add] at hlt ⊢
  have hbound := sequence.toNat_lt
  simp at hlt ⊢
  omega

theorem audit_ne_slot (sequence : UInt64) : Keys.audit sequence ≠ Keys.audit (sequence - auditCapacity) := by
  intro heq
  have hsame := congrArg UInt64.toNat (Keys.audit_inj heq)
  rw [UInt64.toNat_sub] at hsame
  have hbound := sequence.toNat_lt
  have hcapacity : auditCapacity.toNat = 20000 := rfl
  omega

theorem find?_appendAudit (store : MetadataStore) (entry : AuditRecord) (key : Bytes) :
    (appendAudit store entry).1.rows.find? key =
      if key = Keys.audit (store.auditSequence + 1) then some (encodeAudit entry)
      else if auditCapacity < store.auditSequence + 1 ∧
          key = Keys.audit (store.auditSequence + 1 - auditCapacity) then none
      else store.rows.find? key := by
  have hput : ∀ rows : Rows, (rows.apply (.put (Keys.audit (store.auditSequence + 1)) (encodeAudit entry))).find?
      key = if key = Keys.audit (store.auditSequence + 1) then some (encodeAudit entry) else rows.find? key :=
    fun rows => Rows.find?_apply ..
  have hdelete : ∀ (rows : Rows) (slot : Bytes),
      (rows.apply (.delete slot)).find? key = if key = slot then none else rows.find? key :=
    fun rows slot => Rows.find?_apply ..
  rw [appendAudit]
  dsimp only
  by_cases hcapacity : auditCapacity < store.auditSequence + 1
  · rw [if_pos hcapacity, Rows.write_cons, Rows.write_cons, Rows.write_nil, hdelete, hput]
    by_cases hnew : key = Keys.audit (store.auditSequence + 1)
    · rw [if_pos hnew, if_pos hnew, if_neg (hnew ▸ audit_ne_slot _)]
    · simp only [hnew, hcapacity, true_and, if_false]
  · rw [if_neg hcapacity, Rows.write_cons, Rows.write_nil, hput]
    simp only [hcapacity, false_and, if_false]

/-- The rows after an append: the new one behind the others, less the one in the slot
that is trimmed. -/
theorem auditRows_appendAudit {store : MetadataStore} {ring : List AuditRecord} (entry : AuditRecord)
    (hrows : auditRows store.rows = ring.map auditRow)
    (hincreasing : ring.Pairwise fun first second => first.sequence < second.sequence)
    (hnumbered : ∀ entry ∈ ring, entry.sequence ≤ store.auditSequence)
    (hroom : store.auditSequence ≠ 0 - 1) :
    auditRows (appendAudit store entry).1.rows =
      ((ring.filter fun kept : AuditRecord => ¬ (auditCapacity < store.auditSequence + 1 ∧
          kept.sequence = store.auditSequence + 1 - auditCapacity)) ++
        [{ entry with sequence := store.auditSequence + 1 }]).map auditRow := by
  have hkeys : ∀ {first second : AuditRecord}, first.sequence < second.sequence →
      (auditRow first).1 < (auditRow second).1 := fun hlt => Keys.audit_lt_audit.mpr hlt
  refine OrderedMap.eq_of_mem_iff Prod.fst (auditRows_ordered _) ?_ fun row => ?_
  · rw [List.map_append, List.pairwise_append]
    refine ⟨List.Pairwise.map _ (fun _ _ => hkeys) (hincreasing.filter _), List.pairwise_singleton _ _, ?_⟩
    intro row hrow other hother
    obtain ⟨kept, hkept, rfl⟩ := List.mem_map.mp hrow
    obtain rfl := List.mem_singleton.mp hother
    exact hkeys (UInt64.lt_of_le_of_lt (hnumbered kept (List.mem_filter.mp hkept).1) (lt_add_one hroom))
  · have hold : ∀ key stored, store.rows.find? key = some stored ∧ key.head? = some Keys.kAudit ↔
        ∃ kept ∈ ring, auditRow kept = (key, stored) := by
      intro key stored
      rw [← List.mem_map, ← hrows, mem_auditRows]
    obtain ⟨key, stored⟩ := row
    rw [mem_auditRows, find?_appendAudit, List.map_append, List.mem_append, List.mem_map]
    dsimp only
    split_ifs with hnew htrimmed
    · subst hnew
      constructor
      · rintro ⟨hstored, -⟩
        obtain rfl := Option.some.inj hstored
        exact .inr (List.mem_singleton_self _)
      · rintro (⟨kept, hkept, heq⟩ | hrow)
        · have hlt := UInt64.lt_of_le_of_lt (hnumbered kept (List.mem_filter.mp hkept).1) (lt_add_one hroom)
          exact absurd (Keys.audit_inj (Prod.mk.inj heq).1) (UInt64.ne_of_lt hlt)
        · obtain ⟨-, rfl⟩ := Prod.mk.inj (List.mem_singleton.mp hrow)
          exact ⟨rfl, rfl⟩
    · constructor
      · rintro ⟨hstored, -⟩
        cases hstored
      · rintro (⟨kept, hkept, heq⟩ | hrow)
        · have hslot := Keys.audit_inj ((Prod.mk.inj heq).1.trans htrimmed.2)
          exact absurd ⟨htrimmed.1, hslot⟩ (of_decide_eq_true (List.mem_filter.mp hkept).2)
        · exact absurd (Prod.mk.inj (List.mem_singleton.mp hrow)).1 hnew
    · rw [hold]
      constructor
      · rintro ⟨kept, hkept, heq⟩
        refine .inl ⟨kept, List.mem_filter.mpr ⟨hkept, decide_eq_true ?_⟩, heq⟩
        rintro ⟨hcapacity, hslot⟩
        exact htrimmed ⟨hcapacity, by rw [← hslot]; exact (Prod.mk.inj heq).1.symm⟩
      · rintro (⟨kept, hkept, heq⟩ | hrow)
        · exact ⟨kept, (List.mem_filter.mp hkept).1, heq⟩
        · exact absurd (Prod.mk.inj (List.mem_singleton.mp hrow)).1 hnew

/-- Positive numbers in increasing order are no more than the last of them. -/
theorem length_le_of_increasing {ring : List AuditRecord} {last : UInt64}
    (hincreasing : ring.Pairwise fun first second => first.sequence < second.sequence)
    (hpositive : ∀ entry ∈ ring, 0 < entry.sequence) (hlast : ∀ entry ∈ ring, entry.sequence ≤ last) :
    ring.length ≤ last.toNat := by
  have hnodup : (ring.map fun entry => entry.sequence.toNat).Nodup := by
    rw [List.nodup_iff_pairwise_ne, List.pairwise_map]
    exact hincreasing.imp fun hlt => (UInt64.lt_iff_toNat_lt.mp hlt).ne
  have hsubset : (ring.map fun entry => entry.sequence.toNat).toFinset ⊆ Finset.Icc 1 last.toNat := by
    intro number hnumber
    obtain ⟨entry, hentry, rfl⟩ := List.mem_map.mp (List.mem_toFinset.mp hnumber)
    exact Finset.mem_Icc.mpr ⟨UInt64.lt_iff_toNat_lt.mp (hpositive entry hentry),
      UInt64.le_iff_toNat_le.mp (hlast entry hentry)⟩
  have hcard := Finset.card_le_card hsubset
  rwa [List.toFinset_card_of_nodup hnodup, List.length_map, Nat.card_Icc, Nat.add_sub_cancel] at hcard

/-- What the trim leaves of the ring: all but the oldest entry, or all of it. -/
theorem Kept.trimmed {state : State} {ring : List AuditRecord} (h : Kept state ring)
    {entry : AuditRecord} (htrims : TrimsOldest state (.append entry true)) :
    ∃ left, left <:+ ring ∧ left.length < auditCapacity.toNat ∧
      (ring.filter fun kept : AuditRecord => ¬ (auditCapacity < state.store.auditSequence + 1 ∧
        kept.sequence = state.store.auditSequence + 1 - auditCapacity)) = left := by
  obtain ⟨hroom, htrims⟩ := htrims
  have hmem : ∀ kept ∈ ring, kept ∈ state.history := fun kept hkept => h.recent.subset hkept
  by_cases hcapacity : auditCapacity < state.store.auditSequence + 1
  · obtain holdest | ⟨hnone, hlength⟩ := htrims rfl hcapacity
    · rw [h.rows] at holdest
      cases hring : ring with
      | nil =>
          rw [hring] at holdest
          cases holdest
      | cons first rest =>
          rw [hring] at holdest
          have hincreasing := h.ring_increasing
          have hbounded := h.bounded
          rw [hring] at hincreasing hbounded
          have hfirst : first.sequence = state.store.auditSequence + 1 - auditCapacity :=
            Keys.audit_inj (Option.some.inj holdest)
          refine ⟨rest, List.suffix_cons first rest, hbounded, ?_⟩
          rw [List.filter_cons_of_neg (by simp [hcapacity, hfirst])]
          refine List.filter_eq_self.mpr fun kept hkept => decide_eq_true ?_
          rintro ⟨-, hslot⟩
          have hlt := (List.pairwise_cons.mp hincreasing).1 kept hkept
          exact UInt64.ne_of_lt hlt (hfirst.trans hslot.symm)
    · rw [h.rows, List.length_map] at hlength
      refine ⟨ring, List.suffix_rfl, hlength, ?_⟩
      refine List.filter_eq_self.mpr fun kept hkept => decide_eq_true ?_
      rintro ⟨-, hslot⟩
      have hrow : auditRow kept ∈ auditRows state.store.rows := by
        rw [h.rows]
        exact List.mem_map_of_mem hkept
      have hfound := (mem_auditRows.mp hrow).1
      dsimp only [auditRow] at hfound
      rw [hslot, hnone] at hfound
      cases hfound
  · have hlength : ring.length ≤ state.store.auditSequence.toNat :=
      length_le_of_increasing h.ring_increasing (fun kept hkept => h.positive kept (hmem kept hkept))
        fun kept hkept => h.numbered kept (hmem kept hkept)
    refine ⟨ring, List.suffix_rfl, ?_, ?_⟩
    · rw [UInt64.lt_iff_toNat_lt, toNat_add_one hroom] at hcapacity
      omega
    · refine List.filter_eq_self.mpr fun kept hkept => decide_eq_true ?_
      rintro ⟨hover, -⟩
      exact hcapacity hover

theorem Kept.append {state : State} {ring : List AuditRecord} (h : Kept state ring)
    {entry : AuditRecord} (htrims : TrimsOldest state (.append entry true)) :
    ∃ ring, Kept ⟨(appendAudit state.store entry).1,
      state.history ++ [{ entry with sequence := state.store.auditSequence + 1 }]⟩ ring := by
  have hroom := htrims.1
  obtain ⟨left, hleft, hlength, hfilter⟩ := h.trimmed htrims
  have hrows := auditRows_appendAudit entry h.rows h.ring_increasing
    (fun kept hkept => h.numbered kept (h.recent.subset hkept)) hroom
  rw [hfilter] at hrows
  have hnumbered : ∀ kept ∈ state.history, kept.sequence < state.store.auditSequence + 1 :=
    fun kept hkept => UInt64.lt_of_le_of_lt (h.numbered kept hkept) (lt_add_one hroom)
  refine ⟨_, hrows, ?_, fun _ => by simp, ?_, ?_, ?_, ?_⟩
  · obtain ⟨front, hfront⟩ := hleft.trans h.recent
    exact ⟨front, by rw [← hfront, List.append_assoc]⟩
  · refine List.pairwise_append.mpr ⟨h.increasing, List.pairwise_singleton _ _, ?_⟩
    intro kept hkept other hother
    obtain rfl := List.mem_singleton.mp hother
    exact hnumbered kept hkept
  · intro kept hkept
    obtain hold | hnew := List.mem_append.mp hkept
    · exact h.positive kept hold
    · obtain rfl := List.mem_singleton.mp hnew
      exact UInt64.lt_of_le_of_lt (UInt64.zero_le) (lt_add_one hroom)
  · intro kept hkept
    obtain hold | hnew := List.mem_append.mp hkept
    · exact UInt64.le_of_lt (hnumbered kept hold)
    · obtain rfl := List.mem_singleton.mp hnew
      exact UInt64.le_refl _
  · rw [List.length_append, List.length_singleton]
    exact hlength

theorem Kept.appendFailed {state : State} {ring : List AuditRecord} (h : Kept state ring)
    (hroom : state.store.auditSequence ≠ 0 - 1) :
    Kept { state with store := appendAuditFailed state.store } ring where
  rows := h.rows
  recent := h.recent
  newest := h.newest
  increasing := h.increasing
  positive := h.positive
  numbered entry hentry := UInt64.le_trans (h.numbered entry hentry) (UInt64.le_of_lt (lt_add_one hroom))
  bounded := h.bounded

/-- Opening writes no audit row. -/
theorem auditRows_verifyFormatVersion {rows verified : Rows} (h : verifyFormatVersion rows = .ok verified) :
    auditRows verified = auditRows rows := by
  rw [verifyFormatVersion] at h
  split at h
  · obtain rfl := Except.ok.inj h
    refine OrderedMap.eq_of_mem_iff Prod.fst (auditRows_ordered _) (auditRows_ordered _) fun row => ?_
    rw [mem_auditRows, mem_auditRows]
    refine and_congr_left fun hhead => ?_
    rw [Rows.find?_write_of_forall_ne]
    intro op hop
    obtain rfl := List.mem_singleton.mp hop
    intro heq
    rw [← heq] at hhead
    revert hhead
    decide
  · split_ifs at h
    · obtain rfl := Except.ok.inj h
      rfl
    · cases h

theorem openMetadataStore_audit {rows : Rows} {store : MetadataStore}
    {charges : OrderedMap Bytes BucketCharge} (h : openMetadataStore rows = .ok (store, charges)) :
    auditRows store.rows = auditRows rows ∧ store.auditSequence = seedAuditSequence store.rows := by
  rw [openMetadataStore] at h
  obtain ⟨verified, hverified, h⟩ := Except.bind_eq_ok_iff.mp h
  obtain ⟨scan, -, h⟩ := Except.bind_eq_ok_iff.mp h
  obtain ⟨rfl, -⟩ := Prod.mk.inj (Except.pure_eq_ok_iff.mp h)
  exact ⟨auditRows_verifyFormatVersion hverified, rfl⟩

theorem Kept.reopen {state : State} {ring : List AuditRecord} (h : Kept state ring)
    {store : MetadataStore} {charges : OrderedMap Bytes BucketCharge}
    (hopened : openMetadataStore state.store.rows = .ok (store, charges)) :
    Kept { state with store := store } ring := by
  obtain ⟨hsame, hsequence⟩ := openMetadataStore_audit hopened
  have hrows : auditRows store.rows = ring.map auditRow := hsame.trans h.rows
  refine ⟨hrows, h.recent, h.newest, h.increasing, h.positive, fun entry hentry => ?_, h.bounded⟩
  show entry.sequence ≤ store.auditSequence
  rw [hsequence, seedAuditSequence_eq hrows]
  obtain ⟨front, hfront⟩ := h.recent
  obtain ⟨last, hlast⟩ : ∃ last, ring.getLast? = some last :=
    Option.isSome_iff_exists.mp (List.getLast?_isSome.mpr (h.newest (List.ne_nil_of_mem hentry)))
  obtain ⟨init, hinit⟩ := List.getLast?_eq_some_iff.mp hlast
  rw [hlast]
  show entry.sequence ≤ last.sequence
  have hincreasing := h.increasing
  rw [← hfront, hinit, ← List.append_assoc] at hentry hincreasing
  obtain hold | hnew := List.mem_append.mp hentry
  · exact UInt64.le_of_lt ((List.pairwise_append.mp hincreasing).2.2 entry hold last (List.mem_singleton_self _))
  · rw [List.mem_singleton.mp hnew]
    exact UInt64.le_refl _

/-- A store that has been opened on rows without an audit entry. -/
theorem Kept.start {rows : Rows} {store : MetadataStore} {charges : OrderedMap Bytes BucketCharge}
    (hopened : openMetadataStore rows = .ok (store, charges)) (hnone : auditRows rows = []) :
    Kept { store := store } [] where
  rows := (openMetadataStore_audit hopened).1.trans hnone
  recent := List.suffix_rfl
  newest h := absurd rfl h
  increasing := List.Pairwise.nil
  positive entry hentry := by cases hentry
  numbered entry hentry := by cases hentry
  bounded := Nat.zero_le _

theorem Kept.of_step {state next : State} {label : Label} (h : ∃ ring, Kept state ring)
    (htrims : TrimsOldest state label) (hstep : step state label = some next) : ∃ ring, Kept next ring := by
  obtain ⟨ring, hkept⟩ := h
  cases label with
  | append entry written =>
      cases written with
      | true =>
          obtain rfl := Option.some.inj hstep
          exact hkept.append htrims
      | false =>
          obtain rfl := Option.some.inj hstep
          exact ⟨ring, hkept.appendFailed htrims.1⟩
  | reopen =>
      rw [step] at hstep
      split at hstep
      · rename_i store charges hopened
        obtain rfl := Option.some.inj hstep
        exact ⟨ring, hkept.reopen hopened⟩
      · cases hstep

/-- The log is a ring over any history in which every trim takes the oldest row. -/
theorem sound_of_trimsOldest {rows : Rows} {store : MetadataStore}
    {charges : OrderedMap Bytes BucketCharge} {labels : List Label} {final : State}
    (hopened : openMetadataStore rows = .ok (store, charges)) (hnone : auditRows rows = [])
    (htrims : Trace.Every step TrimsOldest { store := store } labels)
    (hrun : Trace.run step { store := store } labels = some final) : Sound final := by
  obtain ⟨ring, hkept⟩ := htrims.run_invariant Kept.of_step ⟨[], Kept.start hopened hnone⟩ hrun
  exact hkept.sound

instance decidableTrimsOldest (state : State) : ∀ label : Label, Decidable (TrimsOldest state label)
  | .append _ written =>
    inferInstanceAs (Decidable (_ ∧ (written = true → _ → _)))
  | .reopen => inferInstanceAs (Decidable True)

/-- Two appends with a failed one and a reopening between them. -/
theorem sound_reopened :
    ∃ final, Trace.run step { store := Recount.fresh }
        [.append {} true, .append {} false, .reopen, .append {} true] = some final ∧ Sound final := by
  have hruns : (Trace.run step { store := Recount.fresh }
      [.append {} true, .append {} false, .reopen, .append {} true]).isSome := by decide +kernel
  obtain ⟨final, hfinal⟩ := Option.isSome_iff_exists.mp hruns
  refine ⟨final, hfinal, ?_⟩
  exact sound_of_trimsOldest Recount.openMetadataStore_empty rfl (by decide +kernel) hfinal

/-! ### A number that is taken and not written -/

section Gap

variable (entry : AuditRecord)

/-- A ring that has taken in some entries and is not over its capacity yet. -/
structure Filling (count : Nat) (state : State) : Prop where
  sequence : state.store.auditSequence.toNat = count
  oldest : state.store.rows.find? (Keys.audit 1) = some (encodeAudit entry)
  history : ∃ rest, state.history = { entry with sequence := 1 } :: { entry with sequence := 2 } :: rest

variable {entry}

theorem Filling.append {count : Nat} {state : State} (h : Filling entry count state)
    (hroom : count < auditCapacity.toNat) (hpositive : 0 < count) :
    ∃ next, step state (.append entry true) = some next ∧ Filling entry (count + 1) next := by
  have hcapacity : auditCapacity.toNat = 20000 := rfl
  have hsequence : state.store.auditSequence ≠ 0 - 1 := by
    intro heq
    have hcount := h.sequence
    rw [heq] at hcount
    have hlast : (0 - 1 : UInt64).toNat = 2 ^ 64 - 1 := rfl
    omega
  have hnext := toNat_add_one hsequence
  refine ⟨_, rfl, hnext.trans (congrArg (· + 1) h.sequence), ?_, ?_⟩
  · have hnew : Keys.audit 1 ≠ Keys.audit (state.store.auditSequence + 1) := by
      intro heq
      have hsame := congrArg UInt64.toNat (Keys.audit_inj heq)
      rw [hnext, h.sequence] at hsame
      have hone : (1 : UInt64).toNat = 1 := rfl
      omega
    have hopen : ¬ auditCapacity < state.store.auditSequence + 1 := by
      rw [UInt64.lt_iff_toNat_lt, hnext, h.sequence]
      omega
    refine (find?_appendAudit _ _ _).trans ?_
    rw [if_neg hnew, if_neg fun htrims => hopen htrims.1]
    exact h.oldest
  · obtain ⟨rest, hrest⟩ := h.history
    exact ⟨_, by rw [hrest]; rfl⟩

theorem Filling.run {count : Nat} {state : State} (more : Nat) (h : Filling entry count state)
    (hroom : count + more ≤ auditCapacity.toNat) (hpositive : 0 < count) :
    ∃ final, Trace.run step state (List.replicate more (.append entry true)) = some final ∧
      Filling entry (count + more) final := by
  induction more generalizing count state with
  | zero => exact ⟨state, rfl, h⟩
  | succ more ih =>
      obtain ⟨next, hnext, hfilling⟩ := h.append (by omega) hpositive
      obtain ⟨final, hfinal, hfilled⟩ := ih hfilling (by omega) (Nat.succ_pos _)
      refine ⟨final, Trace.run_cons_eq_some.mpr ⟨next, hnext, hfinal⟩, ?_⟩
      rwa [Nat.add_right_comm, Nat.add_assoc] at hfilled

/-- The capacity is reached, one append fails and the next one succeeds. -/
def overGap (entry : AuditRecord) : List Label :=
  List.replicate auditCapacity.toNat (.append entry true) ++ [.append entry false, .append entry true]

/-- The row behind the gap stays, and the one after it is gone. -/
theorem rows_overGap (entry : AuditRecord) :
    ∃ final rest, Trace.run step { store := Recount.fresh } (overGap entry) = some final ∧
      final.store.rows.find? (Keys.audit 1) = some (encodeAudit entry) ∧
      final.store.rows.find? (Keys.audit 2) = none ∧
      final.history = { entry with sequence := 1 } :: { entry with sequence := 2 } :: rest := by
  have hbegun : Filling entry 2
      ⟨(appendAudit (appendAudit Recount.fresh entry).1 entry).1,
        [{ entry with sequence := 1 }, { entry with sequence := 2 }]⟩ := by
    refine ⟨rfl, ?_, [], rfl⟩
    have hother : Keys.audit 1 ≠ Keys.audit 2 := by decide
    have hfirst : (appendAudit Recount.fresh entry).1.rows.find? (Keys.audit 1) = some (encodeAudit entry) :=
      find?_appendAudit ..
    refine (find?_appendAudit _ _ _).trans ((if_neg hother).trans ?_)
    have hopen : ¬ auditCapacity < (1 : UInt64) + 1 := by decide
    exact (if_neg fun htrims => hopen htrims.1).trans hfirst
  obtain ⟨more, hmore⟩ : ∃ more, auditCapacity.toNat = more + 1 + 1 := ⟨19998, rfl⟩
  obtain ⟨full, hfull, hfilled⟩ := hbegun.run more (by omega) (by decide)
  obtain ⟨rest, hhistory⟩ := hfilled.history
  have hsequence : full.store.auditSequence = auditCapacity :=
    UInt64.toNat_inj.mp (hfilled.sequence.trans (by omega))
  have hrun : Trace.run step { store := Recount.fresh }
      (List.replicate auditCapacity.toNat (.append entry true)) = some full := by
    rw [hmore, List.replicate_succ, List.replicate_succ]
    exact hfull
  have hnext : (appendAuditFailed full.store).auditSequence + 1 = 20002 := by
    rw [appendAuditFailed, hsequence]
    rfl
  have hfind := find?_appendAudit (appendAuditFailed full.store) entry
  rw [hnext] at hfind
  refine ⟨⟨(appendAudit (appendAuditFailed full.store) entry).1,
    full.history ++ [{ entry with sequence := (appendAuditFailed full.store).auditSequence + 1 }]⟩,
    rest ++ [{ entry with sequence := (appendAuditFailed full.store).auditSequence + 1 }], ?_, ?_, ?_, ?_⟩
  · rw [overGap, Trace.run_append, hrun]
    rfl
  · refine (hfind _).trans ?_
    rw [if_neg (by decide), if_neg (by decide)]
    exact hfilled.oldest
  · refine (hfind _).trans ?_
    rw [if_neg (by decide), if_pos (by decide)]
  · rw [hhistory]
    rfl

/-- The row behind the gap is no longer one of the most recent ones. -/
theorem unsound_overGap :
    ∃ store charges final, openMetadataStore .empty = .ok (store, charges) ∧
      Trace.run step { store := store } (overGap {}) = some final ∧ ¬ Sound final := by
  obtain ⟨final, rest, hrun, hstays, hgone, hhistory⟩ := rows_overGap {}
  refine ⟨Recount.fresh, _, final, Recount.openMetadataStore_empty, hrun, fun h => ?_⟩
  obtain ⟨ring, ⟨front, hfront⟩, -, hrows, -⟩ := h.recent
  have hincreasing := h.increasing
  have holdest : (Keys.audit 1, encodeAudit {}) ∈ ring.map auditRow := by
    rw [← hrows]
    exact mem_auditRows.mpr ⟨hstays, rfl⟩
  obtain ⟨kept, hkept, hsame⟩ := List.mem_map.mp holdest
  have hone : kept.sequence = 1 := Keys.audit_inj (Prod.mk.inj hsame).1
  cases front with
  | nil =>
      -- the second entry would have to be there as well
      have hsecond : auditRow { ({} : AuditRecord) with sequence := 2 } ∈ auditRows final.store.rows := by
        rw [hrows, ← List.nil_append ring, hfront, hhistory]
        exact List.mem_map_of_mem (by simp)
      have hfound := (mem_auditRows.mp hsecond).1
      exact absurd (hgone.symm.trans hfound) (by simp)
  | cons first others =>
      -- the first entry would be there twice
      rw [hhistory, List.cons_append] at hfront
      obtain ⟨rfl, hothers⟩ := List.cons.inj hfront
      rw [hhistory] at hincreasing
      have hlater := (List.pairwise_cons.mp hincreasing).1 kept
        (by rw [← hothers]; exact List.mem_append_right _ hkept)
      rw [hone] at hlater
      exact absurd hlater (by decide)

end Gap

end AuditLog

end MonoBucket
