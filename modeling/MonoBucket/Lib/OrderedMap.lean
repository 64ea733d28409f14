/-
Finite maps kept in key order

A finite map over a linearly ordered key type, stored as the list of its
bindings in strictly increasing key order. The order is a field, so a map whose
list is out of order cannot be built, and iteration from a key is a suffix of
the list.

Two maps with the same lookups are equal, and a sum over the bindings changes
under one insertion or removal by exactly the binding that changed. Those two
facts, together with the lookup laws, are everything a client of an ordered
store reasons with.
-/

import Mathlib.Tactic
import Mathlib.Data.List.Lex
import Mathlib.Algebra.BigOperators.Group.List.Basic

universe u v w

/-- The bindings of a finite map, in strictly increasing key order. -/
structure OrderedMap (κ : Type u) (ν : Type v) [LinearOrder κ] where
  /-- The bindings, smallest key first. -/
  entries : List (κ × ν)
  /-- The order is strict, so no key is bound twice. -/
  ordered : entries.Pairwise fun first second => first.1 < second.1

namespace OrderedMap

variable {κ : Type u} {ν : Type v} [LinearOrder κ]

instance [DecidableEq ν] : DecidableEq (OrderedMap κ ν) := fun first second =>
  decidable_of_iff (first.entries = second.entries)
    ⟨fun h => by cases first; cases second; cases h; rfl, fun h => by rw [h]⟩

/-- The map with no bindings. -/
def empty : OrderedMap κ ν := ⟨[], List.Pairwise.nil⟩

instance : Inhabited (OrderedMap κ ν) := ⟨empty⟩

/-- The first value a list of bindings gives to a key. -/
def lookupEntry (key : κ) : List (κ × ν) → Option ν
  | [] => none
  | (head, bound) :: rest => if key = head then some bound else lookupEntry key rest

/-- The value bound to a key, if the key is bound. -/
def find? (map : OrderedMap κ ν) (key : κ) : Option ν := lookupEntry key map.entries

/-- Insertion into the sorted list of bindings, replacing an equal key. -/
def insertEntry (key : κ) (value : ν) : List (κ × ν) → List (κ × ν)
  | [] => [(key, value)]
  | (head, bound) :: rest =>
    if key < head then (key, value) :: (head, bound) :: rest
    else if key = head then (key, value) :: rest
    else (head, bound) :: insertEntry key value rest

theorem mem_insertEntry {key : κ} {value : ν} {entry : κ × ν} {entries : List (κ × ν)}
    (hmem : entry ∈ insertEntry key value entries) :
    entry = (key, value) ∨ entry ∈ entries := by
  induction entries with
  | nil => simpa [insertEntry] using hmem
  | cons head rest ih =>
      rw [insertEntry] at hmem
      split_ifs at hmem <;> grind

theorem insertEntry_ordered (key : κ) (value : ν) {entries : List (κ × ν)}
    (hordered : entries.Pairwise fun first second => first.1 < second.1) :
    (insertEntry key value entries).Pairwise fun first second => first.1 < second.1 := by
  induction entries with
  | nil => simp [insertEntry]
  | cons head rest ih =>
      obtain ⟨hhead, hrest⟩ := List.pairwise_cons.mp hordered
      rw [insertEntry]
      split_ifs with hlt heq
      · refine List.pairwise_cons.mpr ⟨fun entry hentry => ?_, hordered⟩
        rcases List.mem_cons.mp hentry with rfl | hentry
        · exact hlt
        · exact hlt.trans (hhead entry hentry)
      · subst heq
        exact List.pairwise_cons.mpr ⟨fun entry hentry => hhead entry hentry, hrest⟩
      · refine List.pairwise_cons.mpr ⟨fun entry hentry => ?_, ih hrest⟩
        rcases mem_insertEntry hentry with rfl | hentry
        · exact lt_of_le_of_ne (not_lt.mp hlt) (Ne.symm heq)
        · exact hhead entry hentry

/-- Bind a key, replacing the value it was bound to. -/
def insert (map : OrderedMap κ ν) (key : κ) (value : ν) : OrderedMap κ ν :=
  ⟨insertEntry key value map.entries, insertEntry_ordered key value map.ordered⟩

/-- Bind a key unless it is bound already. -/
def emplace (map : OrderedMap κ ν) (key : κ) (value : ν) : OrderedMap κ ν :=
  match map.find? key with
  | some _ => map
  | none => map.insert key value

/-- Change a key's value, from the default when it is not bound. -/
def modify [Inhabited ν] (map : OrderedMap κ ν) (key : κ) (change : ν → ν) : OrderedMap κ ν :=
  map.insert key (change ((map.find? key).getD default))

/-- Drop a key. -/
def erase (map : OrderedMap κ ν) (key : κ) : OrderedMap κ ν :=
  ⟨map.entries.filter fun entry => entry.1 ≠ key, map.ordered.filter _⟩

/-! ### Lookup -/

@[simp]
theorem find?_empty (key : κ) : (empty : OrderedMap κ ν).find? key = none := rfl

theorem lookupEntry_insertEntry (key other : κ) (value : ν) (entries : List (κ × ν)) :
    lookupEntry other (insertEntry key value entries) =
      if other = key then some value else lookupEntry other entries := by
  induction entries with
  | nil => simp [insertEntry, lookupEntry]
  | cons head rest ih =>
      rw [insertEntry]
      split_ifs with hlt heq hother hother <;> grind [lookupEntry]

theorem find?_insert (map : OrderedMap κ ν) (key other : κ) (value : ν) :
    (map.insert key value).find? other =
      if other = key then some value else map.find? other :=
  lookupEntry_insertEntry key other value map.entries

@[simp]
theorem find?_insert_self (map : OrderedMap κ ν) (key : κ) (value : ν) :
    (map.insert key value).find? key = some value := by
  simp [find?_insert]

theorem find?_insert_of_ne (map : OrderedMap κ ν) {key other : κ} (value : ν)
    (hne : other ≠ key) : (map.insert key value).find? other = map.find? other := by
  simp [find?_insert, hne]

theorem find?_modify_of_ne [Inhabited ν] (map : OrderedMap κ ν) {key other : κ}
    (change : ν → ν) (hne : other ≠ key) :
    (map.modify key change).find? other = map.find? other :=
  map.find?_insert_of_ne _ hne

/-- Changing a key's value keeps maps alike where they were. -/
theorem find?_modify_congr [Inhabited ν] {first second : OrderedMap κ ν} (key : κ) {other : κ}
    (change : ν → ν) (h : first.find? other = second.find? other) :
    (first.modify key change).find? other = (second.modify key change).find? other := by
  by_cases hother : other = key
  · subst hother
    simp [modify, h]
  · rw [find?_modify_of_ne _ _ hother, find?_modify_of_ne _ _ hother, h]

theorem lookupEntry_filter (keep : κ → Bool) (other : κ) (entries : List (κ × ν)) :
    lookupEntry other (entries.filter fun entry => keep entry.1) =
      if keep other then lookupEntry other entries else none := by
  induction entries with
  | nil => simp [lookupEntry]
  | cons head rest ih =>
      rw [List.filter_cons]
      split_ifs <;> grind [lookupEntry]

theorem find?_erase (map : OrderedMap κ ν) (key other : κ) :
    (map.erase key).find? other = if other = key then none else map.find? other := by
  have hfilter := lookupEntry_filter (fun candidate => decide (candidate ≠ key)) other map.entries
  by_cases h : other = key <;> simpa [find?, erase, h] using hfilter

@[simp]
theorem find?_erase_self (map : OrderedMap κ ν) (key : κ) :
    (map.erase key).find? key = none := by
  simp [find?_erase]

theorem find?_erase_of_ne (map : OrderedMap κ ν) {key other : κ} (hne : other ≠ key) :
    (map.erase key).find? other = map.find? other := by
  simp [find?_erase, hne]

theorem lookupEntry_eq_some_iff {key : κ} {value : ν} {entries : List (κ × ν)}
    (hordered : entries.Pairwise fun first second => first.1 < second.1) :
    lookupEntry key entries = some value ↔ (key, value) ∈ entries := by
  induction entries with
  | nil => simp [lookupEntry]
  | cons head rest ih =>
      obtain ⟨hhead, hrest⟩ := List.pairwise_cons.mp hordered
      obtain ⟨head, bound⟩ := head
      rw [lookupEntry, List.mem_cons]
      split_ifs with heq
      · subst heq
        constructor
        · intro h
          exact Or.inl (by simpa using h.symm)
        · rintro (h | h)
          · simpa using h.symm
          · exact absurd (hhead _ h) (lt_irrefl _)
      · rw [ih hrest]
        simp [heq]

/-- A lookup succeeds exactly at the bindings of the list. -/
theorem find?_eq_some_iff (map : OrderedMap κ ν) {key : κ} {value : ν} :
    map.find? key = some value ↔ (key, value) ∈ map.entries :=
  lookupEntry_eq_some_iff map.ordered

theorem find?_eq_none_iff (map : OrderedMap κ ν) {key : κ} :
    map.find? key = none ↔ ∀ entry ∈ map.entries, entry.1 ≠ key := by
  constructor
  · rintro h ⟨other, value⟩ hmem rfl
    rw [(map.find?_eq_some_iff).mpr hmem] at h
    cases h
  · intro h
    cases hfind : map.find? key with
    | none => rfl
    | some value => exact absurd rfl (h _ ((map.find?_eq_some_iff).mp hfind))

/-- Two lists in key order with the same members are the same. -/
theorem eq_of_mem_iff {α : Type*} (key : α → κ) {first second : List α}
    (hfirst : first.Pairwise fun entry other => key entry < key other)
    (hsecond : second.Pairwise fun entry other => key entry < key other)
    (h : ∀ entry, entry ∈ first ↔ entry ∈ second) : first = second := by
  have hnodup : ∀ {entries : List α},
      entries.Pairwise (fun entry other => key entry < key other) → entries.Nodup :=
    fun hordered => hordered.imp fun hlt heq => (heq ▸ hlt).false
  have hperm : first.Perm second :=
    (List.perm_ext_iff_of_nodup (hnodup hfirst) (hnodup hsecond)).mpr h
  exact hperm.eq_of_pairwise (fun _ _ _ _ hab hba => absurd hab (lt_asymm hba)) hfirst hsecond

/-- Maps with the same lookups are the same map. -/
theorem ext_find? {first second : OrderedMap κ ν}
    (h : ∀ key, first.find? key = second.find? key) : first = second := by
  obtain ⟨firstEntries, hfirst⟩ := first
  obtain ⟨secondEntries, hsecond⟩ := second
  have hmem : ∀ entry, entry ∈ firstEntries ↔ entry ∈ secondEntries := fun entry => by
    rw [← lookupEntry_eq_some_iff hfirst, ← lookupEntry_eq_some_iff hsecond]
    exact iff_of_eq (congrArg (· = some entry.2) (h entry.1))
  congr
  exact eq_of_mem_iff Prod.fst hfirst hsecond hmem

/-- Maps that agree on the keys of a kind have the same bindings of that kind. -/
theorem filter_entries_congr {first second : OrderedMap κ ν} (keep : κ → Bool)
    (h : ∀ key, keep key = true → first.find? key = second.find? key) :
    (first.entries.filter fun entry => keep entry.1) =
      second.entries.filter fun entry => keep entry.1 := by
  let restrict (map : OrderedMap κ ν) : OrderedMap κ ν :=
    ⟨map.entries.filter fun entry => keep entry.1, map.ordered.filter _⟩
  have hrestrict : restrict first = restrict second := by
    refine ext_find? fun key => ?_
    have hlookup : ∀ map : OrderedMap κ ν,
        (restrict map).find? key = if keep key then map.find? key else none :=
      fun map => lookupEntry_filter keep key map.entries
    rw [hlookup, hlookup]
    split_ifs with hkeep
    · exact h key hkeep
    · rfl
  exact congrArg OrderedMap.entries hrestrict

/-! ### Walking the bindings -/

section Walk

variable {α : Type*} {keep : α → Bool} {list : List α}

/-- A condition that fails for good once it fails selects a prefix. -/
theorem takeWhile_eq_filter
    (h : list.Pairwise fun first second => keep second = true → keep first = true) :
    list.takeWhile keep = list.filter keep := by
  induction list with
  | nil => rfl
  | cons head rest ih =>
      obtain ⟨hhead, hrest⟩ := List.pairwise_cons.mp h
      cases hkeep : keep head with
      | true => simp [hkeep, ih hrest]
      | false =>
          have hnone : rest.filter keep = [] := List.filter_eq_nil_iff.mpr fun other hother hk => by
            simp [hhead other hother hk] at hkeep
          simp [hkeep, hnone]

theorem dropWhile_eq_filter_not
    (h : list.Pairwise fun first second => keep second = true → keep first = true) :
    list.dropWhile keep = list.filter fun item => !keep item := by
  induction list with
  | nil => rfl
  | cons head rest ih =>
      obtain ⟨hhead, hrest⟩ := List.pairwise_cons.mp h
      cases hkeep : keep head with
      | true => simp [hkeep, ih hrest]
      | false =>
          have hall : rest.filter (fun item => !keep item) = rest :=
            List.filter_eq_self.mpr fun other hother => by
              cases hk : keep other with
              | true => simp [hhead other hother hk] at hkeep
              | false => rfl
          simp [hkeep, hall]

end Walk

/-! ### Rebuilding a map from its bindings -/

theorem length_insertEntry_le (key : κ) (value : ν) (entries : List (κ × ν)) :
    (insertEntry key value entries).length ≤ entries.length + 1 := by
  induction entries with
  | nil => simp [insertEntry]
  | cons head rest ih =>
      rw [insertEntry]
      split_ifs <;> grind

theorem length_emplace_le (map : OrderedMap κ ν) (key : κ) (value : ν) :
    (map.emplace key value).entries.length ≤ map.entries.length + 1 := by
  rw [emplace]
  split
  · omega
  · exact length_insertEntry_le key value map.entries

theorem mem_emplace {map : OrderedMap κ ν} {key : κ} {value : ν} {entry : κ × ν}
    (hmem : entry ∈ (map.emplace key value).entries) :
    entry = (key, value) ∨ entry ∈ map.entries := by
  rw [emplace] at hmem
  split at hmem
  · exact Or.inr hmem
  · exact mem_insertEntry hmem

/-- Bind a list of entries in turn, the first binding of a key winning. -/
def emplaceAll (map : OrderedMap κ ν) (bindings : List (κ × ν)) : OrderedMap κ ν :=
  bindings.foldl (fun map entry => map.emplace entry.1 entry.2) map

theorem length_emplaceAll_le (map : OrderedMap κ ν) (bindings : List (κ × ν)) :
    (map.emplaceAll bindings).entries.length ≤ map.entries.length + bindings.length := by
  induction bindings generalizing map with
  | nil => simp [emplaceAll]
  | cons entry rest ih =>
      have hstep := map.length_emplace_le entry.1 entry.2
      have hrest := ih (map.emplace entry.1 entry.2)
      simp only [emplaceAll, List.foldl_cons, List.length_cons] at *
      omega

theorem emplaceAll_append (map : OrderedMap κ ν) (first second : List (κ × ν)) :
    map.emplaceAll (first ++ second) = (map.emplaceAll first).emplaceAll second :=
  List.foldl_append

/-- What a key was bound to stays, and after it the first of the bindings. -/
theorem find?_emplaceAll [DecidableEq κ] (map : OrderedMap κ ν) (bindings : List (κ × ν)) (key : κ) :
    (map.emplaceAll bindings).find? key =
      (map.find? key).or ((bindings.find? fun entry => decide (entry.1 = key)).map Prod.snd) := by
  induction bindings generalizing map with
  | nil => simp [emplaceAll]
  | cons entry rest ih =>
      have hrest := ih (map.emplace entry.1 entry.2)
      rw [emplaceAll] at hrest ⊢
      rw [List.foldl_cons, hrest, emplace]
      by_cases hkey : entry.1 = key
      · subst hkey
        cases hfind : map.find? entry.1 <;> simp [hfind]
      · rw [List.find?_cons_of_neg (by simpa using hkey)]
        cases hfind : map.find? entry.1 with
        | some found => rfl
        | none => rw [find?_insert_of_ne _ _ (Ne.symm hkey)]

theorem insertEntry_of_lt {key : κ} {value : ν} {entries : List (κ × ν)}
    (h : ∀ entry ∈ entries, entry.1 < key) :
    insertEntry key value entries = entries ++ [(key, value)] := by
  induction entries with
  | nil => rfl
  | cons head rest ih =>
      have hhead := h head (by simp)
      rw [insertEntry, if_neg hhead.le.not_gt, if_neg hhead.ne',
        ih fun entry hentry => h entry (by simp [hentry])]
      rfl

theorem entries_emplaceAll {map : OrderedMap κ ν} {bindings : List (κ × ν)}
    (hordered : (map.entries ++ bindings).Pairwise fun first second => first.1 < second.1) :
    (map.emplaceAll bindings).entries = map.entries ++ bindings := by
  induction bindings generalizing map with
  | nil => simp [emplaceAll]
  | cons entry rest ih =>
      have hbelow : ∀ other ∈ map.entries, other.1 < entry.1 := fun other hother =>
        (List.pairwise_append.mp hordered).2.2 other hother entry (by simp)
      have hnone : map.find? entry.1 = none :=
        map.find?_eq_none_iff.mpr fun other hother => (hbelow other hother).ne
      have hentries : (map.emplace entry.1 entry.2).entries = map.entries ++ [entry] := by
        simp only [emplace, hnone, insert]
        exact insertEntry_of_lt hbelow
      have hrest := @ih (map.emplace entry.1 entry.2) (by simpa [hentries] using hordered)
      simpa [hentries, emplaceAll] using hrest

/-- A map is rebuilt from its own bindings. -/
theorem emplaceAll_entries (map : OrderedMap κ ν) : empty.emplaceAll map.entries = map := by
  have hentries : (empty.emplaceAll map.entries).entries = map.entries :=
    entries_emplaceAll map.ordered
  obtain ⟨entries, hordered⟩ := map
  cases h : empty.emplaceAll entries with
  | mk rebuilt hrebuilt =>
      simp only [h] at hentries
      subst hentries
      rfl

/-! ### Sums over the bindings -/

section Total

variable {M : Type w} [AddCommMonoid M]

/-- The sum of a weight over every binding. -/
def total (map : OrderedMap κ ν) (weight : κ → ν → M) : M :=
  (map.entries.map fun entry => weight entry.1 entry.2).sum

/-- What a key contributes to `total`. -/
def weightAt (map : OrderedMap κ ν) (weight : κ → ν → M) (key : κ) : M :=
  (map.find? key).elim 0 (weight key)

@[simp]
theorem total_empty (weight : κ → ν → M) : (empty : OrderedMap κ ν).total weight = 0 := rfl

theorem lookupEntry_eq_none_of_lt {key : κ} {entries : List (κ × ν)}
    (h : ∀ entry ∈ entries, key < entry.1) : lookupEntry key entries = none := by
  induction entries with
  | nil => rfl
  | cons head rest ih =>
      rw [lookupEntry, if_neg (h head (by simp)).ne]
      exact ih fun entry hentry => h entry (by simp [hentry])

/-- Insertion changes a total by exactly the binding it changed. -/
theorem total_insert (map : OrderedMap κ ν) (weight : κ → ν → M) (key : κ) (value : ν) :
    (map.insert key value).total weight + map.weightAt weight key =
      map.total weight + weight key value := by
  obtain ⟨entries, hordered⟩ := map
  simp only [total, weightAt, find?, insert]
  induction entries with
  | nil => simp [insertEntry, lookupEntry]
  | cons head rest ih =>
      obtain ⟨hhead, hrest⟩ := List.pairwise_cons.mp hordered
      obtain ⟨head, bound⟩ := head
      rw [insertEntry]
      split_ifs with hlt heq
      · have habsent : lookupEntry key ((head, bound) :: rest) = none :=
          lookupEntry_eq_none_of_lt fun entry hentry => by
            rcases List.mem_cons.mp hentry with rfl | hentry
            · exact hlt
            · exact hlt.trans (hhead entry hentry)
        simp only [habsent, Option.elim, List.map_cons, List.sum_cons]
        abel
      · subst heq
        simp only [lookupEntry, if_true, Option.elim, List.map_cons, List.sum_cons]
        abel
      · simp only [lookupEntry, if_neg heq, List.map_cons, List.sum_cons]
        rw [add_assoc, ih hrest]
        abel

/-- Removal takes exactly the removed binding out of a total. -/
theorem total_erase (map : OrderedMap κ ν) (weight : κ → ν → M) (key : κ) :
    (map.erase key).total weight + map.weightAt weight key = map.total weight := by
  obtain ⟨entries, hordered⟩ := map
  simp only [total, weightAt, find?, erase]
  induction entries with
  | nil => simp [lookupEntry]
  | cons head rest ih =>
      obtain ⟨hhead, hrest⟩ := List.pairwise_cons.mp hordered
      obtain ⟨head, bound⟩ := head
      by_cases heq : key = head
      · subst heq
        have hrest' : (rest.filter fun entry => !decide (entry.1 = key)) = rest :=
          List.filter_eq_self.mpr fun entry hentry => by simpa using (hhead entry hentry).ne'
        simp [lookupEntry, hrest']
        abel
      · rw [List.filter_cons_of_pos (by simpa using Ne.symm heq)]
        simp only [lookupEntry, if_neg heq, List.map_cons, List.sum_cons]
        rw [add_assoc, ih hrest]

/-- A total without one key, as the same sum with that key's weight left out. -/
theorem total_erase_eq_total_ite (map : OrderedMap κ ν) (weight : κ → ν → M) (key : κ) :
    (map.erase key).total weight =
      map.total fun other value => if other = key then 0 else weight other value := by
  simp only [total, erase]
  induction map.entries with
  | nil => rfl
  | cons head rest ih =>
      by_cases heq : head.1 = key
      · simpa [heq] using ih
      · simp only [List.filter_cons, List.map_cons, List.sum_cons, if_neg heq, ← ih]
        simp [heq]

end Total

/-- In the natural numbers a total splits into one key and the rest. -/
theorem total_insert_eq (map : OrderedMap κ ν) (weight : κ → ν → ℕ) (key : κ) (value : ν) :
    (map.insert key value).total weight = (map.erase key).total weight + weight key value := by
  have hinsert := map.total_insert weight key value
  have herase := map.total_erase weight key
  omega

end OrderedMap
