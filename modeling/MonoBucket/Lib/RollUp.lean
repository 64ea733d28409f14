/-
Rolling sorted keys up at a delimiter

A listing under a prefix shows a key by itself, or, when a delimiter occurs
behind the prefix, the part of it up to and including the first occurrence; keys
with the same such part show up once. The order of keys is the lexicographic
one, in which the keys that share a rolled-up part are an interval, so the
listing of ascending keys is ascending.

A listing is read in pages. Reading on after a page may skip what follows the
page's last entry; the pages put together are the listing exactly when nothing
is skipped at any page boundary.
-/

import Mathlib.Tactic
import Mathlib.Data.List.Dedup
import Mathlib.Data.List.Sort
import MonoBucket.Lib.PrefixOrder

universe u

namespace RollUp

variable {α : Type u} [LinearOrder α]

/-! ### Occurrences of a pattern -/

/-- Where a pattern first occurs in a text. -/
def indexOfPattern (pattern : List α) : List α → Option Nat
  | [] => if pattern = [] then some 0 else none
  | letter :: rest =>
    if pattern <+: letter :: rest then some 0
    else (indexOfPattern pattern rest).map (· + 1)

theorem indexOfPattern_eq_some_iff {pattern text : List α} {index : Nat} :
    indexOfPattern pattern text = some index ↔
      pattern <+: text.drop index ∧ ∀ before < index, ¬ pattern <+: text.drop before := by
  induction text generalizing index with
  | nil =>
      simp only [indexOfPattern, List.drop_nil, List.prefix_nil]
      by_cases hempty : pattern = []
      · rw [if_pos hempty]
        constructor
        · intro h
          cases h
          exact ⟨hempty, fun _ hbefore => absurd hbefore (Nat.not_lt_zero _)⟩
        · rintro ⟨-, hfirst⟩
          cases index with
          | zero => rfl
          | succ index => exact absurd hempty (hfirst 0 (Nat.succ_pos _))
      · simp [hempty]
  | cons letter rest ih =>
      rw [indexOfPattern]
      by_cases hhere : pattern <+: letter :: rest
      · rw [if_pos hhere]
        constructor
        · intro h
          cases h
          exact ⟨hhere, fun _ hbefore => absurd hbefore (Nat.not_lt_zero _)⟩
        · rintro ⟨-, hfirst⟩
          cases index with
          | zero => rfl
          | succ index => exact absurd hhere (hfirst 0 (Nat.succ_pos _))
      · rw [if_neg hhere, Option.map_eq_some_iff]
        constructor
        · rintro ⟨previous, hprevious, rfl⟩
          obtain ⟨hfound, hfirst⟩ := ih.mp hprevious
          refine ⟨hfound, fun before hbefore => ?_⟩
          cases before with
          | zero => exact hhere
          | succ before => exact hfirst before (Nat.lt_of_succ_lt_succ hbefore)
        · rintro ⟨hfound, hfirst⟩
          cases index with
          | zero => exact absurd hfound hhere
          | succ index =>
              exact ⟨index, ih.mpr ⟨hfound, fun before hbefore =>
                hfirst (before + 1) (Nat.succ_lt_succ hbefore)⟩, rfl⟩

/-- Where a pattern first occurs in a text at or after a position. -/
def indexFrom (pattern text : List α) (start : Nat) : Option Nat :=
  (indexOfPattern pattern (text.drop start)).map (· + start)

theorem indexFrom_eq_some_iff {pattern text : List α} {start index : Nat} :
    indexFrom pattern text start = some index ↔
      start ≤ index ∧ pattern <+: text.drop index ∧
        ∀ before, start ≤ before → before < index → ¬ pattern <+: text.drop before := by
  rw [indexFrom, Option.map_eq_some_iff]
  constructor
  · rintro ⟨offset, hoffset, rfl⟩
    obtain ⟨hfound, hfirst⟩ := indexOfPattern_eq_some_iff.mp hoffset
    rw [List.drop_drop, Nat.add_comm] at hfound
    refine ⟨Nat.le_add_left .., hfound, fun before hstart hbefore => ?_⟩
    have h := hfirst (before - start) (by omega)
    rwa [List.drop_drop, Nat.add_sub_cancel' hstart] at h
  · rintro ⟨hstart, hfound, hfirst⟩
    refine ⟨index - start, indexOfPattern_eq_some_iff.mpr ⟨?_, fun before hbefore => ?_⟩, by omega⟩
    · rwa [List.drop_drop, Nat.add_sub_cancel' hstart]
    · rw [List.drop_drop]
      exact hfirst _ (by omega) (by omega)

/-! ### Rolling a key up -/

variable (front delimiter : List α)

/-- What a key is rolled up to: its part up to and including the first delimiter
behind the prefix. Nothing without one, or without a delimiter to look for. -/
def common? (key : List α) : Option (List α) :=
  if delimiter = [] then none
  else (indexFrom delimiter key front.length).map fun split => key.take (split + delimiter.length)

/-- The name a key is listed under. -/
def shown (key : List α) : List α := (common? front delimiter key).getD key

variable {front delimiter} {key other common : List α}

theorem common?_eq_some_iff :
    common? front delimiter key = some common ↔
      delimiter ≠ [] ∧ ∃ split, front.length ≤ split ∧
        common = key.take (split + delimiter.length) ∧ delimiter <+: key.drop split ∧
        ∀ before, front.length ≤ before → before < split → ¬ delimiter <+: key.drop before := by
  rw [common?]
  by_cases hempty : delimiter = []
  · simp [hempty]
  · rw [if_neg hempty, Option.map_eq_some_iff]
    constructor
    · rintro ⟨split, hsplit, rfl⟩
      obtain ⟨hstart, hfound, hfirst⟩ := indexFrom_eq_some_iff.mp hsplit
      exact ⟨hempty, split, hstart, rfl, hfound, hfirst⟩
    · rintro ⟨-, split, hstart, rfl, hfound, hfirst⟩
      exact ⟨split, indexFrom_eq_some_iff.mpr ⟨hstart, hfound, hfirst⟩, rfl⟩

theorem common_isPrefix (h : common? front delimiter key = some common) : common <+: key := by
  obtain ⟨-, split, -, rfl, -, -⟩ := common?_eq_some_iff.mp h
  exact List.take_prefix _ _

theorem front_isPrefix_common (hfront : front <+: key)
    (h : common? front delimiter key = some common) : front <+: common := by
  obtain ⟨-, split, hstart, rfl, hfound, -⟩ := common?_eq_some_iff.mp h
  apply List.prefix_of_prefix_length_le hfront (List.take_prefix _ _)
  have hlength := hfound.length_le
  rw [List.length_drop] at hlength
  rw [List.length_take]
  have hkey := hfront.length_le
  omega

/-- A rolled-up key ends with the delimiter. -/
theorem delimiter_isSuffix_common (h : common? front delimiter key = some common) :
    delimiter <:+ common := by
  obtain ⟨-, split, -, rfl, ⟨rest, hrest⟩, -⟩ := common?_eq_some_iff.mp h
  refine ⟨key.take split, ?_⟩
  rw [List.take_add, ← hrest, List.take_left']
  rfl

/-- Every key that starts with a rolled-up part rolls up to it. -/
theorem common?_of_isPrefix (h : common? front delimiter key = some common)
    (hother : common <+: other) : common? front delimiter other = some common := by
  obtain ⟨hempty, split, hstart, hcommon, hfound, hfirst⟩ := common?_eq_some_iff.mp h
  have hlength : common.length = split + delimiter.length := by
    have hend := hfound.length_le
    rw [List.length_drop] at hend
    have hpositive : 0 < delimiter.length := List.length_pos_iff.mpr hempty
    rw [hcommon, List.length_take]
    omega
  obtain ⟨keyRest, hkeyRest⟩ := common_isPrefix h
  obtain ⟨otherRest, hotherRest⟩ := hother
  refine common?_eq_some_iff.mpr ⟨hempty, split, hstart, ?_, ?_, fun before hfrom hbefore hoccurs => ?_⟩
  · rw [← hotherRest, ← hlength, List.take_left']
    rfl
  · have hinside : delimiter <+: common.drop split := by
      rw [← hkeyRest, List.drop_append_of_le_length (by omega)] at hfound
      apply List.prefix_of_prefix_length_le hfound (List.prefix_append _ _)
      rw [List.length_drop]
      omega
    rw [← hotherRest, List.drop_append_of_le_length (by omega)]
    exact hinside.trans (List.prefix_append _ _)
  · apply hfirst before hfrom hbefore
    rw [← hotherRest, List.drop_append_of_le_length (by omega)] at hoccurs
    rw [← hkeyRest, List.drop_append_of_le_length (by omega)]
    have hinside : delimiter <+: common.drop before := by
      apply List.prefix_of_prefix_length_le hoccurs (List.prefix_append _ _)
      rw [List.length_drop]
      omega
    exact hinside.trans (List.prefix_append _ _)

/-- A key that shows up by itself and starts a rolled-up one starts its part. -/
theorem isPrefix_common_of_isPrefix (hkey : common? front delimiter key = none)
    (hother : common? front delimiter other = some common) (h : key <+: other) :
    key <+: common := by
  rcases List.prefix_or_prefix_of_prefix h (common_isPrefix hother) with hshort | hlong
  · exact hshort
  · rw [common?_of_isPrefix hother hlong] at hkey
    cases hkey

theorem shown_of_none (h : common? front delimiter key = none) :
    shown front delimiter key = key := by
  rw [shown, h]
  rfl

theorem shown_of_some (h : common? front delimiter key = some common) :
    shown front delimiter key = common := by
  rw [shown, h]
  rfl

theorem shown_isPrefix (key : List α) : shown front delimiter key <+: key := by
  cases h : common? front delimiter key with
  | none => rw [shown_of_none h]
  | some common =>
      rw [shown_of_some h]
      exact common_isPrefix h

/-- The name itself says whether it stands for a key or for a rolled-up part. -/
theorem common?_shown (key : List α) :
    common? front delimiter (shown front delimiter key) = common? front delimiter key := by
  cases h : common? front delimiter key with
  | none => rw [shown_of_none h, h]
  | some common =>
      rw [shown_of_some h]
      exact common?_of_isPrefix h (List.prefix_refl _)

/-- Listing a name again changes nothing. -/
@[simp]
theorem shown_shown (key : List α) :
    shown front delimiter (shown front delimiter key) = shown front delimiter key := by
  cases h : common? front delimiter key with
  | none => rw [shown_of_none h, shown_of_none h]
  | some common =>
      rw [shown_of_some h, shown_of_some (common?_of_isPrefix h (List.prefix_refl _))]

theorem front_isPrefix_shown (hfront : front <+: key) : front <+: shown front delimiter key := by
  cases h : common? front delimiter key with
  | none => rwa [shown_of_none h]
  | some common =>
      rw [shown_of_some h]
      exact front_isPrefix_common hfront h

/-! ### The listing of ascending keys -/

theorem eq_shown_of_isPrefix (hkey : common? front delimiter key = some common)
    (hother : common <+: other) : shown front delimiter other = common :=
  shown_of_some (common?_of_isPrefix hkey hother)

/-- Keys listed under different names are listed in their own order. -/
theorem shown_lt_shown (hlt : key < other)
    (hne : shown front delimiter key ≠ shown front delimiter other) :
    shown front delimiter key < shown front delimiter other := by
  by_contra hnot
  have hbelow : shown front delimiter other ≤ key :=
    (not_lt.mp hnot).trans (List.le_of_isPrefix (shown_isPrefix key))
  cases hcommon : common? front delimiter other with
  | none =>
      rw [shown_of_none hcommon] at hbelow
      exact absurd hlt (not_lt.mpr hbelow)
  | some common =>
      rw [shown_of_some hcommon] at hbelow hne
      have hstarts := List.isPrefix_of_le_of_le hbelow hlt.le (common_isPrefix hcommon)
      exact hne (eq_shown_of_isPrefix hcommon hstarts)

variable (front delimiter) in
/-- What keys are listed as: every name once. -/
def listing (keys : List (List α)) : List (List α) :=
  (keys.map (shown front delimiter)).dedup

variable {keys rest : List (List α)} {name : List α}

theorem mem_listing :
    name ∈ listing front delimiter keys ↔ ∃ key ∈ keys, shown front delimiter key = name := by
  rw [listing, List.mem_dedup, List.mem_map]

theorem listing_ascending (hkeys : keys.Pairwise (· < ·)) :
    (listing front delimiter keys).Pairwise (· < ·) := by
  have hle : (keys.map (shown front delimiter)).Pairwise (· ≤ ·) := by
    rw [List.pairwise_map]
    refine hkeys.imp fun {key other} hlt => ?_
    by_cases hsame : shown front delimiter key = shown front delimiter other
    · exact hsame.le
    · exact (shown_lt_shown hlt hsame).le
  have hsorted := hle.sublist (List.dedup_sublist _)
  exact (hsorted.and (List.nodup_dedup _)).imp fun {first second} h => lt_of_le_of_ne h.1 h.2

/-- A listing is determined by the names in it. -/
theorem listing_eq_of_mem_iff {names : List (List α)} (hkeys : keys.Pairwise (· < ·))
    (hnames : names.Pairwise (· < ·))
    (h : ∀ name, name ∈ names ↔ ∃ key ∈ keys, shown front delimiter key = name) :
    listing front delimiter keys = names :=
  (listing_ascending hkeys).eq_of_mem_iff hnames fun name => by rw [mem_listing, h]

@[simp]
theorem listing_nil : listing front delimiter [] = [] := rfl

theorem listing_ne_nil (h : keys ≠ []) : listing front delimiter keys ≠ [] := by
  obtain ⟨key, hkey⟩ := List.exists_mem_of_ne_nil keys h
  exact List.ne_nil_of_mem (mem_listing.mpr ⟨key, hkey, rfl⟩)

/-- A key that shows up by itself is listed in front of what follows. -/
theorem listing_cons_of_none (hkeys : (key :: rest).Pairwise (· < ·))
    (h : common? front delimiter key = none) :
    listing front delimiter (key :: rest) = key :: listing front delimiter rest := by
  have hfresh : key ∉ rest.map (shown front delimiter) := by
    intro hmem
    obtain ⟨other, hother, hshown⟩ := List.mem_map.mp hmem
    have hnone : common? front delimiter other = none := by rw [← common?_shown, hshown, h]
    rw [shown_of_none hnone] at hshown
    exact absurd hshown (ne_of_gt (List.rel_of_pairwise_cons hkeys hother))
  rw [listing, List.map_cons, shown_of_none h, List.dedup_cons_of_notMem hfresh]
  rfl

/-- A rolled-up part is listed once, in front of what does not start with it. -/
theorem listing_cons_of_some (hkeys : (key :: rest).Pairwise (· < ·))
    (h : common? front delimiter key = some common) :
    listing front delimiter (key :: rest) =
      common :: listing front delimiter (rest.filter fun other => ¬ common <+: other) := by
  have hrest := (List.pairwise_cons.mp hkeys).2.filter fun other => ¬ common <+: other
  apply listing_eq_of_mem_iff hkeys
  · refine List.pairwise_cons.mpr ⟨fun name hname => ?_, listing_ascending hrest⟩
    obtain ⟨other, hother, rfl⟩ := mem_listing.mp hname
    obtain ⟨hmem, hout⟩ := List.mem_filter.mp hother
    simp only [decide_not, Bool.not_eq_eq_eq_not, Bool.not_true, decide_eq_false_iff_not] at hout
    have hlt := List.rel_of_pairwise_cons hkeys hmem
    rw [← shown_of_some h]
    apply shown_lt_shown hlt
    rw [shown_of_some h]
    exact fun heq => hout (heq ▸ shown_isPrefix other)
  · intro name
    rw [List.mem_cons, mem_listing]
    constructor
    · rintro (rfl | ⟨other, hother, rfl⟩)
      · exact ⟨key, List.mem_cons_self .., shown_of_some h⟩
      · exact ⟨other, List.mem_cons_of_mem _ (List.mem_filter.mp hother).1, rfl⟩
    · rintro ⟨other, hother, rfl⟩
      by_cases hstarts : common <+: other
      · exact Or.inl (eq_shown_of_isPrefix h hstarts)
      · rcases List.mem_cons.mp hother with rfl | hmem
        · exact absurd (common_isPrefix h) hstarts
        · exact Or.inr ⟨other, List.mem_filter.mpr ⟨hmem, by simpa using hstarts⟩, rfl⟩

/-! ### Reading on after a name -/

variable (delimiter) in
/-- Reading on after a name that ends with the delimiter passes over everything
that starts with it. -/
def Skips (last name : List α) : Prop :=
  delimiter ≠ [] ∧ delimiter <:+ last ∧ last <+: name

instance (last name : List α) : Decidable (Skips delimiter last name) :=
  inferInstanceAs (Decidable (_ ∧ _ ∧ _))

/-- What is left of the keys when reading on after a listed name is listed as the
names behind it that are not passed over. -/
theorem listing_after {last : List α} (hkeys : keys.Pairwise (· < ·))
    (hlast : shown front delimiter last = last) :
    listing front delimiter (keys.filter fun key => last < key ∧ ¬ Skips delimiter last key) =
      (listing front delimiter keys).filter fun name =>
        last < name ∧ ¬ Skips delimiter last name := by
  apply listing_eq_of_mem_iff (hkeys.filter _) ((listing_ascending hkeys).filter _)
  have hkept : ∀ key, (last < shown front delimiter key ∧
        ¬ Skips delimiter last (shown front delimiter key)) ↔
      (last < key ∧ ¬ Skips delimiter last key) := by
    intro key
    constructor
    · rintro ⟨hlt, hskip⟩
      refine ⟨hlt.trans_le (List.le_of_isPrefix (shown_isPrefix key)), ?_⟩
      rintro ⟨hempty, hends, hstarts⟩
      refine hskip ⟨hempty, hends, ?_⟩
      cases hkey : common? front delimiter key with
      | none => rwa [shown_of_none hkey]
      | some common =>
          rw [shown_of_some hkey]
          cases hcommon : common? front delimiter last with
          | none => exact isPrefix_common_of_isPrefix hcommon hkey hstarts
          | some other =>
              obtain rfl : other = last := by rw [← hlast, shown_of_some hcommon]
              rw [← shown_of_some hkey, eq_shown_of_isPrefix hcommon hstarts]
    · rintro ⟨hlt, hskip⟩
      have hne : shown front delimiter last ≠ shown front delimiter key := by
        rw [hlast]
        intro hsame
        cases hkey : common? front delimiter key with
        | none =>
            rw [shown_of_none hkey] at hsame
            exact absurd hsame hlt.ne
        | some common =>
            rw [shown_of_some hkey] at hsame
            subst hsame
            exact hskip ⟨(common?_eq_some_iff.mp hkey).1, delimiter_isSuffix_common hkey,
              common_isPrefix hkey⟩
      have hnames := shown_lt_shown hlt hne
      rw [hlast] at hnames
      exact ⟨hnames, fun ⟨hempty, hends, hstarts⟩ =>
        hskip ⟨hempty, hends, hstarts.trans (shown_isPrefix key)⟩⟩
  intro name
  rw [List.mem_filter, mem_listing]
  constructor
  · rintro ⟨⟨key, hkey, rfl⟩, hname⟩
    exact ⟨key, List.mem_filter.mpr ⟨hkey, by simpa using (hkept key).mp (by simpa using hname)⟩, rfl⟩
  · rintro ⟨key, hkey, rfl⟩
    obtain ⟨hmem, hrest⟩ := List.mem_filter.mp hkey
    exact ⟨⟨key, hmem, rfl⟩, by simpa using (hkept key).mpr (by simpa using hrest)⟩

/-! ### Pages -/

section Pages

variable {β : Type u} {size : Nat} {names : List β}

variable (size) in
/-- Cut names into pages, reading on after each page's last name past what that
name passes over. -/
def cut (skip : β → β → Bool) (names : List β) : List (List β) :=
  if h : size = 0 ∨ names.length ≤ size then [names]
  else
    have hlast : size - 1 < names.length := by omega
    names.take size ::
      cut skip ((names.drop size).filter fun name => !skip names[size - 1] name)
termination_by names.length
decreasing_by
  have hfilter := List.length_filter_le (fun name => !skip names[size - 1] name) (names.drop size)
  rw [List.length_drop] at hfilter
  omega

/-- Two neighbouring names with a page boundary between them. -/
def Boundary (size : Nat) (names : List β) (last next : β) : Prop :=
  ∃ count, 0 < count ∧ names[count * size - 1]? = some last ∧ names[count * size]? = some next

variable {skip : β → β → Bool}

theorem cut_of_length_le (h : names.length ≤ size) : cut size skip names = [names] := by
  rw [cut, dif_pos (Or.inr h)]

theorem cut_of_lt_length (hsize : 0 < size) (hlong : size < names.length)
    (hlast : size - 1 < names.length) :
    cut size skip names =
      names.take size ::
        cut size skip ((names.drop size).filter fun name => !skip names[size - 1] name) := by
  rw [cut, dif_neg (by omega)]

/-- Pages hold names of the list, in order. -/
theorem flatten_cut_sublist (hsize : 0 < size) : (cut size skip names).flatten.Sublist names := by
  induction hlength : names.length using Nat.strong_induction_on generalizing names with
  | _ length ih =>
      by_cases hshort : names.length ≤ size
      · rw [cut_of_length_le hshort]
        simp
      · have hlast : size - 1 < names.length := by omega
        rw [cut_of_lt_length hsize (by omega) hlast, List.flatten_cons]
        have hrest := List.filter_sublist (l := names.drop size)
          (p := fun name => !skip names[size - 1] name)
        have hfewer := hrest.length_le
        rw [List.length_drop] at hfewer
        have hpages := ih ((names.drop size).filter fun name =>
          !skip names[size - 1] name).length (by omega) rfl
        conv_rhs => rw [← List.take_append_drop size names]
        exact (List.Sublist.refl _).append (hpages.trans hrest)

theorem length_le_of_mem_cut (hsize : 0 < size) {page : List β}
    (hpage : page ∈ cut size skip names) : page.length ≤ size := by
  induction hlength : names.length using Nat.strong_induction_on generalizing names with
  | _ length ih =>
      by_cases hshort : names.length ≤ size
      · rw [cut_of_length_le hshort, List.mem_singleton] at hpage
        exact hpage ▸ hshort
      · have hlast : size - 1 < names.length := by omega
        rw [cut_of_lt_length hsize (by omega) hlast, List.mem_cons] at hpage
        rcases hpage with rfl | hpage
        · exact List.length_take_le _ _
        · have hfewer := List.length_filter_le (fun name => !skip names[size - 1] name)
            (names.drop size)
          rw [List.length_drop] at hfewer
          exact ih _ (by omega) hpage rfl

/-- The boundaries of a list longer than a page: the first page's, and those of
the rest. -/
theorem boundary_iff_of_lt_length (hsize : 0 < size) (hlong : size < names.length)
    (hlast : size - 1 < names.length) {last next : β} :
    Boundary size names last next ↔
      (last = names[size - 1] ∧ next = names[size]) ∨ Boundary size (names.drop size) last next := by
  constructor
  · rintro ⟨count, hcount, hprevious, hnext⟩
    obtain ⟨more, rfl⟩ : ∃ more, count = more + 1 := ⟨count - 1, by omega⟩
    rcases Nat.eq_zero_or_pos more with rfl | hmore
    · rw [Nat.zero_add, Nat.one_mul] at hprevious hnext
      rw [List.getElem?_eq_getElem hlast] at hprevious
      rw [List.getElem?_eq_getElem hlong] at hnext
      exact Or.inl ⟨(Option.some.inj hprevious).symm, (Option.some.inj hnext).symm⟩
    · have hproduct : size ≤ more * size := Nat.le_mul_of_pos_left size hmore
      rw [Nat.succ_mul] at hprevious hnext
      refine Or.inr ⟨more, hmore, ?_, ?_⟩
      · rw [List.getElem?_drop, show size + (more * size - 1) = more * size + size - 1 by omega]
        exact hprevious
      · rw [List.getElem?_drop, Nat.add_comm]
        exact hnext
  · rintro (⟨rfl, rfl⟩ | ⟨count, hcount, hprevious, hnext⟩)
    · refine ⟨1, Nat.one_pos, ?_, ?_⟩
      · rw [Nat.one_mul, List.getElem?_eq_getElem hlast]
      · rw [Nat.one_mul, List.getElem?_eq_getElem hlong]
    · have hproduct : size ≤ count * size := Nat.le_mul_of_pos_left size hcount
      rw [List.getElem?_drop] at hprevious hnext
      refine ⟨count + 1, Nat.succ_pos _, ?_, ?_⟩
      · rw [Nat.succ_mul, show count * size + size - 1 = size + (count * size - 1) by omega]
        exact hprevious
      · rw [Nat.succ_mul, Nat.add_comm]
        exact hnext

/-- The pages put together are the names exactly when no boundary passes its next
name over. What a name passes over of the names behind it comes first. -/
theorem flatten_cut_eq_iff (hsize : 0 < size)
    (hskip : ∀ last first second, [last, first, second].Sublist names →
      skip last second → skip last first) :
    (cut size skip names).flatten = names ↔
      ∀ last next, Boundary size names last next → skip last next = false := by
  induction hlength : names.length using Nat.strong_induction_on generalizing names with
  | _ length ih =>
      by_cases hshort : names.length ≤ size
      · rw [cut_of_length_le hshort]
        refine iff_of_true (by simp) ?_
        rintro last next ⟨count, hcount, -, hnext⟩
        have hproduct : size ≤ count * size := Nat.le_mul_of_pos_left size hcount
        rw [List.getElem?_eq_none (by omega)] at hnext
        cases hnext
      · have hlong : size < names.length := by omega
        have hlast : size - 1 < names.length := by omega
        have hrest : ∀ last first second, [last, first, second].Sublist (names.drop size) →
            skip last second → skip last first := fun last first second hsublist =>
          hskip last first second (hsublist.trans (List.drop_sublist _ _))
        have hdrop : names.drop size = names[size] :: names.drop (size + 1) :=
          List.drop_eq_getElem_cons hlong
        rw [cut_of_lt_length hsize hlong hlast, List.flatten_cons]
        by_cases hpassed : skip names[size - 1] names[size]
        · refine iff_of_false (fun heq => ?_) fun hnone => ?_
          · have hfewer : ((names.drop size).filter fun name =>
                !skip names[size - 1] name).length ≤ (names.drop (size + 1)).length := by
              rw [hdrop, List.filter_cons_of_neg (by simpa using hpassed)]
              exact List.length_filter_le _ _
            have hpages : (cut size skip ((names.drop size).filter fun name =>
                !skip names[size - 1] name)).flatten.length ≤
                ((names.drop size).filter fun name => !skip names[size - 1] name).length :=
              (flatten_cut_sublist hsize).length_le
            have htotal := congrArg List.length heq
            rw [List.length_append, List.length_take] at htotal
            rw [List.length_drop] at hfewer
            omega
          · have hboundary := (boundary_iff_of_lt_length hsize hlong hlast).mpr
              (Or.inl ⟨rfl, rfl⟩)
            rw [hnone _ _ hboundary] at hpassed
            cases hpassed
        · have hkept : ((names.drop size).filter fun name => !skip names[size - 1] name) =
              names.drop size := by
            apply List.filter_eq_self.mpr
            intro name hname
            rw [hdrop] at hname
            rcases List.mem_cons.mp hname with rfl | hname
            · simpa using hpassed
            · by_contra hlater
              have hbefore : names.drop (size - 1) = names[size - 1] :: names.drop size := by
                rw [List.drop_eq_getElem_cons hlast, Nat.sub_add_cancel hsize]
              have hsublist : [names[size - 1], names[size], name].Sublist names := by
                apply List.Sublist.trans _ (List.drop_sublist (size - 1) names)
                rw [hbefore, hdrop]
                exact ((List.singleton_sublist.mpr hname).cons_cons _).cons_cons _
              exact hpassed (hskip _ _ _ hsublist (by simpa using hlater))
          rw [hkept]
          have hih := ih (names.drop size).length (by rw [List.length_drop]; omega) hrest rfl
          have hsplit : names.take size ++ (cut size skip (names.drop size)).flatten = names ↔
              (cut size skip (names.drop size)).flatten = names.drop size := by
            have hcancel := @List.append_right_inj _ (cut size skip (names.drop size)).flatten
              (names.drop size) (names.take size)
            rwa [List.take_append_drop] at hcancel
          rw [hsplit, hih]
          constructor
          · intro h last next hboundary
            rcases (boundary_iff_of_lt_length hsize hlong hlast).mp hboundary with
              ⟨rfl, rfl⟩ | hlater
            · simpa using hpassed
            · exact h last next hlater
          · exact fun h last next hboundary => h last next
              ((boundary_iff_of_lt_length hsize hlong hlast).mpr (Or.inr hboundary))

end Pages

end RollUp
