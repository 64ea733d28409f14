/-
Reading an ordered set page by page

A reader asks for the items behind a marker, one page at a time, and goes on from the last
item of a page. The set may change from page to page. Whatever it changes to, no item is
read twice, an item was there when the page was that shows it, and an item that is there all
along is read or a marker in front of it passed over it.
-/

import Mathlib.Tactic
import Mathlib.Data.List.Sort

universe u

namespace Paging

variable {α : Type u} [LinearOrder α]

section Pages

variable (skips : α → α → Bool) (size : Nat)

/-- The items behind a marker that it does not pass over. -/
def left (listed : List α) : Option α → List α
  | none => listed
  | some marker => listed.filter fun item => marker < item && !skips marker item

/-- The pages of a reading, given what the set is at each of them. Nothing when there are
too few of these. -/
def readPages : List (List α) → Option α → Option (List (List α))
  | [], _ => none
  | listed :: later, marker =>
    let items := left skips listed marker
    if items.length ≤ size then some [items]
    else (readPages later (items.take size).getLast?).map fun pages => items.take size :: pages

end Pages

variable {skips : α → α → Bool} {size : Nat} {listed items : List α} {marker : Option α}
variable {snapshots pages : List (List α)}

theorem left_sublist (skips : α → α → Bool) (listed : List α) (marker : Option α) :
    (left skips listed marker).Sublist listed := by
  cases marker with
  | none => exact List.Sublist.refl _
  | some marker => exact List.filter_sublist

theorem lt_of_mem_left {last item : α} (h : item ∈ left skips listed (some last)) : last < item := by
  have hkept := (List.mem_filter.mp h).2
  exact of_decide_eq_true (Bool.and_eq_true_iff.mp hkept).1

/-- Only an item the marker passes over, or one in front of it, is left out. -/
theorem mem_left {item : α} (hitem : item ∈ listed) (hbehind : ∀ last ∈ marker, last < item)
    (hkept : ∀ last ∈ marker, skips last item = false) : item ∈ left skips listed marker := by
  cases marker with
  | none => exact hitem
  | some last =>
      refine List.mem_filter.mpr ⟨hitem, ?_⟩
      rw [decide_eq_true (hbehind last rfl), hkept last rfl]
      rfl

/-- The last item of a full page is in front of everything behind the page. -/
theorem exists_last (hsize : 0 < size) (hlong : size < items.length)
    (hitems : items.Pairwise (· < ·)) :
    ∃ last, (items.take size).getLast? = some last ∧ last ∈ items ∧
      (∀ item ∈ items.take size, item ≤ last) ∧ ∀ item ∈ items.drop size, last < item := by
  have hbound : size - 1 < items.length := by omega
  have hordered := List.pairwise_iff_getElem.mp hitems
  refine ⟨items[size - 1], ?_, List.getElem_mem hbound, fun item hitem => ?_, fun item hitem => ?_⟩
  · rw [List.getLast?_take, if_neg (by omega), List.getElem?_eq_getElem hbound, Option.some_or]
  · obtain ⟨index, hindex, rfl⟩ := List.mem_take_iff_getElem.mp hitem
    rcases Nat.lt_or_eq_of_le (show index ≤ size - 1 by omega) with hbefore | hlast
    · exact (hordered _ _ _ hbound hbefore).le
    · subst hlast
      exact le_rfl
  · obtain ⟨index, hindex, rfl⟩ := List.mem_drop_iff_getElem.mp hitem
    exact hordered _ _ hbound _ (by omega)

/-- How a reading goes on: it is over with the page that holds everything left, or the page
is full and the reading goes on from its last item. -/
theorem readPages_cons (h : readPages skips size (listed :: snapshots) marker = some pages) :
    ((left skips listed marker).length ≤ size ∧ pages = [left skips listed marker]) ∨
      (size < (left skips listed marker).length ∧ ∃ rest,
        readPages skips size snapshots ((left skips listed marker).take size).getLast? = some rest ∧
        pages = (left skips listed marker).take size :: rest) := by
  rw [readPages] at h
  split_ifs at h with hshort
  · exact .inl ⟨hshort, (Option.some.inj h).symm⟩
  · obtain ⟨rest, hrest, rfl⟩ := Option.map_eq_some_iff.mp h
    exact .inr ⟨not_le.mp hshort, rest, hrest, rfl⟩

/-- Items come in order over all pages, so none comes twice, and all behind the marker. -/
theorem readPages_ascending (hsize : 0 < size)
    (hsnapshots : ∀ listed ∈ snapshots, listed.Pairwise (· < ·))
    (h : readPages skips size snapshots marker = some pages) :
    pages.flatten.Pairwise (· < ·) ∧ ∀ last ∈ marker, ∀ item ∈ pages.flatten, last < item := by
  induction snapshots generalizing marker pages with
  | nil => cases h
  | cons listed snapshots ih =>
      obtain ⟨hlisted, hsnapshots⟩ := List.forall_mem_cons.mp hsnapshots
      have hitems : (left skips listed marker).Pairwise (· < ·) :=
        hlisted.sublist (left_sublist skips listed marker)
      have hbehind : ∀ last ∈ marker, ∀ item ∈ left skips listed marker, last < item := by
        rintro last hlast item hitem
        rw [Option.mem_def.mp hlast] at hitem
        exact lt_of_mem_left hitem
      rcases readPages_cons h with ⟨-, rfl⟩ | ⟨hlong, rest, hrest, rfl⟩
      · rw [List.flatten_singleton]
        exact ⟨hitems, hbehind⟩
      · obtain ⟨last, hlast, hmem, hfront, -⟩ := exists_last hsize hlong hitems
        obtain ⟨hascending, hafter⟩ := ih hsnapshots hrest
        rw [hlast] at hafter
        rw [List.flatten_cons, List.pairwise_append]
        refine ⟨⟨hitems.sublist (List.take_sublist _ _), hascending, fun item hitem later hlater => ?_⟩,
          fun before hbefore item hitem => ?_⟩
        · exact (hfront item hitem).trans_lt (hafter last rfl later hlater)
        · rcases List.mem_append.mp hitem with hhere | hlater
          · exact hbehind before hbefore item (List.mem_of_mem_take hhere)
          · exact (hbehind before hbefore last hmem).trans (hafter last rfl item hlater)

/-- Each page is of the set as it was then, and no longer than a page may be. -/
theorem readPages_sound (h : readPages skips size snapshots marker = some pages) :
    ∃ read, read <+: snapshots ∧
      List.Forall₂ (fun listed page => page.Sublist listed ∧ page.length ≤ size) read pages := by
  induction snapshots generalizing marker pages with
  | nil => cases h
  | cons listed snapshots ih =>
      rcases readPages_cons h with ⟨hshort, rfl⟩ | ⟨-, rest, hrest, rfl⟩
      · exact ⟨[listed], List.prefix_append [listed] _,
          .cons ⟨left_sublist skips listed marker, hshort⟩ .nil⟩
      · obtain ⟨read, hread, hpages⟩ := ih hrest
        refine ⟨listed :: read, (List.prefix_cons_inj listed).mpr hread, .cons ⟨?_, ?_⟩ hpages⟩
        · exact (List.take_sublist _ _).trans (left_sublist skips listed marker)
        · exact List.length_take_le _ _

/-- An item that is in the set at every page is read, or the last item of a page passed
over it. -/
theorem readPages_complete (hsize : 0 < size)
    (hsnapshots : ∀ listed ∈ snapshots, listed.Pairwise (· < ·))
    (h : readPages skips size snapshots marker = some pages) {item : α}
    (hitem : ∀ listed ∈ snapshots, item ∈ listed) (hbehind : ∀ last ∈ marker, last < item)
    (hkept : ∀ last ∈ marker, skips last item = false) :
    item ∈ pages.flatten ∨
      ∃ page ∈ pages, ∃ last, page.getLast? = some last ∧ last < item ∧ skips last item = true := by
  induction snapshots generalizing marker pages with
  | nil => cases h
  | cons listed snapshots ih =>
      obtain ⟨hlisted, hsnapshots⟩ := List.forall_mem_cons.mp hsnapshots
      obtain ⟨hhere, hlater⟩ := List.forall_mem_cons.mp hitem
      have hitems : (left skips listed marker).Pairwise (· < ·) :=
        hlisted.sublist (left_sublist skips listed marker)
      have hleft : item ∈ left skips listed marker := mem_left hhere hbehind hkept
      rcases readPages_cons h with ⟨-, rfl⟩ | ⟨hlong, rest, hrest, rfl⟩
      · exact .inl (List.mem_flatten_of_mem (List.mem_singleton_self _) hleft)
      · obtain ⟨last, hlast, -, -, hafter⟩ := exists_last hsize hlong hitems
        rw [hlast] at hrest
        rw [← List.take_append_drop size (left skips listed marker)] at hleft
        rcases List.mem_append.mp hleft with hshown | hrests
        · exact .inl (List.mem_flatten_of_mem (List.mem_cons_self ..) hshown)
        · have hlt := hafter item hrests
          cases hskips : skips last item with
          | true => exact .inr ⟨_, List.mem_cons_self .., last, hlast, hlt, hskips⟩
          | false =>
              have hmarker : ∀ other ∈ some last, other < item ∧ skips other item = false := by
                rintro other hother
                obtain rfl := Option.mem_some_iff.mp hother
                exact ⟨hlt, hskips⟩
              have hfound := ih hsnapshots hrest hlater (fun other hother => (hmarker other hother).1)
                fun other hother => (hmarker other hother).2
              rcases hfound with hread | ⟨page, hpage, hpassed⟩
              · exact .inl (List.mem_append_right _ hread)
              · exact .inr ⟨page, List.mem_cons_of_mem _ hpage, hpassed⟩

/-- The items of a finite set behind a marker. -/
def behind (all : List α) (marker : Option α) : List α :=
  all.filter fun item => ∀ last ∈ marker, last < item

/-- Where there are only so many items that ever show up, a reading ends. -/
theorem readPages_ends (hsize : 0 < size) {all : List α}
    (hsnapshots : ∀ listed ∈ snapshots, listed.Pairwise (· < ·) ∧ listed ⊆ all)
    (hmany : (behind all marker).length < snapshots.length) :
    (readPages skips size snapshots marker).isSome := by
  induction snapshots generalizing marker with
  | nil => exact absurd hmany (Nat.not_lt_zero _)
  | cons listed snapshots ih =>
      obtain ⟨⟨hlisted, hall⟩, hsnapshots⟩ := List.forall_mem_cons.mp hsnapshots
      have hitems : (left skips listed marker).Pairwise (· < ·) :=
        hlisted.sublist (left_sublist skips listed marker)
      rw [readPages]
      split_ifs with hshort
      · rfl
      · obtain ⟨last, hlast, hmem, -, -⟩ := exists_last hsize (not_le.mp hshort) hitems
        have hbehind : ∀ before ∈ marker, before < last := by
          rintro before hbefore
          rw [Option.mem_def.mp hbefore] at hmem
          exact lt_of_mem_left hmem
        -- the marker itself is no longer behind the marker
        have hfewer : (behind all (some last)).length < (behind all marker).length := by
          have hsub : (behind all (some last)).Sublist (behind all marker) := by
            apply List.monotone_filter_right
            intro item hitem
            have hlt := of_decide_eq_true hitem last rfl
            exact decide_eq_true fun before hbefore => (hbehind before hbefore).trans hlt
          apply lt_of_le_of_ne hsub.length_le
          intro heq
          have hsame := hsub.eq_of_length heq
          have hlisted : last ∈ behind all marker :=
            List.mem_filter.mpr ⟨hall ((left_sublist skips listed marker).subset hmem), decide_eq_true hbehind⟩
          rw [← hsame] at hlisted
          exact lt_irrefl last (of_decide_eq_true (List.mem_filter.mp hlisted).2 last rfl)
        rw [hlast, Option.isSome_map]
        apply ih hsnapshots
        rw [List.length_cons] at hmany
        omega

end Paging
