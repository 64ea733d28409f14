/-
Prefixes in the lexicographic order

In the lexicographic order the lists that start with a given prefix form an
interval. These lemmas give its two ends: the prefix itself below, and above
the list obtained by stepping the prefix's last letter to the letter that
covers it. A last letter with nothing above it contributes no bound of its own,
so the prefix without it decides.

They also give the least list strictly above another, which is that list with
the smallest letter added.
-/

import Mathlib.Tactic
import Mathlib.Data.List.Lex
import Mathlib.Order.Cover

universe u

namespace List

variable {α : Type u} [LinearOrder α]

theorem append_lt_append_left_iff (front : List α) {first second : List α} :
    front ++ first < front ++ second ↔ first < second := by
  induction front with
  | nil => rfl
  | cons letter rest ih => simp [ih]

theorem append_le_append_left_iff (front : List α) {first second : List α} :
    front ++ first ≤ front ++ second ↔ first ≤ second := by
  rw [← not_lt, ← not_lt, append_lt_append_left_iff]

theorem nil_le_list (list : List α) : [] ≤ list := not_lt.mp (not_lt_nil list)

theorem not_cons_le_nil (letter : α) (rest : List α) : ¬ letter :: rest ≤ [] :=
  not_le.mpr (nil_lt_cons letter rest)

theorem le_of_isPrefix {front list : List α} (h : front <+: list) : front ≤ list := by
  obtain ⟨rest, rfl⟩ := h
  have hle : front ++ [] ≤ front ++ rest :=
    (append_le_append_left_iff front).mpr (nil_le_list rest)
  rwa [append_nil] at hle

/-- A list between a prefix and something that starts with it starts with it. -/
theorem isPrefix_of_le_of_le {front list upper : List α} (hlow : front ≤ list)
    (hhigh : list ≤ upper) (h : front <+: upper) : front <+: list := by
  induction front generalizing list upper with
  | nil => exact nil_prefix
  | cons letter rest ih =>
      obtain ⟨upper, rfl, hrest⟩ := cons_prefix_iff.mp h
      cases list with
      | nil => exact absurd hlow (not_cons_le_nil letter rest)
      | cons first list =>
          have hletter : letter = first := by
            rcases lt_trichotomy letter first with hlt | heq | hgt
            · exact absurd (Lex.rel hlt) (not_lt.mpr hhigh)
            · exact heq
            · exact absurd (Lex.rel hgt) (not_lt.mpr hlow)
          subst hletter
          have hlow' : rest ≤ list := (append_le_append_left_iff [letter]).mp hlow
          have hhigh' : list ≤ upper := (append_le_append_left_iff [letter]).mp hhigh
          exact cons_prefix_cons.mpr ⟨rfl, ih hlow' hhigh' hrest⟩

theorem lt_concat (list : List α) (letter : α) : list < list ++ [letter] := by
  have hlt : list ++ [] < list ++ [letter] :=
    (append_lt_append_left_iff list).mpr (nil_lt_cons letter [])
  rwa [append_nil] at hlt

/-- With a least letter, adding it gives the least list strictly above. -/
theorem lt_iff_concat_le {least : α} (hleast : IsBot least) {first second : List α} :
    first < second ↔ first ++ [least] ≤ second := by
  induction first generalizing second with
  | nil =>
      cases second with
      | nil => simp
      | cons letter rest =>
          simp only [nil_lt_cons, nil_append, true_iff]
          rcases (hleast letter).lt_or_eq with hlt | heq
          · exact le_of_lt (cons_lt_cons_iff.mpr (Or.inl hlt))
          · subst heq
            have hle : [least] ++ [] ≤ [least] ++ rest :=
              (append_le_append_left_iff [least]).mpr (nil_le_list rest)
            exact hle
  | cons letter rest ih =>
      cases second with
      | nil => simp
      | cons other tail =>
          rw [cons_lt_cons_iff, cons_append, ← not_lt, cons_lt_cons_iff]
          constructor
          · rintro (hlt | ⟨rfl, htail⟩)
            · rintro (hgt | ⟨rfl, -⟩)
              · exact lt_asymm hlt hgt
              · exact lt_irrefl _ hlt
            · rintro (hgt | ⟨-, hgt⟩)
              · exact lt_irrefl _ hgt
              · exact absurd (ih.mp htail) (not_le.mpr hgt)
          · intro h
            push Not at h
            rcases h.1.lt_or_eq with hlt | heq
            · exact Or.inl hlt
            · exact Or.inr ⟨heq, ih.mpr (h.2 heq.symm)⟩

/-- The lists starting with a prefix are those from the prefix up to, and not
including, the prefix with its last letter stepped up. -/
theorem concat_isPrefix_iff_of_covBy {front list : List α} {letter next : α}
    (hcov : letter ⋖ next) :
    front ++ [letter] <+: list ↔ front ++ [letter] ≤ list ∧ list < front ++ [next] := by
  constructor
  · intro h
    refine ⟨le_of_isPrefix h, ?_⟩
    obtain ⟨rest, rfl⟩ := h
    rw [append_assoc, append_lt_append_left_iff]
    exact cons_lt_cons_iff.mpr (Or.inl hcov.lt)
  · rintro ⟨hle, hlt⟩
    induction front generalizing list with
    | nil =>
        cases list with
        | nil => exact absurd hle (not_cons_le_nil _ _)
        | cons head rest =>
            have hhead : letter ≤ head := by
              by_contra hlow
              exact not_lt.mpr hle (cons_lt_cons_iff.mpr (Or.inl (not_le.mp hlow)))
            have hbelow : head < next := by
              rcases cons_lt_cons_iff.mp hlt with h | ⟨-, h⟩
              · exact h
              · simp at h
            have heq : letter = head := by
              by_contra hne
              exact hcov.2 (lt_of_le_of_ne hhead hne) hbelow
            simp [heq]
    | cons first front ih =>
        cases list with
        | nil => exact absurd hle (not_cons_le_nil _ _)
        | cons head rest =>
            have hfirst : first ≤ head := by
              by_contra hlow
              exact not_lt.mpr hle (cons_lt_cons_iff.mpr (Or.inl (not_le.mp hlow)))
            have hhead : head ≤ first := by
              rcases cons_lt_cons_iff.mp hlt with h | ⟨h, -⟩
              · exact h.le
              · exact h.le
            obtain rfl := le_antisymm hfirst hhead
            have hle' : front ++ [letter] ≤ rest := (append_le_append_left_iff [first]).mp hle
            have hlt' : rest < front ++ [next] := (append_lt_append_left_iff [first]).mp hlt
            simpa using ih hle' hlt'

/-- A greatest last letter adds no upper bound: what is at or above the whole
prefix and starts with the rest of it starts with all of it. -/
theorem concat_isPrefix_iff_of_isTop {front list : List α} {letter : α} (htop : IsTop letter) :
    front ++ [letter] <+: list ↔ front <+: list ∧ front ++ [letter] ≤ list := by
  constructor
  · intro h
    exact ⟨(prefix_append front [letter]).trans h, le_of_isPrefix h⟩
  · rintro ⟨⟨rest, rfl⟩, hle⟩
    rw [append_le_append_left_iff] at hle
    cases rest with
    | nil => exact absurd hle (not_cons_le_nil _ _)
    | cons head tail =>
        have hhead : letter ≤ head := by
          by_contra hlow
          exact not_lt.mpr hle (cons_lt_cons_iff.mpr (Or.inl (not_le.mp hlow)))
        obtain rfl := le_antisymm hhead (htop head)
        exact ⟨tail, by simp⟩

end List
