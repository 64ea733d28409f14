/-
Sweeping a list in batches

A sweep looks at the first `limit` entries of an ordered list and takes away
those that are not stuck. A stuck entry is passed over and stays, so it uses up
a place of every later batch as well. Repeated sweeps get everything that can be
taken exactly when no entry has `limit` stuck ones before it.
-/

import Mathlib.Tactic

universe u

namespace Sweeping

variable {α : Type u} (stuck : α → Bool) (limit : Nat)

/-- One pass: the batch loses what is not stuck, the rest stays. -/
def pass (entries : List α) : List α :=
  (entries.take limit).filter stuck ++ entries.drop limit

/-- Each entry that can be taken has fewer than `limit` stuck ones before it. -/
def Unblocked (entries : List α) : Prop :=
  ∀ front entry back, entries = front ++ entry :: back → stuck entry = false →
    front.countP stuck < limit

variable {stuck limit} {entries : List α}

/-- A batch that holds everything holds nothing back. -/
theorem unblocked_of_length_le (h : entries.length ≤ limit) : Unblocked stuck limit entries := by
  rintro front entry back rfl -
  have hlt : front.length < (front ++ entry :: back).length := by simp
  exact List.countP_le_length.trans_lt (hlt.trans_le h)

/-- What a batch takes away from a list without repetitions. -/
theorem pass_eq_filter (hnodup : entries.Nodup) (kept : α → Bool)
    (hkept : ∀ entry ∈ entries,
      kept entry = true ↔ entry ∉ entries.take limit ∨ stuck entry = true) :
    pass stuck limit entries = entries.filter kept := by
  have hsplit : entries.take limit ++ entries.drop limit = entries :=
    List.take_append_drop limit entries
  have hbatch : (entries.take limit).filter kept = (entries.take limit).filter stuck := by
    refine List.filter_congr fun entry hentry => ?_
    rw [Bool.eq_iff_iff, hkept entry (List.mem_of_mem_take hentry)]
    simp [hentry]
  have hrest : (entries.drop limit).filter kept = entries.drop limit := by
    refine List.filter_eq_self.mpr fun entry hentry => ?_
    apply (hkept entry (List.mem_of_mem_drop hentry)).mpr
    left
    rw [← hsplit, List.nodup_append] at hnodup
    exact fun htaken => hnodup.2.2 entry htaken entry hentry rfl
  calc pass stuck limit entries
      = (entries.take limit).filter kept ++ (entries.drop limit).filter kept := by
        rw [hbatch, hrest, pass]
    _ = entries.filter kept := by rw [← List.filter_append, hsplit]

theorem mem_of_mem_pass {entry : α} (h : entry ∈ pass stuck limit entries) : entry ∈ entries := by
  rcases List.mem_append.mp h with hbatch | hrest
  · exact List.mem_of_mem_take (List.mem_filter.mp hbatch).1
  · exact List.mem_of_mem_drop hrest

/-- An entry left behind that is not stuck lies behind the batch, with the stuck
entries of the batch still before it. -/
theorem split_of_pass {front back : List α} {entry : α} (hentry : stuck entry = false)
    (h : pass stuck limit entries = front ++ entry :: back) :
    ∃ before, entries = before ++ entry :: back ∧ before.countP stuck = front.countP stuck := by
  have hbehind : ∀ middle, front = (entries.take limit).filter stuck ++ middle →
      entries.drop limit = middle ++ entry :: back →
      ∃ before, entries = before ++ entry :: back ∧ before.countP stuck = front.countP stuck := by
    intro middle hfront hrest
    refine ⟨entries.take limit ++ middle, ?_, ?_⟩
    · rw [List.append_assoc, ← hrest, List.take_append_drop]
    · rw [hfront, List.countP_append, List.countP_append, List.countP_filter]
      simp
  rcases List.append_eq_append_iff.mp h with ⟨middle, hfront, hrest⟩ | ⟨middle, hbatch, hrest⟩
  · exact hbehind middle hfront hrest
  · cases middle with
    | nil =>
        rw [List.append_nil] at hbatch
        exact hbehind [] (by rw [hbatch, List.append_nil]) hrest.symm
    | cons head rest =>
        obtain rfl : entry = head := (List.cons.inj hrest).1
        have hstuck : entry ∈ (entries.take limit).filter stuck := by simp [hbatch]
        rw [(List.mem_filter.mp hstuck).2] at hentry
        cases hentry

theorem Unblocked.pass (h : Unblocked stuck limit entries) :
    Unblocked stuck limit (pass stuck limit entries) := by
  intro front entry back hsplit hentry
  obtain ⟨before, hbefore, hcount⟩ := split_of_pass hentry hsplit
  rw [← hcount]
  exact h before entry back hbefore hentry

/-- With an entry to take among unblocked ones, a pass takes at least one. -/
theorem Unblocked.countP_pass_lt (h : Unblocked stuck limit entries) {entry : α}
    (hmem : entry ∈ entries) (hentry : stuck entry = false) :
    (Sweeping.pass stuck limit entries).countP (fun entry => !stuck entry) <
      entries.countP fun entry => !stuck entry := by
  -- The first entry to take has stuck ones only before it, so the batch reaches it.
  obtain ⟨first, front, back, hfront, hfirst, hsplit⟩ :
      ∃ first front back, (∀ other ∈ front, stuck other = true) ∧ stuck first = false ∧
        entries = front ++ first :: back := by
    have hfind : (entries.find? fun entry => !stuck entry).isSome :=
      List.find?_isSome.mpr ⟨entry, hmem, by simp [hentry]⟩
    obtain ⟨first, hfirst⟩ := Option.isSome_iff_exists.mp hfind
    obtain ⟨hfree, front, back, hsplit, hfront⟩ := List.find?_eq_some_iff_append.mp hfirst
    exact ⟨first, front, back, by simpa using hfront, by simpa using hfree, hsplit⟩
  have hplace : front.length < limit := by
    have hcount := h front first back hsplit hfirst
    rwa [List.countP_eq_length.mpr hfront] at hcount
  have htaken : first ∈ entries.take limit := by
    obtain ⟨more, rfl⟩ := Nat.exists_eq_add_of_lt hplace
    rw [hsplit, List.take_append]
    simp [Nat.add_assoc]
  have hnone : ((entries.take limit).filter stuck).countP (fun entry => !stuck entry) = 0 :=
    List.countP_eq_zero.mpr fun other hother => by simp [(List.mem_filter.mp hother).2]
  have hsome : 0 < (entries.take limit).countP fun entry => !stuck entry :=
    List.countP_pos_iff.mpr ⟨first, htaken, by simp [hfirst]⟩
  calc (Sweeping.pass stuck limit entries).countP (fun entry => !stuck entry)
      = (entries.drop limit).countP fun entry => !stuck entry := by
        rw [Sweeping.pass, List.countP_append, hnone, Nat.zero_add]
    _ < (entries.take limit).countP (fun entry => !stuck entry) +
        (entries.drop limit).countP fun entry => !stuck entry := Nat.lt_add_of_pos_left hsome
    _ = entries.countP fun entry => !stuck entry := by
        rw [← List.countP_append, List.take_append_drop]

/-- Unblocked entries are all taken in the end. -/
theorem Unblocked.exists_iterate (h : Unblocked stuck limit entries) :
    ∃ count, ∀ entry ∈ (Sweeping.pass stuck limit)^[count] entries, stuck entry = true := by
  induction hsize : entries.countP (fun entry => !stuck entry) using Nat.strong_induction_on
    generalizing entries with
  | _ size ih =>
      by_cases hdone : ∀ entry ∈ entries, stuck entry = true
      · exact ⟨0, hdone⟩
      · obtain ⟨entry, hmem, hentry⟩ : ∃ entry ∈ entries, stuck entry = false := by
          simpa using hdone
        obtain ⟨count, hcount⟩ := ih _ (hsize ▸ h.countP_pass_lt hmem hentry) h.pass rfl
        exact ⟨count + 1, hcount⟩

/-- An entry with a whole batch of stuck ones before it is never reached. -/
theorem blocked_pass {front : List α} (entry : α) (back : List α)
    (hcount : limit ≤ front.countP stuck) :
    ∃ before, pass stuck limit (front ++ entry :: back) = before ++ entry :: back ∧
      limit ≤ before.countP stuck := by
  have hlength : limit ≤ front.length := hcount.trans List.countP_le_length
  refine ⟨pass stuck limit front, ?_, ?_⟩
  · rw [pass, pass, List.take_append_of_le_length hlength, List.drop_append_of_le_length hlength,
      List.append_assoc]
  · calc limit ≤ front.countP stuck := hcount
      _ = (front.take limit).countP stuck + (front.drop limit).countP stuck := by
        rw [← List.countP_append, List.take_append_drop]
      _ = (pass stuck limit front).countP stuck := by
        rw [pass, List.countP_append, List.countP_filter]
        simp

theorem blocked_iterate {front back : List α} {entry : α} (hcount : limit ≤ front.countP stuck)
    (count : Nat) : entry ∈ (pass stuck limit)^[count] (front ++ entry :: back) := by
  induction count generalizing front with
  | zero => simp
  | succ count ih =>
      obtain ⟨before, hpass, hbefore⟩ := blocked_pass entry back hcount
      rw [Function.iterate_succ_apply, hpass]
      exact ih hbefore

/-- Repeated passes take everything there is to take exactly when nothing is
blocked. -/
theorem exists_iterate_iff :
    (∃ count, ∀ entry ∈ (pass stuck limit)^[count] entries, stuck entry = true) ↔
      Unblocked stuck limit entries := by
  constructor
  · rintro ⟨count, hdone⟩ front entry back rfl hentry
    by_contra hblocked
    have hstuck := hdone entry (blocked_iterate (Nat.le_of_not_lt hblocked) count)
    rw [hentry] at hstuck
    cases hstuck
  · exact Unblocked.exists_iterate

end Sweeping
