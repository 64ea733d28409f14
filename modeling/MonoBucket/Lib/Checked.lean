/-
Computations that may fail

The rules for reading off what a successful `Except` computation did: each step
of a sequence succeeded, and each turn of a checking loop did.
-/

import Mathlib.Tactic

namespace Except

variable {ε α β : Type}

theorem bind_eq_ok_iff {first : Except ε α} {next : α → Except ε β} {result : β} :
    first >>= next = .ok result ↔ ∃ value, first = .ok value ∧ next value = .ok result := by
  cases first with
  | error error =>
      constructor
      · intro h
        cases h
      · rintro ⟨value, h, -⟩
        cases h
  | ok value =>
      constructor
      · exact fun h => ⟨value, rfl, h⟩
      · rintro ⟨other, hvalue, h⟩
        cases hvalue
        exact h

@[simp]
theorem pure_eq_ok_iff {value result : α} :
    (pure value : Except ε α) = .ok result ↔ value = result := by
  constructor
  · intro h
    cases h
    rfl
  · rintro rfl
    rfl

theorem toOption_eq_some {computation : Except ε α} {value : α}
    (h : computation.toOption = some value) : computation = .ok value := by
  cases computation with
  | error error => cases h
  | ok result => rw [Option.some.inj h]

theorem eq_ok_of_mapError {δ : Type} {f : ε → δ} {computation : Except ε α} {value : α}
    (h : computation.mapError f = .ok value) : computation = .ok value := by
  cases computation with
  | error error => cases h
  | ok result => exact congrArg _ (Except.ok.inj h)

theorem exists_of_map_eq_ok {f : α → β} {computation : Except ε α} {result : β}
    (h : computation.map f = .ok result) : ∃ value, computation = .ok value ∧ f value = result := by
  cases computation with
  | error error => cases h
  | ok value => exact ⟨value, rfl, Except.ok.inj h⟩

/-- The computation succeeds, with a result the condition holds of. -/
def Yields (computation : Except ε α) (post : α → Prop) : Prop :=
  ∃ value, computation = .ok value ∧ post value

theorem Yields.bind {first : Except ε α} {next : α → Except ε β} {middle : α → Prop}
    {post : β → Prop} (hfirst : first.Yields middle)
    (hnext : ∀ value, middle value → (next value).Yields post) : (first >>= next).Yields post := by
  obtain ⟨value, rfl, hvalue⟩ := hfirst
  exact hnext value hvalue

/-- The computation succeeds. -/
def Returns (computation : Except ε α) : Prop := ∃ value, computation = .ok value

theorem Yields.returns {computation : Except ε α} {post : α → Prop} (h : computation.Yields post) :
    computation.Returns := by
  obtain ⟨value, hvalue, -⟩ := h
  exact ⟨value, hvalue⟩

theorem Returns.yields {computation : Except ε α} (h : computation.Returns) :
    computation.Yields fun _ => True := by
  obtain ⟨value, hvalue⟩ := h
  exact ⟨value, hvalue, trivial⟩

theorem Returns.map {computation : Except ε α} (h : computation.Returns) (f : α → β) :
    (computation.map f).Returns := by
  obtain ⟨value, rfl⟩ := h
  exact ⟨f value, rfl⟩

theorem Returns.bind {first : Except ε α} {next : α → Except ε β} (hfirst : first.Returns)
    (hnext : ∀ value, (next value).Returns) : (first >>= next).Returns :=
  (hfirst.yields.bind fun value _ => (hnext value).yields).returns

/-- The computation succeeds with a result the condition holds of, or fails in an allowed way. -/
def Ends (allowed : ε → Prop) (computation : Except ε α) (post : α → Prop) : Prop :=
  match computation with
  | .ok value => post value
  | .error failure => allowed failure

section Ends

variable {allowed : ε → Prop} {computation : Except ε α} {middle post : α → Prop}

theorem Ends.mono (h : computation.Ends allowed middle)
    (hpost : ∀ value, middle value → post value) : computation.Ends allowed post := by
  cases computation with
  | ok value => exact hpost value h
  | error error => exact h

theorem Ends.bind {next : α → Except ε β} {post : β → Prop} (h : computation.Ends allowed middle)
    (hnext : ∀ value, middle value → (next value).Ends allowed post) :
    (computation >>= next).Ends allowed post := by
  cases computation with
  | ok value => exact hnext value h
  | error error => exact h

end Ends

/-- A checking loop passes when every check does. -/
theorem forM_eq_ok_iff {items : List α} {check : α → Except ε Unit} :
    items.forM check = .ok ⟨⟩ ↔ ∀ item ∈ items, check item = .ok ⟨⟩ := by
  induction items with
  | nil => simp [List.forM, pure, Except.pure]
  | cons item rest ih =>
      have hcons : (item :: rest).forM check = (check item >>= fun _ => rest.forM check) := rfl
      rw [hcons, bind_eq_ok_iff]
      simp only [ih, List.forall_mem_cons]
      constructor
      · rintro ⟨⟨⟩, hitem, hrest⟩
        exact ⟨hitem, hrest⟩
      · rintro ⟨hitem, hrest⟩
        exact ⟨⟨⟩, hitem, hrest⟩

/-- A loop that collects results collects one of each item, in order. -/
theorem mapM_eq_ok_iff {items : List α} {read : α → Except ε β} {results : List β} :
    items.mapM read = .ok results ↔
      List.Forall₂ (fun item result => read item = .ok result) items results := by
  induction items generalizing results with
  | nil =>
      rw [List.mapM_nil, pure_eq_ok_iff, List.forall₂_nil_left_iff]
      exact eq_comm
  | cons item items ih =>
      rw [List.mapM_cons, bind_eq_ok_iff, List.forall₂_cons_left_iff]
      constructor
      · rintro ⟨result, hresult, h⟩
        obtain ⟨others, hothers, h⟩ := bind_eq_ok_iff.mp h
        exact ⟨result, others, hresult, ih.mp hothers, (pure_eq_ok_iff.mp h).symm⟩
      · rintro ⟨result, others, hresult, hothers, rfl⟩
        exact ⟨result, hresult, bind_eq_ok_iff.mpr ⟨others, ih.mpr hothers, rfl⟩⟩

/-- It fails where the first item does. -/
theorem mapM_eq_error_iff {items : List α} {read : α → Except ε β} {error : ε} :
    items.mapM read = .error error ↔
      ∃ earlier item later, items = earlier ++ item :: later ∧
        (∀ other ∈ earlier, (read other).Returns) ∧ read item = .error error := by
  induction items with
  | nil =>
      refine iff_of_false (fun h => by cases h) ?_
      rintro ⟨earlier, item, later, h, -, -⟩
      exact absurd h (by simp)
  | cons first items ih =>
      rw [List.mapM_cons]
      cases hfirst : read first with
      | error other =>
          have hleft : (Except.error other >>= fun result : β => do
              let results ← items.mapM read
              pure (result :: results)) = .error error ↔ other = error :=
            ⟨fun h => Except.error.inj h, fun h => h ▸ rfl⟩
          rw [hleft]
          constructor
          · rintro rfl
            exact ⟨[], first, items, rfl, fun _ h => (nomatch h), hfirst⟩
          · rintro ⟨earlier, item, later, h, hearlier, hitem⟩
            cases earlier with
            | nil =>
                obtain ⟨rfl, -⟩ := List.cons.inj h
                exact Except.error.inj (hfirst.symm.trans hitem)
            | cons head earlier =>
                obtain ⟨rfl, -⟩ := List.cons.inj h
                obtain ⟨value, hvalue⟩ := hearlier first List.mem_cons_self
                rw [hfirst] at hvalue
                cases hvalue
      | ok result =>
          have hleft : (Except.ok result >>= fun result : β => do
              let results ← items.mapM read
              pure (result :: results)) = .error error ↔ items.mapM read = .error error := by
            show (items.mapM read >>= fun results => pure (result :: results)) = _ ↔ _
            cases items.mapM read with
            | error other => exact Iff.rfl
            | ok results => exact iff_of_false (fun h => by cases h) fun h => by cases h
          rw [hleft, ih]
          constructor
          · rintro ⟨earlier, item, later, rfl, hearlier, hitem⟩
            refine ⟨first :: earlier, item, later, rfl, ?_, hitem⟩
            exact List.forall_mem_cons.mpr ⟨⟨result, hfirst⟩, hearlier⟩
          · rintro ⟨earlier, item, later, h, hearlier, hitem⟩
            cases earlier with
            | nil =>
                obtain ⟨rfl, -⟩ := List.cons.inj h
                rw [hfirst] at hitem
                cases hitem
            | cons head earlier =>
                obtain ⟨rfl, rfl⟩ := List.cons.inj h
                exact ⟨earlier, item, later, rfl,
                  fun other hother => hearlier other (List.mem_cons_of_mem _ hother), hitem⟩

end Except

namespace List

variable {α β : Type} {R : α → β → Prop} {items : List α} {results : List β}

theorem Forall₂.exists_result (h : Forall₂ R items results) {item : α} (hitem : item ∈ items) :
    ∃ result ∈ results, R item result := by
  induction h with
  | nil => cases hitem
  | cons hfirst _ ih =>
      rcases mem_cons.mp hitem with rfl | hitem
      · exact ⟨_, mem_cons_self, hfirst⟩
      · obtain ⟨result, hresult, h⟩ := ih hitem
        exact ⟨result, mem_cons_of_mem _ hresult, h⟩

theorem Forall₂.exists_item (h : Forall₂ R items results) {result : β} (hresult : result ∈ results) :
    ∃ item ∈ items, R item result :=
  h.flip.exists_result hresult

theorem exists_forall₂ (h : ∀ item ∈ items, ∃ result, R item result) :
    ∃ results, Forall₂ R items results := by
  induction items with
  | nil => exact ⟨[], .nil⟩
  | cons item items ih =>
      obtain ⟨⟨result, hresult⟩, hitems⟩ := forall_mem_cons.mp h
      obtain ⟨results, hresults⟩ := ih hitems
      exact ⟨result :: results, .cons hresult hresults⟩

end List
