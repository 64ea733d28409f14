/-
Reading by position

A reader keeps a position into its input, or it keeps what is left of the input. The
first may read outside the input and the second cannot. Where the first follows the second
step by step it stays inside, and both come to the same result.
-/

import MonoBucket.Lib.RollUp

namespace Cursor

variable {α β γ δ ε : Type}

/-- What stops a reader by position: a read outside the input, or a failure of its own. -/
inductive Fault (ε : Type)
  | outside
  | failed (error : ε)

/-! ### Reads at a position -/

def item (input : List α) (position : Nat) : Except (Fault ε) α :=
  match input[position]? with
  | none => .error .outside
  | some item => .ok item

/-- Whether a literal stands at a position. -/
def startsWith [DecidableEq α] (input literal : List α) (position : Nat) : Except (Fault ε) Bool :=
  if input.length < position then .error .outside
  else .ok (literal.isPrefixOf (input.drop position))

/-- As many items as there are from a position on, up to a count. -/
def slice (input : List α) (position count : Nat) : Except (Fault ε) (List α) :=
  if input.length < position then .error .outside else .ok ((input.drop position).take count)

/-- The position behind the items to skip. -/
def skipWhile (skipped : α → Bool) (input : List α) (position : Nat) : Except (Fault ε) Nat :=
  if position < input.length then do
    let next ← item input position
    if skipped next then skipWhile skipped input (position + 1) else pure position
  else pure position
termination_by input.length - position

/-! ### Positions and what is left -/

/-- The position is inside the input, and this is what is left there. -/
structure At (input : List α) (position : Nat) (rest : List α) : Prop where
  inside : position ≤ input.length
  left : input.drop position = rest

section Positions

variable {input rest : List α} {head : α} {position : Nat}

theorem At.start (input : List α) : At input 0 input := ⟨Nat.zero_le _, rfl⟩

theorem At.length (h : At input position rest) : rest.length = input.length - position := by
  rw [← h.left, List.length_drop]

theorem At.drop (h : At input position rest) {count : Nat} (hcount : count ≤ rest.length) :
    At input (position + count) (rest.drop count) where
  inside := by
    have hlength := h.length
    have hinside := h.inside
    omega
  left := by rw [← h.left, List.drop_drop]

theorem At.tail (h : At input position (head :: rest)) : At input (position + 1) rest := by
  have hdrop := @At.drop α input (head :: rest) position h 1 (by simp)
  exact hdrop

theorem At.lt_length (h : At input position (head :: rest)) : position < input.length := by
  have hlength := h.length
  rw [List.length_cons] at hlength
  omega

theorem At.length_le (h : At input position []) : input.length ≤ position := by
  have hlength := h.length
  rw [List.length_nil] at hlength
  omega

theorem At.item_eq (h : At input position (head :: rest)) :
    item input position = (.ok head : Except (Fault ε) α) := by
  have hhead : input[position]? = some head := by
    rw [← Nat.add_zero position, ← List.getElem?_drop, h.left]
    rfl
  rw [item, hhead]

theorem At.slice_eq (h : At input position rest) (count : Nat) :
    slice input position count = (.ok (rest.take count) : Except (Fault ε) (List α)) := by
  rw [slice, if_neg (not_lt.mpr h.inside), h.left]

/-- The reader skips what the other drops. -/
theorem At.skipWhile_eq (h : At input position rest) (skipped : α → Bool) :
    ∃ count, skipWhile skipped input position = (.ok (position + count) : Except (Fault ε) Nat) ∧
      At input (position + count) (rest.dropWhile skipped) ∧
      rest.take count = rest.takeWhile skipped := by
  induction rest generalizing position with
  | nil =>
      refine ⟨0, ?_, h, rfl⟩
      rw [skipWhile, if_neg (not_lt.mpr h.length_le)]
      rfl
  | cons head rest ih =>
      have hturn : (skipWhile skipped input position : Except (Fault ε) Nat) =
          if skipped head then skipWhile skipped input (position + 1) else pure position := by
        rw [skipWhile, if_pos h.lt_length, h.item_eq]
        rfl
      rw [hturn]
      by_cases hskipped : skipped head = true
      · obtain ⟨count, hcount, hat, htake⟩ := ih h.tail
        refine ⟨count + 1, ?_, ?_, ?_⟩
        · rw [if_pos hskipped, hcount, Nat.add_assoc, Nat.add_comm 1]
        · rw [List.dropWhile_cons_of_pos hskipped]
          rwa [Nat.add_assoc, Nat.add_comm 1] at hat
        · rw [List.take_succ_cons, List.takeWhile_cons_of_pos hskipped, htake]
      · refine ⟨0, ?_, ?_, ?_⟩
        · rw [if_neg hskipped]
          rfl
        · rw [List.dropWhile_cons_of_neg hskipped]
          exact h
        · rw [List.takeWhile_cons_of_neg hskipped]
          rfl

theorem At.startsWith_eq [DecidableEq α] (h : At input position rest) (literal : List α) :
    startsWith input literal position = (.ok (literal.isPrefixOf rest) : Except (Fault ε) Bool) := by
  rw [startsWith, if_neg (not_lt.mpr h.inside), h.left]

/-- Behind a part of a literal that stands at the position. -/
theorem At.behind [DecidableEq α] (h : At input position rest) {literal : List α}
    (hstands : literal.isPrefixOf rest = true) (count : Nat) (hcount : count ≤ literal.length) :
    At input (position + count) (rest.drop count) := by
  have hlength := (List.isPrefixOf_iff_prefix.mp hstands).length_le
  exact h.drop (by omega)

variable [LinearOrder α]

theorem At.indexFrom_eq (h : At input position rest) (literal : List α) :
    RollUp.indexFrom literal input position =
      (RollUp.indexOfPattern literal rest).map (· + position) := by
  rw [RollUp.indexFrom, h.left]

/-- Where a literal was found there are at least as many items as it has. -/
theorem At.found (h : At input position rest) {literal : List α} {index : Nat}
    (hindex : RollUp.indexOfPattern literal rest = some index) (count : Nat) (hcount : count ≤ literal.length)
    (hsome : literal ≠ []) : At input (index + position + count) (rest.drop (index + count)) := by
  obtain ⟨hstands, -⟩ := RollUp.indexOfPattern_eq_some_iff.mp hindex
  have hlength := hstands.length_le
  rw [List.length_drop] at hlength
  have hpos := List.length_pos_iff.mpr hsome
  have hdrop := @At.drop α input rest position h (index + count) (by omega)
  rwa [← Nat.add_assoc, Nat.add_comm position] at hdrop

end Positions

/-! ### Following -/

/-- Both fail alike, or both succeed with related results. A reader that follows one that
keeps what is left never reads outside. -/
def Follows (related : β → γ → Prop) : Except (Fault ε) β → Except ε γ → Prop
  | .ok result, .ok other => related result other
  | .error (.failed error), .error other => error = other
  | _, _ => False

variable {related : β → γ → Prop} {first : Except (Fault ε) β} {second : Except ε γ}

theorem Follows.bind {further : α → δ → Prop} (h : Follows related first second)
    {next : β → Except (Fault ε) α} {after : γ → Except ε δ}
    (hnext : ∀ result other, related result other → Follows further (next result) (after other)) :
    Follows further (first >>= next) (second >>= after) := by
  cases first with
  | ok result =>
      cases second with
      | ok other => exact hnext result other h
      | error error => exact h.elim
  | error fault =>
      cases second with
      | ok other => cases fault <;> exact h.elim
      | error error =>
          cases fault with
          | outside => exact h.elim
          | failed => exact h

/-- A read that cannot fail has no part in what is followed. -/
theorem Follows.read {first : Except (Fault ε) α} {value : α} (hfirst : first = .ok value)
    {next : α → Except (Fault ε) β} (hnext : Follows related (next value) second) :
    Follows related (first >>= next) second := by
  rw [hfirst]
  exact hnext

theorem Follows.mono {wider : β → γ → Prop} (h : Follows related first second)
    (hwider : ∀ result other, related result other → wider result other) :
    Follows wider first second := by
  cases first with
  | ok result =>
      cases second with
      | ok other => exact hwider result other h
      | error error => exact h.elim
  | error fault =>
      cases second with
      | ok other => cases fault <;> exact h.elim
      | error error =>
          cases fault with
          | outside => exact h.elim
          | failed => exact h

/-- Readers of the same result answer the same, up to the kind of failure. -/
theorem Follows.eq {first : Except (Fault ε) β} {second : Except ε β}
    (h : Follows (· = ·) first second) : first = second.mapError .failed := by
  cases first with
  | ok result =>
      cases second with
      | ok other => exact congrArg Except.ok h
      | error error => exact h.elim
  | error fault =>
      cases second with
      | ok other => cases fault <;> exact h.elim
      | error error =>
          cases fault with
          | outside => exact h.elim
          | failed => exact congrArg (fun error => Except.error (Fault.failed error)) h

end Cursor
