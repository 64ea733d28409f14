/-
Tokens in slots

Every slot holds at most one token, and callers change the slots one step at a
time. A caller brings a token nobody has seen before, puts it into one slot and
never again; and it may take note of what a slot holds and act on the note
later. Whatever is done in between, a token is in one slot at most, and a token
noted at a slot is there or nowhere. So what a caller drops on a note of its own
cannot have come up elsewhere.

A token that no slot holds is to be marked. The books balance when, of the tokens
seen so far, exactly the ones that no slot holds are marked; they are kept by
every caller that marks what it drops and unmarks what it puts in, as long as it
drops nothing it has not noted.
-/

import Mathlib.Tactic

universe u v w

/-- What the slots hold, and what each caller has in hand. -/
structure Custody (ι : Type u) (σ : Type v) (τ : Type w) where
  slots : σ → Option τ
  /-- The tokens that have been seen at all. -/
  issued : τ → Prop
  /-- The token a caller has brought and not put anywhere. -/
  bringing : ι → Option τ
  /-- What a caller has noted of a slot. -/
  noted : ι → σ → τ → Prop

namespace Custody

variable {ι : Type u} {σ : Type v} {τ : Type w}

/-- Some slot holds the token. -/
def Held (custody : Custody ι σ τ) (token : τ) : Prop := ∃ slot, custody.slots slot = some token

/-- A token has one place, and a note of it says where. -/
structure Sound (custody : Custody ι σ τ) : Prop where
  issued : ∀ {slot token}, custody.slots slot = some token → custody.issued token
  once : ∀ {slot other token}, custody.slots slot = some token → custody.slots other = some token →
    slot = other
  brought : ∀ {who token}, custody.bringing who = some token → custody.issued token
  fresh : ∀ {who token}, custody.bringing who = some token → ¬ custody.Held token
  distinct : ∀ {who other token}, custody.bringing who = some token →
    custody.bringing other = some token → who = other
  notedIssued : ∀ {who slot token}, custody.noted who slot token → custody.issued token
  notedSettled : ∀ {who other slot token}, custody.noted who slot token →
    custody.bringing other ≠ some token
  notedPlace : ∀ {who slot other token}, custody.noted who slot token →
    custody.slots other = some token → other = slot

/-- What one caller's step may do, `target` the slot it puts its token into. -/
structure Step (who : ι) (target : Option σ) (before after : Custody ι σ τ) : Prop where
  issued : ∀ {token}, before.issued token → after.issued token
  /-- A slot holds what it held, or what the caller brought. -/
  slots : ∀ {slot token}, after.slots slot = some token →
    before.slots slot = some token ∨
      (target = some slot ∧ before.bringing who = some token ∧ after.bringing who = none)
  /-- What the caller brings it brought already, or is new. -/
  bringing : ∀ {token}, after.bringing who = some token →
    before.bringing who = some token ∨ (¬ before.issued token ∧ after.issued token)
  bringingOther : ∀ {other}, other ≠ who → after.bringing other = before.bringing other
  /-- What the caller has noted it had noted already, or found. -/
  noted : ∀ {slot token}, after.noted who slot token →
    before.noted who slot token ∨ before.slots slot = some token
  notedOther : ∀ {other}, other ≠ who → after.noted other = before.noted other

section Steps

variable {who : ι} {target : Option σ} {before after : Custody ι σ τ} {slot other : σ} {token : τ}

/-- A token that is in a slot after a step was there, or was brought there. -/
theorem Step.held (hstep : Step who target before after) (hheld : after.Held token) :
    before.Held token ∨ before.bringing who = some token := by
  obtain ⟨slot, hslot⟩ := hheld
  rcases hstep.slots hslot with hold | ⟨-, hbrought, -⟩
  · exact Or.inl ⟨slot, hold⟩
  · exact Or.inr hbrought

/-- A token nobody brings has no place but the ones it had. -/
theorem Step.slots_of_settled (hstep : Step who target before after)
    (hsettled : before.bringing who ≠ some token) (hslot : after.slots slot = some token) :
    before.slots slot = some token := by
  rcases hstep.slots hslot with hold | ⟨-, hbrought, -⟩
  · exact hold
  · exact absurd hbrought hsettled

theorem Step.brought (hstep : Step who target before after) {caller : ι}
    (h : after.bringing caller = some token) :
    before.bringing caller = some token ∨
      (caller = who ∧ ¬ before.issued token ∧ after.issued token) := by
  by_cases hcaller : caller = who
  · subst hcaller
    exact (hstep.bringing h).imp id fun hnew => ⟨rfl, hnew⟩
  · exact Or.inl (by rwa [hstep.bringingOther hcaller] at h)

theorem Step.notes (hstep : Step who target before after) {caller : ι}
    (h : after.noted caller slot token) :
    before.noted caller slot token ∨ before.slots slot = some token := by
  by_cases hcaller : caller = who
  · subst hcaller
    exact hstep.noted h
  · exact Or.inl (by rwa [hstep.notedOther hcaller] at h)

theorem Sound.step (h : Sound before) (hstep : Step who target before after) : Sound after where
  issued hslot := by
    rcases hstep.slots hslot with hold | ⟨-, hbrought, -⟩
    · exact hstep.issued (h.issued hold)
    · exact hstep.issued (h.brought hbrought)
  once hslot hother := by
    rcases hstep.slots hslot with hold | ⟨htarget, hbrought, -⟩
    · rcases hstep.slots hother with holdOther | ⟨-, hbrought, -⟩
      · exact h.once hold holdOther
      · exact absurd ⟨_, hold⟩ (h.fresh hbrought)
    · rcases hstep.slots hother with holdOther | ⟨htargetOther, -, -⟩
      · exact absurd ⟨_, holdOther⟩ (h.fresh hbrought)
      · exact Option.some.inj (htarget.symm.trans htargetOther)
  brought hbringing := by
    rcases hstep.brought hbringing with hold | ⟨-, -, hnew⟩
    · exact hstep.issued (h.brought hold)
    · exact hnew
  fresh := by
    rintro caller token hbringing ⟨slot, hslot⟩
    rcases hstep.brought hbringing with hold | ⟨-, hnew, -⟩
    · rcases hstep.slots hslot with hheld | ⟨-, hbrought, hnone⟩
      · exact h.fresh hold ⟨slot, hheld⟩
      · rw [h.distinct hold hbrought, hnone] at hbringing
        cases hbringing
    · rcases hstep.slots hslot with hheld | ⟨-, hbrought, -⟩
      · exact hnew (h.issued hheld)
      · exact hnew (h.brought hbrought)
  distinct hbringing hother := by
    rcases hstep.brought hbringing with hold | ⟨hcaller, hnew, -⟩
    · rcases hstep.brought hother with holdOther | ⟨-, hnewOther, -⟩
      · exact h.distinct hold holdOther
      · exact absurd (h.brought hold) hnewOther
    · rcases hstep.brought hother with holdOther | ⟨hcallerOther, -, -⟩
      · exact absurd (h.brought holdOther) hnew
      · rw [hcaller, hcallerOther]
  notedIssued hnoted := by
    rcases hstep.notes hnoted with hold | hheld
    · exact hstep.issued (h.notedIssued hold)
    · exact hstep.issued (h.issued hheld)
  notedSettled hnoted := by
    intro hbringing
    rcases hstep.brought hbringing with holdBringing | ⟨-, hnew, -⟩
    · rcases hstep.notes hnoted with hold | hheld
      · exact h.notedSettled hold holdBringing
      · exact h.fresh holdBringing ⟨_, hheld⟩
    · rcases hstep.notes hnoted with hold | hheld
      · exact hnew (h.notedIssued hold)
      · exact hnew (h.issued hheld)
  notedPlace hnoted hslot := by
    rcases hstep.notes hnoted with hold | hheld
    · exact h.notedPlace hold (hstep.slots_of_settled (h.notedSettled hold) hslot)
    · have hsettled : before.bringing who ≠ some _ := fun hbringing =>
        h.fresh hbringing ⟨_, hheld⟩
      exact h.once (hstep.slots_of_settled hsettled hslot) hheld

/-- A caller that clears the slot of a token it has noted clears it away. -/
theorem Sound.not_held_of_dropped (h : Sound before) (hstep : Step who target before after)
    {caller : ι} (hnoted : before.noted caller slot token)
    (hdropped : after.slots slot ≠ some token) : ¬ after.Held token := by
  rintro ⟨other, hother⟩
  have hold := hstep.slots_of_settled (h.notedSettled hnoted) hother
  rw [h.notedPlace hnoted hold] at hother
  exact hdropped hother

/-! ### The books -/

/-- Of the tokens seen, exactly the ones in no slot are marked. -/
def Balanced (custody : Custody ι σ τ) (marked : τ → Prop) : Prop :=
  ∀ token, custody.issued token → (marked token ↔ ¬ custody.Held token)

/-- What a caller drops and what it puts in, of a step that marks the one and
unmarks the other. -/
structure Settles (who : ι) (before after : Custody ι σ τ) (dropped put : τ → Prop) : Prop where
  /-- What the caller drops it had noted, and its slot is cleared. -/
  cleared : ∀ {token}, dropped token →
    ∃ slot, before.noted who slot token ∧ after.slots slot ≠ some token
  /-- No other slot loses what it held. -/
  kept : ∀ {slot token}, before.slots slot = some token →
    after.slots slot = some token ∨ dropped token
  held : ∀ {token}, put token → after.Held token
  brought : ∀ {token}, after.Held token → before.bringing who = some token → put token

/-- Tokens seen for the first time are marked already, and no slot is touched. -/
theorem Balanced.seen {marked : τ → Prop} (h : Balanced before marked) (hsound : Sound before)
    (hslots : after.slots = before.slots)
    (hnew : ∀ token, after.issued token → ¬ before.issued token → marked token) :
    Balanced after marked := by
  intro token hissued
  have hheld : after.Held token ↔ before.Held token := by rw [Held, Held, hslots]
  rw [hheld]
  by_cases hold : before.issued token
  · exact h token hold
  · refine iff_of_true (hnew token hissued hold) ?_
    rintro ⟨slot, hslot⟩
    exact hold (hsound.issued hslot)

theorem Balanced.step {marked markedAfter dropped put : τ → Prop} (h : Balanced before marked)
    (hsound : Sound before) (hstep : Step who target before after)
    (hsettles : Settles who before after dropped put)
    (hnew : ∀ token, after.issued token → ¬ before.issued token → markedAfter token)
    (hmarked : ∀ token, before.issued token →
      (markedAfter token ↔ dropped token ∨ (marked token ∧ ¬ put token))) :
    Balanced after markedAfter := by
  intro token hissued
  by_cases hold : before.issued token
  · rw [hmarked token hold]
    constructor
    · rintro (hdropped | ⟨hmark, hput⟩)
      · obtain ⟨slot, hnoted, hcleared⟩ := hsettles.cleared hdropped
        exact hsound.not_held_of_dropped hstep hnoted hcleared
      · intro hheld
        rcases hstep.held hheld with hbefore | hbrought
        · exact (h token hold).mp hmark hbefore
        · exact hput (hsettles.brought hheld hbrought)
    · intro hfree
      have hput : ¬ put token := fun hput => hfree (hsettles.held hput)
      by_cases hheld : before.Held token
      · obtain ⟨slot, hslot⟩ := hheld
        rcases hsettles.kept hslot with hkept | hdropped
        · exact absurd ⟨slot, hkept⟩ hfree
        · exact Or.inl hdropped
      · exact Or.inr ⟨(h token hold).mpr hheld, hput⟩
  · refine iff_of_true (hnew token hissued hold) ?_
    intro hheld
    rcases hstep.held hheld with ⟨slot, hslot⟩ | hbrought
    · exact hold (hsound.issued hslot)
    · exact hold (hsound.brought hbrought)

end Steps

end Custody
