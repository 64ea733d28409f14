/-
There is always an administrator

Three handlers refuse to take the last enabled administrator away, and each
counts in one store call and writes in another. Two administrators acting on
each other both count two and both write. A run in which every call that takes
an enabled administrator away acts on the record it read, with no fewer
administrators than it counted, always leaves one.
-/

import MonoBucket.Server.ConsoleMoves

namespace MonoBucket.Console

/-- What a call that is about to write an account's row goes by. -/
structure Basis where
  username : Bytes
  /-- The record the request read. -/
  user : Option UserRecord
  /-- How many enabled administrators it counted. -/
  counted : Option Nat
  /-- The account is an enabled administrator afterwards. -/
  keeps : Bool

def Phase.basis : Phase → Option Basis
  | .creating username _ role _ => some ⟨username.items, none, none, role = .administrator⟩
  | .patchWriting username change user counted =>
    some ⟨username.items, some user, counted, (change.applied user).enabledAdministrator⟩
  | .deleteKeys username user counted [] _ => some ⟨username.items, some user, counted, false⟩
  | .passwordWriting target _ _ user =>
    some ⟨target.items, some user, none, user.enabledAdministrator⟩
  | _ => none

/-- What the request read is still so: the record, and no fewer administrators. -/
def Basis.Current (rows : Rows) (basis : Basis) : Prop :=
  userAt rows basis.username = .ok basis.user ∧
    ∀ count ∈ basis.counted,
      (countEnabledAdministrators rows).toOption.any (fun now => count ≤ now) = true

instance (rows : Rows) (basis : Basis) : Decidable (basis.Current rows) :=
  inferInstanceAs (Decidable (_ ∧ ∀ count ∈ basis.counted, _))

/-- The call takes the stored record of an enabled administrator away. -/
def Basis.Removes (rows : Rows) (basis : Basis) : Prop :=
  basis.keeps = false ∧ ∃ user ∈ storedUser rows basis.username, user.enabledAdministrator

instance (rows : Rows) (basis : Basis) : Decidable (basis.Removes rows) :=
  inferInstanceAs (Decidable (_ ∧ ∃ user ∈ storedUser rows basis.username, _))

section Runs

variable {ι : Type} [DecidableEq ι] {scheme : PasswordScheme}

/-- A call takes an administrator away only while what its request read is so. -/
def RemovesCurrent (state : State ι) : Label ι → Prop
  | .start .. => True
  | .call who _ =>
    ∀ basis ∈ (state.calls who).basis,
      basis.Removes state.shared.store.rows → basis.Current state.shared.store.rows

instance (state : State ι) (label : Label ι) : Decidable (RemovesCurrent state label) :=
  match label with
  | .start .. => isTrue trivial
  | .call who _ => inferInstanceAs (Decidable (∀ basis ∈ (state.calls who).basis, _ → _))

end Runs

/-! ### One call -/

section Calls

/-- A counted administrator that is taken away was not the last one. -/
theorem hasOther_of_counted {rows : Rows} {basis : Basis}
    (hcurrent : basis.Current rows) (hcounted : ∃ count ∈ basis.counted, 1 < count) :
    HasOther rows basis.username := by
  obtain ⟨count, hcount, hmore⟩ := hcounted
  have hnow := hcurrent.2 count hcount
  cases hread : countEnabledAdministrators rows with
  | error error => simp [hread, Except.toOption] at hnow
  | ok now =>
      have hle : count ≤ now := by simpa [hread, Except.toOption] using hnow
      exact hasOther_of_count hread (by omega) basis.username

/-- A call whose request knows the account was not the last leaves one. -/
theorem hasOther_of_basis {rows : Rows} {basis : Basis} (hadmin : HasAdministrator rows)
    (hguard : basis.Removes rows → basis.Current rows) (hkeeps : basis.keeps = false)
    (hknown : ∀ user, basis.user = some user → user.enabledAdministrator →
      ∃ count ∈ basis.counted, 1 < count) :
    HasOther rows basis.username := by
  by_cases hremoves : basis.Removes rows
  · have hcurrent := hguard hremoves
    obtain ⟨-, user, huser, hcounted⟩ := hremoves
    have hread := mem_storedUser.mp huser
    rw [hcurrent.1] at hread
    exact hasOther_of_counted hcurrent (hknown user (Except.ok.inj hread) hcounted)
  · refine hadmin.hasOther fun user hread => ?_
    by_contra hcounted
    exact hremoves ⟨hkeeps, user, mem_storedUser.mpr hread, by simpa using hcounted⟩

/-- What a request knows of the record it goes by. -/
theorem known_basis {phase : Phase} (hknown : phase.Known) {basis : Basis}
    (hbasis : phase.basis = some basis) (hkeeps : basis.keeps = false) :
    ∀ user, basis.user = some user → user.enabledAdministrator →
      ∃ count ∈ basis.counted, 1 < count := by
  intro read hread hadmin
  cases phase with
  | creating username password role buckets =>
      cases hbasis
      cases hread
  | patchWriting username change user counted =>
      cases hbasis
      cases hread
      exact hknown.2 hadmin (change.losesAdmin_of_applied _ hadmin hkeeps)
  | deleteKeys username user counted remaining revoked =>
      cases remaining with
      | nil =>
          cases hbasis
          cases hread
          exact hknown.2 hadmin trivial
      | cons key remaining => cases hbasis
  | passwordWriting target self newPassword user =>
      cases hbasis
      cases hread
      rw [hadmin] at hkeeps
      cases hkeeps
  | _ => cases hbasis

/-- A call that keeps the guard leaves an administrator. -/
theorem hasAdministrator_of_move {console : Shared} {phase next : Phase} {effect : Effect}
    (hmove : Move console phase effect next) (hknown : phase.Known)
    (hadmin : HasAdministrator console.store.rows)
    (hguard : ∀ basis ∈ phase.basis, basis.Removes console.store.rows →
      basis.Current console.store.rows) :
    HasAdministrator (effect.apply console).store.rows := by
  have hother : ∀ basis, phase.basis = some basis → basis.keeps = false →
      HasOther console.store.rows basis.username := fun basis hbasis hkeeps =>
    hasOther_of_basis hadmin (hguard basis hbasis) hkeeps (known_basis hknown hbasis hkeeps)
  cases hmove with
  | @create username password role buckets user hname hrole hbuckets henabled =>
      refine hasAdministrator_putUser (fun hcounted => storable_of_unrestricted ?_) fun hcounted => ?_
      · rw [UserRecord.enabledAdministrator, Bool.and_eq_true] at hcounted
        rw [hbuckets]
        exact hknown (by simpa [hrole] using hcounted.2)
      · have hkeeps : (decide (role = .administrator)) = false := by
          rw [UserRecord.enabledAdministrator, henabled, hrole] at hcounted
          simpa using hcounted
        rw [hname]
        exact hother _ rfl hkeeps
  | @patch username change user counted updatedAt =>
      refine hasAdministrator_putUser (fun hcounted => storable_of_unrestricted ?_) fun hcounted => ?_
      · rw [UserRecord.enabledAdministrator, Bool.and_eq_true] at hcounted
        exact change.unrestricted_applied user (by simpa using hcounted.2)
      · have hname : (change.applied user).username = username.items := by
          simpa using hknown.1.name
        rw [show ({ change.applied user with updatedAt } : UserRecord).username = username.items from
          hname]
        exact hother _ rfl hcounted
  | @changePassword target self newPassword user hash now =>
      refine hasAdministrator_putUser (fun _ => hknown.2) fun hcounted => ?_
      have hread := hother _ rfl hcounted
      rwa [← hknown.1.name] at hread
  | deleteUser => exact (hother _ rfl rfl).deleteUser
  | issue =>
      obtain ⟨username, user, hread, hcounted⟩ := hadmin
      exact ⟨username, user, by simpa [Effect.apply] using hread, hcounted⟩
  | rotate _ _ =>
      obtain ⟨username, user, hread, hcounted⟩ := hadmin
      exact ⟨username, user, by simpa [Effect.apply] using hread, hcounted⟩
  | revoke =>
      obtain ⟨username, user, hread, hcounted⟩ := hadmin
      exact ⟨username, user, by simpa [Effect.apply] using hread, hcounted⟩
  | deleteKey =>
      obtain ⟨username, user, hread, hcounted⟩ := hadmin
      exact ⟨username, user, by simpa [Effect.apply] using hread, hcounted⟩
  | _ => exact hadmin

end Calls

/-! ### Runs -/

section Runs

variable {ι : Type} [DecidableEq ι] {scheme : PasswordScheme}

/-- From a store with an enabled administrator, a run in which administrators
are only taken away by requests whose reads are still so always leaves one. -/
theorem administrator_remains {start final : State ι} {labels : List (Label ι)}
    (hfresh : Fresh start) (hadmin : HasAdministrator start.shared.store.rows)
    (hevery : Trace.Every (step scheme) RemovesCurrent start labels)
    (hrun : Trace.run (step scheme) start labels = some final) :
    HasAdministrator final.shared.store.rows := by
  have hkept : ∀ {state next : State ι} {label : Label ι},
      AllKnown state ∧ HasAdministrator state.shared.store.rows → RemovesCurrent state label →
      step scheme state label = some next →
      AllKnown next ∧ HasAdministrator next.shared.store.rows := by
    intro state next label hstate hguard hstep
    refine ⟨hstate.1.step hstep, ?_⟩
    rcases step_cases hstep with
      ⟨who, phase, _, _, rfl⟩ | ⟨who, moment, effect, phase, rfl, hmove, rfl⟩
    · exact hstate.2
    · exact hasAdministrator_of_move hmove (hstate.1 who) hstate.2 hguard
  exact (hevery.run_invariant hkept ⟨hfresh.allKnown, hadmin⟩ hrun).2

end Runs

/-- Nobody counted is nobody there. -/
theorem not_hasAdministrator_of_count {rows : Rows} (h : countEnabledAdministrators rows = .ok 0) :
    ¬ HasAdministrator rows := by
  rintro ⟨username, user, hread, hadmin⟩
  rw [countEnabledAdministrators] at h
  cases hlist : listUsers rows with
  | error error => simp [hlist, Except.map] at h
  | ok users =>
      simp only [hlist, Except.map, Except.ok.injEq, List.countP_eq_zero] at h
      have hname := username_of_userAt hread
      subst hname
      exact h user ((mem_listUsers hlist).mpr hread) hadmin

/-- Two administrators demote each other: both read, both count, both write. -/
def demoteEachOther : List (Label Bool) :=
  [.start false (.patchUser (short "bob") { role := some .operator }) (ascii "a1") 0,
    .start true (.patchUser (short "alice") { role := some .operator }) (ascii "b1") 0,
    .call false {}, .call true {}, .call false {}, .call true {}, .call false {}, .call true {}]

theorem no_administrator_left :
    Fresh (before twoAdministrators) ∧ HasAdministrator twoAdministrators.store.rows ∧
      ∃ final, Trace.run (step plainScheme) (before twoAdministrators) demoteEachOther = some final ∧
        ¬ HasAdministrator final.shared.store.rows := by
  refine ⟨fun _ => rfl, ⟨ascii "alice", account "alice" .administrator, ?_, ?_⟩, ?_⟩
  · decide +kernel
  · decide
  · have hcount :
        (Trace.run (step plainScheme) (before twoAdministrators) demoteEachOther).map
          (fun final => countEnabledAdministrators final.shared.store.rows) = some (.ok 0) := by
      decide +kernel
    obtain ⟨final, hfinal, hzero⟩ := Option.map_eq_some_iff.mp hcount
    exact ⟨final, hfinal, not_hasAdministrator_of_count hzero⟩

/-- One of them demotes the other, who then cannot answer in kind. -/
def demoteInTurn : List (Label Bool) :=
  [.start false (.patchUser (short "bob") { role := some .operator }) (ascii "a1") 0,
    .call false {}, .call false {}, .call false {}, .call false {},
    .start true (.patchUser (short "alice") { role := some .operator }) (ascii "b1") 0]

theorem administrator_remains_inTurn :
    ∃ final, Trace.run (step plainScheme) (before twoAdministrators) demoteInTurn = some final ∧
      HasAdministrator final.shared.store.rows := by
  have hran :
      (Trace.run (step plainScheme) (before twoAdministrators) demoteInTurn).isSome := by
    decide +kernel
  obtain ⟨final, hfinal⟩ := Option.isSome_iff_exists.mp hran
  refine ⟨final, hfinal, administrator_remains (fun _ => rfl)
    ⟨ascii "alice", account "alice" .administrator, ?_, ?_⟩ ?_ hfinal⟩
  · decide +kernel
  · decide
  · decide +kernel

end MonoBucket.Console
