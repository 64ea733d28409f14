/-
Acknowledged revocations

Disabling, demoting, narrowing or deleting an account and revoking a key are
each one write, acknowledged later. Every handler that changes an account or a
key writes back the whole record it read, so a password change that was under
way restores what a PATCH has just taken away.

A run is watched for what has been revoked so far and which requests started
after each revocation was acknowledged. When whoever writes a record back finds
it as read, and whoever lifts a revocation started after it, every acknowledged
revocation stands.
-/

import MonoBucket.Server.ConsoleMoves

namespace MonoBucket.Console

/-! ### What is revoked -/

inductive Revocation
  | disabled (username : Bytes)
  | demoted (username : Bytes) (role : Role)
  | narrowed (username : Bytes) (buckets : BucketGrants)
  | deleted (username : Bytes)
  | keyRevoked (accessKeyId : Bytes)
  deriving DecidableEq

namespace Revocation

/-- The account it is about. -/
def account : Revocation → Option Bytes
  | disabled username | demoted username _ | narrowed username _ | deleted username => some username
  | keyRevoked _ => none

/-- A record of the account that does not go back on it. -/
def Allows (user : UserRecord) : Revocation → Prop
  | disabled _ => user.disabled = true
  | demoted _ role => user.role.within role
  | narrowed _ buckets => user.role ≠ .administrator ∧ user.buckets.within buckets
  | deleted _ => False
  | keyRevoked _ => True

/-- The store reflects it. -/
def InForce (rows : Rows) : Revocation → Prop
  | deleted username => userAt rows username = .ok none
  | keyRevoked accessKeyId => accessKeyAt rows accessKeyId = .ok none
  | disabled username =>
    ∀ user, userAt rows username = .ok (some user) → (disabled username).Allows user
  | demoted username role =>
    ∀ user, userAt rows username = .ok (some user) → (demoted username role).Allows user
  | narrowed username buckets =>
    ∀ user, userAt rows username = .ok (some user) → (narrowed username buckets).Allows user

variable {rows : Rows} {store : MetadataStore} {user : UserRecord} {revocation : Revocation}

/-- What stands about an account holds of the record that is stored. -/
theorem InForce.allows {username : Bytes} (h : revocation.InForce rows)
    (haccount : revocation.account = some username)
    (hread : userAt rows username = .ok (some user)) : revocation.Allows user := by
  cases revocation with
  | keyRevoked accessKeyId => cases haccount
  | deleted other =>
      cases haccount
      rw [InForce, hread] at h
      cases h
  | disabled other =>
      cases haccount
      exact h user hread
  | demoted other role =>
      cases haccount
      exact h user hread
  | narrowed other buckets =>
      cases haccount
      exact h user hread

theorem InForce.putUser (h : revocation.InForce store.rows)
    (hallows : revocation.account = some user.username → revocation.Allows user) :
    revocation.InForce (putUser store user).rows := by
  have hread : ∀ {username : Bytes}, revocation.account = some username →
      ∀ read, userAt (MonoBucket.putUser store user).rows username = .ok (some read) →
        revocation.Allows read := by
    intro username haccount read hread
    by_cases hsame : username = user.username
    · subst hsame
      rw [eq_of_userAt_putUser hread]
      exact hallows haccount
    · rw [userAt_putUser_of_ne hsame] at hread
      exact h.allows haccount hread
  cases revocation with
  | keyRevoked accessKeyId => exact accessKeyAt_putUser.trans h
  | deleted username =>
      have hne : username ≠ user.username := fun hsame => hallows (congrArg some hsame)
      exact (userAt_putUser_of_ne hne).trans h
  | disabled username => exact hread rfl
  | demoted username role => exact hread rfl
  | narrowed username buckets => exact hread rfl

/-- An account that is written so reads back so. -/
theorem inForce_putUser (haccount : revocation.account = some user.username)
    (hallows : revocation.Allows user) : revocation.InForce (MonoBucket.putUser store user).rows := by
  have hread : ∀ read, userAt (MonoBucket.putUser store user).rows user.username = .ok (some read) →
      revocation.Allows read := fun read hread => by
    rwa [eq_of_userAt_putUser hread]
  cases revocation with
  | keyRevoked accessKeyId => cases haccount
  | deleted username => cases hallows
  | disabled username =>
      cases haccount
      exact hread
  | demoted username role =>
      cases haccount
      exact hread
  | narrowed username buckets =>
      cases haccount
      exact hread

theorem InForce.deleteUser (h : revocation.InForce store.rows) (username : Bytes) :
    revocation.InForce (deleteUser store username).1.rows := by
  have hread : ∀ {other : Bytes}, revocation.account = some other →
      ∀ read, userAt (MonoBucket.deleteUser store username).1.rows other = .ok (some read) →
        revocation.Allows read := by
    intro other haccount read hread
    by_cases hsame : other = username
    · subst hsame
      rw [userAt_deleteUser_self] at hread
      cases hread
    · rw [userAt_deleteUser_of_ne hsame] at hread
      exact h.allows haccount hread
  cases revocation with
  | keyRevoked accessKeyId => exact accessKeyAt_deleteUser.trans h
  | deleted other =>
      by_cases hsame : other = username
      · subst hsame
        exact userAt_deleteUser_self
      · exact (userAt_deleteUser_of_ne hsame).trans h
  | disabled username => exact hread rfl
  | demoted username role => exact hread rfl
  | narrowed username buckets => exact hread rfl

/-- Accounts stand as they stood when only keys change. -/
theorem InForce.of_userAt {after : Rows} (h : revocation.InForce rows)
    (husers : ∀ username, userAt after username = userAt rows username)
    (hkeys : ∀ accessKeyId, revocation = .keyRevoked accessKeyId →
      accessKeyAt after accessKeyId = .ok none) : revocation.InForce after := by
  cases revocation with
  | keyRevoked accessKeyId => exact hkeys accessKeyId rfl
  | deleted username => exact (husers username).trans h
  | disabled username => exact fun read hread => h read (by rwa [husers] at hread)
  | demoted username role => exact fun read hread => h read (by rwa [husers] at hread)
  | narrowed username buckets => exact fun read hread => h read (by rwa [husers] at hread)

theorem InForce.putAccessKey {key : AccessKeyRecord} (h : revocation.InForce store.rows)
    (hne : revocation ≠ .keyRevoked key.accessKeyId) :
    revocation.InForce (putAccessKey store key).rows := by
  refine h.of_userAt (fun _ => userAt_putAccessKey) fun accessKeyId hrevoked => ?_
  subst hrevoked
  rw [accessKeyAt_putAccessKey_of_ne fun hsame => hne (congrArg _ hsame)]
  exact h

theorem InForce.deleteAccessKey (h : revocation.InForce store.rows) (accessKeyId : Bytes) :
    revocation.InForce (deleteAccessKey store accessKeyId).1.rows := by
  refine h.of_userAt (fun _ => userAt_deleteAccessKey) fun other hrevoked => ?_
  subst hrevoked
  by_cases hsame : other = accessKeyId
  · subst hsame
    exact accessKeyAt_deleteAccessKey_self
  · exact (accessKeyAt_deleteAccessKey_of_ne hsame).trans h

end Revocation

/-! ### What a PATCH revokes and lifts -/

namespace UserPatch

variable (username : Bytes) (change : UserPatch) (user : UserRecord)

/-- What a PATCH that finds this record revokes. -/
def revokes : List Revocation :=
  let after := change.applied user
  (if change.disabled = some true && !user.disabled then [.disabled username] else []) ++
    (if after.role ≠ user.role && after.role.within user.role then [.demoted username after.role]
      else []) ++
    (if after.buckets ≠ user.buckets && after.buckets.within user.buckets &&
        after.role ≠ .administrator then [.narrowed username after.buckets] else [])

/-- What a PATCH asks for goes back on a revocation. -/
def lifts : Revocation → Bool
  | .disabled other => other = username && change.disabled = some false
  | .demoted other role => other = username && change.role.any fun asked => !asked.within role
  | .narrowed other buckets =>
    other = username && (change.role = some .administrator ||
      change.buckets.any fun asked => !asked.within buckets)
  | _ => false

variable {username change user} {revocation : Revocation}

/-- A change that goes back on nothing keeps what the record read allowed. -/
theorem allows_applied (haccount : revocation.account = some username)
    (hallows : revocation.Allows user) (hlifts : change.lifts username revocation = false) :
    revocation.Allows (change.applied user) := by
  cases revocation with
  | keyRevoked accessKeyId => cases haccount
  | deleted other => exact hallows
  | disabled other =>
      cases haccount
      rw [Revocation.Allows] at hallows ⊢
      rw [disabled_applied]
      cases hasked : change.disabled with
      | none => exact hallows
      | some disabled => simpa [lifts, hasked] using hlifts
  | demoted other role =>
      cases haccount
      rw [Revocation.Allows] at hallows ⊢
      rw [role_applied]
      cases hasked : change.role with
      | none => exact hallows
      | some asked => simpa [lifts, hasked] using hlifts
  | narrowed other buckets =>
      cases haccount
      rw [Revocation.Allows] at hallows ⊢
      simp only [lifts, decide_true, Bool.true_and, Bool.or_eq_false_iff,
        decide_eq_false_iff_not] at hlifts
      have hrole : (change.applied user).role ≠ .administrator := by
        rw [role_applied]
        cases hasked : change.role with
        | none => exact hallows.1
        | some asked => exact fun h => hlifts.1 (by rw [hasked]; exact congrArg some h)
      refine ⟨hrole, ?_⟩
      have hbuckets : (change.applied user).buckets = change.buckets.getD user.buckets := by
        rw [role_applied] at hrole
        rw [applied, clears, merged]
        simp [hrole]
      rw [hbuckets]
      cases hasked : change.buckets with
      | none => exact hallows.2
      | some asked => simpa [hasked] using hlifts.2

/-- What a PATCH revokes is so of the record it writes. -/
theorem allows_of_revokes (h : revocation ∈ change.revokes username user) :
    revocation.account = some username ∧ revocation.Allows (change.applied user) := by
  simp only [revokes, List.mem_append] at h
  rcases h with (h | h) | h
  all_goals split_ifs at h with hasked
  · obtain rfl := List.mem_singleton.mp h
    rw [Bool.and_eq_true] at hasked
    refine ⟨rfl, ?_⟩
    rw [Revocation.Allows, disabled_applied, of_decide_eq_true hasked.1]
    rfl
  · cases h
  · obtain rfl := List.mem_singleton.mp h
    exact ⟨rfl, Role.within_refl _⟩
  · cases h
  · obtain rfl := List.mem_singleton.mp h
    rw [Bool.and_eq_true] at hasked
    exact ⟨rfl, of_decide_eq_true hasked.2, BucketGrants.within_refl _⟩
  · cases h

end UserPatch

/-! ### Runs watched for revocations -/

namespace Phase

/-- The account whose record a call writes back, and the record as read. -/
def rewrites : Phase → Option (Bytes × Option UserRecord)
  | .creating username _ _ _ => some (username.items, none)
  | .patchWriting username _ user _ => some (username.items, some user)
  | .passwordWriting target _ _ user => some (target.items, some user)
  | _ => none

/-- The key a call writes back, as read. -/
def rekeys : Phase → Option AccessKeyRecord
  | .rotating key => some key
  | _ => none

/-- What a call takes away. -/
def revokes (phase : Phase) : Effect → List Revocation
  | .putUser _ =>
    match phase with
    | .patchWriting username change user _ => change.revokes username.items user
    | _ => []
  | .deleteUser username => [.deleted username]
  | .deleteAccessKey accessKeyId => [.keyRevoked accessKeyId]
  | _ => []

/-- What a call is asked to go back on: a PATCH that says so, a POST of the
account, a key issued under the id. -/
def lifts (phase : Phase) (revocation : Revocation) : Effect → Bool
  | .putUser _ =>
    match phase with
    | .patchWriting username change _ _ => change.lifts username.items revocation
    | .creating username _ _ _ => revocation.account = some username.items
    | _ => false
  | .putAccessKey key =>
    match phase with
    | .issuing _ _ => revocation = .keyRevoked key.accessKeyId
    | _ => false
  | _ => false

/-- What a call writes back over a revocation is still what its request read. -/
def Current (rows : Rows) (phase : Phase) (revocation : Revocation) : Prop :=
  (∀ rewrite ∈ phase.rewrites, revocation.account = some rewrite.1 →
      userAt rows rewrite.1 = .ok rewrite.2) ∧
    ∀ key ∈ phase.rekeys, revocation = .keyRevoked key.accessKeyId →
      accessKeyAt rows key.accessKeyId = .ok (some key)

instance (rows : Rows) (phase : Phase) (revocation : Revocation) :
    Decidable (phase.Current rows revocation) :=
  inferInstanceAs (Decidable ((∀ rewrite ∈ phase.rewrites, _ → _) ∧ ∀ key ∈ phase.rekeys, _ → _))

/-- The request was carried out and the caller has been told so. -/
def returned : Phase → Bool
  | .done (.refused _ _) => false
  | .done _ => true
  | _ => false

end Phase

/-- A revocation on the record. -/
structure Standing (ι : Type) where
  revoker : ι
  revocation : Revocation
  /-- The requests that started once it was acknowledged. -/
  later : List ι

/-- The console, with what has been revoked and not been lifted since. -/
structure Watched (ι : Type) where
  state : State ι
  standing : List (Standing ι) := []

section Watching

variable {ι : Type} [DecidableEq ι] (scheme : PasswordScheme)

/-- What stands after a step. Arriving, a request is noted at the revocations
acknowledged by then; calling, it lifts those it was noted at and is asked to go
back on, and adds its own. -/
def stands (watched : Watched ι) : Label ι → List (Standing ι)
  | .start who _ _ _ =>
    watched.standing.map fun standing =>
      if (watched.state.calls standing.revoker).returned then
        { standing with later := who :: standing.later }
      else standing
  | .call who moment =>
    let phase := watched.state.calls who
    match act scheme watched.state.shared moment phase with
    | none => watched.standing
    | some (effect, _) =>
      (watched.standing.filter fun standing =>
        !(phase.lifts standing.revocation effect && decide (who ∈ standing.later))) ++
      (phase.revokes effect).map fun revocation => ⟨who, revocation, []⟩

def watch (watched : Watched ι) (label : Label ι) : Option (Watched ι) :=
  (step scheme watched.state label).map fun next => ⟨next, stands scheme watched label⟩

/-- Watching a run changes nothing in it. -/
theorem run_watch (watched : Watched ι) (labels : List (Label ι)) :
    (Trace.run (watch scheme) watched labels).map Watched.state =
      Trace.run (step scheme) watched.state labels := by
  refine Trace.run_map (fun watched label => ?_) watched labels
  rw [watch, Option.map_map]
  exact Option.map_id'

/-- A call writes back what its request read, and goes back only on what was
revoked before its request started. -/
def RevokesRespected (watched : Watched ι) : Label ι → Prop
  | .start .. => True
  | .call who moment =>
    ∀ call ∈ act scheme watched.state.shared moment (watched.state.calls who),
      ∀ standing ∈ watched.standing,
        (watched.state.calls who).Current watched.state.shared.store.rows standing.revocation ∧
          ((watched.state.calls who).lifts standing.revocation call.1 → who ∈ standing.later)

instance (watched : Watched ι) (label : Label ι) :
    Decidable (RevokesRespected scheme watched label) :=
  match label with
  | .start .. => isTrue trivial
  | .call who moment =>
    inferInstanceAs (Decidable (∀ call ∈
      act scheme watched.state.shared moment (watched.state.calls who),
        ∀ standing ∈ watched.standing, _ ∧ (_ → _)))

end Watching

/-! ### One call -/

section Calls

variable {console : Shared} {phase next : Phase} {effect : Effect} {revocation : Revocation}

/-- A call that is not asked to go back on a revocation leaves it in force. -/
theorem inForce_of_move (hmove : Move console phase effect next) (hknown : phase.Known)
    (hforce : revocation.InForce console.store.rows)
    (hcurrent : phase.Current console.store.rows revocation)
    (hlifts : phase.lifts revocation effect = false) :
    revocation.InForce (effect.apply console).store.rows := by
  cases hmove with
  | create hname _ _ _ =>
      refine hforce.putUser fun haccount => ?_
      rw [hname] at haccount
      simp [Phase.lifts, haccount] at hlifts
  | @patch username change user counted updatedAt =>
      refine hforce.putUser fun haccount => ?_
      have hname : revocation.account = some username.items := by
        rw [haccount, ← hknown.1.name]
        exact congrArg some (change.username_applied user)
      have hallows := hforce.allows hname (hcurrent.1 _ rfl hname)
      have happlied := UserPatch.allows_applied hname hallows hlifts
      cases revocation <;> exact happlied
  | @changePassword target self newPassword user hash now =>
      refine hforce.putUser fun haccount => ?_
      have hname : revocation.account = some target.items := by
        rw [haccount, ← hknown.1.name]
      have hallows := hforce.allows hname (hcurrent.1 _ rfl hname)
      cases revocation <;> exact hallows
  | deleteUser => exact hforce.deleteUser _
  | issue => exact hforce.putAccessKey fun h => by simp [Phase.lifts, h] at hlifts
  | @rotate key rotated hid howner =>
      refine hforce.putAccessKey fun hrevoked => ?_
      subst hrevoked
      have hread := hcurrent.2 key rfl (congrArg _ hid)
      rw [Revocation.InForce, hid, hread] at hforce
      cases hforce
  | revoke => exact hforce.deleteAccessKey _
  | deleteKey => exact hforce.deleteAccessKey _
  | _ => exact hforce

/-- What a call takes away is gone. -/
theorem inForce_of_revokes (hmove : Move console phase effect next) (hknown : phase.Known)
    (h : revocation ∈ phase.revokes effect) :
    revocation.InForce (effect.apply console).store.rows := by
  cases hmove with
  | @patch username change user counted updatedAt =>
      obtain ⟨haccount, hallows⟩ := UserPatch.allows_of_revokes h
      have hname : username.items = (change.applied user).username := by
        rw [change.username_applied, hknown.1.name]
      rw [hname] at haccount
      refine Revocation.inForce_putUser haccount ?_
      cases revocation <;> exact hallows
  | deleteUser =>
      obtain rfl := List.mem_singleton.mp h
      exact userAt_deleteUser_self
  | revoke =>
      obtain rfl := List.mem_singleton.mp h
      exact accessKeyAt_deleteAccessKey_self
  | deleteKey =>
      obtain rfl := List.mem_singleton.mp h
      exact accessKeyAt_deleteAccessKey_self
  | _ => cases h

end Calls

/-! ### Runs -/

section Runs

variable {ι : Type} [DecidableEq ι] {scheme : PasswordScheme} {watched next : Watched ι}
  {label : Label ι}

/-- Everything that stands is in force. -/
def AllInForce (watched : Watched ι) : Prop :=
  ∀ standing ∈ watched.standing, standing.revocation.InForce watched.state.shared.store.rows

theorem AllInForce.step (hknown : AllKnown watched.state) (h : AllInForce watched)
    (hguard : RevokesRespected scheme watched label)
    (hstep : watch scheme watched label = some next) : AllInForce next := by
  obtain ⟨after, hafter, rfl⟩ := Option.map_eq_some_iff.mp hstep
  cases label with
  | start who request cookie atSeconds =>
      -- the store is as it was, and so is what stands
      have hrows : after.shared = watched.state.shared := by
        rw [Console.step] at hafter
        split at hafter
        · rw [← Option.some.inj hafter]
          rfl
        · cases hafter
      intro standing hstanding
      obtain ⟨noted, hnoted, rfl⟩ := List.mem_map.mp hstanding
      dsimp only
      rw [hrows]
      split_ifs
      · exact h noted hnoted
      · exact h noted hnoted
  | call who moment =>
      obtain ⟨⟨effect, phase⟩, hact, rfl⟩ := Option.map_eq_some_iff.mp hafter
      have hmove := move_of_act hact
      intro standing hstanding
      simp only [stands, hact, List.mem_append, List.mem_filter, List.mem_map] at hstanding
      rcases hstanding with ⟨hold, hkept⟩ | ⟨revocation, hrevokes, rfl⟩
      · obtain ⟨hcurrent, hlater⟩ := hguard _ hact standing hold
        have hlifts : (watched.state.calls who).lifts standing.revocation effect = false := by
          by_contra hlifts
          rw [Bool.not_eq_false] at hlifts
          simp [hlifts, hlater hlifts] at hkept
        exact inForce_of_move hmove (hknown who) (h standing hold) hcurrent hlifts
      · exact inForce_of_revokes hmove (hknown who) hrevokes

end Runs

/-- alice resets bob's password and disables him; the reset read his record
first and writes it last. -/
def resetAcrossDisable : List (Label Bool) :=
  [.start true (.changePassword (short "bob") [] (ascii "correct horse battery")) (ascii "a1") 0,
    .call true {},
    .start false (.patchUser (short "bob") { disabled := some true }) (ascii "a1") 0,
    .call false {}, .call false {}, .call false {}, .call false {},
    .call true {}]

/-- bob is disabled, and only then his password is reset. -/
def resetAfterDisable : List (Label Bool) :=
  [.start false (.patchUser (short "bob") { disabled := some true }) (ascii "a1") 0,
    .call false {}, .call false {}, .call false {}, .call false {},
    .start true (.changePassword (short "bob") [] (ascii "correct horse battery")) (ascii "a1") 0,
    .call true {}, .call true {}, .call true {}]

end MonoBucket.Console
