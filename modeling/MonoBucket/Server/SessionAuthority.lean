/-
What a session may do

A session carries the role and grants its account had when it was opened, and
whoever changes the account ends its sessions afterwards. A login reads the
account first and opens its session last, so one that was in the verifier
meanwhile opens a session for authority that is gone, and nobody ends it.

When every session is opened from the record that is still stored, each one is
covered by it, but for the moment between a change and the end of the changed
account's sessions.
-/

import MonoBucket.Server.Revocation

namespace MonoBucket.Console

/-- The account is there, enabled, and may do all the principal may. -/
def Covered (rows : Rows) (principal : Principal) : Prop :=
  ∃ user, userAt rows principal.username.items = .ok (some user) ∧ user.disabled = false ∧
    principal.role.within user.role ∧ principal.buckets.within user.buckets

instance (rows : Rows) (principal : Principal) : Decidable (Covered rows principal) :=
  have : Decidable (∃ user ∈ storedUser rows principal.username.items, user.disabled = false ∧
      principal.role.within user.role ∧ principal.buckets.within user.buckets) := inferInstance
  decidable_of_iff _ (exists_congr fun _ => and_congr_left fun _ => mem_storedUser)

/-! ### Runs watched for reductions -/

/-- The console, with the requests that have reduced an account they have not
answered for yet, and the accounts reduced by requests that have returned, until
the account signs in under the record in force. -/
structure Reductions (ι : Type) where
  state : State ι
  reducing : List ι := []
  reduced : List Bytes := []

section Watching

variable {ι : Type} [DecidableEq ι] (scheme : PasswordScheme)

/-- The call takes some authority away from an account. -/
def Phase.reduces (phase : Phase) (effect : Effect) : Bool :=
  (phase.revokes effect).any fun revocation => revocation.account.isSome

/-- The record a session is about to be opened from. -/
def Phase.opens : Phase → Option (Text × UserRecord)
  | .opening username user _ => some (username, user)
  | _ => none

def Phase.freshlyOpens (rows : Rows) (phase : Phase) (username : Bytes) : Bool :=
  phase.opens.any fun opened =>
    opened.1.items = username && userAt rows username = .ok (some opened.2)

/-- What is known of reductions after a call. A request that takes authority
away answers for it when it ends the account's sessions; an account that signs
in under the record in force has nothing left to answer for. -/
def notes (watched : Reductions ι) (label : Label ι) : List ι × List Bytes :=
  match label with
  | .start .. => (watched.reducing, watched.reduced)
  | .call who moment =>
    let phase := watched.state.calls who
    match act scheme watched.state.shared moment phase with
    | none => (watched.reducing, watched.reduced)
    | some (effect, _) =>
      (if phase.reduces effect then who :: watched.reducing else watched.reducing,
        (if who ∈ watched.reducing then phase.closing.toList else []) ++
          watched.reduced.filter fun username =>
            !phase.freshlyOpens watched.state.shared.store.rows username)

def watchReductions (watched : Reductions ι) (label : Label ι) : Option (Reductions ι) :=
  (step scheme watched.state label).map fun next =>
    ⟨next, (notes scheme watched label).1, (notes scheme watched label).2⟩

theorem run_watchReductions (watched : Reductions ι) (labels : List (Label ι)) :
    (Trace.run (watchReductions scheme) watched labels).map Reductions.state =
      Trace.run (step scheme) watched.state labels := by
  refine Trace.run_map (fun watched label => ?_) watched labels
  rw [watchReductions, Option.map_map]
  exact Option.map_id'

/-- A session is opened from the record that is still stored, of an enabled
account, and an account is created where there is none. -/
def OpensCurrent (state : State ι) : Label ι → Prop
  | .start .. => True
  | .call who _ =>
    (∀ opened ∈ (state.calls who).opens,
      userAt state.shared.store.rows opened.1.items = .ok (some opened.2) ∧
        opened.2.disabled = false) ∧
      ∀ rewrite ∈ (state.calls who).rewrites, rewrite.2 = none →
        userAt state.shared.store.rows rewrite.1 = .ok none

instance (state : State ι) (label : Label ι) : Decidable (OpensCurrent state label) :=
  match label with
  | .start .. => isTrue trivial
  | .call who _ =>
    inferInstanceAs (Decidable ((∀ opened ∈ (state.calls who).opens, _) ∧
      ∀ rewrite ∈ (state.calls who).rewrites, _ → _))

end Watching

/-! ### One call -/

section Calls

variable {console : Shared} {phase next : Phase} {effect : Effect} {principal : Principal}

/-- Where the accounts read as before, what was covered is. -/
theorem Covered.congr {before after : Rows} (h : Covered before principal)
    (hread : userAt after principal.username.items = userAt before principal.username.items) :
    Covered after principal := by
  obtain ⟨user, huser, hcovers⟩ := h
  exact ⟨user, hread.trans huser, hcovers⟩

/-- What was covered stays so, or its account's sessions are about to be ended. -/
theorem covered_of_move (hmove : Move console phase effect next) (hknown : phase.Known)
    (hcreate : ∀ rewrite ∈ phase.rewrites, rewrite.2 = none →
      userAt console.store.rows rewrite.1 = .ok none)
    (hcovered : Covered console.store.rows principal) :
    Covered (effect.apply console).store.rows principal ∨
      next.closing = some principal.username.items := by
  have hput : ∀ {user : UserRecord} {username : Text}, user.username = username.items →
      Covered (MonoBucket.putUser console.store user).rows principal ∨
        some username.items = some principal.username.items := by
    intro user username hname
    by_cases hsame : principal.username.items = user.username
    · exact Or.inr (by rw [hsame, hname])
    · exact Or.inl (hcovered.congr (userAt_putUser_of_ne hsame))
  cases hmove with
  | @create username password role buckets user hname _ _ _ =>
      rcases hput hname with hkept | hsame
      · exact Or.inl hkept
      · -- nobody has a session of an account that is not there
        have hnone := hcreate _ rfl rfl
        obtain ⟨stored, hstored, -⟩ := hcovered
        rw [← Option.some.inj hsame, hnone] at hstored
        cases hstored
  | @patch username change user counted updatedAt =>
      exact hput ((change.username_applied user).trans hknown.1.name)
  | changePassword => exact hput hknown.1.name
  | @deleteUser username user counted revoked =>
      by_cases hsame : principal.username.items = username.items
      · exact Or.inr (congrArg some hsame.symm)
      · exact Or.inl (hcovered.congr (userAt_deleteUser_of_ne hsame))
  | issue => exact Or.inl (hcovered.congr userAt_putAccessKey)
  | rotate _ _ => exact Or.inl (hcovered.congr userAt_putAccessKey)
  | revoke => exact Or.inl (hcovered.congr userAt_deleteAccessKey)
  | deleteKey => exact Or.inl (hcovered.congr userAt_deleteAccessKey)
  | _ => exact Or.inl hcovered

/-- A session there is was there before, or was opened from the record read. -/
theorem carries_of_move (hmove : Move console phase effect next)
    (hcarries : (effect.apply console).sessions.Carries principal) :
    console.sessions.Carries principal ∨
      ∃ user, phase.opens = some (principal.username, user) ∧ principal.role = user.role ∧
        principal.buckets = user.buckets := by
  cases hmove with
  | signIn =>
      rcases SessionStore.carries_openAt hcarries with rfl | hold
      · exact Or.inr ⟨_, rfl, rfl, rfl⟩
      · exact Or.inl hold
  | signOut => exact Or.inl (SessionStore.carries_of_close hcarries)
  | closePatch => exact Or.inl (SessionStore.carries_of_closeUser hcarries)
  | closeDelete => exact Or.inl (SessionStore.carries_of_closeUser hcarries)
  | closePassword => exact Or.inl (SessionStore.carries_of_closeUser hcarries)
  | closeOwn => exact Or.inl (SessionStore.carries_of_closeUser hcarries)
  | _ => exact Or.inl hcarries

/-- The call after a change leaves the changed account without a session. -/
theorem not_carries_of_closing (hmove : Move console phase effect next) (hknown : phase.Known)
    (hclosing : phase.closing = some principal.username.items) :
    ¬ (effect.apply console).sessions.Carries principal := by
  intro hcarries
  cases hmove with
  | stop hreads =>
      rw [hreads] at hclosing
      cases hclosing
  | closePatch =>
      have hname := SessionStore.username_ne_of_closeUser hknown.nonempty hcarries
      exact hname (Option.some.inj hclosing).symm
  | closeDelete =>
      have hname := SessionStore.username_ne_of_closeUser hknown hcarries
      exact hname (Option.some.inj hclosing).symm
  | closePassword =>
      have hname := SessionStore.username_ne_of_closeUser hknown.nonempty hcarries
      exact hname (Option.some.inj hclosing).symm
  | closeOwn =>
      have hname := SessionStore.username_ne_of_closeUser hknown.nonempty hcarries
      exact hname (Option.some.inj hclosing).symm
  | _ => cases hclosing

end Calls

/-! ### Runs -/

section Runs

variable {ι : Type} [DecidableEq ι] {scheme : PasswordScheme} {watched next : Reductions ι}
  {label : Label ι}

/-- A change of the account is between its write and the end of its sessions. -/
def Changing (state : State ι) (username : Bytes) : Prop :=
  ∃ who, (state.calls who).closing = some username

/-- Sessions are covered unless they are about to be ended, and of an account
that was reduced and has not signed in since there are none. -/
structure Authorised (watched : Reductions ι) : Prop where
  known : AllKnown watched.state
  covered : ∀ principal, watched.state.shared.sessions.Carries principal →
    Covered watched.state.shared.store.rows principal ∨
      Changing watched.state principal.username.items
  ended : ∀ username ∈ watched.reduced, ∀ principal,
    watched.state.shared.sessions.Carries principal → principal.username.items ≠ username

theorem Authorised.step (h : Authorised watched) (hguard : OpensCurrent watched.state label)
    (hstep : watchReductions scheme watched label = some next) : Authorised next := by
  obtain ⟨after, hafter, rfl⟩ := Option.map_eq_some_iff.mp hstep
  have hknown := h.known.step hafter
  cases label with
  | start who request cookie atSeconds =>
      rcases step_cases hafter with ⟨_, phase, hidle, _, rfl⟩ | ⟨_, _, _, _, hlabel, _⟩
      · refine ⟨hknown, fun principal hcarries => ?_, h.ended⟩
        refine (h.covered principal hcarries).imp_right fun ⟨other, hother⟩ => ⟨other, ?_⟩
        rw [Pool.move_calls_of_ne]
        · exact hother
        · rintro rfl
          rw [hidle] at hother
          cases hother
      · cases hlabel
  | call who moment =>
      obtain ⟨⟨effect, phase⟩, hact, rfl⟩ := Option.map_eq_some_iff.mp hafter
      have hmove := move_of_act hact
      obtain ⟨hopens, hcreate⟩ := hguard
      refine ⟨hknown, fun principal hcarries => ?_, fun username hreduced principal hcarries => ?_⟩
      · have hkept : Covered watched.state.shared.store.rows principal →
            Covered (effect.apply watched.state.shared).store.rows principal ∨
              Changing (watched.state.move who (effect.apply watched.state.shared) phase)
                principal.username.items := fun hcovered =>
          (covered_of_move hmove (h.known who) hcreate hcovered).imp_right fun hclosing =>
            ⟨who, by rw [Pool.move_calls_self]; exact hclosing⟩
        rcases carries_of_move hmove hcarries with hold | ⟨user, hphase, hrole, hbuckets⟩
        · rcases h.covered principal hold with hcovered | ⟨other, hother⟩
          · exact hkept hcovered
          · refine Or.inr ⟨other, ?_⟩
            rw [Pool.move_calls_of_ne]
            · exact hother
            · rintro rfl
              exact not_carries_of_closing hmove (h.known other) hother hcarries
        · obtain ⟨hread, henabled⟩ := hopens _ hphase
          refine hkept ⟨user, hread, henabled, ?_, ?_⟩
          · rw [hrole]
            exact Role.within_refl _
          · rw [hbuckets]
            exact BucketGrants.within_refl _
      · simp only [notes, hact, List.mem_append, List.mem_filter] at hreduced
        rcases hreduced with hended | ⟨hold, hstale⟩
        · rintro rfl
          split_ifs at hended
          · exact not_carries_of_closing hmove (h.known who) (Option.mem_toList.mp hended) hcarries
          · cases hended
        · rcases carries_of_move hmove hcarries with hbefore | ⟨user, hphase, _, _⟩
          · exact h.ended username hold principal hbefore
          · rintro rfl
            have hread := (hopens _ hphase).1
            simp [Phase.freshlyOpens, hphase, hread] at hstale

/-- In a run whose sessions are opened from the record still stored, a session
that resolves is covered by its account's record, if the account was reduced and
has not signed in since, or no change of it is between its write and the end of
its sessions. -/
theorem sessions_covered {start final : Reductions ι} {labels : List (Label ι)}
    (hfresh : Fresh start.state) (hnone : start.reduced = [])
    (hstart : ∀ principal, start.state.shared.sessions.Carries principal →
      Covered start.state.shared.store.rows principal)
    (hevery : Trace.Every (watchReductions scheme) (fun watched => OpensCurrent watched.state) start
      labels)
    (hrun : Trace.run (watchReductions scheme) start labels = some final) {token : Bytes}
    {atSeconds : Int64} {principal : Principal}
    (hresolve : final.state.shared.sessions.resolveAt token atSeconds = some principal)
    (hsettled : principal.username.items ∈ final.reduced ∨
      ¬ Changing final.state principal.username.items) :
    Covered final.state.shared.store.rows principal := by
  have hauthorised : Authorised start :=
    ⟨hfresh.allKnown, fun principal hcarries => Or.inl (hstart principal hcarries),
      fun username hreduced => by rw [hnone] at hreduced; cases hreduced⟩
  have hkept : ∀ {watched next : Reductions ι} {label : Label ι}, Authorised watched →
      OpensCurrent watched.state label → watchReductions scheme watched label = some next →
      Authorised next := fun h hguard hstep => h.step hguard hstep
  have hfinal := hevery.run_invariant hkept hauthorised hrun
  have hcarries := SessionStore.carries_of_resolveAt hresolve
  rcases hsettled with hreduced | hstill
  · exact absurd rfl (hfinal.ended _ hreduced principal hcarries)
  · exact (hfinal.covered principal hcarries).resolve_right hstill

end Runs

/-- bob is in the verifier while alice demotes him. -/
def demotedInVerifier : List (Label Bool) :=
  [.start true (.login (short "bob") (ascii "correct horse battery")) [] 0,
    .call true {},
    .start false (.patchUser (short "bob") { role := some .readOnly }) (ascii "a1") 0,
    .call false {}, .call false {}, .call false {}, .call false {},
    .call true { token := ascii "b2" }]

theorem session_outlives_demotion :
    ∃ final, Trace.run (watchReductions plainScheme) { state := before twoAdministrators }
        demotedInVerifier = some final ∧
      ∃ principal, final.state.shared.sessions.resolveAt (ascii "b2") 0 = some principal ∧
        principal.username.items ∈ final.reduced ∧
        ¬ Covered final.state.shared.store.rows principal := by
  let bob : Principal := ⟨short "bob", .administrator, {}⟩
  have hran :
      (Trace.run (watchReductions plainScheme) { state := before twoAdministrators }
        demotedInVerifier).map (fun final =>
          (final.state.shared.sessions.resolveAt (ascii "b2") 0,
            decide (bob.username.items ∈ final.reduced),
            decide (Covered final.state.shared.store.rows bob))) =
      some (some bob, true, false) := by
    decide +kernel
  obtain ⟨final, hfinal, htriple⟩ := Option.map_eq_some_iff.mp hran
  obtain ⟨hresolve, hrest⟩ := Prod.mk.inj htriple
  obtain ⟨hreduced, hcovered⟩ := Prod.mk.inj hrest
  exact ⟨final, hfinal, bob, hresolve, of_decide_eq_true hreduced, of_decide_eq_false hcovered⟩

/-- bob signs in once alice has demoted him. -/
def signInAfterDemotion : List (Label Bool) :=
  [.start false (.patchUser (short "bob") { role := some .readOnly }) (ascii "a1") 0,
    .call false {}, .call false {}, .call false {}, .call false {},
    .start true (.login (short "bob") (ascii "correct horse battery")) [] 0,
    .call true {}, .call true { token := ascii "b2" }]

theorem sessions_covered_afterDemotion :
    ∃ final, Trace.run (watchReductions plainScheme) { state := before twoAdministrators }
        signInAfterDemotion = some final ∧
      Covered final.state.shared.store.rows ⟨short "bob", .readOnly, {}⟩ := by
  have hran :
      (Trace.run (watchReductions plainScheme) { state := before twoAdministrators }
        signInAfterDemotion).map (fun final =>
          (final.state.shared.sessions.resolveAt (ascii "b2") 0,
            (final.state.calls false).closing, (final.state.calls true).closing)) =
      some (some ⟨short "bob", .readOnly, {}⟩, none, none) := by
    decide +kernel
  obtain ⟨final, hfinal, htriple⟩ := Option.map_eq_some_iff.mp hran
  obtain ⟨hresolve, hrest⟩ := Prod.mk.inj htriple
  obtain ⟨hfirst, hsecond⟩ := Prod.mk.inj hrest
  refine ⟨final, hfinal, sessions_covered (fun _ => rfl) rfl (fun principal hcarries => ?_) ?_ hfinal
    hresolve (Or.inr ?_)⟩
  · obtain ⟨entry, hentry, rfl⟩ := hcarries
    have hall : ∀ entry ∈ twoAdministrators.sessions.sessions.entries,
        Covered twoAdministrators.store.rows entry.2.principal := by
      decide +kernel
    exact hall entry hentry
  · decide +kernel
  · rintro ⟨who, hwho⟩
    cases who with
    | false =>
        rw [hfirst] at hwho
        cases hwho
    | true =>
        rw [hsecond] at hwho
        cases hwho

end MonoBucket.Console
