/-
Keys go with the person

An access key names its owner, and a signed request acts as whoever has that
name. Deleting an account lists its keys, deletes them one by one and then
deletes the account; issuing a key writes it under the issuer's name without
looking at the accounts. A key issued or rotated meanwhile outlives its owner.

A run is watched for how often each name has begun or ended, and for when each
key was issued. When a key is issued only to an account that is there and not
being deleted, when a rotation finds the key it read and a creation finds the
name free, every key belongs to an account that has been there since.
-/

import MonoBucket.Server.Revocation

namespace MonoBucket.Console

/-- There is a row for the account. -/
def UserExists (rows : Rows) (username : Bytes) : Prop := rows.find? (Keys.user username) ≠ none

instance (rows : Rows) (username : Bytes) : Decidable (UserExists rows username) :=
  inferInstanceAs (Decidable (_ ≠ _))

section Rows

variable {store : MetadataStore} {user : UserRecord} {username other accessKeyId : Bytes}
  {key : AccessKeyRecord}

theorem UserExists.putUser (h : UserExists store.rows other) :
    UserExists (putUser store user).rows other := by
  rw [UserExists, MonoBucket.putUser, find?_putRow]
  split_ifs
  · simp
  · exact h

theorem UserExists.deleteUser (h : UserExists store.rows other) (hne : other ≠ username) :
    UserExists (deleteUser store username).1.rows other := by
  rwa [UserExists, find?_deleteUser, if_neg fun hsame => hne (Keys.user_inj.mp hsame)]

theorem UserExists.putAccessKey (h : UserExists store.rows other) :
    UserExists (putAccessKey store key).rows other := by
  rwa [UserExists, MonoBucket.putAccessKey, find?_putRow, if_neg (Keys.user_ne_accessKey _ _)]

theorem UserExists.deleteAccessKey (h : UserExists store.rows other) :
    UserExists (deleteAccessKey store accessKeyId).1.rows other := by
  rwa [UserExists, find?_deleteAccessKey, if_neg (Keys.user_ne_accessKey _ _)]

/-- A key that can be read after a deletion is another one, unchanged. -/
theorem accessKeyAt_of_deleteAccessKey
    (h : accessKeyAt (deleteAccessKey store accessKeyId).1.rows other = .ok (some key)) :
    other ≠ accessKeyId ∧ accessKeyAt store.rows other = .ok (some key) := by
  by_cases hsame : other = accessKeyId
  · subst hsame
    rw [accessKeyAt_deleteAccessKey_self] at h
    cases h
  · exact ⟨hsame, by rwa [accessKeyAt_deleteAccessKey_of_ne hsame] at h⟩

/-- A key that can be read after a write is the one written or unchanged. -/
theorem accessKeyAt_of_putAccessKey {read : AccessKeyRecord}
    (h : accessKeyAt (putAccessKey store key).rows other = .ok (some read)) :
    (other = key.accessKeyId ∧ read = key) ∨
      (other ≠ key.accessKeyId ∧ accessKeyAt store.rows other = .ok (some read)) := by
  by_cases hsame : other = key.accessKeyId
  · subst hsame
    rw [accessKeyAt_putAccessKey_self] at h
    exact Or.inl ⟨rfl, (Option.some.inj (Except.ok.inj h)).symm⟩
  · exact Or.inr ⟨hsame, by rwa [accessKeyAt_putAccessKey_of_ne hsame] at h⟩

end Rows

/-! ### Runs watched for tenures -/

/-- The console, with how many times each name has begun or ended, and what that
number was for its owner when each key was issued. -/
structure Tenures (ι : Type) where
  state : State ι
  tenure : Bytes → Nat := fun _ => 0
  issuedIn : Bytes → Nat := fun _ => 0

/-- An account begins when it is created, or written where there was none, and
ends when it is deleted. -/
def tenureAfter (rows : Rows) (tenure : Bytes → Nat) (phase : Phase) : Effect → Bytes → Nat
  | .putUser user =>
    let turn := Function.update tenure user.username (tenure user.username + 1)
    match phase with
    | .creating .. => turn
    | _ => if UserExists rows user.username then tenure else turn
  | .deleteUser username => Function.update tenure username (tenure username + 1)
  | _ => tenure

def issuedAfter (tenure issuedIn : Bytes → Nat) (phase : Phase) : Effect → Bytes → Nat
  | .putAccessKey key =>
    match phase with
    | .issuing .. => Function.update issuedIn key.accessKeyId (tenure key.owner.items)
    | _ => issuedIn
  | _ => issuedIn

section Watching

variable {ι : Type} [DecidableEq ι] (scheme : PasswordScheme)

/-- The tenures and issues after a step. -/
def records (watched : Tenures ι) : Label ι → (Bytes → Nat) × (Bytes → Nat)
  | .start .. => (watched.tenure, watched.issuedIn)
  | .call who moment =>
    let phase := watched.state.calls who
    match act scheme watched.state.shared moment phase with
    | none => (watched.tenure, watched.issuedIn)
    | some (effect, _) =>
      (tenureAfter watched.state.shared.store.rows watched.tenure phase effect,
        issuedAfter watched.tenure watched.issuedIn phase effect)

def watchTenures (watched : Tenures ι) (label : Label ι) : Option (Tenures ι) :=
  (step scheme watched.state label).map fun next =>
    ⟨next, (records scheme watched label).1, (records scheme watched label).2⟩

theorem run_watchTenures (watched : Tenures ι) (labels : List (Label ι)) :
    (Trace.run (watchTenures scheme) watched labels).map Tenures.state =
      Trace.run (step scheme) watched.state labels := by
  refine Trace.run_map (fun watched label => ?_) watched labels
  rw [watchTenures, Option.map_map]
  exact Option.map_id'

end Watching

/-- The account a DELETE has listed the keys of and not deleted yet. -/
def Phase.deletes : Phase → Option Text
  | .deleteKeys username _ _ _ _ => some username
  | _ => none

/-- The account a key is about to be issued to. -/
def Phase.issues : Phase → Option Text
  | .issuing owner _ => some owner
  | _ => none

/-- A key is issued to an account that is there and not being deleted, rotated
from the record still stored, and an account created where there is none. -/
def KeysCurrent {ι : Type} (state : State ι) : Label ι → Prop
  | .start .. => True
  | .call who _ =>
    (∀ owner ∈ (state.calls who).issues, owner ≠ .empty →
        UserExists state.shared.store.rows owner.items ∧
          ∀ other, (state.calls other).deletes ≠ some owner) ∧
      (∀ key ∈ (state.calls who).rekeys,
        accessKeyAt state.shared.store.rows key.accessKeyId = .ok (some key)) ∧
      ∀ rewrite ∈ (state.calls who).rewrites, rewrite.2 = none →
        ¬ UserExists state.shared.store.rows rewrite.1

instance {ι : Type} [Fintype ι] (state : State ι) (label : Label ι) :
    Decidable (KeysCurrent state label) :=
  match label with
  | .start .. => isTrue trivial
  | .call who _ =>
    inferInstanceAs (Decidable ((∀ owner ∈ (state.calls who).issues, _ → _ ∧ ∀ _, _) ∧
      (∀ key ∈ (state.calls who).rekeys, _) ∧ ∀ rewrite ∈ (state.calls who).rewrites, _ → ¬ _))

/-- The owner of the key is an account that has been there since it was issued. -/
def OwnedSince (rows : Rows) (tenure issuedIn : Bytes → Nat) (accessKeyId : Bytes) (owner : Text) :
    Prop :=
  UserExists rows owner.items ∧ issuedIn accessKeyId = tenure owner.items

/-- Every key that names an owner is owned since it was issued. -/
def KeysOwned {ι : Type} (watched : Tenures ι) : Prop :=
  ∀ accessKeyId key, accessKeyAt watched.state.shared.store.rows accessKeyId = .ok (some key) →
    key.owner ≠ .empty →
    OwnedSince watched.state.shared.store.rows watched.tenure watched.issuedIn accessKeyId key.owner

/-- Every key of an account that is being deleted is still to be deleted. -/
def Listed (rows : Rows) : Phase → Prop
  | .deleteKeys username _ _ remaining _ =>
    ∀ accessKeyId key, accessKeyAt rows accessKeyId = .ok (some key) → key.owner = username →
      ∃ listed ∈ remaining, listed.accessKeyId = accessKeyId
  | _ => True

/-! ### One call -/

section Calls

variable {console : Shared} {phase next : Phase} {effect : Effect} {tenure : Bytes → Nat}
  {accessKeyId : Bytes} {key : AccessKeyRecord}

/-- A key there is after a call was there under the same owner, or is the one the
call issues. -/
theorem keys_of_move (tenure issuedIn : Bytes → Nat) (hmove : Move console phase effect next)
    (hrekeys : ∀ key ∈ phase.rekeys,
      accessKeyAt console.store.rows key.accessKeyId = .ok (some key))
    (hread : accessKeyAt (effect.apply console).store.rows accessKeyId = .ok (some key)) :
    (∃ before, accessKeyAt console.store.rows accessKeyId = .ok (some before) ∧
        before.owner = key.owner ∧
        issuedAfter tenure issuedIn phase effect accessKeyId = issuedIn accessKeyId) ∨
      (phase.issues = some key.owner ∧
        issuedAfter tenure issuedIn phase effect accessKeyId = tenure key.owner.items) := by
  cases hmove with
  | issue =>
      rcases accessKeyAt_of_putAccessKey hread with ⟨rfl, rfl⟩ | ⟨hne, hold⟩
      · exact Or.inr ⟨rfl, Function.update_self ..⟩
      · exact Or.inl ⟨key, hold, rfl, Function.update_of_ne hne ..⟩
  | @rotate stored rotated hid howner =>
      rcases accessKeyAt_of_putAccessKey hread with ⟨rfl, rfl⟩ | ⟨-, hold⟩
      · exact Or.inl ⟨stored, by rw [hid]; exact hrekeys stored rfl, howner.symm, rfl⟩
      · exact Or.inl ⟨key, hold, rfl, rfl⟩
  | revoke => exact Or.inl ⟨key, (accessKeyAt_of_deleteAccessKey hread).2, rfl, rfl⟩
  | deleteKey => exact Or.inl ⟨key, (accessKeyAt_of_deleteAccessKey hread).2, rfl, rfl⟩
  | create _ _ _ _ => exact Or.inl ⟨key, accessKeyAt_putUser.symm.trans hread, rfl, rfl⟩
  | patch => exact Or.inl ⟨key, accessKeyAt_putUser.symm.trans hread, rfl, rfl⟩
  | changePassword => exact Or.inl ⟨key, accessKeyAt_putUser.symm.trans hread, rfl, rfl⟩
  | deleteUser => exact Or.inl ⟨key, accessKeyAt_deleteUser.symm.trans hread, rfl, rfl⟩
  | _ => exact Or.inl ⟨key, hread, rfl, rfl⟩

/-- An account there is goes on, unless it is deleted, its keys deleted before. -/
theorem tenure_of_move (hmove : Move console phase effect next)
    (hcreate : ∀ rewrite ∈ phase.rewrites, rewrite.2 = none →
      ¬ UserExists console.store.rows rewrite.1)
    {owner : Text} (hexists : UserExists console.store.rows owner.items) :
    (UserExists (effect.apply console).store.rows owner.items ∧
        tenureAfter console.store.rows tenure phase effect owner.items = tenure owner.items) ∨
      ∃ user counted revoked, phase = .deleteKeys owner user counted [] revoked := by
  -- writing an account back over its row, or over another's, begins nothing
  have hrewritten : ∀ user : UserRecord,
      (if UserExists console.store.rows user.username then tenure
        else Function.update tenure user.username (tenure user.username + 1)) owner.items =
      tenure owner.items := by
    intro user
    split_ifs with hstored
    · rfl
    · refine Function.update_of_ne ?_ ..
      rintro hsame
      rw [hsame] at hexists
      exact hstored hexists
  cases hmove with
  | create hname _ _ _ =>
      have hfree := hcreate _ rfl rfl
      refine Or.inl ⟨hexists.putUser, Function.update_of_ne ?_ ..⟩
      rw [hname]
      rintro hsame
      rw [hsame] at hexists
      exact hfree hexists
  | patch => exact Or.inl ⟨hexists.putUser, hrewritten _⟩
  | changePassword => exact Or.inl ⟨hexists.putUser, hrewritten _⟩
  | @deleteUser username user counted revoked =>
      by_cases hsame : owner.items = username.items
      · obtain rfl : owner = username := Sized.ext hsame
        exact Or.inr ⟨user, counted, revoked, rfl⟩
      · exact Or.inl ⟨hexists.deleteUser hsame, Function.update_of_ne hsame ..⟩
  | issue => exact Or.inl ⟨hexists.putAccessKey, rfl⟩
  | rotate _ _ => exact Or.inl ⟨hexists.putAccessKey, rfl⟩
  | revoke => exact Or.inl ⟨hexists.deleteAccessKey, rfl⟩
  | deleteKey => exact Or.inl ⟨hexists.deleteAccessKey, rfl⟩
  | _ => exact Or.inl ⟨hexists, rfl⟩

/-- A DELETE lists all the keys there are, and drops from its list what it deletes. -/
theorem listed_of_move (hmove : Move console phase effect next)
    (hlisted : Listed console.store.rows phase) :
    Listed (effect.apply console).store.rows next := by
  cases hmove with
  | listKeys hkeys =>
      intro accessKeyId key hread howner
      have hid := accessKeyId_of_accessKeyAt hread
      have hmem := (mem_listAccessKeys hkeys).mpr (by rw [hid]; exact hread)
      exact ⟨key, List.mem_filter.mpr ⟨hmem, by simpa using howner⟩, hid⟩
  | deleteKey =>
      intro accessKeyId key hread howner
      obtain ⟨hne, hold⟩ := accessKeyAt_of_deleteAccessKey hread
      obtain ⟨listed, hmem, hid⟩ := hlisted accessKeyId key hold howner
      rcases List.mem_cons.mp hmem with rfl | hrest
      · exact absurd hid.symm hne
      · exact ⟨listed, hrest, hid⟩
  | _ => trivial

/-- Nobody else's call adds to what a DELETE still has to delete. -/
theorem Listed.of_move {other : Phase} (h : Listed console.store.rows other)
    (hmove : Move console phase effect next) (hknown : other.Known)
    (hrekeys : ∀ key ∈ phase.rekeys,
      accessKeyAt console.store.rows key.accessKeyId = .ok (some key))
    (hissues : ∀ owner ∈ phase.issues, owner ≠ .empty → other.deletes ≠ some owner) :
    Listed (effect.apply console).store.rows other := by
  cases other with
  | deleteKeys username user counted remaining revoked =>
      intro accessKeyId key hread howner
      have hkeys := keys_of_move (fun _ => 0) (fun _ => 0) hmove hrekeys hread
      rcases hkeys with ⟨before, hbefore, hsame, -⟩ | ⟨hissued, -⟩
      · exact h accessKeyId before hbefore (hsame.trans howner)
      · have hnonempty : key.owner ≠ .empty := fun hempty =>
          hknown.1.nonempty (by rw [← howner, hempty]; rfl)
        exact absurd (congrArg some howner.symm) (hissues _ hissued hnonempty)
  | _ => trivial

end Calls

/-! ### Runs -/

section Runs

variable {ι : Type} [DecidableEq ι] {scheme : PasswordScheme} {watched next : Tenures ι}
  {label : Label ι}

structure Owned (watched : Tenures ι) : Prop where
  known : AllKnown watched.state
  keys : KeysOwned watched
  listed : ∀ who, Listed watched.state.shared.store.rows (watched.state.calls who)

theorem Entry.listed {phase : Phase} {rows : Rows} (h : Entry phase) : Listed rows phase := by
  cases h <;> trivial

theorem Owned.step (h : Owned watched) (hguard : KeysCurrent watched.state label)
    (hstep : watchTenures scheme watched label = some next) : Owned next := by
  obtain ⟨after, hafter, rfl⟩ := Option.map_eq_some_iff.mp hstep
  have hknown := h.known.step hafter
  cases label with
  | start who request cookie atSeconds =>
      rcases step_cases hafter with ⟨_, phase, _, hentry, rfl⟩ | ⟨_, _, _, _, hlabel, _⟩
      · exact ⟨hknown, h.keys,
          (watched.state.forall_move ..).mpr ⟨hentry.listed, fun other _ => h.listed other⟩⟩
      · cases hlabel
  | call who moment =>
      obtain ⟨⟨effect, phase⟩, hact, rfl⟩ := Option.map_eq_some_iff.mp hafter
      have hmove := move_of_act hact
      obtain ⟨hissues, hrekeys, hcreate⟩ := hguard
      refine ⟨hknown, fun accessKeyId key hread howner => ?_, ?_⟩
      · simp only [records, hact]
        rcases keys_of_move watched.tenure watched.issuedIn hmove hrekeys hread with
          ⟨before, hbefore, hsame, hissued⟩ | ⟨hphase, hissued⟩
        · obtain ⟨hexists, hsince⟩ := h.keys accessKeyId before hbefore (by rwa [hsame])
          rw [hsame] at hexists hsince
          rcases tenure_of_move hmove hcreate hexists with ⟨hstays, htenure⟩ |
            ⟨user, counted, revoked, hdeletes⟩
          · exact ⟨hstays, by rw [hissued, htenure, hsince]⟩
          · -- the account is deleted only once none of its keys is left
            have hlisted := h.listed who
            rw [hdeletes] at hlisted
            obtain ⟨listed, hmem, -⟩ := hlisted accessKeyId before hbefore hsame
            cases hmem
        · obtain ⟨hexists, -⟩ := hissues key.owner hphase howner
          rcases tenure_of_move hmove hcreate hexists with ⟨hstays, htenure⟩ |
            ⟨user, counted, revoked, hdeletes⟩
          · exact ⟨hstays, by rw [hissued, htenure]⟩
          · rw [hdeletes] at hphase
            cases hphase
      · refine (watched.state.forall_move ..).mpr ⟨listed_of_move hmove (h.listed who), ?_⟩
        intro other _
        exact (h.listed other).of_move hmove (h.known other) hrekeys fun owner howner hnonempty =>
          (hissues owner howner hnonempty).2 other

/-- In a run whose keys are issued to accounts that are there and not being
deleted, and whose rotations and creations write over what they read, every key
that names an owner belongs to an account that has been there since it was
issued. -/
theorem keys_owned {start final : Tenures ι} {labels : List (Label ι)}
    (hfresh : Fresh start.state) (hstart : KeysOwned start)
    (hevery : Trace.Every (watchTenures scheme) (fun watched => KeysCurrent watched.state) start
      labels)
    (hrun : Trace.run (watchTenures scheme) start labels = some final) : KeysOwned final := by
  have howned : Owned start := ⟨hfresh.allKnown, hstart, fun who => by
    rw [hfresh who]
    trivial⟩
  have hkept : ∀ {watched next : Tenures ι} {label : Label ι}, Owned watched →
      KeysCurrent watched.state label → watchTenures scheme watched label = some next →
      Owned next := fun h hguard hstep => h.step hguard hstep
  exact (hevery.run_invariant hkept howned hrun).keys

end Runs

theorem keysOwned_twoAdministrators :
    KeysOwned (⟨before twoAdministrators, fun _ => 0, fun _ => 0⟩ : Tenures Bool) := by
  intro accessKeyId key hread
  have hnone : accessKeyAt twoAdministrators.store.rows accessKeyId = .ok none := by
    simp only [twoAdministrators, accessKeyAt_putUser]
    rfl
  have hread' : accessKeyAt twoAdministrators.store.rows accessKeyId = .ok (some key) := hread
  rw [hnone] at hread'
  cases hread'

/-- bob issues himself a key while alice deletes him. -/
def issuedAcrossDelete : List (Label Bool) :=
  [.start true (.issueKey (short "laptop")) (ascii "b1") 0,
    .start false (.deleteUser (short "bob")) (ascii "a1") 0,
    .call false {}, .call false {}, .call false {}, .call false {}, .call false {},
    .call true { accessKeyId := ascii "MB01" }]

theorem key_outlives_owner :
    ∃ final, Trace.run (watchTenures plainScheme) { state := before twoAdministrators }
        issuedAcrossDelete = some final ∧
      (∀ who, (final.state.calls who).returned) ∧ ¬ KeysOwned final := by
  have hran :
      (Trace.run (watchTenures plainScheme) { state := before twoAdministrators }
        issuedAcrossDelete).map (fun final =>
          (((final.state.calls false).returned, (final.state.calls true).returned),
            (accessKeyAt final.state.shared.store.rows (ascii "MB01")).map
              (Option.map AccessKeyRecord.owner),
            decide (UserExists final.state.shared.store.rows (short "bob").items))) =
      some ((true, true), .ok (some (short "bob")), false) := by
    decide +kernel
  obtain ⟨final, hfinal, htriple⟩ := Option.map_eq_some_iff.mp hran
  obtain ⟨hreturned, hrest⟩ := Prod.mk.inj htriple
  obtain ⟨hfirst, hsecond⟩ := Prod.mk.inj hreturned
  obtain ⟨hkey, hgone⟩ := Prod.mk.inj hrest
  refine ⟨final, hfinal, fun who => ?_, fun howned => ?_⟩
  · cases who with
    | false => exact hfirst
    | true => exact hsecond
  · cases hread : accessKeyAt final.state.shared.store.rows (ascii "MB01") with
    | error error => simp [hread, Except.map] at hkey
    | ok found =>
        simp only [hread, Except.map, Except.ok.injEq] at hkey
        obtain ⟨key, rfl, howner⟩ := Option.map_eq_some_iff.mp hkey
        have hexists := (howned (ascii "MB01") key hread (by rw [howner]; decide)).1
        rw [howner] at hexists
        exact of_decide_eq_false hgone hexists

/-- alice issues herself a key and rotates it. -/
def issuedAndRotated : List (Label Bool) :=
  [.start true (.issueKey (short "laptop")) (ascii "a1") 0,
    .call true { accessKeyId := ascii "MB01" },
    .start false (.rotateKey (ascii "MB01")) (ascii "a1") 0,
    .call false {}, .call false { secretKey := short "new secret" }]

theorem keys_owned_afterRotation :
    ∃ final, Trace.run (watchTenures plainScheme) { state := before twoAdministrators }
        issuedAndRotated = some final ∧ KeysOwned final := by
  have hran : (Trace.run (watchTenures plainScheme) { state := before twoAdministrators }
      issuedAndRotated).isSome := by
    decide +kernel
  obtain ⟨final, hfinal⟩ := Option.isSome_iff_exists.mp hran
  refine ⟨final, hfinal, keys_owned (fun _ => rfl) keysOwned_twoAdministrators ?_ hfinal⟩
  decide +kernel

end MonoBucket.Console
