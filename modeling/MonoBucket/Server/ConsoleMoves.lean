/-
What one call of the console can do

Every call a request makes, said once: the phase it is made in, what it changes,
the phase after it, and what it read. Everything proved about runs of the
console goes through this list instead of through the handlers.
-/

import MonoBucket.Server.ConsoleApi

namespace MonoBucket.Console

/-! ### Requests that have just arrived -/

/-- The phases a request may start in. -/
inductive Entry : Phase → Prop
  | done (answer : Answer) : Entry (.done answer)
  | login (username : Text) (password : Bytes) : Entry (.login username password)
  | logout (token : Bytes) : Entry (.logout token)
  | issuing (owner name : Text) : Entry (.issuing owner name)
  | revoke (accessKeyId : Bytes) (any : Bool) (actor : Text) : Entry (.revoke accessKeyId any actor)
  | rotate (accessKeyId : Bytes) (any : Bool) (actor : Text) : Entry (.rotate accessKeyId any actor)
  | create {username : Text} {password : Bytes} {role : Role} {buckets : BucketGrants}
      (hgrants : role = .administrator → buckets.unrestricted) :
      Entry (.create username password role buckets)
  | patch (username : Text) (change : UserPatch) : Entry (.patch username change)
  | delete (username : Text) : Entry (.delete username)
  | password (target : Text) (self : Bool) (current next : Bytes) :
      Entry (.password target self current next)

theorem entry_guard {console : Shared} {cookie : Bytes} {atSeconds : Int64} {permission : Permission}
    {handler : Principal → Phase} (h : ∀ principal, Entry (handler principal)) :
    Entry (guard console cookie atSeconds permission handler) := by
  rw [guard]
  split
  · exact .done _
  · split_ifs
    · exact h _
    · exact .done _

theorem entry_arrive (console : Shared) (cookie : Bytes) (atSeconds : Int64) (request : Request) :
    Entry (arrive console cookie atSeconds request) := by
  cases request with
  | login username password => exact .login ..
  | logout => exact .logout _
  | issueKey name =>
      refine entry_guard fun principal => ?_
      split_ifs
      · exact .done _
      · exact .issuing ..
  | revokeKey accessKeyId =>
      refine entry_guard fun principal => ?_
      split_ifs
      · exact .done _
      · exact .revoke ..
  | rotateKey accessKeyId =>
      refine entry_guard fun principal => ?_
      split_ifs
      · exact .done _
      · exact .rotate ..
  | createUser username password role buckets =>
      refine entry_guard fun principal => ?_
      split_ifs
      · exact .done _
      · exact .done _
      · cases role with
        | none => exact .done _
        | some role =>
            dsimp only
            split_ifs with hnarrow
            · exact .done _
            · exact .create fun hrole => by
                by_contra hgrants
                exact hnarrow ⟨hrole, hgrants⟩
  | patchUser username change =>
      refine entry_guard fun principal => ?_
      split_ifs
      · exact .done _
      · exact .done _
      · exact .patch ..
  | deleteUser username =>
      refine entry_guard fun principal => ?_
      split_ifs
      · exact .done _
      · exact .done _
      · exact .delete _
  | changePassword username currentPassword newPassword =>
      rw [arrive]
      split
      · exact .done _
      · dsimp only
        split_ifs
        all_goals first | exact .done _ | exact .password ..

/-! ### Calls -/

/-- The account whose record a request has just changed and whose sessions it is
about to end. -/
def Phase.closing : Phase → Option Bytes
  | .patchClosing username _ => some username.items
  | .deleteClosing username _ => some username.items
  | .passwordClosing target _ _ => some target.items
  | _ => none

/-- A call: the phase before, what it changes, the phase after. -/
inductive Move (console : Shared) : Phase → Effect → Phase → Prop
  | stop {phase : Phase} {answer : Answer} (hreads : phase.closing = none) :
      Move console phase .nothing (.done answer)
  | readLogin {username : Text} {password : Bytes} {user : UserRecord}
      (huser : getUser console.store.rows username.items = .ok (some user))
      (henabled : user.disabled = false) :
      Move console (.login username password) .nothing (.opening username user none)
  | signIn {username : Text} {user : UserRecord} {ended : Option Nat} {token : Bytes}
      {atSeconds : Int64} {answer : Answer} :
      Move console (.opening username user ended)
        (.openSession ⟨username, user.role, user.buckets⟩ token atSeconds) (.done answer)
  | signOut {token : Bytes} : Move console (.logout token) (.closeSession token) (.done .signedOut)
  | issue {key : AccessKeyRecord} {name : Text} :
      Move console (.issuing key.owner name) (.putAccessKey key) (.done (.issued key))
  | readRevoke {accessKeyId : Bytes} {any : Bool} {actor : Text} :
      Move console (.revoke accessKeyId any actor) .nothing (.revoking accessKeyId)
  | revoke {accessKeyId : Bytes} {answer : Answer} :
      Move console (.revoking accessKeyId) (.deleteAccessKey accessKeyId) (.done answer)
  | readRotate {accessKeyId : Bytes} {any : Bool} {actor : Text} {key : AccessKeyRecord}
      (hkey : getAccessKey console.store.rows accessKeyId = .ok (some key)) :
      Move console (.rotate accessKeyId any actor) .nothing (.rotating key)
  | rotate {key rotated : AccessKeyRecord} (hid : rotated.accessKeyId = key.accessKeyId)
      (howner : rotated.owner = key.owner) :
      Move console (.rotating key) (.putAccessKey rotated) (.done (.rotated rotated))
  | readCreate {username : Text} {password : Bytes} {role : Role} {buckets : BucketGrants}
      (hfree : getUser console.store.rows username.items = .ok none) :
      Move console (.create username password role buckets) .nothing
        (.creating username password role buckets)
  | create {username : Text} {password : Bytes} {role : Role} {buckets : BucketGrants}
      {user : UserRecord} (hname : user.username = username.items) (hrole : user.role = role)
      (hbuckets : user.buckets = buckets) (henabled : user.disabled = false) :
      Move console (.creating username password role buckets) (.putUser user)
        (.done (.created user))
  | countPatch {username : Text} {change : UserPatch} {user : UserRecord}
      (huser : getUser console.store.rows username.items = .ok (some user)) :
      Move console (.patch username change) .nothing (.patchCounting username change user)
  | readPatch {username : Text} {change : UserPatch} {user : UserRecord}
      (huser : getUser console.store.rows username.items = .ok (some user))
      (hother : user.enabledAdministrator = false)
      (hnarrow : change.narrowsAdministrator user = false) :
      Move console (.patch username change) .nothing (.patchWriting username change user none)
  | checkPatch {username : Text} {change : UserPatch} {user : UserRecord} {count : Nat}
      (hcount : countEnabledAdministrators console.store.rows = .ok count)
      (hlast : change.losesAdmin → 1 < count)
      (hnarrow : change.narrowsAdministrator user = false) :
      Move console (.patchCounting username change user) .nothing
        (.patchWriting username change user (some count))
  | patch {username : Text} {change : UserPatch} {user : UserRecord} {counted : Option Nat}
      {updatedAt : TimestampMs} :
      Move console (.patchWriting username change user counted)
        (.putUser { change.applied user with updatedAt := updatedAt })
        (.patchClosing username { change.applied user with updatedAt := updatedAt })
  | closePatch {username : Text} {user : UserRecord} {answer : Answer} :
      Move console (.patchClosing username user) (.closeUser username.items) (.done answer)
  | countDelete {username : Text} {user : UserRecord}
      (huser : getUser console.store.rows username.items = .ok (some user)) :
      Move console (.delete username) .nothing (.deleteCounting username user)
  | readDelete {username : Text} {user : UserRecord}
      (huser : getUser console.store.rows username.items = .ok (some user))
      (hother : user.enabledAdministrator = false) :
      Move console (.delete username) .nothing (.deleteListing username user none)
  | checkDelete {username : Text} {user : UserRecord} {count : Nat}
      (hcount : countEnabledAdministrators console.store.rows = .ok count) (hlast : 1 < count) :
      Move console (.deleteCounting username user) .nothing
        (.deleteListing username user (some count))
  | listKeys {username : Text} {user : UserRecord} {counted : Option Nat}
      {keys : List AccessKeyRecord} (hkeys : listAccessKeys console.store.rows = .ok keys) :
      Move console (.deleteListing username user counted) .nothing
        (.deleteKeys username user counted (keys.filter fun key => key.owner = username) 0)
  | deleteKey {username : Text} {user : UserRecord} {counted : Option Nat} {key : AccessKeyRecord}
      {remaining : List AccessKeyRecord} {revoked more : Nat} :
      Move console (.deleteKeys username user counted (key :: remaining) revoked)
        (.deleteAccessKey key.accessKeyId) (.deleteKeys username user counted remaining more)
  | deleteUser {username : Text} {user : UserRecord} {counted : Option Nat} {revoked : Nat} :
      Move console (.deleteKeys username user counted [] revoked) (.deleteUser username.items)
        (.deleteClosing username revoked)
  | closeDelete {username : Text} {revoked : Nat} {answer : Answer} :
      Move console (.deleteClosing username revoked) (.closeUser username.items) (.done answer)
  | readPassword {target : Text} {self : Bool} {current next : Bytes} {user : UserRecord}
      (huser : getUser console.store.rows target.items = .ok (some user)) :
      Move console (.password target self current next) .nothing
        (.passwordWriting target self next user)
  | changePassword {target : Text} {self : Bool} {next : Bytes} {user : UserRecord}
      {hash : Text} {now : TimestampMs} :
      Move console (.passwordWriting target self next user)
        (.putUser { user with passwordHash := hash, updatedAt := now, passwordChangedAt := now })
        (.passwordClosing target self
          { user with passwordHash := hash, updatedAt := now, passwordChangedAt := now })
  | closePassword {target : Text} {user : UserRecord} {answer : Answer} :
      Move console (.passwordClosing target false user) (.closeUser target.items) (.done answer)
  | closeOwn {target : Text} {user : UserRecord} {ended : Nat} :
      Move console (.passwordClosing target true user) (.closeUser target.items)
        (.opening target user (some ended))

section Moves

variable {scheme : PasswordScheme} {console : Shared} {moment : Moment} {phase next : Phase}
  {effect : Effect}

/-- A read ends the request or goes on with what it returned. -/
theorem move_withRead {α : Type} {result : Except StoreError α} {rest : α → Phase}
    (hreads : phase.closing = none) (h : ∀ value, result = .ok value → Move console phase .nothing (rest value)) :
    Move console phase .nothing (Phase.withRead result rest) := by
  cases result with
  | error error => exact .stop hreads
  | ok value => exact h value rfl

theorem move_withKey {accessKeyId : Bytes} {any : Bool} {actor : Text}
    {rest : AccessKeyRecord → Phase} (hreads : phase.closing = none)
    (h : ∀ key, getAccessKey console.store.rows accessKeyId = .ok (some key) →
      Move console phase .nothing (rest key)) :
    Move console phase .nothing (withKey console accessKeyId any actor rest) := by
  refine move_withRead hreads fun found hfound => ?_
  cases found with
  | none => exact .stop hreads
  | some key =>
      dsimp only
      split_ifs
      · exact .stop hreads
      · exact h key hfound

theorem move_patchChecked {username : Text} {change : UserPatch} {user : UserRecord}
    {counted : Option Nat} (hreads : phase.closing = none)
    (h : (change.losesAdmin → ∀ count ∈ counted, 1 < count) →
      change.narrowsAdministrator user = false →
      Move console phase .nothing (.patchWriting username change user counted)) :
    Move console phase .nothing (patchChecked username change user counted) := by
  rw [patchChecked]
  split_ifs with hlast hnarrow
  · exact .stop hreads
  · exact .stop hreads
  · refine h (fun hloses count hcount => ?_) (by simpa using hnarrow)
    cases hcount
    simpa [hloses] using hlast
  · exact .stop hreads

theorem move_login {username : Text} {password : Bytes} :
    Move console (.login username password) .nothing (login scheme console username password) := by
  refine move_withRead rfl fun found hfound => ?_
  cases found with
  | none => exact .stop rfl
  | some user =>
      have huser : getUser console.store.rows username.items = .ok (some user) := by
        by_cases hvalid : isValidUsername username.items = true
        · rwa [if_pos hvalid] at hfound
        · rw [if_neg hvalid] at hfound
          cases hfound
      dsimp only
      split_ifs with hrefused
      · exact .stop rfl
      · rw [Bool.or_eq_true, not_or] at hrefused
        exact .readLogin huser (by simpa using hrefused.2)

/-- Every call is one of the list. -/
theorem move_of_act (h : act scheme console moment phase = some (effect, next)) :
    Move console phase effect next := by
  cases phase with
  | idle => cases h
  | done answer => cases h
  | login username password =>
      cases h
      exact move_login
  | opening username user ended =>
      cases h
      exact .signIn
  | logout token =>
      cases h
      exact .signOut
  | issuing owner name =>
      cases h
      have hissue : Move console (.issuing (newKey moment owner name).owner name)
          (.putAccessKey (newKey moment owner name))
          (.done (.issued (newKey moment owner name))) := .issue
      exact hissue
  | revoke accessKeyId any actor =>
      cases h
      exact move_withKey rfl fun key _ => .readRevoke
  | revoking accessKeyId =>
      cases h
      split
      · exact .revoke
      · exact .revoke
  | rotate accessKeyId any actor =>
      cases h
      exact move_withKey rfl fun key hkey => .readRotate hkey
  | rotating key =>
      cases h
      exact .rotate rfl rfl
  | create username password role buckets =>
      cases h
      refine move_withRead rfl fun found hfound => ?_
      cases found with
      | none => exact .readCreate hfound
      | some user => exact .stop rfl
  | creating username password role buckets =>
      cases h
      exact .create rfl rfl rfl rfl
  | patch username change =>
      cases h
      refine move_withRead rfl fun found hfound => ?_
      cases found with
      | none => exact .stop rfl
      | some user =>
          dsimp only
          split_ifs with hadmin
          · exact .countPatch hfound
          · exact move_patchChecked rfl fun _ hnarrow => .readPatch hfound (by simpa using hadmin) hnarrow
  | patchCounting username change user =>
      cases h
      refine move_withRead rfl fun count hcount => ?_
      exact move_patchChecked rfl fun hlast hnarrow =>
        .checkPatch hcount (fun hloses => hlast hloses count rfl) hnarrow
  | patchWriting username change user counted =>
      cases h
      exact .patch
  | patchClosing username user =>
      cases h
      exact .closePatch
  | delete username =>
      cases h
      refine move_withRead rfl fun found hfound => ?_
      cases found with
      | none => exact .stop rfl
      | some user =>
          dsimp only
          split_ifs with hadmin
          · exact .countDelete hfound
          · exact .readDelete hfound (by simpa using hadmin)
  | deleteCounting username user =>
      cases h
      refine move_withRead rfl fun count hcount => ?_
      split_ifs with hlast
      · exact .stop rfl
      · exact .checkDelete hcount (by omega)
  | deleteListing username user counted =>
      cases h
      exact move_withRead rfl fun keys hkeys => .listKeys hkeys
  | deleteKeys username user counted remaining revoked =>
      cases remaining with
      | nil =>
          cases h
          exact .deleteUser
      | cons key remaining =>
          cases h
          exact .deleteKey
  | deleteClosing username revoked =>
      cases h
      exact .closeDelete
  | password target self current newPassword =>
      cases h
      refine move_withRead rfl fun found hfound => ?_
      cases found with
      | none => exact .stop rfl
      | some user =>
          dsimp only
          split_ifs
          · exact .stop rfl
          · exact .readPassword hfound
  | passwordWriting target self newPassword user =>
      cases h
      exact .changePassword
  | passwordClosing target self user =>
      cases h
      cases self with
      | true => exact .closeOwn
      | false => exact .closePassword

end Moves

/-! ### Steps -/

section Steps

variable {ι : Type} [DecidableEq ι] {scheme : PasswordScheme} {state next : State ι}
  {label : Label ι}

/-- A step is a request arriving or a call. -/
theorem step_cases (h : step scheme state label = some next) :
    (∃ who phase, state.calls who = .idle ∧ Entry phase ∧
        next = state.move who state.shared phase) ∨
      ∃ who moment effect phase, label = .call who moment ∧
        Move state.shared (state.calls who) effect phase ∧
        next = state.move who (effect.apply state.shared) phase := by
  cases label with
  | start who request cookie atSeconds =>
      rw [step] at h
      split at h
      · rename_i hidle
        exact Or.inl ⟨who, _, hidle, entry_arrive .., (Option.some.inj h).symm⟩
      · cases h
  | call who moment =>
      rw [step] at h
      obtain ⟨⟨effect, phase⟩, hact, hnext⟩ := Option.map_eq_some_iff.mp h
      exact Or.inr ⟨who, moment, effect, phase, rfl, move_of_act hact, hnext.symm⟩

end Steps

/-! ### What a request knows -/

/-- The record is the named account's, and the name is one `closeUser` acts on. -/
structure Named (username : Text) (user : UserRecord) : Prop where
  name : user.username = username.items
  nonempty : username.items ≠ []

theorem named_of_getUser {rows : Rows} {username : Text} {user : UserRecord}
    (h : getUser rows username.items = .ok (some user)) : Named username user := by
  obtain ⟨hne, hread⟩ := getUser_eq_some_iff.mp h
  exact ⟨username_of_userAt hread, hne⟩

/-- An enabled administrator was counted, and found not to be the last. -/
def Counted (user : UserRecord) (counted : Option Nat) (removes : Prop) : Prop :=
  user.enabledAdministrator → removes → ∃ count ∈ counted, 1 < count

/-- What the reads of a request established, whatever the others do meanwhile. -/
def Phase.Known : Phase → Prop
  | .opening username user _ => Named username user
  | .create _ _ role buckets => role = .administrator → buckets.unrestricted
  | .creating _ _ role buckets => role = .administrator → buckets.unrestricted
  | .patchCounting username _ user => Named username user
  | .patchWriting username change user counted =>
    Named username user ∧ Counted user counted change.losesAdmin
  | .patchClosing username user => Named username user
  | .deleteCounting username user => Named username user
  | .deleteListing username user counted => Named username user ∧ Counted user counted True
  | .deleteKeys username user counted _ _ => Named username user ∧ Counted user counted True
  | .deleteClosing username _ => username.items ≠ []
  | .passwordWriting target _ _ user => Named target user ∧ user.Storable
  | .passwordClosing target _ user => Named target user
  | _ => True

theorem Entry.known {phase : Phase} (h : Entry phase) : phase.Known := by
  cases h with
  | create hgrants => exact hgrants
  | _ => trivial

theorem Move.known {console : Shared} {phase next : Phase} {effect : Effect}
    (h : Move console phase effect next) (hknown : phase.Known) : next.Known := by
  cases h with
  | readLogin huser _ => exact named_of_getUser huser
  | readCreate _ => exact hknown
  | countPatch huser => exact named_of_getUser huser
  | readPatch huser hother _ =>
      exact ⟨named_of_getUser huser, fun hadmin => by rw [hother] at hadmin; cases hadmin⟩
  | checkPatch _ hlast _ => exact ⟨hknown, fun _ hloses => ⟨_, rfl, hlast hloses⟩⟩
  | patch => exact ⟨by simpa using hknown.1.name, hknown.1.nonempty⟩
  | countDelete huser => exact named_of_getUser huser
  | readDelete huser hother =>
      exact ⟨named_of_getUser huser, fun hadmin => by rw [hother] at hadmin; cases hadmin⟩
  | checkDelete _ hlast => exact ⟨hknown, fun _ _ => ⟨_, rfl, hlast⟩⟩
  | listKeys _ => exact hknown
  | deleteKey => exact hknown
  | deleteUser => exact hknown.1.nonempty
  | readPassword huser =>
      exact ⟨named_of_getUser huser, storable_of_userAt (getUser_eq_some_iff.mp huser).2⟩
  | changePassword => exact ⟨hknown.1.name, hknown.1.nonempty⟩
  | closeOwn => exact hknown
  | _ => trivial

/-- Every request knows what its reads established. -/
def AllKnown {ι : Type} (state : State ι) : Prop := ∀ who, (state.calls who).Known

theorem Fresh.allKnown {ι : Type} {state : State ι} (h : Fresh state) : AllKnown state :=
  fun who => by
    rw [h who]
    trivial

section AllKnown

variable {ι : Type} [DecidableEq ι] {scheme : PasswordScheme} {state next : State ι}
  {label : Label ι}

theorem AllKnown.move (h : AllKnown state) {who : ι} {shared : Shared} {phase : Phase}
    (hphase : phase.Known) : AllKnown (state.move who shared phase) :=
  (state.forall_move who shared phase).mpr ⟨hphase, fun other _ => h other⟩

theorem AllKnown.step (h : AllKnown state) (hstep : Console.step scheme state label = some next) :
    AllKnown next := by
  rcases step_cases hstep with
    ⟨who, phase, _, hentry, rfl⟩ | ⟨who, _, effect, phase, _, hmove, rfl⟩
  · exact h.move hentry.known
  · exact h.move (hmove.known (h who))

end AllKnown

end MonoBucket.Console
