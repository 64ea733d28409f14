/-
The console's accounts and credentials

The handlers of `/_mb/api/login`, `logout`, `credentials`, `users` and
`users/password`, each as the sequence of calls it makes on the store and on the
session table. Nothing is held between two calls, so a request is a phase that
says which call comes next and what the earlier ones returned, and the server is
any number of requests moving over one store and one table.

A request is given here as its handler sees it once the JSON is read. What can
only refuse a request before it reaches the store, the login throttle and a full
I/O queue, is left out.
-/

import MonoBucket.Lib.Trace
import MonoBucket.Server.ConsoleSession
import MonoBucket.Storage.IdentityRows

namespace MonoBucket.Console

/-! ### Requests -/

/-- `password::kMinimumLength`. -/
def kMinimumLength : Nat := 12

def kMaxKeyNameLength : Nat := 200

/-- `password::hash`, given the salt it draws, and `password::verify`. -/
structure PasswordScheme where
  hash : Bytes → Bytes → Text
  verify : Bytes → Bytes → Bool

/-- What a PATCH asks for: each part is there or is left alone. -/
structure UserPatch where
  role : Option Role := .none
  disabled : Option Bool := .none
  buckets : Option BucketGrants := .none
  deriving DecidableEq

inductive Request
  | login (username : Text) (password : Bytes)
  | logout
  | issueKey (name : Text)
  | revokeKey (accessKeyId : Bytes)
  | rotateKey (accessKeyId : Bytes)
  | createUser (username : Text) (password : Bytes) (role : Option Role) (buckets : BucketGrants)
  | patchUser (username : Text) (change : UserPatch)
  | deleteUser (username : Text)
  | changePassword (username : Text) (currentPassword newPassword : Bytes)

inductive Answer
  | refused (status : Nat) (message : Bytes)
  | signedIn (principal : Principal) (token : Bytes)
  | signedOut
  | issued (key : AccessKeyRecord)
  | revoked (accessKeyId : Bytes)
  | rotated (key : AccessKeyRecord)
  | created (user : UserRecord)
  | unchanged (user : UserRecord)
  | updated (user : UserRecord) (endedSessions : Nat)
  | deleted (username : Text) (revokedCredentials endedSessions : Nat)
  | passwordChanged (username : Text) (endedSessions : Nat) (token : Option Bytes)
  deriving DecidableEq

/-! ### What a PATCH makes of a record -/

namespace UserPatch

variable (change : UserPatch) (user : UserRecord)

/-- `losesAdmin`. -/
def losesAdmin : Bool := change.role.any (· ≠ .administrator) || change.disabled = some true

/-- The parts that are there replace the record's. -/
def merged : UserRecord :=
  { user with
    role := change.role.getD user.role
    disabled := change.disabled.getD user.disabled
    buckets := change.buckets.getD user.buckets }

/-- A promotion drops whatever narrowing the account carried. -/
def clears : Bool :=
  (change.merged user).role = .administrator && !(change.merged user).buckets.unrestricted

def applied : UserRecord :=
  if change.clears user then { change.merged user with buckets := {} } else change.merged user

/-- `!changes.empty()`. -/
def changes : Bool :=
  change.role.any (· ≠ user.role) || change.disabled.any (· ≠ user.disabled) ||
    change.buckets.any (· ≠ user.buckets) || change.clears user

/-- The account would be a narrowed administrator. -/
def narrowsAdministrator : Bool :=
  change.buckets.any (fun grants => !grants.unrestricted) &&
    change.role.getD user.role = .administrator

@[simp]
theorem username_applied : (change.applied user).username = user.username := by
  rw [applied]
  split_ifs <;> rfl

@[simp]
theorem disabled_applied : (change.applied user).disabled = change.disabled.getD user.disabled := by
  rw [applied]
  split_ifs <;> rfl

@[simp]
theorem role_applied : (change.applied user).role = change.role.getD user.role := by
  rw [applied]
  split_ifs <;> rfl

/-- No narrowing is stored for an administrator. -/
theorem unrestricted_applied (hrole : (change.applied user).role = .administrator) :
    (change.applied user).buckets.unrestricted := by
  rw [applied] at hrole ⊢
  split_ifs at hrole ⊢ with hclears
  · have hdefault : ({} : BucketGrants).unrestricted := by decide
    exact hdefault
  · rw [clears] at hclears
    by_contra hnarrowed
    simp [hrole, hnarrowed] at hclears

/-- A change that asks to take neither the role nor the account away keeps an
enabled administrator one. -/
theorem losesAdmin_of_applied (hadmin : user.enabledAdministrator)
    (hloses : (change.applied user).enabledAdministrator = false) : change.losesAdmin := by
  by_contra hkeeps
  rw [losesAdmin, Bool.or_eq_true, not_or] at hkeeps
  obtain ⟨hrole, hdisabled⟩ := hkeeps
  rw [UserRecord.enabledAdministrator, role_applied, disabled_applied] at hloses
  rw [UserRecord.enabledAdministrator, Bool.and_eq_true] at hadmin
  have hkept : change.role.getD user.role = .administrator := by
    cases hasked : change.role with
    | none => simpa using hadmin.2
    | some role => simpa [hasked] using hrole
  have henabled : change.disabled.getD user.disabled = false := by
    cases hasked : change.disabled with
    | none => simpa using hadmin.1
    | some disabled => simpa [hasked] using hdisabled
  simp [hkept, henabled] at hloses

end UserPatch

/-! ### Where a request is -/

/-- The next call of a request, and what it has read so far. -/
inductive Phase
  | idle
  | login (username : Text) (password : Bytes)
  /-- A session is about to be opened from a record; `ended` when a password change opens it. -/
  | opening (username : Text) (user : UserRecord) (ended : Option Nat)
  | logout (token : Bytes)
  | issuing (owner name : Text)
  | revoke (accessKeyId : Bytes) (any : Bool) (actor : Text)
  | revoking (accessKeyId : Bytes)
  | rotate (accessKeyId : Bytes) (any : Bool) (actor : Text)
  | rotating (key : AccessKeyRecord)
  | create (username : Text) (password : Bytes) (role : Role) (buckets : BucketGrants)
  | creating (username : Text) (password : Bytes) (role : Role) (buckets : BucketGrants)
  | patch (username : Text) (change : UserPatch)
  | patchCounting (username : Text) (change : UserPatch) (user : UserRecord)
  | patchWriting (username : Text) (change : UserPatch) (user : UserRecord) (counted : Option Nat)
  | patchClosing (username : Text) (user : UserRecord)
  | delete (username : Text)
  | deleteCounting (username : Text) (user : UserRecord)
  | deleteListing (username : Text) (user : UserRecord) (counted : Option Nat)
  | deleteKeys (username : Text) (user : UserRecord) (counted : Option Nat)
      (remaining : List AccessKeyRecord) (revoked : Nat)
  | deleteClosing (username : Text) (revoked : Nat)
  | password (target : Text) (self : Bool) (current next : Bytes)
  | passwordWriting (target : Text) (self : Bool) (next : Bytes) (user : UserRecord)
  | passwordClosing (target : Text) (self : Bool) (user : UserRecord)
  | done (answer : Answer)

namespace Phase

def refused (status : Nat) (message : String) : Phase := .done (.refused status (ascii message))

/-- What `offload` and the two posted handlers answer to an exception. -/
def failed : Phase := refused 500 "internal error"

def forbidden (permission : Permission) : Phase :=
  .done (.refused 403 (ascii "this account is not permitted to " ++ permission.toText))

/-- Go on with what a store call returned. -/
def withRead {α : Type} (result : Except StoreError α) (next : α → Phase) : Phase :=
  match result with
  | .error _ => failed
  | .ok value => next value

end Phase

/-- What the requests share. -/
structure Shared where
  store : MetadataStore
  sessions : SessionStore := {}

/-- What one call changes. -/
inductive Effect
  | nothing
  | putUser (user : UserRecord)
  | deleteUser (username : Bytes)
  | putAccessKey (key : AccessKeyRecord)
  | deleteAccessKey (accessKeyId : Bytes)
  | openSession (principal : Principal) (token : Bytes) (atSeconds : Int64)
  | closeSession (token : Bytes)
  | closeUser (username : Bytes)

def Effect.apply (console : Shared) : Effect → Shared
  | .nothing => console
  | .putUser user => { console with store := MonoBucket.putUser console.store user }
  | .deleteUser username =>
    { console with store := (MonoBucket.deleteUser console.store username).1 }
  | .putAccessKey key => { console with store := MonoBucket.putAccessKey console.store key }
  | .deleteAccessKey accessKeyId =>
    { console with store := (MonoBucket.deleteAccessKey console.store accessKeyId).1 }
  | .openSession principal token atSeconds =>
    { console with sessions := console.sessions.openAt token principal atSeconds }
  | .closeSession token => { console with sessions := console.sessions.close token }
  | .closeUser username => { console with sessions := console.sessions.closeUser username }

/-- What a call reads from the clocks and draws from the random source. -/
structure Moment where
  nowMs : TimestampMs := 0
  nowSeconds : Int64 := 0
  salt : Bytes := []
  token : Bytes := []
  accessKeyId : Bytes := []
  secretKey : Text := .empty

/-! ### The gates -/

section Gates

variable (console : Shared) (cookie : Bytes) (atSeconds : Int64)

/-- `guard`: a live session whose role holds the permission. -/
def guard (permission : Permission) (handler : Principal → Phase) : Phase :=
  match console.sessions.resolveAt cookie atSeconds with
  | none => Phase.refused 401 "not signed in"
  | some principal =>
    if principal.role.allows permission then handler principal else Phase.forbidden permission

/-- The checks a request passes before it is posted to an I/O thread. -/
def arrive : Request → Phase
  | .login username password => .login username password
  | .logout => .logout cookie
  | .issueKey name =>
    guard console cookie atSeconds .credentialWrite fun principal =>
      if kMaxKeyNameLength < name.items.length then Phase.refused 400 "the name is too long"
      else .issuing principal.username name
  | .revokeKey accessKeyId =>
    guard console cookie atSeconds .credentialWrite fun principal =>
      if accessKeyId = [] then Phase.refused 400 "an access key id is required"
      else .revoke accessKeyId (principal.role.allows .userWrite) principal.username
  | .rotateKey accessKeyId =>
    guard console cookie atSeconds .credentialWrite fun principal =>
      if accessKeyId = [] then Phase.refused 400 "an access key id is required"
      else .rotate accessKeyId (principal.role.allows .userWrite) principal.username
  | .createUser username password role buckets =>
    guard console cookie atSeconds .userWrite fun _ =>
      if !isValidUsername username.items then
        Phase.refused 400
          "a username must be 1-64 characters of letters, digits, dot, underscore or hyphen, starting with a letter or digit"
      else if password.length < kMinimumLength then
        Phase.refused 400 "a password must be at least 12 characters"
      else
        match role with
        | none =>
          Phase.refused 400
            "a role is required and must be one of administrator, operator, readonly"
        | some role =>
          if role = .administrator ∧ ¬ buckets.unrestricted then
            Phase.refused 400 "an administrator\x27s bucket access cannot be narrowed"
          else .create username password role buckets
  | .patchUser username change =>
    guard console cookie atSeconds .userWrite fun _ =>
      if !isValidUsername username.items then
        Phase.refused 400
          "a username must be 1-64 characters of letters, digits, dot, underscore or hyphen, starting with a letter or digit"
      else if change = {} then Phase.refused 400 "nothing to change"
      else .patch username change
  | .deleteUser username =>
    guard console cookie atSeconds .userWrite fun principal =>
      if username.items = [] then Phase.refused 400 "a username is required"
      else if username = principal.username then
        Phase.refused 409 "an account cannot delete itself"
      else .delete username
  | .changePassword username currentPassword newPassword =>
    match console.sessions.resolveAt cookie atSeconds with
    | none => Phase.refused 401 "not signed in"
    | some principal =>
      let target := if username.items = [] then principal.username else username
      let self : Bool := target = principal.username
      if !self && !principal.role.allows .userWrite then Phase.forbidden .userWrite
      else if newPassword.length < kMinimumLength then
        Phase.refused 400 "a password must be at least 12 characters"
      else if self && currentPassword = [] then
        Phase.refused 400 "the current password is required"
      else .password target self currentPassword newPassword

end Gates

/-! ### The calls -/

section Calls

variable (scheme : PasswordScheme) (console : Shared) (moment : Moment)

/-- `POST /_mb/api/login`. One answer for every way it can fail. -/
def login (username : Text) (password : Bytes) : Phase :=
  let found := if isValidUsername username.items then getUser console.store.rows username.items
    else .ok none
  Phase.withRead found fun
    | none => Phase.refused 401 "invalid username or password"
    | some user =>
      if !scheme.verify password user.passwordHash.items || user.disabled then
        Phase.refused 401 "invalid username or password"
      else .opening username user none

/-- The key a revocation or a rotation is about, when the caller may have it. -/
def withKey (accessKeyId : Bytes) (any : Bool) (actor : Text) (next : AccessKeyRecord → Phase) :
    Phase :=
  Phase.withRead (getAccessKey console.store.rows accessKeyId) fun
    | none => Phase.refused 404 "no such access key"
    | some key =>
      if !any && key.owner ≠ actor then Phase.refused 404 "no such access key" else next key

/-- The rest of a PATCH's checks, once it is known whether the account is the
last enabled administrator. -/
def patchChecked (username : Text) (change : UserPatch) (user : UserRecord) (counted : Option Nat) :
    Phase :=
  let wasLastAdmin := counted.any (· ≤ 1)
  if wasLastAdmin && change.losesAdmin then
    Phase.refused 409 "this is the last enabled administrator"
  else if change.narrowsAdministrator user then
    Phase.refused 400 "an administrator\x27s bucket access cannot be narrowed"
  else if change.changes user then .patchWriting username change user counted
  else .done (.unchanged user)

/-- The record a POST stores. -/
def newUser (username : Text) (password : Bytes) (role : Role) (buckets : BucketGrants) :
    UserRecord where
  username := username.items
  passwordHash := scheme.hash moment.salt password
  role := role
  createdAt := moment.nowMs
  updatedAt := moment.nowMs
  passwordChangedAt := moment.nowMs
  buckets := buckets

/-- The access key a POST issues. -/
def newKey (owner name : Text) : AccessKeyRecord where
  accessKeyId := moment.accessKeyId
  secretKey := moment.secretKey
  name := name
  owner := owner
  createdAt := moment.nowMs

/-- The next call of a request: what it changes, and where the request is then. -/
def act : Phase → Option (Effect × Phase)
  | .idle | .done _ => none
  | .login username password => some (.nothing, login scheme console username password)
  | .opening username user ended =>
    let principal : Principal := ⟨username, user.role, user.buckets⟩
    some (.openSession principal moment.token moment.nowSeconds,
      .done <| match ended with
        | none => .signedIn principal moment.token
        | some ended => .passwordChanged username ended (some moment.token))
  | .logout token => some (.closeSession token, .done .signedOut)
  | .issuing owner name =>
    let key := newKey moment owner name
    some (.putAccessKey key, .done (.issued key))
  | .revoke accessKeyId any actor =>
    some (.nothing, withKey console accessKeyId any actor fun _ => .revoking accessKeyId)
  | .revoking accessKeyId =>
    some (.deleteAccessKey accessKeyId,
      if (deleteAccessKey console.store accessKeyId).2 then .done (.revoked accessKeyId)
      else Phase.refused 404 "no such access key")
  | .rotate accessKeyId any actor =>
    some (.nothing, withKey console accessKeyId any actor .rotating)
  | .rotating key =>
    let key := { key with secretKey := moment.secretKey, rotatedAt := moment.nowMs }
    some (.putAccessKey key, .done (.rotated key))
  | .create username password role buckets =>
    some (.nothing, Phase.withRead (getUser console.store.rows username.items) fun
      | some _ => Phase.refused 409 "that username is taken"
      | none => .creating username password role buckets)
  | .creating username password role buckets =>
    let user := newUser scheme moment username password role buckets
    some (.putUser user, .done (.created user))
  | .patch username change =>
    some (.nothing, Phase.withRead (getUser console.store.rows username.items) fun
      | none => Phase.refused 404 "no such user"
      | some user =>
        if user.enabledAdministrator then .patchCounting username change user
        else patchChecked username change user none)
  | .patchCounting username change user =>
    some (.nothing, Phase.withRead (countEnabledAdministrators console.store.rows) fun count =>
      patchChecked username change user (some count))
  | .patchWriting username change user _ =>
    let user := { change.applied user with updatedAt := moment.nowMs }
    some (.putUser user, .patchClosing username user)
  | .patchClosing username user =>
    some (.closeUser username.items,
      .done (.updated user (console.sessions.closedBy username.items)))
  | .delete username =>
    some (.nothing, Phase.withRead (getUser console.store.rows username.items) fun
      | none => Phase.refused 404 "no such user"
      | some user =>
        if user.enabledAdministrator then .deleteCounting username user
        else .deleteListing username user none)
  | .deleteCounting username user =>
    some (.nothing, Phase.withRead (countEnabledAdministrators console.store.rows) fun count =>
      if count ≤ 1 then Phase.refused 409 "this is the last enabled administrator"
      else .deleteListing username user (some count))
  | .deleteListing username user counted =>
    some (.nothing, Phase.withRead (listAccessKeys console.store.rows) fun keys =>
      .deleteKeys username user counted (keys.filter fun key => key.owner = username) 0)
  | .deleteKeys username user counted (key :: remaining) revoked =>
    let deleted := (deleteAccessKey console.store key.accessKeyId).2
    some (.deleteAccessKey key.accessKeyId,
      .deleteKeys username user counted remaining (if deleted then revoked + 1 else revoked))
  | .deleteKeys username _ _ [] revoked =>
    some (.deleteUser username.items, .deleteClosing username revoked)
  | .deleteClosing username revoked =>
    some (.closeUser username.items,
      .done (.deleted username revoked (console.sessions.closedBy username.items)))
  | .password target self current next =>
    some (.nothing, Phase.withRead (getUser console.store.rows target.items) fun
      | none => Phase.refused 404 "no such user"
      | some user =>
        if self && !scheme.verify current user.passwordHash.items then
          Phase.refused 401 "the current password is wrong"
        else .passwordWriting target self next user)
  | .passwordWriting target self next user =>
    let user :=
      { user with
        passwordHash := scheme.hash moment.salt next
        updatedAt := moment.nowMs
        passwordChangedAt := moment.nowMs }
    some (.putUser user, .passwordClosing target self user)
  | .passwordClosing target self user =>
    let ended := console.sessions.closedBy target.items
    some (.closeUser target.items,
      if self then .opening target user (some ended)
      else .done (.passwordChanged target ended none))

end Calls

/-! ### Requests side by side -/

/-- A request arrives, or one that is under way makes its next call. -/
inductive Label (ι : Type)
  | start (who : ι) (request : Request) (cookie : Bytes) (atSeconds : Int64)
  | call (who : ι) (moment : Moment)

abbrev State (ι : Type) := Pool ι Shared Phase

section Step

variable {ι : Type} [DecidableEq ι] (scheme : PasswordScheme)

def step (state : State ι) : Label ι → Option (State ι)
  | .start who request cookie atSeconds =>
    match state.calls who with
    | .idle => some (state.move who state.shared (arrive state.shared cookie atSeconds request))
    | _ => none
  | .call who moment =>
    (act scheme state.shared moment (state.calls who)).map fun next =>
      state.move who (next.1.apply state.shared) next.2

/-- No request has arrived yet. -/
def Fresh (state : State ι) : Prop := ∀ who, state.calls who = .idle

end Step

/-! ### A small console -/

section Small

def short (text : String) : Text :=
  ⟨(ascii text).take 64, lt_of_le_of_lt (List.length_take_le ..) (by norm_num)⟩

/-- A verifier that spells the password out. -/
def plainScheme : PasswordScheme where
  hash _ password := ⟨password.take 64, lt_of_le_of_lt (List.length_take_le ..) (by norm_num)⟩
  verify password stored := stored = password.take 64

def account (name : String) (role : Role) : UserRecord where
  username := ascii name
  passwordHash := short "correct horse battery"
  role := role

/-- Two administrators, both signed in. -/
def twoAdministrators : Shared where
  store := putUser (putUser {} (account "alice" .administrator)) (account "bob" .administrator)
  sessions :=
    (SessionStore.openAt {} (ascii "a1") ⟨short "alice", .administrator, {}⟩ 0).openAt
      (ascii "b1") ⟨short "bob", .administrator, {}⟩ 0

/-- Two requests that have not arrived yet. -/
def before (shared : Shared) : State Bool := ⟨shared, fun _ => .idle⟩

end Small

end MonoBucket.Console
