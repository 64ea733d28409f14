/-
The accounts a start finds or makes

A data directory of the previous layout has one administrator record and access
keys without owners. A start makes the record an account, gives it the keys one
by one and drops the record, each a write of its own; the account is also what
tells the next start that there is nothing left to migrate.
-/

import MonoBucket.Core.Identity
import MonoBucket.Lib.Writing
import MonoBucket.Storage.BlobRows
import MonoBucket.Storage.IdentityRows
import MonoBucket.Storage.Written

namespace MonoBucket

/-! ### The code -/

/-- The writes of the identity code, each a durable write of one row. -/
inductive IdentityWrite
  | putUser (user : UserRecord)
  | putAccessKey (key : AccessKeyRecord)
  | deleteAdmin
  deriving DecidableEq

namespace IdentityWrite

def apply (store : MetadataStore) : IdentityWrite → MetadataStore
  | putUser user => MonoBucket.putUser store user
  | putAccessKey key => MonoBucket.putAccessKey store key
  | deleteAdmin => MonoBucket.deleteAdmin store

instance : Writes IdentityWrite MetadataStore := ⟨apply⟩

end IdentityWrite

/-- What keeps a server from starting here. -/
inductive StartError
  | storage (error : StoreError)
  | config (message : Bytes)
  deriving DecidableEq

abbrev Startup := Writing MetadataStore IdentityWrite StartError

/-- A read of the store; what it throws ends the start. -/
def Startup.look {α : Type} (read : Rows → Except StoreError α) : Startup α :=
  Writing.read fun store => (read store.rows).mapError .storage

open Codec Startup Writing

def adoptOwnerlessAccessKeys (owner : Text) : Startup Unit := do
  let keys ← look listAccessKeys
  keys.forM fun key =>
    if key.owner.items = [] then write (.putAccessKey { key with owner := owner }) else pure ()

/-- The account the administrator record becomes. -/
def AdminRecord.migrated (legacy : AdminRecord) (nowMs : TimestampMs) : UserRecord where
  username := legacy.username.items
  passwordHash := legacy.passwordHash
  role := .administrator
  createdAt := legacy.createdAt
  updatedAt := nowMs
  passwordChangedAt := legacy.updatedAt

def migrateLegacyIdentities (nowMs : TimestampMs) : Startup Unit := do
  match ← look getAdmin with
  | none => pure ()
  | some legacy =>
    if (← look listUsers).isEmpty then
      write (.putUser (legacy.migrated nowMs))
      adoptOwnerlessAccessKeys legacy.username
    write .deleteAdmin

/-- What the start reads of the configuration. -/
structure IdentityConfig where
  consoleEnabled : Bool := true
  adminUsername : Text := .empty
  adminPassword : Bytes := []

/-- `password::kMinimumLength`. -/
def passwordMinimumLength : Nat := 12

def noAdministratorMessage : Bytes :=
  ascii "no enabled console administrator exists for this data directory. Set MONOBUCKET_ADMIN_PASSWORD_FILE (preferred) or MONOBUCKET_ADMIN_PASSWORD to at least " ++
    ascii (toString passwordMinimumLength) ++
    ascii " characters and start again; MONOBUCKET_ADMIN_USERNAME chooses the name and defaults to \x27admin\x27. Set MONOBUCKET_CONSOLE_ENABLED=false to run the S3 API without a console instead."

def adminUsernameMessage : Bytes :=
  ascii "MONOBUCKET_ADMIN_USERNAME must be 1-64 characters of letters, digits, dot, underscore or hyphen, starting with a letter or digit"

section Start

variable (hash : Bytes → Text)

/-- The account a password in the environment restores. -/
def provisioned (config : IdentityConfig) (existing : Option UserRecord) (nowMs : TimestampMs) :
    UserRecord where
  username := config.adminUsername.items
  passwordHash := hash config.adminPassword
  role := .administrator
  disabled := false
  createdAt := match existing with
    | some user => user.createdAt
    | none => nowMs
  updatedAt := nowMs
  passwordChangedAt := nowMs

def provisionAdministrator (config : IdentityConfig) (nowMs : TimestampMs) : Startup Unit :=
  if !config.consoleEnabled && config.adminPassword.isEmpty then pure ()
  else do
    migrateLegacyIdentities nowMs
    let administrators ← look countEnabledAdministrators
    if config.adminPassword.isEmpty then
      if administrators > 0 then
        -- only the log reads them
        let _ ← look listUsers
      else Writing.fail (.config noAdministratorMessage)
    else if !isValidUsername config.adminUsername.items then
      Writing.fail (.config adminUsernameMessage)
    else
      let existing ← look (getUser · config.adminUsername.items)
      write (.putUser (provisioned hash config existing nowMs))
      adoptOwnerlessAccessKeys config.adminUsername

end Start

/-! ### Which rows the writes touch -/

namespace IdentityWrite

/-- The row a write replaces. -/
def key : IdentityWrite → Bytes
  | putUser user => Keys.user user.username
  | putAccessKey key => Keys.accessKey key.accessKeyId
  | deleteAdmin => Keys.metaRow adminName

/-- What the row holds afterwards. -/
def value : IdentityWrite → Option Bytes
  | putUser user => some (encodeUser user)
  | putAccessKey key => some (encodeAccessKey key)
  | deleteAdmin => none

theorem find?_apply (store : MetadataStore) (change : IdentityWrite) (rowKey : Bytes) :
    (Writes.apply store change).rows.find? rowKey =
      if rowKey = change.key then change.value else store.rows.find? rowKey := by
  cases change with
  | putUser user => exact find?_putRow ..
  | putAccessKey key => exact find?_putRow ..
  | deleteAdmin => exact find?_deleteRow ..

end IdentityWrite

section Changes

variable {store other : MetadataStore} {changes : List IdentityWrite} {rowKey : Bytes}

theorem find?_applyAll_of_ne (h : ∀ change ∈ changes, rowKey ≠ change.key) :
    (applyAll store changes).rows.find? rowKey = store.rows.find? rowKey := by
  induction changes generalizing store with
  | nil => rfl
  | cons change rest ih =>
      show (applyAll (Writes.apply store change) rest).rows.find? rowKey = _
      rw [ih fun later hlater => h later (List.mem_cons_of_mem _ hlater), change.find?_apply,
        if_neg (h change (List.mem_cons_self ..))]

/-- The same writes keep a row the same. -/
theorem find?_applyAll_congr (h : store.rows.find? rowKey = other.rows.find? rowKey) :
    (applyAll store changes).rows.find? rowKey = (applyAll other changes).rows.find? rowKey := by
  induction changes generalizing store other with
  | nil => exact h
  | cons change rest ih =>
      refine ih ?_
      rw [change.find?_apply, change.find?_apply, h]

end Changes

theorem Keys.user_ne_metaRow (username name : Bytes) : Keys.user username ≠ Keys.metaRow name :=
  fun h => absurd (List.cons.inj h).1 (by decide)

theorem Keys.accessKey_ne_metaRow (accessKeyId name : Bytes) :
    Keys.accessKey accessKeyId ≠ Keys.metaRow name :=
  fun h => absurd (List.cons.inj h).1 (by decide)

section Listings

variable {first second : Rows} {store : MetadataStore} {user : UserRecord}

theorem listUsers_congr
    (h : ∀ username, first.find? (Keys.user username) = second.find? (Keys.user username)) :
    listUsers first = listUsers second := by
  rw [listUsers, listUsers, Rows.scan_congr]
  rintro _ ⟨username, rfl⟩
  exact h username

theorem listAccessKeys_congr
    (h : ∀ accessKeyId,
      first.find? (Keys.accessKey accessKeyId) = second.find? (Keys.accessKey accessKeyId)) :
    listAccessKeys first = listAccessKeys second := by
  rw [listAccessKeys, listAccessKeys, Rows.scan_congr]
  rintro _ ⟨accessKeyId, rfl⟩
  exact h accessKeyId

/-- The first account is the only one listed. -/
theorem listUsers_putUser (hnobody : listUsers store.rows = .ok []) (hstorable : user.Storable) :
    listUsers (putUser store user).rows = .ok [user] := by
  have hempty : store.rows.scan Keys.userPrefix = [] := by
    have hrows := forall₂_of_readAll hnobody
    cases hlisted : store.rows.scan Keys.userPrefix with
    | nil => rfl
    | cons row rest =>
        rw [hlisted] at hrows
        cases hrows
  have hmem : ∀ row ∈ (putUser store user).rows.scan Keys.userPrefix,
      row = (Keys.user user.username, encodeUser user) := by
    intro row hrow
    obtain ⟨hentry, hunder⟩ := Rows.mem_scan.mp hrow
    have hfind := (OrderedMap.find?_eq_some_iff _).mpr hentry
    rw [putUser, find?_putRow] at hfind
    split_ifs at hfind with hkey
    · exact Prod.ext hkey (Option.some.inj hfind).symm
    · have hold : row ∈ store.rows.scan Keys.userPrefix :=
        Rows.mem_scan.mpr ⟨(OrderedMap.find?_eq_some_iff _).mp hfind, hunder⟩
      rw [hempty] at hold
      cases hold
  have hthere : (Keys.user user.username, encodeUser user) ∈
      (putUser store user).rows.scan Keys.userPrefix := by
    refine Rows.mem_scan.mpr ⟨(OrderedMap.find?_eq_some_iff _).mp ?_, ⟨user.username, rfl⟩⟩
    exact (find?_putRow ..).trans (if_pos rfl)
  have hordered : ((putUser store user).rows.scan Keys.userPrefix).Pairwise fun first second =>
      first.1 < second.1 := by
    rw [Rows.scan_eq_filter]
    exact (putUser store user).rows.ordered.filter _
  have hone : (putUser store user).rows.scan Keys.userPrefix =
      [(Keys.user user.username, encodeUser user)] := by
    generalize (putUser store user).rows.scan Keys.userPrefix = listed at hmem hthere hordered
    cases listed with
    | nil => cases hthere
    | cons row rest =>
        cases rest with
        | nil => rw [hmem row (List.mem_cons_self ..)]
        | cons other rest =>
            have hlt := (List.pairwise_cons.mp hordered).1 other (List.mem_cons_self ..)
            rw [hmem row (List.mem_cons_self ..), hmem other (by simp)] at hlt
            exact absurd hlt (lt_irrefl _)
  have hdecode : decodeUser user.username (encodeUser user) = .ok user :=
    decodeUser_encodeUser hstorable
  rw [listUsers, hone]
  simp [readAll, behind, Keys.user, Keys.tagged, Keys.userPrefix, hdecode, Except.map, decoded]
  rfl

end Listings

/-! ### What a start writes -/

/-- An administrator record, no accounts, and access keys nobody owns. -/
structure PreviousLayout (rows : Rows) (legacy : AdminRecord) (keys : List AccessKeyRecord) :
    Prop where
  record : getAdmin rows = .ok (some legacy)
  nobody : listUsers rows = .ok []
  listed : listAccessKeys rows = .ok keys
  ownerless : ∀ key ∈ keys, key.owner.items = []

/-- There are accounts, an enabled administrator among them. -/
structure Provisioned (rows : Rows) (users : List UserRecord) (record : Option AdminRecord) :
    Prop where
  accounts : listUsers rows = .ok users
  administrator : ∃ user ∈ users, user.enabledAdministrator
  leftover : getAdmin rows = .ok record

/-- The keys the account takes over. -/
def adoptions (legacy : AdminRecord) (keys : List AccessKeyRecord) : List IdentityWrite :=
  keys.map fun key => .putAccessKey { key with owner := legacy.username }

/-- The writes of a start on the previous layout. -/
def migration (legacy : AdminRecord) (keys : List AccessKeyRecord) (nowMs : TimestampMs) :
    List IdentityWrite :=
  .putUser (legacy.migrated nowMs) :: (adoptions legacy keys ++ [.deleteAdmin])

section Run

variable {hash : Bytes → Text} {config : IdentityConfig} {store : MetadataStore}
  {legacy : AdminRecord} {keys : List AccessKeyRecord} {users : List UserRecord}
  {record : Option AdminRecord}

theorem look_bind_run {α β : Type} {read : Rows → Except StoreError α} {next : α → Startup β}
    {value : α} (h : read store.rows = .ok value) : (look read >>= next) store = next value store := by
  refine read_bind_run ?_
  show (read store.rows).mapError StartError.storage = .ok value
  rw [h]
  rfl

theorem storable_migrated (nowMs : TimestampMs) : (legacy.migrated nowMs).Storable :=
  storable_of_unrestricted rfl

theorem key_of_mem_adoptions {change : IdentityWrite} (h : change ∈ adoptions legacy keys) :
    ∃ key ∈ keys, change.key = Keys.accessKey key.accessKeyId := by
  obtain ⟨key, hkey, rfl⟩ := List.mem_map.mp h
  exact ⟨key, hkey, rfl⟩

theorem adoptOwnerlessAccessKeys_run (hlisted : listAccessKeys store.rows = .ok keys)
    (hownerless : ∀ key ∈ keys, key.owner.items = []) :
    adoptOwnerlessAccessKeys legacy.username store = (adoptions legacy keys, .ok ()) := by
  rw [adoptOwnerlessAccessKeys, look_bind_run hlisted]
  exact forM_run (fun key hkey => if_pos (hownerless key hkey)) store

theorem migrateLegacyIdentities_run (h : PreviousLayout store.rows legacy keys)
    (nowMs : TimestampMs) :
    migrateLegacyIdentities nowMs store = (migration legacy keys nowMs, .ok ()) := by
  have hlisted : listAccessKeys (putUser store (legacy.migrated nowMs)).rows = .ok keys := by
    rw [← h.listed]
    refine listAccessKeys_congr fun accessKeyId => ?_
    exact (find?_putRow ..).trans (if_neg (Keys.user_ne_accessKey _ _).symm)
  have hadopt : adoptOwnerlessAccessKeys legacy.username (putUser store (legacy.migrated nowMs)) =
      (adoptions legacy keys, .ok ()) := adoptOwnerlessAccessKeys_run hlisted h.ownerless
  have hrest : (adoptOwnerlessAccessKeys legacy.username >>= fun _ => write .deleteAdmin)
      (Writes.apply store (IdentityWrite.putUser (legacy.migrated nowMs))) =
        (adoptions legacy keys ++ [.deleteAdmin], .ok ()) := bind_run hadopt
  rw [migrateLegacyIdentities, look_bind_run h.record]
  show (look listUsers >>= _) store = _
  rw [look_bind_run h.nobody]
  show (write (IdentityWrite.putUser (legacy.migrated nowMs)) >>= fun _ =>
    adoptOwnerlessAccessKeys legacy.username >>= fun _ => write .deleteAdmin) store = _
  rw [write_bind_run, hrest]
  rfl

/-- With accounts there, all that is left to do is to drop the record. -/
theorem migrateLegacyIdentities_provisioned (h : Provisioned store.rows users record)
    (nowMs : TimestampMs) :
    migrateLegacyIdentities nowMs store =
      (if record.isSome then [.deleteAdmin] else [], .ok ()) := by
  rw [migrateLegacyIdentities, look_bind_run h.leftover]
  cases record with
  | none => rfl
  | some legacy =>
      obtain ⟨user, huser, -⟩ := h.administrator
      have hsome : users.isEmpty = false := by
        cases users with
        | nil => cases huser
        | cons first rest => rfl
      show (look listUsers >>= _) store = _
      rw [look_bind_run h.accounts, hsome]
      rfl

/-- A start without a password is the migration, when that leaves an administrator. -/
theorem provisionAdministrator_run {writes : List IdentityWrite} {nowMs : TimestampMs}
    (hconsole : config.consoleEnabled) (hpassword : config.adminPassword = [])
    (hmigrate : migrateLegacyIdentities nowMs store = (writes, .ok ()))
    (haccounts : listUsers (applyAll store writes).rows = .ok users)
    (hadministrator : ∃ user ∈ users, user.enabledAdministrator) :
    provisionAdministrator hash config nowMs store = (writes, .ok ()) := by
  have hcount : countEnabledAdministrators (applyAll store writes).rows =
      .ok (users.countP UserRecord.enabledAdministrator) := by
    rw [countEnabledAdministrators, haccounts]
    rfl
  have hpos : users.countP UserRecord.enabledAdministrator > 0 := List.countP_pos_iff.mpr hadministrator
  rw [provisionAdministrator, hconsole, hpassword]
  show (migrateLegacyIdentities nowMs >>= fun _ => look countEnabledAdministrators >>= _) store = _
  rw [bind_run hmigrate, look_bind_run hcount]
  show (writes ++ ((if _ > 0 then _ else _ : Startup Unit) _).1,
    ((if _ > 0 then _ else _ : Startup Unit) _).2) = _
  rw [if_pos hpos, look_bind_run haccounts, pure_run, List.append_nil]

end Run

/-! ### Dying on the way -/

section Interruptions

variable {store : MetadataStore} {legacy : AdminRecord} {keys : List AccessKeyRecord}
  {users : List UserRecord} {record : Option AdminRecord} {hash : Bytes → Text}
  {config : IdentityConfig}

/-- Starts that die, one after another, each after so many of its writes. -/
def interruptions (start : TimestampMs → Startup Unit) (store : MetadataStore)
    (crashes : List (TimestampMs × Nat)) : MetadataStore :=
  crashes.foldl (fun store crash => interrupted (start crash.1) store crash.2) store

/-- The store without its administrator record. -/
def dropped (store : MetadataStore) (record : Option AdminRecord) : MetadataStore :=
  applyAll store (if record.isSome then [IdentityWrite.deleteAdmin] else [])

theorem Provisioned.dropped (h : Provisioned store.rows users record) :
    Provisioned (dropped store record).rows users none := by
  cases record with
  | none => exact h
  | some legacy =>
      refine ⟨?_, h.administrator, ?_⟩
      · rw [← h.accounts]
        refine listUsers_congr fun username => ?_
        exact (find?_deleteRow ..).trans (if_neg (Keys.user_ne_metaRow _ _))
      · show readRow (deleteAdmin store).rows (Keys.metaRow adminName) decodeAdmin = _
        rw [readRow, deleteAdmin, find?_deleteRow, if_pos rfl]

theorem start_provisioned (h : Provisioned store.rows users record)
    (hconsole : config.consoleEnabled) (hpassword : config.adminPassword = [])
    (nowMs : TimestampMs) :
    provisionAdministrator hash config nowMs store =
      (if record.isSome then [.deleteAdmin] else [], .ok ()) :=
  provisionAdministrator_run hconsole hpassword (migrateLegacyIdentities_provisioned h nowMs)
    h.dropped.accounts h.administrator

/-- Once there are accounts a start drops the record, whatever became of the
starts before it. -/
theorem interruptions_provisioned (h : Provisioned store.rows users record)
    (hconsole : config.consoleEnabled) (hpassword : config.adminPassword = [])
    (crashes : List (TimestampMs × Nat)) :
    interruptions (provisionAdministrator hash config) store crashes = store ∨
      interruptions (provisionAdministrator hash config) store crashes = dropped store record := by
  induction crashes generalizing store record with
  | nil => exact Or.inl rfl
  | cons crash rest ih =>
      have hrun : provisionAdministrator hash config crash.1 store = (_, .ok ()) :=
        start_provisioned h hconsole hpassword crash.1
      have hfinished : finished (provisionAdministrator hash config crash.1) store =
          dropped store record := by rw [finished, hrun, MonoBucket.dropped]
      have hshort : (provisionAdministrator hash config crash.1 store).1.length ≤ 1 := by
        rw [hrun]
        cases record <;> simp
      show interruptions _ (interrupted _ store crash.2) rest = store ∨
        interruptions _ (interrupted _ store crash.2) rest = _
      rcases interrupted_eq_or hshort crash.2 with hsame | hdone
      · rw [hsame]
        exact ih h
      · rw [hdone, hfinished]
        rcases ih h.dropped with hkept | hagain
        · exact Or.inr hkept
        · exact Or.inr hagain

theorem finished_interruptions (h : Provisioned store.rows users record)
    (hconsole : config.consoleEnabled) (hpassword : config.adminPassword = [])
    (crashes : List (TimestampMs × Nat)) (nowMs : TimestampMs) :
    finished (provisionAdministrator hash config nowMs)
        (interruptions (provisionAdministrator hash config) store crashes) = dropped store record ∧
      (provisionAdministrator hash config nowMs
        (interruptions (provisionAdministrator hash config) store crashes)).2 = .ok () := by
  rcases interruptions_provisioned h hconsole hpassword crashes with hsame | hdone
  · rw [hsame, finished, start_provisioned h hconsole hpassword]
    exact ⟨rfl, rfl⟩
  · rw [hdone, finished, start_provisioned h.dropped hconsole hpassword]
    exact ⟨rfl, rfl⟩

/-- The migration interrupted in its first writes, and the record dropped: what is
left once a start has found the account. -/
def migratedPart (store : MetadataStore) (legacy : AdminRecord) (keys : List AccessKeyRecord)
    (nowMs : TimestampMs) (adopted : Nat) : MetadataStore :=
  dropped (applyAll store ((migration legacy keys nowMs).take (adopted + 1)))
    (if adopted ≤ keys.length then some legacy else none)

theorem take_migration (nowMs : TimestampMs) (adopted : Nat) :
    (migration legacy keys nowMs).take (adopted + 1) =
      .putUser (legacy.migrated nowMs) ::
        (adoptions legacy (keys.take adopted) ++ [.deleteAdmin].take (adopted - keys.length)) := by
  rw [migration, List.take_succ_cons, List.take_append, adoptions, adoptions, List.map_take,
    List.length_map]

theorem user_ne_of_mem_adoptions {change : IdentityWrite} {username : Bytes}
    (h : change ∈ adoptions legacy keys) : Keys.user username ≠ change.key := by
  obtain ⟨key, -, hkey⟩ := key_of_mem_adoptions h
  rw [hkey]
  exact Keys.user_ne_accessKey _ _

theorem provisioned_take_migration (h : PreviousLayout store.rows legacy keys)
    (nowMs : TimestampMs) (adopted : Nat) :
    Provisioned (applyAll store ((migration legacy keys nowMs).take (adopted + 1))).rows
      [legacy.migrated nowMs] (if adopted ≤ keys.length then some legacy else none) := by
  rw [take_migration]
  refine ⟨?_, ⟨_, List.mem_cons_self .., rfl⟩, ?_⟩
  · rw [← listUsers_putUser h.nobody (storable_migrated nowMs)]
    refine listUsers_congr fun username => ?_
    show (applyAll (putUser store (legacy.migrated nowMs)) _).rows.find? _ = _
    refine find?_applyAll_of_ne fun change hchange => ?_
    rcases List.mem_append.mp hchange with hadopt | hdrop
    · exact user_ne_of_mem_adoptions hadopt
    · obtain rfl := List.mem_singleton.mp (List.mem_of_mem_take hdrop)
      exact Keys.user_ne_metaRow _ _
  · have hkept : getAdmin (applyAll store (.putUser (legacy.migrated nowMs) ::
        adoptions legacy (keys.take adopted))).rows = .ok (some legacy) := by
      rw [← h.record]
      refine readRow_congr (find?_applyAll_of_ne fun change hchange => ?_)
      rcases List.mem_cons.mp hchange with rfl | hadopt
      · exact (Keys.user_ne_metaRow _ _).symm
      · obtain ⟨key, -, hkey⟩ := key_of_mem_adoptions hadopt
        rw [hkey]
        exact (Keys.accessKey_ne_metaRow _ _).symm
    rw [← List.cons_append, applyAll_append]
    split_ifs with hfew
    · rw [Nat.sub_eq_zero_of_le hfew]
      exact hkept
    · have hmore : [IdentityWrite.deleteAdmin].take (adopted - keys.length) = [.deleteAdmin] :=
        List.take_of_length_le (by simp; omega)
      rw [hmore]
      have hgone : ∀ left : MetadataStore, getAdmin (deleteAdmin left).rows = .ok none := by
        intro left
        rw [getAdmin, readRow, deleteAdmin, find?_deleteRow, if_pos rfl]
      exact hgone _

/-- With every key adopted nothing of the migration is missing. -/
theorem migratedPart_of_le {nowMs : TimestampMs} {adopted : Nat} (h : keys.length ≤ adopted) :
    migratedPart store legacy keys nowMs adopted =
      applyAll store (migration legacy keys nowMs) := by
  rw [migratedPart, take_migration, List.take_of_length_le h, migration]
  rcases Nat.eq_or_lt_of_le h with heq | hlt
  · rw [← heq, if_pos le_rfl, Nat.sub_self, List.take_zero, List.append_nil, ← List.cons_append,
      applyAll_append]
    rfl
  · have hmore : [IdentityWrite.deleteAdmin].take (adopted - keys.length) = [.deleteAdmin] :=
      List.take_of_length_le (by simp; omega)
    rw [if_neg (by omega), hmore]
    rfl

/-- The first interrupted start that writes anything gets through all of this many keys. -/
def AdoptsAll (count : Nat) (crashes : List (TimestampMs × Nat)) : Prop :=
  ∀ crash ∈ crashes.find? (fun crash => crash.2 ≠ 0), count < crash.2

instance (count : Nat) (crashes : List (TimestampMs × Nat)) : Decidable (AdoptsAll count crashes) :=
  inferInstanceAs
    (Decidable (∀ crash ∈ crashes.find? (fun crash => crash.2 ≠ 0), count < crash.2))

theorem start_previousLayout (h : PreviousLayout store.rows legacy keys)
    (hconsole : config.consoleEnabled) (hpassword : config.adminPassword = [])
    (nowMs : TimestampMs) :
    provisionAdministrator hash config nowMs store = (migration legacy keys nowMs, .ok ()) := by
  have hwhole := provisioned_take_migration h nowMs (keys.length + 1)
  rw [take_migration, List.take_of_length_le (Nat.le_succ _), Nat.add_sub_cancel_left] at hwhole
  exact provisionAdministrator_run hconsole hpassword (migrateLegacyIdentities_run h nowMs)
    hwhole.accounts hwhole.administrator

theorem interruptions_unwritten {crashes : List (TimestampMs × Nat)}
    (h : ∀ crash ∈ crashes, crash.2 = 0) (start : TimestampMs → Startup Unit) :
    interruptions start store crashes = store := by
  induction crashes with
  | nil => rfl
  | cons crash rest ih =>
      show interruptions start (interrupted (start crash.1) store crash.2) rest = store
      rw [h crash (List.mem_cons_self ..), interrupted_zero]
      exact ih fun later hlater => h later (List.mem_cons_of_mem _ hlater)

/-- However the starts before it died, a start that completes leaves some part of
the migration; all of it just when no start died between the account and the
last key. -/
theorem finished_previousLayout (hash : Bytes → Text) (h : PreviousLayout store.rows legacy keys)
    (hconsole : config.consoleEnabled) (hpassword : config.adminPassword = [])
    (crashes : List (TimestampMs × Nat)) (nowMs : TimestampMs) :
    ∃ migratedAt adopted,
      finished (provisionAdministrator hash config nowMs)
          (interruptions (provisionAdministrator hash config) store crashes) =
        migratedPart store legacy keys migratedAt adopted ∧
      (provisionAdministrator hash config nowMs
        (interruptions (provisionAdministrator hash config) store crashes)).2 = .ok () ∧
      (AdoptsAll keys.length crashes ↔ keys.length ≤ adopted) := by
  cases hfirst : crashes.find? fun crash => crash.2 ≠ 0 with
  | none =>
      have hidle : ∀ crash ∈ crashes, crash.2 = 0 := by simpa using hfirst
      refine ⟨nowMs, keys.length, ?_, ?_, ?_⟩
      · rw [interruptions_unwritten hidle, finished, start_previousLayout h hconsole hpassword,
          migratedPart_of_le le_rfl]
      · rw [interruptions_unwritten hidle, start_previousLayout h hconsole hpassword]
      · rw [AdoptsAll, hfirst]
        simp
  | some crash =>
      obtain ⟨hwrites, before, after, rfl, hidle⟩ := List.find?_eq_some_iff_append.mp hfirst
      obtain ⟨migratedAt, cut⟩ := crash
      obtain ⟨adopted, rfl⟩ : ∃ adopted, cut = adopted + 1 :=
        Nat.exists_eq_succ_of_ne_zero (by simpa using hwrites)
      have hthere : interruptions (provisionAdministrator hash config) store
          (before ++ (migratedAt, adopted + 1) :: after) =
            interruptions (provisionAdministrator hash config)
              (applyAll store ((migration legacy keys migratedAt).take (adopted + 1))) after := by
        have hbefore : interruptions (provisionAdministrator hash config) store before = store :=
          interruptions_unwritten (by simpa using hidle) _
        rw [interruptions, List.foldl_append]
        show interruptions _ (interrupted _ (interruptions _ store before) _) after = _
        rw [hbefore, interrupted, start_previousLayout h hconsole hpassword]
      have hpart := provisioned_take_migration h migratedAt adopted
      refine ⟨migratedAt, adopted, ?_, ?_, ?_⟩
      · rw [hthere]
        exact (finished_interruptions hpart hconsole hpassword after nowMs).1
      · rw [hthere]
        exact (finished_interruptions hpart hconsole hpassword after nowMs).2
      · rw [AdoptsAll, hfirst]
        simp

/-- Adopting some keys replaces their rows and no other key's. -/
theorem find?_adoptions {taken : List AccessKeyRecord} (accessKeyId : Bytes) :
    (∃ key ∈ taken, key.accessKeyId = accessKeyId ∧
      (applyAll store (adoptions legacy taken)).rows.find? (Keys.accessKey accessKeyId) =
        some (encodeAccessKey { key with owner := legacy.username })) ∨
    ((∀ key ∈ taken, key.accessKeyId ≠ accessKeyId) ∧
      (applyAll store (adoptions legacy taken)).rows.find? (Keys.accessKey accessKeyId) =
        store.rows.find? (Keys.accessKey accessKeyId)) := by
  induction taken generalizing store with
  | nil => exact Or.inr ⟨by simp, rfl⟩
  | cons key rest ih =>
      rcases @ih (putAccessKey store { key with owner := legacy.username }) with hlater | hkept
      · obtain ⟨later, hlater, hid, hfind⟩ := hlater
        exact Or.inl ⟨later, List.mem_cons_of_mem _ hlater, hid, hfind⟩
      · obtain ⟨hothers, hfind⟩ := hkept
        by_cases hid : key.accessKeyId = accessKeyId
        · refine Or.inl ⟨key, List.mem_cons_self .., hid, hfind.trans ?_⟩
          exact (find?_putRow ..).trans (if_pos (congrArg Keys.accessKey hid.symm))
        · refine Or.inr ⟨List.forall_mem_cons.mpr ⟨hid, hothers⟩, hfind.trans ?_⟩
          exact (find?_putRow ..).trans (if_neg fun hsame => hid (Keys.accessKey_inj.mp hsame).symm)

/-- The other writes leave the keys alone. -/
theorem find?_accessKey_migratedPart (nowMs : TimestampMs) (adopted : Nat) (accessKeyId : Bytes) :
    (migratedPart store legacy keys nowMs adopted).rows.find? (Keys.accessKey accessKeyId) =
      (applyAll store (adoptions legacy (keys.take adopted))).rows.find?
        (Keys.accessKey accessKeyId) := by
  have hdrop : ∀ (left : MetadataStore) (changes : List IdentityWrite),
      (∀ change ∈ changes, change = .deleteAdmin) →
      (applyAll left changes).rows.find? (Keys.accessKey accessKeyId) =
        left.rows.find? (Keys.accessKey accessKeyId) := by
    intro left changes hall
    refine find?_applyAll_of_ne fun change hchange => ?_
    rw [hall change hchange]
    exact Keys.accessKey_ne_metaRow _ _
  rw [migratedPart, dropped, hdrop, take_migration, ← List.cons_append, applyAll_append, hdrop]
  · show (applyAll (putUser store _) _).rows.find? _ = _
    refine find?_applyAll_congr ?_
    exact (find?_putRow ..).trans (if_neg (Keys.user_ne_accessKey _ _).symm)
  · intro change hchange
    exact List.mem_singleton.mp (List.mem_of_mem_take hchange)
  · have hrecord : ∀ record : Option AdminRecord, ∀ change : IdentityWrite,
        change ∈ (if record.isSome then [IdentityWrite.deleteAdmin] else []) →
          change = .deleteAdmin := by
      intro record change
      cases record <;> simp
    exact hrecord _

/-- The keys are listed whatever part of them was adopted. -/
theorem listAccessKeys_migratedPart (h : PreviousLayout store.rows legacy keys)
    (nowMs : TimestampMs) (adopted : Nat) :
    (listAccessKeys (migratedPart store legacy keys nowMs adopted).rows).Returns := by
  refine readAll_returns fun row hrow => ?_
  obtain ⟨hentry, accessKeyId, hid⟩ := Rows.mem_scan.mp hrow
  have hid : row.1 = Keys.accessKey accessKeyId := hid.symm
  have hfind := (OrderedMap.find?_eq_some_iff _).mpr hentry
  rw [hid, find?_accessKey_migratedPart] at hfind
  rcases find?_adoptions accessKeyId with ⟨key, -, hkey, hadopted⟩ | ⟨-, hkept⟩
  · have hdecode : (decodeAccessKey accessKeyId row.2).Returns := by
      rw [hadopted] at hfind
      rw [← Option.some.inj hfind, ← hkey]
      exact ⟨_, decodeAccessKey_encodeAccessKey { key with owner := legacy.username }⟩
    show (behind Keys.accessKeyPrefix decodeAccessKey row.1 row.2).Returns
    rw [hid]
    exact hdecode.map some
  · rw [hkept] at hfind
    have hold : row ∈ store.rows.scan Keys.accessKeyPrefix := by
      refine Rows.mem_scan.mpr ⟨(OrderedMap.find?_eq_some_iff _).mp ?_, accessKeyId, hid.symm⟩
      rw [hid]
      exact hfind
    obtain ⟨found, hfound, -⟩ := readAll_decodes h.listed hold
    exact ⟨found, hfound⟩

/-! ### What is left in the end -/

/-- Every key has an owner, and the owner is an account. -/
def Owned (rows : Rows) : Prop :=
  ∃ users keys, listUsers rows = .ok users ∧ listAccessKeys rows = .ok keys ∧
    ∀ key ∈ keys, key.owner.items ≠ [] ∧ ∃ user ∈ users, user.username = key.owner.items

/-- A key read in the end is one that was there, adopted or as it was. -/
theorem accessKeyAt_migratedPart (h : PreviousLayout store.rows legacy keys)
    (nowMs : TimestampMs) (adopted : Nat) {key : AccessKeyRecord}
    (hkey : accessKeyAt (migratedPart store legacy keys nowMs adopted).rows key.accessKeyId =
      .ok (some key)) :
    (∃ original ∈ keys.take adopted, key = { original with owner := legacy.username }) ∨
      key ∈ keys ∧ ∀ other ∈ keys.take adopted, other.accessKeyId ≠ key.accessKeyId := by
  obtain ⟨stored, hfind, hdecode⟩ := decode_of_readRow hkey
  rw [find?_accessKey_migratedPart] at hfind
  rcases find?_adoptions key.accessKeyId with ⟨original, hmem, hid, hadopted⟩ | ⟨hothers, hkept⟩
  · refine Or.inl ⟨original, hmem, ?_⟩
    rw [hadopted] at hfind
    rw [← Option.some.inj hfind, ← hid,
      decodeAccessKey_encodeAccessKey { original with owner := legacy.username }] at hdecode
    exact (Except.ok.inj hdecode).symm
  · rw [hkept] at hfind
    exact Or.inr ⟨(mem_listAccessKeys h.listed).mpr (readRow_of_find? hfind hdecode), hothers⟩

/-- Whatever happens to a key on the way, it is still there. -/
theorem exists_of_mem_keys (h : PreviousLayout store.rows legacy keys) (nowMs : TimestampMs)
    (adopted : Nat) {key : AccessKeyRecord} (hkey : key ∈ keys) :
    ∃ found : AccessKeyRecord, found.accessKeyId = key.accessKeyId ∧
      accessKeyAt (migratedPart store legacy keys nowMs adopted).rows found.accessKeyId =
        .ok (some found) ∧
      ((found.owner = legacy.username ∧
          ∃ original ∈ keys.take adopted, original.accessKeyId = key.accessKeyId) ∨
        found = key) := by
  rcases find?_adoptions key.accessKeyId with ⟨original, hmem, hid, hadopted⟩ | ⟨-, hkept⟩
  · have hadopted : (migratedPart store legacy keys nowMs adopted).rows.find?
        (Keys.accessKey original.accessKeyId) = _ :=
      (find?_accessKey_migratedPart ..).trans (hid.symm ▸ hadopted)
    exact ⟨{ original with owner := legacy.username }, hid,
      readRow_of_find? hadopted (decodeAccessKey_encodeAccessKey _),
      Or.inl ⟨rfl, original, hmem, hid⟩⟩
  · refine ⟨key, rfl, ?_, Or.inr rfl⟩
    rw [← (mem_listAccessKeys h.listed).mp hkey]
    exact readRow_congr ((find?_accessKey_migratedPart ..).trans hkept)

/-- The key the migration stopped at has no owner, and no key has one that is nobody. -/
theorem owned_migratedPart_iff (h : PreviousLayout store.rows legacy keys) (nowMs : TimestampMs)
    (adopted : Nat) :
    Owned (migratedPart store legacy keys nowMs adopted).rows ↔
      keys = [] ∨ legacy.username.items ≠ [] ∧ keys.length ≤ adopted := by
  have hpart := (provisioned_take_migration h nowMs adopted).dropped.accounts
  obtain ⟨listed, hlisted⟩ := listAccessKeys_migratedPart h nowMs adopted
  constructor
  · rintro ⟨users, others, -, hothers, howned⟩
    obtain rfl := Except.ok.inj (hlisted.symm.trans hothers)
    have hfound : ∀ key ∈ keys, legacy.username.items ≠ [] ∧
        ∃ original ∈ keys.take adopted, original.accessKeyId = key.accessKeyId := by
      intro key hkey
      obtain ⟨found, -, hread, hcase⟩ := exists_of_mem_keys h nowMs adopted hkey
      obtain ⟨hsome, -⟩ := howned found ((mem_listAccessKeys hlisted).mpr hread)
      rcases hcase with ⟨howner, horiginal⟩ | rfl
      · rw [howner] at hsome
        exact ⟨hsome, horiginal⟩
      · exact absurd (h.ownerless found hkey) hsome
    refine or_iff_not_imp_left.mpr fun hkeys => ?_
    obtain ⟨first, hfirst⟩ := List.exists_mem_of_ne_nil keys hkeys
    refine ⟨(hfound first hfirst).1, ?_⟩
    by_contra hfew
    have hlt : adopted < keys.length := not_le.mp hfew
    -- the first key not taken has an id none of the taken has
    obtain ⟨-, original, horiginal, hid⟩ := hfound keys[adopted] (List.getElem_mem hlt)
    have hids := pairwise_names (fun _ _ _ => accessKeyId_of_decodeAccessKey) h.listed
    rw [← List.take_append_drop adopted keys, List.pairwise_append] at hids
    refine hids.2.2 original horiginal keys[adopted] ?_ hid
    rw [List.drop_eq_getElem_cons hlt]
    exact List.mem_cons_self ..
  · intro hcase
    refine ⟨_, listed, hpart, hlisted, fun key hkey => ?_⟩
    have hread := (mem_listAccessKeys hlisted).mp hkey
    rcases accessKeyAt_migratedPart h nowMs adopted hread with hadopted | ⟨hkept, hothers⟩
    · obtain ⟨original, horiginal, rfl⟩ := hadopted
      rcases hcase with rfl | ⟨hname, -⟩
      · cases List.mem_of_mem_take horiginal
      · exact ⟨hname, _, List.mem_cons_self .., rfl⟩
    · rcases hcase with rfl | ⟨-, hall⟩
      · cases hkept
      · rw [List.take_of_length_le hall] at hothers
        exact absurd rfl (hothers key hkept)

/-- The accounts, the keys and the administrator record, but for when an account
was last written. -/
def identities (rows : Rows) :
    Except StoreError (List UserRecord × List AccessKeyRecord × Option AdminRecord) := do
  let users ← listUsers rows
  let keys ← listAccessKeys rows
  let record ← getAdmin rows
  pure (users.map fun user => { user with updatedAt := 0 }, keys, record)

/-- The time of a whole migration is all that depends on when it ran. -/
theorem identities_migration (h : PreviousLayout store.rows legacy keys) (first second : TimestampMs) :
    identities (applyAll store (migration legacy keys first)).rows =
      identities (applyAll store (migration legacy keys second)).rows := by
  have hparts : ∀ nowMs : TimestampMs,
      listUsers (applyAll store (migration legacy keys nowMs)).rows = .ok [legacy.migrated nowMs] ∧
        getAdmin (applyAll store (migration legacy keys nowMs)).rows = .ok none := by
    intro nowMs
    have hpart := (provisioned_take_migration h nowMs keys.length).dropped
    rw [← migratedPart, migratedPart_of_le le_rfl] at hpart
    exact ⟨hpart.accounts, hpart.leftover⟩
  have hkeys : listAccessKeys (applyAll store (migration legacy keys first)).rows =
      listAccessKeys (applyAll store (migration legacy keys second)).rows := by
    refine listAccessKeys_congr fun accessKeyId => ?_
    show (applyAll (putUser store _) _).rows.find? _ = (applyAll (putUser store _) _).rows.find? _
    refine find?_applyAll_congr ?_
    have hkept : ∀ user, (putUser store user).rows.find? (Keys.accessKey accessKeyId) =
        store.rows.find? (Keys.accessKey accessKeyId) := fun user =>
      (find?_putRow ..).trans (if_neg (Keys.user_ne_accessKey _ _).symm)
    rw [hkept, hkept]
  rw [identities, identities, (hparts first).1, (hparts second).1, (hparts first).2,
    (hparts second).2, hkeys]
  rfl

/-- A start that completes after these deaths leaves what an uninterrupted one
leaves: the same accounts, keys and record, every key owned by an account, and
nothing for a further start to do. -/
structure Recovered (start : TimestampMs → Startup Unit) (store : MetadataStore)
    (crashes : List (TimestampMs × Nat)) (nowMs : TimestampMs) : Prop where
  completes : (start nowMs (interruptions start store crashes)).2 = .ok ()
  same : ∀ uninterrupted,
    identities (finished (start nowMs) (interruptions start store crashes)).rows =
      identities (finished (start uninterrupted) store).rows
  owned : Owned (finished (start nowMs) (interruptions start store crashes)).rows
  settled : ∀ later,
    start later (finished (start nowMs) (interruptions start store crashes)) = ([], .ok ())

/-- The migration can be re-run exactly when there is no key to adopt, or the
first start that got as far as writing the account got through all the keys. -/
theorem recovered_iff_adoptsAll (h : PreviousLayout store.rows legacy keys)
    (hconsole : config.consoleEnabled) (hpassword : config.adminPassword = [])
    (crashes : List (TimestampMs × Nat)) (nowMs : TimestampMs) :
    Recovered (provisionAdministrator hash config) store crashes nowMs ↔
      keys = [] ∨ legacy.username.items ≠ [] ∧ AdoptsAll keys.length crashes := by
  obtain ⟨migratedAt, adopted, hfinal, hcompletes, hadopts⟩ :=
    finished_previousLayout hash h hconsole hpassword crashes nowMs
  constructor
  · intro hrecovered
    have howned := hrecovered.owned
    rwa [hfinal, owned_migratedPart_iff h, ← hadopts] at howned
  · intro hcase
    rw [hadopts] at hcase
    have hall : keys.length ≤ adopted := by
      rcases hcase with rfl | ⟨-, hall⟩
      · exact Nat.zero_le _
      · exact hall
    refine ⟨hcompletes, fun uninterrupted => ?_, ?_, fun later => ?_⟩
    · rw [hfinal, migratedPart_of_le hall, finished, start_previousLayout h hconsole hpassword]
      exact identities_migration h migratedAt uninterrupted
    · rw [hfinal, owned_migratedPart_iff h]
      exact hcase
    · rw [hfinal]
      exact start_provisioned (provisioned_take_migration h migratedAt adopted).dropped hconsole
        hpassword later

end Interruptions

section Fixed

/-- A directory of the previous layout: the administrator `root`, one key. -/
def previousStore : MetadataStore :=
  putAccessKey (putAdmin {} { username := ⟨ascii "root", by decide⟩, createdAt := 1, updatedAt := 2 })
    { accessKeyId := ascii "AK", createdAt := 1 }

/-- A start that dies between the account and its only key leaves the key
without an owner for good. -/
theorem recovered_fails :
    ¬ Recovered (provisionAdministrator (fun _ => .empty) {}) previousStore [(5, 1)] 9 := by
  intro h
  obtain ⟨users, keys, -, hkeys, howned⟩ := h.owned
  have hlisted : listAccessKeys (finished (provisionAdministrator (fun _ => .empty) {} 9)
      (interruptions (provisionAdministrator (fun _ => .empty) {}) previousStore [(5, 1)])).rows =
        .ok [{ accessKeyId := ascii "AK", createdAt := 1 }] := by
    decide +kernel
  rw [hlisted] at hkeys
  obtain rfl := Except.ok.inj hkeys
  exact (howned _ (List.mem_cons_self ..)).1 rfl

/-- One that dies behind the key has nothing left to lose. -/
theorem recovered_behind_key :
    Recovered (provisionAdministrator (fun _ => .empty) {}) previousStore [(5, 2), (7, 0)] 9 := by
  have hprevious : PreviousLayout previousStore.rows
      { username := ⟨ascii "root", by decide⟩, createdAt := 1, updatedAt := 2 }
      [{ accessKeyId := ascii "AK", createdAt := 1 }] :=
    ⟨by decide +kernel, by decide +kernel, by decide +kernel, by decide⟩
  exact (recovered_iff_adoptsAll hprevious rfl rfl [(5, 2), (7, 0)] 9).mpr
    (Or.inr ⟨by decide, by decide⟩)

end Fixed

end MonoBucket
