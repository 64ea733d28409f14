/-
Accounts and access keys in the rows

What is stored under a name, and how the four identity writes change it. An
account or a key is one row under a one-byte tag, so a listing of either kind
is the point reads of all of them, in name order.
-/

import MonoBucket.Core.Identity
import MonoBucket.Lib.Checked
import MonoBucket.Storage.MetadataStore

namespace MonoBucket

open Codec

/-! ### Records under a tag -/

section Tagged

variable {α : Type} {tag : UInt8} {decode : Bytes → Bytes → Except DecodeError α}
  {name : α → Bytes} {rows : Rows} {listed : List (Bytes × Bytes)} {records : List α}

theorem exists_of_mem_right {β : Type} {R : β → α → Prop} {sources : List β}
    (h : List.Forall₂ R sources records) {record : α} (hrecord : record ∈ records) :
    ∃ source ∈ sources, R source record := by
  induction h with
  | nil => cases hrecord
  | cons hhead _ ih =>
      rcases List.mem_cons.mp hrecord with rfl | hrest
      · exact ⟨_, List.mem_cons_self .., hhead⟩
      · obtain ⟨source, hsource, hrelated⟩ := ih hrest
        exact ⟨source, List.mem_cons_of_mem _ hsource, hrelated⟩

/-- The records of a listing are the decoded rows, in order. -/
theorem forall₂_of_readAll {front : Bytes} (h : readAll (behind front decode) listed = .ok records) :
    List.Forall₂ (fun row record => decode (row.1.drop front.length) row.2 = .ok record)
      listed records := by
  induction listed generalizing records with
  | nil =>
      cases h
      exact .nil
  | cons row rest ih =>
      rw [readAll] at h
      obtain ⟨first, hfirst, h⟩ := Except.bind_eq_ok_iff.mp h
      obtain ⟨others, hothers, h⟩ := Except.bind_eq_ok_iff.mp h
      obtain rfl := Except.pure_eq_ok_iff.mp h
      rw [behind] at hfirst
      cases hdecode : decode (row.1.drop front.length) row.2 with
      | error error => simp [hdecode, Except.map, decoded] at hfirst
      | ok record =>
          simp only [hdecode, Except.map, decoded, Except.ok.injEq] at hfirst
          subst hfirst
          exact .cons hdecode (ih hothers)

/-- A listing of a kind holds exactly the records point reads find. -/
theorem mem_readAll_scan
    (hname : ∀ key stored record, decode key stored = .ok record → name record = key)
    (h : readAll (behind [tag] decode) (rows.scan [tag]) = .ok records) {record : α} :
    record ∈ records ↔
      readRow rows (Keys.tagged tag (name record)) (decode (name record)) = .ok (some record) := by
  have hrows := forall₂_of_readAll h
  constructor
  · intro hrecord
    obtain ⟨row, hrow, hdecode⟩ := exists_of_mem_right hrows hrecord
    obtain ⟨hentry, rest, hrest⟩ := Rows.mem_scan.mp hrow
    have hkey : row.1 = Keys.tagged tag (name record) := by
      rw [hname _ _ _ hdecode, ← hrest]
      rfl
    have hfind := (rows.find?_eq_some_iff).mpr hentry
    rw [hkey] at hfind
    refine readRow_of_find? hfind ?_
    rwa [hname _ _ _ hdecode]
  · intro hread
    obtain ⟨stored, hfind, hdecode⟩ := decode_of_readRow hread
    have hrow : (Keys.tagged tag (name record), stored) ∈ rows.scan [tag] :=
      Rows.mem_scan.mpr ⟨(rows.find?_eq_some_iff).mp hfind, ⟨name record, rfl⟩⟩
    obtain ⟨other, hother, hsame⟩ := exists_of_mem_right hrows.flip hrow
    have heq : decode (name record) stored = .ok other := hsame
    rw [hdecode] at heq
    rwa [Except.ok.inj heq]

/-- No name is listed twice. -/
theorem pairwise_names
    (hname : ∀ key stored record, decode key stored = .ok record → name record = key)
    (h : readAll (behind [tag] decode) (rows.scan [tag]) = .ok records) :
    records.Pairwise fun first second => name first ≠ name second := by
  have hnames : records.map name = (rows.scan [tag]).map fun row => row.1.drop 1 := by
    have hrows := forall₂_of_readAll h
    clear h
    generalize rows.scan [tag] = listed at hrows
    induction hrows with
    | nil => rfl
    | cons hdecode _ ih => rw [List.map_cons, List.map_cons, hname _ _ _ hdecode, ih]; rfl
  have hscan : ((rows.scan [tag]).map fun row => row.1.drop 1).Pairwise (· ≠ ·) := by
    rw [List.pairwise_map]
    have hordered : (rows.scan [tag]).Pairwise fun first second => first.1 < second.1 := by
      rw [Rows.scan_eq_filter]
      exact rows.ordered.filter _
    refine hordered.imp_of_mem fun {first second} hfirst hsecond hlt heq => ?_
    obtain ⟨-, rest, hrest⟩ := Rows.mem_scan.mp hfirst
    obtain ⟨-, other, hother⟩ := Rows.mem_scan.mp hsecond
    rw [← hrest, ← hother] at heq hlt
    have hsame : rest = other := heq
    rw [hsame] at hlt
    exact lt_irrefl _ hlt
  rw [← hnames, List.pairwise_map] at hscan
  exact hscan

end Tagged

/-! ### What decoding recovers -/

theorem username_of_decodeUser {username stored : Bytes} {user : UserRecord}
    (h : decodeUser username stored = .ok user) : user.username = username := by
  have hfields : Gives (decodeUserFields username) fun read => read.username = username :=
    Gives.bind fun _ => Gives.bind fun _ => Gives.bind fun _ => Gives.bind fun _ =>
      Gives.bind fun _ => Gives.bind fun _ => Gives.bind fun _ => Gives.bind fun _ => gives_pure rfl
  exact hfields.runOn h

theorem accessKeyId_of_decodeAccessKey {accessKeyId stored : Bytes} {key : AccessKeyRecord}
    (h : decodeAccessKey accessKeyId stored = .ok key) : key.accessKeyId = accessKeyId := by
  have hfields : Gives (decodeAccessKeyFields accessKeyId) fun read =>
      read.accessKeyId = accessKeyId :=
    Gives.bind fun _ => Gives.bind fun _ => Gives.bind fun _ => Gives.bind fun _ =>
      Gives.bind fun _ => Gives.bind fun _ => gives_pure rfl
  exact hfields.runOn h

theorem gives_boundedVector {α : Type} (limit : UInt64) (read : Read α) :
    Gives (boundedVector limit read) fun items => items.size ≤ limit := by
  refine Gives.bind fun count => ?_
  split_ifs with hlong
  · intro _ _ _ h
    cases h
  · refine Gives.bind fun items => gives_pure ?_
    have hcount : items.1.length.toUInt64 = count := by
      rw [items.2, Nat.toUInt64_eq, UInt64.ofNat_toNat]
    rw [Sized.size, hcount]
    exact UInt64.not_lt.mp hlong

/-- What is read of an account can be written back. -/
theorem storable_of_decodeUser {username stored : Bytes} {user : UserRecord}
    (h : decodeUser username stored = .ok user) : user.Storable := by
  have hgrants : Gives decodeBucketGrants fun grants =>
      grants.exceptions.toSized.size ≤ maxGrantExceptions := by
    refine Gives.bind fun _ => Gives.andThen (gives_boundedVector _ _) fun exceptions hfits => ?_
    refine gives_pure ?_
    rw [UInt64.le_iff_toNat_le, Sized.toNat_size] at hfits ⊢
    refine le_trans ?_ hfits
    have hlength := OrderedMap.length_emplaceAll_le (.empty : OrderedMap Text _) exceptions.items
    exact hlength.trans (by simp [OrderedMap.empty])
  have hbuckets : Gives (ifMore {} decodeBucketGrants) fun grants =>
      grants.exceptions.toSized.size ≤ maxGrantExceptions := by
    refine Gives.bind fun done => ?_
    cases done with
    | true => exact gives_pure (by decide)
    | false => exact hgrants
  have hfields : Gives (decodeUserFields username) UserRecord.Storable :=
    Gives.bind fun _ => Gives.bind fun _ => Gives.bind fun _ => Gives.bind fun _ =>
      Gives.bind fun _ => Gives.bind fun _ => Gives.bind fun _ =>
        hbuckets.andThen fun _ hfits => gives_pure hfits
  exact hfields.runOn h

/-! ### Accounts -/

/-- What is stored under an account's name. -/
def userAt (rows : Rows) (username : Bytes) : Except StoreError (Option UserRecord) :=
  readRow rows (Keys.user username) (decodeUser username)

/-- What is stored under an access key's id. -/
def accessKeyAt (rows : Rows) (accessKeyId : Bytes) : Except StoreError (Option AccessKeyRecord) :=
  readRow rows (Keys.accessKey accessKeyId) (decodeAccessKey accessKeyId)

/-- The account stored under a name, if one can be read. -/
def storedUser (rows : Rows) (username : Bytes) : Option UserRecord :=
  match userAt rows username with
  | .error _ => none
  | .ok found => found

@[simp]
theorem mem_storedUser {rows : Rows} {username : Bytes} {user : UserRecord} :
    user ∈ storedUser rows username ↔ userAt rows username = .ok (some user) := by
  rw [storedUser]
  cases userAt rows username <;> simp

section Reads

variable {rows : Rows} {username accessKeyId : Bytes} {user : UserRecord} {key : AccessKeyRecord}

theorem getUser_eq_some_iff :
    getUser rows username = .ok (some user) ↔
      username ≠ [] ∧ userAt rows username = .ok (some user) := by
  rw [getUser]
  split_ifs with hempty <;> simp [hempty, userAt]

theorem getAccessKey_eq_some_iff :
    getAccessKey rows accessKeyId = .ok (some key) ↔
      accessKeyId ≠ [] ∧ accessKeyAt rows accessKeyId = .ok (some key) := by
  rw [getAccessKey]
  split_ifs with hempty <;> simp [hempty, accessKeyAt]

theorem username_of_userAt (h : userAt rows username = .ok (some user)) :
    user.username = username := by
  obtain ⟨stored, -, hdecode⟩ := decode_of_readRow h
  exact username_of_decodeUser hdecode

theorem storable_of_userAt (h : userAt rows username = .ok (some user)) : user.Storable := by
  obtain ⟨stored, -, hdecode⟩ := decode_of_readRow h
  exact storable_of_decodeUser hdecode

theorem accessKeyId_of_accessKeyAt (h : accessKeyAt rows accessKeyId = .ok (some key)) :
    key.accessKeyId = accessKeyId := by
  obtain ⟨stored, -, hdecode⟩ := decode_of_readRow h
  exact accessKeyId_of_decodeAccessKey hdecode

theorem mem_listUsers {users : List UserRecord} (h : listUsers rows = .ok users) :
    user ∈ users ↔ userAt rows user.username = .ok (some user) :=
  mem_readAll_scan (fun _ _ _ => username_of_decodeUser) h

theorem mem_listAccessKeys {keys : List AccessKeyRecord} (h : listAccessKeys rows = .ok keys) :
    key ∈ keys ↔ accessKeyAt rows key.accessKeyId = .ok (some key) :=
  mem_readAll_scan (fun _ _ _ => accessKeyId_of_decodeAccessKey) h

end Reads

/-! ### The four writes -/

section Writes

variable {store : MetadataStore} {username other accessKeyId : Bytes} {user : UserRecord}
  {key : AccessKeyRecord}

theorem Keys.user_inj {first second : Bytes} : Keys.user first = Keys.user second ↔ first = second :=
  ⟨fun h => (List.cons.inj h).2, congrArg _⟩

theorem Keys.accessKey_inj {first second : Bytes} :
    Keys.accessKey first = Keys.accessKey second ↔ first = second :=
  ⟨fun h => (List.cons.inj h).2, congrArg _⟩

theorem Keys.user_ne_accessKey (username accessKeyId : Bytes) :
    Keys.user username ≠ Keys.accessKey accessKeyId := fun h =>
  absurd (List.cons.inj h).1 (by decide)

theorem find?_putRow (store : MetadataStore) (rowKey value candidate : Bytes) :
    (putRow store rowKey value).rows.find? candidate =
      if candidate = rowKey then some value else store.rows.find? candidate := by
  rw [putRow, Rows.write_cons, Rows.write_nil, Rows.find?_apply]
  rfl

theorem find?_deleteRow (store : MetadataStore) (rowKey candidate : Bytes) :
    (deleteRow store rowKey).rows.find? candidate =
      if candidate = rowKey then none else store.rows.find? candidate := by
  rw [deleteRow, Rows.write_cons, Rows.write_nil, Rows.find?_apply]
  rfl

theorem find?_deleteUser (store : MetadataStore) (username candidate : Bytes) :
    (deleteUser store username).1.rows.find? candidate =
      if candidate = Keys.user username then none else store.rows.find? candidate := by
  rw [deleteUser]
  cases hfind : store.rows.find? (Keys.user username) with
  | none =>
      split_ifs with hkey
      · rw [hkey, hfind]
      · rfl
  | some stored => exact find?_deleteRow ..

theorem find?_deleteAccessKey (store : MetadataStore) (accessKeyId candidate : Bytes) :
    (deleteAccessKey store accessKeyId).1.rows.find? candidate =
      if candidate = Keys.accessKey accessKeyId then none else store.rows.find? candidate := by
  rw [deleteAccessKey]
  cases hfind : store.rows.find? (Keys.accessKey accessKeyId) with
  | none =>
      split_ifs with hkey
      · rw [hkey, hfind]
      · rfl
  | some stored => exact find?_deleteRow ..

/-- An account reads back as written exactly when the decoder takes it. -/
theorem userAt_putUser_self (hstorable : user.Storable) :
    userAt (putUser store user).rows user.username = .ok (some user) := by
  have hfind : (putUser store user).rows.find? (Keys.user user.username) =
      some (encodeUser user) := by
    rw [putUser, find?_putRow, if_pos rfl]
  exact readRow_of_find? hfind (decodeUser_encodeUser hstorable)

/-- Whatever a written account reads back as, it is the account written. -/
theorem eq_of_userAt_putUser {read : UserRecord}
    (h : userAt (putUser store user).rows user.username = .ok (some read)) : read = user := by
  obtain ⟨stored, hfind, hdecode⟩ := decode_of_readRow h
  rw [putUser, find?_putRow, if_pos rfl] at hfind
  obtain rfl := Option.some.inj hfind
  by_cases hstorable : user.Storable
  · rw [decodeUser_encodeUser hstorable] at hdecode
    exact (Except.ok.inj hdecode).symm
  · obtain ⟨error, herror⟩ := decodeUser_encodeUser_error hstorable
    rw [herror] at hdecode
    cases hdecode

theorem userAt_putUser_of_ne (hne : other ≠ user.username) :
    userAt (putUser store user).rows other = userAt store.rows other := by
  refine readRow_congr ?_
  rw [putUser, find?_putRow, if_neg fun h => hne (Keys.user_inj.mp h)]

theorem userAt_deleteUser_self : userAt (deleteUser store username).1.rows username = .ok none := by
  rw [userAt, readRow, find?_deleteUser, if_pos rfl]

theorem userAt_deleteUser_of_ne (hne : other ≠ username) :
    userAt (deleteUser store username).1.rows other = userAt store.rows other := by
  refine readRow_congr ?_
  rw [find?_deleteUser, if_neg fun h => hne (Keys.user_inj.mp h)]

@[simp]
theorem userAt_putAccessKey :
    userAt (putAccessKey store key).rows username = userAt store.rows username := by
  refine readRow_congr ?_
  rw [putAccessKey, find?_putRow, if_neg (Keys.user_ne_accessKey _ _)]

@[simp]
theorem userAt_deleteAccessKey :
    userAt (deleteAccessKey store accessKeyId).1.rows username = userAt store.rows username := by
  refine readRow_congr ?_
  rw [find?_deleteAccessKey, if_neg (Keys.user_ne_accessKey _ _)]

theorem accessKeyAt_putAccessKey_self :
    accessKeyAt (putAccessKey store key).rows key.accessKeyId = .ok (some key) := by
  have hfind : (putAccessKey store key).rows.find? (Keys.accessKey key.accessKeyId) =
      some (encodeAccessKey key) := by
    rw [putAccessKey, find?_putRow, if_pos rfl]
  exact readRow_of_find? hfind (decodeAccessKey_encodeAccessKey key)

theorem accessKeyAt_putAccessKey_of_ne (hne : other ≠ key.accessKeyId) :
    accessKeyAt (putAccessKey store key).rows other = accessKeyAt store.rows other := by
  refine readRow_congr ?_
  rw [putAccessKey, find?_putRow, if_neg fun h => hne (Keys.accessKey_inj.mp h)]

theorem accessKeyAt_deleteAccessKey_self :
    accessKeyAt (deleteAccessKey store accessKeyId).1.rows accessKeyId = .ok none := by
  rw [accessKeyAt, readRow, find?_deleteAccessKey, if_pos rfl]

theorem accessKeyAt_deleteAccessKey_of_ne (hne : other ≠ accessKeyId) :
    accessKeyAt (deleteAccessKey store accessKeyId).1.rows other = accessKeyAt store.rows other := by
  refine readRow_congr ?_
  rw [find?_deleteAccessKey, if_neg fun h => hne (Keys.accessKey_inj.mp h)]

@[simp]
theorem accessKeyAt_putUser :
    accessKeyAt (putUser store user).rows accessKeyId = accessKeyAt store.rows accessKeyId := by
  refine readRow_congr ?_
  rw [putUser, find?_putRow, if_neg (Keys.user_ne_accessKey _ _).symm]

@[simp]
theorem accessKeyAt_deleteUser :
    accessKeyAt (deleteUser store username).1.rows accessKeyId =
      accessKeyAt store.rows accessKeyId := by
  refine readRow_congr ?_
  rw [find?_deleteUser, if_neg (Keys.user_ne_accessKey _ _).symm]

end Writes

/-! ### Enabled administrators -/

/-- Of two counted administrators one has another name. -/
theorem exists_ne_of_count {users : List UserRecord}
    (hnames : users.Pairwise fun first second => first.username ≠ second.username)
    (hcount : 1 < users.countP UserRecord.enabledAdministrator) (username : Bytes) :
    ∃ user ∈ users, user.enabledAdministrator ∧ user.username ≠ username := by
  induction users with
  | nil => simp at hcount
  | cons head rest ih =>
      obtain ⟨hhead, hrest⟩ := List.pairwise_cons.mp hnames
      by_cases hmore : 1 < rest.countP UserRecord.enabledAdministrator
      · obtain ⟨user, huser, hadmin, hne⟩ := ih hrest hmore
        exact ⟨user, List.mem_cons_of_mem _ huser, hadmin, hne⟩
      · -- the head and exactly one of the rest are counted
        rw [List.countP_cons] at hcount
        have hadmin : head.enabledAdministrator = true := by
          by_contra hnot
          rw [if_neg hnot] at hcount
          exact hmore hcount
        have hone : 0 < rest.countP UserRecord.enabledAdministrator := by
          rw [if_pos hadmin] at hcount
          omega
        obtain ⟨other, hother, hcounted⟩ := List.countP_pos_iff.mp hone
        by_cases hname : head.username = username
        · refine ⟨other, List.mem_cons_of_mem _ hother, hcounted, ?_⟩
          rw [← hname]
          exact (hhead other hother).symm
        · exact ⟨head, List.mem_cons_self .., hadmin, hname⟩

/-- Somebody who can still repair the accounts. -/
def HasAdministrator (rows : Rows) : Prop :=
  ∃ username user, userAt rows username = .ok (some user) ∧ user.enabledAdministrator

/-- Somebody else is an administrator. -/
def HasOther (rows : Rows) (username : Bytes) : Prop :=
  ∃ other user, other ≠ username ∧ userAt rows other = .ok (some user) ∧ user.enabledAdministrator

/-- While more than one is counted, no single account is the only one. -/
theorem hasOther_of_count {rows : Rows} {count : Nat}
    (hcount : countEnabledAdministrators rows = .ok count) (hmore : 1 < count) (username : Bytes) :
    HasOther rows username := by
  rw [countEnabledAdministrators] at hcount
  cases hlist : listUsers rows with
  | error error => simp [hlist, Except.map] at hcount
  | ok users =>
      simp only [hlist, Except.map, Except.ok.injEq] at hcount
      subst hcount
      have hnames := pairwise_names (fun _ _ _ => username_of_decodeUser) hlist
      obtain ⟨user, huser, hadmin, hne⟩ := exists_ne_of_count hnames hmore username
      exact ⟨user.username, user, hne, (mem_listUsers hlist).mp huser, hadmin⟩

/-- An unrestricted account can be read back. -/
theorem storable_of_unrestricted {user : UserRecord} (h : user.buckets.unrestricted) :
    user.Storable := by
  have hentries : user.buckets.exceptions.bindings.entries = [] := by
    rw [BucketGrants.unrestricted] at h
    exact (of_decide_eq_true h).2
  rw [UserRecord.Storable, UInt64.le_iff_toNat_le, Sized.toNat_size]
  simp [SizedMap.toSized, hentries]

section Others

variable {store : MetadataStore} {user : UserRecord} {username : Bytes}

theorem HasOther.putUser (h : HasOther store.rows user.username) :
    HasAdministrator (putUser store user).rows := by
  obtain ⟨other, admin, hne, hread, hadmin⟩ := h
  exact ⟨other, admin, by rwa [userAt_putUser_of_ne hne], hadmin⟩

theorem HasOther.deleteUser (h : HasOther store.rows username) :
    HasAdministrator (deleteUser store username).1.rows := by
  obtain ⟨other, admin, hne, hread, hadmin⟩ := h
  exact ⟨other, admin, by rwa [userAt_deleteUser_of_ne hne], hadmin⟩

/-- Writing an account leaves an administrator when the account reads back as
one or somebody else is one. -/
theorem hasAdministrator_putUser (hself : user.enabledAdministrator → user.Storable)
    (hother : user.enabledAdministrator = false → HasOther store.rows user.username) :
    HasAdministrator (putUser store user).rows := by
  cases hadmin : user.enabledAdministrator with
  | false => exact (hother hadmin).putUser
  | true => exact ⟨user.username, user, userAt_putUser_self (hself hadmin), hadmin⟩

/-- Unless the account itself is one, the administrator is somebody else. -/
theorem HasAdministrator.hasOther {rows : Rows} (h : HasAdministrator rows)
    (hnot : ∀ user, userAt rows username = .ok (some user) → user.enabledAdministrator = false) :
    HasOther rows username := by
  obtain ⟨other, admin, hread, hadmin⟩ := h
  refine ⟨other, admin, fun hsame => ?_, hread, hadmin⟩
  subst hsame
  rw [hnot admin hread] at hadmin
  cases hadmin

end Others

end MonoBucket
