/-
Console sessions

The in-memory table of session tokens. A session carries a copy of what its
account was allowed when it was opened, so the table's only tie to the accounts
is that whoever changes one ends its sessions.
-/

import MonoBucket.Core.Identity
import MonoBucket.Lib.OrderedMap

namespace MonoBucket

/-- How long a session is honoured. -/
def kSessionTtlSeconds : Int64 := 12 * 60 * 60

/-- Who a session belongs to, and what they may do. -/
structure Principal where
  username : Text
  role : Role
  buckets : BucketGrants
  deriving DecidableEq

structure Session where
  principal : Principal
  expiresAt : Int64
  deriving DecidableEq

structure SessionStore where
  sessions : OrderedMap Bytes Session := .empty
  ttlSeconds : Int64 := kSessionTtlSeconds
  deriving DecidableEq

namespace SessionStore

variable (store : SessionStore) (token : Bytes) (principal : Principal) (atSeconds : Int64)

/-- `std::erase_if` over the table. -/
def filter (keep : Session → Bool) : SessionStore :=
  { store with
    sessions :=
      ⟨store.sessions.entries.filter fun entry => keep entry.2, store.sessions.ordered.filter _⟩ }

/-- Drop what has expired. -/
def sweep : SessionStore := store.filter fun session => atSeconds < session.expiresAt

/-- `openAt` with the token the random source drew. -/
def openAt : SessionStore :=
  let swept := store.sweep atSeconds
  { swept with
    sessions := swept.sessions.emplace token ⟨principal, atSeconds + swept.ttlSeconds⟩ }

/-- Who the token names, or nothing when it is unknown or has expired. -/
def resolveAt : Option Principal :=
  if token = [] then none
  else
    match store.sessions.find? token with
    | none => none
    | some session => if session.expiresAt ≤ atSeconds then none else some session.principal

def close : SessionStore := { store with sessions := store.sessions.erase token }

/-- End every session of an account. -/
def closeUser (username : Bytes) : SessionStore :=
  if username = [] then store
  else store.filter fun session => session.principal.username.items ≠ username

/-- How many sessions `closeUser` ends. -/
def closedBy (username : Bytes) : Nat :=
  if username = [] then 0
  else store.sessions.entries.countP fun entry => entry.2.principal.username.items = username

/-- A principal some session in the table carries. -/
def Carries (principal : Principal) : Prop :=
  ∃ entry ∈ store.sessions.entries, entry.2.principal = principal

variable {store} {token} {principal} {atSeconds} {other : Principal}

theorem carries_of_resolveAt (h : store.resolveAt token atSeconds = some principal) :
    store.Carries principal := by
  rw [resolveAt] at h
  split_ifs at h
  split at h
  · cases h
  · rename_i session hfind
    split_ifs at h
    exact ⟨(token, session), (store.sessions.find?_eq_some_iff).mp hfind, Option.some.inj h⟩

theorem carries_filter {keep : Session → Bool} (h : (store.filter keep).Carries principal) :
    ∃ entry ∈ store.sessions.entries, keep entry.2 ∧ entry.2.principal = principal := by
  obtain ⟨entry, hentry, hprincipal⟩ := h
  obtain ⟨hmem, hkeep⟩ := List.mem_filter.mp hentry
  exact ⟨entry, hmem, hkeep, hprincipal⟩

theorem carries_of_filter {keep : Session → Bool} (h : (store.filter keep).Carries principal) :
    store.Carries principal := by
  obtain ⟨entry, hmem, -, hprincipal⟩ := carries_filter h
  exact ⟨entry, hmem, hprincipal⟩

/-- Opening adds one principal at most. -/
theorem carries_openAt (h : (store.openAt token other atSeconds).Carries principal) :
    principal = other ∨ store.Carries principal := by
  obtain ⟨entry, hentry, rfl⟩ := h
  have hfind := ((store.openAt token other atSeconds).sessions.find?_eq_some_iff).mpr hentry
  rw [openAt, OrderedMap.emplace] at hfind
  split at hfind
  · have hmem := ((store.sweep atSeconds).sessions.find?_eq_some_iff).mp hfind
    exact Or.inr (carries_of_filter ⟨entry, hmem, rfl⟩)
  · rw [OrderedMap.find?_insert] at hfind
    split_ifs at hfind
    · exact Or.inl (congrArg Session.principal (Option.some.inj hfind).symm)
    · have hmem := ((store.sweep atSeconds).sessions.find?_eq_some_iff).mp hfind
      exact Or.inr (carries_of_filter ⟨entry, hmem, rfl⟩)

theorem carries_of_close (h : (store.close token).Carries principal) : store.Carries principal := by
  obtain ⟨entry, hentry, hprincipal⟩ := h
  exact ⟨entry, (List.mem_filter.mp hentry).1, hprincipal⟩

theorem carries_of_closeUser {username : Bytes} (h : (store.closeUser username).Carries principal) :
    store.Carries principal := by
  rw [closeUser] at h
  split_ifs at h
  · exact h
  · exact carries_of_filter h

/-- No session of the account is left. -/
theorem username_ne_of_closeUser {username : Bytes} (hname : username ≠ [])
    (h : (store.closeUser username).Carries principal) : principal.username.items ≠ username := by
  rw [closeUser, if_neg hname] at h
  obtain ⟨entry, -, hkeep, rfl⟩ := carries_filter h
  simpa using hkeep

end SessionStore

end MonoBucket
