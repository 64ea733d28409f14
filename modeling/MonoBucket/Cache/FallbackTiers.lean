/-
Two tiers under one key

A read that misses the local tier fetches from the shared one and then fills the
local one; a set writes the local tier and then the shared one, and so does a
deletion. The steps of the callers come in any order. A fill may come behind a
deletion that both tiers have seen, and of two sets the one that comes to the local
tier last may come to the shared one first.

The shared tier answers, is this process's alone, and may lose a value at any time.
-/

import MonoBucket.Lib.Trace
import MonoBucket.Cache.MemoryCache

namespace MonoBucket.FallbackTiers

/-- What the calls under one key have in common. -/
structure Config where
  hash : Bytes → UInt64
  key : Bytes
  localTtlCap : Int64 := 5

/-- `localTtl`: "until evicted" becomes the cap. -/
def Config.localTtl (config : Config) (requested : Int64) : Int64 :=
  if requested = 0 then config.localTtlCap else min requested config.localTtlCap

/-- The two tiers. Changes of the key, sets and deletions, are numbered in the order in
which they begin, from what the shared tier held before. -/
structure Tiers where
  near : MemoryCache
  ticks : Int64 := 0
  /-- The value in the shared tier, with the number of the set it is from. -/
  shared : Option (Nat × Bytes)
  /-- What each change leaves under the key. -/
  changes : List (Option Bytes)
  /-- The number of the last change the shared tier has seen. -/
  newest : Nat := 0
  /-- The changes that have returned. -/
  returned : List Nat := [0]
  /-- The values reads have returned, each with the number of the change that was the
  last one to begin before the read did, if it had returned by then. -/
  answers : List (Nat × Bytes) := []

inductive Call
  | outside
  | reading (floor : Nat)
  | filling (floor number : Nat) (value : Bytes)
  | changing (number : Nat) (value : Option Bytes) (ttl : Int64)

abbrev State (ι : Type) := Pool ι Tiers Call

inductive Label (ι : Type)
  | get (caller : ι)
  | fetch (caller : ι)
  | fill (caller : ι)
  | set (caller : ι) (value : Option Bytes) (ttl : Int64)
  | del (caller : ι)
  | store (caller : ι)
  | elsewhere (other value : Bytes) (ttl : Int64)
  | evict (budgetBytes : UInt64)
  | expire
  | tick (ticks : Int64)

namespace Tiers

variable (config : Config) (tiers : Tiers)

/-- The change a read that begins now must not go behind. -/
def floor : Nat :=
  if tiers.changes.length - 1 ∈ tiers.returned then tiers.changes.length - 1 else 0

/-- `local_->set` of a value, or of none, which deletes. -/
def nearSet (value : Option Bytes) (ttl : Int64) : MemoryCache :=
  match value with
  | none => (tiers.near.del config.hash config.key).1
  | some value => tiers.near.set config.hash tiers.ticks config.key value ttl

/-- `shared_->set`: a time to live that has lapsed deletes as well. -/
def sharedSet (number : Nat) (value : Option Bytes) (ttl : Int64) : Option (Nat × Bytes) :=
  if ttl < 0 then none else value.map (Prod.mk number)

end Tiers

section Step

variable {ι : Type} [DecidableEq ι] (config : Config)

def step (state : State ι) : Label ι → Option (State ι)
  | .get caller =>
    let tiers := state.shared
    match state.calls caller with
    | .outside =>
      let (near, found) := tiers.near.get config.hash tiers.ticks config.key
      some
        (match found with
        | some value =>
          state.move caller
            { tiers with near := near, answers := tiers.answers ++ [(tiers.floor, value)] } .outside
        | none => state.move caller { tiers with near := near } (.reading tiers.floor))
    | _ => none
  | .fetch caller =>
    match state.calls caller with
    | .reading floor =>
      some (state.move caller state.shared
        (match state.shared.shared with
        | some (number, value) => .filling floor number value
        | none => .outside))
    | _ => none
  | .fill caller =>
    let tiers := state.shared
    match state.calls caller with
    | .filling floor _ value =>
      some (state.move caller
        { tiers with
          near := tiers.nearSet config (some value) config.localTtlCap
          answers := tiers.answers ++ [(floor, value)] } .outside)
    | _ => none
  | .set caller value ttl =>
    let tiers := state.shared
    match state.calls caller with
    | .outside =>
      some (state.move caller
        { tiers with
          near := tiers.nearSet config value (config.localTtl ttl)
          changes := tiers.changes ++ [value] } (.changing tiers.changes.length value ttl))
    | _ => none
  | .del caller =>
    let tiers := state.shared
    match state.calls caller with
    | .outside =>
      some (state.move caller
        { tiers with
          near := tiers.nearSet config none 0
          changes := tiers.changes ++ [none] } (.changing tiers.changes.length none 0))
    | _ => none
  | .store caller =>
    let tiers := state.shared
    match state.calls caller with
    | .changing number value ttl =>
      some (state.move caller
        { tiers with
          shared := Tiers.sharedSet number value ttl
          newest := max tiers.newest number
          returned := number :: tiers.returned } .outside)
    | _ => none
  | .elsewhere other value ttl =>
    let tiers := state.shared
    if other = config.key then none
    else
      some ⟨{ tiers with near := tiers.near.set config.hash tiers.ticks other value ttl }, state.calls⟩
  | .evict budgetBytes =>
    let tiers := state.shared
    some ⟨{ tiers with near := tiers.near.evict tiers.ticks budgetBytes }, state.calls⟩
  | .expire => some ⟨{ state.shared with shared := none }, state.calls⟩
  | .tick ticks => some ⟨{ state.shared with ticks := ticks }, state.calls⟩

/-- A fill finds that no change has begun since the one its value is from, and a change
comes to the shared tier before any later one does. -/
def Ordered (state : State ι) : Label ι → Prop
  | .fill caller =>
    match state.calls caller with
    | .filling _ number _ => number + 1 = state.shared.changes.length
    | _ => True
  | .store caller =>
    match state.calls caller with
    | .changing number _ _ => state.shared.newest ≤ number
    | _ => True
  | _ => True

instance decidableOrdered (state : State ι) : ∀ label : Label ι, Decidable (Ordered state label)
  | .fill caller =>
    match hcall : state.calls caller with
    | .filling _ number _ =>
      decidable_of_iff (number + 1 = state.shared.changes.length) (by rw [Ordered, hcall])
    | .outside | .reading _ | .changing .. => isTrue (by rw [Ordered, hcall]; trivial)
  | .store caller =>
    match hcall : state.calls caller with
    | .changing number _ _ =>
      decidable_of_iff (state.shared.newest ≤ number) (by rw [Ordered, hcall])
    | .outside | .reading _ | .filling .. => isTrue (by rw [Ordered, hcall]; trivial)
  | .get _ | .fetch _ | .set .. | .del _ | .elsewhere .. | .evict _ | .expire | .tick _ => isTrue trivial

/-- Before any call: the local tier has nothing under the key. -/
def start (ι : Type) (near : MemoryCache) (stored : Option Bytes) : State ι where
  shared := { near := near, shared := stored.map (Prod.mk 0), changes := [stored] }
  calls := fun _ => .outside

/-- Whatever a read returns was set by the last change that had begun and returned before
the read began, or by a later one. -/
def Sound (state : State ι) : Prop :=
  ∀ floor value, (floor, value) ∈ state.shared.answers →
    ∃ number, floor ≤ number ∧ state.shared.changes[number]? = some (some value)

/-! ### What carries it -/

namespace Tiers

variable {config : Config} {tiers next : Tiers}

/-- After a write of the local tier the key has the value written, or nothing. -/
theorem holds_nearSet {value : Option Bytes} {ttl : Int64} {held : Bytes}
    (h : (tiers.nearSet config value ttl).Holds config.hash config.key held) : value = some held := by
  cases value with
  | none => exact absurd h MemoryCache.not_holds_del
  | some value =>
      obtain ⟨-, rfl⟩ | ⟨hne, -⟩ := h.of_set
      · rfl
      · exact absurd rfl hne

theorem sharedSet_eq_some {number found : Nat} {value : Option Bytes} {ttl : Int64} {held : Bytes}
    (h : sharedSet number value ttl = some (found, held)) : found = number ∧ value = some held := by
  rw [sharedSet] at h
  split_ifs at h
  obtain ⟨stored, rfl, heq⟩ := Option.map_eq_some_iff.mp h
  obtain ⟨rfl, rfl⟩ := Prod.mk.inj heq
  exact ⟨rfl, rfl⟩

/-- The tiers as the last change leaves them, as far as they have seen it. -/
structure Agree (config : Config) (tiers : Tiers) : Prop where
  near : ∀ held, tiers.near.Holds config.hash config.key held →
    tiers.changes.getLast? = some (some held)
  shared : ∀ number held, tiers.shared = some (number, held) →
    number = tiers.newest ∧ tiers.changes[number]? = some (some held)
  settled : tiers.changes.length - 1 ∈ tiers.returned → tiers.newest = tiers.changes.length - 1
  returned : ∀ number ∈ tiers.returned, number < tiers.changes.length
  begun : tiers.newest < tiers.changes.length
  answers : ∀ floor value, (floor, value) ∈ tiers.answers →
    ∃ number, floor ≤ number ∧ tiers.changes[number]? = some (some value)

theorem Agree.floor_le (h : Agree config tiers) : tiers.floor ≤ tiers.newest := by
  rw [floor]
  split_ifs with hreturned
  · exact (h.settled hreturned).ge
  · exact Nat.zero_le _

/-- What a call has in hand. -/
def Carries (tiers : Tiers) : Call → Prop
  | .outside => True
  | .reading floor => floor ≤ tiers.newest
  | .filling floor number value => floor ≤ number ∧ tiers.changes[number]? = some (some value)
  | .changing number value _ => tiers.changes[number]? = some value

/-- It stays good while changes are added and the shared tier sees more of them. -/
theorem Carries.mono {call : Call} (h : tiers.Carries call) (hchanges : tiers.changes <+: next.changes)
    (hnewest : tiers.newest ≤ next.newest) : next.Carries call := by
  obtain ⟨more, hmore⟩ := hchanges
  have hkept : ∀ (number : Nat) (value : Option Bytes), tiers.changes[number]? = some value →
      next.changes[number]? = some value := by
    intro number value hvalue
    rw [← hmore]
    exact (List.getElem?_append_left (List.getElem?_eq_some_iff.mp hvalue).1).trans hvalue
  cases call with
  | outside => trivial
  | reading floor => exact le_trans h hnewest
  | filling floor number value => exact ⟨h.1, hkept _ _ h.2⟩
  | changing number value ttl => exact hkept _ _ h

/-- A change begins: the local tier has it or nothing. -/
theorem Agree.begin (h : Agree config tiers) (value : Option Bytes) (ttl : Int64) :
    Agree config
      { tiers with
        near := tiers.nearSet config value ttl
        changes := tiers.changes ++ [value] } where
  near held hheld := by
    rw [holds_nearSet hheld]
    exact List.getLast?_concat ..
  shared number held hshared := by
    obtain ⟨hnumber, hchange⟩ := h.shared number held hshared
    exact ⟨hnumber, (List.getElem?_append_left (List.getElem?_eq_some_iff.mp hchange).1).trans hchange⟩
  settled hreturned := by
    rw [List.length_append, List.length_singleton, Nat.add_sub_cancel] at hreturned
    exact absurd (h.returned _ hreturned) (lt_irrefl _)
  returned number hnumber := by
    rw [List.length_append]
    exact Nat.lt_add_right _ (h.returned number hnumber)
  begun := by
    rw [List.length_append]
    exact Nat.lt_add_right _ h.begun
  answers floor answer hanswer := by
    obtain ⟨number, hnumber, hchange⟩ := h.answers floor answer hanswer
    exact ⟨number, hnumber,
      (List.getElem?_append_left (List.getElem?_eq_some_iff.mp hchange).1).trans hchange⟩

/-- A change reaches the shared tier, and no later one has. -/
theorem Agree.store (h : Agree config tiers) {number : Nat} {value : Option Bytes} {ttl : Int64}
    (hchange : tiers.changes[number]? = some value) (hordered : tiers.newest ≤ number) :
    Agree config
      { tiers with
        shared := sharedSet number value ttl
        newest := max tiers.newest number
        returned := number :: tiers.returned } where
  near := h.near
  shared found held hshared := by
    obtain ⟨rfl, rfl⟩ := sharedSet_eq_some hshared
    exact ⟨(max_eq_right hordered).symm, hchange⟩
  settled hreturned := by
    have hbound := (List.getElem?_eq_some_iff.mp hchange).1
    refine (max_eq_right hordered).trans ?_
    obtain hlast | hold := List.mem_cons.mp hreturned
    · exact hlast.symm
    · have hsettled := h.settled hold
      show number = tiers.changes.length - 1
      omega
  returned other hother := by
    obtain rfl | hold := List.mem_cons.mp hother
    · exact (List.getElem?_eq_some_iff.mp hchange).1
    · exact h.returned other hold
  begun := by
    rw [max_eq_right hordered]
    exact (List.getElem?_eq_some_iff.mp hchange).1
  answers := h.answers

/-- The local tier may lose what it holds, or be filled with what the last change left. -/
theorem Agree.withNear (h : Agree config tiers) {near : MemoryCache}
    (hnear : ∀ held, near.Holds config.hash config.key held →
      tiers.changes.getLast? = some (some held)) : Agree config { tiers with near := near } where
  near := hnear
  shared := h.shared
  settled := h.settled
  returned := h.returned
  begun := h.begun
  answers := h.answers

theorem Agree.answer (h : Agree config tiers) {floor number : Nat} {value : Bytes}
    (hfloor : floor ≤ number) (hchange : tiers.changes[number]? = some (some value)) :
    Agree config { tiers with answers := tiers.answers ++ [(floor, value)] } where
  near := h.near
  shared := h.shared
  settled := h.settled
  returned := h.returned
  begun := h.begun
  answers other answer hanswer := by
    obtain hold | hnew := List.mem_append.mp hanswer
    · exact h.answers other answer hold
    · obtain ⟨rfl, rfl⟩ := Prod.mk.inj (List.mem_singleton.mp hnew)
      exact ⟨number, hfloor, hchange⟩

end Tiers

variable {config}

structure Kept (config : Config) (state : State ι) : Prop where
  tiers : Tiers.Agree config state.shared
  calls : ∀ caller, state.shared.Carries (state.calls caller)

omit [DecidableEq ι] in
theorem Kept.start {near : MemoryCache} {stored : Option Bytes}
    (hnear : ∀ held, ¬ near.Holds config.hash config.key held) :
    Kept config (start ι near stored) where
  tiers := {
    near := fun held hheld => absurd hheld (hnear held)
    shared := fun number held hshared => by
      obtain ⟨value, rfl, heq⟩ := Option.map_eq_some_iff.mp hshared
      obtain ⟨rfl, rfl⟩ := Prod.mk.inj heq
      exact ⟨rfl, rfl⟩
    settled := fun _ => rfl
    returned := fun number hnumber => by
      obtain rfl := List.mem_singleton.mp hnumber
      exact Nat.one_pos
    begun := Nat.one_pos
    answers := fun floor value hanswer => by cases hanswer }
  calls _ := trivial

variable {state next : State ι} {label : Label ι}

/-- One caller moves. -/
theorem Kept.move (h : Kept config state) {caller : ι} {tiers : Tiers} {call : Call}
    (htiers : Tiers.Agree config tiers) (hchanges : state.shared.changes <+: tiers.changes)
    (hnewest : state.shared.newest ≤ tiers.newest) (hcall : tiers.Carries call) :
    Kept config (state.move caller tiers call) where
  tiers := htiers
  calls := (Pool.forall_move (P := fun _ call => tiers.Carries call) state caller tiers call).mpr
    ⟨hcall, fun other _ => (h.calls other).mono hchanges hnewest⟩

theorem Kept.of_step (h : Kept config state) (hordered : Ordered state label)
    (hstep : step config state label = some next) : Kept config next := by
  cases label with
  | get caller =>
      rw [step] at hstep
      generalize hget : state.shared.near.get config.hash state.shared.ticks config.key = answer at hstep
      obtain ⟨near, found⟩ := answer
      have hnear : Tiers.Agree config { state.shared with near := near } := by
        obtain rfl : (state.shared.near.get config.hash state.shared.ticks config.key).1 = near :=
          congrArg Prod.fst hget
        exact h.tiers.withNear fun held hheld => h.tiers.near held hheld.of_get
      split at hstep
      · obtain rfl := Option.some.inj hstep
        cases found with
        | none => exact h.move hnear List.prefix_rfl le_rfl h.tiers.floor_le
        | some value =>
            have hlast := h.tiers.near value (MemoryCache.holds_of_get (congrArg Prod.snd hget))
            rw [List.getLast?_eq_getElem?] at hlast
            have hfloor := h.tiers.floor_le.trans (Nat.le_sub_one_of_lt h.tiers.begun)
            exact h.move (hnear.answer hfloor hlast) List.prefix_rfl le_rfl trivial
      · cases hstep
  | fetch caller =>
      rw [step] at hstep
      split at hstep
      · rename_i floor hcall
        obtain rfl := Option.some.inj hstep
        have hfloor := h.calls caller
        rw [hcall] at hfloor
        refine h.move h.tiers List.prefix_rfl le_rfl ?_
        cases hshared : state.shared.shared with
        | none => trivial
        | some stored =>
            obtain ⟨number, value⟩ := stored
            obtain ⟨rfl, hchange⟩ := h.tiers.shared number value hshared
            exact ⟨hfloor, hchange⟩
      · cases hstep
  | fill caller =>
      rw [step] at hstep
      split at hstep
      · rename_i floor number value hcall
        obtain rfl := Option.some.inj hstep
        have hcarries := h.calls caller
        rw [hcall] at hcarries
        obtain ⟨hfloor, hchange⟩ := hcarries
        have hnear : Tiers.Agree config
            { state.shared with
              near := state.shared.nearSet config (some value) config.localTtlCap } := by
          refine h.tiers.withNear fun held hheld => ?_
          -- the fill is of the last change
          rw [Ordered, hcall] at hordered
          rw [← Tiers.holds_nearSet hheld, List.getLast?_eq_getElem?, ← hordered]
          exact hchange
        exact h.move (hnear.answer hfloor hchange) List.prefix_rfl le_rfl trivial
      · cases hstep
  | set caller value ttl =>
      rw [step] at hstep
      split at hstep
      · obtain rfl := Option.some.inj hstep
        exact h.move (h.tiers.begin value _) (List.prefix_append _ _) le_rfl (List.getElem?_concat_length ..)
      · cases hstep
  | del caller =>
      rw [step] at hstep
      split at hstep
      · obtain rfl := Option.some.inj hstep
        exact h.move (h.tiers.begin none 0) (List.prefix_append _ _) le_rfl (List.getElem?_concat_length ..)
      · cases hstep
  | store caller =>
      rw [step] at hstep
      split at hstep
      · rename_i number value ttl hcall
        obtain rfl := Option.some.inj hstep
        have hchange := h.calls caller
        rw [hcall] at hchange
        rw [Ordered, hcall] at hordered
        exact h.move (h.tiers.store hchange hordered) List.prefix_rfl (le_max_left _ _) trivial
      · cases hstep
  | elsewhere other value ttl =>
      rw [step] at hstep
      split_ifs at hstep with hsame
      obtain rfl := Option.some.inj hstep
      refine ⟨h.tiers.withNear fun held hheld => ?_, h.calls⟩
      obtain ⟨hkey, -⟩ | ⟨-, hold⟩ := hheld.of_set
      · exact absurd hkey.symm hsame
      · exact h.tiers.near held hold
  | evict budgetBytes =>
      obtain rfl := Option.some.inj hstep
      exact ⟨h.tiers.withNear fun held hheld => h.tiers.near held hheld.of_evict, h.calls⟩
  | expire =>
      obtain rfl := Option.some.inj hstep
      exact ⟨{ h.tiers with shared := fun number held hshared => by cases hshared }, h.calls⟩
  | tick ticks =>
      obtain rfl := Option.some.inj hstep
      exact ⟨{ h.tiers with near := h.tiers.near }, h.calls⟩

/-- One shard of a kilobyte. -/
def emptyCache : MemoryCache where
  shards := fun _ => { budget := 1024 }

def oneKey : Config where
  hash := fun _ => 0
  key := ascii "key"

/-- A read fetches and fills, another hits, and a deletion and a set follow. -/
def inOrder : List (Label (Fin 2)) :=
  [.get 0, .fetch 0, .fill 0, .get 1, .del 1, .store 1, .get 0, .fetch 0, .set 0 (some (ascii "new")) 60,
    .store 0, .get 1]

end Step

end MonoBucket.FallbackTiers
