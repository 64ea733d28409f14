/-
Reads through the object cache

A read that missed before a commit may fill after the entry was dropped, and what
it fills is then read by everyone.

A run is watched against a clock that every write of the store advances. As long
as no read fills in what a dropped entry was already newer than, a read answers
what the store held at some moment no earlier than any commit responded to before
the read began.
-/

import MonoBucket.Server.ObjectCalls

namespace MonoBucket.ObjectCache

open S3 Codec FrontDoors

/-! ### Runs watched by a clock -/

/-- A run, with what the store held at every moment so far and, in moments, when
each call committed, read and could last have been told of a commit. -/
structure Timeline (ι : Type) where
  state : State ι
  now : Nat := 0
  rowsAt : Nat → Rows
  /-- A call's own commits. -/
  committed : ι → ObjectName → Nat := fun _ _ => 0
  /-- The latest commit whose entry has been dropped. -/
  dropped : ObjectName → Nat := fun _ => 0
  /-- The latest commit that has been responded to. -/
  acknowledged : ObjectName → Nat := fun _ => 0
  /-- When a call read the store. -/
  readAt : ι → Nat := fun _ => 0
  /-- The latest commit to its object that had been responded to when a read began. -/
  since : ι → Nat := fun _ => 0

section Watching

variable {ι : Type} [DecidableEq ι] (config : ServerConfig)

def Timeline.rows (watched : Timeline ι) : Rows := watched.state.shared.engine.metadata.rows

/-- A moment on, to what the store holds in `next`. -/
def Timeline.tick (watched : Timeline ι) (next : State ι) : Timeline ι :=
  { watched with
    state := next
    now := watched.now + 1
    rowsAt := Function.update watched.rowsAt (watched.now + 1) next.shared.engine.metadata.rows }

/-- What a step to `next` adds. -/
def Timeline.advance (watched : Timeline ι) (next : State ι) : Label ι → Timeline ι
  | .arrive who request =>
    { watched with
      state := next
      committed := Function.update watched.committed who fun _ => 0
      since :=
        match request with
        | .statObject name => Function.update watched.since who (watched.acknowledged name)
        | _ => watched.since }
  | .call who _ _ =>
    match watched.state.calls who, next.calls who with
    | .missed _, _ =>
      { watched with state := next, readAt := Function.update watched.readAt who watched.now }
    | .committing mutation _, .invalidating _ _ =>
      { watched.tick next with
        committed := Function.update watched.committed who
          (Function.update (watched.committed who) mutation.name (watched.now + 1)) }
    | .committing _ _, _ => watched.tick next
    | .invalidating name _, _ =>
      { watched with
        state := next
        dropped := Function.update watched.dropped name
          (max (watched.dropped name) (watched.committed who name)) }
    | .responding, _ =>
      { watched with
        state := next
        acknowledged := fun name => max (watched.acknowledged name) (watched.committed who name) }
    | _, _ => { watched with state := next }
  | .elsewhere _ => watched.tick next
  | .cache _ => { watched with state := next }

def watch (watched : Timeline ι) (label : Label ι) : Option (Timeline ι) :=
  (step config watched.state label).map fun next => watched.advance next label

theorem state_advance (watched : Timeline ι) (next : State ι) (label : Label ι) :
    (watched.advance next label).state = next := by
  cases label with
  | arrive who request => rfl
  | call who ticks now =>
      simp only [Timeline.advance]
      split <;> rfl
  | elsewhere write => rfl
  | cache use => rfl

/-- Watching changes nothing. -/
theorem run_watch (watched : Timeline ι) (labels : List (Label ι)) :
    (Trace.run (watch config) watched labels).map Timeline.state =
      Trace.run (step config) watched.state labels := by
  refine Trace.run_map (fun watched label => ?_) watched labels
  rw [watch, Option.map_map]
  show Option.map (fun next => (watched.advance next label).state) _ = _
  simp only [state_advance, Option.map_id']

end Watching

/-- What a fill is about to put in the cache. -/
def Phase.fills : Phase → Option ObjectName
  | .filling name _ => some name
  | _ => none

/-- A fill was read no earlier than any commit to its object whose entry has been
dropped. -/
def FillsCurrent {ι : Type} (watched : Timeline ι) : Label ι → Prop
  | .call who _ _ =>
    ∀ name ∈ (watched.state.calls who).fills, watched.dropped name ≤ watched.readAt who
  | _ => True

instance {ι : Type} (watched : Timeline ι) (label : Label ι) :
    Decidable (FillsCurrent watched label) :=
  match label with
  | .call who _ _ => inferInstanceAs (Decidable (∀ name ∈ (watched.state.calls who).fills, _))
  | .arrive .. | .elsewhere _ | .cache _ => isTrue trivial

/-- What the store answered at a moment of the run. -/
def Timeline.StoreAnswers {ι : Type} (watched : Timeline ι) (moment : Nat) (name : ObjectName)
    (answer : Option ObjectRecord) : Prop :=
  getObject (watched.rowsAt moment) name.bucket name.key.items = .ok answer

/-- An answer is the store's at some moment between two. -/
def Timeline.AnswersSince {ι : Type} (watched : Timeline ι) (since : Nat) (name : ObjectName)
    (answer : Option ObjectRecord) : Prop :=
  ∃ moment, since ≤ moment ∧ moment ≤ watched.now ∧ watched.StoreAnswers moment name answer

/-- Every read has answered what the store held at some moment no earlier than any
commit to the object responded to before the read began. -/
def ReadsWrites {ι : Type} (watched : Timeline ι) : Prop :=
  ∀ who name answer, watched.state.calls who = .answered name answer →
    watched.AnswersSince (watched.since who) name answer

/-! ### What a run keeps -/

section Kept

variable {ι : Type} {config : ServerConfig} {before after : Timeline ι} {who : ι}
  {name : ObjectName} {answer : Option ObjectRecord} {phase : Phase} {since : Nat}

/-- Where a call has got to, against the clock. -/
def Follows (watched : Timeline ι) (who : ι) : Phase → Prop
  | .looking name | .missed name => watched.since who ≤ watched.dropped name
  | .filling name record =>
    watched.since who ≤ watched.readAt who ∧ watched.readAt who ≤ watched.now ∧
      watched.StoreAnswers (watched.readAt who) name (some record)
  | .answered name answer => watched.AnswersSince (watched.since who) name answer
  | .invalidating name _ =>
    ∀ other, other ≠ name → watched.committed who other ≤ watched.dropped other
  | .checking .. | .committing .. | .responding =>
    ∀ name, watched.committed who name ≤ watched.dropped name
  | .idle | .done => True

/-- Every entry is what the store held at some moment since the latest commit
whose entry was dropped. -/
def EntriesCurrent (config : ServerConfig) (watched : Timeline ι) : Prop :=
  ∀ name stored record, watched.state.shared.cache.Holds config.hash name.cacheKey stored →
    decodeCachedObject stored = some record →
    watched.AnswersSince (watched.dropped name) name (some record)

structure Kept (config : ServerConfig) (watched : Timeline ι) : Prop where
  present : watched.rowsAt watched.now = watched.rows
  committed : ∀ who name, watched.committed who name ≤ watched.now
  dropped : ∀ name, watched.dropped name ≤ watched.now
  acknowledged : ∀ name, watched.acknowledged name ≤ watched.dropped name
  entries : EntriesCurrent config watched
  calls : ∀ who, Follows watched who (watched.state.calls who)

/-- Time has only passed. -/
structure Extends (before after : Timeline ι) : Prop where
  now : before.now ≤ after.now
  rowsAt : ∀ moment ≤ before.now, after.rowsAt moment = before.rowsAt moment
  dropped : ∀ name, before.dropped name ≤ after.dropped name

/-- Nothing is noted of a call but what was. -/
structure SameNotes (before after : Timeline ι) (who : ι) : Prop where
  committed : after.committed who = before.committed who
  readAt : after.readAt who = before.readAt who
  since : after.since who = before.since who

theorem AnswersSince.extend (hlater : Extends before after)
    (h : before.AnswersSince since name answer) : after.AnswersSince since name answer := by
  obtain ⟨moment, hsince, hnow, hanswers⟩ := h
  refine ⟨moment, hsince, hnow.trans hlater.now, ?_⟩
  rwa [Timeline.StoreAnswers, hlater.rowsAt moment hnow]

theorem AnswersSince.weaken {earlier : Nat} (h : before.AnswersSince since name answer)
    (hearlier : earlier ≤ since) : before.AnswersSince earlier name answer := by
  obtain ⟨moment, hsince, hnow, hanswers⟩ := h
  exact ⟨moment, hearlier.trans hsince, hnow, hanswers⟩

/-- A call that does not move keeps its place. -/
theorem Follows.extend (h : Follows before who phase) (hlater : Extends before after)
    (hsame : SameNotes before after who) : Follows after who phase := by
  cases phase with
  | idle => trivial
  | done => trivial
  | looking name =>
      show after.since who ≤ after.dropped name
      rw [hsame.since]
      exact le_trans h (hlater.dropped name)
  | missed name =>
      show after.since who ≤ after.dropped name
      rw [hsame.since]
      exact le_trans h (hlater.dropped name)
  | filling name record =>
      obtain ⟨hsince, hnow, hanswers⟩ := h
      show after.since who ≤ after.readAt who ∧ after.readAt who ≤ after.now ∧
        after.StoreAnswers (after.readAt who) name (some record)
      rw [hsame.since, hsame.readAt]
      refine ⟨hsince, hnow.trans hlater.now, ?_⟩
      rwa [Timeline.StoreAnswers, hlater.rowsAt _ hnow]
  | answered name answer =>
      show after.AnswersSince (after.since who) name answer
      rw [hsame.since]
      exact AnswersSince.extend hlater h
  | invalidating name rest =>
      intro other hother
      rw [hsame.committed]
      exact (h other hother).trans (hlater.dropped other)
  | checking name uploadId requested assembled =>
      intro name
      rw [hsame.committed]
      exact (h name).trans (hlater.dropped name)
  | committing mutation rest =>
      intro name
      rw [hsame.committed]
      exact (h name).trans (hlater.dropped name)
  | responding =>
      intro name
      rw [hsame.committed]
      exact (h name).trans (hlater.dropped name)

/-- Between keys and before the response, everything committed has been dropped. -/
theorem follows_next {rest : List Mutation}
    (h : ∀ name, after.committed who name ≤ after.dropped name) :
    Follows after who (Phase.next rest) := by
  cases rest <;> exact h

theorem EntriesCurrent.of_holds (h : EntriesCurrent config before) (hlater : Extends before after)
    (hdropped : after.dropped = before.dropped)
    (hcache : ∀ (name : ObjectName) stored,
      after.state.shared.cache.Holds config.hash name.cacheKey stored →
      before.state.shared.cache.Holds config.hash name.cacheKey stored) :
    EntriesCurrent config after := by
  intro name stored record hheld hdecode
  rw [hdropped]
  exact AnswersSince.extend hlater (h name stored record (hcache name stored hheld) hdecode)

theorem extends_state (before : Timeline ι) (next : State ι) :
    Extends before { before with state := next } := ⟨le_rfl, fun _ _ => rfl, fun _ => le_rfl⟩

theorem extends_tick (before : Timeline ι) (next : State ι) : Extends before (before.tick next) where
  now := Nat.le_succ _
  rowsAt _ hmoment := Function.update_of_ne (Nat.ne_of_lt (Nat.lt_succ_of_le hmoment)) ..
  dropped _ := le_rfl

theorem rowsAt_tick (before : Timeline ι) (next : State ι) :
    (before.tick next).rowsAt (before.tick next).now = next.shared.engine.metadata.rows :=
  Function.update_self ..

/-- The other requests' writes of the store only make time pass. -/
theorem Kept.elsewhere (h : Kept config before) (write : Elsewhere) :
    Kept config (before.tick { before.state with
      shared := { before.state.shared with engine := write.apply before.state.shared.engine } }) := by
  have hlater := extends_tick before { before.state with
    shared := { before.state.shared with engine := write.apply before.state.shared.engine } }
  exact
    { present := rowsAt_tick before _
      committed := fun who name => (h.committed who name).trans hlater.now
      dropped := fun name => (h.dropped name).trans hlater.now
      acknowledged := h.acknowledged
      entries := h.entries.of_holds hlater rfl fun _ _ hheld => hheld
      calls := fun who => (h.calls who).extend hlater ⟨rfl, rfl, rfl⟩ }

/-- No other use of the cache fills an object's entry. -/
theorem holds_of_cacheUse {cache : MemoryCache} {name : ObjectName} {stored : Bytes} (use : CacheUse)
    (h : (use.apply config cache).Holds config.hash name.cacheKey stored) :
    cache.Holds config.hash name.cacheKey stored := by
  cases use with
  | getBucket ticks bucket => exact MemoryCache.Holds.of_get h
  | putBucket ticks bucket record =>
      rcases MemoryCache.Holds.of_set h with ⟨hkey, -⟩ | ⟨-, holder⟩
      · exact absurd hkey (objectCacheKey_ne_bucketCacheKey _ _ _)
      · exact holder
  | delBucket bucket => exact MemoryCache.Holds.of_del h
  | evict ticks budgetBytes => exact MemoryCache.Holds.of_evict h

theorem Kept.cache (h : Kept config before) (use : CacheUse) :
    Kept config { before with
      state := { before.state with
        shared := { before.state.shared with
          cache := use.apply config before.state.shared.cache } } } := by
  have hlater := extends_state before { before.state with
    shared := { before.state.shared with cache := use.apply config before.state.shared.cache } }
  exact
    { present := h.present
      committed := h.committed
      dropped := h.dropped
      acknowledged := h.acknowledged
      entries := h.entries.of_holds hlater rfl fun _ _ hheld => holds_of_cacheUse use hheld
      calls := fun who => (h.calls who).extend hlater ⟨rfl, rfl, rfl⟩ }

end Kept

/-! ### One step -/

section Steps

variable {ι : Type} [DecidableEq ι] {config : ServerConfig} {before after : Timeline ι} {who : ι}
  {server : Server} {phase : Phase} {ticks : Int64} {now : TimestampMs}

/-- One call moves on, the notes of the others as they were. -/
theorem Kept.move (h : Kept config before) (hlater : Extends before after)
    (hstate : after.state = before.state.move who server phase)
    (hothers : ∀ other, other ≠ who → SameNotes before after other)
    (hpresent : after.rowsAt after.now = server.engine.metadata.rows)
    (hcommitted : ∀ name, after.committed who name ≤ after.now)
    (hdropped : ∀ name, after.dropped name ≤ after.now)
    (hacknowledged : ∀ name, after.acknowledged name ≤ after.dropped name)
    (hentries : EntriesCurrent config after) (hfollows : Follows after who phase) :
    Kept config after where
  present := by
    rw [Timeline.rows, hstate]
    exact hpresent
  committed other name := by
    by_cases hother : other = who
    · subst hother
      exact hcommitted name
    · rw [(hothers other hother).committed]
      exact (h.committed other name).trans hlater.now
  dropped := hdropped
  acknowledged := hacknowledged
  entries := hentries
  calls := by
    rw [hstate]
    refine (Pool.forall_move before.state who server phase).mpr ⟨hfollows, fun other hother => ?_⟩
    exact (h.calls other).extend hlater (hothers other hother)

/-- A step that writes neither the store nor an entry and is not noted. -/
theorem Kept.quiet (h : Kept config before)
    (hrows : server.engine.metadata.rows = before.rows)
    (hcache : ∀ (name : ObjectName) stored, server.cache.Holds config.hash name.cacheKey stored →
      before.state.shared.cache.Holds config.hash name.cacheKey stored)
    (hfollows : Follows before who phase) :
    Kept config { before with state := before.state.move who server phase } := by
  have hlater := extends_state before (before.state.move who server phase)
  refine h.move hlater rfl (fun _ _ => ⟨rfl, rfl, rfl⟩) ?_ (h.committed who) h.dropped
    h.acknowledged ?_ ?_
  · rw [hrows]
    exact h.present
  · exact h.entries.of_holds hlater rfl hcache
  · exact hfollows.extend hlater ⟨rfl, rfl, rfl⟩

/-- A call begins, told of nothing but what has been acknowledged. -/
theorem Kept.arrive (h : Kept config before) (request : Request) :
    Kept config (before.advance (before.state.move who before.state.shared
      (ObjectCache.arrive request)) (.arrive who request)) := by
  have hcommitted : ∀ name,
      (Function.update before.committed who fun _ => 0) who name ≤ before.dropped name := by
    intro name
    rw [Function.update_self]
    exact Nat.zero_le _
  have hlater : Extends before (before.advance (before.state.move who before.state.shared
      (ObjectCache.arrive request)) (.arrive who request)) :=
    ⟨le_rfl, fun _ _ => rfl, fun _ => le_rfl⟩
  refine h.move hlater rfl (fun other hother => ⟨?_, rfl, ?_⟩) h.present
    (fun name => (hcommitted name).trans (h.dropped name)) h.dropped h.acknowledged ?_ ?_
  · exact Function.update_of_ne hother ..
  · cases request <;> first | rfl | exact Function.update_of_ne hother ..
  · exact h.entries.of_holds hlater rfl fun _ _ hheld => hheld
  · cases request with
    | statObject name =>
        show Function.update before.since who (before.acknowledged name) who ≤ before.dropped name
        rw [Function.update_self]
        exact h.acknowledged name
    | putObject name object declared => exact hcommitted
    | deleteObject name => exact hcommitted
    | deleteObjects bucket valid keys => exact follows_next hcommitted
    | completeMultipartUpload name uploadId requested assembled => exact hcommitted

/-- A look into the cache: what is found is current, a miss asks the store. -/
theorem Kept.look (h : Kept config before) {name : ObjectName}
    (hphase : before.state.calls who = .looking name)
    (hact : act config ticks now before.state.shared (.looking name) = some (server, phase)) :
    Kept config { before with state := before.state.move who server phase } := by
  have hsince : before.since who ≤ before.dropped name := by
    have hfollows := h.calls who
    rwa [hphase] at hfollows
  have hget : ∀ (other : ObjectName) stored,
      (before.state.shared.cache.get config.hash ticks name.cacheKey).1.Holds config.hash
        other.cacheKey stored →
      before.state.shared.cache.Holds config.hash other.cacheKey stored :=
    fun _ _ hheld => hheld.of_get
  simp only [act] at hact
  split at hact
  · rename_i record hfound
    obtain ⟨rfl, rfl⟩ := Prod.mk.inj (Option.some.inj hact)
    obtain ⟨stored, hstored, hdecode⟩ := Option.bind_eq_some_iff.mp hfound
    have hanswers := h.entries name stored record (MemoryCache.holds_of_get hstored) hdecode
    exact h.quiet rfl hget (AnswersSince.weaken hanswers hsince)
  · obtain ⟨rfl, rfl⟩ := Prod.mk.inj (Option.some.inj hact)
    exact h.quiet rfl hget hsince

/-- A read of the store, noted with the moment it was made. -/
theorem Kept.read (h : Kept config before) {name : ObjectName}
    (hphase : before.state.calls who = .missed name)
    (hact : act config ticks now before.state.shared (.missed name) = some (server, phase)) :
    Kept config { before with
      state := before.state.move who server phase
      readAt := Function.update before.readAt who before.now } := by
  have hsince : before.since who ≤ before.now := by
    have hfollows := h.calls who
    rw [hphase] at hfollows
    exact le_trans hfollows (h.dropped name)
  have hmove : ∀ phase,
      Follows { before with
        state := before.state.move who before.state.shared phase
        readAt := Function.update before.readAt who before.now } who phase →
      Kept config { before with
        state := before.state.move who before.state.shared phase
        readAt := Function.update before.readAt who before.now } := by
    intro phase hfollows
    have hlater : Extends before { before with
        state := before.state.move who before.state.shared phase
        readAt := Function.update before.readAt who before.now } :=
      ⟨le_rfl, fun _ _ => rfl, fun _ => le_rfl⟩
    exact h.move hlater rfl (fun other hother => ⟨rfl, Function.update_of_ne hother .., rfl⟩)
      h.present (h.committed who) h.dropped h.acknowledged
      (h.entries.of_holds hlater rfl fun _ _ hheld => hheld) hfollows
  have hpresent : ∀ {answer}, getObject before.rows name.bucket name.key.items = .ok answer →
      before.StoreAnswers before.now name answer := by
    intro answer hanswer
    rw [Timeline.StoreAnswers, h.present]
    exact hanswer
  simp only [act] at hact
  split at hact
  · obtain ⟨rfl, rfl⟩ := Prod.mk.inj (Option.some.inj hact)
    exact hmove _ trivial
  · rename_i hanswer
    obtain ⟨rfl, rfl⟩ := Prod.mk.inj (Option.some.inj hact)
    exact hmove _ ⟨before.now, hsince, le_rfl, hpresent hanswer⟩
  · rename_i record hanswer
    obtain ⟨rfl, rfl⟩ := Prod.mk.inj (Option.some.inj hact)
    apply hmove
    show before.since who ≤ Function.update before.readAt who before.now who ∧
      Function.update before.readAt who before.now who ≤ before.now ∧
      before.StoreAnswers (Function.update before.readAt who before.now who) name (some record)
    rw [Function.update_self]
    exact ⟨hsince, le_rfl, hpresent hanswer⟩

/-- A fill that is not older than what has been dropped. -/
theorem Kept.fill (h : Kept config before) {name : ObjectName} {record : ObjectRecord}
    (hphase : before.state.calls who = .filling name record)
    (hcurrent : before.dropped name ≤ before.readAt who)
    (hact : act config ticks now before.state.shared (.filling name record) =
      some (server, phase)) :
    Kept config { before with state := before.state.move who server phase } := by
  obtain ⟨rfl, rfl⟩ := Prod.mk.inj (Option.some.inj hact)
  have hfollows := h.calls who
  rw [hphase] at hfollows
  obtain ⟨hsince, hnow, hanswers⟩ := hfollows
  have hlater := extends_state before (before.state.move who
    { before.state.shared with
      cache := before.state.shared.cache.set config.hash ticks name.cacheKey
        (encodeCachedObject name.key record) config.cacheTtlSeconds }
    (.answered name (some record)))
  refine h.move hlater rfl (fun _ _ => ⟨rfl, rfl, rfl⟩) h.present (h.committed who) h.dropped
    h.acknowledged ?_ ⟨before.readAt who, hsince, hnow, hanswers⟩
  intro other stored found hheld hdecode
  rcases MemoryCache.Holds.of_set hheld with ⟨hkey, rfl⟩ | ⟨-, holder⟩
  · obtain rfl := ObjectName.cacheKey_inj hkey
    have hrecord : record.key = other.key.items := key_of_getObject hanswers
    rw [decodeCachedObject_encodeCachedObject hrecord] at hdecode
    obtain rfl := Option.some.inj hdecode
    exact ⟨before.readAt who, hcurrent, hnow, hanswers⟩
  · exact AnswersSince.extend hlater (h.entries other stored found holder hdecode)

/-- A completion that names its upload rightly goes on to its commit. -/
theorem Kept.check (h : Kept config before) {name : ObjectName} {uploadId : Bytes}
    {requested : List StorageEngine.RequestedPart} {assembled : ObjectRecord}
    (hphase : before.state.calls who = .checking name uploadId requested assembled)
    (hact : act config ticks now before.state.shared
      (.checking name uploadId requested assembled) = some (server, phase)) :
    Kept config { before with state := before.state.move who server phase } := by
  have hfollows := h.calls who
  rw [hphase] at hfollows
  simp only [act] at hact
  split at hact
  · obtain ⟨rfl, rfl⟩ := Prod.mk.inj (Option.some.inj hact)
    exact h.quiet rfl (fun _ _ hheld => hheld) hfollows
  · obtain ⟨rfl, rfl⟩ := Prod.mk.inj (Option.some.inj hact)
    exact h.quiet rfl (fun _ _ hheld => hheld) hfollows

/-- A commit: the store moves on, and the call owes the object's entry a drop. -/
theorem Kept.commit (h : Kept config before) {mutation : Mutation} {rest : List Mutation}
    (hphase : before.state.calls who = .committing mutation rest)
    (hact : act config ticks now before.state.shared (.committing mutation rest) =
      some (server, phase)) :
    Kept config (before.advance (before.state.move who server phase) (.call who ticks now)) := by
  have hfollows := h.calls who
  rw [hphase] at hfollows
  have hlater := extends_tick before (before.state.move who server phase)
  have hdropped : ∀ name, before.dropped name ≤ before.now + 1 :=
    fun name => (h.dropped name).trans (Nat.le_succ _)
  have hcommitted : ∀ name, before.committed who name ≤ before.now + 1 :=
    fun name => (h.committed who name).trans (Nat.le_succ _)
  have hpresent := rowsAt_tick before (before.state.move who server phase)
  simp only [act] at hact
  split at hact
  · obtain ⟨rfl, rfl⟩ := Prod.mk.inj (Option.some.inj hact)
    have hadvance : ∀ server, before.advance (before.state.move who server (Phase.next rest))
        (.call who ticks now) = before.tick (before.state.move who server (Phase.next rest)) := by
      intro server
      simp only [Timeline.advance, hphase, Pool.move_calls_self]
      cases rest <;> rfl
    rw [hadvance]
    exact h.move hlater rfl (fun _ _ => ⟨rfl, rfl, rfl⟩) hpresent hcommitted hdropped
      h.acknowledged (h.entries.of_holds hlater rfl fun _ _ hheld => hheld)
      (follows_next hfollows)
  · rename_i engine _ _
    obtain ⟨rfl, rfl⟩ := Prod.mk.inj (Option.some.inj hact)
    have hadvance : before.advance (before.state.move who
          { before.state.shared with engine := engine } (.invalidating mutation.name rest))
        (.call who ticks now) =
        { before.tick (before.state.move who
            { before.state.shared with engine := engine } (.invalidating mutation.name rest)) with
          committed := Function.update before.committed who
            (Function.update (before.committed who) mutation.name (before.now + 1)) } := by
      simp only [Timeline.advance, hphase, Pool.move_calls_self]
    rw [hadvance]
    have hkept : Extends before
        { before.tick (before.state.move who
            { before.state.shared with engine := engine } (.invalidating mutation.name rest)) with
          committed := Function.update before.committed who
            (Function.update (before.committed who) mutation.name (before.now + 1)) } :=
      ⟨hlater.now, hlater.rowsAt, hlater.dropped⟩
    refine h.move hkept rfl (fun other hother => ⟨Function.update_of_ne hother .., rfl, rfl⟩)
      hpresent (fun name => ?_) hdropped h.acknowledged
      (h.entries.of_holds hkept rfl fun _ _ hheld => hheld) fun other hother => ?_
    · show Function.update before.committed who _ who name ≤ before.now + 1
      rw [Function.update_self]
      by_cases hname : name = mutation.name
      · rw [hname, Function.update_self]
      · rw [Function.update_of_ne hname]
        exact hcommitted name
    · show Function.update before.committed who _ who other ≤ before.dropped other
      rw [Function.update_self, Function.update_of_ne hother]
      exact hfollows other

/-- The entry goes, and with it what anyone could be told that is older. -/
theorem Kept.invalidate (h : Kept config before) {name : ObjectName} {rest : List Mutation}
    (hphase : before.state.calls who = .invalidating name rest)
    (hact : act config ticks now before.state.shared (.invalidating name rest) =
      some (server, phase)) :
    Kept config { before with
      state := before.state.move who server phase
      dropped := Function.update before.dropped name
        (max (before.dropped name) (before.committed who name)) } := by
  obtain ⟨rfl, rfl⟩ := Prod.mk.inj (Option.some.inj hact)
  have hfollows := h.calls who
  rw [hphase] at hfollows
  have hgrows : ∀ other, before.dropped other ≤ Function.update before.dropped name
      (max (before.dropped name) (before.committed who name)) other := by
    intro other
    by_cases hother : other = name
    · rw [hother, Function.update_self]
      exact le_max_left _ _
    · rw [Function.update_of_ne hother]
  have hlater : Extends before { before with
      state := before.state.move who
        (invalidateObject config name.bucket name.key.items before.state.shared) (Phase.next rest)
      dropped := Function.update before.dropped name
        (max (before.dropped name) (before.committed who name)) } :=
    ⟨le_rfl, fun _ _ => rfl, hgrows⟩
  refine h.move hlater rfl (fun _ _ => ⟨rfl, rfl, rfl⟩) h.present (h.committed who)
    (fun other => ?_) (fun other => (h.acknowledged other).trans (hgrows other)) ?_
    (follows_next fun other => ?_)
  · show Function.update before.dropped name _ other ≤ before.now
    by_cases hother : other = name
    · rw [hother, Function.update_self]
      exact max_le (h.dropped name) (h.committed who name)
    · rw [Function.update_of_ne hother]
      exact h.dropped other
  · intro other stored record hheld hdecode
    by_cases hother : other = name
    · subst hother
      exact absurd hheld MemoryCache.not_holds_del
    · show Timeline.AnswersSince _ (Function.update before.dropped name _ other) other (some record)
      rw [Function.update_of_ne hother]
      exact AnswersSince.extend hlater
        (h.entries other stored record (MemoryCache.Holds.of_del hheld) hdecode)
  · show before.committed who other ≤ Function.update before.dropped name _ other
    by_cases hother : other = name
    · rw [hother, Function.update_self]
      exact le_max_right _ _
    · rw [Function.update_of_ne hother]
      exact hfollows other hother

/-- The response, and with it everything the call committed acknowledged. -/
theorem Kept.respond (h : Kept config before)
    (hphase : before.state.calls who = .responding)
    (hact : act config ticks now before.state.shared .responding = some (server, phase)) :
    Kept config { before with
      state := before.state.move who server phase
      acknowledged := fun name => max (before.acknowledged name) (before.committed who name) } := by
  obtain ⟨rfl, rfl⟩ := Prod.mk.inj (Option.some.inj hact)
  have hfollows := h.calls who
  rw [hphase] at hfollows
  have hlater : Extends before { before with
      state := before.state.move who before.state.shared .done
      acknowledged := fun name => max (before.acknowledged name) (before.committed who name) } :=
    ⟨le_rfl, fun _ _ => rfl, fun _ => le_rfl⟩
  exact h.move hlater rfl (fun _ _ => ⟨rfl, rfl, rfl⟩) h.present (h.committed who) h.dropped
    (fun name => max_le (h.acknowledged name) (hfollows name))
    (h.entries.of_holds hlater rfl fun _ _ hheld => hheld) trivial

theorem Kept.call (h : Kept config before) (hcurrent : FillsCurrent before (.call who ticks now))
    (hact : act config ticks now before.state.shared (before.state.calls who) =
      some (server, phase)) :
    Kept config (before.advance (before.state.move who server phase) (.call who ticks now)) := by
  cases hphase : before.state.calls who with
  | idle => rw [hphase] at hact; cases hact
  | answered name answer => rw [hphase] at hact; cases hact
  | done => rw [hphase] at hact; cases hact
  | looking name =>
      rw [hphase] at hact
      simp only [Timeline.advance, hphase]
      exact h.look hphase hact
  | missed name =>
      rw [hphase] at hact
      simp only [Timeline.advance, hphase]
      exact h.read hphase hact
  | filling name record =>
      rw [hphase] at hact
      simp only [Timeline.advance, hphase]
      refine h.fill hphase (hcurrent name ?_) hact
      rw [hphase]
      rfl
  | checking name uploadId requested assembled =>
      rw [hphase] at hact
      simp only [Timeline.advance, hphase]
      exact h.check hphase hact
  | committing mutation rest =>
      rw [hphase] at hact
      exact h.commit hphase hact
  | invalidating name rest =>
      rw [hphase] at hact
      simp only [Timeline.advance, hphase]
      exact h.invalidate hphase hact
  | responding =>
      rw [hphase] at hact
      simp only [Timeline.advance, hphase]
      exact h.respond hphase hact

theorem Kept.step {label : Label ι} (h : Kept config before) (hcurrent : FillsCurrent before label)
    (hstep : watch config before label = some after) : Kept config after := by
  obtain ⟨next, hnext, rfl⟩ := Option.map_eq_some_iff.mp hstep
  cases label with
  | arrive who request =>
      simp only [ObjectCache.step] at hnext
      split at hnext
      · obtain rfl := Option.some.inj hnext
        exact h.arrive request
      · cases hnext
  | call who ticks now =>
      obtain ⟨⟨server, phase⟩, hact, rfl⟩ := Option.map_eq_some_iff.mp hnext
      exact h.call hcurrent hact
  | elsewhere write =>
      obtain rfl := Option.some.inj hnext
      exact h.elsewhere write
  | cache use =>
      obtain rfl := Option.some.inj hnext
      exact h.cache use

end Steps

/-! ### Runs -/

section Runs

variable {ι : Type} [DecidableEq ι] {config : ServerConfig}

/-- The server with a cold cache and no request begun. -/
def coldStart (engine : StorageEngine) (cache : MemoryCache) : Timeline ι where
  state := ⟨⟨engine, cache⟩, fun _ => .idle⟩
  rowsAt := fun _ => engine.metadata.rows

/-- From a cold cache, as long as no read fills in what a dropped entry was already
newer than, a read that begins after a commit was responded to answers what the
store held no earlier than that commit. -/
theorem readsWrites_of_fillsCurrent {engine : StorageEngine} {cache : MemoryCache}
    {final : Timeline ι} {labels : List (Label ι)}
    (hcold : ∀ (name : ObjectName) stored, ¬ cache.Holds config.hash name.cacheKey stored)
    (hfills : Trace.Every (watch config) FillsCurrent (coldStart engine cache) labels)
    (hrun : Trace.run (watch config) (coldStart engine cache) labels = some final) :
    ReadsWrites final := by
  have hstart : Kept config (coldStart engine cache : Timeline ι) :=
    { present := rfl
      committed := fun _ _ => le_rfl
      dropped := fun _ => le_rfl
      acknowledged := fun _ => le_rfl
      entries := fun name stored _ hheld => absurd hheld (hcold name stored)
      calls := fun _ => trivial }
  have hkept : ∀ {before after : Timeline ι} {label : Label ι}, Kept config before →
      FillsCurrent before label → watch config before label = some after → Kept config after :=
    fun h hcurrent hstep => h.step hcurrent hstep
  have hfinal := hfills.run_invariant hkept hstart hrun
  intro who name answer hanswered
  have hfollows := hfinal.calls who
  rwa [hanswered] at hfollows

end Runs

/-! ### Fixed runs -/

section Fixed

def cat : ObjectName where
  bucket := photos
  key := ⟨ascii "cat", fits_cat⟩
  valid := by decide

def catRecord (blobId : Text) : ObjectRecord := { key := ascii "cat", blobId := blobId, size := 1 }

def firstBlob : Text := ⟨ascii "a", fits_a⟩

def secondBlob : Text := ⟨ascii "b", fits_b⟩

def start : Timeline (Fin 4) :=
  coldStart { coldServer.engine with maxUploadBytes := 1000 } smallCache

def after (labels : List (Label (Fin 4))) : Timeline (Fin 4) :=
  (Trace.run (watch smallConfig) start labels).getD start

/-- A whole write of the object by one call. -/
def writes (who : Fin 4) (blobId : Text) : List (Label (Fin 4)) :=
  [.arrive who (.putObject cat (catRecord blobId) 1), .call who 0 0, .call who 0 0, .call who 0 0]

/-- A call asks for the object, finds no entry and reads the store. -/
def misses (who : Fin 4) : List (Label (Fin 4)) :=
  [.arrive who (.statObject cat), .call who 0 0, .call who 0 0]

/-- The entry a read fills goes with the next write. -/
def currentRun : List (Label (Fin 4)) :=
  [.elsewhere (.createBucket photos 1000 0)] ++ writes 0 firstBlob ++ misses 1 ++ [.call 1 0 0] ++
    writes 2 secondBlob ++ misses 3 ++ [.call 3 0 0]

theorem readsWrites_of_fillsCurrent_currentRun : ReadsWrites (after currentRun) := by
  have hruns : (Trace.run (watch smallConfig) start currentRun).isSome := by decide +kernel
  obtain ⟨final, hfinal⟩ := Option.isSome_iff_exists.mp hruns
  have hafter : after currentRun = final := by rw [after, hfinal]; rfl
  rw [hafter]
  have hcold : ∀ (name : ObjectName) stored,
      ¬ smallCache.Holds smallConfig.hash name.cacheKey stored := by
    rintro name stored ⟨node, hnode, -⟩
    cases hnode
  exact readsWrites_of_fillsCurrent hcold (by decide +kernel) hfinal

/-- The write comes between the read and the fill. -/
def staleRun : List (Label (Fin 4)) :=
  [.elsewhere (.createBucket photos 1000 0)] ++ writes 0 firstBlob ++ misses 1 ++
    writes 2 secondBlob ++ [.call 1 0 0, .arrive 3 (.statObject cat), .call 3 0 0]

def Phase.answer : Phase → Option ObjectRecord
  | .answered _ answer => answer
  | _ => none

/-- The last read begins after the second write was responded to, and answers the
record the first one committed. -/
theorem read_after_write_answers_old_record :
    (Trace.run (watch smallConfig) start staleRun).isSome ∧
      (after staleRun).now = 3 ∧ (after staleRun).since 3 = 3 ∧
      ((after staleRun).state.calls 3).answer.map ObjectRecord.blobId = some firstBlob ∧
      ¬ ReadsWrites (after staleRun) := by
  have hnow : (after staleRun).now = 3 := by decide +kernel
  have hsince : (after staleRun).since 3 = 3 := by decide +kernel
  have hanswer : (after staleRun).state.calls 3 = .answered cat (some (catRecord firstBlob)) := by
    rfl
  have hstored : getObject ((after staleRun).rowsAt 3) cat.bucket cat.key.items =
      .ok (some (catRecord secondBlob)) := by decide +kernel
  refine ⟨by decide +kernel, hnow, hsince, by rw [hanswer]; rfl, fun hreads => ?_⟩
  obtain ⟨moment, hlow, hhigh, hanswers⟩ := hreads 3 cat _ hanswer
  rw [hsince] at hlow
  rw [hnow] at hhigh
  obtain rfl := le_antisymm hhigh hlow
  rw [Timeline.StoreAnswers, hstored] at hanswers
  exact absurd hanswers (by decide)

end Fixed

end MonoBucket.ObjectCache
