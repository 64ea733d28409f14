/-
Listing objects

One page of a listing walks the rows under a prefix, jumps each rolled-up group
with one seek, and stops when it is full. What a client resumes from is the last
entry of the page; the resume point passes over everything that starts with it
when it ends with the delimiter, which is right for a rolled-up group and wrong
for an object whose own key ends with the delimiter.
-/

import MonoBucket.Lib.RollUp
import MonoBucket.Storage.MetadataStore

namespace MonoBucket

open Codec

structure ListObjectsRequest where
  keyPrefix : Bytes := []
  delimiter : Bytes := []
  startAfter : Bytes := []
  maxKeys : UInt32 := 1000
  deriving DecidableEq

structure ListObjectsResult where
  objects : List ObjectRecord := []
  commonPrefixes : List Bytes := []
  truncated : Bool := false
  nextStartAfter : Bytes := []
  deriving DecidableEq

/-! ### One page -/

/-- What the loop has emitted, and where its iterator is. -/
structure ListState where
  objects : List ObjectRecord := []
  commonPrefixes : List Bytes := []
  lastEmitted : Bytes := []
  position : List (Bytes × Bytes)
  deriving DecidableEq

/-- The key the first page, or the next one, seeks to. -/
def resumePoint (tablePrefix : Bytes) (request : ListObjectsRequest) : Bytes :=
  if request.startAfter = [] ∨ request.startAfter < request.keyPrefix then
    tablePrefix ++ request.keyPrefix
  else if request.delimiter ≠ [] ∧ request.delimiter <:+ request.startAfter then
    match Keys.upperBound (tablePrefix ++ request.startAfter) with
    | some next => next
    | none => tablePrefix ++ request.startAfter ++ [Keys.separator]
  else tablePrefix ++ request.startAfter ++ [Keys.separator]

section Page

variable (rows : Rows) (tablePrefix : Bytes) (request : ListObjectsRequest)

def scanPrefix : Bytes := tablePrefix ++ request.keyPrefix

/-- An iterator under the scan's bound. -/
def seekTo (target : Bytes) : List (Bytes × Bytes) :=
  rows.seek (Keys.upperBound (scanPrefix tablePrefix request)) target

/-- The loop of `listObjects`. Every turn emits one entry, so a page's room
bounds the turns. -/
def listLoop : Nat → ListState → Except StoreError ListState
  | 0, state => .ok state
  | room + 1, state =>
    match state.position with
    | [] => .ok state
    | row :: rest =>
      if ¬ scanPrefix tablePrefix request <+: row.1 then .ok state
      else
        let key := row.1.drop tablePrefix.length
        match RollUp.common? request.keyPrefix request.delimiter key with
        | some common =>
          let state :=
            { state with
              commonPrefixes := state.commonPrefixes ++ [common]
              lastEmitted := common }
          match Keys.upperBound (tablePrefix ++ common) with
          | none => .ok state
          | some next =>
            listLoop room { state with position := seekTo rows tablePrefix request next }
        | none => do
          let object ← decoded (decodeObject key row.2)
          listLoop room
            { state with
              objects := state.objects ++ [object]
              lastEmitted := object.key
              position := rest }

/-- Truncated when something under the prefix is left at the iterator. -/
def pageOf (state : ListState) : ListObjectsResult :=
  let truncated := state.position.head?.any fun row => scanPrefix tablePrefix request <+: row.1
  { objects := state.objects
    commonPrefixes := state.commonPrefixes
    truncated := truncated
    nextStartAfter := if truncated then state.lastEmitted else [] }

end Page

def listObjects (rows : Rows) (bucket : Bytes) (request : ListObjectsRequest) :
    Except StoreError ListObjectsResult := do
  requireBucket rows bucket
  let tablePrefix := Keys.objectPrefix bucket
  if request.maxKeys = 0 then
    pure { truncated := rows.hasAny (tablePrefix ++ request.keyPrefix) }
  else
    let state ← listLoop rows tablePrefix request request.maxKeys.toNat
      { position := seekTo rows tablePrefix request (resumePoint tablePrefix request) }
    pure (pageOf tablePrefix request state)

/-! ### Page after page -/

/-- A client reading a listing to its end: pages until one is not truncated.
Nothing when `fuel` pages were not enough. -/
def listPages (rows : Rows) (bucket : Bytes) :
    Nat → ListObjectsRequest → Except StoreError (Option (List ListObjectsResult))
  | 0, _ => .ok none
  | fuel + 1, request => do
    let page ← listObjects rows bucket request
    if page.truncated then
      let rest ← listPages rows bucket fuel { request with startAfter := page.nextStartAfter }
      pure (rest.map fun pages => page :: pages)
    else pure (some [page])

namespace Listing

/-! ### Positions of the iterator -/

section Positions

variable {rows : Rows} {tablePrefix : Bytes} {request : ListObjectsRequest}

variable (rows tablePrefix request) in
/-- The rows under the scan's prefix. -/
def scanned : List (Bytes × Bytes) :=
  rows.entries.filter fun row => scanPrefix tablePrefix request <+: row.1

/-- The rows of the scan at or behind a key. -/
def behindKey (listed : List (Bytes × Bytes)) (target : Bytes) : List (Bytes × Bytes) :=
  listed.filter fun row => target ≤ row.1

theorem scanned_ascending :
    (scanned rows tablePrefix request).Pairwise fun first second => first.1 < second.1 :=
  rows.ordered.filter _

/-- Seeking to or past the prefix visits the rows of the scan from there on. -/
theorem seekTo_eq_behindKey {target : Bytes}
    (htarget : scanPrefix tablePrefix request ≤ target) :
    seekTo rows tablePrefix request target =
      behindKey (scanned rows tablePrefix request) target := by
  rw [seekTo, Rows.seek_eq_filter, behindKey, scanned, List.filter_filter]
  apply List.filter_congr
  intro row _
  rw [Bool.eq_iff_iff, Bool.and_eq_true, decide_eq_true_eq, decide_eq_true_eq,
    decide_eq_true_eq, Keys.isPrefix_iff_upperBound]
  constructor
  · rintro ⟨hle, hbound⟩
    exact ⟨hle, htarget.trans hle, hbound⟩
  · rintro ⟨hle, -, hbound⟩
    exact ⟨hle, hbound⟩

/-- Going on from a later key looks only at what was left. -/
theorem behindKey_behindKey {listed : List (Bytes × Bytes)} {target later : Bytes}
    (h : target ≤ later) : behindKey (behindKey listed target) later = behindKey listed later := by
  rw [behindKey, behindKey, behindKey, List.filter_filter]
  apply List.filter_congr
  intro row _
  rw [Bool.eq_iff_iff, Bool.and_eq_true, decide_eq_true_eq, decide_eq_true_eq]
  exact ⟨fun hboth => hboth.1, fun hle => ⟨hle, h.trans hle⟩⟩

/-- One step of the iterator: what is left is what lies behind the row's key. -/
theorem rest_eq_behindKey {listed rest : List (Bytes × Bytes)} {row : Bytes × Bytes}
    {target : Bytes}
    (hlisted : listed.Pairwise fun first second => first.1 < second.1)
    (h : behindKey listed target = row :: rest) :
    rest = behindKey listed (row.1 ++ [Keys.separator]) := by
  have hrow : target ≤ row.1 := by
    have hmem : row ∈ behindKey listed target := by rw [h]; exact List.mem_cons_self ..
    exact of_decide_eq_true (List.mem_filter.mp hmem).2
  have hsuccessor : ∀ other : Bytes × Bytes,
      (row.1 ++ [Keys.separator] ≤ other.1) ↔ row.1 < other.1 := fun other =>
    (List.lt_iff_concat_le UInt8.zero_isBot).symm
  have hascending := hlisted.filter fun other => target ≤ other.1
  rw [← behindKey_behindKey (hrow.trans (List.lt_concat row.1 Keys.separator).le), h, behindKey]
  rw [show listed.filter (fun other => target ≤ other.1) = row :: rest from h] at hascending
  rw [List.filter_cons_of_neg (by simp [hsuccessor])]
  symm
  apply List.filter_eq_self.mpr
  intro other hother
  exact decide_eq_true ((hsuccessor other).mpr (List.rel_of_pairwise_cons hascending hother))

/-- One jump over a rolled-up group: what is left is what does not start with it. -/
theorem behindKey_upperBound {listed rest : List (Bytes × Bytes)} {row : Bytes × Bytes}
    {target group next : Bytes}
    (hlisted : listed.Pairwise fun first second => first.1 < second.1)
    (h : behindKey listed target = row :: rest) (hgroup : group <+: row.1)
    (hnext : Keys.upperBound group = some next) :
    behindKey listed next = rest.filter fun other => ¬ group <+: other.1 := by
  obtain ⟨hgroupRow, hrowNext⟩ := (Keys.isPrefix_iff_upperBound group row.1).mp hgroup
  have hrow : target ≤ row.1 := by
    have hmem : row ∈ behindKey listed target := by rw [h]; exact List.mem_cons_self ..
    exact of_decide_eq_true (List.mem_filter.mp hmem).2
  have hbefore := hrowNext next hnext
  have hascending := hlisted.filter fun other => target ≤ other.1
  rw [show listed.filter (fun other => target ≤ other.1) = row :: rest from h] at hascending
  rw [← behindKey_behindKey (hrow.trans hbefore.le), h, behindKey,
    List.filter_cons_of_neg (by simpa using hbefore)]
  apply List.filter_congr
  intro other hother
  have hlater : group ≤ other.1 :=
    hgroupRow.trans (List.rel_of_pairwise_cons hascending hother).le
  rw [Bool.eq_iff_iff, decide_eq_true_eq, decide_eq_true_eq, Keys.isPrefix_iff_upperBound, hnext]
  simp [hlater]

end Positions

/-! ### One page -/

section OnePage

variable {rows : Rows} {bucket : Bytes} {request : ListObjectsRequest}

/-- The key of an object's row. -/
def keyOf (bucket : Bytes) (row : Bytes × Bytes) : Bytes :=
  row.1.drop (Keys.objectPrefix bucket).length

theorem eq_keyOf {row : Bytes × Bytes}
    (hrow : row ∈ scanned rows (Keys.objectPrefix bucket) request) :
    row.1 = Keys.objectPrefix bucket ++ keyOf bucket row ∧
      request.keyPrefix <+: keyOf bucket row := by
  have hstarts := of_decide_eq_true (List.mem_filter.mp hrow).2
  obtain ⟨rest, hrest⟩ := hstarts
  have hkey : keyOf bucket row = request.keyPrefix ++ rest := by
    rw [keyOf, ← hrest, scanPrefix, List.append_assoc, List.drop_left]
  rw [hkey]
  exact ⟨by rw [← hrest, scanPrefix, List.append_assoc], List.prefix_append _ _⟩

theorem keyOf_lt_keyOf {first second : Bytes × Bytes}
    (hfirst : first ∈ scanned rows (Keys.objectPrefix bucket) request)
    (hsecond : second ∈ scanned rows (Keys.objectPrefix bucket) request)
    (hlt : first.1 < second.1) : keyOf bucket first < keyOf bucket second := by
  rw [(eq_keyOf hfirst).1, (eq_keyOf hsecond).1, List.append_lt_append_left_iff] at hlt
  exact hlt

theorem keys_ascending {listed : List (Bytes × Bytes)}
    (h : listed.Sublist (scanned rows (Keys.objectPrefix bucket) request)) :
    (listed.map (keyOf bucket)).Pairwise (· < ·) := by
  rw [List.pairwise_map]
  have hlisted := scanned_ascending.sublist h
  exact hlisted.imp_of_mem fun {first second} hfirst hsecond hlt =>
    keyOf_lt_keyOf (h.subset hfirst) (h.subset hsecond) hlt

/-- A rolled-up part of a key in the table can be stepped over: its row key
starts with the table's tag. -/
theorem exists_upperBound_objectPrefix (bucket common : Bytes) :
    ∃ next, Keys.upperBound (Keys.objectPrefix bucket ++ common) = some next :=
  have hmem : Keys.kObject ∈ Keys.objectPrefix bucket ++ common :=
    List.mem_append_left _ (List.mem_cons_self ..)
  Keys.exists_upperBound_eq_some hmem (by decide)

/-- What a run of the loop puts on the page: names of keys on one list, names of
rolled-up parts on the other, and the last one as the place to go on from. -/
structure Emits (request : ListObjectsRequest) (names : List Bytes)
    (before after : ListState) : Prop where
  objects : after.objects.map ObjectRecord.key =
    before.objects.map ObjectRecord.key ++ names.filter fun name =>
      RollUp.common? request.keyPrefix request.delimiter name = none
  commonPrefixes : after.commonPrefixes =
    before.commonPrefixes ++ names.filter fun name =>
      RollUp.common? request.keyPrefix request.delimiter name ≠ none
  lastEmitted : after.lastEmitted = names.getLast?.getD before.lastEmitted

namespace Emits

variable {names : List Bytes} {before after : ListState}

theorem nil (state : ListState) : Emits request [] state state :=
  ⟨by simp, by simp, rfl⟩

theorem getLast?_getD_cons {name : Bytes} {names : List Bytes} {other : Bytes} :
    (name :: names).getLast?.getD other = names.getLast?.getD name := by
  rw [List.getLast?_cons, Option.getD_some]

theorem object {object : ObjectRecord} {position : List (Bytes × Bytes)}
    (hshown : RollUp.common? request.keyPrefix request.delimiter object.key = none)
    (h : Emits request names
      { before with
        objects := before.objects ++ [object]
        lastEmitted := object.key
        position := position } after) :
    Emits request (object.key :: names) before after := by
  refine ⟨?_, ?_, ?_⟩
  · rw [h.objects, List.filter_cons_of_pos (by simpa using hshown)]
    simp
  · rw [h.commonPrefixes, List.filter_cons_of_neg (by simpa using hshown)]
  · rw [h.lastEmitted, getLast?_getD_cons]

theorem commonPrefix {common : Bytes} {position : List (Bytes × Bytes)}
    (hshown : RollUp.common? request.keyPrefix request.delimiter common ≠ none)
    (h : Emits request names
      { before with
        commonPrefixes := before.commonPrefixes ++ [common]
        lastEmitted := common
        position := position } after) :
    Emits request (common :: names) before after := by
  refine ⟨?_, ?_, ?_⟩
  · rw [h.objects, List.filter_cons_of_neg (by simpa using hshown)]
  · rw [h.commonPrefixes, List.filter_cons_of_pos (by simpa using hshown)]
    simp
  · rw [h.lastEmitted, getLast?_getD_cons]

end Emits

/-- Every row of the scan is a stored object. -/
def Readable (rows : Rows) (bucket : Bytes) (request : ListObjectsRequest) : Prop :=
  ∀ row ∈ scanned rows (Keys.objectPrefix bucket) request,
    ∃ record, decodeObject (keyOf bucket row) row.2 = .ok record ∧
      record.key = keyOf bucket row

/-- The names the rows at an iterator are listed as. -/
def namesAt (bucket : Bytes) (request : ListObjectsRequest) (position : List (Bytes × Bytes)) :
    List Bytes :=
  RollUp.listing request.keyPrefix request.delimiter (position.map (keyOf bucket))

/-- One turn of the loop at an object row that shows up by itself, and one at the
first row of a group: what it emits is the first name, and what it leaves at the
iterator are the other names. -/
theorem namesAt_cons_of_none {row : Bytes × Bytes} {rest : List (Bytes × Bytes)}
    (hrows : (row :: rest).Sublist (scanned rows (Keys.objectPrefix bucket) request))
    (h : RollUp.common? request.keyPrefix request.delimiter (keyOf bucket row) = none) :
    namesAt bucket request (row :: rest) = keyOf bucket row :: namesAt bucket request rest :=
  RollUp.listing_cons_of_none (keys_ascending hrows) h

theorem namesAt_cons_of_some {row : Bytes × Bytes} {rest : List (Bytes × Bytes)} {common : Bytes}
    (hrows : (row :: rest).Sublist (scanned rows (Keys.objectPrefix bucket) request))
    (h : RollUp.common? request.keyPrefix request.delimiter (keyOf bucket row) = some common) :
    namesAt bucket request (row :: rest) =
      common :: namesAt bucket request
        (rest.filter fun other => ¬ Keys.objectPrefix bucket ++ common <+: other.1) := by
  rw [namesAt, List.map_cons, RollUp.listing_cons_of_some (keys_ascending hrows) h, namesAt,
    List.filter_map]
  congr 3
  apply List.filter_congr
  intro other hother
  have hkey := (eq_keyOf (hrows.subset (List.mem_cons_of_mem _ hother))).1
  rw [Function.comp_apply, Bool.eq_iff_iff, decide_eq_true_eq, decide_eq_true_eq,
    show other.1 = Keys.objectPrefix bucket ++ keyOf bucket other from hkey,
    List.prefix_append_right_inj]

/-- The loop fills a page with the first names behind its iterator, and uses the
iterator up exactly when they all fit. -/
theorem listLoop_spec (hreadable : Readable rows bucket request) (room : Nat) {state : ListState}
    {target : Bytes}
    (hposition : state.position =
      behindKey (scanned rows (Keys.objectPrefix bucket) request) target) :
    ∃ final, listLoop rows (Keys.objectPrefix bucket) request room state = .ok final ∧
      Emits request ((namesAt bucket request state.position).take room) state final ∧
      (∃ later, final.position =
        behindKey (scanned rows (Keys.objectPrefix bucket) request) later) ∧
      (final.position = [] ↔ (namesAt bucket request state.position).length ≤ room) := by
  induction room generalizing state target with
  | zero =>
      refine ⟨state, rfl, by rw [List.take_zero]; exact Emits.nil state, ⟨target, hposition⟩, ?_⟩
      rw [Nat.le_zero, List.length_eq_zero_iff, namesAt]
      constructor
      · intro hempty
        rw [hempty]
        rfl
      · intro hempty
        by_contra hsome
        exact RollUp.listing_ne_nil (List.map_eq_nil_iff.not.mpr hsome) hempty
  | succ room ih =>
      cases hrows : state.position with
      | nil =>
          refine ⟨state, by rw [listLoop, hrows], Emits.nil state, ⟨target, hposition⟩, ?_⟩
          rw [hrows]
          exact iff_of_true rfl (Nat.zero_le _)
      | cons row rest =>
          rw [hrows] at hposition
          have hsublist : (row :: rest).Sublist
              (scanned rows (Keys.objectPrefix bucket) request) := by
            rw [hposition]
            exact List.filter_sublist
          have hrow := hsublist.subset (List.mem_cons_self ..)
          have hstarts := of_decide_eq_true (List.mem_filter.mp hrow).2
          cases hshown : RollUp.common? request.keyPrefix request.delimiter (keyOf bucket row) with
          | none =>
              obtain ⟨record, hrecord, hkey⟩ := hreadable row hrow
              have hstep : ListState.position
                    { state with
                      objects := state.objects ++ [record]
                      lastEmitted := record.key
                      position := rest } =
                  behindKey (scanned rows (Keys.objectPrefix bucket) request)
                    (row.1 ++ [Keys.separator]) :=
                rest_eq_behindKey scanned_ascending hposition.symm
              obtain ⟨final, hfinal, hemits, hlater, hdone⟩ := ih hstep
              refine ⟨final, ?_, ?_, hlater, ?_⟩
              · rw [listLoop, hrows]
                dsimp only
                rw [if_neg (not_not.mpr hstarts),
                  show RollUp.common? request.keyPrefix request.delimiter
                    (row.1.drop (Keys.objectPrefix bucket).length) = none from hshown]
                dsimp only
                rw [show decodeObject (row.1.drop (Keys.objectPrefix bucket).length) row.2 =
                  .ok record from hrecord]
                exact hfinal
              · rw [namesAt_cons_of_none hsublist hshown, List.take_succ_cons, ← hkey]
                exact Emits.object (hkey ▸ hshown) hemits
              · rw [hdone, namesAt_cons_of_none hsublist hshown, List.length_cons,
                  Nat.add_le_add_iff_right]
          | some common =>
              obtain ⟨next, hnext⟩ := exists_upperBound_objectPrefix bucket common
              have hgroup : Keys.objectPrefix bucket ++ common <+: row.1 := by
                rw [(eq_keyOf hrow).1, List.prefix_append_right_inj]
                exact RollUp.common_isPrefix hshown
              have hfront : scanPrefix (Keys.objectPrefix bucket) request ≤ next :=
                (List.le_of_isPrefix hstarts).trans
                  (((Keys.isPrefix_iff_upperBound _ _).mp hgroup).2 next hnext).le
              have hseek : seekTo rows (Keys.objectPrefix bucket) request next =
                  behindKey (scanned rows (Keys.objectPrefix bucket) request) next :=
                seekTo_eq_behindKey hfront
              have hskipped := behindKey_upperBound scanned_ascending hposition.symm hgroup hnext
              have hstep : ListState.position
                    { state with
                      commonPrefixes := state.commonPrefixes ++ [common]
                      lastEmitted := common
                      position := seekTo rows (Keys.objectPrefix bucket) request next } =
                  behindKey (scanned rows (Keys.objectPrefix bucket) request) next :=
                hseek
              obtain ⟨final, hfinal, hemits, hlater, hdone⟩ := ih hstep
              dsimp only at hemits hdone
              rw [hseek, hskipped] at hemits hdone
              refine ⟨final, ?_, ?_, hlater, ?_⟩
              · rw [listLoop, hrows]
                dsimp only
                rw [if_neg (not_not.mpr hstarts),
                  show RollUp.common? request.keyPrefix request.delimiter
                    (row.1.drop (Keys.objectPrefix bucket).length) = some common from hshown]
                dsimp only
                rw [hnext]
                exact hfinal
              · rw [namesAt_cons_of_some hsublist hshown, List.take_succ_cons]
                have hself : RollUp.common? request.keyPrefix request.delimiter common ≠ none := by
                  rw [RollUp.common?_of_isPrefix hshown (List.prefix_refl _)]
                  exact Option.some_ne_none _
                exact Emits.commonPrefix hself hemits
              · rw [hdone, namesAt_cons_of_some hsublist hshown, List.length_cons,
                  Nat.add_le_add_iff_right]

end OnePage

end Listing

end MonoBucket
