/-
The grammar of bucket policies

A policy is understood when it is a JSON object of the small grammar below, and then
grants what its statements pair: an action with a resource the action reaches. The
analysis decides this grammar, except where it throws: an `Effect` that is no string
is read with a call that throws, so a statement that is in order up to there ends the
analysis, and the request, with an error of the JSON library.
-/

import Mathlib.Data.List.TakeWhile
import MonoBucket.S3.BucketPolicy

namespace MonoBucket.S3

/-! ### The grammar -/

/-- A string, or a list of strings that is not empty. -/
inductive Entries : Json → List Bytes → Prop
  | one (value : Bytes) : Entries (.string value) [value]
  | many {values : List Bytes} (nonempty : values ≠ []) :
    Entries (.array (values.map Json.string)) values

/-- The two ways to write everyone. -/
inductive Everyone : Json → Prop
  | star : Everyone (.string (ascii "*"))
  | aws {field : Json} {values : List Bytes} (entries : Entries field values)
    (all : ∀ value ∈ values, value = ascii "*") : Everyone (.object [(ascii "AWS", field)])

/-- A resource that names the bucket, its objects, or both. -/
inductive KnownResource (bucket : Bytes) : Bytes → Scope → Prop
  | both : KnownResource bucket (ascii "*") .both
  | bucket : KnownResource bucket (arnPrefix ++ bucket) .bucket
  | objects : KnownResource bucket (arnPrefix ++ bucket ++ ascii "/*") .objects

/-- An action that reads objects, lists the bucket, or both. -/
inductive KnownAction : Bytes → AnonymousGrants → Prop
  | everything : KnownAction (ascii "*") ⟨true, true⟩
  | service : KnownAction (ascii "s3:*") ⟨true, true⟩
  | getObject : KnownAction (ascii "s3:GetObject") ⟨true, false⟩
  | listBucket : KnownAction (ascii "s3:ListBucket") ⟨false, true⟩

/-- An object with no element that narrows or inverts what it grants. -/
structure Plain (statement : Json) : Prop where
  isObject : statement.isObject
  unconditional : statement.contains (ascii "Condition") = false
  upright : ∀ inverted ∈ invertedElements, statement.contains inverted = false

/-- A statement of the grammar, with the entries of its two lists. -/
structure StatementGrammar (bucket : Bytes) (statement : Json) (resources actions : List Bytes) :
    Prop where
  plain : Plain statement
  effect : statement.member? (ascii "Effect") = some (.string (ascii "Allow"))
  principal : ∃ field, statement.member? (ascii "Principal") = some field ∧ Everyone field
  resource : ∃ field, statement.member? (ascii "Resource") = some field ∧ Entries field resources
  action : ∃ field, statement.member? (ascii "Action") = some field ∧ Entries field actions
  knownResources : ∀ resource ∈ resources, ∃ scope, KnownResource bucket resource scope
  knownActions : ∀ action ∈ actions, ∃ grants, KnownAction action grants

/-- The statements of a document: a list of them, or one written alone. -/
inductive StatementList (policy : Json) : List Json → Prop
  | many {statements : List Json}
    (h : policy.member? (ascii "Statement") = some (.array statements)) :
    StatementList policy statements
  | alone {members : List (Bytes × Json)}
    (h : policy.member? (ascii "Statement") = some (.object members)) :
    StatementList policy [.object members]

/-- No version, or one of the two that are known. -/
def KnownVersion (policy : Json) : Prop :=
  ∀ version, policy.member? (ascii "Version") = some version →
    version = .string (ascii "2012-10-17") ∨ version = .string (ascii "2008-10-17")

/-- A statement that is in the grammar, whatever its entries. -/
def InGrammar (bucket : Bytes) (statement : Json) : Prop :=
  ∃ resources actions, StatementGrammar bucket statement resources actions

/-- A document of the grammar, with its statements. -/
structure PolicyGrammar (bucket : Bytes) (policy : Json) (statements : List Json) : Prop where
  isObject : policy.isObject
  version : KnownVersion policy
  list : StatementList policy statements
  each : ∀ statement ∈ statements, InGrammar bucket statement

/-- The statement pairs an action with a resource it reaches. -/
def StatementPairs (bucket : Bytes) (asks : AnonymousGrants → Bool) (reaches : Scope → Bool)
    (statement : Json) : Prop :=
  ∃ resources actions, StatementGrammar bucket statement resources actions ∧
    (∃ action ∈ actions, ∃ grants, KnownAction action grants ∧ asks grants) ∧
    ∃ resource ∈ resources, ∃ scope, KnownResource bucket resource scope ∧ reaches scope

/-- Some statement does. -/
def Pairs (bucket : Bytes) (asks : AnonymousGrants → Bool) (reaches : Scope → Bool)
    (statements : List Json) : Prop :=
  ∃ statement ∈ statements, StatementPairs bucket asks reaches statement

/-! ### Entries -/

theorem map_string_of_all {items : List Json} (h : ∀ item ∈ items, item.string?.isSome) :
    (items.filterMap Json.string?).map Json.string = items := by
  induction items with
  | nil => rfl
  | cons item items ih =>
      obtain ⟨hitem, hitems⟩ := List.forall_mem_cons.mp h
      cases item with
      | string value =>
          have hcons : (Json.string value :: items).filterMap Json.string? =
              value :: items.filterMap Json.string? := rfl
          rw [hcons, List.map_cons, ih hitems]
      | _ => cases hitem

theorem filterMap_map_string {values : List Bytes} :
    (values.map Json.string).filterMap Json.string? = values := by
  rw [List.filterMap_map]
  exact List.filterMap_some

theorem forEachString_eq_iff {field : Json} {values : List Bytes} :
    forEachString field = (values, true) ↔ Entries field values := by
  constructor
  · intro h
    cases field with
    | string value =>
        obtain ⟨rfl, -⟩ := Prod.mk.inj h
        exact .one value
    | array items =>
        obtain ⟨hvalues, hread⟩ := Prod.mk.inj h
        obtain ⟨hnonempty, hall⟩ := Bool.and_eq_true_iff.mp hread
        have hall : ∀ item ∈ items, item.string?.isSome := List.all_eq_true.mp hall
        have hwhile : (items.takeWhile fun item => item.string?.isSome) = items :=
          List.takeWhile_eq_self_iff.mpr hall
        rw [hwhile] at hvalues
        have hitems : values.map Json.string = items := hvalues ▸ map_string_of_all hall
        rw [← hitems]
        refine .many fun hvalues => ?_
        rw [← hitems, hvalues] at hnonempty
        cases hnonempty
    | _ => cases (Prod.mk.inj h).2
  · intro h
    cases h with
    | one value => rfl
    | many nonempty =>
        have hall : ∀ item ∈ values.map Json.string, item.string?.isSome := by
          intro item hitem
          obtain ⟨value, -, rfl⟩ := List.mem_map.mp hitem
          rfl
        have hempty : (values.map Json.string).isEmpty = false := by
          cases values with
          | nil => exact absurd rfl nonempty
          | cons value values => rfl
        have hwhile : ((values.map Json.string).takeWhile fun item => item.string?.isSome) =
            values.map Json.string := List.takeWhile_eq_self_iff.mpr hall
        show (_, _) = _
        rw [hwhile, filterMap_map_string, hempty, List.all_eq_true.mpr hall]
        rfl

theorem forEachString_snd_iff {field : Json} :
    (forEachString field).2 = true ↔ Entries field (forEachString field).1 := by
  rw [← forEachString_eq_iff]
  constructor
  · exact fun h => Prod.ext rfl h
  · exact fun h => congrArg Prod.snd h

theorem Entries.unique {field : Json} {first second : List Bytes} (hfirst : Entries field first)
    (hsecond : Entries field second) : first = second := by
  have hboth := (forEachString_eq_iff.mpr hfirst).symm.trans (forEachString_eq_iff.mpr hsecond)
  exact congrArg Prod.fst hboth

theorem isEveryone_iff {principal : Json} : isEveryone principal ↔ Everyone principal := by
  constructor
  · intro h
    fun_cases isEveryone principal with
    | case1 value =>
        have hvalue : value = ascii "*" := by simpa [isEveryone] using h
        exact hvalue ▸ .star
    | case2 name field =>
        simp only [isEveryone, Bool.and_eq_true, decide_eq_true_eq, List.all_eq_true] at h
        obtain ⟨⟨rfl, hread⟩, hall⟩ := h
        exact .aws (forEachString_snd_iff.mp hread) hall
    | case3 => simp_all [isEveryone]
  · intro h
    cases h with
    | star => rfl
    | aws entries all =>
        have hentries := forEachString_eq_iff.mpr entries
        simp only [isEveryone, hentries, Bool.and_eq_true, decide_eq_true_eq, List.all_eq_true,
          true_and]
        exact all

/-! ### Resources and actions -/

theorem readResource_eq_ok_iff {bucket resource : Bytes} {scope : Scope} :
    readResource bucket resource = .ok scope ↔ KnownResource bucket resource scope := by
  constructor
  · intro h
    simp only [readResource] at h
    split_ifs at h with hstar hbucket hobjects
    · cases h
      exact hstar ▸ .both
    · cases h
      exact hbucket ▸ .bucket
    · cases h
      exact hobjects ▸ .objects
    · cases h
    · cases h
  · intro h
    have hstar : ∀ suffix : Bytes, ascii "arn:aws:s3:::" ++ suffix ≠ ascii "*" := by
      intro suffix h
      exact absurd (congrArg List.head? h) (by simp [ascii])
    cases h with
    | both => simp [readResource]
    | bucket => simp [readResource, arnPrefix, hstar]
    | objects =>
        have hlonger : arnPrefix ++ bucket ++ ascii "/*" ≠ arnPrefix ++ bucket := by
          intro h
          exact absurd (List.append_right_eq_self.mp h) (by decide)
        have hstar : arnPrefix ++ bucket ++ ascii "/*" ≠ ascii "*" := by
          rw [arnPrefix, List.append_assoc]
          exact hstar _
        simp only [readResource, if_neg hstar, if_neg hlonger, if_true]

theorem readAction_eq_ok_iff {action : Bytes} {grants : AnonymousGrants} :
    readAction action = .ok grants ↔ KnownAction action grants := by
  constructor
  · intro h
    simp only [readAction] at h
    split_ifs at h with heverything hget hlist
    · cases h
      rcases heverything with rfl | rfl
      · exact .everything
      · exact .service
    · cases h
      exact hget ▸ .getObject
    · cases h
      exact hlist ▸ .listBucket
    · cases h
  · intro h
    cases h <;> rfl

theorem readEntries_eq_ok_iff {α : Type} {field : Json} {read : Bytes → Except PolicyStop α}
    {unreadable : Bytes} {results : List α} :
    readEntries field read unreadable = .ok results ↔
      ∃ values, Entries field values ∧
        List.Forall₂ (fun value result => read value = .ok result) values results := by
  rw [readEntries, Except.bind_eq_ok_iff]
  constructor
  · rintro ⟨entries, hentries, h⟩
    split_ifs at h with hread
    · cases h
      exact ⟨_, forEachString_snd_iff.mp hread, Except.mapM_eq_ok_iff.mp hentries⟩
    · cases h
  · rintro ⟨values, hvalues, hread⟩
    rw [forEachString_eq_iff.mpr hvalues]
    exact ⟨results, Except.mapM_eq_ok_iff.mpr hread, rfl⟩

/-! ### Where reading stops -/

/-- Reading ends with an exception of the JSON library. -/
def Escapes {α : Type} (reading : Except PolicyStop α) : Prop :=
  ∃ what, reading = .error (.typeError what)

/-- A refusal names what it objects to. -/
def NamesFault {α : Type} (reading : Except PolicyStop α) : Prop :=
  ∀ what, reading = .error (.unsupported what) → what ≠ []

theorem not_escapes_ok {α : Type} {value : α} : ¬ Escapes (.ok value) := by
  rintro ⟨what, h⟩
  cases h

theorem not_escapes_refuse {α : Type} {what : Bytes} : ¬ Escapes (@refuse α what) := by
  rintro ⟨other, h⟩
  cases h

theorem escapes_bind_iff {α β : Type} {first : Except PolicyStop α}
    {next : α → Except PolicyStop β} :
    Escapes (first >>= next) ↔ Escapes first ∨ ∃ value, first = .ok value ∧ Escapes (next value) := by
  cases first with
  | error stop =>
      constructor
      · rintro ⟨what, h⟩
        exact .inl ⟨what, congrArg Except.error (Except.error.inj h)⟩
      · rintro (⟨what, h⟩ | ⟨value, h, -⟩)
        · exact ⟨what, congrArg Except.error (Except.error.inj h)⟩
        · cases h
  | ok value =>
      constructor
      · exact fun h => .inr ⟨value, rfl, h⟩
      · rintro (h | ⟨other, hother, h⟩)
        · exact absurd h not_escapes_ok
        · cases hother
          exact h

theorem not_escapes_bind {α β : Type} {first : Except PolicyStop α}
    {next : α → Except PolicyStop β} (hfirst : ¬ Escapes first)
    (hnext : ∀ value, ¬ Escapes (next value)) : ¬ Escapes (first >>= next) := by
  rw [escapes_bind_iff]
  rintro (h | ⟨value, -, h⟩)
  · exact hfirst h
  · exact hnext value h

theorem namesFault_ok {α : Type} {value : α} : NamesFault (.ok value) := by
  intro what h
  cases h

theorem namesFault_refuse {α : Type} {what : Bytes} (h : what ≠ []) :
    NamesFault (@refuse α what) := by
  intro other hother
  cases hother
  exact h

theorem NamesFault.bind {α β : Type} {first : Except PolicyStop α}
    {next : α → Except PolicyStop β} (hfirst : NamesFault first)
    (hnext : ∀ value, NamesFault (next value)) : NamesFault (first >>= next) := by
  cases first with
  | error stop =>
      intro what h
      exact hfirst what (congrArg Except.error (Except.error.inj h))
  | ok value => exact hnext value

theorem NamesFault.mapM {α β : Type} {items : List α} {read : α → Except PolicyStop β}
    (h : ∀ item, NamesFault (read item)) : NamesFault (items.mapM read) := by
  intro what hwhat
  obtain ⟨-, item, -, -, -, hitem⟩ := Except.mapM_eq_error_iff.mp hwhat
  exact h item what hitem

theorem not_escapes_readResource {bucket resource : Bytes} :
    ¬ Escapes (readResource bucket resource) := by
  simp only [readResource]
  split_ifs
  all_goals first | exact not_escapes_ok | exact not_escapes_refuse

theorem namesFault_readResource {bucket resource : Bytes} :
    NamesFault (readResource bucket resource) := by
  simp only [readResource]
  split_ifs
  all_goals first | exact namesFault_ok | exact namesFault_refuse (List.cons_ne_nil _ _)

theorem not_escapes_readAction {action : Bytes} : ¬ Escapes (readAction action) := by
  simp only [readAction]
  split_ifs
  all_goals first | exact not_escapes_ok | exact not_escapes_refuse

theorem namesFault_readAction {action : Bytes} : NamesFault (readAction action) := by
  simp only [readAction]
  split_ifs
  all_goals first | exact namesFault_ok | exact namesFault_refuse (List.cons_ne_nil _ _)

section Entries

variable {α : Type} {field : Json} {read : Bytes → Except PolicyStop α} {unreadable : Bytes}

theorem not_escapes_readEntries (h : ∀ value, ¬ Escapes (read value)) :
    ¬ Escapes (readEntries field read unreadable) := by
  refine not_escapes_bind ?_ fun entries => ?_
  · rintro ⟨what, hwhat⟩
    obtain ⟨-, item, -, -, -, hitem⟩ := Except.mapM_eq_error_iff.mp hwhat
    exact h item ⟨what, hitem⟩
  · split_ifs
    · exact not_escapes_ok
    · exact not_escapes_refuse

theorem namesFault_readEntries (h : ∀ value, NamesFault (read value)) (hwhat : unreadable ≠ []) :
    NamesFault (readEntries field read unreadable) := by
  refine (NamesFault.mapM h).bind fun entries => ?_
  split_ifs
  · exact namesFault_ok
  · exact namesFault_refuse hwhat

end Entries

/-! ### One member -/

theorem requireMember_eq_ok_iff {statement field : Json} {name : Bytes} :
    requireMember statement name = .ok field ↔ statement.member? name = some field := by
  rw [requireMember]
  cases statement.member? name with
  | none => exact iff_of_false (fun h => by cases h) fun h => by cases h
  | some other =>
      constructor
      · intro h
        cases h
        rfl
      · intro h
        cases h
        rfl

theorem not_escapes_requireMember {statement : Json} {name : Bytes} :
    ¬ Escapes (requireMember statement name) := by
  rw [requireMember]
  cases statement.member? name with
  | none => exact not_escapes_refuse
  | some field => exact not_escapes_ok

theorem namesFault_requireMember {statement : Json} {name : Bytes} :
    NamesFault (requireMember statement name) := by
  rw [requireMember]
  cases statement.member? name with
  | none => exact namesFault_refuse (List.cons_ne_nil _ _)
  | some field => exact namesFault_ok

theorem readEffect_eq_ok_iff {statement : Json} :
    readEffect statement = .ok () ↔
      statement.member? (ascii "Effect") = some (.string (ascii "Allow")) := by
  rw [readEffect, Json.stringValue]
  cases statement.member? (ascii "Effect") with
  | none => exact iff_of_false (fun h => by cases h) fun h => by cases h
  | some field =>
      cases field with
      | string effect =>
          simp only [Option.some.injEq, Json.string.injEq]
          split_ifs with hdeny hallow
          · exact iff_of_false (fun h => by cases h) fun h => by cases hdeny.symm.trans h
          · exact iff_of_true rfl hallow
          · exact iff_of_false (fun h => by cases h) hallow
      | _ => exact iff_of_false (fun h => by cases h) fun h => by cases h

/-- An `Effect` that is there and is not a string. -/
def OddEffect (statement : Json) : Prop :=
  ∃ field, statement.member? (ascii "Effect") = some field ∧ field.string? = none

theorem escapes_readEffect_iff {statement : Json} :
    Escapes (readEffect statement) ↔ OddEffect statement := by
  rw [readEffect, Json.stringValue, OddEffect]
  cases statement.member? (ascii "Effect") with
  | none =>
      refine iff_of_false not_escapes_refuse ?_
      rintro ⟨field, h, -⟩
      cases h
  | some field =>
      cases field with
      | string effect =>
          refine iff_of_false ?_ ?_
          · dsimp only
            split_ifs
            · exact not_escapes_refuse
            · exact not_escapes_ok
            · exact not_escapes_refuse
          · rintro ⟨field, h, hfield⟩
            cases h
            cases hfield
      | _ => exact iff_of_true ⟨_, rfl⟩ ⟨_, rfl, rfl⟩

theorem namesFault_readEffect {statement : Json} : NamesFault (readEffect statement) := by
  rw [readEffect]
  cases statement.stringValue (ascii "Effect") with
  | error what =>
      intro other h
      cases h
  | ok effect =>
      dsimp only
      split_ifs
      · exact namesFault_refuse (List.cons_ne_nil _ _)
      · exact namesFault_ok
      · exact namesFault_refuse (List.cons_ne_nil _ _)

/-! ### One statement -/

/-- What a plain statement is read for. -/
def readPlain (bucket : Bytes) (statement : Json) : Except PolicyStop AnonymousGrants := do
  readEffect statement
  let principal ← requireMember statement (ascii "Principal")
  if isEveryone principal then
    let resource ← requireMember statement (ascii "Resource")
    let scopes ← readEntries resource (readResource bucket)
      (ascii "a Resource that is neither a string nor a list of them")
    let action ← requireMember statement (ascii "Action")
    let actions ← readEntries action readAction
      (ascii "an Action that is neither a string nor a list of them")
    pure (grantsOf scopes actions)
  else refuse (ascii "a Principal other than \"*\"")

theorem readStatement_of_plain {bucket : Bytes} {statement : Json} (h : Plain statement) :
    readStatement bucket statement = readPlain bucket statement := by
  have hinverted : invertedElements.find? statement.contains = none := by
    rw [List.find?_eq_none]
    intro inverted hinverted
    rw [h.upright inverted hinverted]
    exact Bool.false_ne_true
  rw [readStatement, if_neg (not_not_intro h.isObject), h.unconditional, hinverted]
  rfl

theorem readStatement_of_not_plain (bucket : Bytes) {statement : Json} (h : ¬ Plain statement) :
    ∃ what, what ≠ [] ∧ readStatement bucket statement = refuse what := by
  rw [readStatement]
  split_ifs with hobject hcondition
  · exact ⟨_, List.cons_ne_nil _ _, rfl⟩
  · cases hinverted : invertedElements.find? statement.contains with
    | some inverted => exact ⟨_, List.cons_ne_nil _ _, rfl⟩
    | none =>
        refine absurd ⟨hobject, Bool.eq_false_iff.mpr hcondition, ?_⟩ h
        intro inverted hmem
        exact Bool.eq_false_iff.mpr (List.find?_eq_none.mp hinverted inverted hmem)
  · exact ⟨_, List.cons_ne_nil _ _, rfl⟩

/-- A statement is read when it is in the grammar, for what its entries ask. -/
theorem readStatement_eq_ok_iff {bucket : Bytes} {statement : Json} {grants : AnonymousGrants} :
    readStatement bucket statement = .ok grants ↔
      ∃ resources actions scopes asked, StatementGrammar bucket statement resources actions ∧
        List.Forall₂ (KnownResource bucket) resources scopes ∧
        List.Forall₂ KnownAction actions asked ∧ grants = grantsOf scopes asked := by
  constructor
  · intro h
    by_cases hplain : Plain statement
    · rw [readStatement_of_plain hplain, readPlain, Except.bind_eq_ok_iff] at h
      obtain ⟨⟨⟩, heffect, h⟩ := h
      obtain ⟨principal, hprincipal, h⟩ := Except.bind_eq_ok_iff.mp h
      split_ifs at h with heveryone
      · obtain ⟨resource, hresource, h⟩ := Except.bind_eq_ok_iff.mp h
        obtain ⟨scopes, hscopes, h⟩ := Except.bind_eq_ok_iff.mp h
        obtain ⟨action, haction, h⟩ := Except.bind_eq_ok_iff.mp h
        obtain ⟨asked, hasked, h⟩ := Except.bind_eq_ok_iff.mp h
        obtain ⟨resources, hresources, hscopes⟩ := readEntries_eq_ok_iff.mp hscopes
        obtain ⟨actions, hactions, hasked⟩ := readEntries_eq_ok_iff.mp hasked
        have hscopes : List.Forall₂ (KnownResource bucket) resources scopes :=
          hscopes.imp fun _ _ => readResource_eq_ok_iff.mp
        have hasked : List.Forall₂ KnownAction actions asked :=
          hasked.imp fun _ _ => readAction_eq_ok_iff.mp
        refine ⟨resources, actions, scopes, asked, ?_, hscopes, hasked,
          (Except.pure_eq_ok_iff.mp h).symm⟩
        exact {
          plain := hplain
          effect := readEffect_eq_ok_iff.mp heffect
          principal := ⟨principal, requireMember_eq_ok_iff.mp hprincipal,
            isEveryone_iff.mp heveryone⟩
          resource := ⟨resource, requireMember_eq_ok_iff.mp hresource, hresources⟩
          action := ⟨action, requireMember_eq_ok_iff.mp haction, hactions⟩
          knownResources := fun resource hresource => by
            obtain ⟨scope, -, h⟩ := hscopes.exists_result hresource
            exact ⟨scope, h⟩
          knownActions := fun action haction => by
            obtain ⟨grants, -, h⟩ := hasked.exists_result haction
            exact ⟨grants, h⟩ }
      · cases h
    · obtain ⟨what, -, hrefuse⟩ := readStatement_of_not_plain bucket hplain
      rw [hrefuse] at h
      cases h
  · rintro ⟨resources, actions, scopes, asked, hstatement, hscopes, hasked, rfl⟩
    obtain ⟨principal, hprincipal, heveryone⟩ := hstatement.principal
    obtain ⟨resource, hresource, hresources⟩ := hstatement.resource
    obtain ⟨action, haction, hactions⟩ := hstatement.action
    have hscopes : List.Forall₂ (fun value scope => readResource bucket value = .ok scope)
        resources scopes := hscopes.imp fun _ _ => readResource_eq_ok_iff.mpr
    have hasked : List.Forall₂ (fun value grants => readAction value = .ok grants)
        actions asked := hasked.imp fun _ _ => readAction_eq_ok_iff.mpr
    rw [readStatement_of_plain hstatement.plain, readPlain,
      readEffect_eq_ok_iff.mpr hstatement.effect, requireMember_eq_ok_iff.mpr hprincipal,
      requireMember_eq_ok_iff.mpr hresource, requireMember_eq_ok_iff.mpr haction]
    refine Except.bind_eq_ok_iff.mpr ⟨(), rfl, Except.bind_eq_ok_iff.mpr ⟨principal, rfl, ?_⟩⟩
    rw [if_pos (isEveryone_iff.mpr heveryone)]
    refine Except.bind_eq_ok_iff.mpr ⟨resource, rfl, Except.bind_eq_ok_iff.mpr ⟨scopes,
      readEntries_eq_ok_iff.mpr ⟨_, hresources, hscopes⟩, ?_⟩⟩
    exact Except.bind_eq_ok_iff.mpr ⟨action, rfl, Except.bind_eq_ok_iff.mpr ⟨asked,
      readEntries_eq_ok_iff.mpr ⟨_, hactions, hasked⟩, rfl⟩⟩

/-- Only an `Effect` that is no string ends a statement with an exception. -/
theorem escapes_readStatement_iff {bucket : Bytes} {statement : Json} :
    Escapes (readStatement bucket statement) ↔ Plain statement ∧ OddEffect statement := by
  by_cases hplain : Plain statement
  · rw [readStatement_of_plain hplain, readPlain, escapes_bind_iff, escapes_readEffect_iff]
    constructor
    · rintro (h | ⟨⟨⟩, -, h⟩)
      · exact ⟨hplain, h⟩
      · refine absurd h (not_escapes_bind not_escapes_requireMember fun principal => ?_)
        split_ifs
        · refine not_escapes_bind not_escapes_requireMember fun resource => ?_
          refine not_escapes_bind (not_escapes_readEntries fun _ => not_escapes_readResource)
            fun scopes => ?_
          refine not_escapes_bind not_escapes_requireMember fun action => ?_
          exact not_escapes_bind (not_escapes_readEntries fun _ => not_escapes_readAction)
            fun _ => not_escapes_ok
        · exact not_escapes_refuse
    · exact fun h => .inl h.2
  · obtain ⟨what, -, hrefuse⟩ := readStatement_of_not_plain bucket hplain
    rw [hrefuse]
    exact iff_of_false not_escapes_refuse fun h => hplain h.1

theorem namesFault_readStatement {bucket : Bytes} {statement : Json} :
    NamesFault (readStatement bucket statement) := by
  by_cases hplain : Plain statement
  · rw [readStatement_of_plain hplain]
    refine namesFault_readEffect.bind fun _ => namesFault_requireMember.bind fun principal => ?_
    split_ifs
    · refine namesFault_requireMember.bind fun resource => ?_
      refine (namesFault_readEntries (fun _ => namesFault_readResource)
        (List.cons_ne_nil _ _)).bind fun scopes => ?_
      refine namesFault_requireMember.bind fun action => ?_
      exact (namesFault_readEntries (fun _ => namesFault_readAction)
        (List.cons_ne_nil _ _)).bind fun _ => namesFault_ok
    · exact namesFault_refuse (List.cons_ne_nil _ _)
  · obtain ⟨what, hwhat, hrefuse⟩ := readStatement_of_not_plain bucket hplain
    rw [hrefuse]
    exact namesFault_refuse hwhat

theorem returns_readStatement_iff {bucket : Bytes} {statement : Json} :
    (readStatement bucket statement).Returns ↔ InGrammar bucket statement := by
  constructor
  · rintro ⟨grants, h⟩
    obtain ⟨resources, actions, -, -, hstatement, -⟩ := readStatement_eq_ok_iff.mp h
    exact ⟨resources, actions, hstatement⟩
  · rintro ⟨resources, actions, hstatement⟩
    obtain ⟨scopes, hscopes⟩ := List.exists_forall₂ hstatement.knownResources
    obtain ⟨asked, hasked⟩ := List.exists_forall₂ hstatement.knownActions
    exact ⟨_, readStatement_eq_ok_iff.mpr
      ⟨resources, actions, scopes, asked, hstatement, hscopes, hasked, rfl⟩⟩

theorem KnownResource.unique {bucket resource : Bytes} {first second : Scope}
    (hfirst : KnownResource bucket resource first)
    (hsecond : KnownResource bucket resource second) : first = second :=
  Except.ok.inj ((readResource_eq_ok_iff.mpr hfirst).symm.trans
    (readResource_eq_ok_iff.mpr hsecond))

theorem KnownAction.unique {action : Bytes} {first second : AnonymousGrants}
    (hfirst : KnownAction action first) (hsecond : KnownAction action second) : first = second :=
  Except.ok.inj ((readAction_eq_ok_iff.mpr hfirst).symm.trans (readAction_eq_ok_iff.mpr hsecond))

theorem StatementGrammar.unique {bucket : Bytes} {statement : Json}
    {resources actions resources' actions' : List Bytes}
    (h : StatementGrammar bucket statement resources actions)
    (h' : StatementGrammar bucket statement resources' actions') :
    resources = resources' ∧ actions = actions' := by
  obtain ⟨resource, hresource, hresources⟩ := h.resource
  obtain ⟨action, haction, hactions⟩ := h.action
  obtain ⟨resource', hresource', hresources'⟩ := h'.resource
  obtain ⟨action', haction', hactions'⟩ := h'.action
  cases hresource.symm.trans hresource'
  cases haction.symm.trans haction'
  exact ⟨hresources.unique hresources', hactions.unique hactions'⟩

/-- What the entries of a statement ask for and reach is what it pairs. -/
theorem any_and_any_iff {bucket : Bytes} {statement : Json} {resources actions : List Bytes}
    {scopes : List Scope} {asked : List AnonymousGrants} {asks : AnonymousGrants → Bool}
    {reaches : Scope → Bool} (hstatement : StatementGrammar bucket statement resources actions)
    (hscopes : List.Forall₂ (KnownResource bucket) resources scopes)
    (hasked : List.Forall₂ KnownAction actions asked) :
    (asked.any asks && scopes.any reaches) = true ↔
      StatementPairs bucket asks reaches statement := by
  rw [Bool.and_eq_true_iff, List.any_eq_true, List.any_eq_true]
  constructor
  · rintro ⟨⟨grants, hgrants, hasks⟩, scope, hscope, hreaches⟩
    obtain ⟨action, haction, hknown⟩ := hasked.exists_item hgrants
    obtain ⟨resource, hresource, hreached⟩ := hscopes.exists_item hscope
    exact ⟨resources, actions, hstatement, ⟨action, haction, grants, hknown, hasks⟩,
      resource, hresource, scope, hreached, hreaches⟩
  · rintro ⟨resources', actions', hstatement', ⟨action, haction, grants, hknown, hasks⟩,
      resource, hresource, scope, hreached, hreaches⟩
    obtain ⟨rfl, rfl⟩ := hstatement.unique hstatement'
    obtain ⟨grants', hgrants', hknown'⟩ := hasked.exists_result haction
    obtain ⟨scope', hscope', hreached'⟩ := hscopes.exists_result hresource
    cases hknown.unique hknown'
    cases hreached.unique hreached'
    exact ⟨⟨grants, hgrants', hasks⟩, scope, hscope', hreaches⟩

theorem pairs_of_readStatement {bucket : Bytes} {statement : Json} {grants : AnonymousGrants}
    (h : readStatement bucket statement = .ok grants) :
    (grants.readObjects ↔ StatementPairs bucket AnonymousGrants.readObjects
      Scope.reachesObjects statement) ∧
    (grants.listBucket ↔ StatementPairs bucket AnonymousGrants.listBucket
      Scope.reachesBucket statement) := by
  obtain ⟨resources, actions, scopes, asked, hstatement, hscopes, hasked, rfl⟩ :=
    readStatement_eq_ok_iff.mp h
  exact ⟨any_and_any_iff hstatement hscopes hasked, any_and_any_iff hstatement hscopes hasked⟩

/-! ### The document -/

theorem checkVersion_eq_ok_iff {policy : Json} : checkVersion policy = .ok () ↔ KnownVersion policy := by
  rw [checkVersion, KnownVersion]
  cases policy.member? (ascii "Version") with
  | none => exact iff_of_true rfl fun version h => by cases h
  | some version =>
      have hstring : ∀ text, version.string? = some text ↔ version = .string text := by
        intro text
        cases version with
        | string value => simp [Json.string?]
        | _ => exact iff_of_false (fun h => by cases h) fun h => by cases h
      have hknown := or_congr (hstring (ascii "2012-10-17")) (hstring (ascii "2008-10-17"))
      simp only [Option.some.injEq, forall_eq']
      split_ifs with h
      · exact iff_of_true rfl (hknown.mp h)
      · exact iff_of_false (fun h => by cases h) (mt hknown.mpr h)

theorem not_escapes_checkVersion {policy : Json} : ¬ Escapes (checkVersion policy) := by
  rw [checkVersion]
  cases policy.member? (ascii "Version") with
  | none => exact not_escapes_ok
  | some version =>
      dsimp only
      split_ifs
      · exact not_escapes_ok
      · exact not_escapes_refuse

theorem namesFault_checkVersion {policy : Json} : NamesFault (checkVersion policy) := by
  rw [checkVersion]
  cases policy.member? (ascii "Version") with
  | none => exact namesFault_ok
  | some version =>
      dsimp only
      split_ifs
      · exact namesFault_ok
      · exact namesFault_refuse (List.cons_ne_nil _ _)

theorem statementsOf_eq_ok_iff {policy : Json} {statements : List Json} :
    statementsOf policy = .ok statements ↔ StatementList policy statements := by
  constructor
  · intro h
    rw [statementsOf] at h
    split at h
    · cases h
    · cases h
      exact .many ‹_›
    · cases h
      exact .alone ‹_›
    · cases h
  · intro h
    cases h with
    | many h => rw [statementsOf, h]
    | alone h => rw [statementsOf, h]

theorem not_escapes_statementsOf {policy : Json} : ¬ Escapes (statementsOf policy) := by
  rw [statementsOf]
  split
  all_goals first | exact not_escapes_ok | exact not_escapes_refuse

theorem namesFault_statementsOf {policy : Json} : NamesFault (statementsOf policy) := by
  rw [statementsOf]
  split
  all_goals first | exact namesFault_ok | exact namesFault_refuse (List.cons_ne_nil _ _)

theorem readObjects_foldl_union {grants : AnonymousGrants} {parts : List AnonymousGrants} :
    (parts.foldl AnonymousGrants.union grants).readObjects =
      (grants.readObjects || parts.any AnonymousGrants.readObjects) := by
  induction parts generalizing grants with
  | nil => exact (Bool.or_false _).symm
  | cons part parts ih =>
      rw [List.foldl_cons, ih, List.any_cons]
      exact Bool.or_assoc _ _ _

theorem listBucket_foldl_union {grants : AnonymousGrants} {parts : List AnonymousGrants} :
    (parts.foldl AnonymousGrants.union grants).listBucket =
      (grants.listBucket || parts.any AnonymousGrants.listBucket) := by
  induction parts generalizing grants with
  | nil => exact (Bool.or_false _).symm
  | cons part parts ih =>
      rw [List.foldl_cons, ih, List.any_cons]
      exact Bool.or_assoc _ _ _

theorem readPolicy_eq_ok_iff {bucket : Bytes} {policy : Json} {grants : AnonymousGrants} :
    readPolicy bucket policy = .ok grants ↔
      policy.isObject ∧ KnownVersion policy ∧ ∃ statements parts,
        StatementList policy statements ∧
        List.Forall₂ (fun statement part => readStatement bucket statement = .ok part)
          statements parts ∧
        grants = parts.foldl AnonymousGrants.union {} := by
  rw [readPolicy]
  by_cases hobject : policy.isObject
  · rw [if_neg (not_not_intro hobject), Except.bind_eq_ok_iff]
    constructor
    · rintro ⟨⟨⟩, hversion, h⟩
      obtain ⟨statements, hstatements, h⟩ := Except.bind_eq_ok_iff.mp h
      obtain ⟨parts, hparts, h⟩ := Except.bind_eq_ok_iff.mp h
      exact ⟨hobject, checkVersion_eq_ok_iff.mp hversion, statements, parts,
        statementsOf_eq_ok_iff.mp hstatements, Except.mapM_eq_ok_iff.mp hparts,
        (Except.pure_eq_ok_iff.mp h).symm⟩
    · rintro ⟨-, hversion, statements, parts, hstatements, hparts, rfl⟩
      exact ⟨(), checkVersion_eq_ok_iff.mpr hversion, Except.bind_eq_ok_iff.mpr
        ⟨statements, statementsOf_eq_ok_iff.mpr hstatements, Except.bind_eq_ok_iff.mpr
          ⟨parts, Except.mapM_eq_ok_iff.mpr hparts, rfl⟩⟩⟩
  · rw [if_pos hobject]
    exact iff_of_false (fun h => by cases h) fun h => hobject h.1

/-- A document is read when it is in the grammar. -/
theorem returns_readPolicy_iff {bucket : Bytes} {policy : Json} :
    (readPolicy bucket policy).Returns ↔ ∃ statements, PolicyGrammar bucket policy statements := by
  constructor
  · rintro ⟨grants, h⟩
    obtain ⟨hobject, hversion, statements, parts, hlist, hparts, -⟩ := readPolicy_eq_ok_iff.mp h
    refine ⟨statements, hobject, hversion, hlist, fun statement hstatement => ?_⟩
    obtain ⟨part, -, hpart⟩ := hparts.exists_result hstatement
    exact returns_readStatement_iff.mp ⟨part, hpart⟩
  · rintro ⟨statements, h⟩
    obtain ⟨parts, hparts⟩ := List.exists_forall₂
      fun statement hstatement => returns_readStatement_iff.mpr (h.each statement hstatement)
    exact ⟨_, readPolicy_eq_ok_iff.mpr
      ⟨h.isObject, h.version, statements, parts, h.list, hparts, rfl⟩⟩

theorem StatementList.unique {policy : Json} {first second : List Json}
    (hfirst : StatementList policy first) (hsecond : StatementList policy second) :
    first = second :=
  Except.ok.inj ((statementsOf_eq_ok_iff.mpr hfirst).symm.trans (statementsOf_eq_ok_iff.mpr hsecond))

/-- A document grants what its statements pair. -/
theorem pairs_of_readPolicy {bucket : Bytes} {policy : Json} {grants : AnonymousGrants}
    {statements : List Json} (h : readPolicy bucket policy = .ok grants)
    (hlist : StatementList policy statements) :
    (grants.readObjects ↔
      Pairs bucket AnonymousGrants.readObjects Scope.reachesObjects statements) ∧
    (grants.listBucket ↔
      Pairs bucket AnonymousGrants.listBucket Scope.reachesBucket statements) := by
  obtain ⟨-, -, statements', parts, hlist', hparts, rfl⟩ := readPolicy_eq_ok_iff.mp h
  cases hlist.unique hlist'
  -- a flag of the union is the flag of some part, and a part is what one statement pairs
  have hany : ∀ (asks : AnonymousGrants → Bool) (reaches : Scope → Bool),
      (∀ statement part, readStatement bucket statement = .ok part →
        (asks part ↔ StatementPairs bucket asks reaches statement)) →
      ((parts.any asks) = true ↔ Pairs bucket asks reaches statements) := by
    intro asks reaches hpart
    rw [List.any_eq_true]
    constructor
    · rintro ⟨part, hmem, hasks⟩
      obtain ⟨statement, hstatement, hread⟩ := hparts.exists_item hmem
      exact ⟨statement, hstatement, (hpart statement part hread).mp hasks⟩
    · rintro ⟨statement, hstatement, hpairs⟩
      obtain ⟨part, hmem, hread⟩ := hparts.exists_result hstatement
      exact ⟨part, hmem, (hpart statement part hread).mpr hpairs⟩
  rw [readObjects_foldl_union, listBucket_foldl_union]
  exact ⟨hany _ _ fun _ _ hread => (pairs_of_readStatement hread).1,
    hany _ _ fun _ _ hread => (pairs_of_readStatement hread).2⟩

/-- The reading comes to a statement that is in order up to an `Effect` that is no
string. -/
structure StumblesAt (bucket : Bytes) (policy : Json) (earlier : List Json) (statement : Json)
    (later : List Json) : Prop where
  isObject : policy.isObject
  version : KnownVersion policy
  list : StatementList policy (earlier ++ statement :: later)
  each : ∀ other ∈ earlier, InGrammar bucket other
  plain : Plain statement
  odd : OddEffect statement

theorem escapes_readPolicy_iff {bucket : Bytes} {policy : Json} :
    Escapes (readPolicy bucket policy) ↔
      ∃ earlier statement later, StumblesAt bucket policy earlier statement later := by
  rw [readPolicy]
  by_cases hobject : policy.isObject
  · rw [if_neg (not_not_intro hobject), escapes_bind_iff]
    constructor
    · rintro (h | ⟨⟨⟩, hversion, h⟩)
      · exact absurd h not_escapes_checkVersion
      · rcases escapes_bind_iff.mp h with h | ⟨statements, hstatements, h⟩
        · exact absurd h not_escapes_statementsOf
        · rcases escapes_bind_iff.mp h with ⟨what, h⟩ | ⟨parts, -, h⟩
          · obtain ⟨earlier, statement, later, rfl, hearlier, hstatement⟩ :=
              Except.mapM_eq_error_iff.mp h
            obtain ⟨hplain, hodd⟩ := escapes_readStatement_iff.mp ⟨what, hstatement⟩
            exact ⟨earlier, statement, later, hobject, checkVersion_eq_ok_iff.mp hversion,
              statementsOf_eq_ok_iff.mp hstatements,
              fun other hother => returns_readStatement_iff.mp (hearlier other hother),
              hplain, hodd⟩
          · exact absurd h not_escapes_ok
    · rintro ⟨earlier, statement, later, h⟩
      obtain ⟨what, hwhat⟩ := escapes_readStatement_iff.mpr ⟨h.plain, h.odd⟩
      refine .inr ⟨(), checkVersion_eq_ok_iff.mpr h.version, escapes_bind_iff.mpr (.inr
        ⟨_, statementsOf_eq_ok_iff.mpr h.list, escapes_bind_iff.mpr (.inl ⟨what, ?_⟩)⟩)⟩
      exact Except.mapM_eq_error_iff.mpr ⟨earlier, statement, later, rfl,
        fun other hother => returns_readStatement_iff.mpr (h.each other hother), hwhat⟩
  · rw [if_pos hobject]
    refine iff_of_false not_escapes_refuse ?_
    rintro ⟨earlier, statement, later, h⟩
    exact hobject h.isObject

theorem namesFault_readPolicy {bucket : Bytes} {policy : Json} :
    NamesFault (readPolicy bucket policy) := by
  rw [readPolicy]
  split_ifs
  · refine namesFault_checkVersion.bind fun _ => namesFault_statementsOf.bind fun statements => ?_
    exact (NamesFault.mapM fun _ => namesFault_readStatement).bind fun _ => namesFault_ok
  · exact namesFault_refuse (List.cons_ne_nil _ _)

/-! ### The analysis decides the grammar -/

section Parser

variable (parse : Bytes → Option Json)

/-- The text parses to a document of the grammar. -/
def InPolicyGrammar (document bucket : Bytes) : Prop :=
  ∃ policy statements, parse document = some policy ∧ PolicyGrammar bucket policy statements

/-- An analysis is exact: it understands the grammar and no more, grants what the
statements pair, and grants nothing where it does not understand; such a document is
an invalid argument. -/
structure Exact (document bucket : Bytes) (analysis : PolicyAnalysis) : Prop where
  understood : analysis.understood ↔ InPolicyGrammar parse document bucket
  grants : ∀ policy statements, parse document = some policy →
    PolicyGrammar bucket policy statements →
    (analysis.grants.readObjects ↔
      Pairs bucket AnonymousGrants.readObjects Scope.reachesObjects statements) ∧
    (analysis.grants.listBucket ↔
      Pairs bucket AnonymousGrants.listBucket Scope.reachesBucket statements)
  refused : ¬ analysis.understood → analysis.grants = {} ∧
    ∃ message, validateBucketPolicy parse document bucket = .error (.s3 ⟨.invalidArgument, message⟩)

/-- The text parses to a document the reading stumbles over. -/
def Stumbles (document bucket : Bytes) : Prop :=
  ∃ policy earlier statement later, parse document = some policy ∧
    StumblesAt bucket policy earlier statement later

theorem validateBucketPolicy_of_not_understood {document bucket : Bytes} {analysis : PolicyAnalysis}
    (h : analyseBucketPolicy parse document bucket = .ok analysis) (hnot : ¬ analysis.understood) :
    ∃ message,
      validateBucketPolicy parse document bucket = .error (.s3 ⟨.invalidArgument, message⟩) := by
  rw [validateBucketPolicy]
  split_ifs
  · exact ⟨_, rfl⟩
  · exact ⟨_, rfl⟩
  · rw [h]
    dsimp only
    rw [if_neg hnot]
    exact ⟨_, rfl⟩

theorem exact_of_read {document bucket : Bytes} {policy : Json} {grants : AnonymousGrants}
    (hparse : parse document = some policy) (hread : readPolicy bucket policy = .ok grants) :
    Exact parse document bucket { grants := grants } where
  understood := by
    obtain ⟨statements, hgrammar⟩ := returns_readPolicy_iff.mp ⟨grants, hread⟩
    exact iff_of_true rfl ⟨policy, statements, hparse, hgrammar⟩
  grants := by
    intro other statements hother hgrammar
    cases hparse.symm.trans hother
    exact pairs_of_readPolicy hread hgrammar.list
  refused := fun hnot => absurd rfl hnot

theorem exact_of_refused {document bucket what : Bytes} (hwhat : what ≠ [])
    (hanalysis : analyseBucketPolicy parse document bucket = .ok { unsupported := what })
    (hgrammar : ¬ InPolicyGrammar parse document bucket) :
    Exact parse document bucket { unsupported := what } := by
  have hnot : ¬ ({ unsupported := what } : PolicyAnalysis).understood :=
    fun h => hwhat (of_decide_eq_true h)
  exact {
    understood := iff_of_false hnot hgrammar
    grants := fun policy statements hparse h => absurd ⟨policy, statements, hparse, h⟩ hgrammar
    refused := fun _ => ⟨rfl, validateBucketPolicy_of_not_understood parse hanalysis hnot⟩ }

/-- The analysis answers exactly unless it comes to an `Effect` that is no string. -/
theorem analyseBucketPolicy_exact_iff (document bucket : Bytes) :
    (∃ analysis, analyseBucketPolicy parse document bucket = .ok analysis ∧
      Exact parse document bucket analysis) ↔ ¬ Stumbles parse document bucket := by
  cases hparse : parse document with
  | none =>
      have hanalysis : analyseBucketPolicy parse document bucket =
          .ok { unsupported := ascii "a document that is not valid JSON" } := by
        rw [analyseBucketPolicy, hparse]
      refine iff_of_true ⟨_, hanalysis, exact_of_refused parse (List.cons_ne_nil _ _) hanalysis ?_⟩ ?_
      · rintro ⟨policy, statements, h, -⟩
        cases hparse.symm.trans h
      · rintro ⟨policy, earlier, statement, later, h, -⟩
        cases hparse.symm.trans h
  | some policy =>
      have hstumbles : Stumbles parse document bucket ↔ Escapes (readPolicy bucket policy) := by
        rw [escapes_readPolicy_iff]
        constructor
        · rintro ⟨other, earlier, statement, later, h, hat⟩
          cases hparse.symm.trans h
          exact ⟨earlier, statement, later, hat⟩
        · rintro ⟨earlier, statement, later, hat⟩
          exact ⟨policy, earlier, statement, later, hparse, hat⟩
      rw [hstumbles]
      cases hread : readPolicy bucket policy with
      | ok grants =>
          have hanalysis : analyseBucketPolicy parse document bucket = .ok { grants := grants } := by
            rw [analyseBucketPolicy, hparse]
            dsimp only
            rw [hread]
          exact iff_of_true ⟨_, hanalysis, exact_of_read parse hparse hread⟩ not_escapes_ok
      | error stop =>
          cases stop with
          | unsupported what =>
              have hanalysis : analyseBucketPolicy parse document bucket =
                  .ok { unsupported := what } := by
                rw [analyseBucketPolicy, hparse]
                dsimp only
                rw [hread]
              have hgrammar : ¬ InPolicyGrammar parse document bucket := by
                rintro ⟨other, statements, h, hgrammar⟩
                cases hparse.symm.trans h
                obtain ⟨grants, hgrants⟩ := returns_readPolicy_iff.mpr ⟨statements, hgrammar⟩
                cases hread.symm.trans hgrants
              exact iff_of_true ⟨_, hanalysis,
                exact_of_refused parse (namesFault_readPolicy what hread) hanalysis hgrammar⟩
                not_escapes_refuse
          | typeError what =>
              refine iff_of_false ?_ fun h => h ⟨what, rfl⟩
              rintro ⟨analysis, h, -⟩
              rw [analyseBucketPolicy, hparse] at h
              dsimp only at h
              rw [hread] at h
              cases h

end Parser

/-! ### A number for an effect -/

/-- The one document the parser below knows. -/
def numberedEffect : Bytes := ascii "\x7b\"Statement\": \x7b\"Effect\": 1\x7d\x7d"

def parseNumberedEffect (document : Bytes) : Option Json :=
  if document = numberedEffect then
    some (.object [(ascii "Statement", .object [(ascii "Effect", .number)])])
  else none

/-- The analysis throws, and a request to store the document ends with an error of the
JSON library. -/
theorem numberedEffect_escapes :
    analyseBucketPolicy parseNumberedEffect numberedEffect (ascii "photos") =
      .error (ascii
        "[json.exception.type_error.302] type must be string, but is number") ∧
    validateBucketPolicy parseNumberedEffect numberedEffect (ascii "photos") =
      .error (.json (ascii
        "[json.exception.type_error.302] type must be string, but is number")) ∧
    ¬ ∀ (parse : Bytes → Option Json) (document bucket : Bytes),
      ∃ analysis, analyseBucketPolicy parse document bucket = .ok analysis ∧
        Exact parse document bucket analysis := by
  have hanalysis : analyseBucketPolicy parseNumberedEffect numberedEffect (ascii "photos") =
      .error (ascii
        "[json.exception.type_error.302] type must be string, but is number") := by
    rfl
  refine ⟨hanalysis, ?_, fun h => ?_⟩
  · rfl
  · obtain ⟨analysis, hok, -⟩ := h parseNumberedEffect numberedEffect (ascii "photos")
    cases hanalysis.symm.trans hok

end MonoBucket.S3
