/-
Reading a bucket policy

A policy answers one question here: what may a client with no credentials do?
`analyseBucketPolicy` reads a small closed grammar and refuses everything
outside it, naming the first element it cannot evaluate. The JSON library is a
parameter: the text of a document goes in, a value or a parse error comes out.
-/

import MonoBucket.Lib.Checked
import MonoBucket.S3.S3Error

namespace MonoBucket

/-! ### JSON values -/

/-- `nlohmann::json`, as far as a policy is read. -/
inductive Json
  | null
  | boolean (value : Bool)
  | number
  | string (value : Bytes)
  | array (items : List Json)
  | object (members : List (Bytes × Json))

namespace Json

def member? (json : Json) (name : Bytes) : Option Json :=
  match json with
  | object members => members.lookup name
  | _ => none

def contains (json : Json) (name : Bytes) : Bool := (json.member? name).isSome

def isObject : Json → Bool
  | object _ => true
  | _ => false

def string? : Json → Option Bytes
  | string value => some value
  | _ => none

def typeName : Json → Bytes
  | null => ascii "null"
  | boolean _ => ascii "boolean"
  | number => ascii "number"
  | string _ => ascii "string"
  | array _ => ascii "array"
  | object _ => ascii "object"

/-- `json.value(name, std::string{})`: the default only when the member is
absent. A member of another type throws. -/
def stringValue (json : Json) (name : Bytes) : Except Bytes Bytes :=
  match json.member? name with
  | none => .ok []
  | some (string value) => .ok value
  | some other =>
    .error (ascii "[json.exception.type_error.302] type must be string, but is " ++ other.typeName)

end Json

namespace S3

/-! ### What a policy grants -/

/-- What a policy grants to an unauthenticated client. -/
structure AnonymousGrants where
  readObjects : Bool := false
  listBucket : Bool := false
  deriving DecidableEq

/-- What the document grants, or the first element this build cannot evaluate. -/
structure PolicyAnalysis where
  grants : AnonymousGrants := {}
  unsupported : Bytes := []
  deriving DecidableEq

def PolicyAnalysis.understood (analysis : PolicyAnalysis) : Bool := analysis.unsupported = []

/-- Why reading stops: an element outside the grammar, or an exception of the
JSON library that the analysis does not catch. -/
inductive PolicyStop
  | unsupported (what : Bytes)
  | typeError (what : Bytes)

def refuse {α : Type} (what : Bytes) : Except PolicyStop α := .error (.unsupported what)

/-- What a `Resource` entry addresses. -/
inductive Scope
  | bucket
  | objects
  | both
  deriving DecidableEq

def Scope.reachesObjects (scope : Scope) : Bool := scope = objects ∨ scope = both

def Scope.reachesBucket (scope : Scope) : Bool := scope = bucket ∨ scope = both

def maxPolicyBytes : Nat := 20 * 1024

/-- The ARN prefix every S3 resource carries. -/
def arnPrefix : Bytes := ascii "arn:aws:s3:::"

def inQuotes (value : Bytes) : Bytes := ascii "\"" ++ value ++ ascii "\""

/-- The strings `forEachString` visits, and whether it could read the element: a
string, or a non-empty array of them. It visits up to the first member that is
not a string. -/
def forEachString : Json → List Bytes × Bool
  | .string value => ([value], true)
  | .array items =>
    ((items.takeWhile fun item => item.string?.isSome).filterMap Json.string?,
      !items.isEmpty && items.all fun item => item.string?.isSome)
  | _ => ([], false)

/-! ### The analysis -/

/-- The scope of one resource. -/
def readResource (bucket value : Bytes) : Except PolicyStop Scope :=
  let bucketArn := arnPrefix ++ bucket
  if value = ascii "*" then .ok .both
  else if value = bucketArn then .ok .bucket
  else if value = bucketArn ++ ascii "/*" then .ok .objects
  else if (bucketArn ++ ascii "/").isPrefixOf value then
    refuse (ascii "a Resource scoped to part of a bucket (" ++ inQuotes value ++ ascii ")")
  else
    refuse (ascii "a Resource naming something other than this bucket (" ++ inQuotes value ++
      ascii ")")

/-- What one action asks for. -/
def readAction (value : Bytes) : Except PolicyStop AnonymousGrants :=
  if value = ascii "*" ∨ value = ascii "s3:*" then .ok ⟨true, true⟩
  else if value = ascii "s3:GetObject" then .ok ⟨true, false⟩
  else if value = ascii "s3:ListBucket" then .ok ⟨false, true⟩
  else refuse (ascii "the action " ++ inQuotes value)

/-- Read every entry of an element, then object to its shape. -/
def readEntries {α : Type} (field : Json) (read : Bytes → Except PolicyStop α)
    (unreadable : Bytes) : Except PolicyStop (List α) := do
  let entries ← (forEachString field).1.mapM read
  if (forEachString field).2 then pure entries else refuse unreadable

/-- Whether a principal is everyone. -/
def isEveryone : Json → Bool
  | .string value => value = ascii "*"
  | .object [(name, field)] =>
    name = ascii "AWS" && (forEachString field).2 &&
      (forEachString field).1.all fun value => value = ascii "*"
  | _ => false

/-- The elements that narrow or invert a grant. -/
def invertedElements : List Bytes :=
  [ascii "NotAction", ascii "NotResource", ascii "NotPrincipal"]

/-- An element that must be there. -/
def requireMember (statement : Json) (name : Bytes) : Except PolicyStop Json :=
  match statement.member? name with
  | some field => .ok field
  | none => refuse (ascii "a statement with no " ++ name)

def readEffect (statement : Json) : Except PolicyStop Unit :=
  match statement.stringValue (ascii "Effect") with
  | .error what => .error (.typeError what)
  | .ok effect =>
    if effect = ascii "Deny" then refuse (ascii "a Deny statement")
    else if effect = ascii "Allow" then .ok ()
    else refuse (ascii "an Effect other than \"Allow\" or \"Deny\"")

/-- An action grants only where a resource reaches. -/
def grantsOf (scopes : List Scope) (actions : List AnonymousGrants) : AnonymousGrants where
  readObjects := (actions.any AnonymousGrants.readObjects) && scopes.any Scope.reachesObjects
  listBucket := (actions.any AnonymousGrants.listBucket) && scopes.any Scope.reachesBucket

/-- One turn of the loop over the statements. -/
def readStatement (bucket : Bytes) (statement : Json) : Except PolicyStop AnonymousGrants :=
  if ¬ statement.isObject then refuse (ascii "a statement that is not an object")
  else if statement.contains (ascii "Condition") then refuse (ascii "a Condition block")
  else
    match invertedElements.find? statement.contains with
    | some inverted => refuse (ascii "a " ++ inverted ++ ascii " element")
    | none => do
      readEffect statement
      let principal ← requireMember statement (ascii "Principal")
      if isEveryone principal then
        let resource ← requireMember statement (ascii "Resource")
        let scopes ← readEntries resource (readResource bucket)
          (ascii "a Resource that is neither a string nor a list of them")
        let action ← requireMember statement (ascii "Action")
        let actions ← readEntries action readAction
          (ascii "an Action that is neither a string nor a list of them")
        pure (grantsOf scopes actions)
      else refuse (ascii "a Principal other than \"*\"")

/-- Grants of several statements add up. -/
def AnonymousGrants.union (first second : AnonymousGrants) : AnonymousGrants :=
  ⟨first.readObjects || second.readObjects, first.listBucket || second.listBucket⟩

def checkVersion (policy : Json) : Except PolicyStop Unit :=
  match policy.member? (ascii "Version") with
  | none => .ok ()
  | some version =>
    if version.string? = some (ascii "2012-10-17") ∨ version.string? = some (ascii "2008-10-17") then
      .ok ()
    else refuse (ascii "a Version other than \"2012-10-17\"")

/-- A single statement may be written as a bare object. -/
def statementsOf (policy : Json) : Except PolicyStop (List Json) :=
  match policy.member? (ascii "Statement") with
  | none => refuse (ascii "a document with no Statement")
  | some (.array statements) => .ok statements
  | some (.object members) => .ok [.object members]
  | some _ => refuse (ascii "a Statement that is neither an object nor an array")

/-- What a parsed document grants. -/
def readPolicy (bucket : Bytes) (policy : Json) : Except PolicyStop AnonymousGrants :=
  if ¬ policy.isObject then refuse (ascii "a document that is not a JSON object")
  else do
    checkVersion policy
    let statements ← statementsOf policy
    let grants ← statements.mapM (readStatement bucket)
    pure (grants.foldl AnonymousGrants.union {})

section Parser

variable (parse : Bytes → Option Json)

/-- `parse` is `nlohmann::json::parse`, nothing where it throws. The error is
the text of an exception that escapes. -/
def analyseBucketPolicy (document bucket : Bytes) : Except Bytes PolicyAnalysis :=
  match parse document with
  | none => .ok { unsupported := ascii "a document that is not valid JSON" }
  | some policy =>
    match readPolicy bucket policy with
    | .ok grants => .ok { grants := grants }
    | .error (.unsupported what) => .ok { unsupported := what }
    | .error (.typeError what) => .error what

def validateBucketPolicy (document bucket : Bytes) : Except HandlerError Unit :=
  if document = [] then
    .error (.s3 ⟨.invalidArgument, ascii "The policy document is empty."⟩)
  else if maxPolicyBytes < document.length then
    .error (.s3 ⟨.invalidArgument,
      ascii "The policy document exceeds the maximum size of 20 KB."⟩)
  else
    match analyseBucketPolicy parse document bucket with
    | .error what => .error (.json what)
    | .ok analysis =>
      if analysis.understood then .ok ()
      else
        .error (.s3 ⟨.invalidArgument, ascii "This policy contains " ++ analysis.unsupported ++
          ascii ", which MonoBucket does not evaluate. Bucket policies here grant " ++
          ascii "anonymous s3:GetObject or s3:ListBucket to Principal \"*\" over a " ++
          ascii "whole bucket, and nothing else; signed requests are authorised by " ++
          ascii "the role of the access key\x27s owner and never by this document."⟩)

/-- A validated document is not empty and was read in full. -/
theorem validateBucketPolicy_ok {document bucket : Bytes}
    (h : validateBucketPolicy parse document bucket = .ok ()) :
    document ≠ [] ∧
      ∃ grants, analyseBucketPolicy parse document bucket = .ok { grants := grants } := by
  simp only [validateBucketPolicy] at h
  split_ifs at h with hempty hlong
  refine ⟨hempty, ?_⟩
  cases hanalysis : analyseBucketPolicy parse document bucket with
  | error what => simp [hanalysis] at h
  | ok analysis =>
      obtain ⟨grants, unsupported⟩ := analysis
      have hunderstood : unsupported = [] := by
        simpa [hanalysis, PolicyAnalysis.understood] using h
      exact ⟨grants, by rw [hunderstood]⟩

end Parser

end S3

end MonoBucket
