/-
Accepting a CORS configuration

`validateCorsRules` is the one check both front doors put a configuration
through. It bounds the number of rules but not the length of a rule's lists, and
it asks of an exposed header only that it has a name. `matchCors` finds the rule a
request goes by.
-/

import MonoBucket.Lib.Checked
import MonoBucket.S3.S3Error
import MonoBucket.S3.Uri
import MonoBucket.S3.Xml

namespace MonoBucket.S3

def maxRules : Nat := 100

def allowedMethodNames : List Bytes :=
  [ascii "GET", ascii "PUT", ascii "POST", ascii "DELETE", ascii "HEAD"]

/-- The longest a preflight answer may be cached. -/
def maxAgeLimit : Int32 := 86400

def validatePattern (what : Bytes) (pattern : Text) : Except S3Exception Unit :=
  if pattern.items = [] then malformedXml (what ++ ascii " must not be empty.")
  else if 1 < pattern.items.count 0x2A then
    malformedXml (what ++ ascii " may contain at most one wildcard.")
  else .ok ()

/-- The check on a method that was already upper-cased. -/
def validateMethod (method : Text) : Except S3Exception Unit :=
  if method.items ∈ allowedMethodNames then .ok ()
  else
    malformedXml (ascii "\x27" ++ method.items ++
      ascii "\x27 is not an allowed method. Use GET, PUT, POST, DELETE or HEAD.")

def validateExposeHeader (header : Text) : Except S3Exception Unit :=
  if header.items = [] then malformedXml (ascii "An exposed header name must not be empty.")
  else .ok ()

/-- The rule as it is kept: methods in upper case, request headers in lower. -/
def normaliseCorsRule (rule : CorsRule) : CorsRule :=
  { rule with
    allowedMethods := rule.allowedMethods.map fun method => method.map toUpper
    allowedHeaders := rule.allowedHeaders.map fun header => header.map toLower }

/-- The checks on one rule, in the order they are made. -/
def checkCorsRule (rule : CorsRule) : Except S3Exception Unit := do
  if rule.allowedOrigins.items = [] then
    malformedXml (ascii "Every rule needs at least one allowed origin.")
  rule.allowedOrigins.items.forM (validatePattern (ascii "AllowedOrigin"))
  if rule.allowedMethods.items = [] then
    malformedXml (ascii "Every rule needs at least one allowed method.")
  (normaliseCorsRule rule).allowedMethods.items.forM validateMethod
  rule.allowedHeaders.items.forM (validatePattern (ascii "AllowedHeader"))
  rule.exposeHeaders.items.forM validateExposeHeader
  if maxAgeLimit < rule.maxAgeSeconds then
    malformedXml (ascii "MaxAgeSeconds must be between 0 and 86400.")

def validateCorsRules (rules : Sized CorsRule) : Except S3Exception (Sized CorsRule) :=
  if rules.items = [] then
    malformedXml (ascii "A CORS configuration must contain at least one rule.")
  else if maxRules < rules.items.length then
    malformedXml (ascii "A CORS configuration may contain at most " ++ decimal maxRules ++
      ascii " rules.")
  else do
    rules.items.forM checkCorsRule
    pure (rules.map normaliseCorsRule)

/-- What is accepted is the configuration itself, normalised, with at least one
rule and at most a hundred. -/
theorem validateCorsRules_ok {rules accepted : Sized CorsRule}
    (h : validateCorsRules rules = .ok accepted) :
    rules.items ≠ [] ∧ rules.items.length ≤ maxRules ∧
      (∀ rule ∈ rules.items, checkCorsRule rule = .ok ()) ∧
      accepted = rules.map normaliseCorsRule := by
  simp only [validateCorsRules, malformedXml] at h
  split_ifs at h with hempty hmany
  obtain ⟨⟨⟩, hchecked, h⟩ := Except.bind_eq_ok_iff.mp h
  exact ⟨hempty, not_lt.mp hmany, Except.forM_eq_ok_iff.mp hchecked,
    (Except.pure_eq_ok_iff.mp h).symm⟩

/-- What the checks on a rule ask of it. -/
structure PassesCheck (rule : CorsRule) : Prop where
  origins : rule.allowedOrigins.items ≠ []
  originPatterns : ∀ origin ∈ rule.allowedOrigins.items,
    validatePattern (ascii "AllowedOrigin") origin = .ok ()
  methods : rule.allowedMethods.items ≠ []
  methodNames : ∀ method ∈ (normaliseCorsRule rule).allowedMethods.items,
    validateMethod method = .ok ()
  headerPatterns : ∀ header ∈ rule.allowedHeaders.items,
    validatePattern (ascii "AllowedHeader") header = .ok ()
  exposed : ∀ header ∈ rule.exposeHeaders.items, validateExposeHeader header = .ok ()
  age : ¬ maxAgeLimit < rule.maxAgeSeconds

theorem checkCorsRule_eq_ok_iff {rule : CorsRule} :
    checkCorsRule rule = .ok () ↔ PassesCheck rule := by
  have hrefuse : ∀ {refused : Prop} [Decidable refused] {message : Bytes}
      {rest : Except S3Exception Unit},
      (if refused then (do malformedXml message; rest) else rest) = .ok () ↔
        ¬ refused ∧ rest = .ok () := by
    intro refused _ message rest
    split_ifs with hrefused
    · exact iff_of_false (fun h => nomatch h) fun h => h.1 hrefused
    · exact (and_iff_right hrefused).symm
  have hthen : ∀ {first rest : Except S3Exception Unit},
      (do first; rest) = .ok () ↔ first = .ok () ∧ rest = .ok () := by
    intro first rest
    rw [Except.bind_eq_ok_iff]
    exact ⟨fun ⟨_, hfirst, hrest⟩ => ⟨hfirst, hrest⟩, fun h => ⟨(), h⟩⟩
  have hlast : (if maxAgeLimit < rule.maxAgeSeconds then
      malformedXml (ascii "MaxAgeSeconds must be between 0 and 86400.") else pure ()) =
      (.ok () : Except S3Exception Unit) ↔ ¬ maxAgeLimit < rule.maxAgeSeconds := by
    split_ifs with hage
    · exact iff_of_false (fun h => nomatch h) fun h => h hage
    · exact iff_of_true rfl hage
  rw [checkCorsRule]
  dsimp only
  rw [hrefuse, hthen, hrefuse, hthen, hthen, hthen, hlast, Except.forM_eq_ok_iff,
    Except.forM_eq_ok_iff, Except.forM_eq_ok_iff, Except.forM_eq_ok_iff]
  constructor
  · rintro ⟨horigins, hpatterns, hmethods, hnames, hheaders, hexposed, hage⟩
    exact ⟨horigins, hpatterns, hmethods, hnames, hheaders, hexposed, hage⟩
  · rintro ⟨horigins, hpatterns, hmethods, hnames, hheaders, hexposed, hage⟩
    exact ⟨horigins, hpatterns, hmethods, hnames, hheaders, hexposed, hage⟩

/-- A rule that passes allows methods of the five only. -/
theorem mem_of_checkCorsRule {rule : CorsRule} (h : checkCorsRule rule = .ok ()) :
    ∀ method ∈ (normaliseCorsRule rule).allowedMethods.items, method.items ∈ allowedMethodNames := by
  intro method hmethod
  have hpassed := (checkCorsRule_eq_ok_iff.mp h).methodNames method hmethod
  rw [validateMethod] at hpassed
  split_ifs at hpassed with hname
  · exact hname
  · cases hpassed

/-- Normalising a rule changes the text of its entries, never their number. -/
theorem listsFit_normaliseCorsRule (rule : CorsRule) :
    (normaliseCorsRule rule).ListsFit ↔ rule.ListsFit := by
  simp [CorsRule.ListsFit, normaliseCorsRule]

/-- An accepted configuration reads back as it was written exactly when the
rules that were submitted have short lists and no max age below "none". -/
theorem storable_of_validateCorsRules {rules accepted : Sized CorsRule}
    (h : validateCorsRules rules = .ok accepted) :
    accepted.size ≤ maxCorsRules ∧
      ((∀ rule ∈ accepted.items, rule.ListsFit ∧ -1 ≤ rule.maxAgeSeconds) ↔
        ∀ rule ∈ rules.items, rule.ListsFit ∧ -1 ≤ rule.maxAgeSeconds) := by
  obtain ⟨-, hcount, -, rfl⟩ := validateCorsRules_ok h
  constructor
  · rw [UInt64.le_iff_toNat_le, Sized.toNat_size, Sized.items_map, List.length_map]
    exact hcount
  · rw [Sized.items_map, List.forall_mem_map]
    simp only [listsFit_normaliseCorsRule]
    exact Iff.rfl

/-! ### Matching a request -/

/-- A pattern with at most one wildcard; the parts around it may not overlap. -/
def corsPatternMatches (pattern value : Bytes) : Bool :=
  match splitAtFirst (letter '*') pattern with
  | none => pattern = value
  | some (front, back) =>
    front.length + back.length ≤ value.length ∧ value.take front.length = front ∧
      value.drop (value.length - back.length) = back

def matchesAny (patterns : Sized Text) (value : Bytes) : Bool :=
  patterns.items.any fun pattern => corsPatternMatches pattern.items value

/-- The names an Access-Control-Request-Headers lists, in lower case. -/
def splitRequestedHeaders (value : Bytes) : List Bytes :=
  ((value.splitOn (letter ',')).map Xml.trimmed).filterMap fun name =>
    if name = [] then none else some (toLowerText name)

structure CorsQuery where
  origin : Bytes
  method : Bytes
  requestedHeaders : List Bytes := []

structure CorsDecision where
  rule : CorsRule
  allowedHeaders : List Bytes

/-- The first rule that permits the origin, the method and every header. -/
def matchCors (rules : List CorsRule) (query : CorsQuery) : Option CorsDecision :=
  (rules.find? fun rule =>
    matchesAny rule.allowedOrigins query.origin &&
      (decide (query.method.map toUpper ∈ rule.allowedMethods.items.map Sized.items) &&
        query.requestedHeaders.all fun name => matchesAny rule.allowedHeaders name)).map
    fun rule => ⟨rule, query.requestedHeaders⟩

end MonoBucket.S3
