/-
AWS Signature Version 4

`authenticate` decides who signed a request and how its body is to be checked.
The digest and the keyed digest are parameters. What a body is checked against
is decided by `x-amz-content-sha256` alone, and a presigned request's body is
never covered.
-/

import Mathlib.Data.List.Destutter
import Mathlib.Data.List.DropRight
import MonoBucket.Lib.Checked
import MonoBucket.S3.S3Error
import MonoBucket.S3.Uri

namespace MonoBucket.S3

/-- The digests of the cryptographic library. -/
structure Crypto where
  /-- SHA-256 in lower-case hex. -/
  sha256Hex : Bytes → Bytes
  /-- HMAC-SHA256, raw, of a key and data. -/
  hmacSha256 : Bytes → Bytes → Bytes

def newline : UInt8 := 0x0A

def kAlgorithm : Bytes := ascii "AWS4-HMAC-SHA256"

def kChunkAlgorithm : Bytes := ascii "AWS4-HMAC-SHA256-PAYLOAD"

def kTerminator : Bytes := ascii "aws4_request"

def kService : Bytes := ascii "s3"

def kUnsignedPayload : Bytes := ascii "UNSIGNED-PAYLOAD"

def kStreamingSigned : Bytes := ascii "STREAMING-AWS4-HMAC-SHA256-PAYLOAD"

def kStreamingSignedTrailer : Bytes := ascii "STREAMING-AWS4-HMAC-SHA256-PAYLOAD-TRAILER"

def kStreamingUnsignedTrailer : Bytes := ascii "STREAMING-UNSIGNED-PAYLOAD-TRAILER"

def kEmptySha256 : Bytes :=
  ascii "e3b0c44298fc1c149afbf4c8996fb92427ae41e4649b934ca495991b7852b855"

def kSignatureSkewSeconds : Int := 15 * 60

/-- How the body is authenticated. -/
inductive PayloadMode
  | signed
  | unsigned
  | streamingSigned
  | streamingUnsigned
  deriving DecidableEq, Repr

/-! ### Requests and answers -/

structure SigningRequest where
  method : Bytes
  uri : Bytes
  query : Bytes := []
  headers : List (Bytes × Bytes)
  deriving DecidableEq

/-- A header's value, empty when it is absent. -/
def SigningRequest.header (request : SigningRequest) (name : Bytes) : Bytes :=
  ((request.headers.find? fun entry => entry.1 = name).map Prod.snd).getD []

def SigningRequest.hasHeader (request : SigningRequest) (name : Bytes) : Bool :=
  request.headers.any fun entry => entry.1 = name

structure CanonicalRequest where
  method : Bytes
  uri : Bytes
  query : Bytes
  headers : Bytes := []
  signedHeaders : Bytes := []
  payloadHash : Bytes
  deriving DecidableEq

def CanonicalRequest.render (request : CanonicalRequest) : Bytes :=
  request.method ++ [newline] ++ request.uri ++ [newline] ++ request.query ++ [newline] ++
    request.headers ++ [newline] ++ request.signedHeaders ++ [newline] ++ request.payloadHash

structure AuthOptions where
  nowSeconds : Int := 0
  skewSeconds : Int := kSignatureSkewSeconds
  alternateMethod : Bytes := []
  deriving DecidableEq

structure AuthOutcome where
  anonymous : Bool := false
  presigned : Bool := false
  accessKey : Bytes := []
  method : Bytes := []
  payload : PayloadMode := .unsigned
  trailerExpected : Bool := false
  payloadSha256 : Bytes := []
  scope : Bytes := []
  amzDate : Bytes := []
  signature : Bytes := []
  signingKey : Bytes := []
  deriving DecidableEq

/-! ### Parsing -/

/-- The ends trimmed and internal runs of blanks made one space. -/
def canonicalHeaderValue (value : Bytes) : Bytes :=
  (value.foldl
    (fun (state : Bytes × Bool) byte =>
      if byte = 0x20 ∨ byte = 0x09 then (state.1, decide (state.1 ≠ []))
      else (state.1 ++ (if state.2 then [0x20] else []) ++ [byte], false))
    ([], false)).1

def splitSignedHeaders (list : Bytes) : List Bytes :=
  ((list.splitOn (letter ';')).filter (· ≠ [])).map toLowerText

structure CredentialScope where
  accessKey : Bytes
  dateStamp : Bytes
  region : Bytes
  service : Bytes
  terminator : Bytes
  deriving DecidableEq

def CredentialScope.scope (scope : CredentialScope) : Bytes :=
  scope.dateStamp ++ [letter '/'] ++ scope.region ++ [letter '/'] ++ scope.service ++
    [letter '/'] ++ scope.terminator

/-- The first five components; what follows a fifth separator is not looked at. -/
def parseCredential (text : Bytes) : Except S3Exception CredentialScope :=
  match text.splitOn (letter '/') with
  | accessKey :: dateStamp :: region :: service :: terminator :: _ =>
    .ok ⟨accessKey, dateStamp, region, service, terminator⟩
  | _ =>
    invalidArgument (ascii
      "Credential must be of the form <access-key>/<date>/<region>/s3/aws4_request")

structure AuthorizationHeader where
  credential : Bytes := []
  signedHeaders : Bytes := []
  signature : Bytes := []
  deriving DecidableEq

/-- The loop of `parseAuthorization`; the length of the text bounds its turns. -/
def authorizationFields : Nat → Bytes → AuthorizationHeader → AuthorizationHeader
  | 0, _, header => header
  | fuel + 1, text, header =>
    match splitAtFirst (letter '=') (text.dropWhile fun byte => byte = 0x20 ∨ byte = letter ',') with
    | none => header
    | some (name, rest) =>
      let (untrimmed, next) := (splitAtFirst (letter ',') rest).getD (rest, [])
      let field := untrimmed.rdropWhile (· = 0x20)
      let header :=
        if name = ascii "Credential" then { header with credential := field }
        else if name = ascii "SignedHeaders" then { header with signedHeaders := field }
        else if name = ascii "Signature" then { header with signature := field }
        else header
      authorizationFields fuel next header

def parseAuthorization (value : Bytes) : Except S3Exception AuthorizationHeader :=
  if value.take kAlgorithm.length ≠ kAlgorithm then
    .error ⟨.invalidRequest, ascii "Only AWS4-HMAC-SHA256 authorization is supported."⟩
  else
    let text := value.drop kAlgorithm.length
    let header := authorizationFields text.length text {}
    if header.credential = [] ∨ header.signedHeaders = [] ∨ header.signature = [] then
      .error ⟨.invalidRequest,
        ascii "Authorization header is missing Credential, SignedHeaders or Signature."⟩
    else .ok header

/-- The mode, and the digest when there is one. -/
def payloadModeFor (contentSha256 : Bytes) : Except S3Exception (PayloadMode × Bytes) :=
  if contentSha256 = kUnsignedPayload then .ok (.unsigned, [])
  else if contentSha256 = kStreamingSigned ∨ contentSha256 = kStreamingSignedTrailer then
    .ok (.streamingSigned, [])
  else if contentSha256 = kStreamingUnsignedTrailer then .ok (.streamingUnsigned, [])
  else if contentSha256.length ≠ 64 ∨ ¬ contentSha256.all fun byte => (hexValue byte).isSome then
    invalidArgument (ascii
      "x-amz-content-sha256 must be a hex digest, UNSIGNED-PAYLOAD or one of the streaming payload markers.")
  else .ok (.signed, toLowerText contentSha256)

/-! ### Dates -/

/-- Days since 1970-01-01 of a date in the Gregorian calendar. -/
def daysFromCivil (year month day : Int) : Int :=
  let shifted := if month ≤ 2 then year - 1 else year
  let era := shifted / 400
  let yearOfEra := shifted - era * 400
  let dayOfYear := (153 * (if month > 2 then month - 3 else month + 9) + 2) / 5 + day - 1
  era * 146097 + (yearOfEra * 365 + yearOfEra / 4 - yearOfEra / 100 + dayOfYear) - 719468

/-- The date a number of days after 1970-01-01. -/
def civilFromDays (days : Int) : Int × Int × Int :=
  let shifted := days + 719468
  let era := shifted / 146097
  let dayOfEra := shifted - era * 146097
  let yearOfEra :=
    (dayOfEra - dayOfEra / 1460 + dayOfEra / 36524 - dayOfEra / 146096) / 365
  let dayOfYear := dayOfEra - (365 * yearOfEra + yearOfEra / 4 - yearOfEra / 100)
  let monthIndex := (5 * dayOfYear + 2) / 153
  let day := dayOfYear - (153 * monthIndex + 2) / 5 + 1
  let month := if monthIndex < 10 then monthIndex + 3 else monthIndex - 9
  (yearOfEra + era * 400 + (if month ≤ 2 then 1 else 0), month, day)

/-- `timegm`, which takes fields out of their range. -/
def timegm (year month day hour minute second : Int) : Int :=
  let months := year * 12 + (month - 1)
  (daysFromCivil (months / 12) (months % 12 + 1) 1 + (day - 1)) * 86400 + hour * 3600 +
    minute * 60 + second

/-- The digits at an offset, nothing unless all of them are. -/
def digitsAt (text : Bytes) (offset count : Nat) : Option Int :=
  let digits := (text.drop offset).take count
  if digits.all isDigit then some (digitsValue digits) else none

def parseAmzDate (text : Bytes) : Option Int :=
  if text.length ≠ 16 ∨ text[8]? ≠ some (letter 'T') ∨ text[15]? ≠ some (letter 'Z') then none
  else do
    let year ← digitsAt text 0 4
    let month ← digitsAt text 4 2
    let day ← digitsAt text 6 2
    let hour ← digitsAt text 9 2
    let minute ← digitsAt text 11 2
    let second ← digitsAt text 13 2
    let stamp := timegm year month day hour minute second
    if stamp = -1 ∨ civilFromDays (stamp / 86400) ≠ (year, month, day) then none else some stamp

/-! ### Signing -/

section Signing

variable (crypto : Crypto)

def hexDigit (value : UInt8) : UInt8 := if value < 10 then 0x30 + value else 0x61 + (value - 10)

def toHex (bytes : Bytes) : Bytes :=
  bytes.flatMap fun (byte : UInt8) => [hexDigit (byte >>> 4), hexDigit (byte &&& 0x0F)]

def sign (signingKey toSign : Bytes) : Bytes := toHex (crypto.hmacSha256 signingKey toSign)

def deriveSigningKey (secret dateStamp region service : Bytes) : Bytes :=
  let date := crypto.hmacSha256 (ascii "AWS4" ++ secret) dateStamp
  let regional := crypto.hmacSha256 date region
  let serviced := crypto.hmacSha256 regional service
  crypto.hmacSha256 serviced kTerminator

def stringToSign (amzDate scope canonicalRequestHash : Bytes) : Bytes :=
  kAlgorithm ++ [newline] ++ amzDate ++ [newline] ++ scope ++ [newline] ++ canonicalRequestHash

def chunkSignature (signingKey amzDate scope previousSignature chunkSha256Hex : Bytes) : Bytes :=
  sign crypto signingKey
    (kChunkAlgorithm ++ [newline] ++ amzDate ++ [newline] ++ scope ++ [newline] ++
      previousSignature ++ [newline] ++ kEmptySha256 ++ [newline] ++ chunkSha256Hex)

def trailerSignature (signingKey amzDate scope previousSignature trailerSha256Hex : Bytes) :
    Bytes :=
  sign crypto signingKey
    (ascii "AWS4-HMAC-SHA256-TRAILER" ++ [newline] ++ amzDate ++ [newline] ++ scope ++
      [newline] ++ previousSignature ++ [newline] ++ trailerSha256Hex)

/-- Every byte is compared, however early two texts differ. -/
def secureEquals (first second : Bytes) : Bool :=
  if first.length ≠ second.length then false
  else (List.zipWith (· ^^^ ·) first second).foldl (· ||| ·) 0 = 0

theorem foldl_or_eq_zero_iff (bytes : Bytes) (start : UInt8) :
    bytes.foldl (· ||| ·) start = 0 ↔ start = 0 ∧ ∀ byte ∈ bytes, byte = 0 := by
  induction bytes generalizing start with
  | nil => simp
  | cons byte rest ih =>
      rw [List.foldl_cons, ih, List.forall_mem_cons, ← and_assoc]
      apply and_congr_left
      intro _
      exact UInt8.or_eq_zero_iff

theorem secureEquals_iff (first second : Bytes) :
    secureEquals first second = true ↔ first = second := by
  induction first generalizing second with
  | nil => cases second <;> simp [secureEquals]
  | cons byte rest ih =>
      cases second with
      | nil => simp [secureEquals]
      | cons other tail =>
          have htail := ih tail
          rw [secureEquals] at htail ⊢
          by_cases hlength : rest.length = tail.length
          · rw [if_neg (by simpa using hlength), decide_eq_true_eq, foldl_or_eq_zero_iff] at htail ⊢
            rw [List.zipWith_cons_cons, List.forall_mem_cons, List.cons.injEq, ← htail,
              UInt8.xor_eq_zero_iff]
            simp
          · rw [if_pos (by simpa using hlength)]
            simp only [Bool.false_eq_true, List.cons.injEq, false_iff, not_and]
            exact fun _ heq => hlength (congrArg List.length heq)

/-- The header lines and the list of their names, or the first one that was
signed and not sent. -/
def canonicalHeaders (request : SigningRequest) :
    List Bytes → Except S3Exception (List Bytes)
  | [] => .ok []
  | name :: rest => do
    if ¬ request.hasHeader name then
      .error ⟨.signatureDoesNotMatch,
        ascii "The request signed the header \x27" ++ name ++
          ascii "\x27, which was not present in the request."⟩
    let others ← canonicalHeaders request rest
    pure ((name ++ [letter ':'] ++ canonicalHeaderValue (request.header name) ++ [newline]) :: others)

def buildCanonicalRequest (request : SigningRequest) (signedHeaders : List Bytes)
    (payloadHash : Bytes) : Except S3Exception CanonicalRequest := do
  let names := (signedHeaders.insertionSort (· ≤ ·)).destutter (· ≠ ·)
  let lines ← canonicalHeaders request names
  pure
    { method := request.method
      uri := if request.uri = [] then [letter '/'] else request.uri
      query := canonicalQueryString (parseQuery request.query) (ascii "X-Amz-Signature")
      headers := lines.flatten
      signedHeaders := joined (letter ';') names
      payloadHash := payloadHash }

end Signing

/-! ### Verification -/

/-- What a request says about its signature, before any of it is verified. -/
structure Claimed where
  outcome : AuthOutcome
  credential : Bytes
  signedHeaderList : Bytes
  providedSignature : Bytes
  payloadHash : Bytes
  deriving DecidableEq

/-- `std::stoll` in base ten, minus one where it throws. -/
def expiresSeconds (text : Bytes) : Int :=
  let (negative, rest) := splitSign (text.dropWhile isSpace)
  let digits := rest.takeWhile isDigit
  let value : Int := if negative then -(digitsValue digits : Int) else digitsValue digits
  if digits = [] ∨ value < -2 ^ 63 ∨ 2 ^ 63 ≤ value then -1 else value

/-- The branch of `authenticate` for a presigned URL. -/
def presignedClaim (query : List QueryParam) (options : AuthOptions) (signature : Bytes) :
    Except S3Exception Claimed := do
  if findQuery query (ascii "X-Amz-Algorithm") ≠ some kAlgorithm then
    invalidArgument (ascii "X-Amz-Algorithm must be AWS4-HMAC-SHA256.")
  match findQuery query (ascii "X-Amz-Credential"), findQuery query (ascii "X-Amz-Date"),
      findQuery query (ascii "X-Amz-SignedHeaders") with
  | some credential, some amzDate, some signedHeaderList =>
    match parseAmzDate amzDate with
    | none => invalidArgument (ascii "X-Amz-Date is not a valid timestamp.")
    | some signedAt =>
      let expires := ((findQuery query (ascii "X-Amz-Expires")).map expiresSeconds).getD 0
      if expires ≤ 0 ∨ 604800 < expires then
        invalidArgument (ascii "X-Amz-Expires must be between 1 and 604800 seconds.")
      else if signedAt + expires < options.nowSeconds then
        .error ⟨.accessDenied, ascii "Request has expired."⟩
      else if options.skewSeconds < signedAt - options.nowSeconds then
        .error ⟨.accessDenied, ascii "The presigned URL is not valid yet."⟩
      else
        pure
          { outcome := { presigned := true, amzDate := amzDate, payload := .unsigned }
            credential := credential
            signedHeaderList := signedHeaderList
            providedSignature := signature
            payloadHash := kUnsignedPayload }
  | _, _, _ =>
    invalidArgument (ascii
      "A presigned URL requires X-Amz-Credential, X-Amz-Date and X-Amz-SignedHeaders.")

/-- The date a request was signed at, `x-amz-date` before `date`. -/
def requestDate (request : SigningRequest) : Bytes :=
  let amzDate := request.header (ascii "x-amz-date")
  if amzDate = [] then request.header (ascii "date") else amzDate

/-- The branch of `authenticate` for an Authorization header. -/
def headerClaim (request : SigningRequest) (options : AuthOptions) (authorization : Bytes) :
    Except S3Exception Claimed := do
  let header ← parseAuthorization authorization
  let amzDate := requestDate request
  if amzDate = [] then
    .error ⟨.missingSecurityHeader, ascii "A signed request must carry x-amz-date."⟩
  match parseAmzDate amzDate with
  | none => invalidArgument (ascii "x-amz-date is not a valid timestamp.")
  | some signedAt =>
    if options.skewSeconds < |options.nowSeconds - signedAt| then
      .error ⟨.requestTimeTooSkewed,
        ascii "The difference between the request time and the server time is greater than " ++
          ascii (toString options.skewSeconds) ++ ascii " seconds."⟩
    else
      let contentSha256 := request.header (ascii "x-amz-content-sha256")
      if contentSha256 = [] then
        .error ⟨.missingSecurityHeader,
          ascii "A signed request must carry x-amz-content-sha256."⟩
      else
        let payload ← payloadModeFor contentSha256
        pure
          { outcome :=
              { amzDate := amzDate
                payload := payload.1
                payloadSha256 := payload.2
                trailerExpected := contentSha256 = kStreamingSignedTrailer ∨
                  contentSha256 = kStreamingUnsignedTrailer }
            credential := header.credential
            signedHeaderList := header.signedHeaders
            providedSignature := header.signature
            payloadHash := contentSha256 }

section Verification

variable (crypto : Crypto)

/-- The signature of a request under one method. -/
def attemptSignature (request : SigningRequest) (signedHeaders : List Bytes)
    (signingKey amzDate scope payloadHash method : Bytes) : Except S3Exception Bytes := do
  let canonical ← buildCanonicalRequest { request with method := method } signedHeaders payloadHash
  pure (sign crypto signingKey
    (stringToSign amzDate scope (crypto.sha256Hex canonical.render)))

/-- The part of `authenticate` both branches share. -/
def verifyClaim (request : SigningRequest) (resolve : Bytes → Option Bytes) (options : AuthOptions)
    (claimed : Claimed) : Except S3Exception AuthOutcome := do
  let scope ← parseCredential claimed.credential
  if scope.service ≠ kService ∨ scope.terminator ≠ kTerminator then
    invalidArgument (ascii "Credential scope must end in /s3/aws4_request.")
  if claimed.outcome.amzDate.take 8 ≠ scope.dateStamp then
    invalidArgument (ascii
      "The date in the credential scope does not match the request date.")
  match resolve scope.accessKey with
  | none => throwCode .invalidAccessKeyId
  | some secretKey =>
    let signedHeaders := splitSignedHeaders claimed.signedHeaderList
    if ascii "host" ∉ signedHeaders then
      .error ⟨.signatureDoesNotMatch, ascii "The \x27host\x27 header must be signed."⟩
    let signingKey := deriveSigningKey crypto secretKey scope.dateStamp scope.region scope.service
    let attempt := attemptSignature crypto request signedHeaders signingKey
      claimed.outcome.amzDate scope.scope claimed.payloadHash
    let expected := toLowerText claimed.providedSignature
    let accepted := fun (method signature : Bytes) =>
      { claimed.outcome with
        accessKey := scope.accessKey
        scope := scope.scope
        signingKey := signingKey
        signature := signature
        method := method }
    let signature ← attempt request.method
    if secureEquals signature expected then pure (accepted request.method signature)
    else if options.alternateMethod = [] then throwCode .signatureDoesNotMatch
    else
      let signature ← attempt options.alternateMethod
      if secureEquals signature expected then pure (accepted options.alternateMethod signature)
      else throwCode .signatureDoesNotMatch

def authenticate (request : SigningRequest) (query : List QueryParam)
    (resolve : Bytes → Option Bytes) (options : AuthOptions) : Except S3Exception AuthOutcome := do
  let authorization := request.header (ascii "authorization")
  match findQuery query (ascii "X-Amz-Signature") with
  | some signature =>
    let claimed ← presignedClaim query options signature
    verifyClaim crypto request resolve options claimed
  | none =>
    if authorization = [] then pure { anonymous := true }
    else
      let claimed ← headerClaim request options authorization
      verifyClaim crypto request resolve options claimed

end Verification

end MonoBucket.S3
