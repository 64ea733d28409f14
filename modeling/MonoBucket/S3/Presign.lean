/-
Presigned URLs

A presigned URL carries its own credential, date and lifetime in the query, and
a signature of the rest. The text that is signed and the text that is sent are
one canonical query string.
-/

import MonoBucket.S3.SigV4
import MonoBucket.S3.UriRoundTrip

namespace MonoBucket.S3

/-- A number in so many decimal digits. -/
def paddedDecimal : Nat → Nat → Bytes
  | 0, _ => []
  | width + 1, value => paddedDecimal width (value / 10) ++ [0x30 + (value % 10).toUInt8]

/-- `strftime` of the UTC time. A year of more than four digits does not fit the
buffer, whose contents are then unspecified: the model leaves it empty. -/
def formatAmzDate (seconds : Int) : Bytes :=
  let (year, month, day) := civilFromDays (seconds / 86400)
  let second := (seconds % 86400).toNat
  if year < 0 ∨ 9999 < year then []
  else
    paddedDecimal 4 year.toNat ++ paddedDecimal 2 month.toNat ++ paddedDecimal 2 day.toNat ++
      [letter 'T'] ++ paddedDecimal 2 (second / 3600) ++ paddedDecimal 2 (second / 60 % 60) ++
      paddedDecimal 2 (second % 60) ++ [letter 'Z']

structure Credentials where
  accessKey : Bytes
  secretKey : Bytes
  deriving DecidableEq

structure PresignRequest where
  method : Bytes := ascii "GET"
  host : Bytes
  uri : Bytes
  region : Bytes := ascii "us-east-1"
  nowSeconds : Int := 0
  expiresSeconds : Int := 3600
  deriving DecidableEq

namespace PresignRequest

variable (request : PresignRequest)

def amzDate : Bytes := formatAmzDate request.nowSeconds

def dateStamp : Bytes := request.amzDate.take 8

def scope : Bytes :=
  request.dateStamp ++ [letter '/'] ++ request.region ++ [letter '/'] ++ kService ++ [letter '/'] ++
    kTerminator

/-- The parameters in the order they are added. -/
def params (accessKey : Bytes) : List QueryParam :=
  [⟨ascii "X-Amz-Algorithm", kAlgorithm, true⟩,
    ⟨ascii "X-Amz-Credential", accessKey ++ [letter '/'] ++ request.scope, true⟩,
    ⟨ascii "X-Amz-Date", request.amzDate, true⟩,
    ⟨ascii "X-Amz-Expires", decimal request.expiresSeconds.toNat, true⟩,
    ⟨ascii "X-Amz-SignedHeaders", ascii "host", true⟩]

def signing (query : Bytes) : SigningRequest :=
  { method := request.method
    uri := request.uri
    query := query
    headers := [(ascii "host", request.host)] }

end PresignRequest

section Presign

variable (crypto : Crypto)

def presignQuery (request : PresignRequest) (credentials : Credentials) :
    Except S3Exception Bytes :=
  if request.expiresSeconds ≤ 0 ∨ 604800 < request.expiresSeconds then
    invalidArgument (ascii "X-Amz-Expires must be between 1 and 604800 seconds.")
  else if request.host = [] then
    invalidArgument (ascii "A presigned URL must be bound to a host.")
  else do
    let query := canonicalQueryString (request.params credentials.accessKey) []
    let canonical ← buildCanonicalRequest (request.signing query) [ascii "host"] kUnsignedPayload
    let signingKey :=
      deriveSigningKey crypto credentials.secretKey request.dateStamp request.region kService
    pure (query ++ ascii "&X-Amz-Signature=" ++
      sign crypto signingKey
        (stringToSign request.amzDate request.scope (crypto.sha256Hex canonical.render)))

end Presign

def signatureName : Bytes := ascii "X-Amz-Signature"

/-! ### Hexadecimal text -/

theorem hexDigit_unreserved (byte : UInt8) :
    isUnreserved (hexDigit (byte >>> 4)) ∧ isUnreserved (hexDigit (byte &&& 0x0F)) :=
  forall_byte_of_fin
    (P := fun byte => isUnreserved (hexDigit (byte >>> 4)) ∧ isUnreserved (hexDigit (byte &&& 0x0F)))
    (by decide +kernel) byte

theorem isUnreserved_of_mem_toHex {bytes : Bytes} {byte : UInt8} (h : byte ∈ toHex bytes) :
    isUnreserved byte := by
  obtain ⟨source, -, hmem⟩ := List.mem_flatMap.mp h
  simp only [List.mem_cons, List.not_mem_nil, or_false] at hmem
  rcases hmem with rfl | rfl
  · exact (hexDigit_unreserved source).1
  · exact (hexDigit_unreserved source).2

/-! ### What a presigned query reads back as -/

/-- Fields already in order stay in order. -/
theorem canonicalFields_of_sorted {params : List QueryParam} {omitted : Bytes}
    (h : ((params.filter fun param => omitted = [] ∨ param.name ≠ omitted).map
      encodedField).Pairwise fieldBefore) :
    canonicalFields params omitted =
      (params.filter fun param => omitted = [] ∨ param.name ≠ omitted).map encodedField :=
  List.Pairwise.insertionSort_eq h

theorem fieldBefore_of_name_lt {first second : QueryParam}
    (h : uriEncode first.name true < uriEncode second.name true) :
    fieldBefore (encodedField first) (encodedField second) :=
  Or.inl h

/-- The names a presigned query gives its parameters. -/
def presignNames : List Bytes :=
  [ascii "X-Amz-Algorithm", ascii "X-Amz-Credential", ascii "X-Amz-Date", ascii "X-Amz-Expires",
    ascii "X-Amz-SignedHeaders"]

theorem PresignRequest.map_name_params (request : PresignRequest) (accessKey : Bytes) :
    (request.params accessKey).map QueryParam.name = presignNames := rfl

theorem PresignRequest.canonicalFields_params (request : PresignRequest) (accessKey : Bytes) :
    canonicalFields (request.params accessKey) [] = (request.params accessKey).map encodedField := by
  have hall : ((request.params accessKey).filter fun param =>
      ([] : Bytes) = [] ∨ param.name ≠ []) = request.params accessKey :=
    List.filter_eq_self.mpr fun _ _ => decide_eq_true (Or.inl rfl)
  rw [canonicalFields_of_sorted, hall]
  rw [hall, List.pairwise_map]
  have hnames : presignNames.Pairwise fun first second => uriEncode first true < uriEncode second true := by
    decide +kernel
  rw [← request.map_name_params accessKey, List.pairwise_map] at hnames
  exact hnames.imp fieldBefore_of_name_lt

section Query

variable {crypto : Crypto} {request : PresignRequest} {credentials : Credentials} {query : Bytes}

/-- The signature a presigned query carries, of a canonical request. -/
def PresignRequest.signature (crypto : Crypto) (request : PresignRequest) (secretKey : Bytes)
    (canonical : CanonicalRequest) : Bytes :=
  sign crypto (deriveSigningKey crypto secretKey request.dateStamp request.region kService)
    (stringToSign request.amzDate request.scope (crypto.sha256Hex canonical.render))

theorem presignQuery_ok (h : presignQuery crypto request credentials = .ok query) :
    0 < request.expiresSeconds ∧ request.expiresSeconds ≤ 604800 ∧ request.host ≠ [] ∧
      ∃ canonical,
        buildCanonicalRequest
            (request.signing (canonicalQueryString (request.params credentials.accessKey) []))
            [ascii "host"] kUnsignedPayload = .ok canonical ∧
          query = canonicalQueryString (request.params credentials.accessKey) [] ++
            ascii "&X-Amz-Signature=" ++
              request.signature crypto credentials.secretKey canonical := by
  rw [presignQuery] at h
  split_ifs at h with hexpires hhost
  · cases h
  · cases h
  · dsimp only at h
    obtain ⟨canonical, hcanonical, h⟩ := Except.bind_eq_ok_iff.mp h
    obtain rfl := Except.pure_eq_ok_iff.mp h
    exact ⟨by omega, by omega, hhost, canonical, hcanonical, rfl⟩

theorem isEncoded_signature (bytes : Bytes) : IsEncoded (signatureName, toHex bytes) := by
  refine ⟨signatureName, toHex bytes, ?_⟩
  rw [uriEncode_of_unreserved true fun _ => isUnreserved_of_mem_toHex,
    uriEncode_of_unreserved true (by decide +kernel)]

theorem decodedField_signature (bytes : Bytes) :
    decodedField (signatureName, toHex bytes) = ⟨signatureName, toHex bytes, true⟩ := by
  have hvalue := uriDecode_uriEncode (toHex bytes) true
  rw [uriEncode_of_unreserved true fun _ => isUnreserved_of_mem_toHex] at hvalue
  rw [decodedField, hvalue]
  rfl

/-- The canonical request of which only the host is signed. -/
def hostCanonical (request : SigningRequest) (payloadHash : Bytes) : CanonicalRequest where
  method := request.method
  uri := if request.uri = [] then [letter '/'] else request.uri
  query := canonicalQueryString (parseQuery request.query) signatureName
  headers :=
    ascii "host" ++ [letter ':'] ++ canonicalHeaderValue (request.header (ascii "host")) ++ [newline]
  signedHeaders := ascii "host"
  payloadHash := payloadHash

theorem buildCanonicalRequest_host (signed : SigningRequest) (payloadHash : Bytes) :
    buildCanonicalRequest signed [ascii "host"] payloadHash =
      if signed.hasHeader (ascii "host") then .ok (hostCanonical signed payloadHash)
      else .error ⟨.signatureDoesNotMatch,
        ascii "The request signed the header \x27" ++ ascii "host" ++
          ascii "\x27, which was not present in the request."⟩ := by
  have hnames : ([ascii "host"].insertionSort (· ≤ ·)).destutter (· ≠ ·) = [ascii "host"] := rfl
  rw [buildCanonicalRequest, hnames]
  cases hthere : signed.hasHeader (ascii "host") with
  | false => simp [canonicalHeaders, hthere, bind, Except.bind]
  | true =>
      simp [canonicalHeaders, hthere, bind, Except.bind, pure, Except.pure, hostCanonical,
        joined, signatureName]

/-- The header that is signed is there. -/
theorem buildCanonicalRequest_signing (request : PresignRequest) (query : Bytes) :
    buildCanonicalRequest (request.signing query) [ascii "host"] kUnsignedPayload =
      .ok (hostCanonical (request.signing query) kUnsignedPayload) := by
  have hthere : (request.signing query).hasHeader (ascii "host") := by
    simp [SigningRequest.hasHeader, PresignRequest.signing]
  rw [buildCanonicalRequest_host, if_pos hthere]

theorem presignQuery_returns (hexpires : 0 < request.expiresSeconds)
    (hbound : request.expiresSeconds ≤ 604800) (hhost : request.host ≠ []) :
    ∃ query, presignQuery crypto request credentials = .ok query := by
  rw [presignQuery, if_neg (by omega), if_neg hhost]
  dsimp only
  rw [buildCanonicalRequest_signing]
  exact ⟨_, rfl⟩

/-- A signature behind a canonical query string is one more parameter. -/
theorem parseQuery_signed {params : List QueryParam} (hsome : canonicalFields params [] ≠ [])
    (bytes : Bytes) :
    parseQuery (canonicalQueryString params [] ++ ascii "&X-Amz-Signature=" ++ toHex bytes) =
      (canonicalFields params []).map decodedField ++ [⟨signatureName, toHex bytes, true⟩] := by
  have hfields : ((canonicalFields params []).map fieldText) ≠ [] := by simpa using hsome
  have htext : canonicalQueryString params [] ++ ascii "&X-Amz-Signature=" ++ toHex bytes =
      [letter '&'].intercalate
        ((canonicalFields params [] ++ [(signatureName, toHex bytes)]).map fieldText) := by
    have hname : ascii "&X-Amz-Signature=" = [letter '&'] ++ (signatureName ++ [letter '=']) := by
      decide
    rw [List.map_append, List.map_singleton, intercalate_append_singleton hfields,
      canonicalQueryString_eq, hname, fieldText]
    simp only [List.append_assoc]
  rw [htext, parseQuery_fields, List.map_append, List.map_singleton, decodedField_signature]
  intro field hfield
  rcases List.mem_append.mp hfield with hparam | hsignature
  · exact isEncoded_of_mem_canonicalFields hparam
  · rw [List.mem_singleton.mp hsignature]
    exact isEncoded_signature bytes

/-- A presigned query is its five parameters and the signature. -/
theorem parseQuery_presignQuery (h : presignQuery crypto request credentials = .ok query) :
    ∃ canonical,
      buildCanonicalRequest
          (request.signing (canonicalQueryString (request.params credentials.accessKey) []))
          [ascii "host"] kUnsignedPayload = .ok canonical ∧
        parseQuery query = request.params credentials.accessKey ++
          [⟨signatureName, request.signature crypto credentials.secretKey canonical, true⟩] := by
  obtain ⟨-, -, -, canonical, hcanonical, rfl⟩ := presignQuery_ok h
  have hfields := request.canonicalFields_params credentials.accessKey
  have hdecoded : (canonicalFields (request.params credentials.accessKey) []).map decodedField =
      request.params credentials.accessKey := by
    have hround : decodedField ∘ encodedField = fun param => { param with hasValue := true } :=
      funext decodedField_encodedField
    rw [hfields, List.map_map, hround]
    rfl
  refine ⟨canonical, hcanonical, ?_⟩
  rw [PresignRequest.signature, sign, parseQuery_signed, hdecoded]
  rw [hfields]
  simp [PresignRequest.params]

end Query

end MonoBucket.S3
