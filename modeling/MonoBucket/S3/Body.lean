/-
The request body

`S3Body` takes the framing off a body and checks it the way its signature
demands. Two families of headers decide how: `x-amz-content-sha256`, which is
signed, and `content-encoding` with `x-amz-decoded-content-length`, which need
not be. A body signed as a whole whose unsigned headers ask for framing is
decoded without being hashed.
-/

import MonoBucket.S3.Chunked

namespace MonoBucket.S3

structure S3Body where
  raw : Bytes
  auth : AuthOutcome
  chunked : Bool
  decodedLength : UInt64

namespace S3Body

/-- The constructor: the payload marker decides the framing, and the encoding may
add it to a body that is signed as a whole or not at all. -/
def make (raw : Bytes) (auth : AuthOutcome) (contentEncoding : Bytes) (decodedLength : UInt64) :
    S3Body :=
  let streaming : Bool := auth.payload = .streamingSigned ∨ auth.payload = .streamingUnsigned
  { raw := raw
    auth := auth
    decodedLength := decodedLength
    chunked := streaming || (isAwsChunked contentEncoding && decide (0 < decodedLength)) }

/-- The body `serve` makes of a request it authenticated. -/
def ofRequest (request : SigningRequest) (raw : Bytes) (auth : AuthOutcome) : S3Body :=
  make raw auth (request.header (ascii "content-encoding"))
    (headerAsUnsigned (request.header (ascii "x-amz-decoded-content-length")))

def chunkedOptions (body : S3Body) : ChunkedOptions :=
  { verifySignatures := body.auth.payload = .streamingSigned
    signingKey := body.auth.signingKey
    amzDate := body.auth.amzDate
    scope := body.auth.scope
    seedSignature := body.auth.signature
    expectTrailerSignature := body.auth.trailerExpected
    declaredLength := body.decodedLength }

def streamTo (crypto : Crypto) (body : S3Body) : Delivery Trailers :=
  if body.chunked then decode crypto body.chunkedOptions body.raw
  else if body.auth.payload = .signed ∧
      ¬ secureEquals (crypto.sha256Hex body.raw) body.auth.payloadSha256 then
    ⟨[], throwCode .xAmzContentSHA256Mismatch⟩
  else ⟨[body.raw], .ok .empty⟩

end S3Body

/-! ### Requests signed with a digest -/

section Accepted

variable {crypto : Crypto} {request : SigningRequest} {query : List QueryParam}
  {resolve : Bytes → Option Bytes} {options : AuthOptions} {auth : AuthOutcome}

/-- The digest a request's signature covers its body with. -/
def signedDigest (request : SigningRequest) : Bytes :=
  toLowerText (request.header (ascii "x-amz-content-sha256"))

theorem payloadSha256_of_payloadModeFor {contentSha256 digest : Bytes}
    (h : payloadModeFor contentSha256 = .ok (.signed, digest)) :
    digest = toLowerText contentSha256 := by
  rw [payloadModeFor] at h
  split_ifs at h <;> cases h
  rfl

/-- Verifying a claim leaves what it says about the payload. -/
theorem payload_of_verifyClaim {claimed : Claimed}
    (h : verifyClaim crypto request resolve options claimed = .ok auth) :
    auth.payload = claimed.outcome.payload ∧
      auth.payloadSha256 = claimed.outcome.payloadSha256 := by
  rw [verifyClaim] at h
  obtain ⟨scope, -, h⟩ := Except.bind_eq_ok_iff.mp h
  dsimp only at h
  split at h
  · cases h
  split at h
  · cases h
  split at h
  · cases h
  split at h
  · cases h
  obtain ⟨signature, -, h⟩ := Except.bind_eq_ok_iff.mp h
  split at h
  · obtain rfl := Except.ok.inj h
    exact ⟨rfl, rfl⟩
  split at h
  · cases h
  obtain ⟨alternate, -, h⟩ := Except.bind_eq_ok_iff.mp h
  split at h
  · obtain rfl := Except.ok.inj h
    exact ⟨rfl, rfl⟩
  · cases h

theorem presignedClaim_payload {signature : Bytes} {claimed : Claimed}
    (h : presignedClaim query options signature = .ok claimed) :
    claimed.outcome.payload = .unsigned := by
  rw [presignedClaim] at h
  split at h
  · cases h
  split at h
  · split at h
    · cases h
    · dsimp only at h
      split_ifs at h <;> cases h
      rfl
  · cases h

theorem headerClaim_payload {authorization : Bytes} {claimed : Claimed}
    (h : headerClaim request options authorization = .ok claimed)
    (hsigned : claimed.outcome.payload = .signed) :
    claimed.outcome.payloadSha256 = signedDigest request := by
  rw [headerClaim] at h
  obtain ⟨header, -, h⟩ := Except.bind_eq_ok_iff.mp h
  dsimp only at h
  split at h
  · cases h
  split at h
  · cases h
  split at h
  · cases h
  split at h
  · cases h
  obtain ⟨⟨mode, digest⟩, hmode, h⟩ := Except.bind_eq_ok_iff.mp h
  obtain rfl := Except.ok.inj h
  obtain rfl : mode = .signed := hsigned
  exact payloadSha256_of_payloadModeFor hmode

/-- A request accepted as signed with a digest is checked against the digest it
was signed with. -/
theorem payloadSha256_of_authenticate
    (haccepted : authenticate crypto request query resolve options = .ok auth)
    (hsigned : auth.payload = .signed) : auth.payloadSha256 = signedDigest request := by
  rw [authenticate] at haccepted
  split at haccepted
  · obtain ⟨claimed, hclaimed, haccepted⟩ := Except.bind_eq_ok_iff.mp haccepted
    have hpayload := presignedClaim_payload hclaimed
    rw [← (payload_of_verifyClaim haccepted).1, hsigned] at hpayload
    cases hpayload
  · split at haccepted
    · obtain rfl := Except.ok.inj haccepted
      cases hsigned
    · obtain ⟨claimed, hclaimed, haccepted⟩ := Except.bind_eq_ok_iff.mp haccepted
      obtain ⟨hpayload, hdigest⟩ := payload_of_verifyClaim haccepted
      rw [hdigest]
      exact headerClaim_payload hclaimed (hpayload ▸ hsigned)

/-- The law: whatever comes through was hashed to the signed digest, and it is the
body, or the chunks of a framed one. -/
def DigestEnforced (crypto : Crypto) (body : S3Body) (digest : Bytes) : Prop :=
  ∀ delivered trailers, body.streamTo crypto = ⟨delivered, .ok trailers⟩ →
    crypto.sha256Hex body.raw = digest ∧
      (delivered.flatten = body.raw ∨
        ∃ chunks rest, Framed body.raw chunks rest ∧ delivered.flatten = chunks.flatten)

/-- A body with a signed digest is taken out of a framing when its other headers
ask for it, and is then not hashed: the digest is enforced exactly when they do
not, or the body is not framed that way, or it has the digest anyway. -/
theorem digestEnforced_iff
    (haccepted : authenticate crypto request query resolve options = .ok auth)
    (hsigned : auth.payload = .signed) (raw : Bytes) :
    DigestEnforced crypto (S3Body.ofRequest request raw auth) (signedDigest request) ↔
      ¬ (isAwsChunked (request.header (ascii "content-encoding")) ∧
          0 < headerAsUnsigned (request.header (ascii "x-amz-decoded-content-length")) ∧
          ∃ chunks trailers,
            Decodable (headerAsUnsigned (request.header (ascii "x-amz-decoded-content-length")))
              raw chunks trailers) ∨
        crypto.sha256Hex raw = signedDigest request := by
  have hdigest := payloadSha256_of_authenticate haccepted hsigned
  have hplain : (S3Body.ofRequest request raw auth).chunkedOptions.verifySignatures = false := by
    simp [S3Body.ofRequest, S3Body.make, S3Body.chunkedOptions, hsigned]
  have hchunked : (S3Body.ofRequest request raw auth).chunked = true ↔
      isAwsChunked (request.header (ascii "content-encoding")) = true ∧
        0 < headerAsUnsigned (request.header (ascii "x-amz-decoded-content-length")) := by
    simp [S3Body.ofRequest, S3Body.make, hsigned]
  by_cases hframing : (S3Body.ofRequest request raw auth).chunked = true
  · have hstream : (S3Body.ofRequest request raw auth).streamTo crypto =
        decode crypto (S3Body.ofRequest request raw auth).chunkedOptions raw := by
      rw [S3Body.streamTo, if_pos hframing]
      rfl
    rw [DigestEnforced, hstream]
    simp only [decode_eq_ok_iff hplain]
    constructor
    · intro henforced
      by_cases hframed : ∃ chunks trailers,
          Decodable (headerAsUnsigned (request.header (ascii "x-amz-decoded-content-length")))
            raw chunks trailers
      · obtain ⟨chunks, trailers, hdecodable⟩ := hframed
        exact Or.inr (henforced chunks trailers hdecodable).1
      · exact Or.inl fun h => hframed h.2.2
    · intro h delivered trailers hdecodable
      have hsame : crypto.sha256Hex raw = signedDigest request := by
        rcases h with hnone | hsame
        · obtain ⟨hencoding, hlength⟩ := hchunked.mp hframing
          exact absurd ⟨hencoding, hlength, delivered, trailers, hdecodable⟩ hnone
        · exact hsame
      obtain ⟨rest, hframed, -⟩ := hdecodable.framed
      exact ⟨hsame, Or.inr ⟨delivered, rest, hframed, rfl⟩⟩
  · refine iff_of_true (fun delivered trailers hstream => ?_) (Or.inl fun h => ?_)
    · rw [S3Body.streamTo, if_neg hframing] at hstream
      by_cases hequal : secureEquals (crypto.sha256Hex raw) auth.payloadSha256
      · rw [if_neg fun h => h.2 hequal] at hstream
        obtain ⟨rfl, -⟩ := Delivery.mk.inj hstream
        exact ⟨hdigest ▸ (secureEquals_iff _ _).mp hequal, Or.inl (List.flatten_singleton ..)⟩
      · rw [if_pos ⟨hsigned, hequal⟩] at hstream
        cases congrArg Delivery.outcome hstream
    · exact hframing (hchunked.mpr ⟨h.1, h.2.1⟩)

end Accepted

/-! ### A request whose framing is not signed -/

/-- Raw bytes written in hex. -/
def unhex : Bytes → Bytes
  | high :: low :: rest =>
    (((hexValue high).getD 0 <<< 4) ||| (hexValue low).getD 0) :: unhex rest
  | _ => []

/-- `good`, of which the request signs the digest. -/
def goodSha256 : Bytes :=
  ascii "770e607624d689265ca6c44884d0807d9b054d23c473c106c72be9de08b7376c"

/-- A framed body of one chunk that says something else. -/
def forgedBody : Bytes :=
  ascii "4" ++ crlf ++ ascii "evil" ++ crlf ++ ascii "0" ++ crlf ++ crlf

/-- The headers that ask for framing are not among the signed ones, so anything on
the path can add them. -/
def framedRequest : SigningRequest :=
  { method := ascii "PUT"
    uri := ascii "/photos/cat"
    headers :=
      [ (ascii "host", ascii "localhost"),
        (ascii "x-amz-date", ascii "20260816T120000Z"),
        (ascii "x-amz-content-sha256", goodSha256),
        (ascii "authorization", ascii "AWS4-HMAC-SHA256 Credential=AK/20260816/us-east-1/s3/aws4_request, SignedHeaders=host;x-amz-content-sha256;x-amz-date, Signature=b972380113fa3ae10225523728761c31fcf69e851f091148398ec096a1f118bf"),
        (ascii "content-encoding", ascii "aws-chunked"),
        (ascii "x-amz-decoded-content-length", ascii "4") ] }

/-- The digests of the request and of the forged body, as SHA-256 and HMAC-SHA256
give them. -/
def tableCrypto : Crypto where
  sha256Hex data :=
    if data = forgedBody then
      ascii "edf7c46b0a22403f79709e33e425d41ed03bcdc498ed179db8974071a7e0e18f"
    else ascii "0f5f6c793f567cea5e5b65b87a1452f9da236ce703e9a9aa7660b225cc4a0c0d"
  hmacSha256 _ data :=
    unhex (ascii
      (if data = ascii "20260816" then
        "ab25b7e74bf67115bea19716fa282c4153f225a17322f3671ab341745030016a"
      else if data = ascii "us-east-1" then
        "e489a6195e2eeec5aa3d76d4eaa2aedb6b467801209f6cc0b131a6e899246463"
      else if data = kService then
        "5e4a36f6a41bdbf13fda19e4719a56a5350cbe2cc6f79f7ace71a867159ceefd"
      else if data = kTerminator then
        "3d7e4260175cde958c6d63595b17aa0e5606b9ee1d5a0c38515606ed1a9af0b1"
      else "b972380113fa3ae10225523728761c31fcf69e851f091148398ec096a1f118bf"))

def rootKey (accessKeyId : Bytes) : Option Bytes :=
  if accessKeyId = ascii "AK" then some (ascii "secret") else none

def atNoon : AuthOptions := { nowSeconds := 1786881600 }

/-- What the request is accepted as. -/
def framedOutcome : AuthOutcome :=
  { accessKey := ascii "AK"
    method := ascii "PUT"
    payload := .signed
    payloadSha256 := goodSha256
    scope := ascii "20260816/us-east-1/s3/aws4_request"
    amzDate := ascii "20260816T120000Z"
    signature := ascii "b972380113fa3ae10225523728761c31fcf69e851f091148398ec096a1f118bf"
    signingKey := unhex (ascii "3d7e4260175cde958c6d63595b17aa0e5606b9ee1d5a0c38515606ed1a9af0b1") }

theorem authenticate_framedRequest :
    authenticate tableCrypto framedRequest [] rootKey atNoon = .ok framedOutcome := by
  decide +kernel

theorem digestEnforced_iff_framedRequest :
    DigestEnforced tableCrypto (S3Body.ofRequest framedRequest forgedBody framedOutcome)
        (signedDigest framedRequest) ↔
      ¬ (isAwsChunked (framedRequest.header (ascii "content-encoding")) ∧
          0 < headerAsUnsigned (framedRequest.header (ascii "x-amz-decoded-content-length")) ∧
          ∃ chunks trailers,
            Decodable
              (headerAsUnsigned (framedRequest.header (ascii "x-amz-decoded-content-length")))
              forgedBody chunks trailers) ∨
        tableCrypto.sha256Hex forgedBody = signedDigest framedRequest :=
  digestEnforced_iff authenticate_framedRequest rfl forgedBody

/-- The forged body is accepted under a signature of another body's digest, and
`evil` is stored. -/
theorem forged_body_accepted :
    authenticate tableCrypto framedRequest [] rootKey atNoon = .ok framedOutcome ∧
      framedOutcome.payload = .signed ∧
      ¬ DigestEnforced tableCrypto (S3Body.ofRequest framedRequest forgedBody framedOutcome)
        (signedDigest framedRequest) := by
  refine ⟨authenticate_framedRequest, rfl, fun henforced => ?_⟩
  have hstream : (S3Body.ofRequest framedRequest forgedBody framedOutcome).streamTo tableCrypto =
      ⟨[ascii "evil"], .ok .empty⟩ := by
    rfl
  have hdigest := (henforced _ _ hstream).1
  revert hdigest
  decide +kernel

end MonoBucket.S3
