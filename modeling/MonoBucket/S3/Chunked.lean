/-
The aws-chunked content encoding

A framed body is chunks, each a header line with its size in hex, then the
payload and a line end; a chunk of size zero ends them and a block of trailing
headers may follow. `decode` hands every payload to its sink as it goes, so what
it returns is what the sink was given and how decoding ended.

`Framed` says what such a body is. Without chunk signatures to verify, decoding
succeeds exactly on framed bodies within the limits, and hands over their chunks.
-/

import MonoBucket.Lib.RollUp
import MonoBucket.Lib.OrderedMap
import MonoBucket.S3.SigV4

namespace MonoBucket.S3

/-! ### Lines and sizes -/

/-- 5 GiB, the largest object. -/
def kMaxChunkBytes : Nat := 5 * 1024 * 1024 * 1024

def kMaxChunks : Nat := 4000000

def kMaxChunkHeaderBytes : Nat := 1024

def kMaxTrailers : Nat := 32

def crlf : Bytes := [0x0D, 0x0A]

def malformed {α : Type} (what : Bytes) : Except S3Exception α :=
  .error ⟨.incompleteBody, ascii "Malformed aws-chunked body: " ++ what⟩

/-- The text up to the next CRLF, and what follows it. -/
def takeLine (limit : Nat) (input : Bytes) : Except S3Exception (Bytes × Bytes) :=
  match RollUp.indexOfPattern crlf input with
  | none => malformed (ascii "a line is not terminated by CRLF")
  | some index =>
    if limit < index then malformed (ascii "a header line is unreasonably long")
    else .ok (input.take index, input.drop (index + 2))

/-- The value of hex digits, nothing when one of them is none. -/
def hexNumber (digits : Bytes) : Option Nat :=
  digits.foldl
    (fun value byte => do
      let value ← value
      let digit ← hexValue byte
      pure (value * 16 + digit.toNat))
    (some 0)

def parseHexSize (text : Bytes) : Except S3Exception Nat :=
  if text = [] ∨ 16 < text.length then
    malformed (ascii "chunk size is not a valid hex number")
  else
    match hexNumber text with
    | none => malformed (ascii "chunk size is not a valid hex number")
    | some value =>
      if kMaxChunkBytes < value then
        malformed (ascii "chunk size exceeds the maximum object size")
      else .ok value

def trim (text : Bytes) : Bytes :=
  (text.dropWhile fun byte => byte = 0x20 ∨ byte = 0x09).rdropWhile fun byte =>
    byte = 0x20 ∨ byte = 0x09

def signaturePrefix : Bytes := ascii "chunk-signature="

/-- The size a chunk's header line names, and its signature when it carries one. -/
def chunkHeader (header : Bytes) : Except S3Exception (Nat × Bytes) :=
  match splitAtFirst (letter ';') header with
  | none => do
    let size ← parseHexSize header
    pure (size, [])
  | some (sizeField, extension) =>
    if ¬ signaturePrefix <+: extension then malformed (ascii "unrecognised chunk extension")
    else do
      let size ← parseHexSize sizeField
      pure (size, extension.drop signaturePrefix.length)

/-! ### The decoder -/

/-- `ChunkedDecoder::Options`. -/
structure ChunkedOptions where
  verifySignatures : Bool := false
  signingKey : Bytes := []
  amzDate : Bytes := []
  scope : Bytes := []
  seedSignature : Bytes := []
  expectTrailerSignature : Bool := false
  declaredLength : UInt64 := 0
  deriving DecidableEq

/-- What a sink was handed, in order, and what came of it. -/
structure Delivery (α : Type) where
  delivered : List Bytes
  outcome : Except S3Exception α

/-- Trailing headers; the first of a name counts. -/
abbrev Trailers := OrderedMap Bytes Bytes

/-- What is left behind the last chunk, and the last signature of the chain. -/
structure ChunksRead where
  rest : Bytes
  signature : Bytes

structure TrailerBlock where
  trailers : Trailers := .empty
  canonicalTrailers : Bytes := []
  declaredSignature : Bytes := []

section Decoder

variable (crypto : Crypto) (options : ChunkedOptions)

/-- The signature the chain goes on with, if this chunk's is right. -/
def checkChunkSignature (count : Nat) (previous signatureField payload : Bytes) :
    Except S3Exception Bytes :=
  if options.verifySignatures then
    let expected := chunkSignature crypto options.signingKey options.amzDate options.scope previous
      (crypto.sha256Hex payload)
    if secureEquals expected (toLowerText signatureField) then .ok expected
    else
      .error ⟨.signatureDoesNotMatch,
        ascii "The signature of chunk " ++ decimal count ++ ascii " does not match."⟩
  else .ok previous

/-- One chunk: its payload, the signature to go on with, and what follows the
payload. -/
def nextChunk (count : Nat) (previous body : Bytes) :
    Except S3Exception (Bytes × Bytes × Bytes) := do
  let (header, rest) ← takeLine kMaxChunkHeaderBytes body
  let (size, signatureField) ← chunkHeader header
  if options.verifySignatures ∧ signatureField = [] then
    .error ⟨.signatureDoesNotMatch,
      ascii "A chunk in a signed streaming upload carried no signature."⟩
  if rest.length < size then malformed (ascii "a chunk is shorter than its declared size")
  let signature ← checkChunkSignature crypto options count previous signatureField (rest.take size)
  pure (rest.take size, signature, rest.drop size)

/-- The final chunk's line end, if it has one. -/
def afterFinalChunk (rest : Bytes) : Bytes := if rest.take 2 = crlf then rest.drop 2 else rest

/-- The loop over the chunks. `room` is how many more may come. -/
def decodeChunks : Nat → Nat → Bytes → Bytes → Delivery ChunksRead
  | _, _, _, [] => ⟨[], malformed (ascii "the body ended without a zero-length chunk")⟩
  | 0, _, _, _ :: _ => ⟨[], malformed (ascii "too many chunks")⟩
  | room + 1, count, previous, byte :: bytes =>
    match nextChunk crypto options (count + 1) previous (byte :: bytes) with
    | .error error => ⟨[], .error error⟩
    | .ok (payload, signature, rest) =>
      if payload = [] then ⟨[], .ok ⟨afterFinalChunk rest, signature⟩⟩
      else if rest.take 2 ≠ crlf then
        ⟨[], malformed (ascii "a chunk is not terminated by CRLF")⟩
      else
        let others := decodeChunks room (count + 1) signature (rest.drop 2)
        ⟨payload :: others.delivered, others.outcome⟩

/-- The loop over the trailing headers; the length of the text bounds its turns. -/
def readTrailers : Nat → Bytes → TrailerBlock → Except S3Exception TrailerBlock
  | _, [], block => .ok block
  | 0, _ :: _, block => .ok block
  | fuel + 1, byte :: bytes, block => do
    let (line, rest) ← takeLine kMaxChunkHeaderBytes (byte :: bytes)
    if line = [] then pure block
    else if kMaxTrailers ≤ block.trailers.entries.length then
      malformed (ascii "too many trailing headers")
    else
      match splitAtFirst (letter ':') line with
      | none => malformed (ascii "a trailing header has no colon")
      | some (nameField, valueField) =>
        let name := toLowerText (trim nameField)
        let value := trim valueField
        if name = ascii "x-amz-trailer-signature" then
          readTrailers fuel rest { block with declaredSignature := toLowerText value }
        else
          readTrailers fuel rest
            { block with
              canonicalTrailers :=
                block.canonicalTrailers ++ name ++ [letter ':'] ++ value ++ [newline]
              trailers := block.trailers.emplace name value }

def checkTrailerSignature (previous : Bytes) (block : TrailerBlock) : Except S3Exception Unit :=
  if options.verifySignatures ∧ options.expectTrailerSignature then
    if block.declaredSignature = [] then
      .error ⟨.signatureDoesNotMatch, ascii
        "A signed streaming upload declared trailing headers but sent no x-amz-trailer-signature."⟩
    else
      let expected := trailerSignature crypto options.signingKey options.amzDate options.scope
        previous (crypto.sha256Hex block.canonicalTrailers)
      if secureEquals expected block.declaredSignature then .ok ()
      else
        .error ⟨.signatureDoesNotMatch,
          ascii "The signature of the trailing header block does not match."⟩
  else .ok ()

/-- How many bytes a sink was handed. -/
def deliveredLength (delivered : List Bytes) : Nat := (delivered.map List.length).sum

/-- What `decode` does with what the loop over the chunks came to. -/
def finishDecode (delivered : List Bytes) (read : ChunksRead) : Except S3Exception Trailers := do
  let block ← readTrailers read.rest.length read.rest {}
  checkTrailerSignature crypto options read.signature block
  if options.declaredLength ≠ 0 ∧ deliveredLength delivered ≠ options.declaredLength.toNat then
    .error ⟨.incompleteBody,
      ascii "The body decoded to " ++ decimal (deliveredLength delivered) ++
        ascii " bytes, but x-amz-decoded-content-length declared " ++
        decimal options.declaredLength.toNat ++ ascii "."⟩
  pure block.trailers

/-- `ChunkedDecoder::decode`. -/
def decode (body : Bytes) : Delivery Trailers :=
  let chunks := decodeChunks crypto options kMaxChunks 0 options.seedSignature body
  ⟨chunks.delivered, chunks.outcome.bind (finishDecode crypto options chunks.delivered)⟩

end Decoder

/-- `aws-chunked` among the encodings a Content-Encoding lists. -/
def isAwsChunked (contentEncoding : Bytes) : Bool :=
  (contentEncoding.splitOn (letter ',')).any fun token => trim token = ascii "aws-chunked"

/-! ### Framed bodies -/

/-- A text that starts with a line of at most `limit` bytes. -/
structure Line (limit : Nat) (text line rest : Bytes) : Prop where
  text_eq : text = line ++ crlf ++ rest
  length_le : line.length ≤ limit
  first : ∀ before < line.length, ¬ crlf <+: text.drop before

theorem takeLine_eq_ok_iff {limit : Nat} {text line rest : Bytes} :
    takeLine limit text = .ok (line, rest) ↔ Line limit text line rest := by
  have hpattern := @RollUp.indexOfPattern_eq_some_iff _ _ crlf text
  constructor
  · intro h
    rw [takeLine] at h
    split at h
    · cases h
    · rename_i index hindex
      obtain ⟨hfound, hfirst⟩ := hpattern.mp hindex
      by_cases hlong : limit < index
      · rw [if_pos hlong] at h
        cases h
      rw [if_neg hlong] at h
      obtain ⟨rfl, rfl⟩ := Prod.mk.inj (Except.ok.inj h)
      obtain ⟨tail, htail⟩ := hfound
      have hwithin : index + 2 ≤ text.length := by
        have hlength := congrArg List.length htail
        rw [List.length_append, List.length_drop] at hlength
        have htwo : crlf.length = 2 := rfl
        omega
      have hline : (text.take index).length = index := List.length_take_of_le (by omega)
      refine ⟨?_, by omega, fun before hbefore => hfirst before (by omega)⟩
      have hrest : text.drop (index + 2) = tail := by
        rw [← List.drop_drop, ← htail]
        exact List.drop_left' rfl
      rw [hrest, List.append_assoc, htail, List.take_append_drop]
  · rintro ⟨rfl, hlength, hfirst⟩
    have hindex : RollUp.indexOfPattern crlf (line ++ crlf ++ rest) = some line.length := by
      apply hpattern.mpr
      refine ⟨?_, hfirst⟩
      rw [List.append_assoc, List.drop_left]
      exact List.prefix_append _ _
    have htwo : line.length + 2 = (line ++ crlf).length := by
      rw [List.length_append]
      rfl
    rw [takeLine, hindex]
    dsimp only
    rw [if_neg (not_lt.mpr hlength), htwo, List.drop_left, List.append_assoc, List.take_left]

/-- A body of chunks, and what follows the last one. A header may carry a
signature; nothing here says it is right. -/
inductive Framed : Bytes → List Bytes → Bytes → Prop
  | last {body header rest signature : Bytes}
      (line : Line kMaxChunkHeaderBytes body header rest)
      (size : chunkHeader header = .ok (0, signature)) :
      Framed body [] (afterFinalChunk rest)
  | chunk {body header payload rest signature trailer : Bytes} {chunks : List Bytes}
      (line : Line kMaxChunkHeaderBytes body header (payload ++ crlf ++ rest))
      (size : chunkHeader header = .ok (payload.length, signature))
      (payload_ne_nil : payload ≠ [])
      (others : Framed rest chunks trailer) :
      Framed body (payload :: chunks) trailer

theorem Line.text_ne_nil {limit : Nat} {text line rest : Bytes} (h : Line limit text line rest) :
    text ≠ [] := by
  rw [h.text_eq]
  simp [crlf]

theorem Framed.body_ne_nil {body rest : Bytes} {chunks : List Bytes}
    (h : Framed body chunks rest) : body ≠ [] := by
  cases h with
  | last line _ => exact line.text_ne_nil
  | chunk line _ _ _ => exact line.text_ne_nil

section Unsigned

variable {crypto : Crypto} {options : ChunkedOptions}

/-- Without signatures, a chunk is a header line and as many bytes as it names. -/
theorem nextChunk_eq_ok_iff (hplain : options.verifySignatures = false) {count : Nat}
    {previous body payload signature rest : Bytes} :
    nextChunk crypto options count previous body = .ok (payload, signature, rest) ↔
      (∃ header field, Line kMaxChunkHeaderBytes body header (payload ++ rest) ∧
        chunkHeader header = .ok (payload.length, field)) ∧ signature = previous := by
  rw [nextChunk]
  constructor
  · intro h
    obtain ⟨⟨header, after⟩, hline, h⟩ := Except.bind_eq_ok_iff.mp h
    obtain ⟨⟨size, field⟩, hsize, h⟩ := Except.bind_eq_ok_iff.mp h
    dsimp only at h hsize
    rw [if_neg (by simp [hplain])] at h
    by_cases hshort : after.length < size
    · rw [if_pos hshort] at h
      cases h
    rw [if_neg hshort] at h
    obtain ⟨kept, hkept, h⟩ := Except.bind_eq_ok_iff.mp h
    rw [checkChunkSignature, if_neg (by simp [hplain])] at hkept
    obtain ⟨rfl, rfl, rfl⟩ := by simpa using Except.pure_eq_ok_iff.mp h
    refine ⟨⟨header, field, ?_, ?_⟩, (Except.ok.inj hkept).symm⟩
    · rw [List.take_append_drop]
      exact takeLine_eq_ok_iff.mp hline
    · rw [List.length_take_of_le (not_lt.mp hshort)]
      exact hsize
  · rintro ⟨⟨header, field, hline, hsize⟩, rfl⟩
    apply Except.bind_eq_ok_iff.mpr
    refine ⟨(header, payload ++ rest), takeLine_eq_ok_iff.mpr hline, ?_⟩
    apply Except.bind_eq_ok_iff.mpr
    refine ⟨(payload.length, field), hsize, ?_⟩
    dsimp only
    rw [if_neg (by simp [hplain]), if_neg (by simp), List.take_left, List.drop_left,
      checkChunkSignature, if_neg (by simp [hplain])]
    rfl

theorem decodeChunks_eq_ok_iff (hplain : options.verifySignatures = false) (room : Nat)
    {count : Nat} {previous body : Bytes} {delivered : List Bytes} {read : ChunksRead} :
    decodeChunks crypto options room count previous body = ⟨delivered, .ok read⟩ ↔
      Framed body delivered read.rest ∧ delivered.length < room ∧ read.signature = previous := by
  induction room generalizing count previous body delivered with
  | zero =>
      refine iff_of_false (fun h => ?_) fun h => absurd h.2.1 (Nat.not_lt_zero _)
      cases body <;> cases congrArg Delivery.outcome h
  | succ room ih =>
      cases body with
      | nil =>
          refine iff_of_false (fun h => ?_) fun h => ?_
          · cases congrArg Delivery.outcome h
          · exact h.1.body_ne_nil rfl
      | cons byte bytes =>
          rw [decodeChunks]
          constructor
          · intro h
            cases hnext : nextChunk crypto options (count + 1) previous (byte :: bytes) with
            | error error =>
                rw [hnext] at h
                cases congrArg Delivery.outcome h
            | ok next =>
                obtain ⟨payload, signature, rest⟩ := next
                obtain ⟨⟨header, field, hline, hsize⟩, rfl⟩ :=
                  (nextChunk_eq_ok_iff hplain).mp hnext
                rw [hnext] at h
                dsimp only at h
                by_cases hlast : payload = []
                · rw [if_pos hlast] at h
                  subst hlast
                  obtain ⟨rfl, hread⟩ := Delivery.mk.inj h
                  obtain rfl := Except.ok.inj hread
                  exact ⟨Framed.last hline hsize, Nat.succ_pos _, rfl⟩
                · rw [if_neg hlast] at h
                  by_cases hend : rest.take 2 = crlf
                  · rw [if_neg (not_not.mpr hend)] at h
                    obtain ⟨rfl, hread⟩ := Delivery.mk.inj h
                    obtain ⟨hframed, hroom, hsignature⟩ :=
                      ih.mp (congrArg (Delivery.mk _) hread)
                    refine ⟨Framed.chunk ?_ hsize hlast hframed, Nat.succ_lt_succ hroom, hsignature⟩
                    rw [List.append_assoc, ← hend, List.take_append_drop]
                    exact hline
                  · rw [if_pos hend] at h
                    cases congrArg Delivery.outcome h
          · rintro ⟨hframed, hroom, hsignature⟩
            generalize htrailer : read.rest = trailer at hframed
            cases hframed with
            | @last _ header rest field hline hsize =>
                have hnext : nextChunk crypto options (count + 1) previous (byte :: bytes) =
                    .ok ([], previous, rest) :=
                  (nextChunk_eq_ok_iff hplain).mpr ⟨⟨header, field, hline, hsize⟩, rfl⟩
                rw [hnext]
                dsimp only
                rw [if_pos rfl, ← htrailer, ← hsignature]
            | @chunk _ header payload rest field _ chunks hline hsize hpayload hothers =>
                have hnext : nextChunk crypto options (count + 1) previous (byte :: bytes) =
                    .ok (payload, previous, crlf ++ rest) :=
                  (nextChunk_eq_ok_iff hplain).mpr
                    ⟨⟨header, field, by rwa [← List.append_assoc], hsize⟩, rfl⟩
                have htake : (crlf ++ rest).take 2 = crlf := rfl
                have hdrop : (crlf ++ rest).drop 2 = rest := rfl
                have hrest : decodeChunks crypto options room (count + 1) previous rest =
                    ⟨chunks, .ok read⟩ :=
                  ih.mpr ⟨htrailer ▸ hothers, Nat.lt_of_succ_lt_succ hroom, hsignature⟩
                rw [hnext]
                dsimp only
                rw [if_neg hpayload, if_neg (not_not.mpr htake), hdrop, hrest]

/-- A body an unsigned framing decodes: framed, within the limits, with a readable
trailer and as long as declared. -/
structure Decodable (declaredLength : UInt64) (body : Bytes) (chunks : List Bytes)
    (trailers : Trailers) : Prop where
  framed : ∃ rest, Framed body chunks rest ∧
    ∃ block, readTrailers rest.length rest {} = .ok block ∧ trailers = block.trailers
  few : chunks.length < kMaxChunks
  declared : declaredLength ≠ 0 → deliveredLength chunks = declaredLength.toNat

/-- Without signatures to verify, decoding succeeds exactly on such bodies, and
what it hands over are their chunks. -/
theorem decode_eq_ok_iff (hplain : options.verifySignatures = false) {body : Bytes}
    {delivered : List Bytes} {trailers : Trailers} :
    decode crypto options body = ⟨delivered, .ok trailers⟩ ↔
      Decodable options.declaredLength body delivered trailers := by
  rw [decode]
  constructor
  · intro h
    obtain ⟨hdelivered, houtcome⟩ := Delivery.mk.inj h
    obtain ⟨read, hread, hfinish⟩ := Except.bind_eq_ok_iff.mp houtcome
    have hchunks : decodeChunks crypto options kMaxChunks 0 options.seedSignature body =
        ⟨delivered, .ok read⟩ := by
      rw [← hdelivered, ← hread]
    obtain ⟨hframed, hfew, -⟩ := (decodeChunks_eq_ok_iff hplain kMaxChunks).mp hchunks
    rw [hdelivered, finishDecode] at hfinish
    obtain ⟨block, hblock, hfinish⟩ := Except.bind_eq_ok_iff.mp hfinish
    obtain ⟨_, -, hfinish⟩ := Except.bind_eq_ok_iff.mp hfinish
    by_cases hlength : options.declaredLength ≠ 0 ∧
        deliveredLength delivered ≠ options.declaredLength.toNat
    · rw [if_pos hlength] at hfinish
      cases hfinish
    · rw [if_neg hlength] at hfinish
      exact ⟨⟨read.rest, hframed, block, hblock, Except.pure_eq_ok_iff.mp hfinish ▸ rfl⟩, hfew,
        fun hdeclared => by_contra fun hne => hlength ⟨hdeclared, hne⟩⟩
  · rintro ⟨⟨rest, hframed, block, hblock, rfl⟩, hfew, hdeclared⟩
    have hchunks : decodeChunks crypto options kMaxChunks 0 options.seedSignature body =
        ⟨delivered, .ok ⟨rest, options.seedSignature⟩⟩ :=
      (decodeChunks_eq_ok_iff hplain kMaxChunks).mpr ⟨hframed, hfew, rfl⟩
    have hlength : ¬ (options.declaredLength ≠ 0 ∧
        deliveredLength delivered ≠ options.declaredLength.toNat) :=
      fun h => h.2 (hdeclared h.1)
    rw [hchunks]
    dsimp only
    have hfinish : finishDecode crypto options delivered ⟨rest, options.seedSignature⟩ =
        .ok block.trailers := by
      rw [finishDecode]
      apply Except.bind_eq_ok_iff.mpr
      refine ⟨block, hblock, ?_⟩
      rw [checkTrailerSignature, if_neg (by simp [hplain])]
      apply Except.bind_eq_ok_iff.mpr
      refine ⟨(), rfl, ?_⟩
      rw [if_neg hlength]
      rfl
    exact congrArg (Delivery.mk delivered) hfinish

end Unsigned

end MonoBucket.S3
