/-
Framed bodies, written and read

A body is framed by writing each chunk under its size, then the empty chunk, then
the trailing headers and a blank line; the signed framings write signatures along.
What is framed so decodes to the same chunks and headers, unless a trailing header
is longer than a line may be, or the signature comes after as many as are allowed.

A body that decodes is a framed one, but not always to its end: the decoder stops at
the blank line, and takes a declared length of zero for none.
-/

import MonoBucket.S3.Body
import MonoBucket.S3.Presign

namespace MonoBucket.S3

/-! ### What is read of a body -/

/-- Header lines up to the end of the text or to a blank line, and what is left
behind that one. -/
inductive Trailing : Bytes → List Bytes → Bytes → Prop
  | ended : Trailing [] [] []
  | closed {leftover : Bytes} : Trailing (crlf ++ leftover) [] leftover
  | line {text line rest leftover : Bytes} {lines : List Bytes}
    (first : Line kMaxChunkHeaderBytes text line rest) (nonempty : line ≠ [])
    (colon : letter ':' ∈ line) (others : Trailing rest lines leftover) :
    Trailing text (line :: lines) leftover

/-- Chunks, trailing lines, and what is left behind the blank line. -/
def Reads (body : Bytes) (chunks lines : List Bytes) (leftover : Bytes) : Prop :=
  ∃ rest, Framed body chunks rest ∧ Trailing rest lines leftover

/-- Bytes stand behind the blank line. -/
def Overrun (body : Bytes) : Prop :=
  ∃ chunks lines leftover, leftover ≠ [] ∧ Reads body chunks lines leftover

/-- The first chunk is the empty one. -/
def StartsEmpty (body : Bytes) : Prop :=
  ∃ header rest field, Line kMaxChunkHeaderBytes body header rest ∧
    chunkHeader header = .ok (0, field)

/-- A trailing line, as the loop takes it up. -/
def TrailerBlock.add (block : TrailerBlock) (line : Bytes) : TrailerBlock :=
  match splitAtFirst (letter ':') line with
  | none => block
  | some (nameField, valueField) =>
    let name := toLowerText (trim nameField)
    let value := trim valueField
    if name = ascii "x-amz-trailer-signature" then
      { block with declaredSignature := toLowerText value }
    else
      { block with
        canonicalTrailers :=
          block.canonicalTrailers ++ name ++ [letter ':'] ++ value ++ [newline]
        trailers := block.trailers.emplace name value }

/-- A text has one first line. -/
theorem Line.unique {limit : Nat} {text line rest other tail : Bytes}
    (h : Line limit text line rest) (hother : Line limit text other tail) :
    line = other ∧ rest = tail :=
  Prod.mk.inj (Except.ok.inj
    ((takeLine_eq_ok_iff.mpr h).symm.trans (takeLine_eq_ok_iff.mpr hother)))

theorem line_crlf {limit : Nat} (rest : Bytes) : Line limit (crlf ++ rest) [] rest :=
  ⟨rfl, Nat.zero_le _, fun _ h => absurd h (Nat.not_lt_zero _)⟩

/-- A body is framed in one way. -/
theorem Framed.unique {body rest tail : Bytes} {chunks others : List Bytes}
    (h : Framed body chunks rest) (hother : Framed body others tail) :
    chunks = others ∧ rest = tail := by
  induction h generalizing others tail with
  | last line size =>
      cases hother with
      | last line' size' =>
          obtain ⟨rfl, rfl⟩ := line.unique line'
          exact ⟨rfl, rfl⟩
      | chunk line' size' nonempty' others' =>
          obtain ⟨rfl, -⟩ := line.unique line'
          have hlength := (Prod.mk.inj (Except.ok.inj (size.symm.trans size'))).1
          exact absurd (List.length_eq_zero_iff.mp hlength.symm) nonempty'
  | chunk line size nonempty others ih =>
      cases hother with
      | last line' size' =>
          obtain ⟨rfl, -⟩ := line.unique line'
          have hlength := (Prod.mk.inj (Except.ok.inj (size.symm.trans size'))).1
          exact absurd (List.length_eq_zero_iff.mp hlength) nonempty
      | chunk line' size' nonempty' others' =>
          obtain ⟨rfl, hrest⟩ := line.unique line'
          have hlength := (Prod.mk.inj (Except.ok.inj (size.symm.trans size'))).1
          rw [List.append_assoc, List.append_assoc] at hrest
          obtain ⟨rfl, htail⟩ := List.append_inj hrest hlength
          obtain rfl := List.append_cancel_left htail
          obtain ⟨rfl, rfl⟩ := ih others'
          exact ⟨rfl, rfl⟩

theorem Trailing.unique {text leftover tail : Bytes} {lines others : List Bytes}
    (h : Trailing text lines leftover) (hother : Trailing text others tail) :
    lines = others ∧ leftover = tail := by
  induction h generalizing others tail with
  | ended =>
      generalize htext : ([] : Bytes) = text at hother
      cases hother with
      | ended => exact ⟨rfl, rfl⟩
      | closed => cases htext
      | line first nonempty colon others => exact absurd htext.symm first.text_ne_nil
  | @closed leftover =>
      generalize htext : crlf ++ leftover = text at hother
      cases hother with
      | ended => cases htext
      | closed => exact ⟨rfl, List.append_cancel_left htext⟩
      | line first nonempty colon others =>
          rw [← htext] at first
          exact absurd (first.unique (line_crlf leftover)).1 nonempty
  | line first nonempty colon others ih =>
      cases hother with
      | ended => exact absurd rfl first.text_ne_nil
      | closed => exact absurd (first.unique (line_crlf _)).1 nonempty
      | line first' nonempty' colon' others' =>
          obtain ⟨rfl, rfl⟩ := first.unique first'
          obtain ⟨rfl, rfl⟩ := ih others'
          exact ⟨rfl, rfl⟩

theorem Reads.unique {body leftover tail : Bytes} {chunks lines others more : List Bytes}
    (h : Reads body chunks lines leftover) (hother : Reads body others more tail) :
    chunks = others ∧ lines = more ∧ leftover = tail := by
  obtain ⟨rest, hframed, htrailing⟩ := h
  obtain ⟨rest', hframed', htrailing'⟩ := hother
  obtain ⟨rfl, rfl⟩ := hframed.unique hframed'
  obtain ⟨rfl, rfl⟩ := htrailing.unique htrailing'
  exact ⟨rfl, rfl, rfl⟩

/-- Only the empty chunk first leaves nothing to deliver. -/
theorem Framed.startsEmpty_iff {body rest : Bytes} {chunks : List Bytes}
    (h : Framed body chunks rest) : StartsEmpty body ↔ chunks = [] := by
  cases h with
  | last line size => exact iff_of_true ⟨_, _, _, line, size⟩ rfl
  | chunk line size nonempty others =>
      refine iff_of_false ?_ (List.cons_ne_nil _ _)
      rintro ⟨header, tail, field, line', size'⟩
      obtain ⟨rfl, -⟩ := line.unique line'
      have hlength := (Prod.mk.inj (Except.ok.inj (size.symm.trans size'))).1
      exact nonempty (List.length_eq_zero_iff.mp hlength)

section Read

variable {crypto : Crypto} {options : ChunkedOptions}

/-- Whatever signatures are verified, a chunk is a header line and as many bytes as
it names. -/
theorem line_of_nextChunk {count : Nat} {previous body payload signature rest : Bytes}
    (h : nextChunk crypto options count previous body = .ok (payload, signature, rest)) :
    ∃ header field, Line kMaxChunkHeaderBytes body header (payload ++ rest) ∧
      chunkHeader header = .ok (payload.length, field) := by
  obtain ⟨⟨header, after⟩, hline, h⟩ := Except.bind_eq_ok_iff.mp h
  obtain ⟨⟨size, field⟩, hsize, h⟩ := Except.bind_eq_ok_iff.mp h
  dsimp only at h hsize
  by_cases hunsigned : options.verifySignatures ∧ field = []
  · rw [if_pos hunsigned] at h
    cases h
  rw [if_neg hunsigned] at h
  by_cases hshort : after.length < size
  · rw [if_pos hshort] at h
    cases h
  rw [if_neg hshort] at h
  obtain ⟨kept, -, h⟩ := Except.bind_eq_ok_iff.mp h
  obtain ⟨rfl, rfl, rfl⟩ := by simpa using Except.pure_eq_ok_iff.mp h
  refine ⟨header, field, ?_, ?_⟩
  · rw [List.take_append_drop]
    exact takeLine_eq_ok_iff.mp hline
  · rw [List.length_take_of_le (not_lt.mp hshort)]
    exact hsize

theorem framed_of_decodeChunks (room : Nat) {count : Nat} {previous body : Bytes}
    {delivered : List Bytes} {read : ChunksRead}
    (h : decodeChunks crypto options room count previous body = ⟨delivered, .ok read⟩) :
    Framed body delivered read.rest := by
  induction room generalizing count previous body delivered with
  | zero => cases body <;> cases congrArg Delivery.outcome h
  | succ room ih =>
      cases body with
      | nil => cases congrArg Delivery.outcome h
      | cons byte bytes =>
          rw [decodeChunks] at h
          cases hnext : nextChunk crypto options (count + 1) previous (byte :: bytes) with
          | error error =>
              rw [hnext] at h
              cases congrArg Delivery.outcome h
          | ok next =>
              obtain ⟨payload, signature, rest⟩ := next
              obtain ⟨header, field, hline, hsize⟩ := line_of_nextChunk hnext
              rw [hnext] at h
              dsimp only at h
              by_cases hlast : payload = []
              · rw [if_pos hlast] at h
                subst hlast
                obtain ⟨rfl, hread⟩ := Delivery.mk.inj h
                obtain rfl := Except.ok.inj hread
                exact Framed.last hline hsize
              · rw [if_neg hlast] at h
                by_cases hend : rest.take 2 = crlf
                · rw [if_neg (not_not.mpr hend)] at h
                  obtain ⟨rfl, hread⟩ := Delivery.mk.inj h
                  refine Framed.chunk ?_ hsize hlast (ih (congrArg (Delivery.mk _) hread))
                  rw [List.append_assoc, ← hend, List.take_append_drop]
                  exact hline
                · rw [if_pos hend] at h
                  cases congrArg Delivery.outcome h

/-- The loop takes the lines up to a blank one or to the end, one after the other. -/
theorem trailing_of_readTrailers (fuel : Nat) {text : Bytes} {block read : TrailerBlock}
    (hfuel : text.length ≤ fuel) (h : readTrailers fuel text block = .ok read) :
    ∃ lines leftover, Trailing text lines leftover ∧ read = lines.foldl TrailerBlock.add block := by
  induction fuel generalizing text block with
  | zero =>
      obtain rfl := List.length_eq_zero_iff.mp (Nat.le_zero.mp hfuel)
      exact ⟨[], [], .ended, (Except.ok.inj h).symm⟩
  | succ fuel ih =>
      cases text with
      | nil => exact ⟨[], [], .ended, (Except.ok.inj h).symm⟩
      | cons byte bytes =>
          obtain ⟨⟨line, rest⟩, hline, h⟩ := Except.bind_eq_ok_iff.mp h
          have hfirst := takeLine_eq_ok_iff.mp hline
          dsimp only at h
          by_cases hempty : line = []
          · subst hempty
            rw [hfirst.text_eq]
            rw [if_pos rfl] at h
            exact ⟨[], rest, .closed, (Except.ok.inj h).symm⟩
          rw [if_neg hempty] at h
          split at h
          · cases h
          have hrest : rest.length ≤ fuel := by
            have hlength := congrArg List.length hfirst.text_eq
            have htwo : crlf.length = 2 := rfl
            simp only [List.length_append, List.length_cons] at hlength hfuel
            omega
          split at h
          · cases h
          · rename_i nameField valueField hsplit
            have hcolon : letter ':' ∈ line := by
              by_contra hnone
              rw [splitAtFirst_of_not_mem hnone] at hsplit
              cases hsplit
            have hadd : readTrailers fuel rest (block.add line) = .ok read := by
              rw [TrailerBlock.add, hsplit]
              dsimp only
              split_ifs at h ⊢
              · exact h
              · exact h
            obtain ⟨lines, leftover, hothers, hread⟩ := ih hrest hadd
            exact ⟨line :: lines, leftover, .line hfirst hempty hcolon hothers, hread⟩

/-- What decodes is framed, up to what is left behind the blank line. -/
theorem reads_of_decode {body : Bytes} {delivered : List Bytes} {trailers : Trailers}
    (h : decode crypto options body = ⟨delivered, .ok trailers⟩) :
    (∃ lines leftover, Reads body delivered lines leftover) ∧
      (options.declaredLength ≠ 0 →
        deliveredLength delivered = options.declaredLength.toNat) := by
  obtain ⟨hdelivered, houtcome⟩ := Delivery.mk.inj h
  obtain ⟨read, hread, hfinish⟩ := Except.bind_eq_ok_iff.mp houtcome
  have hframed := framed_of_decodeChunks kMaxChunks
    (show decodeChunks crypto options kMaxChunks 0 options.seedSignature body =
      ⟨delivered, .ok read⟩ by rw [← hdelivered, ← hread])
  rw [hdelivered] at hfinish
  obtain ⟨block, hblock, hfinish⟩ := Except.bind_eq_ok_iff.mp hfinish
  obtain ⟨_, -, hfinish⟩ := Except.bind_eq_ok_iff.mp hfinish
  obtain ⟨lines, leftover, htrailing, -⟩ := trailing_of_readTrailers _ (le_refl _) hblock
  refine ⟨⟨lines, leftover, read.rest, hframed, htrailing⟩, fun hdeclared => ?_⟩
  by_contra hne
  rw [if_pos ⟨hdeclared, hne⟩] at hfinish
  cases hfinish

theorem deliveredLength_eq_zero_iff {body leftover : Bytes} {delivered lines : List Bytes}
    (h : Reads body delivered lines leftover) : deliveredLength delivered = 0 ↔ delivered = [] := by
  obtain ⟨rest, hframed, -⟩ := h
  cases hframed with
  | last line size => exact iff_of_true rfl rfl
  | chunk line size nonempty others =>
      refine iff_of_false (fun hzero => ?_) (List.cons_ne_nil _ _)
      rw [deliveredLength, List.map_cons, List.sum_cons] at hzero
      exact nonempty (List.length_eq_zero_iff.mp (by omega))

/-- A body that decodes is framed to its end and has the length that was declared,
unless bytes stand behind its blank line or the length was declared as zero. -/
theorem decode_whole_iff {body : Bytes} {delivered : List Bytes} {trailers : Trailers}
    {declared : Option UInt64} (hdeclared : options.declaredLength = declared.getD 0)
    (h : decode crypto options body = ⟨delivered, .ok trailers⟩) :
    ((∃ lines, Reads body delivered lines []) ∧
        ∀ length ∈ declared, deliveredLength delivered = length.toNat) ↔
      ¬ Overrun body ∧ (declared = some 0 → StartsEmpty body) := by
  obtain ⟨⟨lines, leftover, hreads⟩, hlength⟩ := reads_of_decode h
  have hwhole : (∃ lines, Reads body delivered lines []) ↔ ¬ Overrun body := by
    constructor
    · rintro ⟨others, hothers⟩ ⟨chunks, more, tail, htail, hmore⟩
      exact htail (hothers.unique hmore).2.2.symm
    · intro hnot
      have hempty : leftover = [] := by
        by_contra hne
        exact hnot ⟨delivered, lines, leftover, hne, hreads⟩
      exact ⟨lines, hempty ▸ hreads⟩
  refine and_congr hwhole ?_
  obtain ⟨rest, hframed, -⟩ := id hreads
  rw [hframed.startsEmpty_iff, ← deliveredLength_eq_zero_iff hreads]
  cases declared with
  | none => exact iff_of_true (fun _ h => nomatch h) (fun h => nomatch h)
  | some length =>
      rw [Option.getD_some] at hdeclared
      by_cases hzero : length = 0
      · subst hzero
        exact ⟨fun hall _ => hall 0 rfl, fun hnone other hother =>
          (hnone rfl).trans (by rw [← Option.some.inj hother]; rfl)⟩
      · refine iff_of_true (fun other hother => ?_) fun h => absurd (Option.some.inj h) hzero
        obtain rfl := Option.some.inj hother
        rw [← hdeclared] at hzero ⊢
        exact hlength hzero

end Read

/-! ### What is written -/

/-- A header as it is sent behind the chunks. -/
structure TrailingHeader where
  name : Bytes
  value : Bytes

namespace TrailingHeader

def line (header : TrailingHeader) : Bytes := header.name ++ letter ':' :: header.value

/-- A name that ends at its colon and is not the signature's, on one line. -/
structure Valid (header : TrailingHeader) : Prop where
  name_ends : letter ':' ∉ header.name
  one_line : ¬ crlf <:+: header.line
  ordinary : toLowerText (trim header.name) ≠ ascii "x-amz-trailer-signature"

/-- What is kept of it. -/
def keep (trailers : Trailers) (header : TrailingHeader) : Trailers :=
  trailers.emplace (toLowerText (trim header.name)) (trim header.value)

/-- What its signature covers. -/
def canonical (header : TrailingHeader) : Bytes :=
  toLowerText (trim header.name) ++ [letter ':'] ++ trim header.value ++ [newline]

end TrailingHeader

/-- The headers by name; the first of a name counts. -/
def trailerMap (headers : List TrailingHeader) : Trailers :=
  headers.foldl TrailingHeader.keep .empty

/-- The lower-case hex digits of a size. -/
def sizeText (size : Nat) : Bytes :=
  if size = 0 then [0x30]
  else (Nat.digits 16 size).reverse.map fun digit => hexDigit digit.toUInt8

section Write

variable (crypto : Crypto) (options : ChunkedOptions)

/-- The signature the chain goes on with. -/
def nextSignature (previous payload : Bytes) : Bytes :=
  if options.verifySignatures then
    chunkSignature crypto options.signingKey options.amzDate options.scope previous
      (crypto.sha256Hex payload)
  else previous

def chunkHeaderText (previous payload : Bytes) : Bytes :=
  if options.verifySignatures then
    sizeText payload.length ++
      letter ';' :: (signaturePrefix ++ nextSignature crypto options previous payload)
  else sizeText payload.length

/-- The chunks and the empty one, and the last signature. -/
def frameChunks : Bytes → List Bytes → Bytes × Bytes
  | previous, [] =>
    (chunkHeaderText crypto options previous [] ++ crlf, nextSignature crypto options previous [])
  | previous, payload :: chunks =>
    let others := frameChunks (nextSignature crypto options previous payload) chunks
    (chunkHeaderText crypto options previous payload ++ crlf ++ payload ++ crlf ++ others.1,
      others.2)

/-- The line that signs the headers, where one is expected. -/
def signatureLines (previous : Bytes) (headers : List TrailingHeader) : List Bytes :=
  if options.verifySignatures ∧ options.expectTrailerSignature then
    [ascii "x-amz-trailer-signature:" ++
      trailerSignature crypto options.signingKey options.amzDate options.scope previous
        (crypto.sha256Hex (headers.flatMap TrailingHeader.canonical))]
  else []

def frameLines (lines : List Bytes) : Bytes := lines.flatMap fun line => line ++ crlf

/-- A framed body. -/
def frame (chunks : List Bytes) (headers : List TrailingHeader) : Bytes :=
  let framed := frameChunks crypto options options.seedSignature chunks
  framed.1 ++ (frameLines (headers.map TrailingHeader.line) ++
    (frameLines (signatureLines crypto options framed.2 headers) ++ crlf))

/-- Chunks and headers that may be framed. -/
structure Frameable (chunks : List Bytes) (headers : List TrailingHeader) : Prop where
  nonempty : ∀ chunk ∈ chunks, chunk ≠ []
  within : ∀ chunk ∈ chunks, chunk.length ≤ kMaxChunkBytes
  few : chunks.length < kMaxChunks
  declared : options.declaredLength ≠ 0 →
    deliveredLength chunks = options.declaredLength.toNat
  fewHeaders : headers.length ≤ kMaxTrailers
  valid : ∀ header ∈ headers, header.Valid

/-- Every header is within a line, and the signature's line is not one too many. -/
def Fits (headers : List TrailingHeader) : Prop :=
  (∀ header ∈ headers, header.line.length ≤ kMaxChunkHeaderBytes) ∧
    (options.verifySignatures ∧ options.expectTrailerSignature →
      (trailerMap headers).entries.length < kMaxTrailers)

end Write

/-! ### Sizes -/

theorem hexValue_hexDigit {digit : Nat} (h : digit < 16) :
    hexValue (hexDigit digit.toUInt8) = some digit.toUInt8 := by
  have hall : ∀ digit < 16, hexValue (hexDigit (Nat.toUInt8 digit)) = some digit.toUInt8 := by
    decide +kernel
  exact hall digit h

theorem hexNumber_concat (digits : Bytes) (byte : UInt8) :
    hexNumber (digits ++ [byte]) = (hexNumber digits).bind fun value =>
      (hexValue byte).map fun digit => value * 16 + digit.toNat := by
  rw [hexNumber, List.foldl_append]
  show (hexNumber digits).bind _ = _
  cases hexNumber digits with
  | none => rfl
  | some value => cases hexValue byte <;> rfl

theorem hexNumber_digits {digits : List Nat} (h : ∀ digit ∈ digits, digit < 16) :
    hexNumber (digits.reverse.map fun digit => hexDigit digit.toUInt8) =
      some (Nat.ofDigits 16 digits) := by
  induction digits with
  | nil => rfl
  | cons digit digits ih =>
      have hdigit := h digit List.mem_cons_self
      rw [List.reverse_cons, List.map_append, List.map_singleton, hexNumber_concat,
        ih fun other hother => h other (List.mem_cons_of_mem _ hother), hexValue_hexDigit hdigit,
        Nat.ofDigits_cons]
      have hvalue : digit.toUInt8.toNat = digit := by
        rw [Nat.toUInt8, UInt8.toNat_ofNat']
        omega
      rw [Option.bind_some, Option.map_some, hvalue]
      congr 1
      ring

theorem hexNumber_sizeText (size : Nat) : hexNumber (sizeText size) = some size := by
  rw [sizeText]
  split_ifs with hzero
  · subst hzero
    rfl
  · rw [hexNumber_digits fun digit hdigit => Nat.digits_lt_base (by decide) hdigit,
      Nat.ofDigits_digits]

theorem sizeText_ne_nil (size : Nat) : sizeText size ≠ [] := by
  rw [sizeText]
  split_ifs with hzero
  · exact List.cons_ne_nil _ _
  · intro h
    rw [List.map_eq_nil_iff, List.reverse_eq_nil_iff, Nat.digits_eq_nil_iff_eq_zero] at h
    exact hzero h

theorem length_sizeText {size : Nat} (h : size ≤ kMaxChunkBytes) : (sizeText size).length ≤ 16 := by
  rw [sizeText]
  split_ifs with hzero
  · exact Nat.succ_le_succ (Nat.zero_le _)
  · rw [List.length_map, List.length_reverse, Nat.digits_length_le_iff (by decide)]
    exact lt_of_le_of_lt h (by decide)

/-- A size is written in hex digits. -/
theorem isUnreserved_of_mem_sizeText {size : Nat} {byte : UInt8} (h : byte ∈ sizeText size) :
    isUnreserved byte := by
  rw [sizeText] at h
  split_ifs at h with hzero
  · rw [List.mem_singleton.mp h]
    decide
  · obtain ⟨digit, hdigit, rfl⟩ := List.mem_map.mp h
    have hall : ∀ digit < 16, isUnreserved (hexDigit (Nat.toUInt8 digit)) := by decide +kernel
    exact hall digit (Nat.digits_lt_base (by decide) (List.mem_reverse.mp hdigit))

theorem parseHexSize_sizeText {size : Nat} (h : size ≤ kMaxChunkBytes) :
    parseHexSize (sizeText size) = .ok size := by
  have hlength := length_sizeText h
  rw [parseHexSize, if_neg (by simp [sizeText_ne_nil, hlength]), hexNumber_sizeText]
  dsimp only
  rw [if_neg (not_lt.mpr h)]

/-! ### Lines -/

/-- A text without a line end is a line, if it is short enough. -/
theorem line_of_unbroken {limit : Nat} {line : Bytes} (hline : ¬ crlf <:+: line)
    (hlength : line.length ≤ limit) (rest : Bytes) :
    Line limit (line ++ crlf ++ rest) line rest := by
  refine ⟨rfl, hlength, fun before hbefore hfound => hline ?_⟩
  rw [List.append_assoc, List.drop_append_of_le_length hbefore.le] at hfound
  have hsuffix : line.drop before <:+ line := List.drop_suffix before line
  have hnonempty : line.drop before ≠ [] := by
    rw [Ne, List.drop_eq_nil_iff]
    omega
  cases htail : line.drop before with
  | nil => exact absurd htail hnonempty
  | cons byte more =>
      rw [htail] at hfound hsuffix
      cases more with
      | nil =>
          have hsecond := (List.cons_prefix_cons.mp (List.cons_prefix_cons.mp hfound).2).1
          exact absurd hsecond (by decide)
      | cons second tail =>
          obtain ⟨rfl, hmore⟩ := List.cons_prefix_cons.mp hfound
          obtain ⟨rfl, -⟩ := List.cons_prefix_cons.mp hmore
          exact (List.prefix_append crlf tail).isInfix.trans hsuffix.isInfix

/-- A line of a text is a first line under any longer limit. -/
theorem Line.weaken {limit other : Nat} {text line rest : Bytes} (h : Line limit text line rest)
    (hle : line.length ≤ other) : Line other text line rest := ⟨h.text_eq, hle, h.first⟩

theorem not_infix_of_not_mem {line : Bytes} (h : (0x0A : UInt8) ∉ line) : ¬ crlf <:+: line :=
  fun hfound => h (hfound.subset (by decide))

theorem not_mem_of_unreserved {text : Bytes} {byte : UInt8}
    (h : ∀ other ∈ text, isUnreserved other) (hbyte : isUnreserved byte = false) :
    byte ∉ text := by
  intro hmem
  have htrue := h byte hmem
  rw [hbyte] at htrue
  cases htrue

section Signatures

variable {crypto : Crypto} {options : ChunkedOptions}

/-- The digests have the length of SHA-256. -/
def Digests (crypto : Crypto) : Prop := ∀ key text, (crypto.hmacSha256 key text).length = 32

theorem length_toHex (bytes : Bytes) : (toHex bytes).length = 2 * bytes.length := by
  induction bytes with
  | nil => rfl
  | cons byte bytes ih =>
      show (toHex bytes).length + 2 = _
      rw [ih, List.length_cons]
      omega

theorem length_sign (h : Digests crypto) (key text : Bytes) :
    (sign crypto key text).length = 64 := by
  rw [sign, length_toHex, h]

theorem toLowerText_toHex (bytes : Bytes) : toLowerText (toHex bytes) = toHex bytes := by
  have hlower : ∀ byte ∈ toHex bytes, toLower byte = byte := by
    intro byte hbyte
    obtain ⟨source, -, hmem⟩ := List.mem_flatMap.mp hbyte
    have hall := forall_byte_of_fin
      (P := fun source => ∀ byte ∈ [hexDigit (source >>> 4), hexDigit (source &&& 0x0F)],
        toLower byte = byte) (by decide +kernel) source
    exact hall byte hmem
  rw [toLowerText]
  exact (List.map_congr_left hlower).trans (List.map_id _)

theorem nextSignature_eq (hsigned : options.verifySignatures = true) (previous payload : Bytes) :
    nextSignature crypto options previous payload =
      chunkSignature crypto options.signingKey options.amzDate options.scope previous
        (crypto.sha256Hex payload) := if_pos hsigned

/-- A chunk's header line: short, on one line, and read as it was written. -/
theorem chunkHeader_text (hdigests : options.verifySignatures = true → Digests crypto)
    (previous : Bytes) {payload : Bytes} (hwithin : payload.length ≤ kMaxChunkBytes) :
    (chunkHeaderText crypto options previous payload).length ≤ kMaxChunkHeaderBytes ∧
      ¬ crlf <:+: chunkHeaderText crypto options previous payload ∧
      chunkHeader (chunkHeaderText crypto options previous payload) =
        .ok (payload.length, if options.verifySignatures then
          nextSignature crypto options previous payload else []) := by
  have hsize := length_sizeText hwithin
  have hsemicolon : letter ';' ∉ sizeText payload.length :=
    not_mem_of_unreserved (fun _ => isUnreserved_of_mem_sizeText) (by decide)
  have hnewline : (0x0A : UInt8) ∉ sizeText payload.length :=
    not_mem_of_unreserved (fun _ => isUnreserved_of_mem_sizeText) (by decide)
  by_cases hsigned : options.verifySignatures = true
  · have hsignature := @nextSignature_eq crypto options hsigned previous payload
    have hlength : (nextSignature crypto options previous payload).length = 64 := by
      rw [hsignature]
      exact length_sign (hdigests hsigned) _ _
    have hplain : (0x0A : UInt8) ∉ nextSignature crypto options previous payload := by
      rw [hsignature]
      exact not_mem_of_unreserved (fun _ => isUnreserved_of_mem_toHex) (by decide)
    rw [chunkHeaderText, if_pos hsigned, if_pos hsigned]
    refine ⟨?_, not_infix_of_not_mem ?_, ?_⟩
    · simp only [List.length_append, List.length_cons, hlength]
      have hmarker : signaturePrefix.length = 16 := rfl
      have hlimit : kMaxChunkHeaderBytes = 1024 := rfl
      omega
    · simp only [List.mem_append, List.mem_cons, not_or]
      exact ⟨hnewline, by decide, by decide, hplain⟩
    · rw [chunkHeader, splitAtFirst_append_cons hsemicolon]
      dsimp only
      rw [if_neg (not_not.mpr (List.prefix_append ..)), parseHexSize_sizeText hwithin,
        List.drop_left]
      rfl
  · rw [chunkHeaderText, if_neg hsigned, if_neg hsigned]
    refine ⟨?_, not_infix_of_not_mem hnewline, ?_⟩
    · have hlimit : kMaxChunkHeaderBytes = 1024 := rfl
      omega
    · rw [chunkHeader, splitAtFirst_of_not_mem hsemicolon, parseHexSize_sizeText hwithin]
      rfl

/-- A written chunk is read back. -/
theorem nextChunk_written (hdigests : options.verifySignatures = true → Digests crypto)
    (count : Nat) (previous : Bytes) {payload : Bytes} (hwithin : payload.length ≤ kMaxChunkBytes)
    (rest : Bytes) :
    nextChunk crypto options count previous
        (chunkHeaderText crypto options previous payload ++ crlf ++ (payload ++ rest)) =
      .ok (payload, nextSignature crypto options previous payload, rest) := by
  obtain ⟨hlength, hline, hheader⟩ := chunkHeader_text hdigests previous hwithin
  have htake := takeLine_eq_ok_iff.mpr (line_of_unbroken hline hlength (payload ++ rest))
  apply Except.bind_eq_ok_iff.mpr
  refine ⟨_, htake, ?_⟩
  apply Except.bind_eq_ok_iff.mpr
  refine ⟨_, hheader, ?_⟩
  dsimp only
  by_cases hsigned : options.verifySignatures = true
  · have hsignature := @nextSignature_eq crypto options hsigned previous payload
    have hsome : nextSignature crypto options previous payload ≠ [] := by
      intro hnil
      have hsixtyFour := length_sign (hdigests hsigned) options.signingKey
      rw [hsignature, chunkSignature] at hnil
      have hzero := congrArg List.length hnil
      rw [hsixtyFour] at hzero
      cases hzero
    have hlower : toLowerText (nextSignature crypto options previous payload) =
        nextSignature crypto options previous payload := by
      rw [hsignature]
      exact toLowerText_toHex _
    rw [if_pos hsigned, if_neg fun h => hsome h.2, if_neg (by simp), List.take_left,
      List.drop_left, checkChunkSignature, if_pos hsigned, hlower, ← hsignature]
    dsimp only
    rw [if_pos ((secureEquals_iff _ _).mpr rfl)]
    rfl
  · rw [if_neg fun h => hsigned h.1, if_neg (by simp), List.take_left, List.drop_left,
      checkChunkSignature, if_neg hsigned, nextSignature, if_neg hsigned]
    rfl

/-- Written chunks are read back, up to what stands behind the empty one. -/
theorem decodeChunks_written (hdigests : options.verifySignatures = true → Digests crypto)
    {chunks : List Bytes} (hnonempty : ∀ chunk ∈ chunks, chunk ≠ [])
    (hwithin : ∀ chunk ∈ chunks, chunk.length ≤ kMaxChunkBytes) (rest : Bytes) :
    ∀ {room : Nat} (count : Nat) (previous : Bytes), chunks.length < room →
      decodeChunks crypto options room count previous
          ((frameChunks crypto options previous chunks).1 ++ rest) =
        ⟨chunks, .ok ⟨afterFinalChunk rest, (frameChunks crypto options previous chunks).2⟩⟩ := by
  have hstep : ∀ {room : Nat} (count : Nat) (previous : Bytes) {payload : Bytes} (more : Bytes),
      payload.length ≤ kMaxChunkBytes →
      decodeChunks crypto options (room + 1) count previous
          (chunkHeaderText crypto options previous payload ++ crlf ++ (payload ++ more)) =
        if payload = [] then
          ⟨[], .ok ⟨afterFinalChunk more, nextSignature crypto options previous payload⟩⟩
        else if more.take 2 ≠ crlf then
          ⟨[], malformed (ascii "a chunk is not terminated by CRLF")⟩
        else
          let others := decodeChunks crypto options room (count + 1)
            (nextSignature crypto options previous payload) (more.drop 2)
          ⟨payload :: others.delivered, others.outcome⟩ := by
    intro room count previous payload more hpayload
    have hnext := nextChunk_written hdigests (count + 1) previous hpayload more
    cases htext : chunkHeaderText crypto options previous payload ++ crlf ++ (payload ++ more) with
    | nil => simp [crlf] at htext
    | cons byte bytes =>
        rw [htext] at hnext
        rw [decodeChunks, hnext]
  induction chunks with
  | nil =>
      intro room count previous hroom
      obtain ⟨room, rfl⟩ := Nat.exists_eq_succ_of_ne_zero (Nat.pos_iff_ne_zero.mp hroom)
      exact hstep count previous rest (Nat.zero_le _)
  | cons payload chunks ih =>
      intro room count previous hroom
      obtain ⟨room, rfl⟩ := Nat.exists_eq_succ_of_ne_zero (Nat.ne_zero_of_lt hroom)
      have hothers := ih (fun chunk h => hnonempty chunk (List.mem_cons_of_mem _ h))
        (fun chunk h => hwithin chunk (List.mem_cons_of_mem _ h)) (count + 1)
        (nextSignature crypto options previous payload) (Nat.lt_of_succ_lt_succ hroom)
      have htext : (frameChunks crypto options previous (payload :: chunks)).1 ++ rest =
          chunkHeaderText crypto options previous payload ++ crlf ++
            (payload ++ (crlf ++ ((frameChunks crypto options
              (nextSignature crypto options previous payload) chunks).1 ++ rest))) := by
        simp [frameChunks]
      rw [htext, hstep count previous _ (hwithin payload List.mem_cons_self),
        if_neg (hnonempty payload List.mem_cons_self), if_neg (by simp [crlf])]
      dsimp only
      rw [List.drop_left' (by rfl), hothers]
      rfl

end Signatures

/-! ### Trailing headers -/

theorem trailingHeader_line_ne_nil (header : TrailingHeader) : header.line ≠ [] := by
  simp [TrailingHeader.line]

section Headers

variable {header : TrailingHeader} {headers : List TrailingHeader} {block : TrailerBlock}
  {fuel : Nat} {rest : Bytes}

/-- One turn of the loop over the trailing headers. -/
theorem readTrailers_line {line : Bytes} (hline : Line kMaxChunkHeaderBytes (line ++ crlf ++ rest)
      line rest) (hnonempty : line ≠ []) :
    readTrailers (fuel + 1) (line ++ crlf ++ rest) block =
      if kMaxTrailers ≤ block.trailers.entries.length then
        malformed (ascii "too many trailing headers")
      else
        match splitAtFirst (letter ':') line with
        | none => malformed (ascii "a trailing header has no colon")
        | some (nameField, valueField) =>
          if toLowerText (trim nameField) = ascii "x-amz-trailer-signature" then
            readTrailers fuel rest { block with declaredSignature := toLowerText (trim valueField) }
          else
            readTrailers fuel rest
              { block with
                canonicalTrailers :=
                  block.canonicalTrailers ++ toLowerText (trim nameField) ++ [letter ':'] ++
                    trim valueField ++ [newline]
                trailers := block.trailers.emplace (toLowerText (trim nameField))
                  (trim valueField) } := by
  have htake := takeLine_eq_ok_iff.mpr hline
  cases htext : line ++ crlf ++ rest with
  | nil => simp [crlf] at htext
  | cons byte bytes =>
      rw [htext] at htake
      rw [readTrailers, htake]
      show (if line = [] then _ else _) = _
      exact (if_neg hnonempty).trans rfl

theorem readTrailers_header (hvalid : header.Valid)
    (hlength : header.line.length ≤ kMaxChunkHeaderBytes)
    (hroom : block.trailers.entries.length < kMaxTrailers) :
    readTrailers (fuel + 1) (header.line ++ crlf ++ rest) block =
      readTrailers fuel rest
        { block with
          canonicalTrailers := block.canonicalTrailers ++ header.canonical
          trailers := header.keep block.trailers } := by
  rw [readTrailers_line (line_of_unbroken hvalid.one_line hlength rest)
    (trailingHeader_line_ne_nil header), if_neg (not_le.mpr hroom)]
  have hsplit : splitAtFirst (letter ':') header.line = some (header.name, header.value) :=
    splitAtFirst_append_cons hvalid.name_ends _
  rw [hsplit]
  dsimp only
  rw [if_neg hvalid.ordinary]
  simp only [TrailingHeader.canonical, List.append_assoc]
  rfl

/-- A header longer than a line is not read. -/
theorem readTrailers_long (hvalid : header.Valid)
    (hlong : kMaxChunkHeaderBytes < header.line.length) :
    ∃ error, readTrailers (fuel + 1) (header.line ++ crlf ++ rest) block = .error error := by
  have hline := line_of_unbroken hvalid.one_line (le_refl _) rest
  cases htake : takeLine kMaxChunkHeaderBytes (header.line ++ crlf ++ rest) with
  | ok taken =>
      have hshort := takeLine_eq_ok_iff.mp htake
      have hsame := (hline.unique (hshort.weaken (hshort.length_le.trans hlong.le))).1
      have hle := hshort.length_le
      rw [← hsame] at hle
      omega
  | error error =>
      refine ⟨error, ?_⟩
      cases htext : header.line ++ crlf ++ rest with
      | nil => simp [crlf] at htext
      | cons byte bytes =>
          rw [htext] at htake
          rw [readTrailers, htake]
          rfl

/-- What is read of headers that are short enough, one after another. -/
theorem readTrailers_headers (hvalid : ∀ header ∈ headers, header.Valid)
    (hfits : ∀ header ∈ headers, header.line.length ≤ kMaxChunkHeaderBytes)
    (hroom : block.trailers.entries.length + headers.length ≤ kMaxTrailers) :
    readTrailers (headers.length + fuel)
        (frameLines (headers.map TrailingHeader.line) ++ rest) block =
      readTrailers fuel rest
        { block with
          canonicalTrailers :=
            block.canonicalTrailers ++ headers.flatMap TrailingHeader.canonical
          trailers := headers.foldl TrailingHeader.keep block.trailers } := by
  induction headers generalizing block with
  | nil => simp [frameLines]
  | cons header headers ih =>
      have hkept : (header.keep block.trailers).entries.length ≤
          block.trailers.entries.length + 1 := OrderedMap.length_emplace_le ..
      rw [List.length_cons] at hroom
      have htext : frameLines ((header :: headers).map TrailingHeader.line) ++ rest =
          header.line ++ crlf ++ (frameLines (headers.map TrailingHeader.line) ++ rest) := by
        simp [frameLines]
      have hfuel : (header :: headers).length + fuel = headers.length + fuel + 1 := by
        rw [List.length_cons]
        omega
      rw [htext, hfuel, readTrailers_header (hvalid header List.mem_cons_self)
        (hfits header List.mem_cons_self) (by omega),
        ih (fun other h => hvalid other (List.mem_cons_of_mem _ h))
          (fun other h => hfits other (List.mem_cons_of_mem _ h)) (by dsimp only; omega)]
      simp only [List.flatMap_cons, List.foldl_cons, List.append_assoc]

theorem readTrailers_headers_long (hvalid : ∀ header ∈ headers, header.Valid)
    (hroom : block.trailers.entries.length + headers.length ≤ kMaxTrailers)
    (hlong : ¬ ∀ header ∈ headers, header.line.length ≤ kMaxChunkHeaderBytes) :
    ∃ error, readTrailers (headers.length + fuel)
      (frameLines (headers.map TrailingHeader.line) ++ rest) block = .error error := by
  induction headers generalizing block with
  | nil => exact absurd (fun _ h => nomatch h) hlong
  | cons header headers ih =>
      have hkept : (header.keep block.trailers).entries.length ≤
          block.trailers.entries.length + 1 := OrderedMap.length_emplace_le ..
      rw [List.length_cons] at hroom
      have htext : frameLines ((header :: headers).map TrailingHeader.line) ++ rest =
          header.line ++ crlf ++ (frameLines (headers.map TrailingHeader.line) ++ rest) := by
        simp [frameLines]
      have hfuel : (header :: headers).length + fuel = headers.length + fuel + 1 := by
        rw [List.length_cons]
        omega
      rw [htext, hfuel]
      by_cases hlength : header.line.length ≤ kMaxChunkHeaderBytes
      · rw [readTrailers_header (hvalid header List.mem_cons_self) hlength (by omega)]
        refine ih (fun other h => hvalid other (List.mem_cons_of_mem _ h)) (by dsimp only; omega) ?_
        exact fun hall => hlong (List.forall_mem_cons.mpr ⟨hlength, hall⟩)
      · exact readTrailers_long (hvalid header List.mem_cons_self) (not_le.mp hlength)

/-- The blank line ends the headers. -/
theorem readTrailers_blank : readTrailers (fuel + 1) crlf block = .ok block := by
  have htake := takeLine_eq_ok_iff.mpr (@line_crlf kMaxChunkHeaderBytes [])
  rw [List.append_nil] at htake
  rw [crlf, readTrailers]
  rw [crlf] at htake
  rw [htake]
  rfl

end Headers

section Block

variable {crypto : Crypto} {options : ChunkedOptions} {previous : Bytes}
  {headers : List TrailingHeader}

/-- The signature a block of headers is written with, if one is expected. -/
def declaredSignature (crypto : Crypto) (options : ChunkedOptions) (previous : Bytes)
    (headers : List TrailingHeader) : Bytes :=
  if options.verifySignatures ∧ options.expectTrailerSignature then
    trailerSignature crypto options.signingKey options.amzDate options.scope previous
      (crypto.sha256Hex (headers.flatMap TrailingHeader.canonical))
  else []

theorem trim_of_unreserved {text : Bytes} (h : ∀ byte ∈ text, isUnreserved byte) :
    trim text = text := by
  have hplain : ∀ byte ∈ text, ¬ (byte = 0x20 ∨ byte = 0x09) := by
    rintro byte hbyte (rfl | rfl)
    · exact absurd (h _ hbyte) (by decide)
    · exact absurd (h _ hbyte) (by decide)
  have hfront : (text.dropWhile fun byte => byte = 0x20 ∨ byte = 0x09) = text := by
    rw [List.dropWhile_eq_self_iff]
    intro hlength
    simpa using hplain _ (List.getElem_mem hlength)
  rw [trim, hfront, List.rdropWhile_eq_self_iff]
  intro hnonempty
  simpa using hplain _ (List.getLast_mem hnonempty)

/-- The signature's line is on one line, and short. -/
theorem signatureLine_one_line {signature : Bytes} (h : ∀ byte ∈ signature, isUnreserved byte) :
    ¬ crlf <:+: ascii "x-amz-trailer-signature:" ++ signature := by
  apply not_infix_of_not_mem
  rw [List.mem_append, not_or]
  exact ⟨by decide, not_mem_of_unreserved h (by decide)⟩

/-- The line of the signature, after the headers. -/
theorem readTrailers_signature (hdigests : Digests crypto) {fuel : Nat} {block : TrailerBlock}
    (signature key text : Bytes) (hsignature : signature = sign crypto key text) :
    readTrailers (fuel + 2) (ascii "x-amz-trailer-signature:" ++ signature ++ crlf ++ crlf) block =
      if kMaxTrailers ≤ block.trailers.entries.length then
        malformed (ascii "too many trailing headers")
      else .ok { block with declaredSignature := signature } := by
  have hlength : signature.length = 64 := hsignature ▸ length_sign hdigests key text
  have hplain : ∀ byte ∈ signature, isUnreserved byte := by
    intro byte hbyte
    rw [hsignature] at hbyte
    exact isUnreserved_of_mem_toHex hbyte
  have hname : ascii "x-amz-trailer-signature:" =
      ascii "x-amz-trailer-signature" ++ [letter ':'] := by decide
  have hshort : (ascii "x-amz-trailer-signature:" ++ signature).length ≤ kMaxChunkHeaderBytes := by
    rw [List.length_append, hlength]
    decide
  have hlower : toLowerText signature = signature := by
    rw [hsignature]
    exact toLowerText_toHex _
  rw [readTrailers_line (line_of_unbroken (signatureLine_one_line hplain) hshort crlf)
    (by simp [hname])]
  have hsplit : splitAtFirst (letter ':') (ascii "x-amz-trailer-signature:" ++ signature) =
      some (ascii "x-amz-trailer-signature", signature) := by
    rw [hname, List.append_assoc]
    exact splitAtFirst_append_cons (by decide) signature
  have hkept : toLowerText (trim (ascii "x-amz-trailer-signature")) =
      ascii "x-amz-trailer-signature" := by decide
  rw [hsplit]
  dsimp only
  rw [if_pos hkept, trim_of_unreserved hplain, hlower, readTrailers_blank]

/-- The trailer block as it is written. -/
def trailerText (crypto : Crypto) (options : ChunkedOptions) (previous : Bytes)
    (headers : List TrailingHeader) : Bytes :=
  frameLines (headers.map TrailingHeader.line) ++
    (frameLines (signatureLines crypto options previous headers) ++ crlf)

theorem length_frameLines_le (lines : List Bytes) : 2 * lines.length ≤ (frameLines lines).length := by
  induction lines with
  | nil => exact Nat.zero_le _
  | cons line lines ih =>
      show _ ≤ (line ++ crlf ++ frameLines lines).length
      have htwo : crlf.length = 2 := rfl
      simp only [List.length_append, List.length_cons] at ih ⊢
      omega

/-- A block that starts with a line does not start with a line end. -/
theorem afterFinalChunk_line {line : Bytes} (hline : ¬ crlf <:+: line) (hnonempty : line ≠ [])
    (rest : Bytes) : afterFinalChunk (line ++ crlf ++ rest) = line ++ crlf ++ rest := by
  rw [afterFinalChunk, if_neg]
  intro htake
  have hfirst := (line_of_unbroken hline (le_refl _) rest).first 0
    (List.length_pos_iff.mpr hnonempty)
  exact hfirst (List.prefix_iff_eq_take.mpr htake.symm)

/-- Where a signature is expected, it is written. -/
theorem signatureLines_of_signed (hsigns : options.verifySignatures ∧ options.expectTrailerSignature) :
    signatureLines crypto options previous headers =
      [ascii "x-amz-trailer-signature:" ++ declaredSignature crypto options previous headers] := by
  rw [signatureLines, declaredSignature, if_pos hsigns, if_pos hsigns]

theorem signatureLines_of_unsigned
    (hplain : ¬ (options.verifySignatures ∧ options.expectTrailerSignature)) :
    signatureLines crypto options previous headers = [] := if_neg hplain

theorem isUnreserved_of_mem_declaredSignature {byte : UInt8}
    (h : byte ∈ declaredSignature crypto options previous headers) : isUnreserved byte := by
  rw [declaredSignature] at h
  split_ifs at h
  · exact isUnreserved_of_mem_toHex h
  · cases h

/-- What the decoder makes of a written block: nothing is left of an empty one. -/
theorem afterFinalChunk_trailerText (hvalid : ∀ header ∈ headers, header.Valid) :
    afterFinalChunk (trailerText crypto options previous headers) =
      if headers = [] ∧ signatureLines crypto options previous headers = [] then []
      else trailerText crypto options previous headers := by
  cases headers with
  | cons header headers =>
      have htext : trailerText crypto options previous (header :: headers) =
          header.line ++ crlf ++ (frameLines (headers.map TrailingHeader.line) ++
            (frameLines (signatureLines crypto options previous (header :: headers)) ++
              crlf)) := by
        simp [trailerText, frameLines]
      rw [if_neg fun h => List.cons_ne_nil _ _ h.1, htext]
      exact afterFinalChunk_line (hvalid header List.mem_cons_self).one_line
        (trailingHeader_line_ne_nil header) _
  | nil =>
      by_cases hsigns : options.verifySignatures ∧ options.expectTrailerSignature
      · have hlines := @signatureLines_of_signed crypto options previous [] hsigns
        have htext : trailerText crypto options previous [] =
            (ascii "x-amz-trailer-signature:" ++ declaredSignature crypto options previous []) ++
              crlf ++ crlf := by
          rw [trailerText, hlines]
          simp [frameLines]
        rw [if_neg fun h => List.cons_ne_nil _ _ (hlines.symm.trans h.2), htext]
        exact afterFinalChunk_line
          (signatureLine_one_line fun _ => isUnreserved_of_mem_declaredSignature)
          (List.append_ne_nil_of_left_ne_nil (by decide) _) _
      · have hlines := @signatureLines_of_unsigned crypto options previous [] hsigns
        rw [if_pos ⟨rfl, hlines⟩, trailerText, hlines]
        rfl

/-- The loop has a turn for every line, and two more. -/
theorem exists_turns (crypto : Crypto) (options : ChunkedOptions) (previous : Bytes)
    (headers : List TrailingHeader) : ∃ fuel,
    (trailerText crypto options previous headers).length =
      headers.length + (fuel + 2) := by
  have hheaders := length_frameLines_le (headers.map TrailingHeader.line)
  have hsignature := length_frameLines_le (signatureLines crypto options previous headers)
  have htwo : crlf.length = 2 := rfl
  refine ⟨(trailerText crypto options previous headers).length - headers.length - 2, ?_⟩
  rw [List.length_map] at hheaders
  rw [trailerText, List.length_append, List.length_append, htwo]
  omega

/-- What is read behind headers that are short enough. -/
theorem readTrailers_trailerText (hvalid : ∀ header ∈ headers, header.Valid)
    (hdigests : options.verifySignatures = true → Digests crypto)
    (hfew : headers.length ≤ kMaxTrailers)
    (hshort : ∀ header ∈ headers, header.line.length ≤ kMaxChunkHeaderBytes) :
    readTrailers (trailerText crypto options previous headers).length
        (trailerText crypto options previous headers) {} =
      if (options.verifySignatures ∧ options.expectTrailerSignature) ∧
          kMaxTrailers ≤ (trailerMap headers).entries.length then
        malformed (ascii "too many trailing headers")
      else .ok ⟨trailerMap headers, headers.flatMap TrailingHeader.canonical,
        declaredSignature crypto options previous headers⟩ := by
  obtain ⟨fuel, hfuel⟩ := exists_turns crypto options previous headers
  have hroom : (OrderedMap.empty : Trailers).entries.length + headers.length ≤ kMaxTrailers := by
    show 0 + _ ≤ _
    omega
  rw [hfuel, trailerText, readTrailers_headers hvalid hshort hroom]
  by_cases hsigns : options.verifySignatures ∧ options.expectTrailerSignature
  · have hline : ∀ line : Bytes, frameLines [line] = line ++ crlf := fun line => by
      simp [frameLines]
    rw [signatureLines_of_signed hsigns, hline,
      readTrailers_signature (hdigests hsigns.1)
        (declaredSignature crypto options previous headers) _ _ (if_pos hsigns)]
    by_cases hfull : kMaxTrailers ≤ (trailerMap headers).entries.length
    · exact (if_pos hfull).trans (if_pos ⟨hsigns, hfull⟩).symm
    · exact (if_neg hfull).trans (if_neg fun h => hfull h.2).symm
  · rw [signatureLines_of_unsigned hsigns, declaredSignature, if_neg hsigns,
      if_neg fun h => hsigns h.1]
    exact readTrailers_blank

/-- Headers that fit are read, and the signature they were written with. -/
theorem readTrailers_written (hvalid : ∀ header ∈ headers, header.Valid)
    (hdigests : options.verifySignatures = true → Digests crypto)
    (hfew : headers.length ≤ kMaxTrailers) (hfits : Fits options headers) :
    readTrailers (afterFinalChunk (trailerText crypto options previous headers)).length
        (afterFinalChunk (trailerText crypto options previous headers)) {} =
      .ok ⟨trailerMap headers, headers.flatMap TrailingHeader.canonical,
        declaredSignature crypto options previous headers⟩ := by
  rw [afterFinalChunk_trailerText hvalid]
  by_cases hnone : headers = [] ∧ signatureLines crypto options previous headers = []
  · obtain ⟨rfl, hlines⟩ := hnone
    have hplain : ¬ (options.verifySignatures ∧ options.expectTrailerSignature) := by
      intro hsigns
      rw [signatureLines_of_signed hsigns] at hlines
      exact List.cons_ne_nil _ _ hlines
    rw [if_pos ⟨rfl, hlines⟩, declaredSignature, if_neg hplain]
    rfl
  · rw [if_neg hnone, readTrailers_trailerText hvalid hdigests hfew hfits.1]
    exact if_neg fun h => absurd (hfits.2 h.1) (not_lt.mpr h.2)

/-- Headers of which one does not are refused. -/
theorem readTrailers_refused (hvalid : ∀ header ∈ headers, header.Valid)
    (hdigests : options.verifySignatures = true → Digests crypto)
    (hfew : headers.length ≤ kMaxTrailers) (hfits : ¬ Fits options headers) :
    ∃ error, readTrailers (afterFinalChunk (trailerText crypto options previous headers)).length
      (afterFinalChunk (trailerText crypto options previous headers)) {} = .error error := by
  have hsome : ¬ (headers = [] ∧ signatureLines crypto options previous headers = []) := by
    rintro ⟨rfl, hlines⟩
    refine hfits ⟨fun _ h => (nomatch h), fun _ => ?_⟩
    exact Nat.zero_lt_of_ne_zero (by decide)
  rw [afterFinalChunk_trailerText hvalid, if_neg hsome]
  by_cases hshort : ∀ header ∈ headers, header.line.length ≤ kMaxChunkHeaderBytes
  · have hfull : (options.verifySignatures ∧ options.expectTrailerSignature) ∧
        kMaxTrailers ≤ (trailerMap headers).entries.length := by
      by_contra hnot
      exact hfits ⟨hshort, fun hsigns => not_le.mp fun hle => hnot ⟨hsigns, hle⟩⟩
    rw [readTrailers_trailerText hvalid hdigests hfew hshort, if_pos hfull]
    exact ⟨_, rfl⟩
  · obtain ⟨fuel, hfuel⟩ := exists_turns crypto options previous headers
    rw [hfuel]
    refine readTrailers_headers_long hvalid ?_ hshort
    show 0 + _ ≤ _
    omega

end Block

section Frames

variable {crypto : Crypto} {options : ChunkedOptions} {chunks : List Bytes}
  {headers : List TrailingHeader}

/-- What is framed decodes to its chunks and headers exactly when they fit. -/
theorem decode_frame_iff (hdigests : options.verifySignatures = true → Digests crypto)
    (h : Frameable options chunks headers) :
    decode crypto options (frame crypto options chunks headers) =
        ⟨chunks, .ok (trailerMap headers)⟩ ↔
      Fits options headers := by
  have hchunks := decodeChunks_written hdigests h.nonempty h.within
    (trailerText crypto options
      (frameChunks crypto options options.seedSignature chunks).2 headers)
    0 options.seedSignature h.few
  have hframe : frame crypto options chunks headers =
      (frameChunks crypto options options.seedSignature chunks).1 ++ trailerText crypto options
        (frameChunks crypto options options.seedSignature chunks).2 headers := rfl
  rw [decode, hframe, hchunks]
  dsimp only
  rw [Except.bind, finishDecode]
  dsimp only
  constructor
  · intro hdecode
    by_contra hfits
    obtain ⟨error, herror⟩ := @readTrailers_refused crypto options
      (frameChunks crypto options options.seedSignature chunks).2 headers h.valid hdigests
      h.fewHeaders hfits
    rw [herror] at hdecode
    cases (Delivery.mk.inj hdecode).2
  · intro hfits
    rw [readTrailers_written h.valid hdigests h.fewHeaders hfits]
    have hsignature : checkTrailerSignature crypto options
        (frameChunks crypto options options.seedSignature chunks).2
        ⟨trailerMap headers, headers.flatMap TrailingHeader.canonical,
          declaredSignature crypto options
            (frameChunks crypto options options.seedSignature chunks).2 headers⟩ = .ok () := by
      rw [checkTrailerSignature]
      by_cases hsigns : options.verifySignatures ∧ options.expectTrailerSignature
      · have hsome : declaredSignature crypto options
            (frameChunks crypto options options.seedSignature chunks).2 headers ≠ [] := by
          intro hnil
          rw [declaredSignature, if_pos hsigns, trailerSignature] at hnil
          have hlength := length_sign (hdigests hsigns.1) options.signingKey
          have hzero := congrArg List.length hnil
          rw [hlength] at hzero
          cases hzero
        rw [if_pos hsigns, if_neg hsome]
        dsimp only
        rw [declaredSignature, if_pos hsigns, if_pos ((secureEquals_iff _ _).mpr rfl)]
      · rw [if_neg hsigns]
    have hlength : ¬ (options.declaredLength ≠ 0 ∧
        deliveredLength chunks ≠ options.declaredLength.toNat) := fun hne => hne.2 (h.declared hne.1)
    show Delivery.mk chunks (Except.bind (checkTrailerSignature crypto options _ _) _) = _
    rw [hsignature]
    show Delivery.mk chunks (if _ then _ else _) = _
    rw [if_neg hlength]
    rfl

end Frames

/-- Framed chunks and headers decode to themselves exactly when the headers fit, and a
body that decodes is framed to its end, as long as was declared, exactly when nothing
stands behind its blank line and no length of zero was declared for more. -/
theorem decode_exact_iff (crypto : Crypto) (options : ChunkedOptions)
    (hdigests : options.verifySignatures = true → Digests crypto) :
    (∀ chunks headers, Frameable options chunks headers →
      (decode crypto options (frame crypto options chunks headers) =
          ⟨chunks, .ok (trailerMap headers)⟩ ↔ Fits options headers)) ∧
    ∀ (declared : Option UInt64) (body : Bytes) (delivered : List Bytes) (trailers : Trailers),
      options.declaredLength = declared.getD 0 →
      decode crypto options body = ⟨delivered, .ok trailers⟩ →
      (((∃ lines, Reads body delivered lines []) ∧
          ∀ length ∈ declared, deliveredLength delivered = length.toNat) ↔
        ¬ Overrun body ∧ (declared = some 0 → StartsEmpty body)) :=
  ⟨fun _ _ h => decode_frame_iff hdigests h, fun _ _ _ _ hdeclared h =>
    decode_whole_iff hdeclared h⟩

/-! ### Fixed bodies -/

section Fixed

/-- The digests of a signed body of one chunk, as SHA-256 and HMAC-SHA256 give them. -/
def chunkCrypto : Crypto where
  sha256Hex data :=
    if data = ascii "abc" then
      ascii "ba7816bf8f01cfea414140de5dae2223b00361a396177a9cb410ff61f20015ad"
    else kEmptySha256
  hmacSha256 _ data :=
    unhex (ascii
      (if ascii "ba7816bf8f01cfea414140de5dae2223b00361a396177a9cb410ff61f20015ad" <:+ data then
        "8caa920dda448921c9a9495e5df9d7e6a29114064ba9ff135cda09706d0f7734"
      else "bfb7959644abeb01109bfbd3579bd3d2913e3215773d3454f2f5ad84aff7022f"))

def signedOptions : ChunkedOptions where
  verifySignatures := true
  signingKey := List.replicate 32 0
  amzDate := ascii "20260101T000000Z"
  scope := ascii "20260101/us-east-1/s3/aws4_request"
  seedSignature := ascii "seed"

def checksumHeader : TrailingHeader where
  name := ascii "x-amz-checksum-crc32"
  value := ascii "NSRBwg=="

theorem decode_exact_iff_signedOptions :
    decode chunkCrypto signedOptions
        (frame chunkCrypto signedOptions [ascii "abc"] [checksumHeader]) =
      ⟨[ascii "abc"], .ok (trailerMap [checksumHeader])⟩ := by
  have hdigests : Digests chunkCrypto := by
    intro key text
    rw [chunkCrypto]
    dsimp only
    split_ifs
    · decide +kernel
    · decide +kernel
  have hvalid : ∀ header ∈ [checksumHeader], header.Valid := by
    intro header hheader
    rw [List.mem_singleton.mp hheader]
    exact ⟨by decide, by decide, by decide⟩
  have hframeable : Frameable signedOptions [ascii "abc"] [checksumHeader] :=
    ⟨by decide, by decide, by decide, by decide, by decide, hvalid⟩
  have hfits : Fits signedOptions [checksumHeader] := ⟨by decide, by decide⟩
  exact ((decode_exact_iff chunkCrypto signedOptions fun _ => hdigests).1 _ _ hframeable).mpr hfits

/-- A body with a blank line and something behind it. -/
def overrunBody : Bytes := ascii "0" ++ crlf ++ crlf ++ crlf ++ ascii "smuggled"

/-- A body of three bytes. -/
def threeBytes : Bytes := ascii "3" ++ crlf ++ ascii "abc" ++ crlf ++ ascii "0" ++ crlf ++ crlf

/-- What a client's declaration becomes. -/
def declaring (declared : Option UInt64) : ChunkedOptions := { declaredLength := declared.getD 0 }

/-- The bytes behind the blank line are dropped, and three bytes are delivered where
none were declared. -/
theorem leftover_and_declared_zero :
    ((decode chunkCrypto {} overrunBody).outcome.isOk ∧
        ¬ ∃ lines, Reads overrunBody (decode chunkCrypto {} overrunBody).delivered lines []) ∧
      (decode chunkCrypto (declaring (some 0)) threeBytes).outcome.isOk ∧
      deliveredLength (decode chunkCrypto (declaring (some 0)) threeBytes).delivered = 3 := by
  have hfirst : Line kMaxChunkHeaderBytes overrunBody (ascii "0")
      (crlf ++ (crlf ++ ascii "smuggled")) := takeLine_eq_ok_iff.mp (by decide +kernel)
  have hsize : chunkHeader (ascii "0") = .ok (0, []) := by decide +kernel
  have hleft : Reads overrunBody [] [] (ascii "smuggled") := ⟨_, .last hfirst hsize, .closed⟩
  refine ⟨⟨by decide +kernel, ?_⟩, by decide +kernel, by decide +kernel⟩
  rintro ⟨lines, hlines⟩
  exact absurd (hlines.unique hleft).2.2 (by decide)

end Fixed

end MonoBucket.S3
