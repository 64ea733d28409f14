/-
Tamper evidence of signed chunks

A chunk is signed together with the signature before it, from the seed on, and the
trailing headers together with the last. As long as only the holder of the key can
sign, a body that decodes has the chunks that were signed, all of them and in order.

The trailing headers are signed as lines that end in a line feed and read as lines that
end in CRLF. A line feed alone is part of a value where it is read, and the end of a
header where it was signed: two signed headers can be presented as one.
-/

import MonoBucket.S3.Framing

namespace MonoBucket.S3

/-! ### Chains -/

/-- A fold that takes in one item at a time, never comes back to its seed and never
comes to one value in two ways tells all lists apart. -/
theorem foldl_injective {σ α : Type*} {link : σ → α → σ} {seed : σ}
    (hlink : ∀ {first second item other}, link first item = link second other →
      first = second ∧ item = other)
    (hseed : ∀ state item, link state item ≠ seed) :
    Function.Injective fun items : List α => items.foldl link seed := by
  intro items others hsame
  induction items using List.reverseRecOn generalizing others with
  | nil =>
      cases others using List.reverseRecOn with
      | nil => rfl
      | append_singleton others other =>
          simp only [List.foldl_append, List.foldl_cons, List.foldl_nil] at hsame
          exact absurd hsame.symm (hseed _ _)
  | append_singleton items item ih =>
      cases others using List.reverseRecOn with
      | nil =>
          simp only [List.foldl_append, List.foldl_cons, List.foldl_nil] at hsame
          exact absurd hsame (hseed _ _)
      | append_singleton others other =>
          simp only [List.foldl_append, List.foldl_cons, List.foldl_nil] at hsame
          obtain ⟨hfront, rfl⟩ := hlink hsame
          rw [ih hfront]

/-! ### What is signed -/

/-- The chunks and the trailing headers that the holder of a key signs; the empty chunk
that ends them is understood. A header is one line. -/
structure SignedUpload where
  chunks : List Bytes
  headers : Option (List TrailingHeader)
  nonempty : ∀ chunk ∈ chunks, chunk ≠ []
  names_end : ∀ listed ∈ headers, ∀ header ∈ listed, letter ':' ∉ header.name
  one_line : ∀ listed ∈ headers, ∀ header ∈ listed, newline ∉ header.line

section Signing

variable (crypto : Crypto) (options : ChunkedOptions)

/-- The text that a chunk's signature signs. -/
def chunkToSign (previous payload : Bytes) : Bytes :=
  kChunkAlgorithm ++ [newline] ++ options.amzDate ++ [newline] ++ options.scope ++ [newline] ++
    previous ++ [newline] ++ kEmptySha256 ++ [newline] ++ crypto.sha256Hex payload

/-- The text that the signature of trailing headers signs. -/
def trailerToSign (previous canonicalTrailers : Bytes) : Bytes :=
  ascii "AWS4-HMAC-SHA256-TRAILER" ++ [newline] ++ options.amzDate ++ [newline] ++
    options.scope ++ [newline] ++ previous ++ [newline] ++ crypto.sha256Hex canonicalTrailers

/-- A chunk's signature, from the one before it. -/
def chainedSignature (previous payload : Bytes) : Bytes :=
  chunkSignature crypto options.signingKey options.amzDate options.scope previous
    (crypto.sha256Hex payload)

/-- The signature that a chain of chunks comes to. -/
def signatureAfter (chunks : List Bytes) : Bytes :=
  chunks.foldl (chainedSignature crypto options) options.seedSignature

/-- The texts of chunk and trailer signatures that go on from the seed. -/
def GoesOn (message : Bytes) : Prop :=
  ∃ chunks, (∃ payload, message = chunkToSign crypto options (signatureAfter crypto options chunks)
      payload) ∨
    ∃ canonical, message = trailerToSign crypto options (signatureAfter crypto options chunks)
      canonical

/-- The texts that the holder of the key signed. -/
inductive Issued (upload : SignedUpload) : Bytes → Prop
  | chunk {front : List Bytes} {payload : Bytes} (h : front ++ [payload] <+: upload.chunks ++ [[]]) :
    Issued upload (chunkToSign crypto options (signatureAfter crypto options front) payload)
  | trailer {listed : List TrailingHeader} (h : upload.headers = some listed) :
    Issued upload (trailerToSign crypto options
      (signatureAfter crypto options (upload.chunks ++ [[]]))
      (listed.flatMap TrailingHeader.canonical))

/-- Of the signatures that go on from the seed, only issued ones occur in the text. -/
def Unforged (upload : SignedUpload) (text : Bytes) : Prop :=
  ∀ message, GoesOn crypto options message → sign crypto options.signingKey message <:+: text →
    Issued crypto options upload message

/-- SHA-256 and HMAC tell texts apart, and the seed is the signature of a request. -/
structure Sealed : Prop where
  sha256 : Function.Injective crypto.sha256Hex
  hmac : Function.Injective (crypto.hmacSha256 options.signingKey)
  seed : ∃ amzDate scope hash,
    options.seedSignature = sign crypto options.signingKey (stringToSign amzDate scope hash)

end Signing

section Chain

variable {crypto : Crypto} {options : ChunkedOptions}

theorem chainedSignature_eq (previous payload : Bytes) :
    chainedSignature crypto options previous payload =
      sign crypto options.signingKey (chunkToSign crypto options previous payload) := rfl

theorem unhex_toHex (bytes : Bytes) : unhex (toHex bytes) = bytes := by
  induction bytes with
  | nil => rfl
  | cons byte rest ih =>
      have hbyte := forall_byte_of_fin
        (P := fun byte => ((hexValue (hexDigit (byte >>> 4))).getD 0 <<< 4) |||
          (hexValue (hexDigit (byte &&& 0x0F))).getD 0 = byte) (by decide +kernel) byte
      show _ :: unhex (toHex rest) = _
      rw [ih, hbyte]

theorem toHex_injective : Function.Injective toHex :=
  Function.LeftInverse.injective unhex_toHex

theorem newline_not_mem_sign (key message : Bytes) : newline ∉ sign crypto key message :=
  not_mem_of_unreserved (fun _ => isUnreserved_of_mem_toHex) (by decide)

/-- Texts whose first lines end where they do are the same line by line. -/
theorem line_inj {line other rest tail : Bytes} (hline : newline ∉ line) (hother : newline ∉ other)
    (h : line ++ newline :: rest = other ++ newline :: tail) : line = other ∧ rest = tail := by
  have hsplit := congrArg (splitAtFirst newline) h
  rw [splitAtFirst_append_cons hline, splitAtFirst_append_cons hother] at hsplit
  exact Prod.mk.inj (Option.some.inj hsplit)

/-- A text is of one kind, and tells the signature before it and what is signed apart. -/
theorem chunkToSign_inj {previous other payload data : Bytes}
    (hprevious : newline ∉ previous) (hother : newline ∉ other)
    (h : chunkToSign crypto options previous payload = chunkToSign crypto options other data) :
    previous = other ∧ crypto.sha256Hex payload = crypto.sha256Hex data := by
  simp only [chunkToSign, List.append_assoc, List.append_cancel_left_eq, List.cons_append,
    List.cons.injEq, true_and] at h
  obtain ⟨rfl, hrest⟩ := line_inj hprevious hother h
  refine ⟨rfl, ?_⟩
  simpa only [List.append_cancel_left_eq, List.cons.injEq, true_and] using hrest

theorem trailerToSign_inj {previous other canonical text : Bytes}
    (hprevious : newline ∉ previous) (hother : newline ∉ other)
    (h : trailerToSign crypto options previous canonical = trailerToSign crypto options other text) :
    crypto.sha256Hex canonical = crypto.sha256Hex text := by
  simp only [trailerToSign, List.append_assoc, List.append_cancel_left_eq, List.cons_append,
    List.cons.injEq, true_and] at h
  exact (line_inj hprevious hother h).2

theorem chunkToSign_ne_trailerToSign (previous payload other canonical : Bytes) :
    chunkToSign crypto options previous payload ≠ trailerToSign crypto options other canonical := by
  intro h
  simp only [chunkToSign, trailerToSign, List.append_assoc, List.singleton_append] at h
  exact absurd (line_inj (by decide) (by decide) h).1 (by decide)

theorem chunkToSign_ne_stringToSign (previous payload amzDate scope hash : Bytes) :
    chunkToSign crypto options previous payload ≠ stringToSign amzDate scope hash := by
  intro h
  simp only [chunkToSign, stringToSign, List.append_assoc, List.singleton_append] at h
  exact absurd (line_inj (by decide) (by decide) h).1 (by decide)

theorem trailerToSign_ne_stringToSign (previous canonical amzDate scope hash : Bytes) :
    trailerToSign crypto options previous canonical ≠ stringToSign amzDate scope hash := by
  intro h
  simp only [trailerToSign, stringToSign, List.append_assoc, List.singleton_append] at h
  exact absurd (line_inj (by decide) (by decide) h).1 (by decide)

variable (hsealed : Sealed crypto options)

include hsealed

theorem newline_not_mem_signatureAfter (chunks : List Bytes) :
    newline ∉ signatureAfter crypto options chunks := by
  cases chunks using List.reverseRecOn with
  | nil =>
      obtain ⟨amzDate, scope, hash, hseed⟩ := hsealed.seed
      rw [signatureAfter, List.foldl_nil, hseed]
      exact newline_not_mem_sign _ _
  | append_singleton chunks payload =>
      rw [signatureAfter, List.foldl_append, List.foldl_cons, List.foldl_nil]
      exact newline_not_mem_sign _ _

/-- Chains of different chunks come to different signatures. -/
theorem signatureAfter_injective : Function.Injective (signatureAfter crypto options) := by
  intro chunks others hsame
  -- a chain is hex, so that the texts its links sign come apart
  suffices hall : ∀ chunks : List Bytes, signatureAfter crypto options chunks =
      chunks.foldl (fun (previous : {text : Bytes // newline ∉ text}) payload =>
        ⟨chainedSignature crypto options previous.1 payload, newline_not_mem_sign _ _⟩)
        ⟨options.seedSignature, newline_not_mem_signatureAfter hsealed []⟩ by
    refine foldl_injective ?_ ?_ (Subtype.ext ((hall chunks).symm.trans (hsame.trans (hall others))))
    · intro first second item other h
      have hsign := toHex_injective (congrArg Subtype.val h)
      obtain ⟨hprevious, hpayload⟩ := chunkToSign_inj first.2 second.2 (hsealed.hmac hsign)
      exact ⟨Subtype.ext hprevious, hsealed.sha256 hpayload⟩
    · intro state item h
      obtain ⟨amzDate, scope, hash, hseed⟩ := hsealed.seed
      have hsign := toHex_injective ((congrArg Subtype.val h).trans hseed)
      exact chunkToSign_ne_stringToSign _ _ _ _ _ (hsealed.hmac hsign)
  intro chunks
  induction chunks using List.reverseRecOn with
  | nil => rfl
  | append_singleton chunks payload ih =>
      rw [List.foldl_append, List.foldl_cons, List.foldl_nil, ← ih]
      simp only [signatureAfter, List.foldl_append, List.foldl_cons, List.foldl_nil]

end Chain

/-! ### What a body presents -/

section Chunks

variable {crypto : Crypto} {options : ChunkedOptions}

theorem suffix_of_chunkHeader {header field : Bytes} {size : Nat}
    (h : chunkHeader header = .ok (size, field)) : field <:+ header := by
  rw [chunkHeader] at h
  cases hsplit : splitAtFirst (letter ';') header with
  | none =>
      rw [hsplit] at h
      obtain ⟨_, -, h⟩ := Except.bind_eq_ok_iff.mp h
      obtain ⟨-, rfl⟩ := Prod.mk.inj (Except.pure_eq_ok_iff.mp h)
      exact List.nil_suffix
  | some fields =>
      obtain ⟨sizeField, extension⟩ := fields
      rw [hsplit] at h
      dsimp only at h
      by_cases hmarked : signaturePrefix <+: extension
      swap
      · rw [if_pos hmarked] at h
        cases h
      rw [if_neg (not_not.mpr hmarked)] at h
      obtain ⟨_, -, h⟩ := Except.bind_eq_ok_iff.mp h
      obtain ⟨-, rfl⟩ := Prod.mk.inj (Except.pure_eq_ok_iff.mp h)
      rw [(eq_of_splitAtFirst hsplit).1]
      exact (List.drop_suffix _ _).trans
        ((List.suffix_cons _ _).trans (List.suffix_append _ _))

/-- A signed chunk's signature goes on from the one before it, and stands in the body. -/
theorem signature_of_nextChunk (hsigned : options.verifySignatures = true) {count : Nat}
    {previous body payload signature rest : Bytes}
    (h : nextChunk crypto options count previous body = .ok (payload, signature, rest)) :
    signature = chainedSignature crypto options previous payload ∧
      signature <:+: toLowerText body ∧ rest <:+ body := by
  obtain ⟨⟨header, after⟩, hline, h⟩ := Except.bind_eq_ok_iff.mp h
  obtain ⟨⟨size, field⟩, hsize, h⟩ := Except.bind_eq_ok_iff.mp h
  have hbody := (takeLine_eq_ok_iff.mp hline).text_eq
  dsimp only at h hsize
  by_cases hunsigned : options.verifySignatures ∧ field = []
  · rw [if_pos hunsigned] at h
    cases h
  rw [if_neg hunsigned] at h
  by_cases hshort : after.length < size
  · rw [if_pos hshort] at h
    cases h
  rw [if_neg hshort] at h
  obtain ⟨kept, hkept, h⟩ := Except.bind_eq_ok_iff.mp h
  obtain ⟨rfl, rfl, rfl⟩ := by simpa using Except.pure_eq_ok_iff.mp h
  rw [checkChunkSignature, if_pos hsigned] at hkept
  dsimp only at hkept
  split_ifs at hkept with hequal
  obtain rfl := Except.ok.inj hkept
  refine ⟨rfl, ?_, ?_⟩
  · rw [(secureEquals_iff _ _).mp hequal, hbody, List.append_assoc]
    have hfield : field <:+: header ++ (crlf ++ after) :=
      (suffix_of_chunkHeader hsize).isInfix.trans (List.prefix_append _ _).isInfix
    exact hfield.map toLower
  · rw [hbody]
    exact (List.drop_suffix _ _).trans (List.suffix_append _ _)

/-- The chunks that decode are all under the signature the last of them carries. -/
theorem signature_of_decodeChunks (hsigned : options.verifySignatures = true) (room : Nat)
    {count : Nat} {previous body : Bytes} {delivered : List Bytes} {read : ChunksRead}
    (h : decodeChunks crypto options room count previous body = ⟨delivered, .ok read⟩) :
    read.signature = (delivered ++ [[]]).foldl (chainedSignature crypto options) previous ∧
      read.signature <:+: toLowerText body ∧ read.rest <:+ body := by
  induction room generalizing count previous body delivered with
  | zero => cases body <;> cases congrArg Delivery.outcome h
  | succ room ih =>
      cases body with
      | nil => cases congrArg Delivery.outcome h
      | cons byte bytes =>
          rw [decodeChunks] at h
          cases hnext : nextChunk crypto options (count + 1) previous (byte :: bytes) with
          | error error =>
              rw [hnext] at h
              cases congrArg Delivery.outcome h
          | ok next =>
              obtain ⟨payload, signature, rest⟩ := next
              obtain ⟨hchained, hstands, hrest⟩ := signature_of_nextChunk hsigned hnext
              rw [hnext] at h
              dsimp only at h
              by_cases hlast : payload = []
              · rw [if_pos hlast] at h
                obtain ⟨rfl, hread⟩ := Delivery.mk.inj h
                obtain rfl := Except.ok.inj hread
                refine ⟨by rw [hchained, hlast]; rfl, hstands, ?_⟩
                show afterFinalChunk rest <:+ _
                rw [afterFinalChunk]
                split_ifs
                · exact (List.drop_suffix _ _).trans hrest
                · exact hrest
              · rw [if_neg hlast] at h
                by_cases hend : rest.take 2 = crlf
                · rw [if_neg (not_not.mpr hend)] at h
                  obtain ⟨rfl, hread⟩ := Delivery.mk.inj h
                  obtain ⟨hsignature, hothers, hleft⟩ := ih (congrArg (Delivery.mk _) hread)
                  have hdrop : rest.drop 2 <:+ byte :: bytes := (List.drop_suffix _ _).trans hrest
                  refine ⟨?_, hothers.trans (hdrop.isInfix.map toLower), hleft.trans hdrop⟩
                  rw [hsignature, hchained]
                  rfl
                · rw [if_pos hend] at h
                  cases congrArg Delivery.outcome h

end Chunks

/-! ### Trailing headers -/

/-- The header on a line, unless it is the signature's. -/
def TrailingHeader.ofLine (line : Bytes) : Option TrailingHeader :=
  (splitAtFirst (letter ':') line).bind fun field =>
    if toLowerText (trim field.1) = ascii "x-amz-trailer-signature" then none
    else some ⟨field.1, field.2⟩

/-- The headers on lines, the signature apart. -/
def headersOn (lines : List Bytes) : List TrailingHeader := lines.filterMap TrailingHeader.ofLine

/-- The headers of a signed text, each ended by a line feed. -/
def readAtFeeds (text : Bytes) : Trailers :=
  ((text.splitOn newline).filterMap (splitAtFirst (letter ':'))).foldl
    (fun trailers field => trailers.emplace field.1 field.2) .empty

/-- The trailing headers of the body are the same whether their lines end at CRLF, as
they are read, or at a line feed, as they are signed. -/
def FeedsAgree (body : Bytes) : Prop :=
  ∀ chunks lines leftover, Reads body chunks lines leftover →
    trailerMap (headersOn lines) =
      readAtFeeds ((headersOn lines).flatMap TrailingHeader.canonical)

section Trailers

variable {line text : Bytes} {lines : List Bytes} {block : TrailerBlock} {header : TrailingHeader}

theorem isInfix_trim (text : Bytes) : trim text <:+: text :=
  (List.rdropWhile_prefix _ _).isInfix.trans (List.dropWhile_suffix _).isInfix

theorem add_of_ofLine (h : TrailingHeader.ofLine line = some header) :
    block.add line =
      { block with
        canonicalTrailers := block.canonicalTrailers ++ header.canonical
        trailers := header.keep block.trailers } := by
  rw [TrailingHeader.ofLine] at h
  cases hsplit : splitAtFirst (letter ':') line with
  | none =>
      rw [hsplit] at h
      cases h
  | some field =>
      rw [hsplit, Option.bind_some] at h
      split_ifs at h with hname
      obtain rfl := Option.some.inj h
      rw [TrailerBlock.add, hsplit]
      dsimp only
      rw [if_neg hname]
      simp only [TrailingHeader.canonical, List.append_assoc]
      rfl

theorem add_of_ofLine_eq_none (h : TrailingHeader.ofLine line = none) :
    (block.add line).trailers = block.trailers ∧
      (block.add line).canonicalTrailers = block.canonicalTrailers ∧
      ((block.add line).declaredSignature = block.declaredSignature ∨
        (block.add line).declaredSignature <:+: toLowerText line) := by
  rw [TrailingHeader.ofLine] at h
  cases hsplit : splitAtFirst (letter ':') line with
  | none =>
      rw [TrailerBlock.add, hsplit]
      exact ⟨rfl, rfl, .inl rfl⟩
  | some field =>
      rw [hsplit, Option.bind_some] at h
      split_ifs at h with hname
      rw [TrailerBlock.add, hsplit]
      dsimp only
      rw [if_pos hname]
      refine ⟨rfl, rfl, .inr ?_⟩
      have hvalue : field.2 <:+ line := by
        rw [(eq_of_splitAtFirst hsplit).1]
        exact (List.suffix_cons _ _).trans (List.suffix_append _ _)
      exact ((isInfix_trim field.2).trans hvalue.isInfix).map toLower

/-- What the loop over the lines leaves. -/
theorem foldl_add (lines : List Bytes) (block : TrailerBlock) :
    (lines.foldl TrailerBlock.add block).trailers =
        (headersOn lines).foldl TrailingHeader.keep block.trailers ∧
      (lines.foldl TrailerBlock.add block).canonicalTrailers =
        block.canonicalTrailers ++ (headersOn lines).flatMap TrailingHeader.canonical ∧
      ((lines.foldl TrailerBlock.add block).declaredSignature = block.declaredSignature ∨
        ∃ line ∈ lines,
          (lines.foldl TrailerBlock.add block).declaredSignature <:+: toLowerText line) := by
  induction lines generalizing block with
  | nil => exact ⟨rfl, (List.append_nil _).symm, .inl rfl⟩
  | cons line lines ih =>
      rw [List.foldl_cons]
      obtain ⟨htrailers, hcanonical, hdeclared⟩ := ih (block.add line)
      have hlater : ∀ {earlier : Bytes},
          ((block.add line).declaredSignature = earlier ∨
            (block.add line).declaredSignature <:+: toLowerText line) →
          (lines.foldl TrailerBlock.add (block.add line)).declaredSignature = earlier ∨
            ∃ other ∈ line :: lines,
              (lines.foldl TrailerBlock.add (block.add line)).declaredSignature <:+:
                toLowerText other := by
        intro earlier hfirst
        obtain hsame | ⟨other, hother, hstands⟩ := hdeclared
        · rw [hsame]
          exact hfirst.imp_right fun h => ⟨line, List.mem_cons_self, h⟩
        · exact .inr ⟨other, List.mem_cons_of_mem _ hother, hstands⟩
      cases hline : TrailingHeader.ofLine line with
      | none =>
          obtain ⟨hkept, htext, hsignature⟩ := @add_of_ofLine_eq_none line block hline
          rw [headersOn, List.filterMap_cons_none hline, ← hkept, ← htext]
          exact ⟨htrailers, hcanonical, hlater hsignature⟩
      | some header =>
          rw [headersOn, List.filterMap_cons_some hline, List.foldl_cons, List.flatMap_cons]
          have hadd := @add_of_ofLine line block header hline
          refine ⟨htrailers.trans (by rw [hadd]; rfl), hcanonical.trans ?_,
            hlater (.inl (by rw [hadd]))⟩
          rw [hadd, List.append_assoc]
          rfl

/-- A line stands in the text it was read from. -/
theorem Trailing.line_stands {leftover : Bytes} (h : Trailing text lines leftover) (hline : line ∈ lines) :
    line <:+: text := by
  induction h with
  | ended => cases hline
  | closed => cases hline
  | @line text first rest leftover lines hfirst nonempty colon others ih =>
      rw [hfirst.text_eq]
      rcases List.mem_cons.mp hline with rfl | hlater
      · exact ((List.prefix_append _ _).trans (List.prefix_append _ _)).isInfix
      · exact (ih hlater).trans (List.suffix_append _ _).isInfix

/-! ### Line feeds -/

theorem not_mem_toLowerText {byte : UInt8} (hbyte : ∀ other, toLower other = byte → other = byte)
    (h : byte ∉ text) : byte ∉ toLowerText text := by
  intro hmem
  obtain ⟨other, hother, hlower⟩ := List.mem_map.mp hmem
  exact h (hbyte other hlower ▸ hother)

theorem toLower_eq_newline (other : UInt8) : toLower other = newline → other = newline :=
  forall_byte_of_fin (P := fun other => toLower other = newline → other = newline)
    (by decide +kernel) other

theorem toLower_eq_colon (other : UInt8) : toLower other = letter ':' → other = letter ':' :=
  forall_byte_of_fin (P := fun other => toLower other = letter ':' → other = letter ':')
    (by decide +kernel) other

/-- Headers without line feeds are read where they end, from what is signed of them. -/
theorem readAtFeeds_canonical {headers : List TrailingHeader}
    (hname : ∀ header ∈ headers, letter ':' ∉ header.name)
    (hline : ∀ header ∈ headers, newline ∉ header.line) :
    readAtFeeds (headers.flatMap TrailingHeader.canonical) = trailerMap headers := by
  have hfields : ((headers.flatMap TrailingHeader.canonical).splitOn newline).filterMap
      (splitAtFirst (letter ':')) =
        headers.map fun header => (toLowerText (trim header.name), trim header.value) := by
    induction headers with
    | nil => rfl
    | cons header headers ih =>
        obtain ⟨hcolon, hnames⟩ := List.forall_mem_cons.mp hname
        obtain ⟨hplain, hlines⟩ := List.forall_mem_cons.mp hline
        rw [TrailingHeader.line, List.mem_append, List.mem_cons, not_or, not_or] at hplain
        have hkeptColon : letter ':' ∉ toLowerText (trim header.name) :=
          not_mem_toLowerText toLower_eq_colon fun h => hcolon ((isInfix_trim _).subset h)
        have hfeed : newline ∉ toLowerText (trim header.name) ++ letter ':' :: trim header.value := by
          rw [List.mem_append, List.mem_cons, not_or, not_or]
          exact ⟨not_mem_toLowerText toLower_eq_newline
            fun h => hplain.1 ((isInfix_trim _).subset h), by decide,
            fun h => hplain.2.2 ((isInfix_trim _).subset h)⟩
        have htext : (header :: headers).flatMap TrailingHeader.canonical =
            (toLowerText (trim header.name) ++ letter ':' :: trim header.value) ++
              newline :: headers.flatMap TrailingHeader.canonical := by
          rw [List.flatMap_cons, TrailingHeader.canonical]
          simp only [List.append_assoc, List.cons_append, List.nil_append]
        rw [htext, List.splitOn_append_cons_self_of_not_mem hfeed,
          List.filterMap_cons_some (splitAtFirst_append_cons hkeptColon _), ih hnames hlines]
        rfl
  rw [readAtFeeds, hfields, List.foldl_map]
  rfl

/-- A header on a line without a line feed has none. -/
theorem line_of_ofLine (h : TrailingHeader.ofLine line = some header) :
    letter ':' ∉ header.name ∧ header.line = line := by
  rw [TrailingHeader.ofLine] at h
  cases hsplit : splitAtFirst (letter ':') line with
  | none =>
      rw [hsplit] at h
      cases h
  | some field =>
      rw [hsplit, Option.bind_some] at h
      split_ifs at h
      obtain rfl := Option.some.inj h
      obtain ⟨hline, hcolon⟩ := eq_of_splitAtFirst hsplit
      exact ⟨hcolon, hline.symm⟩

/-- Where no trailing line holds a line feed, it makes no difference what ends them. -/
theorem feedsAgree_of_lines {body : Bytes}
    (h : ∀ chunks lines leftover, Reads body chunks lines leftover → ∀ line ∈ lines, newline ∉ line) :
    FeedsAgree body := by
  intro chunks lines leftover hreads
  have hheaders : ∀ header ∈ headersOn lines, letter ':' ∉ header.name ∧ newline ∉ header.line := by
    intro header hheader
    obtain ⟨line, hline, hof⟩ := List.mem_filterMap.mp hheader
    obtain ⟨hcolon, rfl⟩ := line_of_ofLine hof
    exact ⟨hcolon, h chunks lines leftover hreads _ hline⟩
  exact (readAtFeeds_canonical (fun header hheader => (hheaders header hheader).1)
    fun header hheader => (hheaders header hheader).2).symm

end Trailers

/-! ### Tamper evidence -/

section Evidence

variable (crypto : Crypto) (options : ChunkedOptions)

/-- What is delivered of a body are the chunks that were signed, all and in order, and
where the trailing headers are verified they are those that were signed. -/
def TamperEvident (upload : SignedUpload) (body : Bytes) : Prop :=
  ∀ delivered trailers, decode crypto options body = ⟨delivered, .ok trailers⟩ →
    delivered = upload.chunks ∧
      (options.expectTrailerSignature = true → upload.headers.map trailerMap = some trailers)

variable {crypto options} {upload : SignedUpload} {body : Bytes} {delivered : List Bytes}
  {trailers : Trailers}

variable (hsealed : Sealed crypto options)
  (hunforged : Unforged crypto options upload (toLowerText body))

include hsealed hunforged

/-- The last chunk's signature is enough to know them all. -/
theorem chunks_of_signature
    (hstands : signatureAfter crypto options (delivered ++ [[]]) <:+: toLowerText body) :
    delivered = upload.chunks := by
  have hlast : ∀ (front : List Bytes) (payload : Bytes),
      signatureAfter crypto options (front ++ [payload]) = sign crypto options.signingKey
        (chunkToSign crypto options (signatureAfter crypto options front) payload) := by
    intro front payload
    rw [signatureAfter, List.foldl_append]
    rfl
  have hissued := hunforged _ ⟨delivered, .inl ⟨[], rfl⟩⟩ (hlast delivered [] ▸ hstands)
  generalize hmessage : chunkToSign crypto options (signatureAfter crypto options delivered) [] =
    message at hissued
  cases hissued with
  | trailer h => exact absurd hmessage (chunkToSign_ne_trailerToSign _ _ _ _)
  | @chunk front payload h =>
      have hsame := congrArg (sign crypto options.signingKey) hmessage
      rw [← hlast, ← hlast] at hsame
      rw [← signatureAfter_injective hsealed hsame] at h
      rcases List.prefix_concat_iff.mp h with hwhole | hwithin
      · exact List.append_cancel_right hwhole
      · have hempty : [] ∈ upload.chunks := hwithin.subset (by simp)
        exact absurd rfl (upload.nonempty [] hempty)

/-- And the trailing headers' signature, to know what was signed of them. -/
theorem headers_of_signature {canonical : Bytes}
    (hstands : trailerSignature crypto options.signingKey options.amzDate options.scope
      (signatureAfter crypto options (delivered ++ [[]])) (crypto.sha256Hex canonical) <:+:
        toLowerText body) :
    ∃ listed, upload.headers = some listed ∧ canonical = listed.flatMap TrailingHeader.canonical := by
  have hissued := hunforged (trailerToSign crypto options
    (signatureAfter crypto options (delivered ++ [[]])) canonical) ⟨_, .inr ⟨canonical, rfl⟩⟩ hstands
  generalize hmessage : trailerToSign crypto options
    (signatureAfter crypto options (delivered ++ [[]])) canonical = message at hissued
  cases hissued with
  | chunk h => exact absurd hmessage.symm (chunkToSign_ne_trailerToSign _ _ _ _)
  | @trailer listed h =>
      exact ⟨listed, h, hsealed.sha256 (trailerToSign_inj
        (newline_not_mem_signatureAfter hsealed _) (newline_not_mem_signatureAfter hsealed _) hmessage)⟩

/-- What a body that decodes presents: the chunks that were signed, and trailing headers
of which the same was signed. -/
theorem presented_of_decode (hsigned : options.verifySignatures = true)
    (h : decode crypto options body = ⟨delivered, .ok trailers⟩) :
    delivered = upload.chunks ∧ ∃ lines leftover, Reads body delivered lines leftover ∧
      trailers = trailerMap (headersOn lines) ∧
      (options.expectTrailerSignature = true → ∃ listed, upload.headers = some listed ∧
        (headersOn lines).flatMap TrailingHeader.canonical =
          listed.flatMap TrailingHeader.canonical) := by
  obtain ⟨hdelivered, houtcome⟩ := Delivery.mk.inj h
  obtain ⟨read, hread, hfinish⟩ := Except.bind_eq_ok_iff.mp houtcome
  have hchunks : decodeChunks crypto options kMaxChunks 0 options.seedSignature body =
      ⟨delivered, .ok read⟩ := by rw [← hdelivered, ← hread]
  obtain ⟨hchain, hstands, hrest⟩ := signature_of_decodeChunks hsigned kMaxChunks hchunks
  have hsignature : read.signature = signatureAfter crypto options (delivered ++ [[]]) := hchain
  rw [hsignature] at hstands
  rw [hdelivered] at hfinish
  obtain ⟨block, hblock, hfinish⟩ := Except.bind_eq_ok_iff.mp hfinish
  obtain ⟨_, hverified, hfinish⟩ := Except.bind_eq_ok_iff.mp hfinish
  obtain ⟨lines, leftover, htrailing, hlines⟩ := trailing_of_readTrailers _ (le_refl _) hblock
  obtain ⟨hmap, hcanonical, hdeclared⟩ := foldl_add lines {}
  rw [← hlines] at hmap hcanonical hdeclared
  refine ⟨chunks_of_signature hsealed hunforged hstands, lines, leftover,
    ⟨read.rest, framed_of_decodeChunks kMaxChunks hchunks, htrailing⟩, ?_, fun hexpects => ?_⟩
  · by_cases hlength : options.declaredLength ≠ 0 ∧
        deliveredLength delivered ≠ options.declaredLength.toNat
    · rw [if_pos hlength] at hfinish
      cases hfinish
    · rw [if_neg hlength] at hfinish
      exact (Except.pure_eq_ok_iff.mp hfinish).symm.trans hmap
  · rw [checkTrailerSignature, if_pos ⟨hsigned, hexpects⟩] at hverified
    by_cases hmissing : block.declaredSignature = []
    · rw [if_pos hmissing] at hverified
      cases hverified
    rw [if_neg hmissing] at hverified
    dsimp only at hverified
    split_ifs at hverified with hequal
    obtain ⟨line, hline, hin⟩ := hdeclared.resolve_left hmissing
    have hbody : block.declaredSignature <:+: toLowerText body :=
      hin.trans (((htrailing.line_stands hline).trans hrest.isInfix).map toLower)
    rw [← (secureEquals_iff _ _).mp hequal, hsignature, hcanonical] at hbody
    exact headers_of_signature hsealed hunforged hbody

/-- A body that decodes delivers what was signed, and its trailing headers are those that
were signed exactly when it makes no difference to them whether a line feed ends a line. -/
theorem tamperEvident_iff (hsigned : options.verifySignatures = true) :
    ((options.expectTrailerSignature = true → FeedsAgree body) →
        TamperEvident crypto options upload body) ∧
      ((decode crypto options body).outcome.isOk → TamperEvident crypto options upload body →
        options.expectTrailerSignature = true → FeedsAgree body) := by
  have hsame : ∀ {listed : List TrailingHeader}, upload.headers = some listed →
      readAtFeeds (listed.flatMap TrailingHeader.canonical) = trailerMap listed :=
    fun hlisted => readAtFeeds_canonical (upload.names_end _ hlisted) (upload.one_line _ hlisted)
  constructor
  · intro hagree delivered trailers hdecode
    obtain ⟨hchunks, lines, leftover, hreads, rfl, hheaders⟩ :=
      presented_of_decode hsealed hunforged hsigned hdecode
    refine ⟨hchunks, fun hexpects => ?_⟩
    obtain ⟨listed, hlisted, hcanonical⟩ := hheaders hexpects
    rw [hlisted, hagree hexpects _ _ _ hreads, hcanonical, hsame hlisted]
    rfl
  · intro haccepted hevident hexpects chunks others tail hothers
    rcases hresult : decode crypto options body with ⟨delivered, error | trailers⟩
    · rw [hresult] at haccepted
      cases haccepted
    · obtain ⟨-, lines, leftover, hreads, htrailers, hheaders⟩ :=
        presented_of_decode hsealed hunforged hsigned hresult
      obtain ⟨-, rfl, -⟩ := hreads.unique hothers
      obtain ⟨listed, hlisted, hcanonical⟩ := hheaders hexpects
      have hmap := (hevident delivered trailers hresult).2 hexpects
      rw [hlisted] at hmap
      rw [← htrailers, hcanonical, hsame hlisted]
      exact (Option.some.inj hmap).symm

end Evidence

/-! ### Fixed bodies -/

section Fixed

/-- A digest that is right for the texts of a table and tells all others apart. -/
def tabled (table : List (Bytes × Bytes)) (text : Bytes) : Bytes :=
  match table.find? fun entry => entry.1 = text with
  | some entry => entry.2
  | none => List.replicate 33 0 ++ text

theorem tabled_injective {table : List (Bytes × Bytes)} (hnodup : (table.map Prod.snd).Nodup)
    (hlength : ∀ entry ∈ table, entry.2.length = 32) : Function.Injective (tabled table) := by
  intro first second h
  rw [tabled, tabled] at h
  cases hfirst : table.find? fun entry => entry.1 = first with
  | none =>
      cases hsecond : table.find? fun entry => entry.1 = second with
      | none =>
          rw [hfirst, hsecond] at h
          exact List.append_cancel_left h
      | some other =>
          rw [hfirst, hsecond] at h
          have hother := hlength other (List.mem_of_find?_eq_some hsecond)
          have hlong := congrArg List.length h
          dsimp only at hlong
          rw [hother, List.length_append, List.length_replicate] at hlong
          omega
  | some entry =>
      have hentry := hlength entry (List.mem_of_find?_eq_some hfirst)
      cases hsecond : table.find? fun entry => entry.1 = second with
      | none =>
          rw [hfirst, hsecond] at h
          have hlong := congrArg List.length h
          dsimp only at hlong
          rw [hentry, List.length_append, List.length_replicate] at hlong
          omega
      | some other =>
          rw [hfirst, hsecond] at h
          obtain rfl := List.inj_on_of_nodup_map hnodup (List.mem_of_find?_eq_some hfirst)
            (List.mem_of_find?_eq_some hsecond) h
          have hone : entry.1 = first := by simpa using List.find?_some hfirst
          have htwo : entry.1 = second := by simpa using List.find?_some hsecond
          exact hone.symm.trans htwo

/-- Two headers that are signed. -/
def twoHeaders : List TrailingHeader := [⟨ascii "a", ascii "1"⟩, ⟨ascii "b", ascii "2"⟩]

/-- The same text as one header. -/
def oneHeader : List TrailingHeader := [⟨ascii "a", ascii "1" ++ newline :: ascii "b:2"⟩]

def chunkDigest : Bytes :=
  ascii "ba7816bf8f01cfea414140de5dae2223b00361a396177a9cb410ff61f20015ad"

def headersDigest : Bytes :=
  ascii "6408fdc5c36df5df57957e7b230e4b48c55b06ce849303e855d52f1356f2980e"

/-- SHA-256 of nothing and of what is signed. -/
def digestTable : List (Bytes × Bytes) :=
  [([], unhex kEmptySha256), (ascii "abc", unhex chunkDigest),
    (twoHeaders.flatMap TrailingHeader.canonical, unhex headersDigest)]

def dayOptions : ChunkedOptions where
  verifySignatures := true
  signingKey := List.replicate 32 0
  amzDate := ascii "20260101T000000Z"
  scope := ascii "20260101/us-east-1/s3/aws4_request"
  seedSignature := ascii "1d203d6a778722af69ce33bb1225ede2c77e52d02d3c405ae06422ef82034ae4"
  expectTrailerSignature := true

def chunkSigned : Bytes :=
  ascii "ed955c23fd92f70c09aa9562ae87550b405d254ff540650cc1ab7ab1d119e72d"

def lastSigned : Bytes :=
  ascii "542bb44d810d5271193f5cf3f878636b48e0d3ead4c41d504af3b4bb21de101b"

def headersSigned : Bytes :=
  ascii "46a411acae193e5b8b9393de2b83165866df302143888702ad66a48a9a53b781"

/-- HMACs of a request, of its chunk, of the empty one, and of its headers. -/
def signedTexts : List (Bytes × Bytes) :=
  let digesting (digest : Bytes) : Crypto := ⟨fun _ => digest, fun _ text => text⟩
  [(stringToSign dayOptions.amzDate dayOptions.scope kEmptySha256, unhex dayOptions.seedSignature),
    (chunkToSign (digesting chunkDigest) dayOptions dayOptions.seedSignature [], unhex chunkSigned),
    (chunkToSign (digesting kEmptySha256) dayOptions chunkSigned [], unhex lastSigned),
    (trailerToSign (digesting headersDigest) dayOptions lastSigned [], unhex headersSigned)]

def dayCrypto : Crypto where
  sha256Hex text := toHex (tabled digestTable text)
  hmacSha256 _ text := tabled signedTexts text

def dayUpload : SignedUpload where
  chunks := [ascii "abc"]
  headers := some twoHeaders
  nonempty := by decide
  names_end := by decide
  one_line := by decide

theorem sealed_dayCrypto : Sealed dayCrypto dayOptions where
  sha256 := toHex_injective.comp (tabled_injective (by decide +kernel) (by decide +kernel))
  hmac := tabled_injective (by decide +kernel) (by decide +kernel)
  seed := ⟨dayOptions.amzDate, dayOptions.scope, kEmptySha256, by decide +kernel⟩

/-- A text without long runs of zeros holds no signature but those of the table. -/
theorem unforged_dayCrypto {text : Bytes} (h : text.count 0x30 < 66) :
    Unforged dayCrypto dayOptions dayUpload text := by
  intro message hgoesOn hstands
  have hsign : sign dayCrypto dayOptions.signingKey message = toHex (tabled signedTexts message) := rfl
  rw [hsign, tabled] at hstands
  cases hfound : signedTexts.find? fun entry => entry.1 = message with
  | none =>
      rw [hfound] at hstands
      have hzeros : List.replicate 66 0x30 <:+: text := by
        refine List.IsInfix.trans ?_ hstands
        have happend : toHex (List.replicate 33 0 ++ message) =
            toHex (List.replicate 33 0) ++ toHex message := List.flatMap_append
        dsimp only
        rw [happend]
        exact (List.prefix_append (List.replicate 66 0x30) _).isInfix
      have hcount := hzeros.sublist.count_le (0x30 : UInt8)
      rw [List.count_replicate_self] at hcount
      omega
  | some entry =>
      have hmem := List.mem_of_find?_eq_some hfound
      obtain rfl : entry.1 = message := by simpa using List.find?_some hfound
      have hkinds : ∀ entry ∈ signedTexts,
          entry.1 = stringToSign dayOptions.amzDate dayOptions.scope kEmptySha256 ∨
          entry.1 = chunkToSign dayCrypto dayOptions (signatureAfter dayCrypto dayOptions [])
            (ascii "abc") ∨
          entry.1 = chunkToSign dayCrypto dayOptions
            (signatureAfter dayCrypto dayOptions [ascii "abc"]) [] ∨
          entry.1 = trailerToSign dayCrypto dayOptions
            (signatureAfter dayCrypto dayOptions [ascii "abc", []])
            (twoHeaders.flatMap TrailingHeader.canonical) := by
        decide +kernel
      obtain hrequest | hchunk | hlast | htrailer := hkinds entry hmem
      · obtain ⟨chunks, ⟨payload, hchunk⟩ | ⟨canonical, htrailer⟩⟩ := hgoesOn
        · exact absurd (hchunk.symm.trans hrequest) (chunkToSign_ne_stringToSign _ _ _ _ _)
        · exact absurd (htrailer.symm.trans hrequest) (trailerToSign_ne_stringToSign _ _ _ _ _)
      · rw [hchunk]
        exact .chunk (List.prefix_append [ascii "abc"] [[]])
      · rw [hlast]
        exact .chunk (List.prefix_refl _)
      · rw [htrailer]
        exact .trailer rfl

/-- The signed chunk and the empty one, with lines of headers before their signature. -/
def bodyWith (headerLines : Bytes) : Bytes :=
  ascii "3;chunk-signature=" ++ chunkSigned ++ crlf ++ ascii "abc" ++ crlf ++
    ascii "0;chunk-signature=" ++ lastSigned ++ crlf ++ headerLines ++
    ascii "x-amz-trailer-signature:" ++ headersSigned ++ crlf ++ crlf

/-- What the holder of the key sends. -/
def sentBody : Bytes := bodyWith (ascii "a:1" ++ crlf ++ ascii "b:2" ++ crlf)

/-- What comes of it when the first header's line loses its carriage return. -/
def mergedBody : Bytes := bodyWith (ascii "a:1" ++ newline :: ascii "b:2" ++ crlf)

theorem fewZeros_dayBodies :
    (toLowerText sentBody).count 0x30 < 66 ∧ (toLowerText mergedBody).count 0x30 < 66 := by
  decide +kernel

/-- What a decoded body came to, with what its trailing headers are bound to. -/
theorem decode_dayBodies :
    ((decode dayCrypto dayOptions sentBody).delivered = dayUpload.chunks ∧
        (decode dayCrypto dayOptions sentBody).outcome.toOption.map OrderedMap.entries =
          some (trailerMap twoHeaders).entries) ∧
      (decode dayCrypto dayOptions mergedBody).outcome.toOption.map OrderedMap.entries =
        some (trailerMap oneHeader).entries := by
  decide +kernel

/-- Sent as it was signed, the body decodes to what was signed. -/
theorem tamperEvident_sentBody : TamperEvident dayCrypto dayOptions dayUpload sentBody := by
  intro delivered trailers hdecode
  obtain ⟨hdelivered, hentries⟩ := decode_dayBodies.1
  rw [hdecode] at hdelivered hentries
  obtain ⟨entries, ordered⟩ := trailers
  obtain rfl : entries = (trailerMap twoHeaders).entries := Option.some.inj hentries
  exact ⟨hdelivered, fun _ => rfl⟩

theorem feedsAgree_sentBody :
    TamperEvident dayCrypto dayOptions dayUpload sentBody ∧ FeedsAgree sentBody := by
  have haccepted : (decode dayCrypto dayOptions sentBody).outcome.isOk := by
    have hentries := decode_dayBodies.1.2
    rcases hresult : decode dayCrypto dayOptions sentBody with ⟨delivered, error | trailers⟩
    · rw [hresult] at hentries
      cases hentries
    · rfl
  exact ⟨tamperEvident_sentBody,
    (tamperEvident_iff sealed_dayCrypto (unforged_dayCrypto fewZeros_dayBodies.1) rfl).2 haccepted
      tamperEvident_sentBody rfl⟩

/-- The two headers arrive as one, under the signature of the two. -/
theorem two_headers_merged :
    Sealed dayCrypto dayOptions ∧
      Unforged dayCrypto dayOptions dayUpload (toLowerText mergedBody) ∧
      ¬ TamperEvident dayCrypto dayOptions dayUpload mergedBody := by
  refine ⟨sealed_dayCrypto, unforged_dayCrypto fewZeros_dayBodies.2, fun hevident => ?_⟩
  have hread := decode_dayBodies.2
  rcases hresult : decode dayCrypto dayOptions mergedBody with ⟨delivered, error | trailers⟩
  · rw [hresult] at hread
    cases hread
  · rw [hresult] at hread
    have hsigned := (hevident delivered trailers hresult).2 rfl
    have hentries := congrArg (Option.map OrderedMap.entries) hsigned
    exact absurd (hentries.trans hread) (by decide +kernel)

end Fixed

end MonoBucket.S3
