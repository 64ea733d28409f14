/-
The document of a page, and what a client reads off it

The document of a listing is that of a list of leaves, then an element for each object and
one for each common prefix. A client takes the names from these, decoded when it asked for
them encoded, and what it goes on from out of the leaves.
-/

import MonoBucket.S3.ChecksumRoundTrip
import MonoBucket.Server.ListObjects

namespace MonoBucket.FrontDoors

open S3 Codec Xml

/-! ### Reading a page -/

/-- The text of the first child of a name, as it stands. -/
def textOf (node : XmlNode) (childName : Bytes) : Bytes :=
  ((node.child? childName).map XmlNode.text).getD []

def decodeListingValue (text : Bytes) (urlEncode : Bool) : Bytes :=
  if urlEncode then uriDecode text else text

/-- What a client reads off a page: the names, and what to ask for the next page with. -/
structure ClientPage where
  keys : List Bytes
  commonPrefixes : List Bytes
  next : Option Bytes
  deriving DecidableEq

def namesOf (root : XmlNode) (element child : Bytes) (urlEncode : Bool) : List Bytes :=
  (root.childrenNamed element).map fun node => decodeListingValue (textOf node child) urlEncode

def readListing (version2 urlEncode : Bool) (document : Bytes) : Option ClientPage :=
  match parseDocument document with
  | .error _ => none
  | .ok root =>
    if root.name = ascii "ListBucketResult" then
      some
        { keys := namesOf root (ascii "Contents") (ascii "Key") urlEncode
          commonPrefixes := namesOf root (ascii "CommonPrefixes") (ascii "Prefix") urlEncode
          next :=
            if textOf root (ascii "IsTruncated") = ascii "true" then
              some (if version2 then textOf root (ascii "NextContinuationToken")
                else decodeListingValue (textOf root (ascii "NextMarker")) urlEncode)
            else none }
    else none

/-! ### The document as trees -/

section Trees

variable (account : Account) (request : S3Request) (version2 urlEncode : Bool)

def fieldTree (field : Bytes × Bytes) : Tree := .leaf field.1 field.2

def ownerTree : Tree :=
  .branch (ascii "Owner")
    [.leaf (ascii "ID") (ownerId account), .leaf (ascii "DisplayName") account.rootAccessKey]

def contentsTree (fetchOwner : Bool) (object : ObjectRecord) : Tree :=
  .branch (ascii "Contents")
    (.leaf (ascii "Key") (encodeListingValue object.key urlEncode) ::
      [.leaf (ascii "LastModified") (toIso8601 object.lastModified),
        .leaf (ascii "ETag") (quoteETag object.etag.items),
        .leaf (ascii "Size") (decimal object.size.toNat),
        .leaf (ascii "StorageClass") kStorageClass] ++
      (if fetchOwner then [ownerTree account] else []))

def commonPrefixTree (commonPrefix : Bytes) : Tree :=
  .branch (ascii "CommonPrefixes")
    [.leaf (ascii "Prefix") (encodeListingValue commonPrefix urlEncode)]

def fieldIfSet (name text : Bytes) : List (Bytes × Bytes) := if text = [] then [] else [(name, text)]

/-- The leaves in front of the one that says whether there is more. -/
def frontFields (query : ListObjectsRequest) : List (Bytes × Bytes) :=
  [(ascii "Name", request.bucket), (ascii "Prefix", encodeListingValue query.keyPrefix urlEncode)] ++
  (if version2 then
    fieldIfSet (ascii "ContinuationToken") (queryOr request (ascii "continuation-token")) ++
    fieldIfSet (ascii "StartAfter")
      (encodeListingValue (queryOr request (ascii "start-after")) urlEncode)
  else [(ascii "Marker", encodeListingValue (queryOr request (ascii "marker")) urlEncode)]) ++
  [(ascii "MaxKeys", decimal query.maxKeys.toNat)] ++
  fieldIfSet (ascii "Delimiter") (encodeListingValue query.delimiter urlEncode) ++
  (if urlEncode then [(ascii "EncodingType", ascii "url")] else [])

def nextFields (result : ListObjectsResult) : List (Bytes × Bytes) :=
  if version2 then
    (ascii "KeyCount", decimal (result.objects.length + result.commonPrefixes.length)) ::
    (if result.truncated then
      [(ascii "NextContinuationToken", encodeContinuation result.nextStartAfter)] else [])
  else if result.truncated then
    [(ascii "NextMarker", encodeListingValue result.nextStartAfter urlEncode)]
  else []

def listingFields (query : ListObjectsRequest) (result : ListObjectsResult) : List (Bytes × Bytes) :=
  frontFields request version2 urlEncode query ++
    (ascii "IsTruncated", if result.truncated then ascii "true" else ascii "false") ::
      nextFields version2 urlEncode result

def listingTrees (fetchOwner : Bool) (query : ListObjectsRequest) (result : ListObjectsResult) :
    List Tree :=
  (listingFields request version2 urlEncode query result).map fieldTree ++
    (result.objects.map (contentsTree account urlEncode fetchOwner) ++
      result.commonPrefixes.map (commonPrefixTree urlEncode))

/-- The calls that write leaves. -/
def fieldCall (field : Bytes × Bytes) : WriterCall := .element field.1 field.2

theorem allCalls_fields (fields : List (Bytes × Bytes)) :
    Tree.allCalls (fields.map fieldTree) = fields.map fieldCall := by
  induction fields with
  | nil => rfl
  | cons field fields ih => rw [List.map_cons, Tree.allCalls, ih]; rfl

theorem allCalls_map {α : Type} {tree : α → Tree} (calls : α → List WriterCall)
    (h : ∀ item, calls item = (tree item).calls) (items : List α) :
    Tree.allCalls (items.map tree) = items.flatMap calls := by
  induction items with
  | nil => rfl
  | cons item items ih => rw [List.map_cons, Tree.allCalls, ih, List.flatMap_cons, h]

theorem writeContents_eq (fetchOwner : Bool) (object : ObjectRecord) :
    writeContents account urlEncode fetchOwner object =
      (contentsTree account urlEncode fetchOwner object).calls := by
  cases fetchOwner <;> rfl

theorem elementIfSet_eq (name text : Bytes) :
    elementIfSet name text = (fieldIfSet name text).map fieldCall := by
  rw [elementIfSet, fieldIfSet]
  split_ifs <;> rfl

theorem writeNext_eq (result : ListObjectsResult) :
    writeNext version2 urlEncode result = (nextFields version2 urlEncode result).map fieldCall := by
  rw [writeNext, nextFields]
  cases version2 <;> cases result.truncated <;> rfl

/-- The calls of the handler are those of the trees. -/
theorem writeListing_eq (query : ListObjectsRequest) (result : ListObjectsResult) :
    writeListing account request version2 urlEncode query result =
      Tree.allCalls (listingTrees account request version2 urlEncode
        (!version2 || queryOr request (ascii "fetch-owner") = ascii "true") query result) := by
  have hfront : ∀ query : ListObjectsRequest,
      (frontFields request version2 urlEncode query).map fieldCall =
        [.element (ascii "Name") request.bucket,
          .element (ascii "Prefix") (encodeListingValue query.keyPrefix urlEncode)] ++
        (if version2 then
          elementIfSet (ascii "ContinuationToken") (queryOr request (ascii "continuation-token")) ++
          elementIfSet (ascii "StartAfter")
            (encodeListingValue (queryOr request (ascii "start-after")) urlEncode)
        else
          [.element (ascii "Marker")
            (encodeListingValue (queryOr request (ascii "marker")) urlEncode)]) ++
        [.element (ascii "MaxKeys") (decimal query.maxKeys.toNat)] ++
        elementIfSet (ascii "Delimiter") (encodeListingValue query.delimiter urlEncode) ++
        (if urlEncode then [.element (ascii "EncodingType") (ascii "url")] else []) := by
    intro query
    rw [elementIfSet_eq, elementIfSet_eq, elementIfSet_eq, frontFields]
    simp only [List.map_append]
    cases version2 <;> cases urlEncode <;> simp [fieldCall]
  rw [listingTrees, Tree.allCalls_append, Tree.allCalls_append, allCalls_fields,
    allCalls_map _ (writeContents_eq account urlEncode _),
    allCalls_map (writeCommonPrefix urlEncode) (fun _ => rfl), listingFields,
    List.map_append, hfront, List.map_cons, writeListing, writeNext_eq, booleanElement]
  simp only [List.append_assoc, List.cons_append, List.nil_append, fieldCall]

/-! ### Names and sizes -/

def frontNames : List Bytes :=
  [ascii "Name", ascii "Prefix", ascii "ContinuationToken", ascii "StartAfter", ascii "Marker",
    ascii "MaxKeys", ascii "Delimiter", ascii "EncodingType"]

def nextNames : List Bytes :=
  [ascii "KeyCount", ascii "NextContinuationToken", ascii "NextMarker"]

theorem fieldIfSet_subset {name text : Bytes} {names : List Bytes} (hname : name ∈ names) :
    ∀ field ∈ fieldIfSet name text, field.1 ∈ names := by
  intro field hfield
  rw [fieldIfSet] at hfield
  split_ifs at hfield
  · cases hfield
  · rwa [List.mem_singleton.mp hfield]

theorem name_of_mem_frontFields {query : ListObjectsRequest} :
    ∀ field ∈ frontFields request version2 urlEncode query, field.1 ∈ frontNames := by
  intro field hfield
  simp only [frontFields, List.mem_append] at hfield
  rcases hfield with ((((hnames | hmarker) | hmost) | hdelimiter) | hencoding)
  · rcases List.mem_cons.mp hnames with rfl | hcommon
    · exact List.mem_cons_self ..
    · rw [List.mem_singleton.mp hcommon]
      exact List.mem_cons_of_mem _ (List.mem_cons_self ..)
  · cases version2 with
    | true =>
        rcases List.mem_append.mp hmarker with htoken | hstart
        · exact fieldIfSet_subset (by decide) field htoken
        · exact fieldIfSet_subset (by decide) field hstart
    | false =>
        rw [List.mem_singleton.mp hmarker]
        exact of_decide_eq_true rfl
  · rw [List.mem_singleton.mp hmost]
    exact of_decide_eq_true rfl
  · exact fieldIfSet_subset (by decide) field hdelimiter
  · cases urlEncode with
    | true =>
        rw [List.mem_singleton.mp hencoding]
        exact of_decide_eq_true rfl
    | false => cases hencoding

theorem name_of_mem_nextFields {result : ListObjectsResult} :
    ∀ field ∈ nextFields version2 urlEncode result, field.1 ∈ nextNames := by
  intro field hfield
  have hsome : field.1 = ascii "KeyCount" ∨ field.1 = ascii "NextContinuationToken" ∨
      field.1 = ascii "NextMarker" := by
    rw [nextFields] at hfield
    split_ifs at hfield <;> simp only [List.mem_cons, List.not_mem_nil, or_false] at hfield
    · rcases hfield with rfl | rfl
      · exact .inl rfl
      · exact .inr (.inl rfl)
    · exact .inl (congrArg Prod.fst hfield)
    · exact .inr (.inr (congrArg Prod.fst hfield))
  rcases hsome with hname | hname | hname <;> rw [hname] <;> exact of_decide_eq_true rfl

theorem name_of_mem_listingFields {query : ListObjectsRequest} {result : ListObjectsResult} :
    ∀ field ∈ listingFields request version2 urlEncode query result,
      field.1 ∈ frontNames ++ (ascii "IsTruncated" :: nextNames) := by
  intro field hfield
  rcases List.mem_append.mp hfield with hfront | hbehind
  · exact List.mem_append_left _ (name_of_mem_frontFields request version2 urlEncode field hfront)
  · apply List.mem_append_right
    rcases List.mem_cons.mp hbehind with rfl | hnext
    · exact List.mem_cons_self ..
    · exact List.mem_cons_of_mem _ (name_of_mem_nextFields version2 urlEncode field hnext)

theorem length_fieldIfSet_le (name text : Bytes) : (fieldIfSet name text).length ≤ 1 := by
  rw [fieldIfSet]
  split_ifs
  · exact Nat.zero_le _
  · exact le_rfl

theorem length_listingFields_le (query : ListObjectsRequest) (result : ListObjectsResult) :
    (listingFields request version2 urlEncode query result).length ≤ 10 := by
  have hdelimiter := length_fieldIfSet_le (ascii "Delimiter")
    (encodeListingValue query.delimiter urlEncode)
  have htoken := length_fieldIfSet_le (ascii "ContinuationToken")
    (queryOr request (ascii "continuation-token"))
  have hstart := length_fieldIfSet_le (ascii "StartAfter")
    (encodeListingValue (queryOr request (ascii "start-after")) urlEncode)
  rw [listingFields, frontFields, nextFields]
  simp only [List.length_append, List.length_cons, List.length_nil]
  cases version2 <;> cases urlEncode <;> cases result.truncated <;>
    simp only [Bool.false_eq_true, if_true, if_false, List.length_append, List.length_cons,
      List.length_nil] at hstart ⊢ <;> omega

variable (fetchOwner : Bool)

/-- Each field has a legal name, and not one that the reader looks for elsewhere. -/
theorem fieldNames :
    (∀ name ∈ frontNames ++ (ascii "IsTruncated" :: nextNames),
      isName name ∧ name ≠ ascii "Contents" ∧ name ≠ ascii "CommonPrefixes") ∧
    ∀ name ∈ frontNames, name ≠ ascii "IsTruncated" ∧ name ≠ ascii "NextContinuationToken" ∧
      name ≠ ascii "NextMarker" := by
  decide +kernel

theorem named_listingTrees (query : ListObjectsRequest) (result : ListObjectsResult) :
    Tree.allNamed (listingTrees account request version2 urlEncode fetchOwner query result) := by
  rw [Tree.allNamed_iff]
  intro tree htree
  rw [listingTrees, List.mem_append, List.mem_append] at htree
  rcases htree with hfield | hobject | hcommon
  · obtain ⟨field, hmem, rfl⟩ := List.mem_map.mp hfield
    exact (fieldNames.1 _ (name_of_mem_listingFields request version2 urlEncode field hmem)).1
  · obtain ⟨object, -, rfl⟩ := List.mem_map.mp hobject
    cases fetchOwner <;> rfl
  · obtain ⟨commonPrefix, -, rfl⟩ := List.mem_map.mp hcommon
    rfl

theorem depths_listingTrees (query : ListObjectsRequest) (result : ListObjectsResult) :
    Tree.depths (listingTrees account request version2 urlEncode fetchOwner query result) ≤ 3 := by
  apply Tree.depths_le
  intro tree htree
  rw [listingTrees, List.mem_append, List.mem_append] at htree
  rcases htree with hfield | hobject | hcommon
  · obtain ⟨field, -, rfl⟩ := List.mem_map.mp hfield
    exact of_decide_eq_true rfl
  · obtain ⟨object, -, rfl⟩ := List.mem_map.mp hobject
    cases fetchOwner <;> exact of_decide_eq_true rfl
  · obtain ⟨commonPrefix, -, rfl⟩ := List.mem_map.mp hcommon
    exact of_decide_eq_true rfl

theorem sum_map_le {α : Type} {items : List α} {size : α → Nat} {bound : Nat}
    (h : ∀ item, size item ≤ bound) : (items.map size).sum ≤ items.length * bound := by
  have hsum := List.sum_le_card_nsmul (items.map size) bound
    (fun value hvalue => by obtain ⟨item, -, rfl⟩ := List.mem_map.mp hvalue; exact h item)
  rwa [List.length_map, smul_eq_mul] at hsum

theorem sizes_listingTrees (query : ListObjectsRequest) (result : ListObjectsResult) :
    Tree.sizes (listingTrees account request version2 urlEncode fetchOwner query result) ≤
      10 + 9 * (result.objects.length + result.commonPrefixes.length) := by
  have hfields := length_listingFields_le request version2 urlEncode query result
  have hcontents : (result.objects.map
      (Tree.size ∘ contentsTree account urlEncode fetchOwner)).sum ≤ result.objects.length * 9 := by
    apply sum_map_le
    intro object
    cases fetchOwner <;> exact of_decide_eq_true rfl
  have hprefixes : (result.commonPrefixes.map (Tree.size ∘ commonPrefixTree urlEncode)).sum ≤
      result.commonPrefixes.length * 2 := sum_map_le fun _ => le_rfl
  have hleaves : ((listingFields request version2 urlEncode query result).map
      (Tree.size ∘ fieldTree)).sum ≤ (listingFields request version2 urlEncode query result).length * 1 :=
    sum_map_le fun _ => le_rfl
  rw [Tree.sizes_eq_sum, listingTrees, List.map_append, List.map_append, List.sum_append,
    List.sum_append, List.map_map, List.map_map, List.map_map]
  omega

/-! ### The page as it is read -/

/-- The root element of a page. -/
def pageRoot (query : ListObjectsRequest) (result : ListObjectsResult) : XmlNode :=
  (Tree.branch (ascii "ListBucketResult")
    (Tree.allCarried (listingTrees account request version2 urlEncode fetchOwner query result))).node 0

/-- The document of a page is read, and its root is the page's. -/
theorem parseDocument_listingDocument (query : ListObjectsRequest) {result : ListObjectsResult}
    (hcount : result.objects.length + result.commonPrefixes.length ≤ 1000) :
    parseDocument (listingDocument account request version2 urlEncode query result) =
      .ok (pageRoot account request version2 urlEncode
        (!version2 || queryOr request (ascii "fetch-owner") = ascii "true") query result) := by
  have hsize := sizes_listingTrees account request version2 urlEncode
    (!version2 || queryOr request (ascii "fetch-owner") = ascii "true") query result
  have hdepth := depths_listingTrees account request version2 urlEncode
    (!version2 || queryOr request (ascii "fetch-owner") = ascii "true") query result
  rw [listingDocument, writeListing_eq]
  apply parseDocument_written rfl (by decide)
  · exact named_listingTrees account request version2 urlEncode _ query result
  · rw [kMaxXmlDepth]
    omega
  · rw [kMaxXmlElements]
    omega

/-- A leaf as it is read. -/
def fieldNode (field : Bytes × Bytes) : XmlNode := .element field.1 (carriedPart field.2) []

theorem children_pageRoot (query : ListObjectsRequest) (result : ListObjectsResult) :
    (pageRoot account request version2 urlEncode fetchOwner query result).children =
      (listingFields request version2 urlEncode query result).map fieldNode ++
        (result.objects.map (fun object =>
          (contentsTree account urlEncode fetchOwner object).carried.node 1) ++
        result.commonPrefixes.map fun commonPrefix =>
          (commonPrefixTree urlEncode commonPrefix).carried.node 1) := by
  show Tree.nodes 1 (Tree.allCarried _) = _
  rw [Tree.nodes_eq_map, Tree.allCarried_eq_map, listingTrees]
  simp only [List.map_append, List.map_map]
  rfl

/-- The children of a name are all of a list, or none. -/
theorem filter_named {α : Type} {node : α → XmlNode} {items : List α} (name : Bytes)
    {childName : Bytes} (h : ∀ item ∈ items, (node item).name = name) :
    (items.map node).filter (fun child => child.name = childName) =
      if name = childName then items.map node else [] := by
  split_ifs with hname
  · apply List.filter_eq_self.mpr
    intro child hchild
    obtain ⟨item, hitem, rfl⟩ := List.mem_map.mp hchild
    exact decide_eq_true ((h item hitem).trans hname)
  · apply List.filter_eq_nil_iff.mpr
    intro child hchild
    obtain ⟨item, hitem, rfl⟩ := List.mem_map.mp hchild
    rw [decide_eq_true_eq, h item hitem]
    exact hname

theorem filter_fields {query : ListObjectsRequest} {result : ListObjectsResult} {childName : Bytes}
    (h : ∀ name ∈ frontNames ++ (ascii "IsTruncated" :: nextNames), name ≠ childName) :
    ((listingFields request version2 urlEncode query result).map fieldNode).filter
      (fun child => child.name = childName) = [] := by
  apply List.filter_eq_nil_iff.mpr
  intro child hchild
  obtain ⟨field, hfield, rfl⟩ := List.mem_map.mp hchild
  rw [decide_eq_true_eq]
  exact h _ (name_of_mem_listingFields request version2 urlEncode field hfield)

/-- A name as it comes through the document. -/
def conveyed (urlEncode : Bool) (name : Bytes) : Bytes :=
  decodeListingValue (carriedPart (encodeListingValue name urlEncode)) urlEncode

theorem keys_pageRoot (query : ListObjectsRequest) (result : ListObjectsResult) :
    namesOf (pageRoot account request version2 urlEncode fetchOwner query result)
        (ascii "Contents") (ascii "Key") urlEncode =
      result.objects.map fun object => conveyed urlEncode object.key := by
  rw [namesOf, XmlNode.childrenNamed, children_pageRoot, List.filter_append, List.filter_append,
    filter_fields request version2 urlEncode fun name hname => (fieldNames.1 name hname).2.1,
    filter_named (ascii "Contents") (fun _ _ => rfl), if_pos rfl,
    filter_named (ascii "CommonPrefixes") (fun _ _ => rfl), if_neg (by decide),
    List.nil_append, List.append_nil, List.map_map]
  rfl

theorem commonPrefixes_pageRoot (query : ListObjectsRequest) (result : ListObjectsResult) :
    namesOf (pageRoot account request version2 urlEncode fetchOwner query result)
        (ascii "CommonPrefixes") (ascii "Prefix") urlEncode =
      result.commonPrefixes.map (conveyed urlEncode) := by
  rw [namesOf, XmlNode.childrenNamed, children_pageRoot, List.filter_append, List.filter_append,
    filter_fields request version2 urlEncode fun name hname => (fieldNames.1 name hname).2.2,
    filter_named (ascii "Contents") (fun _ _ => rfl), if_neg (by decide),
    filter_named (ascii "CommonPrefixes") (fun _ _ => rfl), if_pos rfl,
    List.nil_append, List.nil_append, List.map_map]
  rfl

/-- The text of a leaf, the first of its name. -/
theorem textOf_pageRoot {query : ListObjectsRequest} {result : ListObjectsResult}
    {before after : List (Bytes × Bytes)} {name text : Bytes}
    (hfields : listingFields request version2 urlEncode query result =
      before ++ (name, text) :: after)
    (hbefore : ∀ field ∈ before, field.1 ≠ name) :
    textOf (pageRoot account request version2 urlEncode fetchOwner query result) name =
      carriedPart text := by
  have hnone : (before.map fieldNode).find? (fun child => child.name = name) = none := by
    apply List.find?_eq_none.mpr
    intro child hchild
    obtain ⟨field, hfield, rfl⟩ := List.mem_map.mp hchild
    rw [decide_eq_true_eq]
    exact hbefore field hfield
  have hfound : (fieldNode (name, text)).name = name := rfl
  rw [textOf, XmlNode.child?, children_pageRoot, hfields, List.map_append, List.map_cons,
    List.append_assoc, List.find?_append, hnone, Option.none_or, List.cons_append,
    List.find?_cons_of_pos (by simp [hfound])]
  rfl

end Trees

/-! ### Names come through -/

theorem isCarried_of_mem_uriEncode {text : Bytes} {encodeSlash : Bool} :
    ∀ byte ∈ uriEncode text encodeSlash, isCarried byte := by
  have hplain : ∀ byte, isUnreserved byte → isCarried byte :=
    forall_byte_of_fin (P := fun byte => isUnreserved byte → isCarried byte) (by decide +kernel)
  intro byte hbyte
  rcases of_mem_uriEncode hbyte with hunreserved | rfl | ⟨rfl, -⟩
  · exact hplain byte hunreserved
  · rfl
  · rfl

theorem isCarried_sextet (bits : UInt32) : isCarried (sextet bits) := by
  have hall : ∀ byte ∈ kAlphabet, isCarried byte := by decide +kernel
  rw [sextet, List.getD_eq_getElem?_getD]
  cases hletter : kAlphabet[(bits &&& 0x3F).toNat]? with
  | none => exact of_decide_eq_true rfl
  | some byte => exact hall byte (List.mem_of_getElem? hletter)

theorem isCarried_of_mem_base64Encode (data : Bytes) : ∀ byte ∈ base64Encode data, isCarried byte := by
  have hpadding : isCarried (letter '=') := of_decide_eq_true rfl
  induction data using base64Encode.induct with
  | case1 first second third rest ih =>
      rw [base64Encode]
      simpa [isCarried_sextet] using ih
  | case2 first second =>
      rw [base64Encode]
      simp [isCarried_sextet, hpadding]
  | case3 first =>
      rw [base64Encode]
      simp [isCarried_sextet, hpadding]
  | case4 => exact fun byte hbyte => absurd hbyte List.not_mem_nil

/-- A name comes through a document when it is encoded there, or XML can carry it. -/
theorem conveyed_eq_self {urlEncode : Bool} {name : Bytes}
    (h : urlEncode ∨ ∀ byte ∈ name, isCarried byte) : conveyed urlEncode name = name := by
  cases urlEncode with
  | true =>
      show uriDecode (carriedPart (uriEncode name true)) = name
      rw [carriedPart_eq_self_iff.mpr isCarried_of_mem_uriEncode, uriDecode_uriEncode]
  | false =>
      rcases h with h | h
      · cases h
      · exact carriedPart_eq_self_iff.mpr h

/-- What a client asks for the next page with. -/
def resumption (version2 : Bool) (startAfter : Bytes) : Bytes :=
  if version2 then encodeContinuation startAfter else startAfter

/-- A client reads the page off its document: the keys, the common prefixes, and where to go
on from. -/
theorem readListing_listingDocument (account : Account) (request : S3Request) (version2 : Bool)
    {urlEncode : Bool} (query : ListObjectsRequest) {result : ListObjectsResult}
    (hcount : result.objects.length + result.commonPrefixes.length ≤ 1000)
    (hkeys : ∀ object ∈ result.objects, conveyed urlEncode object.key = object.key)
    (hprefixes : ∀ commonPrefix ∈ result.commonPrefixes, conveyed urlEncode commonPrefix = commonPrefix)
    (hnext : result.truncated →
      conveyed urlEncode result.nextStartAfter = result.nextStartAfter) :
    readListing version2 urlEncode (listingDocument account request version2 urlEncode query result) =
      some
        { keys := result.objects.map ObjectRecord.key
          commonPrefixes := result.commonPrefixes
          next := if result.truncated then some (resumption version2 result.nextStartAfter) else none } := by
  have hfront : ∀ field ∈ frontFields request version2 urlEncode query, field.1 ∈ frontNames :=
    name_of_mem_frontFields request version2 urlEncode
  have hread := parseDocument_listingDocument account request version2 urlEncode query hcount
  generalize (!version2 || queryOr request (ascii "fetch-owner") = ascii "true") = fetchOwner at hread
  have hmore : textOf (pageRoot account request version2 urlEncode fetchOwner query result)
      (ascii "IsTruncated") = ascii "true" ↔ result.truncated := by
    have hfields : listingFields request version2 urlEncode query result =
        frontFields request version2 urlEncode query ++ _ :: _ := rfl
    rw [textOf_pageRoot account request version2 urlEncode fetchOwner hfields
      fun field hfield => (fieldNames.2 _ (hfront field hfield)).1]
    cases result.truncated
    · exact iff_of_false (by decide) Bool.false_ne_true
    · exact iff_of_true (by decide) rfl
  have hafter : result.truncated →
      (if version2 then
        textOf (pageRoot account request version2 urlEncode fetchOwner query result)
          (ascii "NextContinuationToken")
      else decodeListingValue (textOf (pageRoot account request version2 urlEncode fetchOwner query
        result) (ascii "NextMarker")) urlEncode) = resumption version2 result.nextStartAfter := by
    intro htruncated
    cases version2 with
    | true =>
        have hfields : listingFields request true urlEncode query result =
            (frontFields request true urlEncode query ++
              [(ascii "IsTruncated", ascii "true"),
                (ascii "KeyCount", decimal (result.objects.length + result.commonPrefixes.length))]) ++
            (ascii "NextContinuationToken", encodeContinuation result.nextStartAfter) :: [] := by
          rw [listingFields, nextFields, if_pos rfl, if_pos htruncated, if_pos htruncated,
            List.append_assoc]
          rfl
        rw [if_pos rfl, textOf_pageRoot account request true urlEncode fetchOwner hfields]
        · exact carriedPart_eq_self_iff.mpr (isCarried_of_mem_base64Encode _)
        · intro field hfield
          rcases List.mem_append.mp hfield with hearly | hlate
          · exact (fieldNames.2 _ (hfront field hearly)).2.1
          · simp only [List.mem_cons, List.not_mem_nil, or_false] at hlate
            rcases hlate with rfl | rfl
            · exact (by decide : ascii "IsTruncated" ≠ ascii "NextContinuationToken")
            · exact (by decide : ascii "KeyCount" ≠ ascii "NextContinuationToken")
    | false =>
        have hfields : listingFields request false urlEncode query result =
            (frontFields request false urlEncode query ++ [(ascii "IsTruncated", ascii "true")]) ++
            (ascii "NextMarker", encodeListingValue result.nextStartAfter urlEncode) :: [] := by
          rw [listingFields, nextFields, if_neg Bool.false_ne_true, if_pos htruncated,
            if_pos htruncated, List.append_assoc]
          rfl
        rw [if_neg Bool.false_ne_true, textOf_pageRoot account request false urlEncode fetchOwner hfields]
        · exact hnext htruncated
        · intro field hfield
          rcases List.mem_append.mp hfield with hearly | hlate
          · exact (fieldNames.2 _ (hfront field hearly)).2.2
          · rw [List.mem_singleton.mp hlate]
            exact (by decide : ascii "IsTruncated" ≠ ascii "NextMarker")
  have hkept : result.objects.map (fun object => conveyed urlEncode object.key) =
      result.objects.map ObjectRecord.key := List.map_congr_left hkeys
  have hkeptPrefixes : result.commonPrefixes.map (conveyed urlEncode) = result.commonPrefixes :=
    (List.map_congr_left hprefixes).trans (List.map_id _)
  have hname : (pageRoot account request version2 urlEncode fetchOwner query result).name =
      ascii "ListBucketResult" := rfl
  rw [readListing, hread]
  dsimp only
  rw [if_pos hname, keys_pageRoot, commonPrefixes_pageRoot, hkept,
    hkeptPrefixes]
  by_cases htruncated : result.truncated = true
  · rw [if_pos (hmore.mpr htruncated), if_pos htruncated, hafter htruncated]
  · rw [if_neg (hmore.not.mpr htruncated), if_neg htruncated]

end MonoBucket.FrontDoors
