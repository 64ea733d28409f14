/-
Links the console hands out

The route signs a GET of one object under the host its caller names, with the
root credentials. What the link opens is decided by the other side: the S3
listener reads a bucket out of the host when the host is one in front of the
configured domain, in whatever case and with whatever port.
-/

import MonoBucket.S3.Body
import MonoBucket.S3.Presign
import MonoBucket.S3.Request

namespace MonoBucket

open S3

/-! ### The route -/

/-- A host a link can be minted for. -/
def plausibleHost (host : Bytes) : Bool :=
  !(host = [] ∨ 255 < host.length) &&
    host.all fun byte => isAlnum byte ∨ byte = letter '.' ∨ byte = letter '-' ∨ byte = letter ':' ∨
      byte = letter '[' ∨ byte = letter ']'

def kMaxPresignSeconds : Int := 604800

/-- The fields of the body, with their defaults. -/
structure PresignBody where
  key : Bytes := []
  host : Bytes := []
  secure : Bool := false
  expiresSeconds : Int := 3600
  deriving DecidableEq

/-- What the route reads of the configuration. -/
structure PresignConfig where
  region : Bytes
  rootAccessKey : Bytes
  rootSecretKey : Bytes
  s3Domain : Bytes := []
  deriving DecidableEq

structure PresignLink where
  url : Bytes
  method : Bytes
  expiresInSeconds : Int
  expiresAtMs : Int
  deriving DecidableEq

def scheme (secure : Bool) : Bytes := if secure then ascii "https://" else ascii "http://"

def presignPath (domain bucket host key : Bytes) : Bytes :=
  let virtualHost := domain ≠ [] ∧ host = bucket ++ [letter '.'] ++ domain
  [letter '/'] ++ (if virtualHost then [] else uriEncode bucket true ++ [letter '/']) ++
    uriEncode key false

section Route

variable (crypto : Crypto) (config : PresignConfig)
  (statObject : Bytes → Bytes → Except StoreError (Option ObjectRecord))

/-- The handler behind its permission checks; a body that is no JSON object is none. -/
def presignRoute (nowSeconds : Int) (bucket : Bytes) (body : Option PresignBody) :
    Except HandlerError PresignLink :=
  if bucket = [] then .error (.console (ascii "a bucket name is required"))
  else
    match body with
    | none => .error (.console (ascii "expected a JSON object"))
    | some body =>
      if body.key = [] then .error (.console (ascii "a key is required"))
      else if !plausibleHost body.host then .error (.console (ascii "a valid host is required"))
      else if body.expiresSeconds ≤ 0 ∨ kMaxPresignSeconds < body.expiresSeconds then
        .error (.console (ascii "expiresSeconds must be between 1 and 604800"))
      else
        match statObject bucket body.key with
        | .error error => .error (.storage error)
        | .ok none => .error (.console (ascii "no such key"))
        | .ok (some _) =>
          let path := presignPath config.s3Domain bucket body.host body.key
          let presign : PresignRequest :=
            { method := ascii "GET"
              host := body.host
              uri := path
              region := config.region
              nowSeconds := nowSeconds
              expiresSeconds := body.expiresSeconds }
          match presignQuery crypto presign ⟨config.rootAccessKey, config.rootSecretKey⟩ with
          | .error exception => .error (.s3 exception)
          | .ok query =>
            .ok
              { url := scheme body.secure ++ body.host ++ path ++ [letter '?'] ++ query
                method := ascii "GET"
                expiresInSeconds := body.expiresSeconds
                expiresAtMs := (nowSeconds + body.expiresSeconds) * 1000 }

end Route

/-! ### The other side -/

/-- A URL without its scheme. -/
def stripScheme (url : Bytes) : Option Bytes :=
  if ascii "https://" <+: url then some (url.drop (ascii "https://").length)
  else if ascii "http://" <+: url then some (url.drop (ascii "http://").length)
  else none

/-- The host, the path and the query a client sends for a URL. -/
def splitUrl (url : Bytes) : Option (Bytes × Bytes × Bytes) :=
  (stripScheme url).map fun rest =>
    let target := rest.dropWhile (· ≠ letter '/')
    (rest.takeWhile (· ≠ letter '/'), (splitAtFirst (letter '?') target).getD (target, []))

/-- What the S3 listener makes of a GET of a URL: the operation, the bucket and the key. -/
def addressed (domain url : Bytes) : Option (Operation × Bytes × Bytes) :=
  (splitUrl url).map fun (host, path, query) =>
    let request := parseRequest (ascii "GET") (uriDecode path) query (virtualHostBucket host domain)
    ((classify request).1, request.bucket, request.key)

/-- Where the host is the bucket in front of the domain it names that bucket, and
everywhere else it names none. A bucket's own name has no slash. -/
def HostAgrees (domain bucket host : Bytes) : Prop :=
  if domain ≠ [] ∧ host = bucket ++ [letter '.'] ++ domain then HostNames host domain bucket
  else (∀ other, ¬ HostNames host domain other) ∧ letter '/' ∉ bucket

section Split

theorem slash_not_mem_of_plausibleHost {host : Bytes} (h : plausibleHost host) :
    letter '/' ∉ host := by
  intro hmem
  rw [plausibleHost, Bool.and_eq_true, List.all_eq_true] at h
  exact absurd (h.2 _ hmem) (by decide)

theorem not_https_prefix_http (rest : Bytes) : ¬ ascii "https://" <+: ascii "http://" ++ rest := by
  rintro ⟨tail, htail⟩
  have hfifth := congrArg (fun text => text[4]?) htail
  have hleft : (ascii "https://" ++ tail)[4]? = some (letter 's') := rfl
  have hright : (ascii "http://" ++ rest)[4]? = some (letter ':') := rfl
  rw [hleft, hright] at hfifth
  exact absurd hfifth (by decide)

theorem stripScheme_scheme (secure : Bool) (rest : Bytes) :
    stripScheme (scheme secure ++ rest) = some rest := by
  cases secure with
  | true =>
      show stripScheme (ascii "https://" ++ rest) = some rest
      rw [stripScheme, if_pos (List.prefix_append _ _), List.drop_left]
  | false =>
      show stripScheme (ascii "http://" ++ rest) = some rest
      rw [stripScheme, if_neg (not_https_prefix_http rest), if_pos (List.prefix_append _ _),
        List.drop_left]

/-- A minted URL comes apart into what it was put together from. -/
theorem splitUrl_eq {host path query : Bytes} (secure : Bool) (hhost : letter '/' ∉ host)
    (hpath : path.head? = some (letter '/')) (hquery : letter '?' ∉ path) :
    splitUrl (scheme secure ++ host ++ path ++ [letter '?'] ++ query) =
      some (host, path, query) := by
  have hall : ∀ byte ∈ host, decide (byte ≠ letter '/') = true := by
    intro byte hbyte
    exact decide_eq_true fun heq => hhost (heq ▸ hbyte)
  obtain ⟨tail, rfl⟩ : ∃ tail, path = letter '/' :: tail := List.head?_eq_some_iff.mp hpath
  have htext : scheme secure ++ host ++ letter '/' :: tail ++ [letter '?'] ++ query =
      scheme secure ++ (host ++ (letter '/' :: tail ++ letter '?' :: query)) := by
    simp only [List.append_assoc, List.singleton_append]
  have htake : (host ++ (letter '/' :: tail ++ letter '?' :: query)).takeWhile (· ≠ letter '/') =
      host := by
    rw [List.takeWhile_append_of_pos hall]
    simp
  have hdrop : (host ++ (letter '/' :: tail ++ letter '?' :: query)).dropWhile (· ≠ letter '/') =
      letter '/' :: tail ++ letter '?' :: query := by
    rw [List.dropWhile_append_of_pos hall]
    simp
  rw [htext, splitUrl, stripScheme_scheme, Option.map_some, htake, hdrop]
  dsimp only
  rw [splitAtFirst_append_cons hquery]
  rfl

end Split

/-! ### What a link opens -/

section Path

variable {domain bucket host key : Bytes}

theorem uriDecode_presignPath :
    uriDecode (presignPath domain bucket host key) =
      letter '/' :: ((if domain ≠ [] ∧ host = bucket ++ [letter '.'] ++ domain then []
        else bucket ++ [letter '/']) ++ key) := by
  have hslash : letter '/' ≠ letter '%' := by decide
  rw [presignPath, List.append_assoc, List.singleton_append, uriDecode_cons_of_ne hslash]
  split_ifs with hvirtual
  · rw [List.nil_append, List.nil_append, uriDecode_uriEncode]
  · rw [List.append_assoc, List.append_assoc, List.singleton_append, uriDecode_uriEncode_append,
      uriDecode_cons_of_ne hslash, uriDecode_uriEncode, List.singleton_append]

theorem question_not_mem_presignPath : letter '?' ∉ presignPath domain bucket host key := by
  have hkey : letter '?' ∉ uriEncode key false := not_mem_uriEncode (by decide)
  have hbucket : letter '?' ∉ uriEncode bucket true := not_mem_uriEncode (by decide)
  have hslash : letter '?' ≠ letter '/' := by decide
  rw [presignPath]
  split_ifs <;> simp [hkey, hbucket, hslash]

theorem head?_presignPath : (presignPath domain bucket host key).head? = some (letter '/') := rfl

end Path

/-- No parameter of a presigned query is a subresource. -/
theorem hasQuery_presigned {crypto : Crypto} {presign : PresignRequest} {credentials : Credentials}
    {query name : Bytes} (h : presignQuery crypto presign credentials = .ok query)
    (hname : name ∉ presignNames ++ [signatureName]) : hasQuery (parseQuery query) name = false := by
  obtain ⟨canonical, -, hparsed⟩ := parseQuery_presignQuery h
  rw [hparsed, hasQuery, List.any_eq_false]
  intro param hparam hsame
  refine hname ?_
  rw [← of_decide_eq_true hsame, ← presign.map_name_params credentials.accessKey]
  rcases List.mem_append.mp hparam with hown | hsignature
  · exact List.mem_append_left _ (List.mem_map_of_mem hown)
  · rw [List.mem_singleton.mp hsignature]
    exact List.mem_append_right _ (List.mem_singleton_self _)

/-- A GET with such a query that names a bucket and a key reads the object. -/
theorem classify_presigned {crypto : Crypto} {presign : PresignRequest} {credentials : Credentials}
    {query : Bytes} (h : presignQuery crypto presign credentials = .ok query) {request : S3Request}
    (hmethod : request.method = ascii "GET") (hquery : request.query = parseQuery query)
    (hbucket : request.bucket ≠ []) (hkey : request.key ≠ []) :
    (classify request).1 = .getObject := by
  have hnone : ∀ name, name ∉ presignNames ++ [signatureName] → request.hasQuery name = false := by
    intro name hname
    rw [S3Request.hasQuery, hquery]
    exact hasQuery_presigned h hname
  have hsub : firstSubresource request = [] := by
    have hall : ∀ name ∈ kUnimplementedSubresources, name ∉ presignNames ++ [signatureName] := by
      decide +kernel
    rw [firstSubresource, List.find?_eq_none.mpr]
    · rfl
    · intro name hname
      rw [hnone name (hall name hname)]
      exact Bool.false_ne_true
  have hupload := hnone (ascii "uploadId") (by decide +kernel)
  have hacl := hnone (ascii "acl") (by decide +kernel)
  have hoptions : request.method ≠ ascii "OPTIONS" := by
    rw [hmethod]
    decide
  rw [classify, if_neg hoptions]
  dsimp only
  rw [if_neg (not_not.mpr hsub), if_neg hbucket, if_neg hkey, classifyObject, if_pos hmethod, hupload,
    hacl]
  rfl

section Parse

variable {method path rawQuery name : Bytes}

theorem parseRequest_virtual (hname : name ≠ []) :
    parseRequest method (letter '/' :: path) rawQuery name =
      { method := method, bucket := name, key := path, query := parseQuery rawQuery,
        resource := letter '/' :: path } := by
  rw [parseRequest]
  simp [hname]

theorem parseRequest_path {bucket key : Bytes} (hbucket : letter '/' ∉ bucket) :
    parseRequest method (letter '/' :: (bucket ++ letter '/' :: key)) rawQuery [] =
      { method := method, bucket := bucket, key := key, query := parseQuery rawQuery,
        resource := letter '/' :: (bucket ++ letter '/' :: key) } := by
  rw [parseRequest]
  simp [splitAtFirst_append_cons hbucket]

/-- The bucket of a path-style request has no slash, and its key is shorter than
the path. -/
theorem parseRequest_path_cases (method rawQuery : Bytes) (hpath : path ≠ []) :
    letter '/' ∉ (parseRequest method (letter '/' :: path) rawQuery []).bucket ∧
      (parseRequest method (letter '/' :: path) rawQuery []).key.length < path.length := by
  by_cases hslash : letter '/' ∈ path
  · obtain ⟨front, back, rfl, hfront⟩ := List.eq_append_cons_of_mem hslash
    rw [parseRequest_path hfront]
    refine ⟨hfront, ?_⟩
    show back.length < _
    rw [List.length_append, List.length_cons]
    omega
  · have hwhole : parseRequest method (letter '/' :: path) rawQuery [] =
        { method := method, bucket := path, query := parseQuery rawQuery,
          resource := letter '/' :: path } := by
      rw [parseRequest]
      simp [splitAtFirst_of_not_mem hslash]
    rw [hwhole]
    exact ⟨hslash, List.length_pos_iff.mpr hpath⟩

end Parse

section Addressed

variable {crypto : Crypto} {config : PresignConfig}
  {statObject : Bytes → Bytes → Except StoreError (Option ObjectRecord)} {nowSeconds : Int}
  {bucket : Bytes} {body : PresignBody} {link : PresignLink}

theorem addressed_of_splitUrl {domain url host path query : Bytes}
    (h : splitUrl url = some (host, path, query)) :
    addressed domain url =
      some ((classify (parseRequest (ascii "GET") (uriDecode path) query
          (virtualHostBucket host domain))).1,
        (parseRequest (ascii "GET") (uriDecode path) query (virtualHostBucket host domain)).bucket,
        (parseRequest (ascii "GET") (uriDecode path) query (virtualHostBucket host domain)).key) := by
  rw [addressed, h]
  rfl

/-- What the route checked before it minted a link, and what it minted. -/
theorem presignRoute_ok
    (h : presignRoute crypto config statObject nowSeconds bucket (some body) = .ok link) :
    bucket ≠ [] ∧ body.key ≠ [] ∧
      ∃ presign credentials query, presignQuery crypto presign credentials = .ok query ∧
        splitUrl link.url =
          some (body.host, presignPath config.s3Domain bucket body.host body.key, query) := by
  rw [presignRoute] at h
  dsimp only at h
  split_ifs at h with hbucket hkey hhost hexpires
  split at h
  · cases h
  · cases h
  · split at h
    · cases h
    · rename_i query hquery
      obtain rfl := Except.ok.inj h
      refine ⟨hbucket, hkey, _, _, query, hquery, ?_⟩
      have hplausible : plausibleHost body.host := by simpa using hhost
      exact splitUrl_eq body.secure (slash_not_mem_of_plausibleHost hplausible) head?_presignPath
        question_not_mem_presignPath

/-- A request within the bounds gets a link. -/
theorem presignRoute_returns (crypto : Crypto) (config : PresignConfig) (nowSeconds : Int)
    {object : ObjectRecord} (hbucket : bucket ≠ []) (hkey : body.key ≠ [])
    (hhost : plausibleHost body.host) (hexpires : 0 < body.expiresSeconds)
    (hbound : body.expiresSeconds ≤ kMaxPresignSeconds)
    (hobject : statObject bucket body.key = .ok (some object)) :
    ∃ link, presignRoute crypto config statObject nowSeconds bucket (some body) = .ok link := by
  have hsome : body.host ≠ [] := by
    intro hnil
    rw [hnil] at hhost
    exact absurd hhost (by decide)
  rw [kMaxPresignSeconds] at hbound
  have hminted : ∃ query, presignQuery crypto
      { method := ascii "GET"
        host := body.host
        uri := presignPath config.s3Domain bucket body.host body.key
        region := config.region
        nowSeconds := nowSeconds
        expiresSeconds := body.expiresSeconds }
      ⟨config.rootAccessKey, config.rootSecretKey⟩ = .ok query :=
    presignQuery_returns hexpires hbound hsome
  obtain ⟨query, hquery⟩ := hminted
  rw [presignRoute]
  dsimp only
  rw [if_neg hbucket, if_neg hkey, if_neg (by simp [hhost]), kMaxPresignSeconds,
    if_neg (by omega), hobject]
  dsimp only
  rw [hquery]
  exact ⟨_, rfl⟩

/-- A link opens exactly the object it was asked for just when the host names
the bucket in the form the path was minted in. -/
theorem addressed_presignRoute_iff
    (h : presignRoute crypto config statObject nowSeconds bucket (some body) = .ok link) :
    addressed config.s3Domain link.url = some (.getObject, bucket, body.key) ↔
      HostAgrees config.s3Domain bucket body.host := by
  obtain ⟨hbucket, hkey, presign, credentials, query, hquery, hsplit⟩ := presignRoute_ok h
  rw [addressed_of_splitUrl hsplit, uriDecode_presignPath, HostAgrees]
  generalize hnamed : virtualHostBucket body.host config.s3Domain = named
  split_ifs with hvirtual
  · rw [List.nil_append]
    constructor
    · intro haddressed
      simp only [Option.some.injEq, Prod.mk.injEq] at haddressed
      obtain ⟨-, hsame, hwhole⟩ := haddressed
      by_cases hnone : named = []
      · -- a path-style reading cuts the key at its first slash
        subst hnone
        have hshort := (parseRequest_path_cases (ascii "GET") query hkey).2
        rw [hwhole] at hshort
        exact absurd hshort (lt_irrefl _)
      · rw [parseRequest_virtual hnone] at hsame
        rw [← hsame, ← hnamed]
        rw [← hnamed] at hnone
        exact (virtualHostBucket_eq_iff hnone).mp rfl
    · intro hnames
      rw [← hnamed, (virtualHostBucket_eq_iff hbucket).mpr hnames, parseRequest_virtual hbucket]
      rw [classify_presigned hquery rfl rfl hbucket hkey]
  · rw [List.append_assoc, List.singleton_append]
    constructor
    · intro haddressed
      simp only [Option.some.injEq, Prod.mk.injEq] at haddressed
      obtain ⟨-, hsame, hwhole⟩ := haddressed
      have hnone : named = [] := by
        by_contra hsome
        rw [parseRequest_virtual hsome] at hwhole
        have hlength := congrArg List.length hwhole
        rw [List.length_append, List.length_cons] at hlength
        omega
      subst hnone
      refine ⟨virtualHostBucket_eq_nil_iff.mp hnamed, ?_⟩
      have hsome : bucket ++ letter '/' :: body.key ≠ [] := by simp
      have hno := (parseRequest_path_cases (ascii "GET") query hsome).1
      rwa [hsame] at hno
    · rintro ⟨hnone, hslash⟩
      rw [← hnamed, virtualHostBucket_eq_nil_iff.mpr hnone, parseRequest_path hslash]
      rw [classify_presigned hquery rfl rfl hbucket hkey]

/-- For a bucket's name and a domain without a port the forms agree unless the host
names some bucket without being spelled as the bucket in front of the domain. -/
theorem hostAgrees_iff {domain host : Bytes} (hvalid : isValidBucketName bucket)
    (hdomain : letter ':' ∉ domain) :
    HostAgrees domain bucket host ↔
      (domain ≠ [] ∧ host = bucket ++ [letter '.'] ++ domain) ∨
        ∀ other, ¬ HostNames host domain other := by
  have hlower : toLowerText bucket = bucket := by
    refine (List.map_congr_left fun byte hbyte => ?_).trans (List.map_id bucket)
    rw [isValidBucketName] at hvalid
    simp only [Bool.and_eq_true] at hvalid
    have hallowed := isBucketNameByte_of_mem hvalid.1.2 hbyte
    exact forall_byte_of_fin (P := fun byte => isBucketNameByte byte → toLower byte = byte)
      (by decide +kernel) byte hallowed
  rw [HostAgrees]
  split_ifs with hvirtual
  · refine ⟨fun _ => Or.inl hvirtual, fun _ => ⟨hvirtual.1, hvalid, ?_⟩⟩
    have hcolon : letter ':' ∉ host := by
      rw [hvirtual.2]
      simp only [List.mem_append, List.mem_singleton, not_or]
      exact ⟨⟨not_mem_of_isValidBucketName hvalid (by decide), by decide⟩, hdomain⟩
    rw [stripPort, if_neg fun h => hcolon h.1, hvirtual.2, List.append_assoc, toLowerText,
      List.map_append, List.singleton_append, List.map_cons]
    exact congrArg (· ++ letter '.' :: toLowerText domain) hlower
  · refine ⟨fun h => Or.inr h.1, fun h => ⟨h.resolve_left hvirtual, ?_⟩⟩
    exact not_mem_of_isValidBucketName hvalid (by decide)

end Addressed

/-! ### Hosts in front of the domain -/

section Fixed

def linkConfig : PresignConfig :=
  { region := ascii "us-east-1"
    rootAccessKey := ascii "AK"
    rootSecretKey := ascii "secret"
    s3Domain := ascii "s3.local" }

/-- The object asked for, under a host in front of the configured domain. -/
def linkBody (host : String) : PresignBody := { key := ascii "a.png", host := ascii host }

def linkObject : Option ObjectRecord := some { key := ascii "a.png", blobId := .empty }

/-- Spelled as the bucket in front of the domain, the host is the bucket's own, and
the link opens the object. -/
theorem addressed_of_bucket_host :
    ∃ link,
      presignRoute tableCrypto linkConfig (fun _ _ => .ok linkObject) 1786881600 (ascii "cats")
          (some (linkBody "cats.s3.local")) = .ok link ∧
        addressed (ascii "s3.local") link.url = some (.getObject, ascii "cats", ascii "a.png") := by
  have hminted : ∃ link, presignRoute tableCrypto linkConfig (fun _ _ => .ok linkObject) 1786881600
      (ascii "cats") (some (linkBody "cats.s3.local")) = .ok link :=
    presignRoute_returns tableCrypto linkConfig 1786881600 (by decide) (by decide) (by decide +kernel)
      (by decide) (by decide) rfl
  obtain ⟨link, hlink⟩ := hminted
  refine ⟨link, hlink, (addressed_presignRoute_iff hlink).mpr ?_⟩
  rw [HostAgrees, if_pos (by decide +kernel)]
  exact ⟨by decide, by decide, by decide +kernel⟩

/-- With its port the same host still names the bucket to the listener, while the
path names it once more: the link opens the key `cats/a.png`. -/
theorem link_with_port_opens_other_key :
    ∃ link,
      presignRoute tableCrypto linkConfig (fun _ _ => .ok linkObject) 1786881600 (ascii "cats")
          (some (linkBody "cats.s3.local:9000")) = .ok link ∧
        addressed (ascii "s3.local") link.url ≠ some (.getObject, ascii "cats", ascii "a.png") := by
  have hminted : ∃ link, presignRoute tableCrypto linkConfig (fun _ _ => .ok linkObject) 1786881600
      (ascii "cats") (some (linkBody "cats.s3.local:9000")) = .ok link :=
    presignRoute_returns tableCrypto linkConfig 1786881600 (by decide) (by decide) (by decide +kernel)
      (by decide) (by decide) rfl
  obtain ⟨link, hlink⟩ := hminted
  refine ⟨link, hlink, fun haddressed => ?_⟩
  obtain ⟨-, -, -, -, query, -, hsplit⟩ := presignRoute_ok hlink
  have hnamed : virtualHostBucket (linkBody "cats.s3.local:9000").host linkConfig.s3Domain =
      ascii "cats" := by decide +kernel
  change addressed linkConfig.s3Domain link.url = _ at haddressed
  rw [addressed_of_splitUrl hsplit, uriDecode_presignPath, if_neg (by decide +kernel), hnamed,
    parseRequest_virtual (by decide)] at haddressed
  simp only [Option.some.injEq, Prod.mk.injEq] at haddressed
  exact absurd haddressed.2.2 (by decide)

end Fixed

end MonoBucket
