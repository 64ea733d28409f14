/-
Who may change a bucket over S3

A request that is served changes the rows the way a sequence of front-door requests would, all
of them on the bucket it names, and every one of them is made for an identity that may do so
there: the root pair, or the owner of the key whose secret the signature verifies under, as both
are stored at that moment. What else is written is the log of refusals and the marker of a
payload.

So a bucket is untouched by every run of requests by whoever may not write in it, however they
are signed and whatever they carry.
-/

import MonoBucket.Server.BucketIsolation
import MonoBucket.Server.Router
import MonoBucket.Storage.IdentityRows

namespace MonoBucket.FrontDoors

open S3 Codec

/-! ### Who a request speaks for -/

section Speaking

variable (router : Router) (draws : Draws) (http : HttpRequest)

/-- A signature that verifies under a secret. -/
structure Verifies (secret : Bytes) (auth : AuthOutcome) : Prop where
  signed : auth.anonymous = false
  verified : authenticate router.crypto (toSigningRequest http) (parseQuery http.query)
    (fun _ => some secret) (authOptions draws http.method) = .ok auth

/-- The root pair, or the owner of an issued key, as the store has them. -/
inductive Speaks (rows : Rows) : SignedIdentity → Prop
  | root (auth : AuthOutcome) (hkey : auth.accessKey = router.rootAccessKey)
    (hverified : Verifies router draws http router.rootSecretKey auth) :
    Speaks rows ⟨.administrator, [], {}⟩
  | owner (auth : AuthOutcome) (key : AccessKeyRecord) (user : UserRecord)
    (hkey : accessKeyAt rows auth.accessKey = .ok (some key))
    (howner : userAt rows key.owner.items = .ok (some user)) (henabled : user.disabled = false)
    (hverified : Verifies router draws http key.secretKey.items auth) :
    Speaks rows ⟨user.role, user.username, user.buckets⟩

/-- The operations whose handlers write a bucket, or what is in one. -/
def changes : Operation → Bool
  | .createBucket | .deleteBucket | .deleteObjects | .putBucketPolicy | .deleteBucketPolicy
  | .putBucketAcl | .putBucketCors | .deleteBucketCors | .putObject | .deleteObject
  | .createMultipartUpload | .uploadPart | .completeMultipartUpload | .abortMultipartUpload => true
  | _ => false

/-- A front-door request made while an S3 request is served: an entry of the log, the marker of
a payload, or what an identity that may do so asked of the bucket the request names. -/
inductive Mediated (found rows : Rows) : Request → Prop
  | refusal (entry : AuditRecord) : Mediated found rows (.system (.appendAudit entry))
  | marker (blobId : Bytes) (now : TimestampMs) : Mediated found rows (.system (.trackBlob blobId now))
  | asked (request : Request) (identity : SignedIdentity) (operation : Operation)
    (hspeaks : Speaks router draws http found identity) (hchanges : changes operation = true)
    (hallowed : allowsIn identity.role identity.grants (requestOf router http).bucket
      (permissionFor operation) = true)
    (hsubject : subject rows request = some (requestOf router http).bucket)
    (hconsole : consoleCreated request = none) : Mediated found rows request

/-- An identity that may change what is in a bucket, or the bucket. -/
def MayWrite (identity : SignedIdentity) (name : Bytes) : Prop :=
  allowsIn identity.role identity.grants name .bucketWrite = true ∨
    allowsIn identity.role identity.grants name .objectWrite = true

end Speaking

/-! ### Signatures -/

section Signatures

variable {crypto : Crypto} {signing : SigningRequest} {query : List QueryParam}
  {resolve : Bytes → Option Bytes} {options : AuthOptions} {auth : AuthOutcome}

/-- A claim that is verified names a key of which there is a secret, and nothing else of the
resolver is used. -/
theorem verifyClaim_resolves {claimed : Claimed}
    (h : verifyClaim crypto signing resolve options claimed = .ok auth) :
    ∃ scope secret, parseCredential claimed.credential = .ok scope ∧
      (scope.service = kService ∧ scope.terminator = kTerminator) ∧
      claimed.outcome.amzDate.take 8 = scope.dateStamp ∧ auth.accessKey = scope.accessKey ∧
      resolve scope.accessKey = some secret ∧
      verifyClaim crypto signing (fun _ => some secret) options claimed = .ok auth := by
  have hverify := h
  rw [verifyClaim] at h
  obtain ⟨scope, hscope, h⟩ := Except.bind_eq_ok_iff.mp h
  dsimp only at h
  split at h
  · cases h
  rename_i hservice
  split at h
  · cases h
  rename_i hdate
  split at h
  · cases h
  rename_i secret hsecret
  have hauth : auth.accessKey = scope.accessKey := by
    split at h
    · cases h
    obtain ⟨signature, -, h⟩ := Except.bind_eq_ok_iff.mp h
    split at h
    · rw [← Except.ok.inj h]
    split at h
    · cases h
    obtain ⟨alternate, -, h⟩ := Except.bind_eq_ok_iff.mp h
    split at h
    · rw [← Except.ok.inj h]
    · cases h
  rw [not_or, not_not, not_not] at hservice
  refine ⟨scope, secret, hscope, hservice, not_not.mp hdate, hauth, hsecret, ?_⟩
  rw [verifyClaim, hscope] at hverify ⊢
  simp only [bind, Except.bind, hsecret] at hverify ⊢
  exact hverify

/-- The key the claim of a verified request names is the one the resolver was asked for. -/
theorem claimedKey_of_claim {claimed : Claimed} {scope : CredentialScope}
    (hclaim : claimOf signing query options = some claimed)
    (hscope : parseCredential claimed.credential = .ok scope)
    (hservice : scope.service = kService ∧ scope.terminator = kTerminator)
    (hdate : claimed.outcome.amzDate.take 8 = scope.dateStamp) :
    claimedKey signing query options = some scope.accessKey := by
  simp only [claimedKey, hclaim, hscope, Except.toOption, Option.bind_eq_bind, Option.bind_some]
  rw [if_neg (by simp [hservice]), if_neg (by simp [hdate])]

/-- A signed request that is accepted was verified under the secret of the key it claims. -/
theorem authenticate_resolves (h : authenticate crypto signing query resolve options = .ok auth)
    (hsigned : auth.anonymous = false) :
    claimedKey signing query options = some auth.accessKey ∧ ∃ secret,
      resolve auth.accessKey = some secret ∧
      authenticate crypto signing query (fun _ => some secret) options = .ok auth := by
  have hresult : ∀ claimed, claimOf signing query options = some claimed →
      verifyClaim crypto signing resolve options claimed = .ok auth →
      claimedKey signing query options = some auth.accessKey ∧ ∃ secret,
        resolve auth.accessKey = some secret ∧
        verifyClaim crypto signing (fun _ => some secret) options claimed = .ok auth := by
    intro claimed hclaim hverify
    obtain ⟨scope, secret, hscope, hservice, hdate, hkey, hsecret, hconstant⟩ :=
      verifyClaim_resolves hverify
    rw [hkey]
    exact ⟨claimedKey_of_claim hclaim hscope hservice hdate, secret, hsecret, hconstant⟩
  rw [authenticate] at h
  simp only [authenticate]
  cases hfind : findQuery query (ascii "X-Amz-Signature") with
  | some signature =>
      rw [hfind] at h
      obtain ⟨claimed, hclaimed, hverify⟩ := Except.bind_eq_ok_iff.mp h
      obtain ⟨hkey, secret, hsecret, hconstant⟩ :=
        hresult claimed (by rw [claimOf, hfind]; simp [hclaimed, Except.toOption]) hverify
      exact ⟨hkey, secret, hsecret, Except.bind_eq_ok_iff.mpr ⟨claimed, hclaimed, hconstant⟩⟩
  | none =>
      rw [hfind] at h
      dsimp only at h ⊢
      split at h
      · rw [← Except.ok.inj h] at hsigned
        cases hsigned
      · rename_i hpresent
        simp only [if_neg hpresent]
        obtain ⟨claimed, hclaimed, hverify⟩ := Except.bind_eq_ok_iff.mp h
        obtain ⟨hkey, secret, hsecret, hconstant⟩ := hresult claimed
          (by rw [claimOf, hfind]; simp [hpresent, hclaimed, Except.toOption]) hverify
        exact ⟨hkey, secret, hsecret, Except.bind_eq_ok_iff.mpr ⟨claimed, hclaimed, hconstant⟩⟩

end Signatures

section Authenticated

variable {router : Router} {rows : Rows} {draws : Draws} {http : HttpRequest} {request : S3Request}
  {auth : AuthOutcome} {identity : SignedIdentity}

theorem method_requestOf : (requestOf router http).method = http.method := by
  rw [requestOf, parseRequest]
  dsimp only
  split
  · rfl
  · split <;> rfl

theorem query_requestOf : (requestOf router http).query = parseQuery http.query := by
  rw [requestOf, parseRequest]
  dsimp only
  split
  · rfl
  · split <;> rfl

/-- Whoever a signed request was found to be is whom it speaks for. -/
theorem speaks_of_authenticated
    (h : authenticated router rows draws http (requestOf router http) = .ok (auth, some identity))
    (hsigned : auth.anonymous = false) : Speaks router draws http rows identity := by
  simp only [authenticated] at h
  obtain ⟨resolved, hresolved, h⟩ := Except.bind_eq_ok_iff.mp h
  obtain ⟨verified, hverified, h⟩ := Except.bind_eq_ok_iff.mp h
  obtain ⟨found, hfound, h⟩ := Except.bind_eq_ok_iff.mp h
  obtain ⟨rfl, rfl⟩ := Prod.mk.inj (Except.ok.inj h)
  replace hverified := Except.eq_ok_of_mapError hverified
  replace hfound := Except.eq_ok_of_mapError hfound
  obtain ⟨hkey, secret, hsecret, hconstant⟩ := authenticate_resolves hverified hsigned
  replace hresolved := Except.eq_ok_of_mapError hresolved
  rw [claimedCredential, hkey] at hresolved
  dsimp only at hresolved
  rw [secretOf, hresolved] at hsecret
  rw [query_requestOf, method_requestOf] at hconstant
  cases resolved with
  | none => cases hsecret
  | some credential =>
      obtain rfl : Credential.secret router credential = secret := Option.some.inj hsecret
      have hverifies : Verifies router draws http (Credential.secret router credential) verified :=
        ⟨hsigned, hconstant⟩
      rw [resolveCredential] at hresolved
      split_ifs at hresolved with hroot hplausible
      · obtain rfl : Credential.root = credential := Option.some.inj (Except.ok.inj hresolved)
        obtain rfl : (⟨.administrator, [], {}⟩ : SignedIdentity) = identity :=
          Option.some.inj (Except.ok.inj hfound)
        exact .root verified ((secureEquals_iff _ _).mp hroot) hverifies
      · cases hget : getAccessKey rows verified.accessKey with
        | error error =>
            rw [hget] at hresolved
            cases hresolved
        | ok stored =>
            rw [hget] at hresolved
            cases stored with
            | none => cases hresolved
            | some key =>
                obtain rfl : Credential.issued key = credential :=
                  Option.some.inj (Except.ok.inj hresolved)
                rw [identityOf] at hfound
                split_ifs at hfound with hempty
                · cases hfound
                cases huser : getUser rows key.owner.items with
                | error error =>
                    rw [huser] at hfound
                    cases hfound
                | ok owner =>
                    rw [huser] at hfound
                    cases owner with
                    | none => cases hfound
                    | some user =>
                        replace hfound := Except.ok.inj hfound
                        dsimp only at hfound
                        split_ifs at hfound with hdisabled
                        obtain rfl := Option.some.inj hfound
                        exact .owner verified key user (getAccessKey_eq_some_iff.mp hget).2
                          (getUser_eq_some_iff.mp huser).2 (by simpa using hdisabled) hverifies
      · cases hresolved

end Authenticated

/-! ### What is performed -/

/-- Rows that requests of the front doors lead to in turn, each of them allowed where it is
performed. -/
inductive Performs (config : ServerConfig) (allowed : Rows → Request → Prop) : Rows → Rows → Prop
  | refl (rows : Rows) : Performs config allowed rows rows
  | step (server : Server) (ticks : Int64) (request : Request) (after : Rows)
    (hallowed : allowed server.engine.metadata.rows request) (hfresh : Fresh server request)
    (hrest : Performs config allowed
      (perform config ticks server request).1.engine.metadata.rows after) :
    Performs config allowed server.engine.metadata.rows after

section Performed

variable {config : ServerConfig} {ticks : Int64} {allowed : Rows → Request → Prop}
  {before middle after : Rows} {server : Server} {name : Bytes}

theorem Performs.trans (h : Performs config allowed before middle)
    (hrest : Performs config allowed middle after) : Performs config allowed before after := by
  induction h with
  | refl rows => exact hrest
  | step server ticks request rows hallowed hfresh _ ih =>
      exact .step server ticks request after hallowed hfresh (ih hrest)

theorem Performs.of_eq (h : after = before) : Performs config allowed before after := by
  rw [h]
  exact .refl before

theorem Performs.one {request : Request} (hallowed : allowed server.engine.metadata.rows request)
    (hfresh : Fresh server request) :
    Performs config allowed server.engine.metadata.rows
      (perform config ticks server request).1.engine.metadata.rows :=
  .step server ticks request _ hallowed hfresh (.refl _)

theorem fresh_of_createdUpload {request : Request} (h : createdUpload request = none) :
    Fresh server request := by
  intro upload hupload
  rw [h] at hupload
  cases hupload

theorem engine_lookup :
    (perform config ticks server (.lookup name)).1.engine = server.engine := by
  rw [perform, afterLookup]
  dsimp only
  split <;> rfl

theorem engine_withBucket {rest : BucketRecord → Except Failure Reply} :
    (withBucket config ticks server name rest).1.engine = server.engine := by
  rw [withBucket]
  split <;> rfl

theorem engine_handleListObjects {account : Account} {request : S3Request} {requestId : Bytes}
    {version2 : Bool} :
    (handleListObjects config ticks account server request requestId version2).1.engine =
      server.engine := by
  rw [handleListObjects]
  split <;> rfl

theorem engine_statObject {key : Text} :
    (statObject config ticks server name key).1.engine = server.engine := by
  rw [statObject]
  dsimp only
  split
  · rfl
  · split <;> rfl

theorem engine_handleGetObject {parseHttpDate : Bytes → Option TimestampMs} {opens : Bool}
    {read : ReadRequest} :
    (handleGetObject config ticks parseHttpDate opens server read).1.engine = server.engine := by
  rw [handleGetObject]
  split
  · rfl
  · rename_i cache record hlookup
    have hstat := @engine_statObject config ticks { server with cache := cache } read.bucket read.key
    split <;> rename_i hfound <;> rw [hfound] at hstat <;> exact hstat

theorem engine_bucketRules : (bucketRules config ticks server name).1.engine = server.engine := by
  rw [bucketRules]
  split <;> rfl

theorem engine_handlePreflight {request : CorsRequest} :
    (handlePreflight config ticks server request).1.engine = server.engine := by
  have hrules := @engine_bucketRules config ticks server request.bucket
  rw [handlePreflight]
  dsimp only
  split
  · rfl
  split
  · rfl
  split
  · rename_i next error hfound
    rw [hfound] at hrules
    exact hrules
  · rename_i next rules hfound
    rw [hfound] at hrules
    split
    · exact hrules
    · split <;> exact hrules

theorem engine_applyCorsHeaders {request : CorsRequest} :
    (applyCorsHeaders config ticks server request).1.engine = server.engine := by
  have hrules := @engine_bucketRules config ticks server request.bucket
  rw [applyCorsHeaders]
  split
  · rfl
  split
  · rfl
  split
  · rename_i next error hfound
    rw [hfound] at hrules
    exact hrules
  · rename_i next rules hfound
    rw [hfound] at hrules
    split <;> exact hrules

/-- A request that is not read leaves the rows; one that is read is performed. -/
theorem performs_requesting {read : Except Failure Request} {reply : Reply}
    (h : ∀ request, read = .ok request →
      allowed server.engine.metadata.rows request ∧ Fresh server request) :
    Performs config allowed server.engine.metadata.rows
      (requesting config ticks server name read reply).1.engine.metadata.rows := by
  cases read with
  | error failure => exact .of_eq (congrArg _ (congrArg _ engine_lookup))
  | ok request => exact .one (h request rfl).1 (h request rfl).2

end Performed

/-! ### Handlers -/

section Dispatched

variable {router : Router} {draws : Draws} {allowed : Rows → Request → Prop} {site : Site}
  {server : Server} {request : S3Request} {http : HttpRequest}

/-- Whatever rows are reached, a request on a bucket is allowed, but for the console's to make it. -/
def AllowedOn (allowed : Rows → Request → Prop) (name : Bytes) : Prop :=
  ∀ rows asked, subject rows asked = some name → consoleCreated asked = none → allowed rows asked

/-- Payloads may be registered. -/
def MarkersAllowed (allowed : Rows → Request → Prop) : Prop :=
  ∀ rows blobId now, allowed rows (.system (.trackBlob blobId now))

theorem performs_deleteOne {check : Bytes} {quiet : Bool} {key : Bytes} (hbucket : check ≠ [])
    (hasked : AllowedOn allowed check) :
    Performs router.toServerConfig allowed server.engine.metadata.rows
      (deleteOne router.toServerConfig server check quiet draws.now key).1.engine.metadata.rows := by
  rw [deleteOne]
  by_cases hkey : key = []
  · rw [if_pos hkey]
    exact .refl _
  · have hone := @Performs.one router.toServerConfig draws.ticks allowed server
      (.consoleDeleteObject check key draws.now) (hasked _ _ rfl rfl) (fresh_of_createdUpload rfl)
    rw [perform, consoleDeleteObject, named, if_neg hbucket, if_neg hkey,
      engine_andThen onlyCache_invalidateObject, Visibility.fromStorage] at hone
    rw [if_neg hkey]
    split <;> rename_i hdelete <;> rw [hdelete] at hone <;> exact hone

theorem performs_deleteEach {name : Bytes} {quiet : Bool} (hbucket : name ≠ [])
    (hasked : AllowedOn allowed name) (keys : List Bytes) :
    Performs router.toServerConfig allowed server.engine.metadata.rows
      (deleteEach router.toServerConfig name quiet draws.now server keys).1.engine.metadata.rows := by
  induction keys generalizing server with
  | nil => exact .refl _
  | cons key keys ih =>
      have hone := @performs_deleteOne router draws allowed server name quiet key hbucket hasked
      rw [deleteEach]
      split
      · rename_i next error hdelete
        rwa [hdelete] at hone
      · rename_i next reports hdelete
        rw [hdelete] at hone
        have hrest := hone.trans (@ih next)
        split <;> rename_i hothers <;> rw [hothers] at hrest <;> exact hrest

theorem ne_nil_of_requireBucket {hash : Bytes → UInt64} {rows : Rows} {ttlSeconds ticks : Int64}
    {cache next : MemoryCache} {name : Bytes} {record : BucketRecord}
    (h : S3.requireBucket hash rows ttlSeconds ticks cache name = (next, .ok record)) :
    name ≠ [] := by
  rw [S3.requireBucket] at h
  split_ifs at h with hvalid
  · exact ne_nil_of_isValidBucketName hvalid
  · cases h

theorem performs_serveDeleteObjects {document : Except HandlerError Bytes}
    (hasked : AllowedOn allowed request.bucket) :
    Performs router.toServerConfig allowed server.engine.metadata.rows
      (serveDeleteObjects router draws server request http document).1.engine.metadata.rows := by
  cases document with
  | error error => exact performs_requesting fun _ hread => by cases hread
  | ok document =>
      rw [serveDeleteObjects]
      dsimp only
      rw [handleDeleteObjects]
      split
      · exact .refl _
      · rename_i cache record hlookup
        split
        · exact .refl _
        · exact @performs_deleteEach router draws allowed { server with cache := cache } _ _
            (ne_nil_of_requireBucket hlookup) hasked _

theorem performs_receive {looked : Server} {declared : UInt64}
    {received : Except S3Exception Received} {commits : Received → Request} {bucket : Bytes}
    (hlooked : looked.engine = site.server.engine) (hmarkers : MarkersAllowed allowed)
    (hcommits : ∀ received, allowed site.rows (commits received) ∧
      createdUpload (commits received) = none) :
    Performs router.toServerConfig allowed site.rows
      (receive router draws site looked bucket declared received commits).1.rows := by
  rw [receive]
  split
  · exact .of_eq (congrArg (fun engine => engine.metadata.rows) hlooked)
  · rename_i quotas reservation hreserve
    cases received with
    | error exception =>
        exact @Performs.one router.toServerConfig draws.ticks allowed site.server
          (.system (.trackBlob draws.blobId.items draws.now)) (hmarkers _ _ _)
          (fresh_of_createdUpload rfl)
    | ok received =>
        exact .one (hcommits received).1 (fresh_of_createdUpload (hcommits received).2)

theorem performs_servePutObject {body : S3Body} (hmarkers : MarkersAllowed allowed)
    (hasked : AllowedOn allowed request.bucket) :
    Performs router.toServerConfig allowed site.rows
      (servePutObject router draws site request http body).1.rows := by
  rw [servePutObject]
  dsimp only
  split
  · exact .of_eq (congrArg (fun engine => engine.metadata.rows) engine_lookup)
  · split
    · exact .of_eq (congrArg (fun engine => engine.metadata.rows) engine_lookup)
    · exact performs_receive engine_lookup hmarkers fun _ => ⟨hasked _ _ rfl rfl, rfl⟩

theorem performs_serveUploadPart {body : S3Body} (hmarkers : MarkersAllowed allowed)
    (hasked : AllowedOn allowed request.bucket) :
    Performs router.toServerConfig allowed site.rows
      (serveUploadPart router draws site request http body).1.rows := by
  rw [serveUploadPart]
  split
  · exact .refl _
  · exact performs_receive rfl hmarkers fun _ => ⟨hasked _ _ rfl rfl, rfl⟩

theorem performs_serveComplete {document : Except HandlerError Bytes}
    (hmarkers : MarkersAllowed allowed) (hasked : AllowedOn allowed request.bucket) :
    Performs router.toServerConfig allowed site.rows
      (serveCompleteMultipartUpload router draws site request http document).1.rows := by
  rw [serveCompleteMultipartUpload]
  split
  · exact .refl _
  · split
    · exact @Performs.one router.toServerConfig draws.ticks allowed site.server
        (.system (.trackBlob draws.blobId.items draws.now)) (hmarkers _ _ _)
        (fresh_of_createdUpload rfl)
    · exact .one (hasked _ _ rfl rfl) (fresh_of_createdUpload rfl)

theorem performs_serveAbort (hasked : AllowedOn allowed request.bucket) :
    Performs router.toServerConfig allowed server.engine.metadata.rows
      (serveAbortMultipartUpload router draws server request).1.engine.metadata.rows := by
  rw [serveAbortMultipartUpload]
  split
  · exact .refl _
  · exact .one (hasked _ _ rfl rfl) (fresh_of_createdUpload rfl)

/-- An upload is begun under the id that was drawn, in the bucket the request names: a name
too long to be a text is no bucket's. -/
theorem performs_serveCreate (hunused : UnusedId server.engine.metadata.rows draws.uploadId)
    (hasked : AllowedOn allowed request.bucket) :
    Performs router.toServerConfig allowed server.engine.metadata.rows
      (serveCreateMultipartUpload router draws server request http).1.engine.metadata.rows := by
  rw [serveCreateMultipartUpload]
  split
  · exact performs_requesting fun _ hread => by cases hread
  · rename_i upload hbegins
    have hupload : upload.uploadId = draws.uploadId ∧ upload.bucket = sized request.bucket := by
      rw [beginsUpload] at hbegins
      obtain ⟨_, _, hbegins⟩ := Except.bind_eq_ok_iff.mp hbegins
      obtain ⟨_, _, hbegins⟩ := Except.bind_eq_ok_iff.mp hbegins
      obtain ⟨_, _, hbegins⟩ := Except.bind_eq_ok_iff.mp hbegins
      obtain ⟨_, _, hbegins⟩ := Except.bind_eq_ok_iff.mp hbegins
      rw [← Except.ok.inj hbegins]
      exact ⟨rfl, rfl⟩
    by_cases hfits : request.bucket.length < 2 ^ 64
    · refine performs_requesting fun asked hasked' => ?_
      obtain rfl := Except.ok.inj hasked'
      refine ⟨hasked _ _ ?_ rfl, fun created hcreated => ?_⟩
      · rw [subject, hupload.2, sized, dif_pos hfits]
      · obtain rfl := Option.some.inj hcreated
        rw [hupload.1]
        exact hunused
    · refine .of_eq (congrArg _ ?_)
      have hname : upload.bucket.items = [] := by
        rw [hupload.2, sized, dif_neg hfits]
        rfl
      rw [requesting, perform, handleCreateMultipartUpload, hname, afterLookup, S3.requireBucket,
        if_neg (by decide)]
      rfl

theorem performs_withBucket {rest : BucketRecord → Except Failure Reply} {name : Bytes} :
    Performs router.toServerConfig allowed server.engine.metadata.rows
      (withBucket router.toServerConfig draws.ticks server name rest).1.engine.metadata.rows :=
  .of_eq (congrArg (fun engine => engine.metadata.rows) engine_withBucket)

/-- A handler that writes does so on its bucket; the others write nothing. -/
theorem performs_dispatch {operation : Operation} {body : S3Body}
    {identity : Option SignedIdentity} (hunused : UnusedId site.rows draws.uploadId)
    (hmarkers : MarkersAllowed allowed)
    (hasked : changes operation = true → AllowedOn allowed request.bucket) :
    Performs router.toServerConfig allowed site.rows
      (dispatch router draws site request operation http body identity).1.rows := by
  cases operation with
  | createBucket | deleteBucket | deleteBucketPolicy | deleteBucketCors | deleteObject =>
      refine performs_requesting fun asked hread => ?_
      obtain rfl := Except.ok.inj hread
      exact ⟨hasked rfl _ _ rfl rfl, fresh_of_createdUpload rfl⟩
  | putBucketAcl | putBucketPolicy | putBucketCors =>
      refine performs_requesting fun asked hread => ?_
      obtain ⟨_, -, rfl⟩ := Except.exists_of_map_eq_ok hread
      exact ⟨hasked rfl _ _ rfl rfl, fresh_of_createdUpload rfl⟩
  | deleteObjects => exact performs_serveDeleteObjects (hasked rfl)
  | putObject => exact performs_servePutObject hmarkers (hasked rfl)
  | createMultipartUpload => exact performs_serveCreate hunused (hasked rfl)
  | uploadPart => exact performs_serveUploadPart hmarkers (hasked rfl)
  | completeMultipartUpload => exact performs_serveComplete hmarkers (hasked rfl)
  | abortMultipartUpload => exact performs_serveAbort (hasked rfl)
  | headBucket | getBucketLocation | getBucketVersioning | getBucketAcl | getBucketPolicy
    | getBucketCors | listMultipartUploads => exact performs_withBucket
  | listObjectsV1 | listObjectsV2 =>
      exact .of_eq (congrArg (fun engine => engine.metadata.rows) engine_handleListObjects)
  | getObject | headObject =>
      exact .of_eq (congrArg (fun engine => engine.metadata.rows) engine_handleGetObject)
  | preflight =>
      exact .of_eq (congrArg (fun engine => engine.metadata.rows) engine_handlePreflight)
  | listBuckets | listParts | unsupported | methodNotAllowed => exact .refl _

end Dispatched

/-! ### Requests -/

section Served

variable {router : Router} {draws : Draws} {http : HttpRequest} {site : Site} {server : Server}
  {request : S3Request} {auth : AuthOutcome} {identity : Option SignedIdentity}

/-- What changes a bucket names it. -/
theorem bucket_ne_nil_of_changes (h : changes (classify request).1 = true) : request.bucket ≠ [] := by
  intro hempty
  rw [classify] at h
  dsimp only at h
  split_ifs at h
  · cases h
  · cases h
  · rw [classifyService] at h
    split_ifs at h <;> cases h

theorem isReadOnly_of_changes {operation : Operation} (h : changes operation = true) :
    isReadOnly operation = false := by
  cases operation <;> first | rfl | cases h

/-- Whatever an S3 request is refused for, only the log hears of it. -/
theorem performs_authorizeRequest {config : ServerConfig} {operation : Operation} :
    Performs config (Mediated router draws http site.rows) server.engine.metadata.rows
      (authorizeRequest config draws server request operation auth identity).1.engine.metadata.rows := by
  rw [authorizeRequest.eq_def]
  split_ifs with hanonymous hread
  · exact .refl _
  · exact .refl _
  · cases identity with
    | none => exact .refl _
    | some identity =>
        dsimp only
        split
        · exact .refl _
        · rw [recordRefusal]
          dsimp only
          split_ifs with hlogs
          · exact @Performs.one config draws.ticks _ server (.system (.appendAudit _))
              (.refusal _) (fresh_of_createdUpload rfl)
          · exact .refl _

/-- A request that is let through has written nothing yet. -/
theorem engine_of_authorizeRequest {config : ServerConfig} {operation : Operation} {next : Server}
    (h : authorizeRequest config draws server request operation auth identity = (next, .ok ())) :
    next.engine = server.engine := by
  rw [authorizeRequest.eq_def] at h
  split_ifs at h with hanonymous hread
  · rw [← (Prod.mk.inj h).1]
  · cases h
  · cases identity with
    | none => cases h
    | some identity =>
        dsimp only at h
        split at h
        · rw [← (Prod.mk.inj h).1]
        · cases (Prod.mk.inj h).2

/-- One that changes something and is let through is signed, by an identity that may. -/
theorem allows_of_authorizeRequest {config : ServerConfig} {operation : Operation} {next : Server}
    (hchanges : changes operation = true) (hbucket : request.bucket ≠ [])
    (h : authorizeRequest config draws server request operation auth identity = (next, .ok ())) :
    auth.anonymous = false ∧ ∃ known, identity = some known ∧
      allowsIn known.role known.grants request.bucket (permissionFor operation) = true := by
  rw [authorizeRequest.eq_def, isReadOnly_of_changes hchanges] at h
  split_ifs at h with hanonymous hread
  · exact absurd hread.1 (by decide)
  · cases h
  · rw [Bool.not_eq_true] at hanonymous
    cases identity with
    | none => cases h
    | some known =>
        dsimp only at h
        split at h
        · rename_i hallowed
          rw [S3.authorize, if_neg (by decide)] at hallowed
          dsimp only at hallowed
          split_ifs at hallowed with hrole hrefused
          · cases hallowed
          · refine ⟨hanonymous, known, rfl, ?_⟩
            by_contra hnot
            exact hrefused ⟨hbucket, hnot⟩
          · cases hallowed
        · cases (Prod.mk.inj h).2

theorem performs_serveSigned (hunused : UnusedId site.rows draws.uploadId)
    (hbucket : request.bucket = (requestOf router http).bucket)
    (hspeaks : auth.anonymous = false → ∀ known, identity = some known →
      Speaks router draws http site.rows known) :
    Performs router.toServerConfig (Mediated router draws http site.rows) site.rows
      (serveSigned router draws site request http auth identity).1.rows := by
  rw [serveSigned]
  dsimp only
  split_ifs with hunsupported
  · exact .refl _
  · split
    · rename_i next error hdenied
      have hrefused := @performs_authorizeRequest router draws http site site.server request auth
        identity router.toServerConfig (classify request).1
      rwa [hdenied] at hrefused
    · rename_i next passed hpassed
      have hrows : Site.rows { site with server := next } = site.rows :=
        congrArg (fun engine => engine.metadata.rows) (engine_of_authorizeRequest hpassed)
      rw [← hrows] at hunused ⊢
      refine performs_dispatch hunused (fun rows _ _ => .marker _ _) fun hchanges rows asked hsubject hconsole => ?_
      have hnamed := bucket_ne_nil_of_changes hchanges
      obtain ⟨hsigned, known, hknown, hallowed⟩ :=
        allows_of_authorizeRequest hchanges hnamed hpassed
      rw [hbucket] at hallowed hsubject
      rw [hrows]
      exact .asked asked known _ (hspeaks hsigned known hknown) hchanges hallowed hsubject hconsole

theorem performs_attempt (hunused : UnusedId site.rows draws.uploadId) :
    Performs router.toServerConfig (Mediated router draws http site.rows) site.rows
      (attempt router draws site (requestOf router http) http).2.1.rows := by
  rw [attempt]
  split
  · exact .refl _
  · rename_i auth identity hauthenticated
    refine performs_serveSigned hunused (by split_ifs <;> rfl) fun hsigned known hknown => ?_
    rw [hknown] at hauthenticated
    exact speaks_of_authenticated hauthenticated hsigned

theorem rows_decorate {outcome : Except Failure Reply} :
    (decorate router draws site request http outcome).1.rows = site.rows := by
  have hcors := @engine_applyCorsHeaders router.toServerConfig draws.ticks site.server
    (preflightOf draws request http)
  rw [decorate.eq_def]
  dsimp only
  split <;> rename_i hheaders <;> rw [hheaders] at hcors <;>
    exact congrArg (fun engine => engine.metadata.rows) hcors

/-- What a request that is served does to the rows. -/
theorem performs_serve (hunused : UnusedId site.rows draws.uploadId) :
    Performs router.toServerConfig (Mediated router draws http site.rows) site.rows
      (serve router draws site http).1.rows := by
  have hpreflight := @engine_handlePreflight router.toServerConfig draws.ticks site.server
    (preflightOf draws (requestOf router http) http)
  rw [serve]
  dsimp only
  split_ifs with hoptions
  · refine .of_eq ?_
    split
    · rename_i next reply hanswer
      rw [servePreflight] at hanswer
      rw [← (Prod.mk.inj hanswer).1]
      exact congrArg (fun engine => engine.metadata.rows) hpreflight
    · rename_i next failure hanswer
      rw [servePreflight] at hanswer
      rw [rows_decorate, ← (Prod.mk.inj hanswer).1]
      exact congrArg (fun engine => engine.metadata.rows) hpreflight
  · rw [rows_decorate]
    exact performs_attempt hunused

end Served

end MonoBucket.FrontDoors
