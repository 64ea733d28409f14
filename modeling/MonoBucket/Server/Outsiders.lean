/-
A bucket and those who may not write in it

S3 requests as they arrive, and requests of the console and of the background tasks, in any order.
The rows of a bucket, and what is reported about it, are what they were as long as nothing but S3
requests touches it, and nobody these speak for may write in it. A request speaks for nobody when
it is not signed, whatever else it carries.
-/

import MonoBucket.Server.Mediation

namespace MonoBucket.FrontDoors

open S3 Codec

/-! ### Buckets that stay as they are -/

/-- The rows of a bucket are what they were, and so is what is reported about it. -/
structure Untouched (before after : Rows) (name : Bytes) : Prop where
  rows : ∀ key, RowOf before name key → after.find? key = before.find? key
  reports : SameReports before after name

section Untouching

variable {before middle after rows : Rows} {name key : Bytes}

theorem Untouched.refl (rows : Rows) : Untouched rows rows name :=
  ⟨fun _ _ => rfl, ⟨⟨fun _ => rfl, fun _ => rfl, rfl, rfl⟩, rfl⟩⟩

/-- The rows of a bucket are the same ones afterwards. -/
theorem Untouched.rowOf (h : Untouched before after name) (hrow : RowOf before name key) :
    RowOf after name key := by
  have hkept : ∀ uploadId, UploadIn before name uploadId → UploadIn after name uploadId := by
    rintro uploadId ⟨upload, hload, hbucket⟩
    refine ⟨upload, ?_, hbucket⟩
    rw [loadUpload, readRow, h.rows _ (.upload uploadId ⟨upload, hload, hbucket⟩)]
    exact hload
  cases hrow with
  | bucket => exact .bucket
  | range _ hrange => exact .range _ hrange
  | upload uploadId hupload => exact .upload uploadId (hkept uploadId hupload)
  | part uploadId number hupload => exact .part uploadId number (hkept uploadId hupload)

theorem Untouched.trans (h : Untouched before middle name) (hrest : Untouched middle after name) :
    Untouched before after name where
  rows key hrow := (hrest.rows key (h.rowOf hrow)).trans (h.rows key hrow)
  reports :=
    { listings :=
        { objects := fun request =>
            (hrest.reports.listings.objects request).trans (h.reports.listings.objects request)
          uploads := fun request =>
            (hrest.reports.listings.uploads request).trans (h.reports.listings.uploads request)
          hasObjects := hrest.reports.listings.hasObjects.trans h.reports.listings.hasObjects
          hasUploads := hrest.reports.listings.hasUploads.trans h.reports.listings.hasUploads }
      usage := hrest.reports.usage.trans h.reports.usage }

theorem Untouched.stored (h : Untouched before after name)
    (hstored : (before.find? (Keys.bucket name)).isSome) :
    (after.find? (Keys.bucket name)).isSome := by
  rw [h.rows _ .bucket]
  exact hstored

end Untouching

/-! ### Requests on other buckets -/

section Others

variable {config : ServerConfig} {server : Server} {request : Request} {ticks : Int64}
  {name key : Bytes} {op : RowOp}

/-- A row of a bucket is one the reports on it read, or one the scan charges to it. -/
theorem reads_or_charged_of_rowOf {rows : Rows} (hrows : rows.Holds FiledRow)
    (h : RowOf rows name key) :
    Reads rows name key ∨ charged name (fun uploadId => UploadIn rows name uploadId) key = true := by
  cases h with
  | bucket => exact .inl .bucket
  | range _ hrange => exact .inl (.range _ hrange)
  | upload uploadId hupload => exact .inr (decide_eq_true hupload)
  | part uploadId number hupload =>
      obtain ⟨upload, hload, hbucket⟩ := hupload
      obtain ⟨stored, hstored, hdecode⟩ := decode_of_readRow hload
      obtain ⟨written, hplain, hkey, rfl⟩ := (hrows _ stored hstored).upload rfl
      obtain rfl : uploadId = written.uploadId := (List.cons.inj hkey).2
      rw [charged_part hplain.2]
      exact .inr (decide_eq_true ⟨upload, hload, hbucket⟩)

/-- A request on another bucket leaves a bucket untouched. -/
theorem Filed.untouched (hfiled : Filed server.engine.metadata.rows) (hfresh : Fresh server request)
    (hname : (server.engine.metadata.rows.find? (Keys.bucket name)).isSome)
    (hsubject : subject server.engine.metadata.rows request ≠ some name) :
    Untouched server.engine.metadata.rows
      (FrontDoors.perform config ticks server request).1.engine.metadata.rows name := by
  refine ⟨fun key hrow => ?_, hfiled.sameReports hfresh hname hsubject⟩
  refine (writes_perform config ticks server request).find?_eq fun op hop hkey => ?_
  rcases reads_or_charged_of_rowOf hfiled.filed hrow with hreads | hcharged
  · exact not_reads_of_writes hfiled hfresh hname hsubject hop (hkey ▸ hreads)
  · have hnot := not_charged_of_writes hfiled hfresh hsubject hop
    rw [hkey, hcharged] at hnot
    cases hnot

/-- So do any number of them, one after another. -/
theorem untouched_of_performs {allowed : Rows → Request → Prop} {before after : Rows}
    (h : Performs config allowed before after)
    (hsubject : ∀ rows request, allowed rows request → subject rows request ≠ some name)
    (hconsole : ∀ rows request, allowed rows request → consoleCreated request = none)
    (hfiled : Filed before) (hname : (before.find? (Keys.bucket name)).isSome) :
    Filed after ∧ Untouched before after name := by
  induction h with
  | refl rows => exact ⟨hfiled, .refl rows⟩
  | step server ticks request after hallowed hfresh _ ih =>
      have huntouched := @Filed.untouched config server request ticks name hfiled hfresh hname
        (hsubject _ _ hallowed)
      have hvalid : CreatesValid server (ticks, request) := by
        rw [CreatesValid, hconsole _ _ hallowed]
        simp
      obtain ⟨hafter, hrest⟩ := ih (hfiled.perform hfresh hvalid) (huntouched.stored hname)
      exact ⟨hafter, huntouched.trans hrest⟩

/-- Requests that make no bucket through the console keep the rows in order. -/
theorem filed_of_performs {allowed : Rows → Request → Prop} {before after : Rows}
    (h : Performs config allowed before after)
    (hconsole : ∀ rows request, allowed rows request → consoleCreated request = none)
    (hfiled : Filed before) : Filed after := by
  induction h with
  | refl rows => exact hfiled
  | step server ticks request after hallowed hfresh _ ih =>
      have hvalid : CreatesValid server (ticks, request) := by
        rw [CreatesValid, hconsole _ _ hallowed]
        simp
      exact ih (hfiled.perform hfresh hvalid)

end Others

/-! ### Runs -/

/-- An S3 request as it arrives, or a request of the console or of a background task. -/
inductive Arrival
  | serve (draws : Draws) (http : HttpRequest)
  | other (label : Label)

section Arriving

variable (router : Router)

def answer (site : Site) : Arrival → Option Site
  | .serve draws http =>
    if UnusedId site.rows draws.uploadId then some (serve router draws site http).1 else none
  | .other label =>
    (step router.toServerConfig site.server label).map fun server => { site with server := server }

/-- The console is asked for valid names only. -/
def NamesChecked (site : Site) : Arrival → Prop
  | .serve _ _ => True
  | .other label => CreatesValid site.server label

instance (site : Site) : ∀ move, Decidable (NamesChecked site move)
  | .serve _ _ => isTrue trivial
  | .other label => inferInstanceAs (Decidable (CreatesValid site.server label))

/-- Nobody an S3 request speaks for may write in the bucket, and no other request is about it. -/
def Outside (name : Bytes) (site : Site) : Arrival → Prop
  | .serve draws http =>
    ∀ identity, Speaks router draws http site.rows identity → ¬ MayWrite identity name
  | .other label =>
    subject site.rows label.2 ≠ some name ∧ CreatesValid site.server label

end Arriving

section Runs

variable {router : Router} {site next : Site} {move : Arrival} {name : Bytes}

theorem consoleCreated_of_mediated {draws : Draws} {http : HttpRequest} {found rows : Rows}
    {request : Request} (h : Mediated router draws http found rows request) :
    consoleCreated request = none := by
  cases h with
  | refusal | marker => rfl
  | asked request identity operation hspeaks hchanges hallowed hsubject hconsole => exact hconsole

/-- What changes a bucket takes a permission to write. -/
theorem mayWrite_of_allowsIn {identity : SignedIdentity} {operation : Operation}
    (hchanges : changes operation = true)
    (hallowed : allowsIn identity.role identity.grants name (permissionFor operation) = true) :
    MayWrite identity name := by
  cases operation <;> first | exact .inl hallowed | exact .inr hallowed | cases hchanges

/-- What is asked for an outsider is not asked of the bucket. -/
theorem subject_of_mediated {draws : Draws} {http : HttpRequest} {found rows : Rows}
    {request : Request}
    (houtside : ∀ identity, Speaks router draws http found identity → ¬ MayWrite identity name)
    (h : Mediated router draws http found rows request) : subject rows request ≠ some name := by
  cases h with
  | refusal | marker => exact fun hsubject => by cases hsubject
  | asked request identity operation hspeaks hchanges hallowed hsubject hconsole =>
      intro hname
      rw [hsubject] at hname
      rw [Option.some.inj hname] at hallowed
      exact houtside identity hspeaks (mayWrite_of_allowsIn hchanges hallowed)

/-- An arrival keeps the rows in order. -/
theorem Filed.answer (hfiled : Filed site.rows) (hvalid : NamesChecked site move)
    (hnext : FrontDoors.answer router site move = some next) : Filed next.rows := by
  cases move with
  | serve draws http =>
      simp only [FrontDoors.answer] at hnext
      split_ifs at hnext with hunused
      obtain rfl := Option.some.inj hnext
      exact filed_of_performs (performs_serve hunused) (fun _ _ h => consoleCreated_of_mediated h)
        hfiled
  | other label =>
      obtain ⟨server, hstep, rfl⟩ := Option.map_eq_some_iff.mp hnext
      simp only [FrontDoors.step] at hstep
      split_ifs at hstep with hfresh
      obtain rfl := Option.some.inj hstep
      exact hfiled.perform hfresh hvalid

/-- An arrival from outside leaves the bucket untouched. -/
theorem untouched_of_outside (hfiled : Filed site.rows)
    (hstored : (site.rows.find? (Keys.bucket name)).isSome) (houtside : Outside router name site move)
    (hnext : answer router site move = some next) :
    Filed next.rows ∧ Untouched site.rows next.rows name := by
  cases move with
  | serve draws http =>
      simp only [answer] at hnext
      split_ifs at hnext with hunused
      obtain rfl := Option.some.inj hnext
      exact untouched_of_performs (performs_serve hunused)
        (fun _ _ h => subject_of_mediated houtside h) (fun _ _ h => consoleCreated_of_mediated h)
        hfiled hstored
  | other label =>
      obtain ⟨server, hstep, rfl⟩ := Option.map_eq_some_iff.mp hnext
      simp only [FrontDoors.step] at hstep
      split_ifs at hstep with hfresh
      obtain rfl := Option.some.inj hstep
      exact ⟨hfiled.perform hfresh houtside.2, hfiled.untouched hfresh hstored houtside.1⟩

/-- From a server that starts with an empty store: once a bucket is there, no run of arrivals
from outside changes a row of it, or anything that is reported about it. -/
theorem untouched_by_outsiders {start middle final : Site} {opening rest : List Arrival}
    (hempty : start.rows = .empty)
    (hvalid : Trace.Every (answer router) NamesChecked start opening)
    (hopening : Trace.run (answer router) start opening = some middle)
    (hstored : (middle.rows.find? (Keys.bucket name)).isSome)
    (houtside : Trace.Every (answer router) (Outside router name) middle rest)
    (hrest : Trace.run (answer router) middle rest = some final) :
    Untouched middle.rows final.rows name := by
  have hstart : Filed start.rows := by
    rw [hempty]
    refine ⟨fun _ hpresent => ?_, Rows.Holds.empty, fun _ _ hpresent => ?_⟩ <;> cases hpresent
  have hordered : ∀ {site : Site} {move : Arrival} {next : Site}, Filed site.rows →
      NamesChecked site move → answer router site move = some next → Filed next.rows :=
    fun h hmove hnext => h.answer hmove hnext
  have hfiled : Filed middle.rows := hvalid.run_invariant hordered hstart hopening
  have hkept : ∀ {site : Site} {move : Arrival} {next : Site},
      (Filed site.rows ∧ Untouched middle.rows site.rows name) → Outside router name site move →
      answer router site move = some next →
      Filed next.rows ∧ Untouched middle.rows next.rows name := by
    rintro site move next ⟨hsite, hsame⟩ hmove hnext
    obtain ⟨hafter, hrest⟩ := untouched_of_outside hsite (hsame.stored hstored) hmove hnext
    exact ⟨hafter, hsame.trans hrest⟩
  exact (houtside.run_invariant hkept ⟨hfiled, .refl _⟩ hrest).2

end Runs

/-! ### A fixed run -/

section Refused

/-- A key a request speaks for is the one it claims, and what is behind it is in the store. -/
theorem claims_of_speaks {router : Router} {draws : Draws} {http : HttpRequest} {rows : Rows}
    {identity : SignedIdentity} (h : Speaks router draws http rows identity) :
    ∃ accessKey, claimedKey (toSigningRequest http) (parseQuery http.query)
        (authOptions draws http.method) = some accessKey ∧
      (accessKey = router.rootAccessKey ∨ ∃ key user,
        accessKeyAt rows accessKey = .ok (some key) ∧ userAt rows key.owner.items = .ok (some user) ∧
          identity = ⟨user.role, user.username, user.buckets⟩) := by
  cases h with
  | root auth hkey hverified =>
      exact ⟨_, (authenticate_resolves hverified.verified hverified.signed).1, .inl hkey⟩
  | owner auth key user hkey howner henabled hverified =>
      exact ⟨_, (authenticate_resolves hverified.verified hverified.signed).1,
        .inr ⟨key, user, hkey, howner, rfl⟩⟩

def smallRouter : Router where
  toServerConfig := smallConfig
  crypto := ⟨fun _ => ascii "00", fun _ _ => [1]⟩
  evp := ⟨fun _ => .empty, fun _ => .empty, fun _ => ascii "00"⟩
  parseHttpDate _ := none
  rootAccessKey := ascii "root"
  rootSecretKey := ascii "secret"

def guestKey : Bytes := ascii "MBAAAAAAAAAAAAAAAAAA"

/-- An operator who may read, and a key of theirs. -/
def staffed : List Arrival :=
  [.other (0, .createBucket photos 0),
    .other (0, .system (.putUser
      { username := ascii "guest", role := .operator, buckets := { fallback := .read } })),
    .other (0, .system (.putAccessKey
      { accessKeyId := guestKey, secretKey := ⟨ascii "key", by decide⟩,
        owner := ⟨ascii "guest", by decide⟩ }))]

def opened : Site := ⟨coldServer, .empty⟩

def withStaff : Site := (Trace.run (answer smallRouter) opened staffed).getD opened

/-- A put into the bucket, with a query. -/
def putCat (query : Bytes) : HttpRequest where
  method := ascii "PUT"
  originalPath := ascii "/photos/cat"
  path := ascii "/photos/cat"
  query := query
  headers := ⟨[(ascii "host", ascii "h")], by decide, by decide⟩
  body := ascii "abc"

/-- Field by field, with their names. -/
def guestQuery : Bytes :=
  joined (letter '&') ([("Algorithm", ascii "AWS4-HMAC-SHA256"),
    ("Credential", guestKey ++ ascii "/20240101" ++ ascii "/us-east-1" ++ ascii "/s3" ++
      ascii "/aws4_request"),
    ("Date", ascii "20240101T000000Z"), ("Expires", ascii "60"), ("SignedHeaders", ascii "host"),
    ("Signature", ascii "01")].map fun field =>
      ascii "X-Amz-" ++ ascii field.1 ++ letter '=' :: field.2)

def newYear : Draws := { nowSeconds := 1704067200 }

/-- The console makes another bucket, and the guest puts an object into the first. -/
def refusedPut : List Arrival :=
  [.other (0, .consoleCreateBucket albums 1000 0), .serve newYear (putCat guestQuery)]

/-- The first bucket is as it was. -/
theorem untouched_by_outsiders_refusedPut :
    ∃ final, Trace.run (answer smallRouter) withStaff refusedPut = some final ∧
      Untouched withStaff.rows final.rows photos := by
  have hruns : (Trace.run (answer smallRouter) opened staffed).isSome ∧
      (Trace.run (answer smallRouter) withStaff refusedPut).isSome := by decide +kernel
  obtain ⟨middle, hmiddle⟩ := Option.isSome_iff_exists.mp hruns.1
  obtain ⟨final, hfinal⟩ := Option.isSome_iff_exists.mp hruns.2
  have hstaff : withStaff = middle := by rw [withStaff, hmiddle]; rfl
  have hvalid : Trace.Every (answer smallRouter) NamesChecked opened staffed := by decide +kernel
  have hguest : claimedKey (toSigningRequest (putCat guestQuery)) (parseQuery guestQuery)
      (authOptions newYear (ascii "PUT")) = some guestKey := by decide +kernel
  have hstored : (withStaff.rows.find? (Keys.bucket photos)).isSome ∧
      subject withStaff.rows (.consoleCreateBucket albums 1000 0) ≠ some photos ∧
      CreatesValid withStaff.server (0, .consoleCreateBucket albums 1000 0) := by decide +kernel
  have houtside : Trace.Every (answer smallRouter) (Outside smallRouter photos) withStaff
      refusedPut := by
    refine ⟨hstored.2, fun next hnext => ⟨fun identity hspeaks hmay => ?_, fun _ _ => trivial⟩⟩
    obtain ⟨accessKey, hclaimed, hbehind⟩ := claims_of_speaks hspeaks
    obtain rfl := Option.some.inj (hguest.symm.trans hclaimed)
    rcases hbehind with hroot | ⟨key, user, hkey, huser, rfl⟩
    · exact absurd hroot (by decide)
    · have hfound : accessKeyAt next.rows guestKey = .ok (some
          { accessKeyId := guestKey, secretKey := ⟨ascii "key", by decide⟩,
            owner := ⟨ascii "guest", by decide⟩ }) ∧
          userAt next.rows (ascii "guest") = .ok (some
            { username := ascii "guest", role := .operator, buckets := { fallback := .read } }) := by
        rw [← Option.some.inj hnext]
        decide +kernel
      obtain rfl := Option.some.inj (Except.ok.inj (hfound.1.symm.trans hkey))
      obtain rfl := Option.some.inj (Except.ok.inj (hfound.2.symm.trans huser))
      rw [MayWrite] at hmay
      exact absurd hmay (by decide)
  exact ⟨final, hfinal, untouched_by_outsiders rfl hvalid (hstaff ▸ hmiddle) hstored.1 houtside
    hfinal⟩

end Refused

end MonoBucket.FrontDoors
