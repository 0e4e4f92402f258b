import Argos.Vault.Catalog
import Mathlib.Data.String.Basic

/-!
# Registering, completing and reviewing a bundle

`register_inner`, `complete_unlocked` and `review_inner` of `bundle/server.rs`. The first and the last
hold the storage lock from beginning to end. A completion holds it twice: `completeStart` is what it
does first, then it reads the chunks without the lock, and `completeFinish` is what it does with the
lock held again. Of the directory that the reading in the middle meets nothing is known but that
published files are not changed or removed while one chunk is read, so each look at it is an argument
of `readChunks`. The stamps that the reading takes are compared again under the lock.
-/

namespace Argos.Vault

open Argos.Lib

section Register

variable (P : Primitives) (cfg : ServerConfig)

/-- The limits of `register_inner` on the number of bundles. -/
def checkBundleLimits (s : Server) (agent : String) : Result Unit := do
  refuse ((s.tables.bundles.keys.filter (·.1 = agent)).length ≥ 1000) "에이전트별 번들 1000개 상한"
  refuse (s.tables.bundles.keys.length ≥ maxBundles) "번들 카탈로그 10000개 상한"

/-- A bundle is registered. -/
def Catalog.addBundle (agent id hash : String) (c : Catalog) : Catalog :=
  { c with bundles := c.bundles.insert (agent, id) ⟨hash, none⟩ }

/-- The part of `register_inner` that makes sure that the bundle has a row. -/
def registerRow (agent : String) (manifest : BundleManifest) (r : Readings) : Op Unit := do
  let bytes := P.manifest.encode manifest
  let hash := P.sha256 bytes
  let existing ← Prog.gets (fun s : Server => s.tables.bundles.lookup (agent, manifest.bundleId))
  match existing with
  | some row =>
    Prog.ask fun _ => refuse (row.manifestHash != hash) "동일 번들 ID의 manifest 변경 거부"
  | none => do
    Prog.ask fun s => checkBundleLimits s agent
    let _ ← put P cfg agent hash "bundle-manifest" bytes r
    Prog.durable .external (Server.onCatalog (Catalog.addBundle agent manifest.bundleId hash))

/-- `register_inner`. -/
def registerInner (agent : String) (manifest : BundleManifest) (r : Readings) : Op BundleRecord := do
  Prog.ask fun _ => validate P manifest
  requireCatalog true
  registerRow P cfg agent manifest r
  let raw ← Prog.ask fun s => recordRaw P cfg s agent manifest.bundleId
  Prog.ask fun s => bundleCoverage P cfg s agent manifest.bundleId raw true
  if raw.completion.isNone then pure raw
  else Prog.ask fun s => record P cfg s agent manifest.bundleId

end Register

/-! ## Completion -/

/-- `FileStamp`: what identifies a file's content and links. -/
structure FileStamp where
  name : Name
  file : File
deriving DecidableEq, Repr

/-- `FileStamp::read`. -/
def FileStamp.read (d : Disk) (name : Name) : Result FileStamp :=
  match d.files.lookup name with
  | none => .error .external
  | some file => .ok ⟨name, file⟩

/-- `FileStamp::unchanged`. -/
def FileStamp.unchanged (d : Disk) (stamp : FileStamp) : Result Unit := do
  let now ← FileStamp.read d stamp.name
  refuse (now != stamp) "검증 도중 보관 파일 변경: 완료 게시 보류"

/-- All stamps are unchanged. -/
def checkStamps (d : Disk) : List FileStamp → Result Unit
  | [] => .ok ()
  | stamp :: rest => do
    stamp.unchanged d
    checkStamps d rest

/-- Files stay, with their content; only a temporary link may go. -/
structure Disk.Grows (d d' : Disk) : Prop where
  directories : ∀ agent ∈ d.directories, agent ∈ d'.directories
  files : ∀ name file, d.files.lookup name = some file →
    ∃ linked, d'.files.lookup name = some ⟨file.bytes, linked⟩ ∧ (file.linked = false → linked = false)

theorem Disk.Grows.refl (d : Disk) : d.Grows d :=
  ⟨fun _ h => h, fun _ file h => ⟨file.linked, h, id⟩⟩

/-- The directory as the reader of one chunk meets it: when it takes the stamps, when it reads, and
when it compares the stamps. -/
structure Look where
  before : Disk
  during : Disk
  after : Disk
  read : before.Grows during
  compared : during.Grows after

/-- A directory that is left alone. -/
def Look.still (d : Disk) : Look := ⟨d, d, d, .refl d, .refl d⟩

section Complete

variable (P : Primitives) (cfg : ServerConfig)

/-- One turn of the loop over the chunks: the chunk's content and its two stamps. -/
def readChunk (look : Look) (agent : String) (chunk : Chunk) : Result (Bytes × List FileStamp) := do
  let blob ← FileStamp.read look.before (.blob agent chunk.sha256)
  let receipt ← FileStamp.read look.before (.receipt agent chunk.sha256)
  let (found, bytes) ← look.during.getWithin P cfg (min cfg.maxObjectBytes chunkBytes) agent
    chunk.sha256
  refuse (found.receipt.kind != "backup" || bytes.length != chunk.sizeBytes)
    "번들 청크/수신증명 불일치"
  checkStamps look.after [blob, receipt]
  .ok (bytes, [blob, receipt])

/-- The loop over the chunks, from the `i`-th look on: the contents in order, and all stamps. -/
def readChunks (looks : Nat → Look) (agent : String) :
    List Chunk → Nat → Result (Bytes × List FileStamp)
  | [], _ => .ok ([], [])
  | chunk :: rest, i => do
    let (bytes, stamps) ← readChunk P cfg (looks i) agent chunk
    let (full, more) ← readChunks looks agent rest (i + 1)
    .ok (bytes ++ full, stamps ++ more)

/-- The middle of `complete_unlocked`, without the lock: the stamps of the chunks. -/
def verifyChunks (looks : Nat → Look) (agent : String) (record : BundleRecord) :
    Result (List FileStamp) := do
  let (full, stamps) ← readChunks P cfg looks agent record.manifest.chunks 0
  refuse (P.sha256 full != record.manifest.sha256) "번들 전체 해시 불일치"
  .ok stamps

/-- What the first locked section of `complete_unlocked` ends with. -/
inductive Started where
  /-- The bundle was complete; its record is the answer. -/
  | done (record : BundleRecord)
  /-- The chunks of this record are to be read. -/
  | reading (record : BundleRecord)

/-- The first locked section of `complete_unlocked`. -/
def completeStart (agent id : String) : Op Started := do
  requireCatalog false
  let raw ← Prog.ask fun s => recordRaw P cfg s agent id
  Prog.ask fun s => bundleCoverage P cfg s agent id raw true
  if raw.completion.isSome then do
    let done ← Prog.ask fun s => record P cfg s agent id
    pure (.done done)
  else pure (.reading raw)

/-- The text of the completion of a record. -/
def completionText (agent id : String) (record : BundleRecord) (now : Nat) : Bytes :=
  P.signedCompletion.encode (signValue P.completion
    { format := "argos-bundle-completion-v1"
      keyId := cfg.keyId
      agentId := agent
      bundleId := id
      manifestSha256 := record.manifestReceipt.receipt.sha256
      sha256 := record.manifest.sha256
      sizeBytes := record.manifest.sizeBytes
      completedAtMs := now } cfg.key)

/-- The transaction that ends a completion, up to its commit. -/
def completed (c : Catalog) (agent id hash : String) : Result Catalog :=
  match c.bundles.lookup (agent, id) with
  | some ⟨manifestHash, none⟩ =>
    .ok ({ c with bundles := c.bundles.insert (agent, id) ⟨manifestHash, some hash⟩ }.dropIntent
      agent id .complete)
  | _ => .error (.message "완료 게시 상태 충돌")

/-- The part of the second locked section that publishes the completion of `record`. -/
def publishCompletion (agent id : String) (record : BundleRecord) (r : Readings) : Op Unit := do
  let bytes ← intent agent id .complete (completionText P cfg agent id record r.now)
  let completion ← Prog.ask fun _ => fromSlice P.signedCompletion bytes
  Prog.ask fun _ => verified P cfg { record with completion := some completion }
  let _ ← put P cfg agent (P.sha256 bytes) "bundle-completion" bytes r
  let c ← Prog.ask fun s => completed s.tables agent id (P.sha256 bytes)
  Prog.durable .external (Server.onCatalog fun _ => c)

/-- The second locked section of `complete_unlocked`. -/
def completeFinish (agent id : String) (record : BundleRecord) (stamps : List FileStamp)
    (r : Readings) : Op BundleRecord := do
  requireCatalog false
  let current ← Prog.ask fun s => recordRaw P cfg s agent id
  Prog.ask fun s => bundleCoverage P cfg s agent id current true
  if current.completion.isSome then Prog.ask fun s => Argos.Vault.record P cfg s agent id
  else do
    Prog.ask fun _ => refuse (P.record current != P.record record) "검증 도중 번들 상태 변경"
    Prog.ask fun s => checkStamps s.disk stamps
    publishCompletion P cfg agent id record r
    Prog.ask fun s => Argos.Vault.record P cfg s agent id

/-- `complete_unlocked`, when nothing else happens between its parts. -/
def completeUnlocked (agent id : String) (r : Readings) : Op BundleRecord := do
  let started ← completeStart P cfg agent id
  match started with
  | .done record => pure record
  | .reading record => do
    let stamps ← Prog.ask fun s => verifyChunks P cfg (fun _ => .still s.disk) agent record
    completeFinish P cfg agent id record stamps r

end Complete

/-! ## Review -/

section Review

variable (P : Primitives) (cfg : ServerConfig)

/-- The review of a record that carries a request. -/
def BundleRecord.findRequest (record : BundleRecord) (request : ReviewRequest) :
    Option (Signed ReviewEvent) :=
  record.reviews.find? fun e => e.value.request.requestId == request.requestId

/-- The review that a request adds to a complete record. -/
def newEvent (agent id : String) (record : BundleRecord) (completion : Signed Completion)
    (request : ReviewRequest) (now : Nat) : Signed ReviewEvent :=
  signValue P.review
    { format := "argos-bundle-review-v1"
      keyId := cfg.keyId
      agentId := agent
      bundleId := id
      manifestSha256 := record.manifestReceipt.receipt.sha256
      completionSha256 := P.sha256 (P.signedCompletion.encode completion)
      sequence := record.reviews.length + 1
      previousSha256 := previousHash P record.reviews
      reviewedAtMs := now
      request := request } cfg.key

/-- The transaction that ends a review, up to its commit. -/
def reviewed (c : Catalog) (agent id : String) (sequence : Nat) (hash : String)
    (request : ReviewRequest) : Result Catalog := do
  let c ← c.insertReview ⟨agent, id, sequence, hash, request.requestId⟩
  let c := c.dropIntent agent id .review
  .ok (if request.decision = .revoked then c.dropIntent agent id .revoke else c)

/-- The publication of a review object, by its decision. -/
def putReview (agent : String) (bytes : Bytes) (decision : ReviewDecision) (r : Readings) :
    Op SignedReceipt :=
  if decision = .revoked then putRevocation P cfg agent (P.sha256 bytes) bytes r
  else put P cfg agent (P.sha256 bytes) "bundle-review" bytes r

/-- The part of `review_inner` that adds a review to `record`. -/
def addReview (agent id : String) (record : BundleRecord) (completion : Signed Completion)
    (request : ReviewRequest) (r : Readings) : Op Unit := do
  Prog.ask fun _ => refuse (record.reviews.length ≥ maxReviews ||
    (record.reviews.length + 1 == maxReviews && request.decision != .revoked))
    "번들 검토 이력 100개 상한(마지막 슬롯은 취소 전용)"
  let event := newEvent P cfg agent id record completion request r.now
  let bytes ← intent agent id .review (P.signedReview.encode event)
  let stored ← Prog.ask fun _ => fromSlice P.signedReview bytes
  Prog.ask fun _ => refuse (stored.value.request != request)
    "기존 미완료 검토 요청을 먼저 같은 ID/내용으로 재시도하세요"
  Prog.ask fun _ => verified P cfg (record.push stored)
  let _ ← putReview P cfg agent bytes request.decision r
  let c ← Prog.ask fun s =>
    reviewed s.tables agent id (record.reviews.length + 1) (P.sha256 bytes) request
  Prog.durable .external (Server.onCatalog fun _ => c)

/-- The part of `review_inner` that keeps a revocation and settles what is pending, and returns the
record as it then is. -/
def prepareReview (agent id : String) (record : BundleRecord) (request : ReviewRequest) :
    Op BundleRecord :=
  if request.decision = .revoked then do
    retainRevocationIntent P cfg agent id record request
    settlePendingGood P cfg agent id
    let record ← Prog.ask fun s => recordRaw P cfg s agent id
    Prog.ask fun s => bundleCoverage P cfg s agent id record true
    pure record
  else do
    Prog.ask fun s => refuse (s.hasRevocationIntent agent id)
      "대기 중 취소를 먼저 같은 ID/내용으로 완료해야 합니다"
    pure record

/-- The part of `review_inner` after the preparation. -/
def applyReview (agent id : String) (record : BundleRecord) (request : ReviewRequest)
    (r : Readings) : Op Unit :=
  match record.completion with
  | none => Prog.fail (.message "미완료 번들의 검토는 보류합니다")
  | some completion =>
    match record.findRequest request with
    | some existing =>
      Prog.ask fun _ => refuse (existing.value.request != request) "검토 요청 ID 재사용 내용 불일치"
    | none => addReview P cfg agent id record completion request r

/-- `review_inner`. -/
def reviewInner (agent id : String) (request : ReviewRequest) (r : Readings) : Op BundleRecord := do
  Prog.ask fun _ => validateReview request
  requireCatalog false
  let raw ← Prog.ask fun s => recordRaw P cfg s agent id
  Prog.ask fun s => bundleCoverage P cfg s agent id raw true
  match raw.findRequest request with
  | some existing =>
    if existing.value.request ≠ request then
      Prog.fail (.message "검토 요청 ID 재사용 내용 불일치")
    else Prog.ask fun s => record P cfg s agent id
  | none => do
    Prog.ask fun s => rejectSupersededRequest P s agent id request
    Prog.ask fun _ => refuse raw.completion.isNone "미완료 번들의 검토는 보류합니다"
    let current ← prepareReview P cfg agent id raw request
    applyReview P cfg agent id current request r
    Prog.ask fun s => coverage s
    Prog.ask fun s => record P cfg s agent id

end Review

/-! ## Reading -/

/-- `BundleSummary`. -/
structure BundleSummary where
  bundleId : String
  originalPath : String
  version : Option Int
  sha256 : String
  sizeBytes : Nat
  complete : Bool
  currentReview : String
  recommended : Bool
deriving DecidableEq, Repr

/-- `UnavailableBundle`. -/
structure UnavailableBundle where
  bundleId : String
  reason : String
deriving DecidableEq, Repr

/-- `BundleList`. -/
structure BundleList where
  agentId : String
  items : List BundleSummary
  nextCursor : Option String
  unavailable : List UnavailableBundle
deriving DecidableEq, Repr

section Read

variable (P : Primitives) (cfg : ServerConfig)

/-- What `get` does while it holds the lock. -/
def getBundle (agent id : String) : Op BundleRecord := do
  requireCatalog false
  Prog.ask fun s => coverage s
  Prog.ask fun s => record P cfg s agent id

/-- The summary of a record. -/
def BundleRecord.summary (id : String) (record : BundleRecord) : BundleSummary :=
  { bundleId := id
    originalPath := record.manifest.metadata.originalPath
    version := record.manifest.metadata.version
    sha256 := record.manifest.sha256
    sizeBytes := record.manifest.sizeBytes
    complete := record.completion.isSome
    currentReview := record.currentReview
    recommended := record.recommended }

/-- The loop of `list`: the bundles that can be read, and the others. -/
def summaries (s : Server) (agent : String) :
    List String → List BundleSummary × List UnavailableBundle
  | [] => ([], [])
  | id :: rest =>
    let (items, unavailable) := summaries s agent rest
    match record P cfg s agent id with
    | .ok record => (record.summary id :: items, unavailable)
    | .error _ => (items, ⟨id, "bundle_state_unavailable"⟩ :: unavailable)

/-- The bundles of an agent, with those whose control objects are stored without a row, in order. -/
def Server.bundleIds (s : Server) (agent : String) : List String :=
  let rows := s.tables.bundles.keys.filter (·.1 = agent)
  let owned := s.capacity.bundleControlOwners.keys.filter (·.1 = agent)
  ((rows ++ owned).map (·.2)).dedup.insertionSort (· ≤ ·)

/-- The page of `list` that starts after an identifier. -/
def page (s : Server) (agent : String) (after : Option String) (limit : Nat) : BundleList :=
  let ids := ((s.bundleIds agent).filter fun id => after.getD "" < id).take (limit + 1)
  let (items, unavailable) := summaries P cfg s agent (ids.take limit)
  { agentId := agent
    items := items
    nextCursor := if ids.length > limit then ids[limit - 1]? else none
    unavailable := unavailable }

/-- What `list` does after its checks, while it holds the lock. -/
def listBundles (agent : String) (after : Option String) (limit : Nat) : Op BundleList := do
  let found ← openCatalog false
  if !found then pure ⟨agent, [], none, []⟩
  else do
    Prog.ask fun s => coverage s
    Prog.gets fun s => page P cfg s agent after limit

end Read

end Argos.Vault
