import Argos.Vault.Storage
import Mathlib.Data.List.Sort

/-!
# The bundle catalog

`Catalog` of `bundle/server.rs`. The three tables are in `Server.catalog`. A query of the source is a
function of the server here, a statement or transaction that changes the tables is one durable step,
and a constraint of the schema that a statement would break is an error of that statement. An intent
is the text of a control object that a call is about to publish; it is stored before the object, so
that a later call can go on with the same text.
-/

namespace Argos.Vault

open Argos.Lib

/-- `MAX_BUNDLES`. -/
def maxBundles : Nat := 10000

/-- The content of the marker file. -/
def catalogText : Bytes := "argos-bundle-catalog-v1".toUTF8.toList

namespace Server

/-- The tables, once their schema is committed. -/
def tables (s : Server) : Catalog := s.catalog.getD .empty

/-- The server with other tables. -/
def onCatalog (g : Catalog → Catalog) (s : Server) : Server := { s with catalog := s.catalog.map g }

end Server

/-! ## Opening -/

/-- The part of `Catalog::open` that makes a new catalog. -/
def createCatalog : Op Bool := do
  writeNew .database []
  -- `CREATE TABLE` fails where there are tables.
  Prog.ask fun s => if s.catalog.isSome then .error .external else .ok ()
  Prog.durable .external fun s => { s with catalog := some .empty }
  writeNew .marker catalogText
  pure true

/-- The part of `Catalog::open` that checks a catalog. -/
def checkCatalog (s : Server) : Result Bool := do
  let text ← readStorageFile (s.disk.files.lookup .marker) 64
  refuse (text != catalogText) "번들 카탈로그 표식 오류"
  refuse ((s.disk.files.lookup .database).any (·.linked)) "카탈로그 파일 권한 오류"
  refuse s.catalog.isNone "카탈로그 형식/무결성 오류"
  .ok true

/-- `Catalog::open`: whether there is a catalog. -/
def openCatalog (create : Bool) : Op Bool := do
  let exists? ← Prog.gets (fun s : Server => s.disk.has .database)
  let marked ← Prog.gets (fun s : Server => s.disk.has .marker)
  if !exists? && !marked then do
    Prog.ask fun s => refuse (s.capacity.bundleControlObjects > 0 ||
      !s.capacity.reconstructionComplete || !s.capacity.storageConsistent)
      "번들 제어 객체와 카탈로그 상태 불일치: 자동 초기화 거부"
    if !create then pure false else createCatalog
  else if !exists? || !marked then
    Prog.fail (.message "번들 카탈로그 초기화/유실 흔적: 수동 점검 필요")
  else Prog.ask checkCatalog

/-- `Catalog::open(..)?.ok_or(..)?`. -/
def requireCatalog (create : Bool) : Op Unit := do
  let found ← openCatalog create
  Prog.ask fun _ => refuse (!found) "카탈로그 없음"

/-! ## Intents -/

/-- The intent of a bundle for an operation. -/
def Server.intentAt (s : Server) (agent id : String) (operation : Operation) : Option Bytes :=
  s.tables.intents.lookup (agent, id, operation)

/-- An intent is stored. -/
def Catalog.addIntent (agent id : String) (operation : Operation) (text : Bytes) (c : Catalog) :
    Catalog := { c with intents := c.intents.insert (agent, id, operation) text }

/-- An intent is removed. -/
def Catalog.dropIntent (agent id : String) (operation : Operation) (c : Catalog) : Catalog :=
  { c with intents := c.intents.erase (agent, id, operation) }

/-- `Catalog::intent`. -/
def intent (agent id : String) (operation : Operation) (proposed : Bytes) : Op Bytes := do
  let old ← Prog.gets (fun s : Server => s.intentAt agent id operation)
  match old with
  | some old => do
    Prog.ask fun _ => refuse (old.length > maxManifestBytes) "게시 의도 크기 오류"
    pure old
  | none => do
    Prog.durable .external fun s =>
      { s.onCatalog (Catalog.addIntent agent id operation proposed) with
        hashed := proposed :: s.hashed }
    pure proposed

/-- `Catalog::has_revocation_intent`. -/
def Server.hasRevocationIntent (s : Server) (agent id : String) : Bool :=
  (s.intentAt agent id .revoke).isSome

/-- The superseded reviews of a bundle. -/
def Catalog.superseded (c : Catalog) (agent id : String) : List Bytes :=
  c.intents.entries.filterMap fun e => match e.1 with
    | (a, b, .superseded _) => if a = agent ∧ b = id then some e.2 else none
    | _ => none

/-! ## Records -/

/-- The record with one more review, and the verdict of that review. -/
def BundleRecord.push (record : BundleRecord) (event : Signed ReviewEvent) : BundleRecord :=
  { record with
    reviews := record.reviews ++ [event]
    currentReview := event.value.request.decision.text
    recommended := event.value.request.decision.text == "good" }

/-- The verdict of the last review is that of the record. -/
theorem currentReview_append (reviews : List (Signed ReviewEvent)) (event : Signed ReviewEvent) :
    currentReview (reviews ++ [event]) = event.value.request.decision.text := by
  rw [currentReview, List.getLast?_concat]

/-- One more review of an accepted, complete record is accepted when there is room for it and it fits
at the end. -/
theorem verifyRecord_push {P : Primitives} {record : BundleRecord} {key keyId : String}
    {completion : Signed Completion} {event : Signed ReviewEvent}
    (hrecord : verifyRecord P record key keyId = .ok ()) (hc : record.completion = some completion) :
    verifyRecord P (record.push event) key keyId = .ok () ↔
      record.reviews.length < maxReviews ∧ ReviewFits P key keyId record completion event
        record.reviews.length (previousHash P record.reviews) := by
  obtain ⟨hmanifest, hagent, -, hreceipt, hmatches, hhistory, -⟩ := verifyRecord_ok_iff.1 hrecord
  rw [hc] at hhistory
  obtain ⟨hsign, hcompletion, hreviews⟩ := hhistory
  have hor : (previousHash P record.reviews).or none = previousHash P record.reviews := by simp
  rw [verifyRecord_ok_iff]
  simp only [BundleRecord.push, hc, verifyReviews_append_singleton, currentReview_append, hor,
    List.length_append, List.length_singleton, Nat.zero_add, Option.isSome_some, Bool.and_true,
    and_true]
  constructor
  · rintro ⟨-, -, hlen, -, -, -, -, state, -, hfits, -⟩
    exact ⟨hlen, hfits⟩
  · rintro ⟨hlen, hfits⟩
    exact ⟨hmanifest, hagent, hlen, hreceipt, hmatches, hsign, hcompletion, _, hreviews, hfits, rfl⟩

/-- A record with a review is complete. -/
theorem verifyRecord_push_complete {P : Primitives} {record : BundleRecord} {key keyId : String}
    {event : Signed ReviewEvent} (h : verifyRecord P (record.push event) key keyId = .ok ()) :
    ∃ completion, record.completion = some completion := by
  have hhistory := (verifyRecord_ok_iff.1 h).2.2.2.2.2.1
  rcases hc : record.completion with _ | completion
  · simp [BundleRecord.push, hc] at hhistory
  · exact ⟨completion, rfl⟩

section Records

variable (P : Primitives) (cfg : ServerConfig)

/-- `verify_record` with the server's own key. -/
def verified (record : BundleRecord) : Result Unit :=
  verifyRecord P record cfg.key.publicHex cfg.keyId

/-- The review rows of a bundle, `ORDER BY sequence LIMIT 101`. -/
def Catalog.rows (c : Catalog) (agent id : String) : List ReviewRow :=
  ((c.reviews.filter fun r => r.agent = agent ∧ r.bundle = id).insertionSort
    fun a b => a.sequence ≤ b.sequence).take 101

/-- The completion object of a bundle. -/
def readCompletion (d : Disk) (agent : String) : Option String → Result (Option (Signed Completion))
  | none => .ok none
  | some hash => do
    let (receipt, bytes) ← d.get P cfg agent hash
    refuse (receipt.receipt.kind != "bundle-completion") "완료 객체 종류 오류"
    (fromSlice P.signedCompletion bytes).map some

/-- The review object of a row. -/
def readReview (d : Disk) (agent : String) (row : ReviewRow) : Result (Signed ReviewEvent) := do
  let (receipt, bytes) ← d.get P cfg agent row.hash
  let event ← fromSlice P.signedReview bytes
  refuse (receipt.receipt.kind != "bundle-review" || event.value.sequence != row.sequence ||
    event.value.request.requestId != row.requestId) "검토 객체 카탈로그 불일치"
  .ok event

/-- The review objects of a list of rows, in order. -/
def readReviews (d : Disk) (agent : String) : List ReviewRow → Result (List (Signed ReviewEvent))
  | [] => .ok []
  | row :: rest => do
    let event ← readReview P cfg d agent row
    let events ← readReviews d agent rest
    .ok (event :: events)

/-- The record that `record_raw` puts together from its parts. -/
def assemble (agent : String) (manifest : BundleManifest) (manifestReceipt : SignedReceipt)
    (completion : Option (Signed Completion)) (reviews : List (Signed ReviewEvent)) : BundleRecord :=
  { agentId := agent
    manifest := manifest
    manifestReceipt := manifestReceipt
    completion := completion
    reviews := reviews
    currentReview := currentReview reviews
    recommended := currentReview reviews == "good" && completion.isSome }

/-- `Catalog::record_raw`. -/
def recordRaw (s : Server) (agent id : String) : Result BundleRecord :=
  match s.tables.bundles.lookup (agent, id) with
  | none => .error .external
  | some row => do
    let (manifestReceipt, bytes) ← s.disk.get P cfg agent row.manifestHash
    let manifest ← fromSlice P.manifest bytes
    refuse (manifest.bundleId != id) "manifest 카탈로그 ID 불일치"
    let completion ← readCompletion P cfg s.disk agent row.completionHash
    let reviews ← readReviews P cfg s.disk agent (s.tables.rows agent id)
    verified P cfg (assemble agent manifest manifestReceipt completion reviews)
    .ok (assemble agent manifest manifestReceipt completion reviews)

/-! ## Coverage -/

/-- `Catalog::coverage`. -/
def coverage (s : Server) : Result Unit := do
  refuse (!s.capacity.reconstructionComplete || !s.capacity.storageConsistent ||
    sumOver id s.capacity.bundleControlOwners % 2^64 != s.capacity.bundleControlObjects)
    "소유 번들을 확인할 수 없는 보관 상태: 전체 추천 보류"
  refuse (s.tables.bundles.keys.length > maxBundles ||
    s.tables.bundles.keys.any fun k => !validId k.1 || !validBundleId k.2)
    "카탈로그 전역 신원/상한 오류"

/-- The kind of the object that an intent is for. -/
def Operation.kind : Operation → String
  | .complete => "bundle-completion"
  | _ => "bundle-review"

/-- The record as it will be when the object of an intent is published. -/
def withPending (record : BundleRecord) (operation : Operation) (pending : Bytes) :
    Result BundleRecord :=
  if operation = .complete then do
    refuse record.completion.isSome "완료 의도/상태 충돌"
    let completion ← fromSlice P.signedCompletion pending
    .ok { record with completion := some completion }
  else do
    let event ← fromSlice P.signedReview pending
    .ok (record.push event)

/-- Something of an object is there. -/
def Disk.hasObject (d : Disk) (agent hash : String) : Bool :=
  d.has (.blob agent hash) || d.has (.receipt agent hash)

/-- The object of a pending intent: one if it is published, none if it is not. -/
def pendingObject (d : Disk) (agent kind : String) (pending : Bytes) : Result Nat :=
  if d.hasObject agent (P.sha256 pending) then do
    let (receipt, bytes) ← d.get P cfg agent (P.sha256 pending)
    refuse (receipt.receipt.kind != kind || bytes != pending) "게시 의도 객체 불일치"
    .ok 1
  else .ok 0

/-- One turn of the loop of `bundle_coverage`: the objects of an intent that must be counted. -/
def pendingCount (s : Server) (agent id : String) (record : BundleRecord) (operation : Operation) :
    Result Nat :=
  match s.intentAt agent id operation with
  | none => .ok 0
  | some pending => do
    refuse (pending.length > maxManifestBytes) "게시 의도 크기 오류"
    let check ← withPending P record operation pending
    verified P cfg check
    pendingObject P cfg s.disk agent operation.kind pending

/-- The loop of `bundle_coverage`. -/
def repairCount (s : Server) (agent id : String) (record : BundleRecord) (repair : Bool) :
    Result Nat :=
  if repair then do
    let completions ← pendingCount P cfg s agent id record .complete
    let reviews ← pendingCount P cfg s agent id record .review
    .ok (completions + reviews)
  else .ok 0

/-- The control objects of a record. -/
def BundleRecord.objects (record : BundleRecord) : Nat :=
  1 + (if record.completion.isSome then 1 else 0) + record.reviews.length

/-- `Catalog::bundle_coverage`. -/
def bundleCoverage (s : Server) (agent id : String) (record : BundleRecord) (repair : Bool) :
    Result Unit := do
  coverage s
  let pending ← repairCount P cfg s agent id record repair
  refuse (record.objects + pending != valueAt s.capacity.bundleControlOwners (agent, id))
    "해당 번들 제어 객체/카탈로그 불일치: 복구 보류"

/-- The check that `Catalog::record` makes on a pending review. -/
def checkNotRevoking (s : Server) (agent id : String) : Result Unit :=
  match s.intentAt agent id .review with
  | none => .ok ()
  | some pending => do
    let event ← fromSlice P.signedReview pending
    refuse (event.value.request.decision == .revoked)
      "정상 판정 취소가 게시 대기 중이므로 복구/추천을 보류합니다"

/-- `Catalog::record`. -/
def record (s : Server) (agent id : String) : Result BundleRecord := do
  refuse (s.hasRevocationIntent agent id)
    "취소 의도가 영속 저장되어 완료 전까지 복구/추천을 보류합니다"
  checkNotRevoking P s agent id
  let raw ← recordRaw P cfg s agent id
  bundleCoverage P cfg s agent id raw false
  .ok raw

/-! ## Reviews -/

/-- The text of a revocation intent. -/
def revocationText (agent id : String) (record : BundleRecord) (request : ReviewRequest) : Bytes :=
  P.signedRevocation.encode (signValue P.revocation
    { format := "argos-bundle-revocation-intent-v1"
      keyId := cfg.keyId
      agentId := agent
      bundleId := id
      manifestSha256 := record.manifestReceipt.receipt.sha256
      request := request } cfg.key)

/-- The checks of `retain_revocation_intent` on the intent that is stored. -/
def checkRevocation (agent id : String) (record : BundleRecord) (request : ReviewRequest)
    (bytes : Bytes) : Result Unit := do
  let existing ← fromSlice P.signedRevocation bytes
  verifyValue P P.revocation existing cfg.key.publicHex
  let v := existing.value
  refuse (v.format != "argos-bundle-revocation-intent-v1" || v.keyId != cfg.keyId ||
    v.agentId != agent || v.bundleId != id ||
    v.manifestSha256 != record.manifestReceipt.receipt.sha256 || v.request != request)
    "대기 중 취소 요청의 ID/내용이 다릅니다"

/-- `Catalog::retain_revocation_intent`. -/
def retainRevocationIntent (agent id : String) (record : BundleRecord) (request : ReviewRequest) :
    Op Unit := do
  let bytes ← intent agent id .revoke (revocationText P cfg agent id record request)
  Prog.ask fun _ => checkRevocation P cfg agent id record request bytes

/-- The loop of `reject_superseded_request`, from the `index`-th text on. -/
def checkSuperseded (request : ReviewRequest) : List Bytes → Nat → Result Unit
  | [], _ => .ok ()
  | raw :: rest, index => do
    refuse (index ≥ maxReviews || raw.length > maxManifestBytes)
      "대체된 미완료 검토 보존 상한/형식 오류"
    let event ← fromSlice P.signedReview raw
    refuse (event.value.request.requestId == request.requestId)
      "취소로 대체된 미완료 검토 요청은 재적용할 수 없습니다"
    checkSuperseded request rest (index + 1)

/-- `Catalog::reject_superseded_request`. -/
def rejectSupersededRequest (s : Server) (agent id : String) (request : ReviewRequest) :
    Result Unit :=
  checkSuperseded P request ((s.tables.superseded agent id).take 101) 0

/-- `INSERT INTO reviews`, with the constraints of its table. -/
def Catalog.insertReview (row : ReviewRow) (c : Catalog) : Result Catalog :=
  if c.reviews.any fun r => r.agent = row.agent ∧ r.bundle = row.bundle ∧
      (r.sequence = row.sequence ∨ r.requestId = row.requestId) then .error .external
  else .ok { c with reviews := c.reviews ++ [row] }

/-- The transaction of `settle_pending_good`, up to its commit. -/
def settled (s : Server) (agent id : String) (raw : Bytes) (event : Signed ReviewEvent) :
    Result Catalog :=
  if s.disk.hasObject agent (P.sha256 raw) then do
    let (receipt, bytes) ← s.disk.get P cfg agent (P.sha256 raw)
    refuse (receipt.receipt.kind != "bundle-review" || bytes != raw) "미완료 정상 검토 객체 불일치"
    let c ← s.tables.insertReview
      ⟨agent, id, event.value.sequence, P.sha256 raw, event.value.request.requestId⟩
    .ok (c.dropIntent agent id .review)
  else do
    refuse ((s.tables.superseded agent id).length ≥ maxReviews)
      "대체된 미완료 검토 보존 100개 상한: 취소 의도는 유지됩니다"
    if (s.intentAt agent id (.superseded (P.sha256 raw))).isSome then .error .external
    else .ok ((s.tables.addIntent agent id (.superseded (P.sha256 raw)) raw).dropIntent agent id
      .review)

/-- `Catalog::settle_pending_good`. -/
def settlePendingGood (agent id : String) : Op Unit := do
  let pending ← Prog.gets (fun s : Server => s.intentAt agent id .review)
  match pending with
  | none => pure ()
  | some raw => do
    let event ← Prog.ask fun _ => fromSlice P.signedReview raw
    if event.value.request.decision ≠ .good then pure ()
    else do
      let c ← Prog.ask fun s => settled P cfg s agent id raw event
      Prog.durable .external (Server.onCatalog fun _ => c)

end Records

end Argos.Vault
