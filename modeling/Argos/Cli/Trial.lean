import Argos.Lib.Recording
import Argos.Service.Report
import Argos.Vault.Checks

/-!
# The trial of a remote bundle

`test_bundle` of `vault_bundle.rs`, with `get` and `fetch` of `bundle/client.rs`. A bundle is looked up,
fetched, tried and looked up again; what the server, the file system and the trial answer is in `Replies`,
and may be anything. The summary is written whatever happens, and a failure of the trial is kept aside until
the last look. It authorises a restore only if every link of the chain held (`Evidence`,
`restore_authorised_only`).
-/

namespace Argos.Cli

open Argos.Lib
open Argos.Service (ServiceRecoveryPlan ServiceRecoveryReport ServiceReportVerification ReportReads Hashing
  validatePlan verifyReport)
open Argos.Vault (Bytes BundleRecord BundleManifest Chunk SignedReceipt Primitives refuse verifyRecord
  verifyReceipt validId validBundleId)

/-! ## The client -/

/-- What is used of `VaultConfig`. -/
structure VaultConfig where
  pinnedPubkey : String
  keyId : String
deriving DecidableEq, Repr

variable (P : Primitives) (config : VaultConfig)

/-- `verify_body`. -/
def verifyBody (bytes : Bytes) (receipt : SignedReceipt) : Vault.Result Unit :=
  refuse (receipt.receipt.sizeBytes != bytes.length || receipt.receipt.sha256 != P.sha256 bytes)
    "수신증명의 크기/해시와 본문이 다릅니다"

/-- A response, as it was read. -/
def response {α : Type} (answer : Option α) : Vault.Result α :=
  match answer with
  | none => .error .external
  | some a => .ok a

/-- `get`, with what the server answers. -/
def get (agent id : String) (answer : Option BundleRecord) : Vault.Result BundleRecord := do
  refuse (!validId agent || !validBundleId id) "번들/에이전트 ID 오류"
  let record ← response answer
  verifyRecord P record config.pinnedPubkey config.keyId
  refuse (record.agentId != agent || record.manifest.bundleId != id) "서버가 다른 번들을 반환했습니다"
  .ok record

/-- What is answered during `fetch`: a record, the receipts and objects of its chunks, a record again, and
whether the file could be prepared and published. -/
structure FetchReplies where
  first : Option BundleRecord
  prepared : Vault.Result Unit
  receipt : Nat → Option SignedReceipt
  object : Nat → Option Bytes
  last : Option BundleRecord
  published : Vault.Result Unit

/-- The loop of `fetch` over the chunks, from a number on: the bytes that it writes. -/
def fetchChunks (agent : String) (replies : FetchReplies) : Nat → List Chunk → Vault.Result Bytes
  | _, [] => .ok []
  | i, chunk :: rest => do
    let receipt ← response (replies.receipt i)
    verifyReceipt P receipt config.pinnedPubkey
    refuse (receipt.receipt.agentId != agent || receipt.receipt.keyId != config.keyId ||
      receipt.receipt.kind != "backup" || receipt.receipt.sha256 != chunk.sha256 ||
      receipt.receipt.sizeBytes != chunk.sizeBytes) "청크 수신증명 불일치"
    let bytes ← response (replies.object i)
    verifyBody P bytes receipt
    let others ← fetchChunks agent replies (i + 1) rest
    .ok (bytes ++ others)

/-- `fetch`: the record, and the bytes of the file that was published. -/
def fetch (agent id : String) (replies : FetchReplies) (evidenceOnly : Bool) :
    Vault.Result (BundleRecord × Bytes) := do
  let record ← get P config agent id replies.first
  refuse (record.completion.isNone || (!evidenceOnly && !record.recommended))
    "완료된 원격 정상 판정이 없어 복구를 보류합니다"
  replies.prepared
  let bytes ← fetchChunks P config agent replies 0 record.manifest.chunks
  refuse (bytes.length != record.manifest.sizeBytes || P.sha256 bytes != record.manifest.sha256)
    "재조립 전체 해시/크기 불일치"
  let latest ← get P config agent id replies.last
  refuse (latest.manifest != record.manifest || latest.completion != record.completion ||
    (!evidenceOnly && !latest.recommended)) "복구 전송 중 정상 판정/완료 상태 변경"
  replies.published
  .ok (latest, bytes)

/-! ## `test_bundle` -/

/-- What is used of `serde_json` and `toml`. -/
structure Formats where
  jsonText : Tree → Bytes
  report : Bytes → Option ServiceRecoveryReport
  planText : ServiceRecoveryPlan → Option String
  plan : String → Option ServiceRecoveryPlan

/-- `PLAN_BYTES`. -/
def planBytes : Nat := 65536

/-- `parse_plan`, at a time of the clock. -/
def parsePlan (F : Formats) (now : Nat) (text : String) : Except String ServiceRecoveryPlan := do
  if text.utf8ByteSize > planBytes then .error "복구 계획은 64KiB 이하여야 합니다"
  else match F.plan text with
    | none => .error "복구 계획 TOML 형식 오류"
    | some plan => do
      validatePlan now plan
      .ok plan

/-- `map_err(|_| code)`. -/
def orCode {ε α : Type} (code : String) (x : Except ε α) : Except String α :=
  match x with
  | .error _ => .error code
  | .ok a => .ok a

/-- `relocated_plan`. -/
def relocatedPlan (F : Formats) (now : Nat) (text : Option String) (backupBytes : Nat)
    (destination : Text) : Except String ServiceRecoveryPlan :=
  match text with
  | none => .error "embedded_plan_missing"
  | some text => do
    let plan ← orCode "embedded_plan_invalid" (parsePlan F now text)
    if backupBytes > plan.maxBackupBytes then .error "plan_backup_limit_exceeded"
    else do
      let plan := { plan with backupPath := destination }
      orCode "relocated_plan_invalid" (validatePlan now plan)
      .ok plan

/-- `eligible_review`. -/
def eligibleReview (complete : Bool) (currentReview : String) (recommended preapproval : Bool) :
    Except String Unit :=
  if !complete then .error "bundle_incomplete"
  else if preapproval then
    if currentReview ≠ "unknown" ∨ recommended then .error "preapproval_requires_unknown_review"
    else .ok ()
  else if currentReview ≠ "good" ∨ !recommended then .error "remote_review_not_good"
  else .ok ()

/-- `eligible`. -/
def eligible (record : BundleRecord) (preapproval : Bool) : Except String Unit :=
  eligibleReview record.completion.isSome record.currentReview record.recommended preapproval

/-- The summary of a test, as far as it changes. -/
structure Summary where
  startedAtMs : Nat
  finishedAtMs : Option Nat
  status : String
  recommended : Bool
  preapproval : Bool
  trialPassed : Bool
  operationalRestoreAuthorized : Bool
  isolationRequired : Bool
  failureCode : Option String
  remoteReviewAuthenticated : Bool
  remoteRecordAuthenticated : Bool
  initialReview : Option String
  finalReview : Option String
  reviewSequence : Option Nat
  drillReport : Option ServiceRecoveryReport
  verification : Option ServiceReportVerification
  manifestSha256 : Option String
  backupSha256 : Option String
  backupBytes : Option Nat
deriving DecidableEq, Repr

/-- What is answered during a test. The supervised trial gives a report or fails, and the other outcomes are
those of the file system and the clock. -/
structure Replies where
  created : Except String Unit
  startedAtMs : Nat
  before : Option BundleRecord
  plannedAt : Nat
  fetch : FetchReplies
  planWritten : Except String Unit
  manifestWritten : Except String Unit
  trial : Except String ServiceRecoveryReport
  reads : ReportReads
  latest : Option BundleRecord
  recordWritten : Except String Unit
  finishedAtMs : Nat
  summaryWritten : Except String Unit
  synced : Except String Unit

/-- What goes on with a summary. -/
abbrev Testing := Recording Summary String

open Recording

/-- `Err(code)` under a condition. -/
def failWhen (p : Prop) [Decidable p] (code : String) : Testing Unit :=
  ask (if p then .error code else .ok ())

/-- The inner part of `test_bundle`: the trial and the verification of its report. -/
def tryBundle (F : Formats) (replies : Replies) (preapproval : Bool) (plan : ServiceRecoveryPlan)
    (manifest : BundleManifest) : Testing Unit := do
  let report ← ask (orCode (if preapproval then "preapproval_isolation_or_supervision_failed" else
    "drill_supervision_failed") replies.trial)
  record fun summary => { summary with drillReport := some report }
  failWhen (report.status ≠ "passed") "service_recovery_failed"
  let verified ← ask (orCode "report_consistency_failed"
    (verifyReport ⟨F.jsonText, P.sha256⟩ F.report plan replies.reads (plan.timeoutSecs + 60)))
  failWhen (verified.backupSha256 ≠ manifest.sha256 ∨ verified.backupBytes ≠ manifest.sizeBytes)
    "report_bundle_backup_mismatch"
  record fun summary => { summary with verification := some verified }

/-- The part of `test_bundle` that may fail. -/
def testSteps (F : Formats) (agent id : String) (out : Text) (preapproval : Bool) (replies : Replies) :
    Testing Unit := do
  let before ← ask (orCode "remote_record_unavailable_or_invalid" (get P config agent id replies.before))
  record fun summary => { summary with
    remoteRecordAuthenticated := true
    remoteReviewAuthenticated := before.completion.isSome && !before.reviews.isEmpty
    initialReview := some before.currentReview }
  ask (eligible before preapproval)
  let plan ← ask (relocatedPlan F replies.plannedAt before.manifest.metadata.recoveryPlan
    before.manifest.sizeBytes (joinPath out "backup.bin".toList))
  let (fetched, _) ← ask (orCode "backup_fetch_or_review_failed"
    (fetch P config agent id replies.fetch preapproval))
  ask (eligible fetched preapproval)
  failWhen (fetched.manifest ≠ before.manifest ∨ fetched.completion ≠ before.completion)
    "bundle_changed_during_fetch"
  let planText ← ask (match F.planText plan with
    | none => .error "relocated_plan_serialization_failed"
    | some text => .ok text)
  failWhen (planText.utf8ByteSize > planBytes) "relocated_plan_size_exceeded"
  ask (orCode "plan_write_failed" replies.planWritten)
  ask (orCode "manifest_write_failed" replies.manifestWritten)
  let trialResult ← keep (tryBundle P F replies preapproval plan before.manifest)
  let latest ← ask (orCode "final_remote_record_unavailable_or_invalid"
    (get P config agent id replies.latest))
  record fun summary => { summary with
    finalReview := some latest.currentReview
    reviewSequence := some latest.reviews.length }
  ask (eligible latest preapproval)
  failWhen (latest.manifest ≠ before.manifest ∨ latest.completion ≠ before.completion)
    "bundle_changed_during_drill"
  ask (orCode "remote_record_write_failed" replies.recordWritten)
  record fun summary => { summary with
    manifestSha256 := some latest.manifestReceipt.receipt.sha256
    backupSha256 := some latest.manifest.sha256
    backupBytes := some latest.manifest.sizeBytes }
  ask trialResult

/-- The summary before the first step. -/
def newSummary (preapproval : Bool) (now : Nat) : Summary where
  startedAtMs := now
  finishedAtMs := none
  status := "rejected"
  recommended := false
  preapproval := preapproval
  trialPassed := false
  operationalRestoreAuthorized := false
  isolationRequired := preapproval
  failureCode := none
  remoteReviewAuthenticated := false
  remoteRecordAuthenticated := false
  initialReview := none
  finalReview := none
  reviewSequence := none
  drillReport := none
  verification := none
  manifestSha256 := none
  backupSha256 := none
  backupBytes := none

/-- The summary after the last step. -/
def finishSummary (result : Except String Unit) (preapproval : Bool) (now : Nat) (summary : Summary) :
    Summary :=
  let summary := { summary with finishedAtMs := some now }
  match result with
  | .ok () => { summary with
      status := "passed"
      trialPassed := true
      recommended := !preapproval
      operationalRestoreAuthorized := !preapproval }
  | .error code => { summary with failureCode := some code }

/-- The summary that `test_bundle` writes. -/
def bundleSummary (F : Formats) (agent id : String) (out : Text) (preapproval : Bool) (replies : Replies) :
    Except String Unit × Summary :=
  let (result, summary) :=
    testSteps P config F agent id out preapproval replies (newSummary preapproval replies.startedAtMs)
  (result, finishSummary result preapproval replies.finishedAtMs summary)

/-- `test_bundle`: how it ends, and the summary if it has come to one. -/
def testBundle (F : Formats) (agent id : String) (out : Text) (preapproval : Bool) (replies : Replies) :
    Except String Unit × Option Summary :=
  match replies.created with
  | .error code => (.error code, none)
  | .ok () =>
    let (result, summary) := bundleSummary P config F agent id out preapproval replies
    (do
      replies.summaryWritten
      replies.synced
      orCode "원격 번들 복구 추천을 보류했습니다. failure_code를 확인하세요" result, some summary)

end Argos.Cli
