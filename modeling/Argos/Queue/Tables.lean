import Argos.Vault.Checks

/-!
# The tables of an upload queue

The records of `queue.rs`, `queue/jobs.rs` and `queue/archive.rs`, the tables of `queue.sqlite3`, and
what the queue checks of them: `verified_item` for a completed item, `proof` for a bundle job, and
`validate_database`, with which every opening of the queue begins. A column that holds a JSON text
holds it here too, and is read back through the codec of its type. An earlier version of the schema is
a constructor of `Stored` with the tables which that version has.
-/

namespace Argos.Queue

open Argos.Vault (Bytes Result Error Primitives Codec SignedReceipt BundleManifest BundleRecord
  Completion Signed Chunk refuse validId validHash validKind bytesOf isHexDigit saturatingAdd
  verifyReceipt verifyRecord validate)

/-- `MAX_ITEMS`. -/
def maxItems : Nat := 10000

/-- `MAX_BYTES`. -/
def maxBytes : Nat := 8 * 1024 * 1024 * 1024

/-- `MAX_ARCHIVE_ITEMS`. -/
def maxArchiveItems : Nat := 100000

/-- `MAX_BUNDLE_JOBS`. -/
def maxBundleJobs : Nat := 1000

/-- `i64::MAX as u64`, the largest time that a column holds. -/
def i64Max : Nat := 2^63 - 1

/-- `id_ok`. -/
def idOk (id : String) : Bool := id.utf8ByteSize == 32 && (bytesOf id).all isHexDigit

/-! ## Records -/

/-- `QueueLimits`. -/
structure QueueLimits where
  maxItems : Nat
  maxBytes : Nat
deriving DecidableEq, Repr

/-- `QueueLimits::validate`. -/
def QueueLimits.validate (limits : QueueLimits) : Result Unit :=
  refuse (!(1 ≤ limits.maxItems && limits.maxItems ≤ Queue.maxItems) ||
    !(1 ≤ limits.maxBytes && limits.maxBytes ≤ Queue.maxBytes))
    "활성 큐 상한은 1~10000개, 본문 1바이트~8GiB입니다"

/-- `QueueTarget`. -/
structure QueueTarget where
  endpoint : String
  agentId : String
  keyId : String
  pinnedPubkey : String
  allowHttpLoopback : Bool
  tlsCaSha256 : Option String
deriving DecidableEq, Repr

/-- `QueueItem`. -/
structure QueueItem where
  id : String
  kind : String
  sha256 : String
  sizeBytes : Nat
  state : String
  createdAtMs : Nat
  attempts : Nat
  nextRetryMs : Nat
  lastError : Option String
  sentAtMs : Option Nat
  receipt : Option SignedReceipt
deriving DecidableEq, Repr

/-- `Record` of the exported archive: one line of the file. -/
inductive Record where
  | header (format : String) (target : QueueTarget) (archivedItems exportedAtMs : Nat)
  | receipt (item : QueueItem)
  | trailer (archivedItems : Nat) (contentSha256 : String)
deriving DecidableEq, Repr

/-- What the queue reads of a `reqwest::Url`. -/
structure Url where
  text : String
  scheme : String
  username : String
  password : Option String
  path : String
  query : Option String
  fragment : Option String
  /-- The host is a loopback address. -/
  loopback : Bool
deriving DecidableEq, Repr

/-- What the queue uses of the other crates: what the vault uses, `serde_json` at the queue's own
types, and of `reqwest` the parser of addresses and the number of certificates in a bundle. -/
structure Formats extends Primitives where
  target : Codec QueueTarget
  archive : Codec Record
  url : String → Option Url
  certificates : String → Option Nat

/-- What the queue reads of `VaultConfig`. -/
structure VaultConfig where
  endpoint : String
  agentId : String
  pinnedPubkey : String
  keyId : String
  allowHttpLoopback : Bool
  tlsCaPem : Option String
  maxObjectBytes : Nat
  timeoutSecs : Nat
deriving DecidableEq, Repr

/-! ## Rows -/

/-- The `state` of an item. -/
inductive ItemState where
  | pending
  | sent
deriving DecidableEq, Repr

/-- The text of a state. -/
def ItemState.text : ItemState → String
  | .pending => "pending"
  | .sent => "sent"

/-- `ITEM_COLUMNS`: a row of `queue_items` in version 1. -/
structure ItemColumns where
  id : String
  kind : String
  sha256 : String
  sizeBytes : Nat
  state : ItemState
  createdAtMs : Nat
  attempts : Nat
  nextRetryMs : Nat
  lastError : Option String
  sentAtMs : Option Nat
  receiptJson : Option Bytes
deriving DecidableEq, Repr

/-- A row of `queue_items` or of `receipt_archive`. -/
structure ItemRow extends ItemColumns where
  leaseToken : Option String
  leaseExpiresMs : Option Nat
deriving DecidableEq, Repr

/-- The `state` of a bundle job. -/
inductive JobState where
  | pending
  | complete
deriving DecidableEq, Repr

/-- The `phase` of a bundle job. -/
inductive Phase where
  | register
  | complete
  | done
deriving DecidableEq, Repr

/-- A row of `bundle_jobs`. -/
structure JobRow where
  bundleId : String
  manifestJson : Bytes
  manifestSha256 : String
  state : JobState
  phase : Phase
  createdAtMs : Nat
  attempts : Nat
  nextRetryMs : Nat
  lastError : Option String
  leaseToken : Option String
  leaseExpiresMs : Option Nat
  completedAtMs : Option Nat
  manifestReceiptJson : Option Bytes
  completionJson : Option Bytes
deriving DecidableEq, Repr

/-- `BundleChunkRef`. -/
structure BundleChunkRef where
  itemId : String
  sha256 : String
  sizeBytes : Nat
deriving DecidableEq, Repr

/-- A row of `bundle_refs`. -/
structure RefRow extends BundleChunkRef where
  bundleId : String
deriving DecidableEq, Repr

/-- `BundleJob`, without `recommended`, which is never set. -/
structure BundleJob where
  bundleId : String
  manifestSha256 : String
  manifest : BundleManifest
  chunkItems : List BundleChunkRef
  state : JobState
  phase : Phase
  createdAtMs : Nat
  attempts : Nat
  nextRetryMs : Nat
  lastError : Option String
  leaseExpiresMs : Option Nat
  completedAtMs : Option Nat
  manifestReceipt : Option SignedReceipt
  completion : Option (Signed Completion)
deriving DecidableEq, Repr

/-- The row of `queue_meta`. -/
structure QueueMeta where
  targetJson : Bytes
  limits : QueueLimits
deriving DecidableEq, Repr

/-- The tables of the current version. Rows are in the order of insertion. -/
structure Database where
  queueMeta : QueueMeta
  items : List ItemRow
  archive : List ItemRow
  jobs : List JobRow
  refs : List RefRow
deriving DecidableEq, Repr

/-- The content of `queue.sqlite3`. The flag of an earlier version says that a table or column of a
later one is already there, so that the statements which would create it fail. -/
inductive Stored where
  /-- A file without the schema of any version. -/
  | blank
  | first (queueMeta : QueueMeta) (items : List ItemColumns) (clash : Bool)
  | second (queueMeta : QueueMeta) (items archive : List ItemRow) (clash : Bool)
  | current (db : Database)
deriving DecidableEq, Repr

/-- `user_version`. -/
def Stored.version : Stored → Nat
  | .blank => 0
  | .first .. => 1
  | .second .. => 2
  | .current _ => 3

/-- The row of `queue_meta`. -/
def Stored.meta? : Stored → Option QueueMeta
  | .blank => none
  | .first queueMeta _ _ => some queueMeta
  | .second queueMeta _ _ _ => some queueMeta
  | .current db => some db.queueMeta

/-- The rows of `queue_items`. -/
def Stored.items : Stored → List ItemColumns
  | .blank => []
  | .first _ items _ => items
  | .second _ items _ _ => items.map (·.toItemColumns)
  | .current db => db.items.map (·.toItemColumns)

/-- The rows of `receipt_archive`. -/
def Stored.archive : Stored → List ItemColumns
  | .blank => []
  | .first .. => []
  | .second _ _ archive _ => archive.map (·.toItemColumns)
  | .current db => db.archive.map (·.toItemColumns)

section Reading

variable (F : Formats)

/-! ## The target -/

/-- `ClientError::ClientSettings`. -/
def clientSettings : String := "보관 클라이언트 오류: client_settings"

/-- `tls_certificates`. -/
def tlsCertificates (config : VaultConfig) : Result Unit :=
  match config.tlsCaPem with
  | none => .ok ()
  | some pem => do
    refuse (pem.utf8ByteSize == 0 || pem.utf8ByteSize > 64 * 1024) clientSettings
    match F.certificates pem with
    | none => .error (.message clientSettings)
    | some count => refuse (count == 0 || count > 16) clientSettings

/-- `validated_endpoint`. -/
def validatedEndpoint (config : VaultConfig) : Result Url :=
  match F.url config.endpoint with
  | none => .error (.message clientSettings)
  | some url => do
    refuse (url.username != "" || url.password.isSome || url.query.isSome || url.fragment.isSome ||
      !(url.path == "" || url.path == "/")) clientSettings
    refuse (url.scheme != "https" &&
      !(url.scheme == "http" && config.allowHttpLoopback && url.loopback)) clientSettings
    refuse (config.tlsCaPem.isSome && url.scheme != "https") clientSettings
    tlsCertificates F config
    refuse (F.publicKey config.pinnedPubkey).isNone clientSettings
    refuse (!validId config.keyId ||
      !(1 ≤ config.maxObjectBytes && config.maxObjectBytes ≤ Vault.maxObjectBytes) ||
      config.timeoutSecs == 0 || config.timeoutSecs > 300) clientSettings
    .ok url

/-- `QueueTarget::from_config`. -/
def QueueTarget.fromConfig (config : VaultConfig) : Result QueueTarget := do
  let url ← validatedEndpoint F config
  refuse (!validId config.agentId) "큐 에이전트 ID 오류"
  match F.publicKey config.pinnedPubkey with
  | none => .error .external
  | some publicKey => do
    tlsCertificates F config
    .ok ⟨url.text, config.agentId, config.keyId, publicKey, config.allowHttpLoopback,
      config.tlsCaPem.map (fun pem => F.sha256 (bytesOf pem))⟩

/-! ## Reading rows -/

/-- A JSON column that may be null. -/
def decodeOptional {α : Type} (c : Codec α) : Option Bytes → Result (Option α)
  | none => .ok none
  | some text => match c.decode text with
    | none => .error .external
    | some value => .ok (some value)

/-- `decode`. -/
def decode (row : ItemColumns) : Result QueueItem := do
  let receipt ← decodeOptional F.signedReceipt row.receiptJson
  .ok ⟨row.id, row.kind, row.sha256, row.sizeBytes, row.state.text, row.createdAtMs, row.attempts,
    row.nextRetryMs, row.lastError, row.sentAtMs, receipt⟩

/-- `decode_job`. -/
def decodeJob (row : JobRow) : Result BundleJob := do
  let manifest ← match F.manifest.decode row.manifestJson with
    | none => .error .external
    | some manifest => .ok manifest
  let manifestReceipt ← decodeOptional F.signedReceipt row.manifestReceiptJson
  let completion ← decodeOptional F.signedCompletion row.completionJson
  .ok ⟨row.bundleId, row.manifestSha256, manifest, [], row.state, row.phase, row.createdAtMs,
    row.attempts, row.nextRetryMs, row.lastError, row.leaseExpiresMs, row.completedAtMs,
    manifestReceipt, completion⟩

/-- `metadata`. -/
def QueueMeta.read (queueMeta : QueueMeta) : Result (QueueTarget × QueueLimits) :=
  match F.target.decode queueMeta.targetJson with
  | none => .error .external
  | some target => .ok (target, queueMeta.limits)

/-- `assert_target`. -/
def assertTarget (queueMeta : QueueMeta) (target : QueueTarget) : Result Unit := do
  let (stored, _) ← queueMeta.read F
  refuse (stored != target)
    ("큐에 고정된 대상·에이전트·수신증명 키와 현재 설정이 다릅니다. " ++
      "다른 대상을 위한 새 큐를 사용하세요")

/-- `verified_item`. -/
def verifiedItem (item : QueueItem) (target : QueueTarget) : Result Unit :=
  match item.receipt with
  | none => .error (.message "완료 항목에 수신증명이 없습니다")
  | some ack => do
    verifyReceipt F.toPrimitives ack target.pinnedPubkey
    refuse (!idOk item.id || item.state != "sent" || item.sentAtMs.isNone ||
      ack.receipt.agentId != target.agentId || ack.receipt.keyId != target.keyId ||
      ack.receipt.kind != item.kind || ack.receipt.sha256 != item.sha256 ||
      ack.receipt.sizeBytes != item.sizeBytes) "완료 항목과 서명 수신증명이 일치하지 않습니다"

/-! ## Bundle jobs -/

/-- The entry of a hash in a map ordered by its keys is set. -/
def insertChunk (hash : String) (size : Nat) : List (String × Nat) → List (String × Nat)
  | [] => [(hash, size)]
  | (h, n) :: rest =>
    if hash < h then (hash, size) :: (h, n) :: rest
    else if hash = h then (hash, size) :: rest
    else (h, n) :: insertChunk hash size rest

/-- The loop of `unique_chunks`. -/
def uniqueChunksLoop : List Chunk → List (String × Nat) → Result (List (String × Nat))
  | [], refs => .ok refs
  | chunk :: rest, refs => do
    refuse ((refs.lookup chunk.sha256).any (· != chunk.sizeBytes))
      "동일 청크 해시의 크기가 다릅니다"
    uniqueChunksLoop rest (insertChunk chunk.sha256 chunk.sizeBytes refs)

/-- `unique_chunks`: the distinct chunks of a manifest, in the order of their hashes. -/
def uniqueChunks (manifest : BundleManifest) : Result (List (String × Nat)) := do
  validate F.toPrimitives manifest
  uniqueChunksLoop manifest.chunks []

/-- The record that a job's proofs make, before any review. -/
def BundleJob.record (job : BundleJob) (target : QueueTarget) (receipt : SignedReceipt) :
    BundleRecord :=
  ⟨target.agentId, job.manifest, receipt, job.completion, [], "unknown", false⟩

/-- The references of a job as a map from hashes to sizes. -/
def refMap (refs : List BundleChunkRef) : List (String × Nat) :=
  refs.foldl (fun found r => insertChunk r.sha256 r.sizeBytes found) []

/-- `proof`. -/
def proof (job : BundleJob) (target : QueueTarget) : Result Unit := do
  validate F.toPrimitives job.manifest
  refuse (job.bundleId != job.manifest.bundleId ||
    job.manifestSha256 != F.sha256 (F.manifest.encode job.manifest))
    "영속 번들 구성 목록의 ID/해시 불일치"
  let expected ← uniqueChunks F job.manifest
  refuse (expected != refMap job.chunkItems ||
    (refMap job.chunkItems).length != job.chunkItems.length ||
    job.chunkItems.any (fun r => !idOk r.itemId)) "영속 번들 구성 목록과 청크 참조 불일치"
  match job.manifestReceipt with
  | some receipt =>
    verifyRecord F.toPrimitives (job.record target receipt) target.pinnedPubkey target.keyId
  | none =>
    refuse (job.completion.isSome || job.phase != .register) "구성 목록 수신증명 없는 번들 완료 상태"
  refuse ((job.state == .complete) != job.completion.isSome) "번들 완료 증명/상태 불일치"

/-- The references of a bundle, in the order of their hashes. -/
def Database.refsOf (db : Database) (id : String) : List BundleChunkRef :=
  ((db.refs.filter (·.bundleId = id)).map (·.toBundleChunkRef)).mergeSort
    (fun a b => a.sha256 ≤ b.sha256)

/-- `load`. -/
def load (db : Database) (id : String) : Result BundleJob :=
  match db.jobs.find? (·.bundleId = id) with
  | none => .error (.message "번들 작업을 찾을 수 없습니다")
  | some row => do
    let job ← decodeJob F row
    let (target, _) ← db.queueMeta.read F
    let job := { job with chunkItems := db.refsOf id }
    proof F job target
    .ok job

/-- `lookup`: the item of kind backup with a hash, active or archived. -/
def Database.lookup (db : Database) (hash : String) : Option ItemColumns :=
  ((db.items ++ db.archive).find? (fun r => r.kind = "backup" ∧ r.sha256 = hash)).map
    (·.toItemColumns)

/-! ## Validation -/

/-- SQLite's `length` of a text: the number of its characters. -/
def textLength (text : Bytes) : Nat := text.countP (fun b => b &&& 0xC0 != 0x80)

/-- A row of `queue_items` that no later version writes. -/
def ItemRow.badActive (r : ItemRow) : Bool :=
  r.state != .pending || r.receiptJson.isSome || r.sentAtMs.isSome ||
    r.leaseToken.isNone != r.leaseExpiresMs.isNone

/-- A row of `receipt_archive` that nothing writes. -/
def ItemRow.badArchived (r : ItemRow) : Bool :=
  r.state != .sent || r.receiptJson.isNone || r.sentAtMs.isNone || r.leaseToken.isSome ||
    r.leaseExpiresMs.isSome

/-- Two rows for one item. -/
def ItemColumns.same (a b : ItemColumns) : Bool :=
  a.id == b.id || (a.kind == b.kind && a.sha256 == b.sha256)

/-- A row of `bundle_jobs` that nothing writes. -/
def JobRow.bad (j : JobRow) : Bool :=
  textLength j.manifestJson > 262144 || j.leaseToken.isNone != j.leaseExpiresMs.isNone ||
    (j.state == .pending && (j.phase == .done || j.completedAtMs.isSome || j.completionJson.isSome))
    || (j.state == .complete && (j.phase != .done || j.completedAtMs.isNone ||
      j.completionJson.isNone || j.manifestReceiptJson.isNone || j.leaseToken.isSome)) ||
    (j.phase == .complete && j.manifestReceiptJson.isNone)

/-- The row is the item of a reference. -/
def RefRow.names (r : RefRow) (row : ItemColumns) : Bool :=
  row.id == r.itemId && row.kind == "backup" && row.sha256 == r.sha256 &&
    row.sizeBytes == r.sizeBytes

/-- A reference without its job or without its item. -/
def Database.badRef (db : Database) (r : RefRow) : Bool :=
  !db.jobs.any (·.bundleId == r.bundleId) ||
    !(db.items.any (fun q => r.names q.toItemColumns) ||
      db.archive.any (fun a => r.names a.toItemColumns))

/-- A job with too few or too many references. -/
def Database.badCount (db : Database) (j : JobRow) : Bool :=
  let count := db.refs.countP (·.bundleId == j.bundleId)
  !(1 ≤ count && count ≤ 64)

/-- `validate_schema`. -/
def validateSchema (db : Database) : Result Unit := do
  refuse (db.jobs.length > maxBundleJobs) "번들 작업 1000개 상한 초과"
  refuse (db.jobs.any (·.bad) || db.refs.length > maxBundleJobs * 64 || db.refs.any db.badRef ||
    db.jobs.any db.badCount) "번들 작업/청크 참조 상태 오류: 자동 초기화하지 않습니다"

/-- The checks of `validate_database` that every version has. -/
def validateMeta (queueMeta : QueueMeta) (active : Nat) : Result Unit := do
  let (target, limits) ← queueMeta.read F
  refuse (!validId target.agentId || !validId target.keyId) "큐 대상 기록이 유효하지 않습니다"
  match F.publicKey target.pinnedPubkey with
  | none => .error .external
  | some _ => .ok ()
  limits.validate
  refuse (active > maxItems) "활성 큐 절대 상한 초과"

/-- The checks of `validate_database` from version 2 on. -/
def validateArchive (items archive : List ItemRow) : Result Unit := do
  refuse (saturatingAdd archive.length items.length > maxArchiveItems)
    "큐 수신증명 보관 상한 초과"
  refuse (items.any (·.badActive) ||
    items.any (fun q => archive.any (fun a => q.toItemColumns.same a.toItemColumns)) ||
    archive.any (·.badArchived)) "활성 큐/수신증명 보관 스키마 상태 오류"

/-- `validate_database` on the tables of the current version. -/
def validateCurrent (db : Database) : Result Unit := do
  validateMeta F db.queueMeta db.items.length
  validateArchive db.items db.archive
  validateSchema db

/-- `validate_database`. -/
def validateDatabase : Stored → Result Unit
  | .blank => .error (.message "큐 DB 형식이 없거나 지원하지 않습니다. 남은 파일을 보존하고 점검하세요")
  | .first queueMeta items _ => validateMeta F queueMeta items.length
  | .second queueMeta items archive _ => do
    validateMeta F queueMeta items.length
    validateArchive items archive
  | .current db => validateCurrent F db

end Reading

end Argos.Queue
