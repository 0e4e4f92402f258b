import Argos.Lib.Tasks
import Argos.Queue.Items

/-!
# Bundle jobs

The calls of `queue/jobs.rs`. `enqueue_bundle` has three parts. It opens the queue to see whether the
bundle is registered and whether there is room for it; then, without the lock, it copies the chunks
and reads the snapshots of the chunks that are already in the queue, step by step, while other
processes go on; and at last it opens the queue again, checks everything that may have changed, and
registers the bundle in one transaction. The middle part is a `Task`, the others are programs.
-/

namespace Argos.Queue

open Argos.Lib
open Argos.Vault (Bytes Result Error SignedReceipt BundleManifest BundleRecord Chunk refuse checkedAdd
  saturatingAdd chunkBytes validate verifyRecord)

section Jobs

variable (F : Formats)

/-! ## Admission -/

/-- The loop of `admission`: the number and the size of the new chunks, and the references. -/
def admissionLoop (db : Database) (target : QueueTarget) (draw : String → Option RandomId) :
    List (String × Nat) → Nat × Nat × List BundleChunkRef →
      Result (Nat × Nat × List BundleChunkRef)
  | [], found => .ok found
  | (hash, size) :: rest, (added, extra, refs) =>
    match db.lookup hash with
    | some row => do
      let item ← decode F row
      refuse (item.sizeBytes != size) "기존 큐 청크 크기 불일치"
      if item.state = "sent" then verifiedItem F item target
      admissionLoop db target draw rest (added, extra, refs ++ [⟨item.id, hash, size⟩])
    | none =>
      match checkedAdd extra size with
      | none => .error (.message "청크 합계 초과")
      | some extra =>
        match draw hash with
        | none => .error (.message "큐 임대 난수 생성 실패")
        | some id =>
          admissionLoop db target draw rest (added + 1, extra, refs ++ [⟨id.val, hash, size⟩])

/-- `admission`. -/
def admission (db : Database) (chunks : List (String × Nat)) (limits : QueueLimits)
    (target : QueueTarget) (draw : String → Option RandomId) : Result (List BundleChunkRef) := do
  refuse (db.jobs.length ≥ maxBundleJobs)
    "번들 작업 보관 1000개 상한: 기존 큐를 보존하고 새 큐를 사용하세요"
  let (added, extra, refs) ← admissionLoop F db target draw chunks (0, 0, [])
  refuse (saturatingAdd db.items.length added > limits.maxItems ||
    saturatingAdd (db.items.map (·.sizeBytes)).sum extra > limits.maxBytes ||
    saturatingAdd (saturatingAdd db.items.length db.archive.length) added > maxArchiveItems)
    "전체 번들 청크의 활성 개수/바이트/보관 슬롯을 확보할 수 없습니다: 작업 미등록"
  .ok refs

/-! ## Snapshots that are used again -/

/-- What `same_snapshot` compares of a file. -/
structure Metadata where
  length : Nat
  stat : Nat
  linked : Bool
deriving DecidableEq, Repr

/-- `symlink_metadata` of a snapshot. -/
def Disk.metadata (d : Disk) (id : String) : Result Metadata :=
  match d.file (.snapshot id) with
  | none => .error .external
  | some file => .ok ⟨file.bytes.length, file.stat, file.linked⟩

/-- `private_file` of a snapshot. -/
def Disk.privateFile (d : Disk) (id : String) : Result Unit :=
  match d.file (.snapshot id) with
  | none => .error .external
  | some file => refuse file.linked "큐 파일은 현재 계정 소유 0600 단일 링크 파일이어야 합니다"

/-- `read_bounded` of a snapshot. -/
def Disk.readBounded (d : Disk) (id : String) (maximum : Nat) : Result Bytes :=
  match d.file (.snapshot id) with
  | none => .error .external
  | some file => do
    refuse (file.bytes.length > maximum) "일반 파일과 크기 상한만 허용합니다"
    .ok file.bytes

/-- The snapshots that were read, by item. -/
abbrev Checked := List (String × Metadata)

/-- `lookup` on a connection of its own. -/
def Disk.lookup (d : Disk) (hash : String) : Result (Option QueueItem) :=
  match d.stored with
  | some (.current db) => match db.lookup hash with
    | none => .ok none
    | some row => do
      let item ← decode F row
      .ok (some item)
  | some (.second _ items archive _) =>
    match (Database.mk ⟨[], ⟨0, 0⟩⟩ items archive [] []).lookup hash with
    | none => .ok none
    | some row => do
      let item ← decode F row
      .ok (some item)
  | _ => .error .external

/-- The check of one pending snapshot. -/
def checkSnapshot (id hash : String) (size : Nat) : Task Disk Error Metadata := do
  Task.lift (refuse (!idOk id) "큐 항목 ID 오류")
  Task.ask fun d => d.privateFile id
  let before ← Task.ask fun d => d.metadata id
  let bytes ← Task.ask fun d => d.readBounded id chunkBytes
  Task.ask fun d => d.privateFile id
  let after ← Task.ask fun d => d.metadata id
  Task.lift (refuse (bytes.length != size || F.sha256 bytes != hash || before != after)
    "기존 pending 청크 본문이 유실·변경되었습니다: 등록 거부")
  pure after

/-- The loop of `verify_pending_snapshots`. -/
def verifyChunks (target : QueueTarget) : List (String × Nat) → Checked → Task Disk Error Checked
  | [], checked => pure checked
  | (hash, size) :: rest, checked => do
    match ← Task.ask (fun d => d.lookup F hash) with
    | none => verifyChunks target rest checked
    | some item => do
      Task.lift (refuse (item.sizeBytes != size) "기존 큐 청크 크기 불일치")
      if item.state = "sent" then do
        Task.lift (verifiedItem F item target)
        verifyChunks target rest checked
      else
        match ← (checkSnapshot F item.id hash size).outcome with
        | .ok found => verifyChunks target rest (checked ++ [(item.id, found)])
        | .error e => do
          -- An item that was completed meanwhile has its receipt in place of its snapshot.
          match ← Task.ask (fun d => d.lookup F hash) with
          | some current =>
            if current.id = item.id ∧ current.state = "sent" then do
              Task.lift (verifiedItem F current target)
              verifyChunks target rest checked
            else Task.lift (.error e)
          | none => Task.lift (.error e)

/-- `assert_target` on a connection of its own. -/
def Disk.assertTarget (d : Disk) (target : QueueTarget) : Result Unit :=
  match d.stored.bind Stored.meta? with
  | none => .error (.message "큐 대상이 없습니다. 먼저 enqueue 하세요")
  | some queueMeta => Queue.assertTarget F queueMeta target

/-- `verify_pending_snapshots`. -/
def verifyPendingSnapshots (chunks : List (String × Nat)) (target : QueueTarget) :
    Task Disk Error Checked := do
  Task.ask fun d => validateDatabase F (d.stored.getD .blank)
  Task.ask fun d => d.assertTarget F target
  verifyChunks F target chunks []

/-- `check_reused_snapshots`. -/
def checkReusedSnapshots (db : Database) (d : Disk) (checked : Checked) (target : QueueTarget)
    (requireExisting : Bool) : List BundleChunkRef → Result Unit
  | [] => .ok ()
  | reference :: rest => do
    match db.lookup reference.sha256 with
    | none => refuse requireExisting "기존 번들 청크 참조가 없습니다"
    | some row => do
      let item ← decode F row
      refuse (item.id != reference.itemId || item.sizeBytes != reference.sizeBytes)
        "기존 번들 청크 참조가 변경되었습니다"
      if item.state = "sent" then verifiedItem F item target
      else match checked.lookup item.id with
        | none => .error (.message "동시 등록된 pending 청크를 검증하려면 다시 등록하세요")
        | some before => do
          refuse (!idOk item.id) "큐 항목 ID 오류"
          d.privateFile item.id
          let after ← d.metadata item.id
          refuse (before != after) "검증 후 pending 청크가 변경되었습니다: 등록 거부"
    checkReusedSnapshots db d checked target requireExisting rest

/-! ## Registration -/

/-- What `enqueue_bundle` is called with: the configuration, the limits, the manifest and the chunks
of the prepared directory. -/
structure BundleRequest where
  config : VaultConfig
  limits : QueueLimits
  manifest : Option BundleManifest
  chunks : String → Option Bytes

/-- The arguments of the call, checked: the target, the manifest and its distinct chunks. -/
structure Bundle where
  target : QueueTarget
  limits : QueueLimits
  manifest : BundleManifest
  chunks : List (String × Nat)

/-- What `enqueue_bundle` checks before it opens the queue. -/
def BundleRequest.check (r : BundleRequest) : Result Bundle := do
  r.limits.validate
  let target ← QueueTarget.fromConfig F r.config
  match r.manifest with
  | none => .error .external
  | some manifest => do
    validate F.toPrimitives manifest
    let chunks ← uniqueChunks F manifest
    refuse (chunks.any fun c => c.2 > r.config.maxObjectBytes)
      "청크가 현재 클라이언트 객체 상한을 초과합니다"
    .ok ⟨target, r.limits, manifest, chunks⟩

/-- The job of a registered bundle, when its manifest is this one. -/
def loadSame (db : Database) (manifest : BundleManifest) : Result BundleJob := do
  let old ← load F db manifest.bundleId
  refuse (old.manifest != manifest) "같은 번들 ID의 구성 목록 변경을 거부합니다"
  .ok old

/-- Whether a bundle is registered. -/
def Database.hasJob (db : Database) (id : String) : Bool := db.jobs.any (·.bundleId == id)

/-- The first part of `enqueue_bundle`: whether the bundle is registered. -/
def beginBundle (b : Bundle) (draw : String → Option RandomId) : Op Bool := do
  let db ← openFor F (some (b.target, b.limits)) b.target
  if db.hasJob b.manifest.bundleId then do
    let _ ← Prog.ask fun _ => loadSame F db b.manifest
    pure true
  else do
    let _ ← Prog.ask fun _ => admission F db b.chunks b.limits b.target draw
    pure false

/-- The copy of a chunk, one that was made before or a new one that is checked. -/
def copyChunk (source : String → Option Bytes) (chunk : Chunk) (spool : List (String × Bytes)) :
    Result (List (String × Bytes) × Bytes) :=
  match spool.lookup chunk.sha256 with
  | some bytes => .ok (spool, bytes)
  | none => match source chunk.sha256 with
    | none => .error .external
    | some bytes => do
      refuse (bytes.length > chunkBytes) "일반 파일과 크기 상한만 허용합니다"
      refuse (bytes.length != chunk.sizeBytes || F.sha256 bytes != chunk.sha256)
        "번들 청크의 실제 내용/구성 목록 불일치: 작업 미등록"
      .ok (spool ++ [(chunk.sha256, bytes)], bytes)

/-- The chunks are copied: the copies by hash, and the whole file. -/
def spoolChunks (source : String → Option Bytes) :
    List Chunk → List (String × Bytes) × Bytes → Result (List (String × Bytes) × Bytes)
  | [], found => .ok found
  | chunk :: rest, (spool, full) => do
    let (spool, bytes) ← copyChunk F source chunk spool
    refuse (bytes.length != chunk.sizeBytes || F.sha256 bytes != chunk.sha256)
      "번들 고정 청크 불일치"
    spoolChunks source rest (spool, full ++ bytes)

/-- The copies of the chunks, when they make up the file. -/
def spoolBundle (manifest : BundleManifest) (source : String → Option Bytes) :
    Result (List (String × Bytes)) := do
  let (spool, full) ← spoolChunks F source manifest.chunks ([], [])
  refuse (F.sha256 full != manifest.sha256) "번들 전체 파일 해시 불일치: 작업 미등록"
  .ok spool

/-- What the last part of `enqueue_bundle` reads from outside: the clock, random identifiers for the
new chunks, and what the system tells of the new files. -/
structure BundleReadings where
  now : Nat
  draw : String → Option RandomId
  stat : String → Nat

/-- The new chunks are linked into `objects`, and their rows inserted. -/
def linkChunks (spool : List (String × Bytes)) (r : BundleReadings) :
    List BundleChunkRef → Database → Op Database
  | [], db => pure db
  | item :: rest, db =>
    if (db.lookup item.sha256).isSome then linkChunks spool r rest db
    else do
      let bytes ← Prog.ask fun d => match spool.lookup item.sha256 with
        | none => .error .external
        | some bytes => do
          refuse (!idOk item.itemId) "큐 항목 ID 오류"
          if (d.file (.snapshot item.itemId)).isSome then .error .external else .ok bytes
      Prog.durable .external
        (Disk.add (.snapshot item.itemId) ⟨bytes, r.stat item.sha256, true⟩)
      Prog.durable .external (Disk.release item.itemId (r.stat item.sha256))
      let next ← Prog.ask fun _ =>
        db.insertItem (newRow item.itemId "backup" item.sha256 item.sizeBytes (min r.now i64Max))
      linkChunks spool r rest next

/-- A new row of `bundle_jobs`. -/
def newJob (manifest : BundleManifest) (now : Nat) : JobRow :=
  { bundleId := manifest.bundleId
    manifestJson := F.manifest.encode manifest
    manifestSha256 := F.sha256 (F.manifest.encode manifest)
    state := .pending
    phase := .register
    createdAtMs := now
    attempts := 0
    nextRetryMs := now
    lastError := none
    leaseToken := none
    leaseExpiresMs := none
    completedAtMs := none
    manifestReceiptJson := none
    completionJson := none }

/-- The rows of a job and of its references are inserted, with the keys of the tables, and the limits
set. -/
def Database.insertJob (db : Database) (job : JobRow) (refs : List BundleChunkRef)
    (limits : QueueLimits) : Result Database :=
  if db.hasJob job.bundleId ||
      refs.any (fun r => db.refs.any fun old => old.bundleId = job.bundleId ∧ old.sha256 = r.sha256)
  then .error .external
  else .ok { db with
    queueMeta := { db.queueMeta with limits := limits }
    jobs := db.jobs ++ [job]
    refs := db.refs ++ refs.map (fun r => ⟨r, job.bundleId⟩) }

/-- The last part of `enqueue_bundle` for a bundle that was not registered at the first. -/
def commitBundle (b : Bundle) (spool : List (String × Bytes)) (checked : Checked)
    (r : BundleReadings) : Op BundleJob := do
  let db ← openFor F none b.target
  if db.hasJob b.manifest.bundleId then do
    let old ← Prog.ask fun _ => loadSame F db b.manifest
    Prog.ask fun d => checkReusedSnapshots F db d checked b.target true old.chunkItems
    touch
    pure old
  else do
    let refs ← Prog.ask fun _ => admission F db b.chunks b.limits b.target r.draw
    Prog.ask fun d => checkReusedSnapshots F db d checked b.target false refs
    let linked ← linkChunks spool r refs db
    touch
    touch
    let next ← Prog.ask fun _ =>
      linked.insertJob (newJob F b.manifest (min r.now i64Max)) refs b.limits
    let job ← Prog.ask fun _ => load F next b.manifest.bundleId
    commit next
    pure job

/-- The last part of `enqueue_bundle` for a bundle that was registered at the first. -/
def confirmBundle (b : Bundle) (checked : Checked) : Op BundleJob := do
  let db ← openFor F none b.target
  let old ← Prog.ask fun _ => loadSame F db b.manifest
  Prog.ask fun d => checkReusedSnapshots F db d checked b.target true old.chunkItems
  pure old

/-! ## Leases -/

/-- `JobLease`. -/
structure JobLease where
  job : BundleJob
  token : String
deriving DecidableEq, Repr

/-- All chunks of a bundle are archived. -/
def Database.ready (db : Database) (id : String) : Bool :=
  db.refs.all fun r => r.bundleId != id || db.archive.any (·.id == r.itemId)

/-- A job may be leased. -/
def Database.dueJob (db : Database) (now : Nat) (j : JobRow) : Bool :=
  j.state == .pending && j.nextRetryMs ≤ now && j.leaseExpiresMs.all (· ≤ now) &&
    db.ready j.bundleId

/-- `ORDER BY j.created_at_ms,j.bundle_id`. -/
def earlierJob (a b : JobRow) : Bool :=
  a.createdAtMs < b.createdAtMs || (a.createdAtMs == b.createdAtMs && a.bundleId ≤ b.bundleId)

/-- The archived receipts of the chunks are verified. -/
def verifyArchived (db : Database) (target : QueueTarget) : List BundleChunkRef → Result Unit
  | [] => .ok ()
  | r :: rest =>
    match db.archive.find? (·.id = r.itemId) with
    | none => .error .external
    | some row => do
      let item ← decode F row.toItemColumns
      verifiedItem F item target
      verifyArchived db target rest

/-- The rows of a job are changed. -/
def Database.updateJob (db : Database) (keep : JobRow → Bool) (g : JobRow → JobRow) : Database :=
  { db with jobs := db.jobs.map fun j => if keep j then g j else j }

/-- A job is leased. -/
def JobRow.leased (token : String) (expires attempts next : Nat) (row : JobRow) : JobRow :=
  { row with
    attempts := attempts
    leaseToken := some token
    leaseExpiresMs := some expires
    nextRetryMs := next
    lastError := some interrupted }

/-- `claim_job`. -/
def claimJob (target : QueueTarget) (timeoutSecs now clock : Nat) (token : Option RandomId) :
    Op (Option JobLease) := do
  let db ← openFor F none target
  let now := timeOf now clock
  match ((db.jobs.filter (db.dueJob now)).mergeSort earlierJob).head? with
  | none => do
    touch
    pure none
  | some row => do
    let job ← Prog.ask fun _ => load F db row.bundleId
    Prog.ask fun _ => verifyArchived F db target job.chunkItems
    let token ← Prog.ask fun _ => match token with
      | none => .error (.message "큐 임대 난수 생성 실패")
      | some token => .ok token
    let attempts := nextAttempt job.attempts
    commit (db.updateJob (·.bundleId = row.bundleId) (JobRow.leased token.val
      (leaseExpires now timeoutSecs) attempts (later now (retryDelay attempts))))
    pure (some ⟨{ job with attempts := attempts }, token.val⟩)

/-- The job is leased under a token. -/
def JobRow.held (row : JobRow) (id token : String) : Bool :=
  row.bundleId == id && row.leaseToken == some token

/-- The job is leased under a token, and the lease has not ended. -/
def JobRow.owned (row : JobRow) (id token : String) (now : Nat) : Bool :=
  row.held id token && row.leaseExpiresMs.any (now < ·)

/-- A job whose step succeeded. -/
def JobRow.advanced (record : BundleRecord) (now : Nat) (row : JobRow) : JobRow :=
  let completed := record.completion.isSome
  { row with
    state := if completed then .complete else .pending
    phase := if completed then .done else .complete
    manifestReceiptJson := some (F.signedReceipt.encode record.manifestReceipt)
    completionJson := record.completion.map F.signedCompletion.encode
    completedAtMs := if completed then some now else none
    nextRetryMs := if completed then 0 else now
    lastError := none
    leaseToken := none
    leaseExpiresMs := none }

/-- A job whose step failed. -/
def JobRow.retried (retry : Nat) (code : String) (row : JobRow) : JobRow :=
  { row with
    nextRetryMs := retry
    lastError := some code
    leaseToken := none
    leaseExpiresMs := none }

/-- `finish_job`. -/
def finishJob (target : QueueTarget) (lease : JobLease) (result : Except String BundleRecord)
    (now clock : Nat) : Op Bool := do
  let db ← openFor F none target
  let now := timeOf now clock
  if !db.jobs.any (·.owned lease.job.bundleId lease.token now) then do
    touch
    pure false
  else match result with
    | .ok record => do
      Prog.ask fun _ => verifyRecord F.toPrimitives record target.pinnedPubkey target.keyId
      Prog.ask fun _ => refuse (record.manifest != lease.job.manifest ||
        record.agentId != target.agentId ||
        (lease.job.phase == .complete && record.completion.isNone))
        "번들 작업 응답의 구성 목록/완료 증명 불일치"
      commit (db.updateJob (·.held lease.job.bundleId lease.token) (JobRow.advanced F record now))
      pure true
    | .error code => do
      commit (db.updateJob (·.held lease.job.bundleId lease.token)
        (JobRow.retried (later now (retryDelay lease.job.attempts)) code))
      pure true

end Jobs

end Argos.Queue
