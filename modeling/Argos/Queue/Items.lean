import Argos.Lib.Durable
import Argos.Queue.Tables

/-!
# The queue directory and its items

The calls of `queue.rs` that change a queue: `enqueue`, `claim` and `finish`, with `open_mutating`,
with which each begins. Every such call holds the lock of the queue from its first step to its last,
so it runs alone; it may be killed between any two of its durable steps, which are the changes of the
directory and the `COMMIT` of its transaction. The clock, the random numbers and the numbers that the
system gives to new files are arguments.
-/

namespace Argos.Queue

open Argos.Lib
open Argos.Vault (Bytes Result Error SignedReceipt refuse validHash validKind saturatingAdd)

/-! ## The directory -/

/-- The name of a file in `objects`, as `cleanup` reads it. -/
inductive EntryName where
  /-- `<id>.bin` -/
  | snapshot (id : String)
  /-- `.argos-vault-<pid>-<sequence>.tmp` -/
  | temporary (pid sequence : Nat)
  /-- Anything else. -/
  | foreign (name : String)
deriving DecidableEq, Repr

/-- A file in `objects`: its content, what `stat` tells of it besides its length and its links, and
whether the name under which it was written is still linked to it. -/
structure File where
  bytes : Bytes
  stat : Nat
  linked : Bool
deriving DecidableEq, Repr

/-- The files of `objects`. -/
abbrev Objects := List (EntryName × File)

/-- The queue directory: whether there is a lock file, the directory `objects`, and the database. -/
structure Disk where
  lock : Bool := false
  objects : Option Objects := none
  stored : Option Stored := none
deriving DecidableEq, Repr

/-- A call of the queue, or a part of one. -/
abbrev Op (α : Type) := Prog Disk Error α

namespace Disk

/-- `read_dir(directory)?.next().is_none()`. -/
def fresh (d : Disk) : Bool := !d.lock && d.objects.isNone && d.stored.isNone

/-- The files of `objects`. -/
def files (d : Disk) : Objects := d.objects.getD []

/-- The file with a name. -/
def file (d : Disk) (name : EntryName) : Option File := d.files.lookup name

/-- The tables, when they are those of the current version. -/
def db? (d : Disk) : Option Database :=
  match d.stored with
  | some (.current db) => some db
  | _ => none

/-- A file appears. -/
def add (name : EntryName) (file : File) (d : Disk) : Disk :=
  { d with objects := d.objects.map (· ++ [(name, file)]) }

/-- A name is removed. -/
def remove (name : EntryName) (d : Disk) : Disk :=
  { d with objects := d.objects.map (·.filter (·.1 ≠ name)) }

/-- The other name of the file with this `stat` is gone. -/
def release (id : String) (stat : Nat) (d : Disk) : Disk :=
  { d with objects := d.objects.map (·.map fun e =>
      if e.1 = .snapshot id ∧ e.2.stat = stat then (e.1, { e.2 with linked := false }) else e) }

/-- The tables are replaced. -/
def commit (db : Database) (d : Disk) : Disk := { d with stored := some (.current db) }

end Disk

/-- A step that changes nothing and may fail: a lock is taken, a directory is synchronized. -/
def touch : Op Unit := Prog.durable .external id

/-- `tx.commit()`. -/
def commit (db : Database) : Op Unit := Prog.durable .external (Disk.commit db)

/-- The tables; only called after `validate_database` and `migrate`. -/
def tables : Op Database := Prog.ask fun d =>
  match d.db? with
  | none => .error .external
  | some db => .ok db

/-! ## Opening -/

section Opening

variable (F : Formats)

/-- The tables of a new queue. -/
def Database.initial (target : QueueTarget) (limits : QueueLimits) : Database :=
  ⟨⟨F.target.encode target, limits⟩, [], [], [], []⟩

/-- The part of `open_mutating` that makes a new queue. -/
def createQueue (target : QueueTarget) (limits : QueueLimits) : Op Unit := do
  Prog.durable .external fun d => { d with lock := true }
  touch
  Prog.durable .external fun d => { d with objects := some [] }
  Prog.durable .external fun d => { d with stored := some .blank }
  commit (.initial F target limits)

/-- The part of `open_mutating` that finds a queue. -/
def findQueue : Op Unit := do
  Prog.ask fun d => if d.lock then .ok () else .error .external
  touch
  Prog.ask fun d => if d.objects.isSome then .ok () else .error .external
  Prog.ask fun d => if d.stored.isSome then .ok () else .error .external

/-- The completed rows of version 1 are read and verified. -/
def verifySent (target : QueueTarget) : List ItemColumns → Result Unit
  | [] => .ok ()
  | row :: rest => do
    if row.state = .sent then do
      let item ← decode F row
      verifiedItem F item target
    verifySent target rest

/-- A row of version 1 in the current version. -/
def ItemColumns.upgrade (row : ItemColumns) : ItemRow := ⟨row, none, none⟩

/-- The checks and the transaction of `migrate`. -/
def migrated : Stored → Result Stored
  | .blank => .error .external
  | .first queueMeta items clash => do
    let (target, _) ← queueMeta.read F
    verifySent F target items
    refuse (items.any fun r => r.state == .pending && (r.receiptJson.isSome || r.sentAtMs.isSome))
      "기존 큐 상태가 유효하지 않아 마이그레이션을 거부합니다"
    if clash then .error .external
    else .ok (.current ⟨queueMeta, (items.filter (·.state = .pending)).map (·.upgrade),
      (items.filter (·.state = .sent)).map (·.upgrade), [], []⟩)
  | .second queueMeta items archive clash =>
    if clash then .error .external else .ok (.current ⟨queueMeta, items, archive, [], []⟩)
  | .current db => .ok (.current db)

/-- `migrate`. -/
def migrate : Op Unit := do
  let stored ← Prog.gets fun d : Disk => d.stored.getD .blank
  if stored.version = 3 then pure ()
  else do
    let next ← Prog.ask fun _ => migrated F stored
    Prog.durable .external fun d => { d with stored := some next }

/-- The completed item of an orphaned snapshot is verified. -/
def verifyOrphan (db : Database) (id : String) : Result Unit :=
  match db.archive.find? (·.id = id) with
  | none => .ok ()
  | some row => do
    let item ← decode F row.toItemColumns
    let (target, _) ← db.queueMeta.read F
    verifiedItem F item target

/-- The loop of `cleanup`: whether a file was removed. -/
def cleanupEntries (db : Database) : Objects → Nat → Op Bool
  | [], _ => pure false
  | (name, _) :: rest, count => do
    Prog.ask fun _ => refuse (count ≥ maxItems * 2 + 100) "큐 스냅샷 디렉터리 항목 상한 초과"
    match name with
    | .temporary .. => do
      Prog.durable .external (Disk.remove name)
      let _ ← cleanupEntries db rest (count + 1)
      pure true
    | .snapshot id =>
      if !idOk id then Prog.fail (.message "큐 스냅샷 디렉터리에 알 수 없는 파일이 있습니다")
      else if db.items.any (fun r => r.id == id && r.state == .pending) then
        cleanupEntries db rest (count + 1)
      else do
        Prog.ask fun _ => verifyOrphan F db id
        Prog.durable .external (Disk.remove name)
        let _ ← cleanupEntries db rest (count + 1)
        pure true
    | .foreign _ => Prog.fail (.message "큐 스냅샷 디렉터리에 알 수 없는 파일이 있습니다")

/-- `cleanup`. -/
def cleanup : Op Unit := do
  let db ← tables
  Prog.ask fun _ => refuse (db.items.length > maxItems) "큐 기록의 절대 상한 초과"
  Prog.ask fun _ => refuse (db.items.any fun r => !idOk r.id)
    "큐 기록이 유효하지 않아 스냅샷 정리를 거부합니다"
  let entries ← Prog.gets Disk.files
  let removed ← cleanupEntries F db entries 0
  if removed then touch else pure ()

/-- The part of `open_mutating` that makes or finds a queue. -/
def enterQueue (creating : Option (QueueTarget × QueueLimits)) : Op Unit := do
  let fresh ← Prog.gets Disk.fresh
  if fresh then
    match creating with
    | none => Prog.fail (.message "큐가 초기화되지 않았습니다. 먼저 enqueue 하세요")
    | some (target, limits) => createQueue F target limits
  else findQueue

/-- `open_mutating`. -/
def openMutating (creating : Option (QueueTarget × QueueLimits)) : Op Unit := do
  enterQueue F creating
  Prog.ask fun d => validateDatabase F (d.stored.getD .blank)
  migrate F
  cleanup F

/-- The opening of a call, and the target it was made for. -/
def openFor (creating : Option (QueueTarget × QueueLimits)) (target : QueueTarget) :
    Op Database := do
  openMutating F creating
  let db ← tables
  Prog.ask fun _ => assertTarget F db.queueMeta target
  pure db

end Opening

/-! ## Enqueueing -/

/-- Sixteen random bytes in hexadecimal. -/
abbrev RandomId := { id : String // idOk id }

/-- What `enqueue` reads from outside: a random identifier, the name of its temporary file, the clock,
and what the system tells of the new file. -/
structure EnqueueReadings where
  id : Option RandomId
  pid : Nat
  sequence : Nat
  now : Nat
  stat : Nat

/-- `write_new` of a snapshot. -/
def writeNew (id : String) (bytes : Bytes) (r : EnqueueReadings) : Op Unit := do
  let temporary := EntryName.temporary r.pid r.sequence
  Prog.ask fun d => if (d.file temporary).isSome then .error .external else .ok ()
  Prog.durable .external (Disk.add temporary ⟨bytes, r.stat, false⟩)
  Prog.handle
    (do
      Prog.ask fun d => if (d.file (.snapshot id)).isSome then .error .external else .ok ()
      Prog.durable .external (Disk.add (.snapshot id) ⟨bytes, r.stat, true⟩)
      Prog.durable .external fun d => (d.remove temporary).release id r.stat
      touch)
    (fun e => do
      -- The removal of the temporary file may fail too; its result is dropped.
      Prog.handle (Prog.durable .external fun d => (d.remove temporary).release id r.stat)
        (fun _ => pure ())
      Prog.fail e)

/-- `private_file` and `read_bounded` of a snapshot. -/
def readSnapshot (d : Disk) (id : String) (maximum : Nat) : Result Bytes := do
  refuse (!idOk id) "큐 항목 ID 오류"
  match d.file (.snapshot id) with
  | none => .error .external
  | some file => do
    refuse file.linked "큐 파일은 현재 계정 소유 0600 단일 링크 파일이어야 합니다"
    refuse (file.bytes.length > maximum) "일반 파일과 크기 상한만 허용합니다"
    .ok file.bytes

/-- A new pending row. -/
def newRow (id kind hash : String) (size now : Nat) : ItemRow :=
  ⟨⟨id, kind, hash, size, .pending, now, 0, now, none, none, none⟩, none, none⟩

/-- `INSERT INTO queue_items`, with the keys of the table. -/
def Database.insertItem (db : Database) (row : ItemRow) : Result Database :=
  if db.items.any (fun r => r.toItemColumns.same row.toItemColumns) then .error .external
  else .ok { db with items := db.items ++ [row] }

section Items

variable (F : Formats)

/-- An item that is already there is checked again. -/
def checkExisting (d : Disk) (target : QueueTarget) (maximum : Nat) (item : QueueItem) :
    Result Unit :=
  if item.state = "sent" then verifiedItem F item target
  else do
    let stored ← readSnapshot d item.id maximum
    refuse (stored.length != item.sizeBytes || F.sha256 stored != item.sha256)
      "기존 pending 스냅샷 내용 불일치: 원본을 보존하고 큐를 점검하세요"

/-- The limits on a new item. -/
def checkRoom (db : Database) (limits : QueueLimits) (size : Nat) : Result Unit := do
  refuse (saturatingAdd db.items.length db.archive.length ≥ maxArchiveItems)
    ("수신증명 보관 상한(100000건)에 도달했습니다. 남은 항목 전송 뒤 export-archive하고 " ++
      "기존 큐를 보존한 채 새 경로를 사용하세요")
  refuse (db.items.length ≥ limits.maxItems ||
    saturatingAdd ((db.items.filter (·.state = .pending)).map (·.sizeBytes)).sum size >
      limits.maxBytes)
    "활성 큐 기록/본문 용량 상한에 도달했습니다. pending 항목을 전송하거나 상한을 검토하세요"

/-- The rows of an object, active first. -/
def Database.findObject (db : Database) (kind hash : String) : Option ItemColumns :=
  ((db.items ++ db.archive).find? (fun r => r.kind = kind ∧ r.sha256 = hash)).map
    (·.toItemColumns)

/-- `read_bounded` of the source. -/
def readSource (source : Option Bytes) (maximum : Nat) : Result Bytes :=
  match source with
  | none => .error .external
  | some bytes => do
    refuse (bytes.length > maximum) "일반 파일과 크기 상한만 허용합니다"
    .ok bytes

/-- The part of `enqueue` for an object that is new to the queue. -/
def enqueueNew (db : Database) (kind hash : String) (bytes : Bytes) (limits : QueueLimits)
    (r : EnqueueReadings) : Op QueueItem := do
  Prog.ask fun _ => checkRoom db limits bytes.length
  let id ← Prog.ask fun _ => match r.id with
    | none => .error (.message "큐 ID 난수 생성 실패")
    | some id => .ok id
  writeNew id.val bytes r
  let row := newRow id.val kind hash bytes.length (min r.now i64Max)
  let next ← Prog.ask fun _ =>
    { db with queueMeta := { db.queueMeta with limits := limits } }.insertItem row
  let item ← Prog.ask fun _ => decode F row.toItemColumns
  commit next
  pure item

/-- `enqueue`. -/
def enqueue (config : VaultConfig) (source : Option Bytes) (kind : String) (limits : QueueLimits)
    (r : EnqueueReadings) : Op QueueItem := do
  Prog.ask fun _ => limits.validate
  Prog.ask fun _ => refuse (!validKind kind) "보관 종류 오류"
  let target ← Prog.ask fun _ => QueueTarget.fromConfig F config
  let bytes ← Prog.ask fun _ => readSource source config.maxObjectBytes
  let db ← openFor F (some (target, limits)) target
  match db.findObject kind (F.sha256 bytes) with
  | some row => do
    let item ← Prog.ask fun _ => decode F row
    Prog.ask fun d => checkExisting F d target config.maxObjectBytes item
    touch
    pure item
  | none => enqueueNew F db kind (F.sha256 bytes) bytes limits r

/-! ## Leases -/

/-- `retry_delay`. -/
def retryDelay (attempts : Nat) : Nat := min (5000 * 2 ^ min (attempts - 1) 10) 3600000

/-- `LEASE_GRACE_MS`. -/
def leaseGraceMs : Nat := 30000

/-- `u32::saturating_add(1)`. -/
def nextAttempt (attempts : Nat) : Nat := min (attempts + 1) (2^32 - 1)

/-- `now.saturating_add(delay).min(i64::MAX)`. -/
def later (now delay : Nat) : Nat := min (saturatingAdd now delay) i64Max

/-- The end of a lease that begins now. -/
def leaseExpires (now timeoutSecs : Nat) : Nat :=
  later (saturatingAdd now (min (timeoutSecs * 1000) Vault.u64Max)) leaseGraceMs

/-- The time of a call: the caller's or the clock's, whichever is later. -/
def timeOf (now clock : Nat) : Nat := min (max now clock) i64Max

/-- `last_error` of a row while its lease is out. -/
def interrupted : String := "interrupted_or_unconfirmed"

/-- A row may be leased. -/
def ItemRow.due (row : ItemRow) (now : Nat) : Bool :=
  row.nextRetryMs ≤ now && row.leaseExpiresMs.all (· ≤ now)

/-- `ORDER BY created_at_ms,id`. -/
def earlier (a b : ItemRow) : Bool :=
  a.createdAtMs < b.createdAtMs || (a.createdAtMs == b.createdAtMs && a.id ≤ b.id)

/-- `Lease`. -/
structure Lease where
  item : QueueItem
  token : String
deriving DecidableEq, Repr

/-- The rows with an identifier are changed. -/
def Database.updateItem (db : Database) (id : String) (g : ItemRow → ItemRow) : Database :=
  { db with items := db.items.map fun r => if r.id = id then g r else r }

/-- A row is leased. -/
def ItemRow.leased (token : String) (expires attempts next : Nat) (row : ItemRow) : ItemRow :=
  { row with
    leaseToken := some token
    leaseExpiresMs := some expires
    attempts := attempts
    nextRetryMs := next
    lastError := some interrupted }

/-- `claim`. -/
def claim (target : QueueTarget) (timeoutSecs now clock : Nat) (token : Option RandomId) :
    Op (Option Lease) := do
  let db ← openFor F none target
  let now := timeOf now clock
  match ((db.items.filter (·.due now)).mergeSort earlier).head? with
  | none => do
    touch
    pure none
  | some row => do
    let item ← Prog.ask fun _ => decode F row.toItemColumns
    Prog.ask fun _ => refuse (!validKind item.kind || !validHash item.sha256 ||
      item.sizeBytes > Vault.maxObjectBytes) "큐 항목 메타데이터 오류"
    let token ← Prog.ask fun _ => match token with
      | none => .error (.message "큐 임대 난수 생성 실패")
      | some token => .ok token
    let attempts := nextAttempt item.attempts
    commit (db.updateItem item.id (ItemRow.leased token.val (leaseExpires now timeoutSecs) attempts
      (later now (retryDelay attempts))))
    pure (some ⟨{ item with attempts := attempts }, token.val⟩)

/-- The row is leased under a token, and the lease has not ended. -/
def ItemRow.owned (row : ItemRow) (id token : String) (now : Nat) : Bool :=
  row.id == id && row.leaseToken == some token && row.leaseExpiresMs.any (now < ·)

/-- The rows of an item that are leased under a token. -/
def ItemRow.held (row : ItemRow) (id token : String) : Bool :=
  row.id == id && row.leaseToken == some token

/-- The row of a completed item. -/
def ItemRow.archived (row : ItemRow) (now : Nat) (receipt : Bytes) : ItemRow :=
  { row with
    state := .sent
    nextRetryMs := 0
    lastError := none
    sentAtMs := some now
    receiptJson := some receipt
    leaseToken := none
    leaseExpiresMs := none }

/-- `INSERT INTO receipt_archive .. SELECT` and `DELETE FROM queue_items`. -/
def Database.archiveItem (db : Database) (id token : String) (now : Nat) (receipt : Bytes) :
    Result Database :=
  let rows := (db.items.filter (·.held id token)).map (·.archived now receipt)
  if db.archive.any (fun a => rows.any fun r => a.toItemColumns.same r.toItemColumns) then
    .error .external
  else .ok { db with
    items := db.items.filter (fun r => !r.held id token)
    archive := db.archive ++ rows }

/-- A row whose upload failed. -/
def ItemRow.retried (retry : Nat) (code : String) (row : ItemRow) : ItemRow :=
  { row with
    leaseToken := none
    leaseExpiresMs := none
    nextRetryMs := retry
    lastError := some code }

/-- The failed rows are released for another try. -/
def Database.retryItem (db : Database) (id token : String) (retry : Nat) (code : String) :
    Database :=
  { db with items := db.items.map fun r => if r.held id token then r.retried retry code else r }

/-- The item that `finish` verifies. -/
def Lease.completed (lease : Lease) (receipt : SignedReceipt) (now : Nat) : QueueItem :=
  { lease.item with state := "sent", receipt := some receipt, sentAtMs := some now }

/-- `finish`. -/
def finish (target : QueueTarget) (lease : Lease) (result : Except String SignedReceipt)
    (now clock : Nat) : Op Bool := do
  let db ← openFor F none target
  let now := timeOf now clock
  if !db.items.any (·.owned lease.item.id lease.token now) then do
    touch
    pure false
  else match result with
    | .ok receipt => do
      Prog.ask fun _ => verifiedItem F (lease.completed receipt now) target
      let next ← Prog.ask fun _ =>
        db.archiveItem lease.item.id lease.token now (F.signedReceipt.encode receipt)
      commit next
      Prog.ask fun d => do
        refuse (!idOk lease.item.id) "큐 항목 ID 오류"
        if (d.file (.snapshot lease.item.id)).isSome then .ok () else .error .external
      Prog.durable .external (Disk.remove (.snapshot lease.item.id))
      touch
      pure true
    | .error code => do
      commit (db.retryItem lease.item.id lease.token
        (later now (retryDelay lease.item.attempts)) code)
      pure true

end Items

end Argos.Queue
