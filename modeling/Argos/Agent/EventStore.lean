import Argos.Common.Event
import Argos.Lib.Durable
import Argos.Recovery.Index

/-!
# The event store of an agent

`argos-storage/src/outbox.rs`, with `insert_detection` of `lib.rs`: a detection is stored in one
transaction with its entry for the central server and its request for retention. Each call is one
transaction of a database that has one writer at a time, so the calls of several threads and
processes come one after the other; a call that fails or is killed before its commit changes
nothing. The random part of a delivery number and the clock are arguments.

`serde_json` is a parameter. `Json.Faithful` says what the agent relies on: a detection that was
written is read back up to its score, or cannot be read. `serde_json` writes an infinite score as
`null`, and without `float_roundtrip` it may read a score as a neighbour of the one it has written.
-/

namespace Argos.Agent

open Argos.Lib
open Argos.Common
open Argos.Vault (blank)
open Argos.Recovery (i64Max asI64)

/-- `serde_json`, as far as the event store uses it. -/
structure Json where
  writeDetection : Detection → String
  readDetection : String → Option Detection
  writePaths : List String → String

/-- What was written is read back up to its score, if it can be read. -/
def Json.Faithful (J : Json) : Prop :=
  ∀ d d', J.readDetection (J.writeDetection d) = some d' → d' = { d with score := d'.score }

/-- `StorageError`. -/
inductive StorageError where
  | db
  | json
  | invalidRange (text : String)
deriving DecidableEq, Repr

/-- The result of a function of the crate. -/
abbrev Result := Except StorageError

/-- A refusal with an error. -/
def refuse (bad : Bool) (error : StorageError) : Result Unit := if bad then .error error else .ok ()

@[simp]
theorem refuse_ok_iff {bad : Bool} {error : StorageError} {u : Unit} :
    refuse bad error = .ok u ↔ bad = false := by
  cases bad <;> simp [refuse]

/-! ## Tables -/

/-- A row of `detections`. -/
structure DetectionRow where
  id : Nat
  timestampMs : Int
  rule : String
  score : Number
  severity : String
  summary : String
  pid : Nat
  pathsJson : String
deriving DecidableEq

/-- A row of `detection_outbox`. -/
structure OutboxRow where
  id : Nat
  deliveryId : String
  agentId : String
  detectionJson : String
  createdAtMs : Int
  attempts : Nat
  lastError : Option String
deriving DecidableEq

/-- A row of `delivery_counters`. -/
structure DeliveryCounters where
  failedAttempts : Nat
  acknowledged : Nat
deriving DecidableEq

instance : Inhabited DeliveryCounters := ⟨⟨0, 0⟩⟩

/-- A row of `retention_jobs`. -/
structure RetentionRow where
  detectionId : Nat
  detectionJson : String
  attempts : Nat
  lastError : Option String
  nextAttemptMs : Nat
deriving DecidableEq

/-- The row of `retention_counters`. -/
structure RetentionCounters where
  failedAttempts : Nat := 0
  overflow : Nat := 0
  completed : Nat := 0
deriving DecidableEq

/-- The database, with the last number that each table gave away. -/
structure EventDb where
  detections : List DetectionRow := []
  lastDetection : Nat := 0
  outbox : List OutboxRow := []
  lastOutbox : Nat := 0
  deliveryCounters : Map String DeliveryCounters := ∅
  retentionJobs : List RetentionRow := []
  retentionCounters : RetentionCounters := {}

/-- An operation on the event store. -/
abbrev Op := Prog EventDb StorageError

/-- A transaction is committed. -/
def commit (db : EventDb) : Op Unit := Prog.atomic .db fun _ => db

/-- The next number of a table with `AUTOINCREMENT`, while there is one. -/
def nextRow (last : Nat) : Result Nat := if last < i64Max then .ok (last + 1) else .error .db

theorem nextRow_ok {last id : Nat} (h : nextRow last = .ok id) : id = last + 1 := by
  unfold nextRow at h
  split at h
  · exact (Except.ok.inj h).symm
  · cases h

/-- `RETENTION_CAPACITY`. -/
def retentionCapacity : Nat := 10000

/-- The text of an error as it is stored, `error.chars().take(512)`. -/
def clipped (error : String) : String := String.ofList (error.toList.take 512)

section Store

variable (J : Json)

namespace EventDb

/-! ## Recording a detection -/

/-- `insert_detection`. A score that is not a number is stored as `NULL`, which the column refuses.
-/
def insertDetection (db : EventDb) (d : Detection) : Result (Nat × EventDb) := do
  refuse (d.score = .nan) .db
  let id ← nextRow db.lastDetection
  .ok (id, { db with
    detections := db.detections ++ [⟨id, asI64 d.timestampMs, d.rule, d.score, d.severity.asStr,
      d.summary, d.pid, J.writePaths d.paths⟩]
    lastDetection := id })

/-- `INSERT INTO detection_outbox`, with its unique delivery number. -/
def insertOutbox (db : EventDb) (d : Detection) (agentId deliveryId : String) (nowMs : Nat) :
    Result EventDb := do
  let id ← nextRow db.lastOutbox
  refuse (db.outbox.any fun row => row.deliveryId = deliveryId) .db
  .ok { db with
    outbox := db.outbox ++
      [⟨id, deliveryId, agentId, J.writeDetection d, asI64 nowMs, 0, none⟩]
    lastOutbox := id }

/-- The part of `record_detection` that asks for retention. -/
def requestRetention (db : EventDb) (id : Nat) (d : Detection) : Result EventDb :=
  if db.retentionJobs.length < retentionCapacity then
    if db.retentionJobs.any fun row => row.detectionId = id then .error .db
    else .ok { db with
      retentionJobs := db.retentionJobs ++ [⟨id, J.writeDetection d, 0, none, 0⟩] }
  else .ok { db with
    retentionCounters := { db.retentionCounters with
      overflow := db.retentionCounters.overflow + 1 } }

/-- The part of `record_detection` for the central server. -/
def requestDelivery (db : EventDb) (d : Detection) (agentId : Option String) (deliveryId : String)
    (nowMs : Nat) : Result EventDb :=
  match agentId with
  | some agentId => db.insertOutbox J d agentId deliveryId nowMs
  | none => .ok db

/-- The transaction of `record_detection`. -/
def recorded (db : EventDb) (d : Detection) (agentId : Option String) (retain : Bool)
    (deliveryId : String) (nowMs : Nat) : Result (Nat × EventDb) := do
  let (id, db) ← db.insertDetection J d
  let db ← db.requestDelivery J d agentId deliveryId nowMs
  let db ← bif retain then db.requestRetention J id d else .ok db
  .ok (id, db)

/-! ## Deliveries -/

/-- `DELETE FROM detection_outbox` and the count of it. -/
def deliveryAcknowledged (db : EventDb) (deliveryId agentId : String) : EventDb :=
  if db.outbox.any fun row => row.deliveryId = deliveryId ∧ row.agentId = agentId then
    { db with
      outbox := db.outbox.filter fun row => ¬(row.deliveryId = deliveryId ∧ row.agentId = agentId)
      deliveryCounters := bump db.deliveryCounters agentId fun c =>
        { c with acknowledged := c.acknowledged + 1 } }
  else db

/-- A row after a failed delivery. -/
def failedRow (error : String) (row : OutboxRow) : OutboxRow :=
  { row with attempts := row.attempts + 1, lastError := some (clipped error) }

/-- `UPDATE detection_outbox` and the count of it. -/
def deliveryFailed (db : EventDb) (deliveryId agentId error : String) : EventDb :=
  if db.outbox.any fun row => row.deliveryId = deliveryId ∧ row.agentId = agentId then
    { db with
      outbox := db.outbox.map fun row =>
        if row.deliveryId = deliveryId ∧ row.agentId = agentId then failedRow error row else row
      deliveryCounters := bump db.deliveryCounters agentId fun c =>
        { c with failedAttempts := c.failedAttempts + 1 } }
  else db

/-! ## Retention -/

/-- `DELETE FROM retention_jobs` and the count of it. -/
def retentionAcknowledged (db : EventDb) (id : Nat) : EventDb :=
  if db.retentionJobs.any fun row => row.detectionId = id then
    { db with
      retentionJobs := db.retentionJobs.filter fun row => row.detectionId ≠ id
      retentionCounters := { db.retentionCounters with
        completed := db.retentionCounters.completed + 1 } }
  else db

/-- A job after a failed attempt. -/
def failedJob (error : String) (nextAttemptMs : Nat) (row : RetentionRow) : RetentionRow :=
  { row with
    attempts := row.attempts + 1
    lastError := some (clipped error)
    nextAttemptMs := nextAttemptMs }

/-- `UPDATE retention_jobs` and the count of it. -/
def retentionFailed (db : EventDb) (id : Nat) (error : String) (nextAttemptMs : Nat) : EventDb :=
  if db.retentionJobs.any fun row => row.detectionId = id then
    { db with
      retentionJobs := db.retentionJobs.map fun row =>
        if row.detectionId = id then failedJob error nextAttemptMs row else row
      retentionCounters := { db.retentionCounters with
        failedAttempts := db.retentionCounters.failedAttempts + 1 } }
  else db

end EventDb

/-! ## Calls -/

/-- `EventStore::record_detection`. -/
def recordDetection (d : Detection) (agentId : Option String) (retain : Bool) (deliveryId : String)
    (nowMs : Nat) : Op Nat := do
  Prog.ask fun _ => refuse (agentId.any blank) (.invalidRange "에이전트 ID 없음")
  let (id, db) ← Prog.ask fun db => db.recorded J d agentId retain deliveryId nowMs
  commit db
  pure id

/-- `EventStore::insert_detection_with_outbox`. -/
def insertDetectionWithOutbox (d : Detection) (agentId deliveryId : String) (nowMs : Nat) :
    Op Unit := do
  Prog.ask fun _ => refuse (blank agentId) (.invalidRange "전송할 에이전트 ID가 비어 있습니다")
  let db ← Prog.ask fun db => do
    let (_, db) ← db.insertDetection J d
    db.insertOutbox J d agentId deliveryId nowMs
  commit db

/-- `OutboxEntry`. -/
structure OutboxEntry where
  deliveryId : String
  agentId : String
  detection : Detection
  attempts : Nat
deriving DecidableEq

/-- The entry of a row. -/
def OutboxRow.entry (row : OutboxRow) : Result OutboxEntry :=
  match J.readDetection row.detectionJson with
  | some detection => .ok ⟨row.deliveryId, row.agentId, detection, row.attempts⟩
  | none => .error .db

/-- `EventStore::pending_deliveries`, `ORDER BY id`, which is the order of the rows. -/
def pendingDeliveries (db : EventDb) (agentId : String) (limit : Nat) :
    Result (List OutboxEntry) := do
  refuse (limit = 0 || limit > 1000) (.invalidRange "전송 묶음은 1~1,000건이어야 합니다")
  ((db.outbox.filter fun row => row.agentId = agentId).take limit).mapM (OutboxRow.entry J)

/-- `EventStore::acknowledge_delivery`. -/
def acknowledgeDelivery (deliveryId agentId : String) : Op Unit := do
  let db ← Prog.gets fun db => db.deliveryAcknowledged deliveryId agentId
  commit db

/-- `EventStore::record_delivery_failure`. -/
def recordDeliveryFailure (deliveryId agentId error : String) : Op Unit := do
  let db ← Prog.gets fun db => db.deliveryFailed deliveryId agentId error
  commit db

/-- `OutboxStats`. -/
structure OutboxStats where
  pending : Nat
  failedAttempts : Nat
  acknowledged : Nat
deriving DecidableEq

/-- `EventStore::outbox_stats`, without the age of the oldest entry. -/
def outboxStats (db : EventDb) (agentId : String) : OutboxStats :=
  let counters := valueAt db.deliveryCounters agentId
  ⟨(db.outbox.filter fun row => row.agentId = agentId).length, counters.failedAttempts,
    counters.acknowledged⟩

/-- `RetentionJob`. -/
structure RetentionJob where
  detectionId : Nat
  detection : Detection
  attempts : Nat
deriving DecidableEq

/-- The job of a row. -/
def RetentionRow.job (row : RetentionRow) : Result RetentionJob :=
  match J.readDetection row.detectionJson with
  | some detection => .ok ⟨row.detectionId, detection, row.attempts⟩
  | none => .error .db

/-- `EventStore::pending_retention_jobs`, `ORDER BY next_attempt_ms, detection_id`. -/
def pendingRetentionJobs (db : EventDb) (nowMs limit : Nat) : Result (List RetentionJob) := do
  refuse (limit = 0 || limit > 100 || nowMs > i64Max)
    (.invalidRange "보존 묶음은 1~100건, 시각은 i64 범위여야 합니다")
  (((db.retentionJobs.filter fun row => row.nextAttemptMs ≤ nowMs).insertionSort fun a b =>
    a.nextAttemptMs < b.nextAttemptMs ∨
      (a.nextAttemptMs = b.nextAttemptMs ∧ a.detectionId ≤ b.detectionId)).take limit).mapM
    (RetentionRow.job J)

/-- `EventStore::acknowledge_retention_job`. -/
def acknowledgeRetentionJob (id : Nat) : Op Unit := do
  let db ← Prog.gets fun db => db.retentionAcknowledged id
  commit db

/-- `EventStore::record_retention_failure`. -/
def recordRetentionFailure (id : Nat) (error : String) (nextAttemptMs : Nat) : Op Unit := do
  Prog.ask fun _ => refuse (nextAttemptMs > i64Max) (.invalidRange "보존 재시도 시각 범위 초과")
  let db ← Prog.gets fun db => db.retentionFailed id error nextAttemptMs
  commit db

/-- `RetentionStats`. -/
structure RetentionStats where
  pending : Nat
  failedAttempts : Nat
  overflow : Nat
  completed : Nat
deriving DecidableEq

/-- `EventStore::retention_stats`. -/
def retentionStats (db : EventDb) : RetentionStats :=
  ⟨db.retentionJobs.length, db.retentionCounters.failedAttempts, db.retentionCounters.overflow,
    db.retentionCounters.completed⟩

end Store

/-! ## What the calls do -/

section Effects

variable {J : Json} {db db' : EventDb}

/-- A detection was recorded: it has the next number, and its entry for the central server and its
request for retention are there as far as they were asked for. -/
structure Recorded (J : Json) (db db' : EventDb) (id : Nat) (d : Detection)
    (agentId : Option String) (retain : Bool) (deliveryId : String) : Prop where
  number : id = db.lastDetection + 1
  last : db'.lastDetection = id
  counters : db'.deliveryCounters = db.deliveryCounters
  silent : agentId = none → db'.outbox = db.outbox
  sent : ∀ agent, agentId = some agent → ∃ row, row.deliveryId = deliveryId ∧ row.agentId = agent ∧
    row.detectionJson = J.writeDetection d ∧ db'.outbox = db.outbox ++ [row]
  quiet : retain = false → db'.retentionJobs = db.retentionJobs ∧
    db'.retentionCounters = db.retentionCounters
  queued : retain = true → db.retentionJobs.length < retentionCapacity →
    db'.retentionJobs = db.retentionJobs ++ [⟨id, J.writeDetection d, 0, none, 0⟩] ∧
      db'.retentionCounters = db.retentionCounters
  overflowed : retain = true → ¬ db.retentionJobs.length < retentionCapacity →
    db'.retentionJobs = db.retentionJobs ∧
      db'.retentionCounters = { db.retentionCounters with
        overflow := db.retentionCounters.overflow + 1 }

theorem insertDetection_ok {id : Nat} {d : Detection}
    (h : db.insertDetection J d = .ok (id, db')) :
    id = db.lastDetection + 1 ∧
      ∃ rows, db' = { db with detections := rows, lastDetection := db.lastDetection + 1 } := by
  unfold EventDb.insertDetection at h
  rw [Prog.answer_bind_iff] at h
  obtain ⟨-, -, h⟩ := h
  rw [Prog.answer_bind_iff] at h
  obtain ⟨n, hn, h⟩ := h
  obtain ⟨rfl, rfl⟩ := Prod.mk.inj (Except.ok.inj h)
  rw [nextRow_ok hn]
  exact ⟨rfl, _, rfl⟩

theorem insertOutbox_ok {d : Detection} {agentId deliveryId : String} {nowMs : Nat}
    (h : db.insertOutbox J d agentId deliveryId nowMs = .ok db') :
    ∃ row last, row.deliveryId = deliveryId ∧ row.agentId = agentId ∧
      row.detectionJson = J.writeDetection d ∧
      db' = { db with outbox := db.outbox ++ [row], lastOutbox := last } := by
  unfold EventDb.insertOutbox at h
  rw [Prog.answer_bind_iff] at h
  obtain ⟨n, -, h⟩ := h
  rw [Prog.answer_bind_iff] at h
  obtain ⟨-, -, h⟩ := h
  rw [← Except.ok.inj h]
  exact ⟨_, n, rfl, rfl, rfl, rfl⟩

theorem requestRetention_ok {id : Nat} {d : Detection}
    (h : db.requestRetention J id d = .ok db') :
    (db.retentionJobs.length < retentionCapacity ∧
      db' = { db with
        retentionJobs := db.retentionJobs ++ [⟨id, J.writeDetection d, 0, none, 0⟩] }) ∨
    (¬ db.retentionJobs.length < retentionCapacity ∧
      db' = { db with
        retentionCounters := { db.retentionCounters with
          overflow := db.retentionCounters.overflow + 1 } }) := by
  unfold EventDb.requestRetention at h
  split at h
  next hroom =>
    split at h
    · cases h
    · exact .inl ⟨hroom, (Except.ok.inj h).symm⟩
  next hfull => exact .inr ⟨hfull, (Except.ok.inj h).symm⟩

theorem recorded_ok {id : Nat} {d : Detection} {agentId : Option String} {retain : Bool}
    {deliveryId : String} {nowMs : Nat}
    (h : db.recorded J d agentId retain deliveryId nowMs = .ok (id, db')) :
    Recorded J db db' id d agentId retain deliveryId := by
  unfold EventDb.recorded at h
  rw [Prog.answer_bind_iff] at h
  obtain ⟨⟨n, db₁⟩, hinserted, h⟩ := h
  obtain ⟨hn, rows, hdb₁⟩ := insertDetection_ok hinserted
  rw [Prog.answer_bind_iff] at h
  obtain ⟨db₂, hsent, h⟩ := h
  rw [Prog.answer_bind_iff] at h
  obtain ⟨db₃, hkept, h⟩ := h
  obtain ⟨rfl, rfl⟩ := Prod.mk.inj (Except.ok.inj h)
  -- The entry for the central server changes only the outbox.
  have houtbox : ∃ outbox last, db₂ = { db₁ with outbox := outbox, lastOutbox := last } ∧
      (agentId = none → outbox = db.outbox) ∧
      ∀ agent, agentId = some agent → ∃ row, row.deliveryId = deliveryId ∧ row.agentId = agent ∧
        row.detectionJson = J.writeDetection d ∧ outbox = db.outbox ++ [row] := by
    cases agentId with
    | none =>
      refine ⟨db₁.outbox, db₁.lastOutbox, (Except.ok.inj hsent).symm, fun _ => by rw [hdb₁], ?_⟩
      rintro agent ⟨⟩
    | some agent =>
      obtain ⟨row, last, hdelivery, hagent, hjson, hdb₂⟩ := insertOutbox_ok hsent
      refine ⟨_, last, hdb₂, by rintro ⟨⟩, ?_⟩
      rintro _ ⟨⟩
      exact ⟨row, hdelivery, hagent, hjson, by rw [hdb₁]⟩
  obtain ⟨outbox, last, hdb₂, hnone, hsome⟩ := houtbox
  rw [hdb₁] at hdb₂
  cases retain with
  | false =>
    have hdb₃ : db₃ = db₂ := (Except.ok.inj hkept).symm
    rw [hdb₃, hdb₂]
    exact ⟨hn, hn.symm, rfl, hnone, hsome, fun _ => ⟨rfl, rfl⟩, by rintro ⟨⟩, by rintro ⟨⟩⟩
  | true =>
    rcases requestRetention_ok hkept with ⟨hroom, hdb₃⟩ | ⟨hfull, hdb₃⟩
    all_goals
      rw [hdb₂] at hdb₃
      rw [hdb₃]
      refine ⟨hn, hn.symm, rfl, hnone, hsome, (by rintro ⟨⟩), fun _ h => ?_, fun _ h => ?_⟩
    · exact ⟨rfl, rfl⟩
    · rw [hdb₂] at hroom
      exact absurd hroom h
    · rw [hdb₂] at hfull
      exact absurd h hfull
    · exact ⟨rfl, rfl⟩

theorem recordDetection_sat {d : Detection} {agentId : Option String} {retain : Bool}
    {deliveryId : String} {nowMs : Nat} :
    (recordDetection J d agentId retain deliveryId nowMs).Sat db
      (fun id db' => Recorded J db db' id d agentId retain deliveryId) (fun db' => db' = db)
      (fun db' => db' = db) := by
  refine Prog.Sat.bind (Prog.Sat.ask (fun _ _ => ?_) rfl)
  refine Prog.Sat.bind (Prog.Sat.ask (fun answer hanswer => ?_) rfl)
  obtain ⟨id, db'⟩ := answer
  exact Prog.Sat.bind (Prog.Sat.atomic (Prog.Sat.pure (recorded_ok hanswer)) rfl rfl)

theorem insertDetectionWithOutbox_sat {d : Detection} {agentId deliveryId : String} {nowMs : Nat} :
    (insertDetectionWithOutbox J d agentId deliveryId nowMs).Sat db
      (fun _ db' => ∃ id, Recorded J db db' id d (some agentId) false deliveryId)
      (fun db' => db' = db) (fun db' => db' = db) := by
  refine Prog.Sat.bind (Prog.Sat.ask (fun _ _ => ?_) rfl)
  refine Prog.Sat.bind (Prog.Sat.ask (fun db' hanswer => ?_) rfl)
  refine Prog.Sat.atomic ?_ rfl rfl
  rw [Prog.answer_bind_iff] at hanswer
  obtain ⟨⟨id, db₁⟩, hinserted, hsent⟩ := hanswer
  -- It is a detection that is recorded without a request for retention.
  suffices hrecorded : db.recorded J d (some agentId) false deliveryId nowMs = .ok (id, db') from
    ⟨id, recorded_ok hrecorded⟩
  unfold EventDb.recorded
  rw [Prog.answer_bind_iff]
  refine ⟨_, hinserted, ?_⟩
  rw [Prog.answer_bind_iff]
  refine ⟨_, hsent, ?_⟩
  rw [Prog.answer_bind_iff]
  exact ⟨_, rfl, rfl⟩

/-- A call that computes new tables and commits them. -/
theorem commitWith_sat {g : EventDb → EventDb} :
    (do let db ← Prog.gets g; commit db : Op Unit).Sat db (fun _ db' => db' = g db)
      (fun db' => db' = db) (fun db' => db' = db) :=
  Prog.Sat.bind (Prog.Sat.gets (Prog.Sat.atomic rfl rfl rfl))

end Effects

end Argos.Agent
