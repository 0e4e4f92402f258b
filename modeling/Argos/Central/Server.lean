import Argos.Agent.EventStore

/-!
# The central server

The handlers of `argos-central/src/main.rs` that agents call: `register_agent`, `heartbeat` and
`ingest_detection`, with the tables that they write. A handler holds the lock of the database while
it works, so handlers come one after the other. Every statement can fail, and a commit that is
reported as failed may be stored all the same.

What is delivered under a number is stored once: the table of detections has one row for an agent and
a delivery number, and a further one is dropped (`ON CONFLICT DO NOTHING`).
-/

namespace Argos.Central

open Argos.Lib
open Argos.Common
open Argos.Vault (blank)
open Argos.Recovery (i64Max asI64)

/-! ## Tables and requests -/

/-- A row of `agents`, without its key. -/
structure AgentRow where
  hostname : String
  tags : List String
  registeredAtMs : Int
  lastSeenMs : Int
  sensorHealthy : Option Bool := none
  outboxPending : Nat := 0
  failedAttempts : Nat := 0
  lastHeartbeatMs : Option Int := none
deriving DecidableEq

/-- A row of `detections`. -/
structure ReportRow where
  id : Nat
  agentId : String
  timestampMs : Int
  rule : String
  score : Number
  severity : String
  summary : String
  pid : Nat
  pathsJson : String
  deliveryId : Option String
deriving DecidableEq

/-- The database, with the last number that was given away. -/
structure CentralDb where
  agents : Map String AgentRow := ∅
  detections : List ReportRow := []
  lastDetection : Nat := 0

/-- `DetectionReport`. -/
structure DetectionReport where
  deliveryId : Option String
  agentId : String
  timestampMs : Nat
  rule : String
  score : Number
  severity : String
  summary : String
  pid : Nat
  paths : List String
deriving DecidableEq

/-- The body of a request. -/
inductive Message where
  | register (agentId hostname : String) (tags : List String)
  | heartbeat (agentId : String) (sensorHealthy : Bool) (outboxPending failedAttempts : Nat)
  | detection (report : DetectionReport)
deriving DecidableEq

/-- A request with the token of its `authorization` header. -/
structure Request where
  bearer : String
  message : Message
deriving DecidableEq

/-- A status with which a request is refused. -/
inductive Refusal where
  | badRequest
  | unauthorized
  | notFound
  | unprocessable
  | internalServerError
deriving DecidableEq, Repr

/-- The status of a response: `StatusCode::OK`, or a refusal. -/
inductive Status where
  | ok
  | refused (refusal : Refusal)
deriving DecidableEq, Repr

/-- `StatusCode::as_u16`. -/
def Status.asU16 : Status → Nat
  | ok => 200
  | refused .badRequest => 400
  | refused .unauthorized => 401
  | refused .notFound => 404
  | refused .unprocessable => 422
  | refused .internalServerError => 500

/-- `StatusCode::is_success`. -/
def Status.isSuccess (status : Status) : Bool := 200 ≤ status.asU16 && status.asU16 < 300

theorem Status.isSuccess_iff {status : Status} : status.isSuccess = true ↔ status = .ok := by
  cases status with
  | ok => decide
  | refused refusal => cases refusal <;> decide

/-- `AppState`, without the database and the token of the administrator. -/
structure AppState where
  agentTokens : Map String String
  development : Bool

/-- What agent and server take from `serde_json`: the texts of detections and of paths, and what a
report is after it was written by an agent and read by the server, if it can be read. -/
structure Codec where
  json : Agent.Json
  transmitted : DetectionReport → Option DetectionReport

/-! ## Handlers -/

/-- An operation on the database. -/
abbrev Op := Prog CentralDb Refusal

/-- A request is refused. -/
def refuse (bad : Bool) (refusal : Refusal) : Except Refusal Unit :=
  if bad then .error refusal else .ok ()

@[simp]
theorem refuse_ok_iff {bad : Bool} {refusal : Refusal} {u : Unit} :
    refuse bad refusal = .ok u ↔ bad = false := by
  cases bad <;> simp [refuse]

/-- A statement or a commit that is one durable step. -/
def execute (g : CentralDb → CentralDb) : Op Unit := Prog.durable .internalServerError g

/-- `authorize_agent`. -/
def authorizeAgent (state : AppState) (bearer agentId : String) : Except Refusal Unit :=
  if blank agentId then .error .badRequest
  else if state.development then .ok ()
  else
    match state.agentTokens.lookup agentId with
    | some token => if token ≠ "" ∧ bearer = token then .ok () else .error .unauthorized
    | none => .error .unauthorized

namespace CentralDb

/-- `INSERT INTO agents`, or the update of the row that is there. -/
def registered (db : CentralDb) (agentId hostname : String) (tags : List String) (now : Int) :
    CentralDb :=
  { db with
    agents := match db.agents.lookup agentId with
      | some row => db.agents.insert agentId
          { row with hostname := hostname, tags := tags, lastSeenMs := now }
      | none => db.agents.insert agentId ⟨hostname, tags, now, now, none, 0, 0, none⟩ }

/-- `UPDATE agents` for a sign of life. -/
def seen (db : CentralDb) (agentId : String) (g : AgentRow → AgentRow) : CentralDb :=
  match db.agents.lookup agentId with
  | some row => { db with agents := db.agents.insert agentId (g row) }
  | none => db

/-- The row of a report. -/
def rowOf (C : Codec) (report : DetectionReport) (id : Nat) : ReportRow :=
  ⟨id, report.agentId, asI64 report.timestampMs, report.rule, report.score, report.severity,
    report.summary, report.pid, C.json.writePaths report.paths, report.deliveryId⟩

/-- The unique index on agents and delivery numbers, of the rows that have one. -/
def conflicts (db : CentralDb) (report : DetectionReport) : Bool :=
  report.deliveryId.isSome && db.detections.any fun row =>
    row.agentId = report.agentId ∧ row.deliveryId = report.deliveryId

/-- `INSERT INTO detections .. ON CONFLICT DO NOTHING`. -/
def insertDetection (db : CentralDb) (C : Codec) (report : DetectionReport) :
    Except Refusal CentralDb :=
  if db.conflicts report then .ok db
  else if db.lastDetection < i64Max then
    .ok { db with
      detections := db.detections ++ [rowOf C report (db.lastDetection + 1)]
      lastDetection := db.lastDetection + 1 }
  else .error .internalServerError

end CentralDb

/-- The checks of `ingest_detection`. -/
def acceptable (report : DetectionReport) : Bool :=
  report.timestampMs ≤ i64Max && report.score.isFinite && report.score.inRange 0 100 &&
    report.deliveryId.all fun id => id ≠ "" && id.utf8ByteSize ≤ 128

variable (C : Codec) (state : AppState)

/-- `register_agent`. -/
def registerAgent (bearer agentId hostname : String) (tags : List String) (nowMs : Nat) : Op Unit := do
  Prog.ask fun _ => authorizeAgent state bearer agentId
  execute fun db => db.registered agentId hostname tags (asI64 nowMs)

/-- `heartbeat`. -/
def heartbeat (bearer agentId : String) (sensorHealthy : Bool) (outboxPending failedAttempts nowMs : Nat) :
    Op Unit := do
  Prog.ask fun _ => authorizeAgent state bearer agentId
  Prog.ask fun _ => refuse (outboxPending > i64Max || failedAttempts > i64Max) .badRequest
  let known ← Prog.gets fun db => (db.agents.lookup agentId).isSome
  execute fun db => db.seen agentId fun row =>
    { row with
      lastSeenMs := asI64 nowMs
      lastHeartbeatMs := some (asI64 nowMs)
      sensorHealthy := some sensorHealthy
      outboxPending := outboxPending
      failedAttempts := failedAttempts }
  Prog.ask fun _ => refuse (!known) .notFound

/-- `ingest_detection`. The row and the sign of life are one transaction. -/
def ingestDetection (bearer : String) (report : DetectionReport) (nowMs : Nat) : Op Unit := do
  Prog.ask fun _ => authorizeAgent state bearer report.agentId
  Prog.ask fun _ => refuse (!acceptable report) .badRequest
  execute id
  Prog.ask fun db => refuse (db.agents.lookup report.agentId).isNone .notFound
  let db ← Prog.ask fun db => db.insertDetection C report
  execute fun _ => db.seen report.agentId fun row => { row with lastSeenMs := asI64 nowMs }

/-- A request is handled. A report that cannot be read is refused before. -/
def handle (request : Request) (nowMs : Nat) : Op Unit :=
  match request.message with
  | .register agentId hostname tags => registerAgent state request.bearer agentId hostname tags nowMs
  | .heartbeat agentId healthy pending failed =>
    heartbeat state request.bearer agentId healthy pending failed nowMs
  | .detection report =>
    match C.transmitted report with
    | some report => ingestDetection C state request.bearer report nowMs
    | none => Prog.fail .unprocessable

/-! ## What the handlers do -/

section Effects

variable {C : Codec} {state : AppState} {db db' : CentralDb}

/-- The table has a row for an agent and a delivery number. -/
def CentralDb.Stored (db : CentralDb) (agentId deliveryId : String) : Prop :=
  ∃ row ∈ db.detections, row.agentId = agentId ∧ row.deliveryId = some deliveryId

/-- What a handler does to the detections: nothing, or one row that was not there is added. -/
inductive Ingested (C : Codec) (db db' : CentralDb) (message : Message) : Prop where
  | same (rows : db'.detections = db.detections)
  | added {sent report : DetectionReport} {id : Nat} (message_eq : message = .detection sent)
      (read : C.transmitted sent = some report) (accepted : acceptable report = true)
      (fresh : db.conflicts report = false)
      (rows : db'.detections = db.detections ++ [CentralDb.rowOf C report id])

theorem CentralDb.seen_detections {agentId : String} {g : AgentRow → AgentRow} :
    (db.seen agentId g).detections = db.detections := by
  unfold CentralDb.seen
  split <;> rfl

/-- The row of a report is there when its insertion went well. -/
theorem CentralDb.insertDetection_stored {report : DetectionReport} {id : String}
    (h : db.insertDetection C report = .ok db') (hid : report.deliveryId = some id) :
    db'.Stored report.agentId id := by
  unfold CentralDb.insertDetection at h
  split at h
  next hconflict =>
    rw [← Except.ok.inj h]
    rw [CentralDb.conflicts, Bool.and_eq_true, List.any_eq_true] at hconflict
    obtain ⟨-, row, hrow, hsame⟩ := hconflict
    obtain ⟨hagent, hdelivery⟩ := of_decide_eq_true hsame
    exact ⟨row, hrow, hagent, hdelivery.trans hid⟩
  · split at h
    · rw [← Except.ok.inj h]
      exact ⟨_, List.mem_append_right _ (List.mem_singleton_self _), rfl, hid⟩
    · cases h

theorem CentralDb.insertDetection_ingested {sent report : DetectionReport}
    (h : db.insertDetection C report = .ok db') (hread : C.transmitted sent = some report)
    (haccepted : acceptable report = true) : Ingested C db db' (.detection sent) := by
  unfold CentralDb.insertDetection at h
  split at h
  · rw [← Except.ok.inj h]
    exact .same rfl
  next hfresh =>
    split at h
    · rw [← Except.ok.inj h]
      exact .added rfl hread haccepted (by simpa using hfresh) rfl
    · cases h

/-- What a handled request leaves, and that a report whose request succeeds is stored. -/
theorem handle_sat {request : Request} {nowMs : Nat} :
    (handle C state request nowMs).Sat db
      (fun _ db' => Ingested C db db' request.message ∧ ∀ sent, request.message = .detection sent →
        ∃ report, C.transmitted sent = some report ∧
          ∀ id, report.deliveryId = some id → db'.Stored report.agentId id)
      (fun db' => Ingested C db db' request.message)
      (fun db' => Ingested C db db' request.message) := by
  unfold handle
  rcases hmessage : request.message with ⟨agentId, hostname, tags⟩ |
    ⟨agentId, healthy, pending, failed⟩ | ⟨sent⟩
  · have hsame : ∀ {db' : CentralDb}, db'.detections = db.detections →
        Ingested C db db' (.register agentId hostname tags) := .same
    refine Prog.Sat.bind (Prog.Sat.ask (fun _ _ => ?_) (hsame rfl))
    refine Prog.Sat.durable ⟨hsame rfl, ?_⟩ (hsame rfl) (hsame rfl) (hsame rfl)
    rintro sent ⟨⟩
  · have hsame : ∀ {db' : CentralDb}, db'.detections = db.detections →
        Ingested C db db' (.heartbeat agentId healthy pending failed) := .same
    refine Prog.Sat.bind (Prog.Sat.ask (fun _ _ => ?_) (hsame rfl))
    refine Prog.Sat.bind (Prog.Sat.ask (fun _ _ => ?_) (hsame rfl))
    refine Prog.Sat.bind (Prog.Sat.gets ?_)
    refine Prog.Sat.bind (Prog.Sat.durable ?_ (hsame CentralDb.seen_detections) (hsame rfl)
      (hsame rfl))
    refine Prog.Sat.ask (fun _ _ => ⟨hsame CentralDb.seen_detections, ?_⟩)
      (hsame CentralDb.seen_detections)
    rintro sent ⟨⟩
  · have hsame : ∀ {db' : CentralDb}, db'.detections = db.detections →
        Ingested C db db' (.detection sent) := .same
    dsimp only
    rcases hread : C.transmitted sent with _ | report
    · exact Prog.Sat.fail (hsame rfl)
    refine Prog.Sat.bind (Prog.Sat.ask (fun _ _ => ?_) (hsame rfl))
    refine Prog.Sat.bind (Prog.Sat.ask (fun _ haccepted => ?_) (hsame rfl))
    refine Prog.Sat.bind (Prog.Sat.durable ?_ (hsame rfl) (hsame rfl) (hsame rfl))
    refine Prog.Sat.bind (Prog.Sat.ask (fun _ _ => ?_) (hsame rfl))
    refine Prog.Sat.bind (Prog.Sat.ask (fun db₁ hinserted => ?_) (hsame rfl))
    -- The sign of life is stored with the row.
    have hingested := CentralDb.insertDetection_ingested hinserted hread (by simpa using haccepted)
    have hdone : Ingested C db
        (db₁.seen report.agentId fun row => { row with lastSeenMs := asI64 nowMs })
        (.detection sent) := by
      cases hingested with
      | same rows => exact .same (CentralDb.seen_detections.trans rows)
      | added hmessage hread haccepted fresh rows =>
        exact .added hmessage hread haccepted fresh (CentralDb.seen_detections.trans rows)
    refine Prog.Sat.durable ⟨hdone, ?_⟩ hdone (hsame rfl) (hsame rfl)
    rintro _ ⟨⟩
    refine ⟨report, hread, fun id hid => ?_⟩
    obtain ⟨row, hrow, hrest⟩ := CentralDb.insertDetection_stored hinserted hid
    refine ⟨row, ?_, hrest⟩
    rw [CentralDb.seen_detections]
    exact hrow

end Effects

end Argos.Central
