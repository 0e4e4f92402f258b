import Argos.Recovery.Store

/-!
# Retention for incidents

`retention.rs`: an incident keeps versions by references (pins), each recorded in the audit, and a
reference is released with an approval that is used once. What a call changes in its transaction is a
function of the index here, and the call commits the result. The constraints of the tables are errors
of the statements that would break them; the triggers do not fire, since no statement of the crate
deletes a reference, an approval or an entry of the audit, or changes one after its release.

The clock is read for every reference again; `clock i` is the `i`-th reading of a call.
-/

namespace Argos.Recovery

open Argos.Lib
open Argos.Vault (blank bytesOf isDigit)

/-! ## Requests -/

/-- `now_ms` at a reading of the clock. -/
def nowMs (reading : Nat) : Nat := min reading i64Max

/-- A byte of an identifier. -/
def isIdByte (b : UInt8) : Bool :=
  isDigit b || (97 ≤ b && b ≤ 122) || (65 ≤ b && b ≤ 90) || b == 45 || b == 95 || b == 58

/-- `validate_id`. -/
def validateId (value : String) : Result Unit :=
  refuse (value.isEmpty || value.utf8ByteSize > 128 || !(bytesOf value).all isIdByte)
    (.invalidRetention
      "IDs must be 1..128 ASCII letters, digits, '-', '_' or ':'; paths are not IDs")

/-- `validate_text`. -/
def validateText (value field : String) (max : Nat) : Result Unit :=
  refuse (blank value || value.utf8ByteSize > max || value.toList.any isControl)
    (.invalidRetention (field ++ " must be nonempty, at most " ++ toString max ++
      " bytes, without control characters"))

/-- `validate_request`. -/
def validateRequest (path : Path) (incidentId actor reason : String) : Result Unit := do
  validateId incidentId
  validateText actor "actor" 256
  validateText reason "reason" 4096
  refuse (path.toStr.all (·.isEmpty) || path.fileName.isNone ||
    path.components.any (· = Path.parentDir) || path.toStr.any fun text => text.toList.any isControl)
    (.invalidRetention "path must name a UTF-8 file without '..' or control characters")

namespace Index

/-! ## Statements -/

/-- `get_pin`. -/
def getPin (index : Index) (id : Int) : Result RetentionPin :=
  match index.pins.find? (·.id = id) with
  | some pin => .ok pin
  | none => .error (.notFound ("retention reference " ++ toString id))

/-- `append_retention_audit`. -/
def appendAudit (index : Index) (pin : RetentionPin) (action : AuditAction) (actor reason : String)
    (timestampMs : Nat) (approvalId : Option String) : Result Index := do
  let id ← nextId index.lastAudit
  .ok { index with
    audit := index.audit ++ [⟨id, pin.id, pin.incidentId, pin.versionId, pin.path, pin.hash, action,
      actor, reason, timestampMs, approvalId⟩]
    lastAudit := id }

/-- `INSERT INTO retention_pins`, with the unique index on the active references. -/
def insertPin (index : Index) (version : BackupVersion) (incidentId actor reason : String)
    (timestampMs : Nat) : Result (RetentionPin × Index) := do
  let id ← nextId index.lastPin
  refuse (index.pins.any fun pin =>
    pin.incidentId = incidentId ∧ pin.versionId = version.id ∧ pin.active) .db
  let pin : RetentionPin := ⟨id, incidentId, version.id, version.path, version.hash, actor, reason,
    timestampMs, none, none, none, none⟩
  .ok (pin, { index with pins := index.pins ++ [pin], lastPin := id })

/-- `pin_in_transaction`. -/
def pinInTransaction (index : Index) (version : BackupVersion) (incidentId actor reason : String)
    (reading : Nat) : Result (RetentionPin × Index) :=
  match index.pins.find? fun pin =>
      pin.incidentId = incidentId ∧ pin.versionId = version.id ∧ pin.active with
  | some pin => .ok (pin, index)
  | none => do
    let (pin, index) ← index.insertPin version incidentId actor reason (nowMs reading)
    let index ← index.appendAudit pin .pinned actor reason (nowMs reading) none
    .ok (pin, index)

/-- The references of a list of versions, one after the other. -/
def pinEach (incidentId actor reason : String) (clock : Nat → Nat) :
    List BackupVersion → Nat → Index → Result (List RetentionPin × Index)
  | [], _, index => .ok ([], index)
  | version :: rest, i, index => do
    let (pin, index) ← index.pinInTransaction version incidentId actor reason (clock i)
    let (pins, index) ← pinEach incidentId actor reason clock rest (i + 1) index
    .ok (pin :: pins, index)

/-- `retention_pins(Some(incident), false)`. -/
def activePins (index : Index) (incidentId : String) : List RetentionPin :=
  index.pins.filter fun pin => pin.incidentId = incidentId ∧ pin.active

/-- The checks of `record_approval`. -/
def checkApproval (index : Index) (pins : List RetentionPin) (approval : ReleaseApproval) :
    Result Unit := do
  validateId approval.approvalId
  validateText approval.approver "approver" 256
  validateText approval.reason "approval reason" 4096
  refuse (pins.any fun pin => pin.actor = trim approval.approver)
    (.invalidReleaseApproval "approver must differ from the original pin actor")
  refuse (index.approvals.any fun row => row.approvalId = approval.approvalId)
    (.invalidReleaseApproval "approval ID was already used")

/-- The error of an approval. -/
def approvalError : RecoveryError → RecoveryError
  | .invalidRetention text => .invalidReleaseApproval text
  | error => error

/-- `record_approval`. -/
def recordApproval (index : Index) (pins : List RetentionPin) (approval : ReleaseApproval)
    (reading : Nat) : Result Index := do
  (index.checkApproval pins approval).mapError approvalError
  .ok { index with
    approvals := index.approvals ++
      [⟨approval.approvalId, trim approval.approver, trim approval.reason, nowMs reading⟩] }

/-- A reference after its release. -/
def released (approval : ReleaseApproval) (timestampMs : Nat) (pin : RetentionPin) : RetentionPin :=
  { pin with
    releasedAtMs := some timestampMs
    releaseApprovalId := some approval.approvalId
    releasedBy := some (trim approval.approver)
    releaseReason := some (trim approval.reason) }

/-- `UPDATE retention_pins SET released_at_ms, .. WHERE id AND released_at_ms IS NULL`. -/
def updateReleased (index : Index) (id : Int) (approval : ReleaseApproval) (timestampMs : Nat) :
    Index :=
  { index with
    pins := index.pins.map fun pin =>
      if pin.id = id ∧ pin.active then released approval timestampMs pin else pin }

/-- `release_in_transaction`. -/
def releaseInTransaction (index : Index) (pin : RetentionPin) (approval : ReleaseApproval)
    (reading : Nat) : Result (RetentionPin × Index) := do
  let index ← (index.updateReleased pin.id approval (nowMs reading)).appendAudit pin .released
    (trim approval.approver) (trim approval.reason) (nowMs reading) (some approval.approvalId)
  let pin ← index.getPin pin.id
  .ok (pin, index)

/-- The releases of a list of references, one after the other. -/
def releaseEach (approval : ReleaseApproval) (clock : Nat → Nat) :
    List RetentionPin → Nat → Index → Result (List RetentionPin × Index)
  | [], _, index => .ok ([], index)
  | pin :: rest, i, index => do
    let (pin, index) ← index.releaseInTransaction pin approval (clock i)
    let (pins, index) ← releaseEach approval clock rest (i + 1) index
    .ok (pin :: pins, index)

end Index

/-! ## Calls -/

/-- `BackupStore::pin_version`. -/
def pinVersion (path : Path) (versionId : Int) (incidentId actor reason : String) (reading : Nat) :
    Op RetentionPin := do
  Prog.ask fun _ => validateRequest path incidentId actor reason
  Prog.ask fun _ => refuse (versionId ≤ 0) (.invalidRetention "version_id must be positive")
  let (pin, index) ← Prog.ask fun s => do
    let version ← s.index.version path versionId
    s.index.pinInTransaction version incidentId (trim actor) (trim reason) reading
  commit index
  pure pin

/-- `BackupStore::pin_known_good_before`. -/
def pinKnownGoodBefore (path : Path) (beforeMs : Nat) (incidentId actor reason : String)
    (clock : Nat → Nat) : Op (List RetentionPin) := do
  Prog.ask fun _ => validateRequest path incidentId actor reason
  Prog.ask fun _ => refuse (beforeMs > i64Max)
    (.invalidRetention "incident timestamp exceeds database range")
  let (pins, index) ← Prog.ask fun s => do
    let versions ← s.index.versionsOf path
    let versions := versions.filter fun v => v.knownGood && v.timestampMs < (beforeMs : Int)
    refuse versions.isEmpty (.noTrustedVersion path.text)
    Index.pinEach incidentId (trim actor) (trim reason) clock versions 0 s.index
  commit index
  pure pins

/-- `BackupStore::release_pin`. -/
def releasePin (pinId : Int) (approval : ReleaseApproval) (clock : Nat → Nat) :
    Op RetentionPin := do
  let (pin, index) ← Prog.ask fun s => do
    let pin ← s.index.getPin pinId
    refuse (!pin.active) (.invalidReleaseApproval "reference has already been released")
    let index ← s.index.recordApproval [pin] approval (clock 0)
    index.releaseInTransaction pin approval (clock 1)
  commit index
  pure pin

/-- `BackupStore::release_incident`. -/
def releaseIncident (incidentId : String) (approval : ReleaseApproval) (clock : Nat → Nat) :
    Op (List RetentionPin) := do
  Prog.ask fun _ => validateId incidentId
  let (pins, index) ← Prog.ask fun s => do
    let pins := s.index.activePins incidentId
    refuse pins.isEmpty (.notFound ("active retention for incident " ++ incidentId))
    let index ← s.index.recordApproval pins approval (clock 0)
    Index.releaseEach approval clock pins 1 index
  commit index
  pure pins

end Argos.Recovery
