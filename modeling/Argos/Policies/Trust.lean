import Argos.Detect.Configuration
import Argos.Recovery.Store

/-!
# The activation of a signed policy

`argos-policy/src/trust.rs`: a policy file is read once and verified against the keys, the identity
and the groups of the host (`read_verify`), and then accepted or rejected in one transaction on the
state database, which keeps the accepted policies, the active version, and the last audit rows. What
the signatures, the TOML and the JSON library compute is a parameter (`Tools`). The paths of the files
and their protection, and the warnings of a valid configuration, are left out.
-/

namespace Argos.Policies

open Argos.Lib
open Argos.Detect
open Argos.Vault (Bytes bytesOf blank isDigit isHexDigit isWhitespace)
open Argos.Recovery (Digest i64Max isControl)

/-! ## Policies -/

/-- `RollbackApproval`. -/
structure RollbackApproval where
  sourceVersion : Nat
  sourceSha256 : String
  approvalId : String
  reason : String
deriving DecidableEq, Repr

/-- `Policy`. -/
structure Policy where
  version : Nat
  policyId : String
  keyId : String
  issuedAtMs : Nat
  notBeforeMs : Nat
  expiresAtMs : Nat
  targetHosts : List String
  targetGroups : List String
  rollback : Option RollbackApproval
  detection : DetectionConfig
  response : ResponseConfig
deriving DecidableEq, Repr

/-- `PolicyFileConfig`: the identity of the host and the keys that it trusts, by their ids. -/
structure PolicyFileConfig where
  policyId : String
  hostId : String
  groups : List String
  trustedKeys : List (String × String)
deriving DecidableEq, Repr

/-- The policy file and its signature, when they can be read as regular files. -/
structure Files where
  policy : Option Bytes
  signature : Option Bytes
deriving DecidableEq, Repr

/-- What is computed outside of the repository. -/
structure Tools where
  /-- Whether `VerifyingKey::from_bytes` accepts 32 bytes. -/
  validKey : Bytes → Bool
  /-- `Verifier::verify` of a key, a message and 64 bytes. -/
  verifies : Bytes → Bytes → Bytes → Bool
  /-- `toml::from_str`. -/
  policyOf : String → Option Policy
  /-- `serde_json::to_string` of the two sections. -/
  settingsOf : DetectionConfig → ResponseConfig → Option String
  /-- `hex::encode(Sha256::digest(..))`. -/
  digest : Digest

/-! ## Verification -/

/-- A refusal with a code. -/
def refuse (bad : Bool) (code : String) : Except String Unit := if bad then .error code else .ok ()

@[simp]
theorem refuse_ok_iff {bad : Bool} {code : String} {u : Unit} :
    refuse bad code = .ok u ↔ bad = false := by
  cases bad <;> simp [refuse]

/-- A code for a value that is missing. -/
def require {α : Type} (value : Option α) (code : String) : Except String α :=
  match value with
  | some a => .ok a
  | none => .error code

@[simp]
theorem require_ok_iff {α : Type} {value : Option α} {code : String} {a : α} :
    require value code = .ok a ↔ value = some a := by
  cases value <;> simp [require]

/-- A byte of an identifier. -/
def isIdByte (b : UInt8) : Bool :=
  isDigit b || (97 ≤ b && b ≤ 122) || (65 ≤ b && b ≤ 90) || (bytesOf "-_.:@").contains b

/-- `valid_id`. -/
def validId (value : String) : Bool :=
  !value.isEmpty && value.utf8ByteSize ≤ 128 && (bytesOf value).all isIdByte

/-- The value of a hexadecimal digit. -/
def hexValue (c : Char) : Option Nat :=
  if '0' ≤ c ∧ c ≤ '9' then some (c.toNat - '0'.toNat)
  else if 'a' ≤ c ∧ c ≤ 'f' then some (c.toNat - 'a'.toNat + 10)
  else if 'A' ≤ c ∧ c ≤ 'F' then some (c.toNat - 'A'.toNat + 10)
  else none

/-- `hex::decode`. -/
def hexDecode : List Char → Option Bytes
  | [] => some []
  | [_] => none
  | a :: b :: rest => do
    let high ← hexValue a
    let low ← hexValue b
    let bytes ← hexDecode rest
    some (UInt8.ofNat (16 * high + low) :: bytes)

/-- The characters of `str::trim`. -/
def trimmed (text : String) : List Char :=
  ((text.toList.dropWhile isWhitespace).reverse.dropWhile isWhitespace).reverse

section Verify

variable (T : Tools)

/-- `parse_verifying_key`: the bytes of the key. -/
def parseVerifyingKey (text : String) : Option Bytes :=
  (hexDecode (trimmed text)).filter fun bytes => bytes.length = 32 && T.validKey bytes

/-- `verify_bytes(..).is_ok()`. -/
def verifyBytes (data : Bytes) (signature key : String) : Bool :=
  match parseVerifyingKey T key,
    (hexDecode (trimmed signature)).filter fun bytes => bytes.length = 64 with
  | some key, some signature => T.verifies key data signature
  | _, _ => false

/-- Every trusted key is a key, and no two are the same. -/
def checkKeys (seen : List Bytes) : List String → Except String Unit
  | [] => .ok ()
  | key :: rest => do
    let parsed ← require (parseVerifyingKey T key) "invalid_local_trusted_keys"
    refuse (seen.contains parsed) "duplicate_local_trusted_key"
    checkKeys (parsed :: seen) rest

/-- The configuration of the host is valid. -/
def checkLocal (config : PolicyFileConfig) : Except String Unit := do
  refuse (!validId config.policyId || !validId config.hostId || config.groups.length > 128 ||
    config.groups.any fun group => !validId group) "invalid_local_identity"
  refuse (config.trustedKeys.isEmpty || config.trustedKeys.length > 64 ||
    config.trustedKeys.any fun key => !validId key.1) "invalid_local_trusted_keys"
  checkKeys T [] (config.trustedKeys.map (·.2))

/-- `MAX_POLICY_BYTES`. -/
def maxPolicyBytes : Nat := 1024 * 1024

/-- `read_bounded`. -/
def readBounded (maximum : Nat) (content : Option Bytes) : Option Bytes :=
  content.filter fun bytes => bytes.length ≤ maximum

/-- `std::str::from_utf8`. -/
def fromUtf8 (bytes : Bytes) : Option String := Recovery.Path.toStr bytes

/-- The approval of a rollback is well formed. -/
def rollbackWrong (version : Nat) (rollback : RollbackApproval) : Bool :=
  rollback.sourceVersion = 0 || rollback.sourceVersion ≥ version ||
    rollback.sourceSha256.utf8ByteSize ≠ 64 || !(bytesOf rollback.sourceSha256).all isHexDigit ||
    !validId rollback.approvalId || blank rollback.reason || rollback.reason.utf8ByteSize > 512 ||
    rollback.reason.toList.any isControl

/-- The metadata of a policy is well formed, and it names the key that signed it. -/
def checkPolicy (policy : Policy) (signingId : String) : Except String Unit := do
  refuse (!validId policy.policyId || !validId policy.keyId || policy.targetHosts.length > 128 ||
    policy.targetGroups.length > 128 ||
    (policy.targetHosts ++ policy.targetGroups).any fun id => !validId id) "invalid_policy_metadata"
  refuse (policy.keyId ≠ signingId) "key_id_mismatch"
  refuse (policy.version = 0 || policy.version > i64Max) "invalid_version"
  refuse (policy.rollback.any (rollbackWrong policy.version)) "invalid_rollback_approval"

/-- A policy that was verified, the bytes of its file with their digest, and its settings. -/
structure Verified where
  policy : Policy
  bytes : Bytes
  hash : String
  settings : String
deriving DecidableEq, Repr

/-- `read_verify`. -/
def readVerify (config : PolicyFileConfig) (files : Files) : Except String Verified := do
  checkLocal T config
  let bytes ← require (readBounded maxPolicyBytes files.policy) "policy_read_failed"
  let signatureBytes ← require (readBounded 256 files.signature) "signature_read_failed"
  let signature ← require (fromUtf8 signatureBytes) "invalid_signature"
  let signing ← require (config.trustedKeys.find? fun key => verifyBytes T bytes signature key.2)
    "invalid_signature"
  let policy ← require ((fromUtf8 bytes).bind T.policyOf) "invalid_policy_format"
  checkPolicy policy signing.1
  refuse (validateConfiguration policy.detection policy.response).toOption.isNone
    "invalid_detection_response_configuration"
  let settings ← require (T.settingsOf policy.detection policy.response)
    "invalid_detection_response_configuration"
  .ok ⟨policy, bytes, T.digest.hash bytes, settings⟩

end Verify

/-- The target of a policy matches the host; hosts and groups count when they are listed. -/
def checkTarget (config : PolicyFileConfig) (policy : Policy) : Except String Unit := do
  refuse (policy.targetHosts.isEmpty && policy.targetGroups.isEmpty) "missing_target"
  refuse (!policy.targetHosts.isEmpty && !policy.targetHosts.contains config.hostId)
    "host_target_mismatch"
  refuse (!policy.targetGroups.isEmpty && !policy.targetGroups.any fun group =>
    config.groups.contains group) "group_target_mismatch"

/-- `check_metadata`. -/
def checkMetadata (config : PolicyFileConfig) (policy : Policy) (now : Nat) : Except String Unit := do
  refuse (policy.policyId ≠ config.policyId) "policy_id_mismatch"
  refuse (policy.issuedAtMs = 0 || policy.issuedAtMs > policy.notBeforeMs ||
    policy.notBeforeMs ≥ policy.expiresAtMs || policy.expiresAtMs > i64Max) "invalid_validity_interval"
  refuse (now < policy.notBeforeMs) "not_yet_valid"
  refuse (now ≥ policy.expiresAtMs) "expired"
  checkTarget config policy

/-! ## The state database -/

/-- A row of `accepted_policies`. -/
structure AcceptedPolicy where
  version : Nat
  policyId : String
  sha256 : String
  keyId : String
  acceptedAtMs : Nat
  expiresAtMs : Nat
  policyBytes : Bytes
  settingsJson : String
  approvalId : Option String
deriving DecidableEq, Repr

/-- A row of `policy_audit`. -/
structure AuditRow where
  id : Nat
  timestampMs : Nat
  outcome : String
  reason : String
  version : Option Nat
  policyId : Option String
  sha256 : Option String
  keyId : Option String
  approvalId : Option String
deriving DecidableEq, Repr

/-- The state database; `auditSeq` is the last id of `policy_audit`. -/
structure State where
  accepted : List AcceptedPolicy := []
  active : Option Nat := none
  audit : List AuditRow := []
  auditSeq : Nat := 0
deriving DecidableEq, Repr

/-- `MAX_AUDIT_ROWS`. -/
def maxAuditRows : Nat := 10000

/-- A failure of the database. -/
inductive StateError where
  | state
deriving DecidableEq, Repr

namespace State

/-- The active policy. -/
def activeRow (s : State) : Option AcceptedPolicy :=
  s.active.bind fun version => s.accepted.find? fun row => row.version = version

/-- A row of the audit is added, and the old ones go. -/
def withRow (s : State) (row : AuditRow) : State :=
  { s with
    audit := (s.audit ++ [row]).filter fun old => row.id < old.id + maxAuditRows
    auditSeq := row.id }

/-- The row that `audit` inserts. -/
def auditRow (s : State) (now : Nat) (outcome reason : String) (v : Option Verified) : AuditRow where
  id := s.auditSeq + 1
  timestampMs := now
  outcome := outcome
  reason := reason
  version := v.map (·.policy.version)
  policyId := v.map (·.policy.policyId)
  sha256 := v.map (·.hash)
  keyId := v.map (·.policy.keyId)
  approvalId := v.bind fun v => v.policy.rollback.map (·.approvalId)

/-- `audit`; a time or an id that SQLite cannot store is an error. -/
def writeAudit (s : State) (now : Nat) (outcome reason : String) (v : Option Verified) :
    Except StateError State :=
  if now ≤ i64Max ∧ s.auditSeq < i64Max then .ok (s.withRow (s.auditRow now outcome reason v))
  else .error .state

end State

/-- The row of a policy that is accepted. -/
def Verified.row (v : Verified) (now : Nat) : AcceptedPolicy where
  version := v.policy.version
  policyId := v.policy.policyId
  sha256 := v.hash
  keyId := v.policy.keyId
  acceptedAtMs := now
  expiresAtMs := v.policy.expiresAtMs
  policyBytes := v.bytes
  settingsJson := v.settings
  approvalId := v.policy.rollback.map (·.approvalId)

/-- A policy is inserted and made active, unless its version or its approval is there. -/
def State.insertAccepted (s : State) (now : Nat) (v : Verified) : Except StateError State :=
  if v.policy.version = 0 ∨ v.policy.version > i64Max ∨ now > i64Max ∨ v.policy.expiresAtMs > i64Max ∨
      (s.accepted.any fun row => row.version = v.policy.version) ∨
      (v.policy.rollback.any fun r => s.accepted.any fun row => row.approvalId = some r.approvalId) then
    .error .state
  else .ok { s with accepted := s.accepted ++ [v.row now], active := some v.policy.version }

/-! ## Acceptance -/

/-- Why a policy is active. -/
inductive Verdict where
  | accepted
  | restarted
  | rollbackAccepted
deriving DecidableEq, Repr

/-- A verdict as it is written. -/
def Verdict.text : Verdict → String
  | accepted => "accepted"
  | restarted => "restarted"
  | rollbackAccepted => "rollback_accepted"

/-- A query, which may fail. -/
def query {α : Type} (g : State → α) : Prog State String α := do
  Prog.durable "state_query_failed" id
  Prog.gets g

/-- The version of a policy against the active one; `true` when it is the same file again. -/
def checkVersion (active : Option AcceptedPolicy) (policy : Policy) (hash : String) :
    Except String Bool :=
  match active with
  | none => .ok false
  | some row =>
    if row.policyId ≠ policy.policyId then .error "policy_series_change"
    else if policy.version < row.version then .error "version_downgrade"
    else if policy.version = row.version then
      if hash = row.sha256 then .ok true else .error "version_reuse"
    else .ok false

/-- The policy that is rolled back to is the one that is named, and its settings are the same. -/
def checkSource (source : Option AcceptedPolicy) (rollback : RollbackApproval) (settings : String) :
    Except String Unit := do
  let row ← require source "rollback_source_unknown"
  refuse (row.sha256 ≠ rollback.sourceSha256) "rollback_source_hash_mismatch"
  refuse (row.settingsJson ≠ settings) "rollback_settings_mismatch"

/-- The checks of a rollback. -/
def checkRollback (active : Option AcceptedPolicy) (policyId settings : String)
    (rollback : RollbackApproval) : Prog State String Verdict := do
  Prog.ask fun _ => refuse (active.all fun row => rollback.sourceVersion ≥ row.version)
    "rollback_source_not_older"
  let source ← query fun s => s.accepted.find? fun row =>
    row.version = rollback.sourceVersion ∧ row.policyId = policyId
  Prog.ask fun _ => checkSource source rollback settings
  let used ← query fun s => s.accepted.any fun row => row.approvalId = some rollback.approvalId
  Prog.ask fun _ => refuse used "rollback_approval_reused"
  pure .rollbackAccepted

/-- The last part of `check_acceptance`, for a version that is new. -/
def checkNew (active : Option AcceptedPolicy) (v : Verified) : Prog State String Verdict :=
  match v.policy.rollback with
  | none => pure .accepted
  | some rollback => checkRollback active v.policy.policyId v.settings rollback

/-- `check_acceptance`. -/
def checkAcceptance (config : PolicyFileConfig) (v : Verified) (now : Nat) :
    Prog State String Verdict := do
  Prog.ask fun _ => checkMetadata config v.policy now
  let active ← query State.activeRow
  let same ← Prog.ask fun _ => checkVersion active v.policy v.hash
  if same then pure .restarted else checkNew active v

/-- `ActivatedPolicy`. -/
structure Activated where
  policy : Policy
  sha256 : String
  outcome : Verdict
deriving DecidableEq, Repr

/-- An operation on the state database. -/
abbrev Op := Prog State StateError

/-- A statement of the transaction, which may fail; then the transaction is rolled back. -/
def statement : Op Unit := Prog.durable .state id

/-- The transaction is committed. -/
def commit (s : State) : Op Unit := Prog.durable .state fun _ => s

/-- The transaction of a call that is rejected with a code. -/
def rejected (now : Nat) (code : String) (v : Option Verified) : Op (Except String Activated) := do
  statement
  let s ← Prog.ask fun s => s.writeAudit now "rejected" code v
  commit s
  pure (.error code)

/-- The statements of a call that is accepted. -/
def acceptedState (now : Nat) (v : Verified) (verdict : Verdict) (s : State) :
    Except StateError State :=
  (if verdict = .restarted then .ok s else s.insertAccepted now v).bind fun s =>
    s.writeAudit now verdict.text "validated" (some v)

/-- The transaction of a call that is accepted. -/
def accepted (now : Nat) (v : Verified) (verdict : Verdict) : Op (Except String Activated) := do
  statement
  let s ← Prog.ask (acceptedState now v verdict)
  commit s
  pure (.ok ⟨v.policy, v.hash, verdict⟩)

/-- A verified policy after its checks. -/
def decided (now : Nat) (v : Verified) : Except String Verdict → Op (Except String Activated)
  | .error code => rejected now code (some v)
  | .ok verdict => accepted now v verdict

/-- The transaction of `activate_at`. Its value is the policy or the code of `Rejected`. -/
def activate (config : PolicyFileConfig) (verified : Except String Verified) (now : Nat) :
    Op (Except String Activated) := do
  statement
  match verified with
  | .error code => rejected now code none
  | .ok v => do
    let verdict ← (checkAcceptance config v now).outcome
    decided now v verdict

end Argos.Policies
