import Argos.Brain.Evidence
import Argos.Lib.Trees

/-!
# Packages of evidence

`argos-cli/src/evidence_package.rs`: what is known of an incident is written to a new directory, as two
files of JSON and a manifest with their digests. Unless the package is to hold sensitive data, each value
is redacted first: a field is covered by the name of its key, wherever it is. `snapshot` reads a package
back and checks it.

The records become trees of JSON as `serde` writes them; an `f64` that is not finite becomes `null`. The
order of fields is left to the writer. `serde_json` and SHA-256 are parameters.
-/

namespace Argos.Cli

open Argos.Brain
open Argos.Common
open Argos.Detect
open Argos.Lib
open Argos.Policies (FileEventRow Policy RollbackApproval AuditRow)

/-! ## Data -/

/-- `PolicyStatus`. -/
structure PolicyStatus where
  policyId : String
  version : Nat
  sha256 : String
  keyId : String
  acceptedAtMs : Nat
  expiresAtMs : Nat
deriving DecidableEq, Repr

/-- `PolicyStateSnapshot`. -/
structure PolicyStateSnapshot where
  active : Option PolicyStatus
  audit : List AuditRow
  auditLimit : Nat
  auditRetentionRows : Int
deriving DecidableEq, Repr

/-- What `export` finds of the policy. -/
inductive PolicyData where
  | accepted (state : PolicyStateSnapshot) (policy : Policy)
  | unsigned (detection : DetectionConfig) (response : ResponseConfig)
deriving DecidableEq

/-- What `export` finds of an incident. -/
structure Incident where
  incident : DetectionRow
  evidence : EvidenceBundle
  responseResults : EvidencePage ResponseAuditRow
  policy : PolicyData
deriving DecidableEq

/-! ## Trees of the data -/

/-- An unsigned number. -/
def natTree (n : Nat) : Tree := .int n

/-- An `f64`. -/
def numberTree : Number → Tree
  | .finite q => .float q
  | _ => .null

/-- An `Option`. -/
def optionTree {α : Type} (f : α → Tree) : Option α → Tree
  | some a => f a
  | none => .null

/-- A `Vec`. -/
def listTree {α : Type} (f : α → Tree) (l : List α) : Tree := .array (l.map f)

/-- The variant of a file action. -/
def actionTree (action : FileAction) : Tree := .text (actionName action)

def ContentSample.tree (s : ContentSample) : Tree := .object
  [("offset", natTree s.offset), ("length", natTree s.length), ("entropy", numberTree s.entropy)]

def ContentEvidence.tree (c : ContentEvidence) : Tree := .object
  [("observed_at_ms", natTree c.observedAtMs), ("file_size", natTree c.fileSize),
    ("sampled_bytes", natTree c.sampledBytes), ("budget_bytes", natTree c.budgetBytes),
    ("file_type", .text c.fileType), ("samples", listTree ContentSample.tree c.samples),
    ("complete", .bool c.complete),
    ("previous_observed_at_ms", optionTree natTree c.previousObservedAtMs),
    ("max_entropy_increase", optionTree numberTree c.maxEntropyIncrease)]

def ProcessIdentity.tree (p : ProcessIdentity) : Tree := .object
  [("pid", natTree p.pid), ("start_time_ticks", natTree p.startTimeTicks), ("boot_id", .text p.bootId)]

def FileProcessContext.tree (p : FileProcessContext) : Tree := .object
  [("uid", natTree p.uid), ("exe", .text p.exe), ("start_time_ticks", natTree p.startTimeTicks),
    ("boot_id", .text p.bootId), ("ancestors", listTree ProcessIdentity.tree p.ancestors)]

def FileEvent.tree (e : FileEvent) : Tree := .object
  [("timestamp_ms", natTree e.timestampMs), ("pid", natTree e.pid), ("path", .text e.path),
    ("action", actionTree e.action), ("size", optionTree natTree e.size),
    ("entropy", optionTree numberTree e.entropy),
    ("process", optionTree FileProcessContext.tree e.process),
    ("content", optionTree ContentEvidence.tree e.content)]

def FileEventRow.tree (row : FileEventRow) : Tree := .object
  [("id", .int row.id), ("event", FileEvent.tree row.event)]

def DetectionRow.tree (row : DetectionRow) : Tree := .object
  [("id", .int row.id), ("timestamp_ms", .int row.timestampMs), ("rule", .text row.rule),
    ("score", numberTree row.score), ("severity", .text row.severity), ("summary", .text row.summary),
    ("pid", natTree row.pid), ("paths", listTree .text row.paths)]

def ProcessCredentials.tree (c : ProcessCredentials) : Tree := .object
  [("uids", listTree natTree c.uids.toList), ("gids", listTree natTree c.gids.toList),
    ("cap_inheritable", natTree c.capInheritable), ("cap_permitted", natTree c.capPermitted),
    ("cap_effective", natTree c.capEffective), ("cap_bounding", natTree c.capBounding),
    ("cap_ambient", natTree c.capAmbient)]

def ProcessEvent.tree (e : ProcessEvent) : Tree := .object
  [("timestamp_ms", natTree e.timestampMs), ("pid", natTree e.pid), ("ppid", natTree e.ppid),
    ("uid", natTree e.uid), ("credentials", optionTree ProcessCredentials.tree e.credentials),
    ("start_time_ticks", optionTree natTree e.startTimeTicks), ("boot_id", optionTree .text e.bootId),
    ("exe", optionTree .text e.exe), ("comm", .text e.comm), ("cmdline", .text e.cmdline)]

def ProcessEventRow.tree (row : ProcessEventRow) : Tree := .object
  [("id", .int row.id), ("event", ProcessEvent.tree row.event)]

def ResponseAudit.tree (r : ResponseAudit) : Tree := .object
  [("timestamp_ms", natTree r.timestampMs), ("pid", natTree r.pid),
    ("start_time_ticks", optionTree natTree r.startTimeTicks), ("boot_id", optionTree .text r.bootId),
    ("score", numberTree r.score), ("action", .text r.action), ("outcome", .text r.outcome),
    ("error", optionTree .text r.error)]

def ResponseAuditRow.tree (row : ResponseAuditRow) : Tree := .object
  [("id", .int row.id), ("result", ResponseAudit.tree row.result)]

def EvidencePage.tree {α : Type} (f : α → Tree) (page : EvidencePage α) : Tree := .object
  [("total_rows", natTree page.totalRows), ("truncated", .bool page.truncated),
    ("rows", listTree f page.rows)]

def EvidenceBundle.tree (b : EvidenceBundle) : Tree := .object
  [("from_ms", natTree b.fromMs), ("to_ms", natTree b.toMs), ("pid", optionTree natTree b.pid),
    ("files", EvidencePage.tree FileEventRow.tree b.files),
    ("detections", EvidencePage.tree DetectionRow.tree b.detections),
    ("processes", EvidencePage.tree ProcessEventRow.tree b.processes)]

def DetectionWindow.tree (w : DetectionWindow) : Tree := .object
  [("window_secs", natTree w.windowSecs), ("min_changed_files", natTree w.minChangedFiles),
    ("mass_change_threshold", natTree w.massChangeThreshold), ("detect_score", numberTree w.detectScore)]

def MultiWindowConfig.tree (c : MultiWindowConfig) : Tree := .object
  [("enabled", .bool c.enabled), ("windows", listTree DetectionWindow.tree c.windows),
    ("protected_paths", listTree .text c.protectedPaths),
    ("aggregate_by_user", .bool c.aggregateByUser),
    ("aggregate_by_ancestry", .bool c.aggregateByAncestry), ("max_events", natTree c.maxEvents),
    ("max_groups", natTree c.maxGroups), ("max_path_bytes", natTree c.maxPathBytes)]

def ContentSamplingConfig.tree (c : ContentSamplingConfig) : Tree := .object
  [("enabled", .bool c.enabled), ("total_bytes", natTree c.totalBytes),
    ("max_files", natTree c.maxFiles), ("history_secs", natTree c.historySecs),
    ("min_entropy_increase", numberTree c.minEntropyIncrease)]

def ApprovedChange.tree (c : ApprovedChange) : Tree := .object
  [("id", .text c.id), ("valid_from_ms", natTree c.validFromMs),
    ("valid_until_ms", natTree c.validUntilMs), ("paths", listTree .text c.paths), ("exe", .text c.exe),
    ("uid", natTree c.uid), ("adjusted_rules", listTree .text c.adjustedRules)]

def DetectionConfig.tree (c : DetectionConfig) : Tree := .object
  [("window_secs", natTree c.windowSecs), ("mass_change_threshold", natTree c.massChangeThreshold),
    ("min_changed_files", natTree c.minChangedFiles),
    ("entropy_threshold", numberTree c.entropyThreshold), ("detect_score", numberTree c.detectScore),
    ("entropy_sample_bytes", natTree c.entropySampleBytes),
    ("exclude_paths", listTree .text c.excludePaths),
    ("approved_changes", listTree ApprovedChange.tree c.approvedChanges),
    ("canary_paths", listTree .text c.canaryPaths), ("multi_window", MultiWindowConfig.tree c.multiWindow),
    ("content_sampling", ContentSamplingConfig.tree c.contentSampling)]

def ResponseConfig.tree (c : ResponseConfig) : Tree := .object
  [("auto_block", .bool c.autoBlock), ("block_score", numberTree c.blockScore)]

def RollbackApproval.tree (r : RollbackApproval) : Tree := .object
  [("source_version", natTree r.sourceVersion), ("source_sha256", .text r.sourceSha256),
    ("approval_id", .text r.approvalId), ("reason", .text r.reason)]

def Policy.tree (p : Policy) : Tree := .object
  [("version", natTree p.version), ("policy_id", .text p.policyId), ("key_id", .text p.keyId),
    ("issued_at_ms", natTree p.issuedAtMs), ("not_before_ms", natTree p.notBeforeMs),
    ("expires_at_ms", natTree p.expiresAtMs), ("target_hosts", listTree .text p.targetHosts),
    ("target_groups", listTree .text p.targetGroups),
    ("rollback", optionTree RollbackApproval.tree p.rollback),
    ("detection", DetectionConfig.tree p.detection), ("response", ResponseConfig.tree p.response)]

def PolicyStatus.tree (s : PolicyStatus) : Tree := .object
  [("policy_id", .text s.policyId), ("version", natTree s.version), ("sha256", .text s.sha256),
    ("key_id", .text s.keyId), ("accepted_at_ms", natTree s.acceptedAtMs),
    ("expires_at_ms", natTree s.expiresAtMs)]

def AuditRow.tree (row : AuditRow) : Tree := .object
  [("id", natTree row.id), ("timestamp_ms", natTree row.timestampMs), ("outcome", .text row.outcome),
    ("reason", .text row.reason), ("version", optionTree natTree row.version),
    ("policy_id", optionTree .text row.policyId), ("sha256", optionTree .text row.sha256),
    ("key_id", optionTree .text row.keyId), ("approval_id", optionTree .text row.approvalId)]

def PolicyStateSnapshot.tree (s : PolicyStateSnapshot) : Tree := .object
  [("active", optionTree PolicyStatus.tree s.active), ("audit", listTree AuditRow.tree s.audit),
    ("audit_limit", natTree s.auditLimit), ("audit_retention_rows", .int s.auditRetentionRows)]

/-- The value of `policy.json`. -/
def PolicyData.tree : PolicyData → Tree
  | .accepted state policy => .object
      [("mode", .text "last_accepted_signed_policy"), ("state", PolicyStateSnapshot.tree state),
        ("policy", Policy.tree policy)]
  | .unsigned detection response => .object
      [("mode", .text "local_unsigned_configuration_at_export"),
        ("detection", DetectionConfig.tree detection), ("response", ResponseConfig.tree response)]

/-- The value of `evidence.json`. -/
def Incident.tree (d : Incident) : Tree := .object
  [("incident", DetectionRow.tree d.incident), ("evidence", EvidenceBundle.tree d.evidence),
    ("response_results", EvidencePage.tree ResponseAuditRow.tree d.responseResults)]

/-! ## Redaction -/

/-- The keys that are covered. -/
def hiddenKeys : List String :=
  ["path", "paths", "exe", "cmdline", "comm", "summary", "reason", "error", "note", "trust_note",
    "exclude_paths", "protected_paths", "canary_paths", "host_id", "target_hosts", "target_groups",
    "policy_id", "key_id", "approval_id"]

/-- The condition under which `redact` covers a field. -/
def hidden (key : String) (value : Tree) : Bool :=
  (key == "id" && value.isText) || hiddenKeys.contains key

/-- What stands in the place of a covered field. -/
def redacted : Tree := .text "[REDACTED]"

/-- `redact`. -/
def redact (value : Tree) : Tree := Tree.mask hidden redacted value

/-! ## Writing a package -/

/-- Bytes. -/
abbrev Bytes := List UInt8

/-- `serde_json` and SHA-256. -/
structure Tools where
  toVecPretty : Tree → Bytes
  fromSlice : Bytes → Option Tree
  /-- `format!("{:x}", Sha256::digest(bytes))`. -/
  sha256 : Bytes → String

/-- Why a package is not written or not read. -/
inductive PackageError where
  | io
  | json
  | message (text : String)
deriving DecidableEq, Repr

/-- A directory of regular files. -/
abbrev Directory := Map String Bytes

/-- What is at the path of the package. -/
abbrev Place := Option Directory

/-- `MAX_BYTES`. -/
def maxBytes : Nat := 64 * 1024 * 1024

/-- `builder.create(directory)`: it is an error if there is one. -/
def createDirectory : Prog Place PackageError Unit := do
  Prog.ask fun place => if place.isSome then .error .io else .ok ()
  Prog.atomic .io fun _ => some ∅

/-- `create_new(true)`: it is an error if there is such a file. -/
def isNew (name : String) : Place → Except PackageError Unit
  | none => .error .io
  | some directory => if (directory.lookup name).isSome then .error .io else .ok ()

/-- `write_new`. -/
def writeNew (name : String) (bytes : Bytes) : Prog Place PackageError Unit := do
  Prog.ask (isNew name)
  Prog.atomic .io fun place => place.map fun directory => directory.insert name bytes

section Package

variable (T : Tools)

/-- The entry of a file in the manifest. -/
def fileEntry (bytes : Bytes) : Tree :=
  .object [("sha256", .text (T.sha256 bytes)), ("size_bytes", natTree bytes.length)]

/-- One file of the loop in `write_package`, with its entry in the manifest. -/
def writeFile (sensitive : Bool) (name : String) (value : Tree) :
    Prog Place PackageError (String × Tree) := do
  let bytes := T.toVecPretty (if sensitive then value else redact value)
  if bytes.length > maxBytes then
    Prog.fail (.message "패키지 파일 크기 상한 초과; 조회 범위를 줄이세요")
  else do
    writeNew name bytes
    pure (name, fileEntry T bytes)

/-- The manifest. -/
def manifest (now : Nat) (sensitive : Bool) (files : List (String × Tree)) : Tree := .object
  [("format", .text "argos-evidence-v1"), ("collected_at_ms", natTree now),
    ("include_sensitive", .bool sensitive),
    ("redaction", .text (if sensitive then "none" else
      "paths, executable/command, summaries, freeform notes and identity labels removed; timestamps/event IDs/PIDs/UIDs retained")),
    ("coverage", .text "Per-source counts and truncation are in evidence.json. Evidence, response and policy are separate read snapshots, not a forensic image or a global atomic snapshot."),
    ("integrity", .text "SHA-256 verifies file consistency, not origin authenticity. Keep the manifest in a trusted location."),
    ("files", .object files)]

/-- `write_package`, with the two files of `export` in the order of their names. -/
def writePackage (now : Nat) (data : Incident) (sensitive : Bool) : Prog Place PackageError Unit := do
  createDirectory
  let evidence ← writeFile T sensitive "evidence.json" (Incident.tree data)
  let policy ← writeFile T sensitive "policy.json" (PolicyData.tree data.policy)
  writeNew "manifest.json" (T.toVecPretty (manifest now sensitive [evidence, policy]))

/-! ## Reading a package -/

/-- `read_file`. -/
def readFile (directory : Directory) (name : String) : Except PackageError Bytes :=
  match directory.lookup name with
  | none => .error .io
  | some bytes =>
    if bytes.length > maxBytes then .error (.message "패키지 파일 크기 상한 초과") else .ok bytes

/-- `value[key]`, which is `null` if there is no such field. -/
def Tree.get (key : String) : Tree → Tree
  | .object fields => (Tree.field key fields).getD .null
  | _ => .null

/-- `as_object`. -/
def asObject : Tree → Except PackageError (List (String × Tree))
  | .object fields => .ok fields
  | _ => .error (.message "manifest 파일 목록 없음")

/-- `as_str`. -/
def asStr : Tree → Option String
  | .text s => some s
  | _ => none

/-- `as_u64`. -/
def asU64 : Tree → Option Nat
  | .int (.ofNat n) => some n
  | _ => none

/-- A file of the loop in `snapshot`. -/
def checkFile (directory : Directory) (snapshot : Map String Bytes) (file : String × Tree) :
    Except PackageError (Map String Bytes) := do
  let bytes ← readFile directory file.1
  if asU64 (Tree.get "size_bytes" file.2) ≠ some bytes.length ∨
      asStr (Tree.get "sha256" file.2) ≠ some (T.sha256 bytes) then
    throw (.message ("증거 파일 무결성 검증 실패: " ++ file.1))
  pure (snapshot.insert file.1 bytes)

/-- `serde_json::from_slice`. -/
def readManifest (bytes : Bytes) : Except PackageError Tree :=
  match T.fromSlice bytes with
  | some value => .ok value
  | none => .error .json

/-- The part of `snapshot` that looks at the manifest. -/
def listedFiles (manifest : Tree) : Except PackageError (List (String × Tree)) := do
  if asStr (Tree.get "format" manifest) ≠ some "argos-evidence-v1" then
    throw (.message "지원하지 않는 패키지 형식")
  let files ← asObject (Tree.get "files" manifest)
  if files.length ≠ 2 ∨ (Tree.field "evidence.json" files).isNone ∨
      (Tree.field "policy.json" files).isNone then
    throw (.message "예상한 증거 파일 목록과 다름")
  pure files

/-- `snapshot`, of a directory that is there. -/
def snapshot (directory : Directory) : Except PackageError (Map String Bytes) := do
  let manifestBytes ← readFile directory "manifest.json"
  let manifest ← readManifest T manifestBytes
  let files ← listedFiles manifest
  let snapshot ← files.foldlM (checkFile T directory) ∅
  if directory.entries.length ≠ 3 then
    throw (.message "manifest에 없는 추가 파일 존재")
  pure (snapshot.insert "manifest.json" manifestBytes)

end Package

end Argos.Cli
