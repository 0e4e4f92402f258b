import Argos.Lib.Canonical
import Argos.Lib.Paths
import Mathlib.Data.List.Lex

/-!
# Plans and reports of a recovery drill

`service.rs` of `argos-recovery`: what a plan says, which plans `validate_plan` accepts, and what a
report holds. Texts are lists of characters, since they are compared and sorted; a failure is the
code of its `ServiceRecoveryError`. The clock is a parameter.

A plan is bound to a report by hashes of its canonical JSON (`planBinding`). The hash and the text
of a JSON value are parameters (`Hashing`).
-/

namespace Argos.Service

open Argos.Lib

/-- `Result`. -/
abbrev Result (α : Type) := Except String α

/-- `Err(failure(code))` under a condition. -/
def failIf (p : Prop) [Decidable p] (code : String) : Result Unit :=
  if p then .error code else .ok ()

theorem failIf_ok_iff {p : Prop} [Decidable p] {code : String} {u : Unit} :
    failIf p code = .ok u ↔ ¬ p := by
  unfold failIf
  split_ifs with h <;> simp [h]

/-- A composition whose first part only checks succeeds when both parts do. -/
theorem check_ok_iff {β : Type} {x : Result Unit} {f : Unit → Result β} {b : β} :
    (x >>= f) = .ok b ↔ x = .ok () ∧ f () = .ok b := by
  rcases x with code | u
  · simp [bind, Except.bind]
  · simp [bind, Except.bind]

/-- `i64::MAX`. -/
def i64Max : Nat := 2 ^ 63 - 1

/-! ## Plans -/

/-- `DatabaseEngine`. -/
inductive DatabaseEngine where
  | sqlite
  | postgresql
deriving DecidableEq, Repr

/-- `PostgresqlSettings`. -/
structure PostgresqlSettings where
  installationRoot : Text
  majorVersion : Nat
deriving DecidableEq, Repr

/-- `TableExpectation`. -/
structure TableExpectation where
  checkId : Text
  table : Text
  requiredColumns : List Text
  minRows : Nat
deriving DecidableEq, Repr

/-- `ServiceRecoveryPlan`. -/
structure ServiceRecoveryPlan where
  serviceId : Text
  engine : DatabaseEngine
  backupPath : Text
  timeoutSecs : Nat
  maxBackupBytes : Nat
  maxWorkspaceBytes : Nat
  declaredRecoveryPointMs : Option Nat
  incidentAtMs : Option Nat
  expectedUserVersion : Option Int
  tables : List TableExpectation
  postgresql : Option PostgresqlSettings
deriving DecidableEq, Repr

/-! ## `validate_plan` -/

/-- `is_ascii_alphanumeric`. -/
def isAsciiAlphanumeric (c : Char) : Bool := c.isAlphanum

/-- `id`. -/
def isId (value : Text) : Bool :=
  !value.isEmpty && decide (value.length ≤ 128) &&
    value.all fun c => isAsciiAlphanumeric c || c = '-' || c = '_'

/-- `identifier`. -/
def isIdentifier (value : Text) : Bool :=
  (value.head?.any fun c => c.isAlpha || c = '_') && decide (value.length ≤ 128) &&
    value.all fun c => isAsciiAlphanumeric c || c = '_'

/-- `char::is_control`. -/
def isControl (c : Char) : Bool := c.toNat < 32 || (127 ≤ c.toNat && c.toNat < 160)

/-- `safe_path`; every path here is UTF-8. -/
def safePath (path : Text) : Bool :=
  path.head? = some '/' && (components path).length > 1 && (components path).getLast? ≠ some ['.', '.'] &&
    !(components path).contains ['.', '.'] && !path.any isControl

/-- A path equal to `/`. -/
def isRootPath (path : Text) : Bool := path.head? = some '/' && components path = [['/']]

/-- `starts_with`. -/
def startsWith (value start : Text) : Bool := start.isPrefixOf value

/-- The checks of `validate_plan` on one table, with the identifiers of the tables before. -/
def validateTable (ids : List Text) (table : TableExpectation) : Result Unit := do
  failIf (!isId table.checkId || ids.contains table.checkId ||
    startsWith table.checkId "argos-".toList) "invalid_or_duplicate_check_id"
  failIf (!isIdentifier table.table || startsWith table.table "sqlite_".toList ||
    startsWith table.table "__argos_".toList) "unsupported_table_identifier"
  failIf (table.requiredColumns.length > 128 ∨ !table.requiredColumns.all isIdentifier)
    "unsupported_column_identifier"
  failIf (table.minRows > i64Max) "row_expectation_out_of_range"

/-- The loop of `validate_plan` over the tables. -/
def validateTables : List Text → List TableExpectation → Result Unit
  | _, [] => .ok ()
  | ids, table :: rest => do
    validateTable ids table
    validateTables (table.checkId :: ids) rest

/-- The checks of `validate_plan` that depend on the engine. -/
def validateEngine (plan : ServiceRecoveryPlan) : Result Unit :=
  match plan.engine, plan.postgresql with
  | .sqlite, some _ => .error "postgresql_settings_for_sqlite"
  | .postgresql, none => .error "postgresql_settings_required"
  | .postgresql, some settings => do
    failIf ((!safePath settings.installationRoot ∧ !isRootPath settings.installationRoot) ∨
      settings.majorVersion < 14 ∨ 18 < settings.majorVersion) "invalid_postgresql_installation"
    failIf plan.expectedUserVersion.isSome "user_version_is_sqlite_only"
  | .sqlite, none => .ok ()

/-- `validate_plan`, at a time of the clock. -/
def validatePlan (now : Nat) (plan : ServiceRecoveryPlan) : Result Unit := do
  failIf (!isId plan.serviceId) "invalid_service_id"
  failIf (!safePath plan.backupPath) "backup_path_must_be_absolute_local_file"
  failIf (plan.timeoutSecs < 1 ∨ 300 < plan.timeoutSecs) "timeout_out_of_range"
  failIf (plan.maxBackupBytes < 512 ∨ 1024 * 1024 * 1024 < plan.maxBackupBytes)
    "backup_limit_out_of_range"
  failIf (plan.maxWorkspaceBytes < 1024 ∨ 8 * 1024 * 1024 * 1024 < plan.maxWorkspaceBytes ∨
    plan.maxWorkspaceBytes < plan.maxBackupBytes) "workspace_limit_out_of_range"
  failIf (plan.tables.isEmpty ∨ plan.tables.length > 32) "one_to_32_table_expectations_required"
  validateTables [] plan.tables
  failIf (plan.expectedUserVersion.any fun version => version < 0 || 2147483647 < version)
    "user_version_out_of_range"
  failIf ((plan.declaredRecoveryPointMs.toList ++ plan.incidentAtMs.toList).any
    fun value => value > i64Max || value > now) "recovery_timestamp_out_of_range"
  failIf (plan.declaredRecoveryPointMs.any fun point => plan.incidentAtMs.any fun incident =>
    point > incident) "recovery_point_after_incident"
  validateEngine plan

/-! ## Reports -/

/-- `ServiceCheckResult`. -/
structure ServiceCheckResult where
  checkId : Text
  passed : Bool
  code : String
  observedRows : Option Nat
deriving DecidableEq, Repr

/-- `ServiceRecoveryReport`. -/
structure ServiceRecoveryReport where
  format : String
  planHashVersion : Option Nat
  planSha256 : Option String
  expectationsSha256 : Option String
  requiredCheckIds : Option (List Text)
  serviceId : Text
  engine : DatabaseEngine
  startedAtMs : Nat
  finishedAtMs : Nat
  status : String
  failureCode : Option String
  backupSha256 : Option String
  backupBytes : Option Nat
  restoreDurationMs : Nat
  validationDurationMs : Nat
  totalDurationMs : Nat
  declaredRecoveryPointMs : Option Nat
  recoveryPointBasis : String
  incidentAtMs : Option Nat
  rpoMs : Option Nat
  rpoReason : String
  serviceRtoMs : Option Nat
  serviceRtoReason : String
  checks : List ServiceCheckResult
  limitations : List String
deriving DecidableEq, Repr

/-! ## What binds a report to a plan -/

/-- What is used of `serde_json` and `sha2`: the text of a value, and the hash of bytes in
hexadecimal. -/
structure Hashing where
  jsonText : Tree → List UInt8
  sha256 : List UInt8 → String

/-- The bytes of an ASCII text. -/
def asciiBytes (t : Text) : List UInt8 := t.map fun c => UInt8.ofNat c.toNat

/-- `digest`. -/
def digest (H : Hashing) (domain : List UInt8) (value : Tree) : String :=
  H.sha256 (domain ++ 0 :: H.jsonText value.canonical)

/-- A text of JSON. -/
def jsonString (value : Text) : Tree := .text (String.ofList value)

/-- A number that may be missing. -/
def jsonOption (value : Option Nat) : Tree :=
  match value with
  | none => .null
  | some n => .int n

/-- The name of an engine. -/
def DatabaseEngine.toValue : DatabaseEngine → Tree
  | .sqlite => .text "sqlite"
  | .postgresql => .text "postgresql"

/-- The fields of `to_value` of a table. -/
def TableExpectation.fields (t : TableExpectation) : List (String × Tree) :=
  [("check_id", jsonString t.checkId), ("table", jsonString t.table),
    ("required_columns", .array (t.requiredColumns.map jsonString)), ("min_rows", .int t.minRows)]

/-- `to_value` of a table. -/
def TableExpectation.toValue (t : TableExpectation) : Tree := .object t.fields

/-- The fields of `to_value` of the settings. -/
def PostgresqlSettings.fields (s : PostgresqlSettings) : List (String × Tree) :=
  [("installation_root", jsonString s.installationRoot), ("major_version", .int s.majorVersion)]

/-- `to_value` of a number with a sign that may be missing. -/
def jsonVersion (value : Option Int) : Tree :=
  match value with
  | none => .null
  | some n => .int n

/-- The fields of `to_value` of a plan. -/
def ServiceRecoveryPlan.fields (plan : ServiceRecoveryPlan) : List (String × Tree) :=
  [("service_id", jsonString plan.serviceId), ("engine", plan.engine.toValue),
    ("backup_path", jsonString plan.backupPath), ("timeout_secs", .int plan.timeoutSecs),
    ("max_backup_bytes", .int plan.maxBackupBytes),
    ("max_workspace_bytes", .int plan.maxWorkspaceBytes),
    ("declared_recovery_point_ms", jsonOption plan.declaredRecoveryPointMs),
    ("incident_at_ms", jsonOption plan.incidentAtMs),
    ("expected_user_version", jsonVersion plan.expectedUserVersion),
    ("tables", .array (plan.tables.map TableExpectation.toValue)),
    ("postgresql", match plan.postgresql with
      | none => .null
      | some settings => .object settings.fields)]

/-- `dedup` of a vector. -/
def dedup : List Text → List Text
  | a :: b :: rest => if a = b then dedup (b :: rest) else a :: dedup (b :: rest)
  | short => short

/-- A table with its columns sorted and without repetition. -/
def TableExpectation.normalized (t : TableExpectation) : TableExpectation :=
  { t with requiredColumns := dedup (t.requiredColumns.insertionSort (· ≤ ·)) }

/-- The tables of a plan by their checks, each normalized. -/
def normalizedTables (plan : ServiceRecoveryPlan) : List TableExpectation :=
  (plan.tables.insertionSort fun a b => a.checkId ≤ b.checkId).map TableExpectation.normalized

/-- A path made of the components of another. -/
def normalizedPath (path : Text) : Text :=
  '/' :: (['/'].intercalate ((components path).drop 1))

/-- The fields of the value that the hash of a plan is taken of. -/
def normalizedFields (plan : ServiceRecoveryPlan) : List (String × Tree) :=
  let object := Tree.removeField "backup_path" plan.fields
  let object := Tree.setField "tables"
    (.array ((normalizedTables plan).map TableExpectation.toValue)) object
  match plan.postgresql with
  | none => object
  | some settings => Tree.setField "postgresql"
      (.object (Tree.setField "installation_root"
        (jsonString (normalizedPath settings.installationRoot)) settings.fields)) object

/-- `PlanBinding`. -/
structure PlanBinding where
  planSha256 : String
  expectationsSha256 : String
  requiredCheckIds : List Text
deriving DecidableEq, Repr

/-- The checks that a drill makes besides those of the tables. -/
def builtinChecks (plan : ServiceRecoveryPlan) : List Text :=
  match plan.engine with
  | .sqlite =>
    ["argos-integrity".toList, "argos-foreign-keys".toList, "argos-write-read-rollback".toList] ++
      if plan.expectedUserVersion.isSome then ["argos-user-version".toList] else []
  | .postgresql => ["argos-constraints".toList, "argos-write-read-rollback".toList]

/-- The checks that a report of the plan must have, in their order. -/
def requiredCheckIds (plan : ServiceRecoveryPlan) : List Text :=
  (builtinChecks plan ++ (normalizedTables plan).map (·.checkId)).insertionSort (· ≤ ·)

/-- The value that the hash of the expectations is taken of. -/
def expectations (plan : ServiceRecoveryPlan) : Tree :=
  .object [("engine", plan.engine.toValue),
    ("expected_user_version", jsonVersion plan.expectedUserVersion),
    ("tables", .array ((normalizedTables plan).map TableExpectation.toValue)),
    ("required_check_ids", .array ((requiredCheckIds plan).map jsonString))]

/-- `plan_binding`. -/
def planBinding (H : Hashing) (plan : ServiceRecoveryPlan) : PlanBinding where
  planSha256 := digest H (asciiBytes "argos-service-plan-v1".toList) (.object (normalizedFields plan))
  expectationsSha256 :=
    digest H (asciiBytes "argos-service-expectations-v1".toList) (expectations plan)
  requiredCheckIds := requiredCheckIds plan

end Argos.Service
