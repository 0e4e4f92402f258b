import Argos.Lib.Recording
import Argos.Service.Plan

/-!
# The drill

`run` of `service.rs` with the checks of `validate_sqlite` and of `postgres::validate`. The database
is what it answers: every query has its answer in `SqliteAnswers` or `PostgresqlAnswers`, those
about a table by its place in the plan, and an answer may be an error with the code that the caller
reports. The rest of a drill (staging, restoring, the limits on the workspace, the clocks) is in
`Drill`.

A check is written to the report before the drill goes on or gives up, so the checks are a state
that survives an error (`Checking`).
-/

namespace Argos.Service

open Argos.Lib

/-! ## Checks that survive an error -/

/-- A part of a drill: it goes on with a value or fails, and has written checks. -/
abbrev Checking := Recording (List ServiceCheckResult) String

open Recording

/-- A failure under a condition. -/
def failOn (p : Prop) [Decidable p] (code : String) : Checking Unit := ask (failIf p code)

/-- `check_result`. -/
def check (checkId : Text) (passed : Bool) (code : String) (observedRows : Option Nat) :
    Checking Unit :=
  record (· ++ [⟨checkId, passed, code, observedRows⟩])

theorem failOn_ok_iff {p : Prop} [Decidable p] {code : String} {u : Unit}
    {checks checks' : List ServiceCheckResult} :
    failOn p code checks = (.ok u, checks') ↔ ¬ p ∧ checks' = checks := by
  rw [failOn, ask_ok_iff, failIf_ok_iff]

theorem check_written_iff {checkId : Text} {passed : Bool} {code : String} {rows : Option Nat} {u : Unit}
    {checks checks' : List ServiceCheckResult} :
    check checkId passed code rows checks = (.ok u, checks') ↔
      checks' = checks ++ [⟨checkId, passed, code, rows⟩] :=
  record_ok_iff

/-! ## SQLite -/

/-- The answers of a restored SQLite database. -/
structure SqliteAnswers where
  deadline : Nat → Result Unit
  virtualTables : Result Int
  integrity : Result String
  violation : Result Bool
  userVersion : Result Int
  tableKind : Nat → Result (Option String)
  columnPresent : Nat → Nat → Result Bool
  rowCount : Nat → Result Int
  probe : Result Int

section Sqlite

variable (a : SqliteAnswers)

/-- The loop of `validate_sqlite` over the columns of a table. -/
def sqliteColumns (i : Nat) (checkId : Text) : Nat → List Text → Checking Unit
  | _, [] => pure ()
  | j, _ :: rest => do
    let present ← ask (a.columnPresent i j)
    if !present then do
      check checkId false "required_column_missing" none
      ask (.error "sqlite_expected_column_missing")
    else sqliteColumns i checkId (j + 1) rest

/-- The body of the loop of `validate_sqlite` over the tables. -/
def sqliteTable (i : Nat) (table : TableExpectation) : Checking Unit := do
  ask (a.deadline (i + 1))
  let kind ← ask (a.tableKind i)
  if kind ≠ some "table" then do
    check table.checkId false "ordinary_table_missing" none
    ask (.error "sqlite_expected_table_missing")
  else do
    sqliteColumns a i table.checkId 0 table.requiredColumns
    let count ← ask (a.rowCount i)
    let okay := decide (0 ≤ count ∧ (table.minRows : Int) ≤ count)
    check table.checkId okay (if okay then "ok" else "insufficient_rows")
      (if 0 ≤ count then some count.toNat else none)
    failOn (!okay) "sqlite_row_expectation_failed"

/-- The loop of `validate_sqlite` over the tables. -/
def sqliteTables : Nat → List TableExpectation → Checking Unit
  | _, [] => pure ()
  | i, table :: rest => do
    sqliteTable a i table
    sqliteTables (i + 1) rest

/-- The check of the user version. -/
def sqliteVersion (expected : Option Int) : Checking Unit :=
  match expected with
  | none => pure ()
  | some expected => do
    let actual ← ask a.userVersion
    check "argos-user-version".toList (decide (actual = expected))
      (if actual = expected then "ok" else "schema_version_mismatch") none
    failOn (actual ≠ expected) "sqlite_schema_version_mismatch"

/-- `validate_sqlite`. -/
def validateSqlite (plan : ServiceRecoveryPlan) : Checking Unit := do
  ask (a.deadline 0)
  let virtualTables ← ask a.virtualTables
  failOn (virtualTables ≠ 0) "sqlite_virtual_tables_not_supported"
  let integrity ← ask a.integrity
  check "argos-integrity".toList (decide (integrity = "ok"))
    (if integrity = "ok" then "ok" else "integrity_violation") none
  failOn (integrity ≠ "ok") "sqlite_integrity_violation"
  let violation ← ask a.violation
  check "argos-foreign-keys".toList (!violation)
    (if violation then "foreign_key_violation" else "ok") none
  failOn violation "sqlite_foreign_key_violation"
  sqliteVersion a plan.expectedUserVersion
  sqliteTables a 0 plan.tables
  ask (a.deadline (plan.tables.length + 1))
  let value ← ask a.probe
  failOn (value ≠ 73021) "sqlite_write_probe_mismatch"
  check "argos-write-read-rollback".toList true "ok" none

end Sqlite

/-! ## PostgreSQL -/

/-- The answers of a restored PostgreSQL database, as `scalar` reads them. -/
structure PostgresqlAnswers where
  invalidConstraints : Result Nat
  tableCount : Nat → Result Nat
  columnCount : Nat → Nat → Result Nat
  rowCount : Nat → Result Nat
  probe : Result Nat

section Postgresql

variable (a : PostgresqlAnswers)

/-- The loop of `validate` over the columns of a table. -/
def postgresqlColumns (i : Nat) (checkId : Text) : Nat → List Text → Checking Unit
  | _, [] => pure ()
  | j, _ :: rest => do
    let count ← ask (a.columnCount i j)
    if count ≠ 1 then do
      check checkId false "required_column_missing" none
      ask (.error "postgresql_expected_column_missing")
    else postgresqlColumns i checkId (j + 1) rest

/-- The body of the loop of `validate` over the tables. -/
def postgresqlTable (i : Nat) (table : TableExpectation) : Checking Unit := do
  let count ← ask (a.tableCount i)
  if count ≠ 1 then do
    check table.checkId false "ordinary_public_table_missing_or_rls_enabled" none
    ask (.error "postgresql_expected_table_missing")
  else do
    postgresqlColumns a i table.checkId 0 table.requiredColumns
    let count ← ask (a.rowCount i)
    check table.checkId (decide (table.minRows ≤ count))
      (if table.minRows ≤ count then "ok" else "insufficient_rows") (some count)
    failOn (count < table.minRows) "postgresql_row_expectation_failed"

/-- The loop of `validate` over the tables. -/
def postgresqlTables : Nat → List TableExpectation → Checking Unit
  | _, [] => pure ()
  | i, table :: rest => do
    postgresqlTable a i table
    postgresqlTables (i + 1) rest

/-- `validate` of `postgres.rs`. -/
def validatePostgresql (plan : ServiceRecoveryPlan) : Checking Unit := do
  let invalid ← ask a.invalidConstraints
  check "argos-constraints".toList (decide (invalid = 0))
    (if invalid = 0 then "ok" else "unvalidated_constraints") (some invalid)
  failOn (invalid ≠ 0) "postgresql_unvalidated_constraints"
  postgresqlTables a 0 plan.tables
  let result ← ask a.probe
  failOn (result ≠ 73021) "postgresql_write_probe_mismatch"
  check "argos-write-read-rollback".toList true "ok" none

end Postgresql

/-! ## The whole drill -/

/-- What happens in a drill: the answers of the database, and the outcomes of the other steps. The
report is written to a file, which may fail. -/
structure Drill where
  workspace : Result Unit
  startedAtMs : Nat
  staged : Result (String × Nat)
  restored : Result Unit
  sqlite : SqliteAnswers
  postgresql : PostgresqlAnswers
  synced : Result Unit
  budget : Result Unit
  finishedAtMs : Nat
  restoreDurationMs : Nat
  validationDurationMs : Nat
  totalDurationMs : Nat
  written : ServiceRecoveryReport → Result Unit

variable (H : Hashing)

/-- `new_report`, at a time of the clock. -/
def newReport (plan : ServiceRecoveryPlan) (now : Nat) : ServiceRecoveryReport :=
  let binding := planBinding H plan
  { format := "argos-service-recovery-v2"
    planHashVersion := some 1
    planSha256 := some binding.planSha256
    expectationsSha256 := some binding.expectationsSha256
    requiredCheckIds := some binding.requiredCheckIds
    serviceId := plan.serviceId
    engine := plan.engine
    startedAtMs := now
    finishedAtMs := 0
    status := "failed"
    failureCode := none
    backupSha256 := none
    backupBytes := none
    restoreDurationMs := 0
    validationDurationMs := 0
    totalDurationMs := 0
    declaredRecoveryPointMs := plan.declaredRecoveryPointMs
    recoveryPointBasis := if plan.declaredRecoveryPointMs.isSome then
      "operator_declared_not_database_verified" else "unknown"
    incidentAtMs := plan.incidentAtMs
    rpoMs := none
    rpoReason := "latest_source_commit_unknown"
    serviceRtoMs := none
    serviceRtoReason := "application_startup_and_service_health_not_tested"
    checks := []
    limitations := ["Database restore and fixed checks do not prove complete application recovery or business consistency.",
      "No production database is contacted. Backup timestamps do not establish RPO.",
      "Source and workspace parent directories must be controlled by the operator."] }

/-- The checks on the restored database, by the engine. -/
def validateDatabase (plan : ServiceRecoveryPlan) (d : Drill) : Checking Unit :=
  match plan.engine with
  | .sqlite => do
    validateSqlite d.sqlite plan
    ask d.synced
  | .postgresql => validatePostgresql d.postgresql plan

/-- `run_sqlite` and `postgres::run`: how the drill ended, and its report so far. -/
def runEngine (plan : ServiceRecoveryPlan) (d : Drill) (report : ServiceRecoveryReport) :
    Result Unit × ServiceRecoveryReport :=
  match d.staged with
  | .error code => (.error code, report)
  | .ok (hash, bytes) =>
    let report := { report with backupSha256 := some hash, backupBytes := some bytes }
    match d.restored with
    | .error code => (.error code, report)
    | .ok () =>
      let (result, checks) := validateDatabase plan d report.checks
      (result, { report with
        restoreDurationMs := d.restoreDurationMs
        validationDurationMs := d.validationDurationMs
        checks := checks })

/-- `run`, at a time of the clock. -/
def run (plan : ServiceRecoveryPlan) (now : Nat) (d : Drill) : Result ServiceRecoveryReport := do
  validatePlan now plan
  d.workspace
  let (result, report) := runEngine plan d (newReport H plan d.startedAtMs)
  let result := result.bind fun _ => d.budget
  let report := { report with
    totalDurationMs := d.totalDurationMs
    restoreDurationMs :=
      if result.toOption.isNone && report.restoreDurationMs = 0 && report.validationDurationMs = 0 then
        d.totalDurationMs else report.restoreDurationMs
    finishedAtMs := d.finishedAtMs }
  let report := match result with
    | .ok () => { report with status := "passed" }
    | .error code => { report with failureCode := some code }
  d.written report
  .ok report

end Argos.Service
