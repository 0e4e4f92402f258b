import Argos.Service.Plan
import Argos.Vault.Types

/-!
# The verification of a report

`verify_checks` and `verify_metadata` of `service/verification.rs`. A report is accepted for a plan
at a time of the clock, if it is not older than some seconds.
-/

namespace Argos.Service

open Argos.Lib
open Argos.Vault (u64Max)

/-- The loop of `verify_checks` over the checks of the report. -/
def collectChecks : List Text → List ServiceCheckResult → Result Unit
  | _, [] => .ok ()
  | ids, check :: rest => do
    failIf (ids.contains check.checkId) "duplicate_report_check"
    failIf (!check.passed || check.code != "ok") "report_check_not_successful"
    collectChecks (check.checkId :: ids) rest

/-- The loop of `verify_checks` over the tables of the plan. -/
def verifyTables (checks : List ServiceCheckResult) : List TableExpectation → Result Unit
  | [] => .ok ()
  | table :: rest =>
    match (checks.find? fun check => check.checkId = table.checkId).bind (·.observedRows) with
    | none => .error "report_row_count_missing"
    | some count => do
      failIf (count < table.minRows ∨ count > i64Max) "report_row_expectation_failed"
      verifyTables checks rest

/-- The loop of `verify_checks` over the results. -/
def verifyResults : List ServiceCheckResult → Result Unit
  | [] => .ok ()
  | check :: rest => do
    if check.checkId = "argos-constraints".toList then
      failIf (check.observedRows ≠ some 0) "report_constraint_count_invalid"
    else
      failIf (startsWith check.checkId "argos-".toList && check.observedRows.isSome)
        "report_builtin_check_invalid"
    verifyResults rest

/-- `verify_checks`. -/
def verifyChecks (plan : ServiceRecoveryPlan) (report : ServiceRecoveryReport)
    (binding : PlanBinding) : Result Unit := do
  failIf (report.requiredCheckIds ≠ some binding.requiredCheckIds) "required_checks_mismatch"
  collectChecks [] report.checks
  let actual := report.checks.map (·.checkId)
  failIf (!(actual.all binding.requiredCheckIds.contains && binding.requiredCheckIds.all actual.contains))
    "report_checks_mismatch"
  verifyTables report.checks plan.tables
  verifyResults (report.checks.insertionSort fun a b => a.checkId ≤ b.checkId)

/-- `verify_metadata`. -/
def verifyMetadata (H : Hashing) (plan : ServiceRecoveryPlan) (report : ServiceRecoveryReport)
    (maxAgeSecs now : Nat) : Result PlanBinding := do
  failIf (maxAgeSecs * 1000 > u64Max ∨ maxAgeSecs * 1000 = 0) "invalid_report_max_age"
  failIf (report.format ≠ "argos-service-recovery-v2" ∨ report.planHashVersion ≠ some 1 ∨
    report.planSha256.isNone ∨ report.expectationsSha256.isNone ∨ report.requiredCheckIds.isNone)
    "legacy_or_unbound_report"
  failIf (report.status ≠ "passed" ∨ report.failureCode.isSome) "report_not_successful"
  failIf (report.startedAtMs = 0 ∨ report.finishedAtMs < report.startedAtMs ∨
    report.startedAtMs > now ∨ report.finishedAtMs > now) "invalid_or_future_report_time"
  failIf (now - report.finishedAtMs > maxAgeSecs * 1000) "report_too_old"
  let binding := planBinding H plan
  failIf (report.planSha256 ≠ some binding.planSha256) "report_plan_mismatch"
  failIf (report.expectationsSha256 ≠ some binding.expectationsSha256) "report_expectations_mismatch"
  let basis := if plan.declaredRecoveryPointMs.isSome then "operator_declared_not_database_verified"
    else "unknown"
  failIf (report.serviceId ≠ plan.serviceId ∨ report.engine ≠ plan.engine ∨
    report.declaredRecoveryPointMs ≠ plan.declaredRecoveryPointMs ∨
    report.incidentAtMs ≠ plan.incidentAtMs ∨ report.recoveryPointBasis ≠ basis)
    "report_metadata_mismatch"
  failIf (report.rpoMs.isSome ∨ report.rpoReason ≠ "latest_source_commit_unknown" ∨
    report.serviceRtoMs.isSome ∨
    report.serviceRtoReason ≠ "application_startup_and_service_health_not_tested")
    "unsupported_report_recovery_claim"
  verifyChecks plan report binding
  .ok binding

end Argos.Service
