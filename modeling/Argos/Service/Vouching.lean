import Argos.Lib.TreeBytes
import Argos.Service.Checks
import Argos.Service.Equivalence
import Argos.Service.Verification

/-!
# What a report vouches for

`verify_checks` accepts the checks that a plan requires and no others (`Vouched`), and a drill of
the plan writes exactly such checks (`Checked.vouched`). So the report of a drill that passed is
accepted for the plans that are alike, as long as it is not too old, and for no other plan
(`report_vouches`). An age of no seconds, or one whose milliseconds are out of range, is refused
whatever the report is (`age_refused`).
-/

namespace Argos.Service

open Argos.Lib
open Argos.Vault (u64Max)

/-! ## `verify_checks` -/

/-- The checks of a report are those that a plan requires, and each passed. -/
structure Vouched (plan : ServiceRecoveryPlan) (checks : List ServiceCheckResult) : Prop where
  ids : (checks.map (·.checkId)).Perm (requiredCheckIds plan)
  passed : ∀ check ∈ checks, check.passed = true ∧ check.code = "ok"
  rows : ∀ table ∈ plan.tables, ∃ check ∈ checks, check.checkId = table.checkId ∧
    ∃ count, check.observedRows = some count ∧ table.minRows ≤ count ∧ count ≤ i64Max
  constraints : ∀ check ∈ checks, check.checkId = "argos-constraints".toList →
    check.observedRows = some 0
  builtins : ∀ check ∈ checks, check.checkId ≠ "argos-constraints".toList →
    startsWith check.checkId "argos-".toList = true → check.observedRows = none

theorem requiredCheckIds_perm (plan : ServiceRecoveryPlan) :
    (requiredCheckIds plan).Perm (builtinChecks plan ++ plan.tables.map (·.checkId)) := by
  refine (List.perm_insertionSort _ _).trans (List.Perm.append_left _ ?_)
  have hids : (normalizedTables plan).map (·.checkId) =
      (sortedTables plan.tables).map (·.checkId) := by
    unfold normalizedTables sortedTables
    rw [List.map_map]
    rfl
  rw [hids]
  exact (sortedTables_perm plan.tables).map _

/-- No check is required twice. -/
theorem requiredCheckIds_nodup {plan : ServiceRecoveryPlan} (hplan : plan.Valid) :
    (requiredCheckIds plan).Nodup := by
  have hown : (builtinChecks plan).Nodup ∧
      ∀ id ∈ builtinChecks plan, startsWith id "argos-".toList = true := by
    unfold builtinChecks
    cases plan.engine with
    | sqlite => cases plan.expectedUserVersion.isSome <;> decide
    | postgresql =>
      dsimp only
      decide
  rw [(requiredCheckIds_perm plan).nodup_iff, List.nodup_append]
  refine ⟨hown.1, hplan.ids, fun id hid other hother heq => ?_⟩
  -- a check of a table does not begin like those of the drill
  obtain ⟨table, htable, rfl⟩ := List.mem_map.1 hother
  have hforeign := hplan.foreign table htable
  rw [← heq, hown.2 id hid] at hforeign
  cases hforeign

theorem collectChecks_ok_iff : ∀ {checks : List ServiceCheckResult} {ids : List Text},
    collectChecks ids checks = .ok () ↔ (checks.map (·.checkId)).Nodup ∧
      ∀ check ∈ checks, check.checkId ∉ ids ∧ check.passed = true ∧ check.code = "ok"
  | [], ids => by simp [collectChecks]
  | check :: rest, ids => by
    rw [collectChecks, check_ok_iff, check_ok_iff, failIf_ok_iff, failIf_ok_iff,
      collectChecks_ok_iff, List.map_cons, List.nodup_cons, List.forall_mem_cons]
    simp only [List.contains_eq_mem, decide_eq_true_eq, Bool.or_eq_true, Bool.not_eq_true',
      bne_iff_ne, not_or, Bool.not_eq_false, not_not, List.mem_cons, List.mem_map, not_exists, not_and]
    constructor
    · rintro ⟨hnew, hpassed, hnodup, hrest⟩
      exact ⟨⟨fun c hc => (hrest c hc).1.1, hnodup⟩, ⟨hnew, hpassed⟩,
        fun c hc => ⟨(hrest c hc).1.2, (hrest c hc).2⟩⟩
    · rintro ⟨⟨hother, hnodup⟩, ⟨hnew, hpassed⟩, hrest⟩
      exact ⟨hnew, hpassed, hnodup, fun c hc => ⟨⟨hother c hc, (hrest c hc).1⟩, (hrest c hc).2⟩⟩

/-- The check that is found for an identifier, where no two checks share one. -/
theorem find_check_eq {checks : List ServiceCheckResult} (hids : (checks.map (·.checkId)).Nodup)
    {check : ServiceCheckResult} (hcheck : check ∈ checks) :
    (checks.find? fun c => c.checkId = check.checkId) = some check := by
  have hsome : (checks.find? fun c => c.checkId = check.checkId).isSome := by
    rw [List.find?_isSome]
    exact ⟨check, hcheck, by simp⟩
  obtain ⟨found, hfound⟩ := Option.isSome_iff_exists.1 hsome
  have hsame := List.find?_some hfound
  rw [hfound, List.inj_on_of_nodup_map hids (List.mem_of_find?_eq_some hfound) hcheck
    (of_decide_eq_true hsame)]

theorem verifyTables_ok_iff {checks : List ServiceCheckResult} (hids : (checks.map (·.checkId)).Nodup) :
    ∀ {tables : List TableExpectation}, verifyTables checks tables = .ok () ↔
      ∀ table ∈ tables, ∃ check ∈ checks, check.checkId = table.checkId ∧
        ∃ count, check.observedRows = some count ∧ table.minRows ≤ count ∧ count ≤ i64Max
  | [] => by simp [verifyTables]
  | table :: rest => by
    have ih : verifyTables checks rest = .ok () ↔ _ := verifyTables_ok_iff hids
    rw [verifyTables, List.forall_mem_cons, ← ih]
    constructor
    · intro h
      split at h
      · cases h
      · next count hcount =>
        obtain ⟨check, hcheck, hrows⟩ := Option.bind_eq_some_iff.1 hcount
        have hid := List.find?_some hcheck
        rw [check_ok_iff, failIf_ok_iff] at h
        exact ⟨⟨check, List.mem_of_find?_eq_some hcheck, of_decide_eq_true hid, count, hrows, by omega,
          by omega⟩, h.2⟩
    · rintro ⟨⟨check, hcheck, hid, count, hrows, hmin, hmax⟩, hrest⟩
      rw [← hid, find_check_eq hids hcheck, Option.bind_some, hrows]
      dsimp only
      rw [check_ok_iff, failIf_ok_iff]
      exact ⟨by omega, hrest⟩

theorem verifyResults_ok_iff : ∀ {checks : List ServiceCheckResult}, verifyResults checks = .ok () ↔
    ∀ check ∈ checks, (check.checkId = "argos-constraints".toList → check.observedRows = some 0) ∧
      (check.checkId ≠ "argos-constraints".toList → startsWith check.checkId "argos-".toList = true →
        check.observedRows = none)
  | [] => by simp [verifyResults]
  | check :: rest => by
    have ih : verifyResults rest = .ok () ↔ _ := verifyResults_ok_iff
    rw [verifyResults, List.forall_mem_cons, ← ih]
    by_cases hid : check.checkId = "argos-constraints".toList
    · rw [if_pos hid, check_ok_iff, failIf_ok_iff, not_not]
      apply and_congr_left'
      exact ⟨fun h => ⟨fun _ => h, fun hne => absurd hid hne⟩, fun h => h.1 hid⟩
    · rw [if_neg hid, check_ok_iff, failIf_ok_iff, Bool.and_eq_true, not_and, Bool.not_eq_true,
        Option.isSome_eq_false_iff, Option.isNone_iff_eq_none]
      apply and_congr_left'
      exact ⟨fun h => ⟨fun heq => absurd heq hid, fun _ => h⟩, fun h => h.2 hid⟩

/-- The checks that `verify_checks` accepts for an accepted plan. -/
theorem verifyChecks_ok_iff {H : Hashing} {plan : ServiceRecoveryPlan} (hplan : plan.Valid)
    {report : ServiceRecoveryReport} :
    verifyChecks plan report (planBinding H plan) = .ok () ↔
      report.requiredCheckIds = some (requiredCheckIds plan) ∧ Vouched plan report.checks := by
  have hrequired : (planBinding H plan).requiredCheckIds = requiredCheckIds plan := rfl
  have hnodup := requiredCheckIds_nodup hplan
  rw [verifyChecks, check_ok_iff, failIf_ok_iff, not_not, hrequired]
  apply and_congr_right'
  rw [check_ok_iff, collectChecks_ok_iff, check_ok_iff, failIf_ok_iff, check_ok_iff, verifyResults_ok_iff,
    Bool.not_eq_true, Bool.not_eq_false', Bool.and_eq_true, List.all_eq_true, List.all_eq_true]
  simp only [List.contains_eq_mem, decide_eq_true_eq, List.mem_insertionSort]
  constructor
  · rintro ⟨⟨hids, hchecks⟩, ⟨hsub, hsup⟩, htables, hresults⟩
    refine ⟨?_, fun check hcheck => (hchecks check hcheck).2, (verifyTables_ok_iff hids).1 htables,
      fun check hcheck => (hresults check hcheck).1, fun check hcheck => (hresults check hcheck).2⟩
    rw [List.perm_ext_iff_of_nodup hids hnodup]
    exact fun id => ⟨hsub id, hsup id⟩
  · intro h
    have hids := h.ids.nodup_iff.2 hnodup
    exact ⟨⟨hids, fun check hcheck => ⟨List.not_mem_nil, h.passed check hcheck⟩⟩,
      ⟨fun id => h.ids.mem_iff.1, fun id => h.ids.mem_iff.2⟩, (verifyTables_ok_iff hids).2 h.rows,
      fun check hcheck => ⟨h.constraints check hcheck, h.builtins check hcheck⟩⟩

/-- The checks of a drill are the ones that its plan requires. -/
theorem Checked.vouched {plan : ServiceRecoveryPlan} {checks : List ServiceCheckResult}
    (h : Checked plan checks) : Vouched plan checks := by
  refine ⟨h.ids.trans (requiredCheckIds_perm plan).symm, h.passed, fun table htable => ?_, h.constraints,
    h.builtins⟩
  obtain ⟨check, hcheck, count, rfl, hmin, hmax⟩ := h.tables table htable
  exact ⟨_, hcheck, rfl, count, rfl, hmin, hmax⟩

/-! ## The report of a drill -/

variable {H : Hashing}

/-- The report of a drill that passed. -/
def passedReport (H : Hashing) (plan : ServiceRecoveryPlan) (d : Drill) (hash : String) (bytes : Nat)
    (checks : List ServiceCheckResult) : ServiceRecoveryReport :=
  { newReport H plan d.startedAtMs with
    finishedAtMs := d.finishedAtMs
    status := "passed"
    backupSha256 := some hash
    backupBytes := some bytes
    restoreDurationMs := d.restoreDurationMs
    validationDurationMs := d.validationDurationMs
    totalDurationMs := d.totalDurationMs
    checks := checks }

/-- The engine's part of a drill leaves the status to the end. -/
theorem runEngine_status (plan : ServiceRecoveryPlan) (d : Drill) (report : ServiceRecoveryReport) :
    (runEngine plan d report).2.status = report.status := by
  unfold runEngine
  rcases d.staged with code | ⟨hash, bytes⟩
  · rfl
  · rcases d.restored with code | _ <;> rfl

theorem runEngine_ok {plan : ServiceRecoveryPlan} {d : Drill} {report report' : ServiceRecoveryReport}
    (h : runEngine plan d report = (.ok (), report')) :
    ∃ hash bytes checks, validateDatabase plan d report.checks = (.ok (), checks) ∧
      report' = { report with
        backupSha256 := some hash
        backupBytes := some bytes
        restoreDurationMs := d.restoreDurationMs
        validationDurationMs := d.validationDurationMs
        checks := checks } := by
  unfold runEngine at h
  rcases hstaged : d.staged with code | ⟨hash, bytes⟩ <;> rw [hstaged] at h <;> dsimp only at h
  · cases congrArg Prod.fst h
  · rcases hrestored : d.restored with code | _ <;> rw [hrestored] at h <;> dsimp only at h
    · cases congrArg Prod.fst h
    · obtain ⟨hresult, rfl⟩ := Prod.mk.inj h
      exact ⟨hash, bytes, _, Prod.ext hresult rfl, rfl⟩

/-- A report says that its drill passed only when nothing failed. -/
theorem run_passed {plan : ServiceRecoveryPlan} {now : Nat} {d : Drill} {report : ServiceRecoveryReport}
    (hrun : run H plan now d = .ok report) (hpassed : report.status = "passed") :
    validatePlan now plan = .ok () ∧ ∃ hash bytes checks, validateDatabase plan d [] = (.ok (), checks) ∧
      report = passedReport H plan d hash bytes checks := by
  rw [run, check_ok_iff, check_ok_iff] at hrun
  obtain ⟨hplan, -, hrun⟩ := hrun
  refine ⟨hplan, ?_⟩
  have hstatus : (runEngine plan d (newReport H plan d.startedAtMs)).2.status = "failed" :=
    runEngine_status plan d _
  rcases hengine : runEngine plan d (newReport H plan d.startedAtMs) with ⟨result, engineReport⟩
  rw [hengine] at hrun hstatus
  dsimp only at hrun hstatus
  rw [check_ok_iff, Except.ok.injEq] at hrun
  obtain ⟨-, hreport⟩ := hrun
  rcases hresult : (result.bind fun _ => d.budget) with code | _
  · -- a drill that failed keeps the status of a new report
    rw [hresult] at hreport
    rw [← hreport] at hpassed
    exact absurd (hstatus.symm.trans hpassed) (by decide)
  · rcases result with code | _
    · cases hresult
    obtain ⟨hash, bytes, checks, hchecks, rfl⟩ := runEngine_ok hengine
    refine ⟨hash, bytes, checks, hchecks, ?_⟩
    rw [← hreport, hresult]
    rfl

/-- The checks that one plan requires are those that an alike plan requires. -/
theorem Vouched.alike {p q : ServiceRecoveryPlan} (hp : p.Valid) (halike : p.Alike q)
    {checks : List ServiceCheckResult} (h : Vouched p checks) : Vouched q checks := by
  have hrequired : requiredCheckIds p = requiredCheckIds q :=
    congrArg PlanBinding.requiredCheckIds (planBinding_eq (H := ⟨fun _ => [], fun _ => ""⟩) hp.ids halike)
  refine ⟨hrequired ▸ h.ids, h.passed, fun table htable => ?_, h.constraints, h.builtins⟩
  -- the table stands somewhere in the other plan, with the same check and number of rows
  obtain ⟨tables, hperm, hforall⟩ := halike.tables
  obtain ⟨other, hother, hsame⟩ := exists_of_forall₂_right hforall htable
  obtain ⟨check, hcheck, hid, hrows⟩ := h.rows other (hperm.mem_iff.2 hother)
  rw [hsame.checkId] at hid
  rw [hsame.minRows] at hrows
  exact ⟨check, hcheck, hid, hrows⟩

/-! ## `verify_metadata` -/

/-- What an accepted report has to do with the plan. -/
theorem verifyMetadata_ok {plan : ServiceRecoveryPlan} {report : ServiceRecoveryReport} {age now : Nat}
    {binding : PlanBinding} (h : verifyMetadata H plan report age now = .ok binding) :
    report.planSha256 = some (planBinding H plan).planSha256 ∧
      verifyChecks plan report (planBinding H plan) = .ok () := by
  simp only [verifyMetadata, check_ok_iff, failIf_ok_iff, not_not] at h
  obtain ⟨-, -, -, -, -, hplan, -, -, -, hchecks, -⟩ := h
  exact ⟨hplan, hchecks⟩

/-- An age of no seconds or out of range is refused. -/
theorem age_refused {age : Nat} (hage : age = 0 ∨ u64Max < age * 1000) (plan : ServiceRecoveryPlan)
    (report : ServiceRecoveryReport) (now : Nat) :
    verifyMetadata H plan report age now = .error "invalid_report_max_age" := by
  have hrefused : age * 1000 > u64Max ∨ age * 1000 = 0 := by omega
  rw [verifyMetadata, failIf, if_pos hrefused]
  rfl

/-- The report of a drill that passed is accepted for an alike plan while it is not too old. -/
theorem verifyMetadata_passed {p q : ServiceRecoveryPlan} (hp : p.Valid) (hq : q.Valid) (halike : p.Alike q)
    {d : Drill} (hstart : 0 < d.startedAtMs) (hfinish : d.startedAtMs ≤ d.finishedAtMs) {hash : String}
    {bytes : Nat} {checks : List ServiceCheckResult} (hchecks : Vouched p checks) {age now : Nat}
    (hage : 0 < age) (hrange : 1000 * age ≤ u64Max) (hnow : d.finishedAtMs ≤ now)
    (hlate : now ≤ d.finishedAtMs + 1000 * age) :
    verifyMetadata H q (passedReport H p d hash bytes checks) age now = .ok (planBinding H q) := by
  have hbinding : planBinding H p = planBinding H q := planBinding_eq hp.ids halike
  have hvouched : verifyChecks q (passedReport H p d hash bytes checks) (planBinding H q) = .ok () :=
    (verifyChecks_ok_iff hq).2
      ⟨congrArg (fun b : PlanBinding => some b.requiredCheckIds) hbinding, hchecks.alike hp halike⟩
  simp only [verifyMetadata, check_ok_iff, failIf_ok_iff, not_not]
  refine ⟨by omega, ?_, ?_, ?_, ?_, ?_, ?_, ?_, ?_, hvouched, trivial⟩
  · simp [passedReport, newReport]
  · simp [passedReport, newReport]
  · simp only [passedReport, newReport]
    omega
  · simp only [passedReport]
    omega
  · exact congrArg (fun b : PlanBinding => some b.planSha256) hbinding
  · exact congrArg (fun b : PlanBinding => some b.expectationsSha256) hbinding
  · simp [passedReport, newReport, halike.serviceId, halike.engine, halike.declaredRecoveryPointMs,
      halike.incidentAtMs]
  · simp [passedReport, newReport]

/-- A drill whose report says that it passed: the counts are in the range of the database, and the
clock is positive and does not go backwards. -/
structure PassedRun (H : Hashing) (plan : ServiceRecoveryPlan) (d : Drill) (report : ServiceRecoveryReport) :
    Prop where
  bounded : d.Bounded
  started : 0 < d.startedAtMs
  finished : d.startedAtMs ≤ d.finishedAtMs
  run : ∃ now, run H plan now d = .ok report
  passed : report.status = "passed"

/-- The report of a drill that passed is accepted for alike plans, as long as it is not older than
an age of whole seconds that is positive and in range, and for no other plan; and an accepted report
has each of the required checks once and no other, all passed, with enough rows in every table. -/
theorem report_vouches {q : ServiceRecoveryPlan} {validated : Nat} (hq : validatePlan validated q = .ok ()) :
    (∀ p d report, PassedRun H p d report →
      (p.Alike q → ∀ age now, 0 < age → 1000 * age ≤ u64Max → report.finishedAtMs ≤ now →
        now ≤ report.finishedAtMs + 1000 * age →
        verifyMetadata H q report age now = .ok (planBinding H q)) ∧
      (H.Separates → ¬ p.Alike q → ∀ age now binding, verifyMetadata H q report age now ≠ .ok binding)) ∧
    ∀ report age now binding, verifyMetadata H q report age now = .ok binding →
      (requiredCheckIds q).Nodup ∧ Vouched q report.checks := by
  have hqvalid := validatePlan_ok hq
  constructor
  · intro p d report h
    obtain ⟨start, hrun⟩ := h.run
    obtain ⟨hp, hash, bytes, checks, hchecks, rfl⟩ := run_passed hrun h.passed
    have hpvalid := validatePlan_ok hp
    constructor
    · intro halike age now hage hrange hnow hlate
      have hvouched := (validateDatabase_ok hpvalid h.bounded hchecks).vouched
      exact verifyMetadata_passed hpvalid hqvalid halike h.started h.finished hvouched hage hrange hnow hlate
    · intro hH hother age now binding hok
      have hhash := Option.some.inj (verifyMetadata_ok hok).1
      exact hother ((planSha256_eq_iff hH hpvalid.ids).1 hhash)
  · intro report age now binding hok
    exact ⟨requiredCheckIds_nodup hqvalid, ((verifyChecks_ok_iff hqvalid).1 (verifyMetadata_ok hok).2).2⟩

/-! ## A plan and its drill -/

/-- A hash and a text that tell values apart. -/
def sampleHashing : Hashing where
  jsonText := Tree.write
  sha256 := Wire.ofAscii

/-- A plan with one table, for a backup file. -/
def samplePlan (backupPath : String) (timeoutSecs : Nat) : ServiceRecoveryPlan where
  serviceId := "shop".toList
  engine := .sqlite
  backupPath := backupPath.toList
  timeoutSecs := timeoutSecs
  maxBackupBytes := 4096
  maxWorkspaceBytes := 8192
  declaredRecoveryPointMs := none
  incidentAtMs := none
  expectedUserVersion := some 3
  tables := [⟨"orders".toList, "orders".toList, ["id".toList], 2⟩]
  postgresql := none

/-- A drill on which nothing fails, and whose table has seven rows. -/
def sampleDrill : Drill where
  workspace := .ok ()
  startedAtMs := 1000
  staged := .ok ("backup", 4096)
  restored := .ok ()
  sqlite :=
    { deadline := fun _ => .ok ()
      virtualTables := .ok 0
      integrity := .ok "ok"
      violation := .ok false
      userVersion := .ok 3
      tableKind := fun _ => .ok (some "table")
      columnPresent := fun _ _ => .ok true
      rowCount := fun _ => .ok 7
      probe := .ok 73021 }
  postgresql := ⟨.ok 0, fun _ => .ok 1, fun _ _ => .ok 1, fun _ => .ok 7, .ok 73021⟩
  synced := .ok ()
  budget := .ok ()
  finishedAtMs := 1500
  restoreDurationMs := 10
  validationDurationMs := 20
  totalDurationMs := 40
  written := fun _ => .ok ()

/-- The report of the drill. -/
def sampleReport : ServiceRecoveryReport :=
  passedReport sampleHashing (samplePlan "/backup/shop.db" 60) sampleDrill "backup" 4096
    ([passed "argos-integrity".toList none, passed "argos-foreign-keys".toList none,
      passed "argos-user-version".toList none, passed "orders".toList (some 7),
      passed "argos-write-read-rollback".toList none])

theorem sampleHashing_separates : sampleHashing.Separates where
  jsonText := Tree.write_injective
  sha256 := by
    intro bytes bytes' h
    refine List.map_injective_iff.2 (fun a b hab => ?_) (String.ofList_inj.1 h)
    -- a byte is the number of a character
    have hvalid : ∀ c : UInt8, (Char.ofNat c.toNat).toNat = c.toNat := by
      intro c
      have hlt := c.toNat_lt
      rw [Char.ofNat, dif_pos (show c.toNat.isValidChar from .inl (by omega))]
      rfl
    have hnat := congrArg Char.toNat hab
    rw [hvalid, hvalid] at hnat
    exact UInt8.toNat_inj.1 hnat

theorem sampleRun :
    PassedRun sampleHashing (samplePlan "/backup/shop.db" 60) sampleDrill sampleReport where
  bounded := by
    constructor
    · intro i count h
      cases h
      decide
    · intro i count h
      cases h
      decide
  started := by decide
  finished := by decide
  run := ⟨1000, by
    rw [run, check_ok_iff]
    exact ⟨by decide, rfl⟩⟩
  passed := rfl

theorem samplePlan_alike (backupPath backupPath' : String) :
    (samplePlan backupPath 60).Alike (samplePlan backupPath' 60) where
  serviceId := rfl
  engine := rfl
  timeoutSecs := rfl
  maxBackupBytes := rfl
  maxWorkspaceBytes := rfl
  declaredRecoveryPointMs := rfl
  incidentAtMs := rfl
  expectedUserVersion := rfl
  tables := ⟨_, List.Perm.refl _, .cons ⟨rfl, rfl, fun _ => Iff.rfl, rfl⟩ .nil⟩
  postgresql := .none

/-- The report is accepted for the plan with another backup file, a minute later, and not for the
plan with another time limit. -/
theorem sample_vouches :
    verifyMetadata sampleHashing (samplePlan "/restored/shop.db" 60) sampleReport 60 61500 =
        .ok (planBinding sampleHashing (samplePlan "/restored/shop.db" 60)) ∧
      (∀ binding, verifyMetadata sampleHashing (samplePlan "/backup/shop.db" 90) sampleReport 60 1500 ≠
        .ok binding) ∧
      Vouched (samplePlan "/restored/shop.db" 60) sampleReport.checks := by
  have hsame : validatePlan 1000 (samplePlan "/restored/shop.db" 60) = .ok () := by decide
  have hother : validatePlan 1000 (samplePlan "/backup/shop.db" 90) = .ok () := by decide
  have haccepted := ((report_vouches hsame).1 _ _ _ sampleRun).1 (samplePlan_alike _ _) 60 61500 (by decide)
    (by decide) (by decide) (by decide)
  refine ⟨haccepted, fun binding => ?_, ((report_vouches hsame).2 _ _ _ _ haccepted).2⟩
  exact ((report_vouches hother).1 _ _ _ sampleRun).2 sampleHashing_separates
    (fun h => absurd h.timeoutSecs (by decide)) 60 1500 binding

/-- With an age of no seconds the report is refused at the time at which it was finished, and so it
is with an age whose milliseconds are out of range. -/
theorem ages_refused :
    PassedRun sampleHashing (samplePlan "/backup/shop.db" 60) sampleDrill sampleReport ∧
      validatePlan 1000 (samplePlan "/backup/shop.db" 60) = .ok () ∧
      (samplePlan "/backup/shop.db" 60).Alike (samplePlan "/backup/shop.db" 60) ∧
      ∀ age ∈ [0, 2 ^ 62], 1500 ≤ sampleReport.finishedAtMs + 1000 * age ∧
        verifyMetadata sampleHashing (samplePlan "/backup/shop.db" 60) sampleReport age 1500 =
          .error "invalid_report_max_age" := by
  refine ⟨sampleRun, by decide, samplePlan_alike _ _, fun age hage => ?_⟩
  rw [List.mem_cons, List.mem_singleton] at hage
  have hrefused : age = 0 ∨ u64Max < age * 1000 := by
    rcases hage with rfl | rfl
    · exact .inl rfl
    · exact .inr (by decide)
  refine ⟨?_, age_refused hrefused _ _ _⟩
  show 1500 ≤ 1500 + 1000 * age
  omega

end Argos.Service
