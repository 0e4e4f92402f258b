import Argos.Detect.Approvals
import Argos.Lib.Samples
import Argos.Policies.Warmup

/-!
# The audit of exceptions

`argos-policy/src/exception_audit.rs`: which approved changes of a policy match stored events, and
what a replay reports without them. The matches of a rule are those of an engine whose changes
adjust that rule only (`projected`); the numbers of a change are counted from the matches of all
rules. The comparison of two policies is `simulate_range` of `argos-policy/src/simulation.rs`. Its
warnings are left out.
-/

namespace Argos.Policies

open Argos.Common
open Argos.Detect
open Argos.Lib
open Argos.Recovery (i64Max)
open Argos.Vault (blank)

/-! ## The comparison of two policies -/

/-- `SimulationCoverage`. -/
structure SimulationCoverage where
  fromMs : Nat
  toMs : Nat
  warmupFromMs : Nat
  availableEvents : Nat
  loadedEvents : Nat
  warmupEvents : Nat
  evaluatedEvents : Nat
  truncated : Bool
  firstLoadedMs : Option Nat
  lastLoadedMs : Option Nat
  missingEntropyEvents : Nat
deriving DecidableEq, Repr

/-- `SimulationDelta`. -/
structure SimulationDelta where
  alerts : Int
  detectionEvents : Int
  newThresholdPids : List Nat
  removedThresholdPids : List Nat
  newBlockPids : List Nat
  removedBlockPids : List Nat
  newBlockTargets : List SimulationTargetKey
  removedBlockTargets : List SimulationTargetKey
deriving DecidableEq, Repr

/-- `SimulationReport`, its warnings apart. -/
structure SimulationReport where
  sensor : SensorKind
  coverage : SimulationCoverage
  baseline : PolicySimulation
  candidate : PolicySimulation
  delta : SimulationDelta
deriving DecidableEq, Repr

/-- `SimulationTarget::key`. -/
def SimulationTarget.key (target : SimulationTarget) : SimulationTargetKey :=
  ⟨target.pid, target.startTimeTicks, target.bootId⟩

/-- The processes above the threshold, as a set. -/
def thresholdPids (simulation : PolicySimulation) : List Nat :=
  (simulation.thresholdTargets.map (·.pid)).dedup.insertionSort (· ≤ ·)

/-- The processes that would be blocked, as a set. -/
def blockPids (simulation : PolicySimulation) : List Nat :=
  simulation.wouldBlockPids.dedup.insertionSort (· ≤ ·)

/-- The targets that would be blocked, as a set. -/
def blockTargets (policy : Policy) (simulation : PolicySimulation) : List SimulationTargetKey :=
  (((simulation.thresholdTargets.filter fun target =>
    policy.response.autoBlock && target.hasIdentity).map (·.key)).dedup).insertionSort fun a b =>
      a.rank ≤ b.rank

/-- `after.difference(&before)`. -/
def difference {α : Type} [DecidableEq α] (after before : List α) : List α :=
  after.filter fun a => a ∉ before

/-- The difference of two replays. -/
def deltaOf (baseline candidate : Policy) (before after : PolicySimulation) : SimulationDelta where
  alerts := (after.alerts : Int) - before.alerts
  detectionEvents := (after.detectionEvents : Int) - before.detectionEvents
  newThresholdPids := difference (thresholdPids after) (thresholdPids before)
  removedThresholdPids := difference (thresholdPids before) (thresholdPids after)
  newBlockPids := difference (blockPids after) (blockPids before)
  removedBlockPids := difference (blockPids before) (blockPids after)
  newBlockTargets := difference (blockTargets candidate after) (blockTargets baseline before)
  removedBlockTargets := difference (blockTargets baseline before) (blockTargets candidate after)

/-- The rows before the range of interest. -/
def isEarly (options : SimulationOptions) (row : FileEventRow) : Bool :=
  row.event.timestampMs < options.fromMs

/-- What a range of stored events covers. -/
def coverageOf (range : FileEventRange) (baseline candidate : Policy) (options : SimulationOptions) :
    SimulationCoverage where
  fromMs := options.fromMs
  toMs := options.toMs
  warmupFromMs := options.fromMs - warmupMs baseline candidate
  availableEvents := range.totalEvents
  loadedEvents := range.events.length
  warmupEvents := (range.events.filter fun row => isEarly options row).length
  evaluatedEvents := range.events.length - (range.events.filter fun row => isEarly options row).length
  truncated := range.truncated
  firstLoadedMs := range.events.head?.map (·.event.timestampMs)
  lastLoadedMs := range.events.getLast?.map (·.event.timestampMs)
  missingEntropyEvents :=
    (range.events.filter fun row => row.event.action = .modify && row.event.entropy.isNone).length

/-- `simulate_range`. -/
def simulateRange (debug : String → String) (range : FileEventRange) (baseline candidate : Policy)
    (options : SimulationOptions) : Except SimulationError SimulationReport := do
  checkedPolicy "기존" baseline
  checkedPolicy "후보" candidate
  let before := replay debug range.events baseline options
  let after := replay debug range.events candidate options
  return ⟨options.sensor, coverageOf range baseline candidate options, before, after,
    deltaOf baseline candidate before after⟩

/-- `simulate`. -/
def simulate (debug : String → String) (store : List FileEventRow) (baseline candidate : Policy)
    (options : SimulationOptions) : Except SimulationError SimulationReport := do
  let range ← loadSimulationRange store baseline candidate options
  simulateRange debug range baseline candidate options

/-! ## Options and reports -/

/-- `DAY_MS`. -/
def dayMs : Nat := 86400000

/-- `ExceptionAuditOptions`. -/
structure ExceptionAuditOptions where
  simulation : SimulationOptions
  nowMs : Nat
  expiringWithinMs : Nat
  sampleLimit : Nat
deriving DecidableEq, Repr

/-- `ExceptionPathUsage`. -/
structure ExceptionPathUsage where
  path : String
  matchedEvents : Nat
deriving DecidableEq, Repr

/-- `ExceptionRuleUsage`. -/
structure ExceptionRuleUsage where
  rule : String
  matchedEvents : Nat
  warmupMatchedEvents : Nat
deriving DecidableEq, Repr

/-- `ExceptionUsage`. -/
structure ExceptionUsage where
  definition : ApprovedChange
  timeStatus : String
  broadScopeReasons : List String
  usageStatus : String
  replayMatchedEvents : Nat
  warmupMatchedEvents : Nat
  firstMatchedMs : Option Nat
  lastMatchedMs : Option Nat
  ruleMatches : List ExceptionRuleUsage
  paths : List ExceptionPathUsage
  pathSamplesTruncated : Bool
  processSamples : List ProcessIdentity
  processSamplesTruncated : Bool
  evidenceEventIds : List Int
  evidenceSamplesTruncated : Bool
deriving DecidableEq, Repr

/-- `ExceptionAuditReport`. -/
structure ExceptionAuditReport where
  basis : String
  nowMs : Nat
  expiringWithinMs : Nat
  sampleLimit : Nat
  missingIdentityEvents : Nat
  missingExecutableEvents : Nat
  matchingEvidenceTruncated : Bool
  exceptions : List ExceptionUsage
  comparison : SimulationReport
  warnings : List String
deriving DecidableEq, Repr

/-- `RULES`. -/
def auditRules : List String := [behaviorRule, instanceRule, userRule, pathRule, ancestorRule]

/-- `time_status`. -/
def timeStatus (change : ApprovedChange) (options : ExceptionAuditOptions) : String :=
  if options.nowMs ≥ change.validUntilMs then "expired"
  else if options.nowMs < change.validFromMs then "not_started"
  else if change.validUntilMs - options.nowMs ≤ options.expiringWithinMs then "expiring"
  else "active"

/-- A component with a name. -/
def Component.isNormal : Component → Bool
  | .normal _ => true
  | _ => false

/-- `broad_scope_reasons`. -/
def broadScopeReasons (change : ApprovedChange) : List String :=
  complain (change.paths.any fun path => ((components path).filter Component.isNormal).length ≤ 1)
    "루트 또는 최상위 디렉터리를 포함하는 경로 범위" ++
  complain (change.validUntilMs - change.validFromMs > dayMs) "24시간을 초과하는 승인 기간" ++
  complain (change.paths.length > 16) "16개를 초과하는 승인 경로"

/-- A change that is too large for an audit. -/
def changeTooLarge (change : ApprovedChange) : Bool :=
  change.id.utf8ByteSize > 256 || change.paths.length > 128 ||
    change.adjustedRules.length > auditRules.length ||
    change.paths.any (fun path => path.utf8ByteSize > 4096) || change.exe.utf8ByteSize > 4096

/-- `validate_audit_options`. -/
def validateAuditOptions (policy : Policy) (options : ExceptionAuditOptions) :
    Except SimulationError Unit :=
  if !(1 ≤ options.simulation.maxEvents && options.simulation.maxEvents ≤ 100000) then
    .error (.invalidOptions "예외 감사의 준비 구간 포함 이벤트 상한은 1~100,000건입니다")
  else if !(1 ≤ options.sampleLimit && options.sampleLimit ≤ 100) then
    .error (.invalidOptions "예외 감사 대표 표본 상한은 1~100건입니다")
  else if options.nowMs > i64Max || options.expiringWithinMs > 366 * dayMs then
    .error (.invalidOptions "감사 기준 시각은 i64::MAX 이하, 임박 범위는 366일 이하여야 합니다")
  else if policy.detection.approvedChanges.length > 128 ||
      policy.detection.approvedChanges.any changeTooLarge then
    .error (.invalidOptions "예외 감사는 예외 128개, ID 256바이트, 예외당 경로 128개·규칙 5개, 경로 4096바이트까지 지원합니다")
  else .ok ()

/-! ## Matches -/

/-- A policy with other approved changes. -/
def Policy.approving (policy : Policy) (changes : List ApprovedChange) : Policy :=
  { policy with detection := { policy.detection with approvedChanges := changes } }

/-- The policy whose changes adjust one rule only. -/
def projected (policy : Policy) (rule : String) : Policy :=
  policy.approving (policy.detection.approvedChanges.map (.only rule))

/-- The rules that a change adjusts, as a set. -/
def rulesOf (change : ApprovedChange) : List String :=
  change.adjustedRules.dedup.insertionSort (· ≤ ·)

/-- The usage of a change before anything is counted. -/
def unused (options : ExceptionAuditOptions) (change : ApprovedChange) : ExceptionUsage where
  definition := change
  timeStatus := timeStatus change options
  broadScopeReasons := broadScopeReasons change
  usageStatus := "no_matches_in_loaded_range"
  replayMatchedEvents := 0
  warmupMatchedEvents := 0
  firstMatchedMs := none
  lastMatchedMs := none
  ruleMatches := (rulesOf change).map fun rule => ⟨rule, 0, 0⟩
  paths := []
  pathSamplesTruncated := false
  processSamples := []
  processSamplesTruncated := false
  evidenceEventIds := []
  evidenceSamplesTruncated := false

/-- The place of the change with an id; of changes with the same id the last counts. -/
def indexOf (changes : List ApprovedChange) (id : String) : Option Nat :=
  ((changes.zipIdx.filter fun x => x.1.id = id).getLast?).map (·.2)

/-- What the audit knows of the matches: the usages, and the places of the rows that each of them
matched. -/
structure Matching where
  usages : List ExceptionUsage
  rows : List (List Nat)
  truncated : Bool
deriving DecidableEq, Repr

/-- One more match for a rule. -/
def ExceptionRuleUsage.bump (early : Bool) (usage : ExceptionRuleUsage) : ExceptionRuleUsage :=
  if early then { usage with warmupMatchedEvents := usage.warmupMatchedEvents + 1 }
  else { usage with matchedEvents := usage.matchedEvents + 1 }

/-- A row matched a change by a rule, if the change has the rule. -/
def Matching.noted (m : Matching) (rule : String) (early : Bool) (index row : Nat) : Matching :=
  if (m.usages[index]?).any fun usage => usage.ruleMatches.any fun item => item.rule = rule then
    { m with
      usages := m.usages.modify index fun usage =>
        { usage with
          ruleMatches := updateFirst (fun item => item.rule = rule) (.bump early) usage.ruleMatches }
      rows := m.rows.modify index (· ++ [row]) }
  else m

/-- A row with its evaluation, under one rule. Only the actions that are evidence count for the
rules of the aggregation. -/
def Matching.row (policy : Policy) (options : ExceptionAuditOptions) (rule : String) (m : Matching)
    (x : (FileEventRow × Evaluation) × Nat) : Matching :=
  let m := { m with truncated := m.truncated || x.1.2.evidenceTruncated }
  if rule ≠ behaviorRule && !countedAction x.1.1.event.action then m
  else
    match x.1.2.approvedChangeId.bind (indexOf policy.detection.approvedChanges) with
    | none => m
    | some index => m.noted rule (isEarly options.simulation x.1.1) index x.2

/-- The rows under one rule, if some change adjusts it. -/
def Matching.rule (debug : String → String) (rows : List FileEventRow) (policy : Policy)
    (options : ExceptionAuditOptions) (m : Matching) (rule : String) : Matching :=
  if policy.detection.approvedChanges.any fun change => change.adjustedRules.contains rule then
    ((evaluatedRows debug (projected policy rule) options.simulation {} rows).zipIdx).foldl
      (.row policy options rule) m
  else m

/-- The matches of all rules. -/
def matching (debug : String → String) (rows : List FileEventRow) (policy : Policy)
    (options : ExceptionAuditOptions) : Matching :=
  auditRules.foldl (.rule debug rows policy options)
    ⟨policy.detection.approvedChanges.map (unused options),
      policy.detection.approvedChanges.map fun _ => [], false⟩

/-! ## Usages -/

/-- The process of an event. -/
def processOf (event : FileEvent) : Option ProcessIdentity :=
  event.process.map fun context => ⟨event.pid, context.startTimeTicks, context.bootId⟩

/-- A row that matched a change. -/
def ExceptionUsage.count (options : ExceptionAuditOptions) (usage : ExceptionUsage)
    (row : FileEventRow) : ExceptionUsage :=
  if isEarly options.simulation row then
    { usage with warmupMatchedEvents := usage.warmupMatchedEvents + 1 }
  else
    let evidence := Sample.push options.sampleLimit
      (usage.evidenceEventIds, usage.evidenceSamplesTruncated) row.id
    let paths := Sample.count ExceptionPathUsage.path (⟨·, 1⟩)
      (fun path => { path with matchedEvents := path.matchedEvents + 1 }) options.sampleLimit
      (usage.paths, usage.pathSamplesTruncated) row.event.path
    let processes := (processOf row.event).elim (usage.processSamples, usage.processSamplesTruncated)
      (Sample.pushNew options.sampleLimit (usage.processSamples, usage.processSamplesTruncated))
    { usage with
      replayMatchedEvents := usage.replayMatchedEvents + 1
      firstMatchedMs := some (usage.firstMatchedMs.getD row.event.timestampMs)
      lastMatchedMs := some row.event.timestampMs
      paths := paths.1
      pathSamplesTruncated := paths.2
      processSamples := processes.1
      processSamplesTruncated := processes.2
      evidenceEventIds := evidence.1
      evidenceSamplesTruncated := evidence.2 }

/-- Whether a change was used. -/
def ExceptionUsage.closed (usage : ExceptionUsage) : ExceptionUsage :=
  if usage.replayMatchedEvents > 0 then { usage with usageStatus := "matched_in_loaded_range" }
  else usage

/-- The usage of a change with the rows that matched it. -/
def usageOf (rows : List FileEventRow) (options : ExceptionAuditOptions) (usage : ExceptionUsage)
    (matched : List Nat) : ExceptionUsage :=
  ((((matched.dedup).insertionSort (· ≤ ·)).filterMap (rows[·]?)).foldl (.count options) usage).closed

/-- An event whose process cannot be told. -/
def missingIdentity (row : FileEventRow) : Bool :=
  row.event.pid = 0 || row.event.process.all fun context =>
    context.startTimeTicks = 0 || blank context.bootId

/-- An event whose program cannot be told. -/
def missingExecutable (row : FileEventRow) : Bool :=
  row.event.process.all fun context => blank context.exe

/-- The warnings of an audit. -/
def auditWarnings (truncated : Bool) (identities executables : Nat) : List String :=
  ["현재 입력 정책을 저장 이벤트에 재생한 예외 매칭 가능 기여수입니다. 배포 당시 실제 예외 적용·차단 감사 기록이 아닙니다.",
    "comparison.baseline은 입력 정책, candidate는 모든 승인 예외를 제거한 정책입니다. 알림·임계치·차단 차이는 재생 예상이며 실제 차단 수가 아닙니다.",
    "겹치는 승인 작업은 정책 배열의 첫 매칭이 우선합니다. 규칙 매칭 수는 점수 감소량이나 차단 방지 건수와 같지 않으며, 미끼 파일 신호는 예외 제거와 독립적으로 유지됩니다.",
    "no_matches_in_loaded_range는 조회된 평가 구간에서 매칭이 없다는 뜻입니다. 준비 구간만의 사용·조회 잘림·센서 누락·불완전 신원·다른 배포 정책 때문에 미사용을 확정할 수 없습니다.",
    "broad_scope_reasons는 경로 깊이·기간·경로 수의 검토용 휴리스틱입니다. 업무 필요성·악성 여부를 판정하거나 예외를 자동 삭제하지 않습니다."] ++
  complain truncated
    "조회 또는 재생 근거 상한 때문에 예외 매칭 집계가 불완전할 수 있습니다. 예외의 안전성이나 미사용 여부를 이 결과만으로 단정하지 마세요." ++
  complain (identities > 0 || executables > 0)
    ("평가 구간에 시작 신원 미확인 " ++ toString identities ++ "건, 실행 파일 미확인 " ++
      toString executables ++ "건이 있어 해당 이벤트의 예외 매칭을 확인할 수 없습니다.")

/-- The report of a range of stored events. -/
def auditRange (debug : String → String) (range : FileEventRange) (policy : Policy)
    (options : ExceptionAuditOptions) (comparison : SimulationReport) : ExceptionAuditReport :=
  let m := matching debug range.events policy options
  let evaluated := range.events.filter fun row => !isEarly options.simulation row
  let identities := (evaluated.filter missingIdentity).length
  let executables := (evaluated.filter missingExecutable).length
  { basis := "stored_event_replay_with_supplied_policy"
    nowMs := options.nowMs
    expiringWithinMs := options.expiringWithinMs
    sampleLimit := options.sampleLimit
    missingIdentityEvents := identities
    missingExecutableEvents := executables
    matchingEvidenceTruncated := m.truncated
    exceptions := List.zipWith (usageOf range.events options) m.usages m.rows
    comparison := comparison
    warnings := auditWarnings (comparison.coverage.truncated || m.truncated) identities executables }

/-- `audit_exceptions`. -/
def auditExceptions (debug : String → String) (store : List FileEventRow) (policy : Policy)
    (options : ExceptionAuditOptions) : Except SimulationError ExceptionAuditReport := do
  validateAuditOptions policy options
  let withoutExceptions := policy.approving []
  let range ← loadSimulationRange store policy withoutExceptions options.simulation
  let comparison ← simulateRange debug range policy withoutExceptions options.simulation
  return auditRange debug range policy options comparison

end Argos.Policies
