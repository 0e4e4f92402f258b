import Argos.Detect.TwoRuns
import Argos.Policies.Trust

/-!
# The replay of stored events

`argos-policy/src/simulation.rs`: a policy is tried on stored events. They are loaded from one window
before the range of interest on (`load_simulation_range`), and replayed in order by the same engine
(`replay`); what happens before the range only warms the engine up. The texts of the warnings, the
coverage report and the difference of the two policies are left out.
-/

namespace Argos.Policies

open Argos.Common
open Argos.Detect
open Argos.Lib
open Argos.Recovery (i64Max)

/-- `FileEventRow`. -/
structure FileEventRow where
  id : Int
  event : FileEvent
deriving DecidableEq, Repr

/-- `SimulationOptions`. -/
structure SimulationOptions where
  fromMs : Nat
  toMs : Nat
  maxEvents : Nat
  sensor : SensorKind
deriving DecidableEq, Repr

/-- `SimulationError`. -/
inductive SimulationError where
  | storage
  | invalidOptions (reason : String)
  | invalidPolicy (policy reason : String)
deriving DecidableEq, Repr

/-- `FileEventRange`. -/
structure FileEventRange where
  fromMs : Nat
  toMs : Nat
  totalEvents : Nat
  truncated : Bool
  events : List FileEventRow
deriving DecidableEq, Repr

/-! ## Loading -/

/-- `ORDER BY timestamp_ms ASC, id ASC`. -/
def rowLe (a b : FileEventRow) : Bool :=
  a.event.timestampMs < b.event.timestampMs ||
    a.event.timestampMs = b.event.timestampMs && a.id ≤ b.id

/-- The rows of a range of time, in their order. -/
def rowsBetween (store : List FileEventRow) (fromMs toMs : Nat) : List FileEventRow :=
  (store.filter fun row => fromMs ≤ row.event.timestampMs && row.event.timestampMs ≤ toMs).insertionSort
    fun a b => rowLe a b

/-- `EventStore::file_events_in_range`, when the database answers. -/
def fileEventsInRange (store : List FileEventRow) (fromMs toMs limit : Nat) :
    Except SimulationError FileEventRange :=
  if fromMs > toMs ∨ toMs > i64Max then .error .storage
  else if limit = 0 ∨ limit > i64Max then .error .storage
  else
    let rows := rowsBetween store fromMs toMs
    .ok
      { fromMs := fromMs
        toMs := toMs
        totalEvents := rows.length
        truncated := (rows.take limit).length < rows.length
        events := rows.take limit }

/-- `policy_window_secs`. -/
def policyWindowSecs (policy : Policy) : Nat :=
  max policy.detection.windowSecs
    (if policy.detection.multiWindow.enabled then
      ((policy.detection.multiWindow.windows.map (·.windowSecs)).max?).getD 0
    else 0)

/-- A policy is refused before anything is loaded. -/
def checkedPolicy (name : String) (policy : Policy) : Except SimulationError Unit :=
  match validateConfiguration policy.detection policy.response with
  | .ok () => .ok ()
  | .error reason => .error (.invalidPolicy name reason)

/-- The length of the warm-up. -/
def warmupMs (baseline candidate : Policy) : Nat :=
  millis (max (policyWindowSecs baseline) (policyWindowSecs candidate))

/-- `load_simulation_range`. -/
def loadSimulationRange (store : List FileEventRow) (baseline candidate : Policy)
    (options : SimulationOptions) : Except SimulationError FileEventRange := do
  if options.fromMs > options.toMs ∨ options.toMs > i64Max then
    throw (.invalidOptions "시작 ≤ 종료 ≤ i64::MAX여야 합니다")
  if options.maxEvents = 0 ∨ options.maxEvents > 1000000 then
    throw (.invalidOptions "조회 제한은 1~1,000,000건이어야 합니다")
  checkedPolicy "기존" baseline
  checkedPolicy "후보" candidate
  fileEventsInRange store (options.fromMs - warmupMs baseline candidate) options.toMs options.maxEvents

/-! ## Replay -/

/-- `SimulationTargetKey`. -/
structure SimulationTargetKey where
  pid : Nat
  startTimeTicks : Option Nat
  bootId : Option String
deriving DecidableEq, Repr

/-- `SimulationTarget`. -/
structure SimulationTarget where
  pid : Nat
  startTimeTicks : Option Nat
  bootId : Option String
  firstEventId : Int
  firstTimestampMs : Nat
  peakScore : ℚ
  evidenceEventIds : List Int
  paths : List String
deriving DecidableEq, Repr

/-- `PolicySimulation`, the policy apart. -/
structure PolicySimulation where
  alerts : Nat := 0
  aggregateAlerts : Nat := 0
  aggregationEvidenceTruncated : Bool := false
  detectionEvents : Nat := 0
  blockThresholdCrossings : Nat := 0
  unattributedThresholdEvents : Nat := 0
  thresholdTargets : List SimulationTarget := []
  wouldBlockPids : List Nat := []
deriving DecidableEq, Repr

/-- The derived order of the keys. -/
def SimulationTargetKey.rank (key : SimulationTargetKey) : List (List Nat) :=
  [[key.pid], key.startTimeTicks.elim [0] (fun ticks => [1, ticks]),
    key.bootId.elim [0] fun boot => 1 :: Group.codes boot]

/-- The key of a row. -/
def keyOf (row : FileEventRow) : SimulationTargetKey :=
  ⟨row.event.pid, row.event.process.map (·.startTimeTicks), row.event.process.map (·.bootId)⟩

/-- `SimulationTarget::has_identity`. -/
def SimulationTarget.hasIdentity (target : SimulationTarget) : Bool :=
  target.startTimeTicks.any (fun ticks => 0 < ticks) &&
    target.bootId.any fun id => !Argos.Vault.blank id

/-- The engine of a policy; `debug` is how the standard library prints a text. -/
def setupOf (debug : String → String) (policy : Policy) (options : SimulationOptions) : Setup :=
  ⟨policy.detection, options.sensor, debug⟩

/-- The event of a row, without its entropy if the policy takes no samples. -/
def replayed (policy : Policy) (row : FileEventRow) : FileEvent :=
  if policy.detection.entropySampleBytes = 0 then { row.event with entropy := none } else row.event

/-- The evaluation of an event is above the threshold. -/
def isAbove (policy : Policy) (evaluation : Evaluation) : Bool :=
  evaluation.eligible && Number.le policy.response.blockScore (.finite evaluation.score)

/-- The target of a row that is a block candidate. -/
def targetWith (targets : Map SimulationTargetKey SimulationTarget) (row : FileEventRow) (score : ℚ) :
    SimulationTarget :=
  let target := (targets.lookup (keyOf row)).getD
    { pid := row.event.pid
      startTimeTicks := (keyOf row).startTimeTicks
      bootId := (keyOf row).bootId
      firstEventId := row.id
      firstTimestampMs := row.event.timestampMs
      peakScore := score
      evidenceEventIds := []
      paths := [] }
  { target with
    peakScore := max target.peakScore score
    evidenceEventIds := if target.evidenceEventIds.length < 20 then target.evidenceEventIds ++ [row.id]
      else target.evidenceEventIds
    paths := if target.paths.length < 20 ∧ row.event.path ∉ target.paths then
        target.paths ++ [row.event.path]
      else target.paths }

/-- Whether a target was above the threshold at its last event, not longer than a window ago. -/
def wasAbove (policy : Policy) (above : Map SimulationTargetKey (Bool × Nat)) (row : FileEventRow) :
    Bool :=
  (above.lookup (keyOf row)).any fun last =>
    last.1 && row.event.timestampMs - last.2 ≤ millis (policyWindowSecs policy)

/-- What a replay keeps besides the engine. -/
structure Tally where
  above : Map SimulationTargetKey (Bool × Nat) := ∅
  targets : Map SimulationTargetKey SimulationTarget := ∅
  result : PolicySimulation := {}

/-- The numbers of an evaluation in the range. -/
def counted (policy : Policy) (was : Bool) (row : FileEventRow) (evaluation : Evaluation)
    (result : PolicySimulation) : PolicySimulation :=
  { result with
    alerts := result.alerts + (if evaluation.alert.isSome then 1 else 0) +
      evaluation.additionalAlerts.length
    aggregateAlerts := result.aggregateAlerts +
      (evaluation.additionalAlerts.filter fun alert => alert.pid = 0).length
    detectionEvents := if evaluation.eligible &&
        Number.le policy.detection.detectScore (.finite evaluation.score) ||
        !evaluation.additionalAlerts.isEmpty then result.detectionEvents + 1
      else result.detectionEvents
    blockThresholdCrossings := if isAbove policy evaluation && !was then
        result.blockThresholdCrossings + 1
      else result.blockThresholdCrossings
    unattributedThresholdEvents := if isAbove policy evaluation && row.event.pid = 0 then
        result.unattributedThresholdEvents + 1
      else result.unattributedThresholdEvents }

/-- One row with its evaluation. -/
def tallied (policy : Policy) (options : SimulationOptions) (t : Tally)
    (x : FileEventRow × Evaluation) : Tally :=
  let was := wasAbove policy t.above x.1
  let above := t.above.insert (keyOf x.1) (isAbove policy x.2, x.1.event.timestampMs)
  let result := { t.result with
    aggregationEvidenceTruncated := t.result.aggregationEvidenceTruncated || x.2.evidenceTruncated }
  if x.1.event.timestampMs < options.fromMs then { t with above := above, result := result }
  else
    { above := above
      targets := if x.2.blockCandidate policy.response then
          t.targets.insert (keyOf x.1) (targetWith t.targets x.1 x.2.score)
        else t.targets
      result := counted policy was x.1 x.2 result }

/-- One row: the engine evaluates its event. -/
def replayRow (debug : String → String) (policy : Policy) (options : SimulationOptions)
    (state : DetectionEngine × Tally) (row : FileEventRow) : DetectionEngine × Tally :=
  let evaluated := state.1.evaluate (setupOf debug policy options) (replayed policy row)
  (evaluated.2, tallied policy options state.2 (row, evaluated.1))

/-- What is reported of a tally. -/
def reported (policy : Policy) (t : Tally) : PolicySimulation :=
  let targets := (t.targets.entries.insertionSort fun a b => a.1.rank ≤ b.1.rank).map (·.2)
  { t.result with
    thresholdTargets := targets
    wouldBlockPids := if policy.response.autoBlock then
        (((targets.filter SimulationTarget.hasIdentity).map (·.pid)).dedup).insertionSort (· ≤ ·)
      else [] }

/-- `replay`. -/
def replay (debug : String → String) (rows : List FileEventRow) (policy : Policy)
    (options : SimulationOptions) : PolicySimulation :=
  reported policy (rows.foldl (replayRow debug policy options) ({}, {})).2

end Argos.Policies
