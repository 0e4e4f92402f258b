import Argos.Policies.Trust
import Argos.Detect.Engine
import Argos.Sensor.Health

/-!
# The loop of the agent

`argos-agent/src/main.rs`: the loop takes file events, process events and ticks of a clock, one at a
time. A file event is enriched with samples of its content, evaluated, answered and stored
(`process_event`); a tick reports the health of the agent. What the loop does to its surroundings is
the list of its deeds; what the surroundings answer comes with each input: the clocks, which are read
anew at every use and may go back, the samples of the content, the responder and the database.
-/

namespace Argos.Agent

open Argos.Common
open Argos.Detect
open Argos.Lib
open Argos.Policies (Policy)
open Argos.Sensor (SensorHealthSnapshot)

/-! ## The status of the policy -/

/-- A value in the status of the policy. -/
inductive Scalar where
  | bool (value : Bool)
  | number (value : Nat)
  | text (value : String)
deriving DecidableEq, Repr

/-- `serde_json::Value::as_u64` of a field. -/
def Scalar.asU64 : Option Scalar → Option Nat
  | some (.number n) => some n
  | _ => none

/-- The status of the policy, a JSON object. -/
abbrev PolicyStatus := Map String Scalar

/-- The status of a policy that has just been activated. -/
def policyStatus (policy : Policy) (sha256 : String) : PolicyStatus :=
  (((((∅ : PolicyStatus).insert "version" (.number policy.version)).insert
    "sha256" (.text sha256)).insert
    "not_before_ms" (.number policy.notBeforeMs)).insert
    "expires_at_ms" (.number policy.expiresAtMs)).insert "invalid" (.bool false)

/-- `state["invalid"] == true`. -/
def PolicyStatus.isInvalid (status : PolicyStatus) : Bool :=
  status.lookup "invalid" = some (.bool true)

/-- A clock is outside the time of the policy, or was so before. -/
def PolicyStatus.outside (status : PolicyStatus) (now : Nat) : Bool :=
  status.isInvalid || now < (Scalar.asU64 (status.lookup "not_before_ms")).getD u64Max ||
    (Scalar.asU64 (status.lookup "expires_at_ms")).getD 0 ≤ now

/-- `guard_policy_time`. -/
def guardPolicyTime (policy : Option PolicyStatus) (response : ResponseConfig) (now : Nat) :
    Option PolicyStatus × ResponseConfig :=
  match policy with
  | none => (none, response)
  | some status =>
    if status.outside now then
      (some (status.insert "invalid" (.bool true)), { response with autoBlock := false })
    else (some status, response)

/-! ## Events -/

/-- `ResponseAction`. -/
inductive ResponseAction where
  | killProcess (pid : Nat)
  | killProcessInstance (pid startTimeTicks : Nat) (bootId : String)
  | suspendProcess (pid : Nat)
deriving DecidableEq, Repr

/-- `ResponseAudit`. -/
structure ResponseAudit where
  timestampMs : Nat
  pid : Nat
  startTimeTicks : Option Nat
  bootId : Option String
  score : ℚ
  action : String
  outcome : String
  error : Option String
deriving DecidableEq, Repr

/-- What the loop uses of `AgentConfig`, after the policy has replaced the detection and the response;
`agentId` is the one of the reporter. -/
structure AgentConfig where
  detection : DetectionConfig
  response : ResponseConfig
  sensor : SensorKind
  debug : String → String
  backup : Bool
  agentId : Option String

/-- The settings of the engine. -/
def AgentConfig.setup (config : AgentConfig) : Setup := ⟨config.detection, config.sensor, config.debug⟩

/-- What the surroundings answer while an event is processed. -/
structure Surroundings where
  /-- The clock of the loop before the event. -/
  loopClock : Nat
  /-- The entropy of the first bytes of the file, if they can be read. -/
  fileEntropy : Option Number
  /-- The samples of the content. -/
  sampling : Except String ContentEvidence
  /-- The alert for the meaning of a configuration file. -/
  semantic : Option Detection
  /-- The clock before the response. -/
  guardClock : Nat
  /-- The responder. -/
  execute : ResponseAction → Except String Unit
  /-- The clock of the audit. -/
  auditClock : Nat
  /-- Whether a detection can be stored. -/
  recorded : Detection → Bool

/-- What the loop reports of the health at a tick, the counters of the backup apart. -/
structure HealthStatus where
  timestampMs : Nat
  policy : Option PolicyStatus
  coverageHealthy : Bool
  semanticUnavailable : Nat
  analysisIncomplete : Bool
  retentionHealthy : Bool
  sensorHealthy : Bool
  sensor : SensorHealthSnapshot
  processMonitor : Option SensorHealthSnapshot
  sensorQueue : Nat

/-- What the loop does to its surroundings. -/
inductive Deed where
  | execute (action : ResponseAction) (result : Except String Unit)
  | insertResponseResult (audit : ResponseAudit)
  | insertFileEvent (event : FileEvent)
  | enqueueBackup (event : FileEvent)
  | recordDetection (detection : Detection) (agentId : Option String) (pin : Bool)
  | notifyReporter
  | insertProcessEvent
  | setSensorHealthy (healthy : Bool)
  | persistHealth (status : HealthStatus)

/-- The content of a file is sampled when it was written. -/
def sampled (config : AgentConfig) (event : FileEvent) : Bool :=
  (event.action = .create || event.action = .modify) && config.detection.contentSampling.enabled

/-- The samples of an event could not be taken. -/
def samplingFailed (config : AgentConfig) (event : FileEvent) (env : Surroundings) : Bool :=
  sampled config event && env.sampling.toOption.isNone

/-- The event with what is known of the content. -/
def observed (config : AgentConfig) (event : FileEvent) (env : Surroundings) : FileEvent :=
  let event :=
    if !config.detection.contentSampling.enabled && event.action = .modify &&
        0 < config.detection.entropySampleBytes then { event with entropy := env.fileEntropy }
    else event
  if sampled config event then
    match env.sampling with
    | .ok content => { event with entropy := content.samples.head?.map (·.entropy), content := some content }
    | .error _ => { event with content := none, entropy := none }
  else event

/-- The answer to an evaluated event: the outcome and the error for the audit, and the deed. -/
def respond (event : FileEvent) (evaluation : Evaluation) (response : ResponseConfig)
    (env : Surroundings) : Option (String × Option String) × List Deed :=
  if evaluation.shouldBlock response then
    match event.process with
    | some identity =>
      let action := ResponseAction.killProcessInstance evaluation.pid identity.startTimeTicks identity.bootId
      match env.execute action with
      | .ok () => (some ("succeeded", none), [.execute action (.ok ())])
      | .error text => (some ("failed_or_unconfirmed", some text), [.execute action (.error text)])
    | none => (some ("rejected", some "프로세스 시작 신원 미확인"), [])
  else if evaluation.blockCandidate response then (some ("observed_threshold", none), [])
  else (none, [])

/-- The audit of a response. -/
def responseAudit (event : FileEvent) (evaluation : Evaluation) (outcome : String)
    (error : Option String) (now : Nat) : ResponseAudit where
  timestampMs := now
  pid := evaluation.pid
  startTimeTicks := event.process.map (·.startTimeTicks)
  bootId := event.process.map (·.bootId)
  score := evaluation.score
  action := "kill_process"
  outcome := outcome
  error := error

/-- A detection is stored, and the reporter is told. -/
def recordDeeds (config : AgentConfig) (env : Surroundings) (detection : Detection) : List Deed :=
  .recordDetection detection config.agentId (config.backup && Number.lt (.finite 0) detection.score) ::
    if env.recorded detection && config.agentId.isSome then [.notifyReporter] else []

/-- What is stored of an event. -/
def storeDeeds (config : AgentConfig) (event : FileEvent) (evaluation : Evaluation) (env : Surroundings) :
    List Deed :=
  [.insertFileEvent event] ++
    (if config.backup && (event.action = .create || event.action = .modify) then [.enqueueBackup event]
    else []) ++
    (evaluation.alert.toList ++ evaluation.additionalAlerts ++ env.semantic.toList).flatMap
      (recordDeeds config env)

/-- `process_event`: whether the analysis is incomplete, the engine and the status after it, and the
deeds. -/
def processEvent (config : AgentConfig) (response : ResponseConfig) (engine : DetectionEngine)
    (policy : Option PolicyStatus) (event : FileEvent) (env : Surroundings) :
    Bool × DetectionEngine × Option PolicyStatus × List Deed :=
  let event' := observed config event env
  let evaluated := engine.evaluate config.setup event'
  let guarded := guardPolicyTime policy response env.guardClock
  let answer := respond event' evaluated.1 guarded.2 env
  let audit := answer.1.toList.map fun outcome =>
    Deed.insertResponseResult (responseAudit event' evaluated.1 outcome.1 outcome.2 env.auditClock)
  (evaluated.1.evidenceTruncated || samplingFailed config event env, evaluated.2, guarded.1,
    answer.2 ++ audit ++ storeDeeds config event' evaluated.1 env)

/-! ## The loop -/

/-- What is read at a tick. -/
structure Readings where
  clock : Nat
  sensor : SensorHealthSnapshot
  processMonitor : Option SensorHealthSnapshot
  /-- The lost pins and the failures of the worker, if there is a backup. -/
  pins : Option (Nat × Nat)
  /-- The health of the coverage, if it is checked. -/
  coverage : Option Bool
  semanticUnavailable : Nat
  statusClock : Nat
  sensorQueue : Nat

/-- What the loop takes next. -/
inductive Input where
  | file (event : FileEvent) (env : Surroundings)
  | sensorClosed
  | process
  | tick (readings : Readings)
  | interrupt

/-- The state of the loop. -/
structure EventLoop where
  response : ResponseConfig
  engine : DetectionEngine := {}
  policyRuntime : Option PolicyStatus
  analysisIncomplete : Bool := false
  running : Bool := true

/-- No pins were lost. -/
def Readings.retentionHealthy (r : Readings) : Bool := r.pins.all fun pins => pins.1 = 0 && pins.2 = 0

/-- `healthy`, the flag of a tick. -/
def Readings.healthy (r : Readings) (policy : Option PolicyStatus) (analysisIncomplete : Bool) : Bool :=
  r.coverage.getD true && r.retentionHealthy && !policy.any PolicyStatus.isInvalid &&
    !analysisIncomplete && r.semanticUnavailable = 0 && r.sensor.alive && r.sensor.errors = 0 &&
    r.sensor.droppedEvents = 0 && r.sensor.kernelOverflows = 0 &&
    r.processMonitor.all fun h => h.alive && h.errors = 0 && h.droppedEvents = 0

/-- The report of a tick. -/
def Readings.report (r : Readings) (policy : Option PolicyStatus) (analysisIncomplete : Bool) :
    HealthStatus where
  timestampMs := r.statusClock
  policy := policy
  coverageHealthy := r.coverage.getD true
  semanticUnavailable := r.semanticUnavailable
  analysisIncomplete := analysisIncomplete
  retentionHealthy := r.retentionHealthy
  sensorHealthy := r.healthy policy analysisIncomplete
  sensor := r.sensor
  processMonitor := r.processMonitor
  sensorQueue := r.sensorQueue

/-- The flag is given to the reporter, if there is one. -/
def AgentConfig.reportDeeds (config : AgentConfig) (healthy : Bool) : List Deed :=
  if config.agentId.isSome then [.setSensorHealthy healthy] else []

namespace EventLoop

/-- One turn of the loop. -/
def turn (config : AgentConfig) (a : EventLoop) : Input → EventLoop × List Deed
  | .file event env =>
    let guarded := guardPolicyTime a.policyRuntime a.response env.loopClock
    let processed := processEvent config guarded.2 a.engine guarded.1 event env
    ({ a with
        response := guarded.2
        engine := processed.2.1
        policyRuntime := processed.2.2.1
        analysisIncomplete := processed.1 },
      processed.2.2.2)
  | .sensorClosed => ({ a with running := false }, config.reportDeeds false)
  | .process => (a, [.insertProcessEvent])
  | .tick readings =>
    let guarded := guardPolicyTime a.policyRuntime a.response readings.clock
    ({ a with response := guarded.2, policyRuntime := guarded.1 },
      config.reportDeeds (readings.healthy guarded.1 a.analysisIncomplete) ++
        [.persistHealth (readings.report guarded.1 a.analysisIncomplete)])
  | .interrupt => ({ a with running := false }, [])

/-- One turn, if the loop still runs. -/
def step (config : AgentConfig) (a : EventLoop) (input : Input) : EventLoop × List Deed :=
  if a.running then a.turn config input else (a, [])

/-- The loop after some inputs. -/
def after (config : AgentConfig) (a : EventLoop) (inputs : List Input) : EventLoop :=
  inputs.foldl (fun a input => (a.step config input).1) a

theorem after_append (config : AgentConfig) (a : EventLoop) (xs ys : List Input) :
    a.after config (xs ++ ys) = (a.after config xs).after config ys :=
  List.foldl_append

/-- The loop at its start, with a signed policy. -/
def start (policy : Policy) (sha256 : String) : EventLoop where
  response := policy.response
  policyRuntime := some (policyStatus policy sha256)

end EventLoop

/-- The configuration with the settings of a signed policy. -/
def AgentConfig.activated (config : AgentConfig) (policy : Policy) : AgentConfig :=
  { config with detection := policy.detection, response := policy.response }

end Argos.Agent
