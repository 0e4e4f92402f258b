import Argos.Detect.MultiWindow

/-!
# The detection engine

`DetectionEngine` of `argos-detect/src/lib.rs`: an event is given to the two scorers, unless its path
is excluded, and their results are merged; a change of a canary file counts for itself. A run of the
engine is a fold over the events (`evaluations`).
-/

namespace Argos.Detect

open Argos.Common
open Argos.Lib
open Argos.Vault (blank)

/-- The identity of an alert for a canary file. -/
abbrev CanaryIdentity := Nat × Identity × String

/-- `DetectionEngine`, its settings apart. -/
structure DetectionEngine where
  scorer : BehaviorScorer := {}
  lastCanaryEmit : Map CanaryIdentity Nat := ∅
  multiWindow : MultiWindowScorer := {}

/-- `approved_event`. -/
def approvedEvent (change : ApprovedChange) (event : FileEvent) : Bool :=
  event.process.any fun process =>
    event.pid ≠ 0 && process.startTimeTicks ≠ 0 && !blank process.bootId &&
      change.validFromMs ≤ event.timestampMs && event.timestampMs < change.validUntilMs &&
      process.uid = change.uid && samePath process.exe change.exe && absoluteCleanPath event.path &&
      change.paths.any fun path => startsWith event.path path

/-- The approved change that an event belongs to: the first that matches. -/
def approvalOf (config : DetectionConfig) (event : FileEvent) : Option ApprovedChange :=
  config.approvedChanges.find? fun change => approvedEvent change event

/-- The approval for the behaviour rule. -/
def behaviorApproval (config : DetectionConfig) (event : FileEvent) : Option String :=
  ((approvalOf config event).filter fun change => change.adjustedRules.any (· = behaviorRule)).map (·.id)

/-- The rules that are adjusted for an event. -/
def adjustedFor (config : DetectionConfig) (event : FileEvent) : List String :=
  (approvalOf config event).elim [] (·.adjustedRules)

/-- `is_excluded`. -/
def isExcluded (config : DetectionConfig) (path : String) : Bool :=
  config.excludePaths.any fun excluded => startsWith path excluded

/-- A change of a canary file. -/
def tampersCanary (config : DetectionConfig) (event : FileEvent) : Bool :=
  (event.action = .modify || event.action = .delete || event.action = .rename) &&
    config.canaryPaths.any fun path => samePath path event.path

/-- The evaluation of an event on an excluded path. -/
def excludedEvaluation (event : FileEvent) : Evaluation where
  score := 0
  pid := event.pid
  eligible := false
  alert := none
  approvedChangeId := none
  additionalAlerts := []
  evidenceTruncated := false

/-- The evaluations of the two scorers, merged. -/
def merged (config : DetectionConfig) (event : FileEvent) (base : Evaluation) (multi : MultiOutcome) :
    Evaluation :=
  { base with
    score := multi.instanceScore.elim base.score (max base.score)
    eligible := base.eligible || multi.instanceScore.isSome
    approvedChangeId := if multi.approvalApplied then (approvalOf config event).map (·.id)
      else base.approvedChangeId
    additionalAlerts := multi.alerts
    evidenceTruncated := base.evidenceTruncated || multi.truncated }

namespace DetectionEngine

/-- The scorers evaluate an event. -/
def scored (S : Setup) (e : DetectionEngine) (event : FileEvent) : Evaluation × DetectionEngine :=
  if isExcluded S.config event.path then (excludedEvaluation event, e)
  else
    let base := e.scorer.evaluateWithApproval S event (behaviorApproval S.config event)
    let multi := e.multiWindow.evaluate S event (adjustedFor S.config event)
    (merged S.config event base.1 multi.1, { e with scorer := base.2, multiWindow := multi.2 })

/-- The identity of a canary alert for an event. -/
def canaryIdentity (event : FileEvent) : CanaryIdentity :=
  (event.pid, (event.process.filter fun p => p.bootId.utf8ByteSize ≤ 128).map
    fun p => (p.startTimeTicks, p.bootId), event.path)

/-- The derived order of these identities. -/
def canaryRank (identity : CanaryIdentity) : List (List Nat) :=
  [[identity.1]] ++ identity.2.1.elim [[0]] (fun known => [[1], [known.1], Group.codes known.2]) ++
    [Group.codes identity.2.2]

/-- The identity whose alert is the oldest. -/
def oldestCanary (e : DetectionEngine) : Option CanaryIdentity :=
  leastKey (fun identity last => toLex (last, canaryRank identity)) e.lastCanaryEmit

/-- `format!("{:?}", action)`. -/
def actionText : FileAction → String
  | .create => "Create"
  | .modify => "Modify"
  | .delete => "Delete"
  | .rename => "Rename"
  | .chmod => "Chmod"
  | .chown => "Chown"

/-- The alert for a canary file. -/
def canaryAlert (event : FileEvent) (score : ℚ) : Detection where
  timestampMs := event.timestampMs
  rule := canaryRule
  score := .finite score
  severity := .critical
  summary := "미끼 파일 변경 감지: " ++ event.path ++ " (" ++ actionText event.action ++ ")"
  pid := event.pid
  paths := [event.path]

/-- The cache of canary alerts has no room for a new one. -/
def canaryFull (S : Setup) (e : DetectionEngine) (event : FileEvent) : Bool :=
  canaryIdentity event ∉ e.lastCanaryEmit && maxGroups S ≤ e.lastCanaryEmit.entries.length

/-- Room for a canary alert. -/
def canaryRoom (S : Setup) (e : DetectionEngine) (event : FileEvent) : DetectionEngine :=
  if e.canaryFull S event then
    e.oldestCanary.elim e fun oldest => { e with lastCanaryEmit := e.lastCanaryEmit.erase oldest }
  else e

/-- The last alert for the same canary file is not older than a window. -/
def canaryCooldown (S : Setup) (e : DetectionEngine) (event : FileEvent) : Bool :=
  (e.lastCanaryEmit.lookup (canaryIdentity event)).any fun last =>
    event.timestampMs - last < windowMs S

/-- The evaluation of a change of a canary file. -/
def canaried (S : Setup) (e : DetectionEngine) (event : FileEvent) (assessment : Evaluation) :
    Evaluation × DetectionEngine :=
  let assessment := { assessment with score := max assessment.score 95, eligible := true }
  if !e.canaryCooldown S event && Number.le S.config.detectScore (.finite assessment.score) then
    ({ assessment with
        evidenceTruncated := assessment.evidenceTruncated || e.canaryFull S event
        alert := some (canaryAlert event assessment.score) },
      let room := e.canaryRoom S event
      { room with lastCanaryEmit := room.lastCanaryEmit.insert (canaryIdentity event) event.timestampMs })
  else (assessment, e)

/-- `DetectionEngine::evaluate`. -/
def evaluate (S : Setup) (e : DetectionEngine) (event : FileEvent) : Evaluation × DetectionEngine :=
  let r := e.scored S event
  if tampersCanary S.config event then r.2.canaried S event r.1 else r

/-- The engine after some events. -/
def after (S : Setup) (e : DetectionEngine) (events : List FileEvent) : DetectionEngine :=
  events.foldl (fun e event => (e.evaluate S event).2) e

/-- The evaluations of events, one after the other. -/
def evaluations (S : Setup) (e : DetectionEngine) : List FileEvent → List Evaluation
  | [] => []
  | event :: rest => (e.evaluate S event).1 :: evaluations S (e.evaluate S event).2 rest

theorem evaluations_append (S : Setup) (e : DetectionEngine) (a b : List FileEvent) :
    e.evaluations S (a ++ b) = e.evaluations S a ++ (e.after S a).evaluations S b := by
  induction a generalizing e with
  | nil => rfl
  | cons event rest ih =>
    show _ :: evaluations S _ (rest ++ b) = _
    rw [ih]
    rfl

theorem after_append (S : Setup) (e : DetectionEngine) (a b : List FileEvent) :
    e.after S (a ++ b) = (e.after S a).after S b :=
  List.foldl_append

end DetectionEngine

end Argos.Detect
