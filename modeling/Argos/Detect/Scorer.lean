import Argos.Detect.Configuration
import Argos.Lib.Maps
import Mathlib.Data.List.Sort
import Mathlib.Data.Prod.Lex
import Mathlib.Data.String.Basic

/-!
# The behaviour of a process

`argos-detect/src/scorer.rs`: a window of the last events of every process, and a score of it. The
state of the scorer is bounded: when there are too many processes or too many events, the oldest go,
and until they would have expired the scorer knows that its windows are not complete. A step is cut
into the parts of the source: what is too old goes (`retained`), then what is too much (`evictGroup`,
`evictEvents`), then the event enters its window (`entered`).
-/

namespace Argos.Detect

open Argos.Common
open Argos.Lib
open Argos.Vault (saturatingAdd)

/-- The settings of an engine. `debug` is how the standard library prints a text between quotes. -/
structure Setup where
  config : DetectionConfig
  sensor : SensorKind
  debug : String → String

/-- Seconds in milliseconds, `saturating_mul(1000)`. -/
def millis (secs : Nat) : Nat := min (secs * 1000) u64Max

/-! ## Signs of encryption -/

/-- A sample that cannot have been taken of the content. -/
def sampleWrong (content : ContentEvidence) (sample : ContentSample) : Bool :=
  sample.length = 0 || sample.offset + sample.length > u64Max ||
    sample.offset + sample.length > content.fileSize || !sample.entropy.isFinite ||
    !Number.inRange 0 8 sample.entropy

/-- Evidence of a content that does not fit together. -/
def contentWrong (content : ContentEvidence) : Bool :=
  content.samples.isEmpty || content.samples.length > 3 || content.budgetBytes > maxSampleBytes ||
    content.sampledBytes > content.budgetBytes ||
    content.samples.any (fun sample => sample.length > content.budgetBytes) ||
    (content.samples.map (·.length)).sum ≠ content.sampledBytes ||
    content.samples.any (sampleWrong content)

/-- File types whose entropy is high without encryption. -/
def denseTypes : List String :=
  ["zip", "gzip", "xz", "zstd", "bzip2", "7z", "rar", "png", "jpeg", "webp", "mp4", "pdf", "executable"]

/-- The entropy has grown since the content was observed before. -/
def comparable (config : DetectionConfig) (content : ContentEvidence) : Bool :=
  content.previousObservedAtMs.any (fun before => before < content.observedAtMs) &&
    content.maxEntropyIncrease.any fun delta => delta.isFinite && Number.lt (.finite 0) delta &&
      Number.le delta (.finite 8) && Number.le config.contentSampling.minEntropyIncrease delta

/-- `encryption_signal`. -/
def encryptionSignal (config : DetectionConfig) (event : FileEvent) : Bool :=
  match event.content.filter fun _ => config.contentSampling.enabled with
  | some content =>
    !contentWrong content &&
      content.samples.any (fun sample => Number.le config.entropyThreshold sample.entropy) &&
      (comparable config content ||
        !denseTypes.contains content.fileType && content.previousObservedAtMs.isNone)
  | none =>
    0 < config.entropySampleBytes && event.entropy.any fun value =>
      value.isFinite && Number.le config.entropyThreshold value && Number.le value (.finite 8)

/-! ## Windows -/

/-- `WindowEntry`. -/
structure WindowEntry where
  timestampMs : Nat
  path : String
  action : FileAction
  encryptionSignal : Bool
deriving DecidableEq, Repr

/-- The entry of an event. -/
def entryOf (config : DetectionConfig) (event : FileEvent) : WindowEntry :=
  ⟨event.timestampMs, event.path, event.action, encryptionSignal config event⟩

/-- What tells the processes with one pid apart: the start and the boot. -/
abbrev Identity := Option (Nat × String)

/-- The identity of the process of an event. -/
def identityOf (event : FileEvent) : Identity :=
  event.process.map fun p => (p.startTimeTicks, p.bootId)

/-- `BehaviorScorer`, its settings apart. -/
structure BehaviorScorer where
  windows : Map Nat (List WindowEntry) := ∅
  lastEmit : Map Nat (Nat × ℚ) := ∅
  identities : Map Nat Identity := ∅
  incompleteUntil : Option Nat := none

/-- The distinct values of a list, as many as a set of them has. -/
def distinct (paths : List String) : List String := paths.dedup

/-- The weight of the signs of encryption, which depends on what the sensor reports. -/
def entropyWeight : SensorKind → ℚ
  | .notify => 35
  | .fanotify => 60

/-- `BehaviorScorer::score`. -/
def windowScore (S : Setup) (window : List WindowEntry) : ℚ :=
  let paths := (distinct (window.map (·.path))).length
  let churned := (window.filter fun e => e.action = .rename).length +
    (window.filter fun e => e.action = .delete).length
  let high := (distinct ((window.filter fun e => e.action = .modify ∧ e.encryptionSignal).map
    (·.path))).length
  let mass := min ((paths : ℚ) / (max S.config.massChangeThreshold 1 : Nat)) 1 * 40
  let enc := if paths = 0 then 0 else (high : ℚ) / paths * entropyWeight S.sensor
  let churn := if window = [] ∨ S.sensor = .fanotify then 0
    else min ((churned : ℚ) / window.length) 1 * 25
  min (mass + enc + churn) 100

/-- `BehaviorScorer::severity`. -/
def severityOf (score : ℚ) : Severity :=
  if 85 ≤ score then .critical else if 65 ≤ score then .high else if 40 ≤ score then .medium else .low

/-! ## Bounds -/

/-- `max_groups`, within its bounds. -/
def maxGroups (S : Setup) : Nat := max 1 (min S.config.multiWindow.maxGroups 16384)

/-- `max_events`, within its bounds. -/
def maxEvents (S : Setup) : Nat := max 1 (min S.config.multiWindow.maxEvents 100000)

/-- The length of the window. -/
def windowMs (S : Setup) : Nat := millis S.config.windowSecs

/-- What is left of a window at a horizon; an empty window goes. -/
def unexpired (horizon : Nat) (window : List WindowEntry) : Option (List WindowEntry) :=
  if window.filter (fun e => horizon ≤ e.timestampMs) = [] then none
  else some (window.filter fun e => horizon ≤ e.timestampMs)

namespace BehaviorScorer

/-- What is older than the window goes, and what is known of processes without a window. -/
def retained (S : Setup) (s : BehaviorScorer) (now : Nat) : BehaviorScorer :=
  let windows := retain (fun _ => unexpired (now - windowMs S)) s.windows
  { s with
    windows := windows
    lastEmit := retain (fun pid last => if pid ∈ windows then some last else none) s.lastEmit
    identities := retain (fun pid known => if pid ∈ windows then some known else none) s.identities }

/-- The windows are not complete until what is lost now would have expired. -/
def incomplete (S : Setup) (s : BehaviorScorer) (now : Nat) : BehaviorScorer :=
  { s with incompleteUntil := some (saturatingAdd now (windowMs S)) }

/-- A process is forgotten. -/
def forget (s : BehaviorScorer) (pid : Nat) : BehaviorScorer :=
  { s with
    windows := s.windows.erase pid
    lastEmit := s.lastEmit.erase pid
    identities := s.identities.erase pid }

/-- The process whose last event is the oldest. -/
def oldestGroup (s : BehaviorScorer) : Option Nat :=
  leastKey (fun pid window => toLex ((window.getLast?.map (·.timestampMs)).getD 0, pid)) s.windows

/-- Room for a new process. -/
def evictGroup (S : Setup) (s : BehaviorScorer) (event : FileEvent) : BehaviorScorer :=
  if event.pid ∉ s.windows ∧ maxGroups S ≤ s.windows.entries.length then
    incomplete S (s.oldestGroup.elim s s.forget) event.timestampMs
  else s

/-- The process with the oldest event. -/
def oldestEvent (s : BehaviorScorer) : Option Nat :=
  leastKey (fun pid window => toLex ((window.head?.map (·.timestampMs)).getD 0, pid))
    (retain (fun _ window => if window = [] then none else some window) s.windows)

/-- The oldest event goes. -/
def popOldest (s : BehaviorScorer) : BehaviorScorer :=
  s.oldestEvent.elim s fun pid =>
    { s with windows := s.windows.insert pid ((s.windows.lookup pid).getD []).tail }

/-- Room for a new event; the source counts down from the number of events. -/
def evictEvents (S : Setup) (s : BehaviorScorer) (now : Nat) : BehaviorScorer :=
  if maxEvents S ≤ sumOver List.length s.windows then
    incomplete S (popOldest^[sumOver List.length s.windows + 1 - maxEvents S] s) now
  else s

/-- The state in which an event finds the scorer. -/
def prepared (S : Setup) (s : BehaviorScorer) (event : FileEvent) : BehaviorScorer :=
  evictEvents S (evictGroup S (retained S s event.timestampMs) event) event.timestampMs

/-- Another process has the pid now. -/
def replaced (s : BehaviorScorer) (event : FileEvent) : BehaviorScorer :=
  if (s.identities.lookup event.pid).any (· ≠ identityOf event) then
    { s with windows := s.windows.erase event.pid, lastEmit := s.lastEmit.erase event.pid }
  else s

/-- The window of a process with an event, unless the event is approved. -/
def windowWith (S : Setup) (s : BehaviorScorer) (event : FileEvent) (approved : Option String) :
    List WindowEntry :=
  ((s.windows.lookup event.pid).getD [] ++
    if approved.isNone then [entryOf S.config event] else []).dropWhile fun e =>
      e.timestampMs < event.timestampMs - windowMs S

/-- The event enters its window. -/
def entered (S : Setup) (s : BehaviorScorer) (event : FileEvent) (approved : Option String) :
    BehaviorScorer :=
  { s with
    windows := s.windows.insert event.pid (windowWith S s event approved)
    identities := s.identities.insert event.pid (identityOf event) }

/-- Evidence was lost that would not have expired. -/
def lacking (s : BehaviorScorer) (now : Nat) : Bool := s.incompleteUntil.any fun last => now ≤ last

end BehaviorScorer

/-- An event that is not kept for the length of its texts. -/
def tooLong (S : Setup) (event : FileEvent) : Bool :=
  event.path.utf8ByteSize > S.config.multiWindow.maxPathBytes ||
    event.process.any fun p => p.bootId.utf8ByteSize > 128

/-! ## Evaluations -/

/-- `Evaluation`. -/
structure Evaluation where
  score : ℚ
  pid : Nat
  eligible : Bool
  alert : Option Detection
  approvedChangeId : Option String
  additionalAlerts : List Detection
  evidenceTruncated : Bool
deriving DecidableEq, Repr

/-- `Evaluation::block_candidate`. -/
def Evaluation.blockCandidate (e : Evaluation) (response : ResponseConfig) : Bool :=
  e.eligible && e.pid ≠ 0 && Number.le response.blockScore (.finite e.score)

/-- `Evaluation::should_block`. -/
def Evaluation.shouldBlock (e : Evaluation) (response : ResponseConfig) : Bool :=
  response.autoBlock && e.blockCandidate response

/-- `{:.0}`: the nearest integer, the even one of two. -/
def rounded (q : ℚ) : Int :=
  if q - q.floor < 1 / 2 then q.floor
  else if 1 / 2 < q - q.floor then q.floor + 1
  else if q.floor % 2 = 0 then q.floor else q.floor + 1

/-- The alert for a window. -/
def behaviorAlert (S : Setup) (event : FileEvent) (window : List WindowEntry) : Detection where
  timestampMs := event.timestampMs
  rule := behaviorRule
  score := .finite (windowScore S window)
  severity := severityOf (windowScore S window)
  summary := toString S.config.windowSecs ++ "초 내 파일 " ++
    toString (distinct (window.map (·.path))).length ++ "개 변경 (이벤트 " ++ toString window.length ++
    "건, 위험 점수 " ++ toString (rounded (windowScore S window)) ++ ")"
  pid := event.pid
  paths := ((distinct (window.map (·.path))).insertionSort (· ≤ ·)).take 20

namespace BehaviorScorer

/-- The evaluation of a window before alerts. -/
def assessed (S : Setup) (s : BehaviorScorer) (event : FileEvent) (approved : Option String)
    (window : List WindowEntry) : Evaluation where
  score := windowScore S window
  pid := event.pid
  eligible := S.config.minChangedFiles ≤ (distinct (window.map (·.path))).length &&
    !s.lacking event.timestampMs
  alert := none
  approvedChangeId := approved
  additionalAlerts := []
  evidenceTruncated := s.lacking event.timestampMs

/-- An alert is not repeated within a window, unless the score has risen. -/
def quiet (S : Setup) (s : BehaviorScorer) (event : FileEvent) (score : ℚ) : Bool :=
  (s.lastEmit.lookup event.pid).any fun last =>
    event.timestampMs - last.1 < windowMs S && score < last.2 + 15

/-- The evaluation of a window with its alert. -/
def alerted (S : Setup) (s : BehaviorScorer) (event : FileEvent) (approved : Option String)
    (window : List WindowEntry) : Evaluation × BehaviorScorer :=
  let evaluation := s.assessed S event approved window
  if !evaluation.eligible || Number.lt (.finite evaluation.score) S.config.detectScore ||
      s.quiet S event evaluation.score then (evaluation, s)
  else
    ({ evaluation with alert := some (behaviorAlert S event window) },
      { s with lastEmit := s.lastEmit.insert event.pid (event.timestampMs, evaluation.score) })

/-- The evaluation of an event that is not kept. -/
def refusedEvaluation (event : FileEvent) (approved : Option String) : Evaluation where
  score := 0
  pid := event.pid
  eligible := false
  alert := none
  approvedChangeId := approved
  additionalAlerts := []
  evidenceTruncated := true

/-- `BehaviorScorer::evaluate_with_approval`. -/
def evaluateWithApproval (S : Setup) (s : BehaviorScorer) (event : FileEvent)
    (approved : Option String) : Evaluation × BehaviorScorer :=
  let s := s.prepared S event
  if tooLong S event then (refusedEvaluation event approved, s)
  else
    let s := s.replaced event
    (s.entered S event approved).alerted S event approved (s.windowWith S event approved)

end BehaviorScorer

end Argos.Detect
