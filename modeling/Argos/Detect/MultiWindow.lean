import Argos.Detect.Scorer

/-!
# Groups of processes over several windows

`argos-detect/src/multi_window.rs`: the events of the longest window are kept in a queue, and for each
group that an event belongs to (its process, its user, its ancestors, a protected path) the events of
the group. The windows of a group are cut out of its events. Only the group of the process itself
counts for a block (`instanceScore`); the others only raise alerts.
-/

namespace Argos.Detect

open Argos.Common
open Argos.Lib
open Argos.Vault (saturatingAdd)

/-! ## Groups -/

/-- A process: its pid, start and boot. -/
abbrev Instance := Nat × Nat × String

/-- `Group`. -/
inductive Group where
  | instance (process : Instance)
  | user (uid : Nat) (boot path : String)
  | protectedPath (boot path : String)
  | ancestor (process : Instance) (path : String)
deriving DecidableEq, Repr

namespace Group

/-- `Group::rule`. -/
def rule : Group → String
  | .instance _ => instanceRule
  | .user _ _ _ => userRule
  | .protectedPath _ _ => pathRule
  | .ancestor _ _ => ancestorRule

/-- A process as it is printed. -/
def instanceLabel (process : Instance) : String :=
  toString process.1 ++ "/" ++ toString process.2.1 ++ "/" ++ process.2.2

/-- `Group::label`. -/
def label : Group → String
  | .instance process => "process=" ++ instanceLabel process
  | .user uid boot path => "effective_uid=" ++ toString uid ++ ", boot=" ++ boot ++ ", path=" ++ path
  | .protectedPath boot path => "boot=" ++ boot ++ ", protected_path=" ++ path
  | .ancestor process path => "ancestor=" ++ instanceLabel process ++ ", path=" ++ path

/-- A text as the numbers of its characters; they are ordered as its bytes are. -/
def codes (text : String) : List Nat := text.toList.map Char.toNat

/-- The derived order: by the kind of the group, then by its fields. -/
def rank : Group → List (List Nat)
  | .instance process => [[0], [process.1], [process.2.1], codes process.2.2]
  | .user uid boot path => [[1], [uid], codes boot, codes path]
  | .protectedPath boot path => [[2], codes boot, codes path]
  | .ancestor process path =>
    [[3], [process.1], [process.2.1], codes process.2.2, codes path]

/-- Whether a group is the process itself. -/
def isInstance : Group → Bool
  | .instance _ => true
  | _ => false

end Group

/-- The context of an event that names its process. -/
def contextOf (event : FileEvent) : Option FileProcessContext :=
  event.process.filter fun p =>
    event.pid ≠ 0 && 0 < p.startTimeTicks && !p.bootId.isEmpty && p.bootId.utf8ByteSize ≤ 128

/-- The process of an event. -/
def instanceOf (event : FileEvent) : Option Instance :=
  (contextOf event).map fun p => (event.pid, p.startTimeTicks, p.bootId)

/-- The protected path that an event is under; the last of the deepest. -/
def rootOf (config : MultiWindowConfig) (event : FileEvent) : Option String :=
  ((config.protectedPaths.filter fun root => startsWith event.path root).reverse.argmax
    fun root => (components root).length)

/-- The groups of the ancestors of a process. -/
def ancestorGroups (context : FileProcessContext) (boot root : String) : List Group :=
  ((context.ancestors.take 4).filter fun a =>
    a.pid ≠ 0 && a.startTimeTicks ≠ 0 && a.bootId = boot && a.pid ≠ 1).map fun a =>
      .ancestor (a.pid, a.startTimeTicks, a.bootId) root

/-- The groups of an event under a protected path. -/
def rootGroups (config : MultiWindowConfig) (event : FileEvent) (root : String) : List Group :=
  match contextOf event with
  | none => [.protectedPath "unidentified" root]
  | some p =>
    [.protectedPath p.bootId root] ++
    (if config.aggregateByUser then [.user p.uid p.bootId root] else []) ++
    (if config.aggregateByAncestry then ancestorGroups p p.bootId root else [])

/-- `MultiWindowScorer::group_keys`. -/
def groupKeys (config : MultiWindowConfig) (event : FileEvent) : List Group :=
  ((((instanceOf event).map Group.instance).toList ++
    (rootOf config event).elim [] (rootGroups config event)).dedup).insertionSort
      fun a b => a.rank ≤ b.rank

/-! ## The state -/

/-- `Observation`. -/
structure Observation where
  sequence : Nat
  timestampMs : Nat
  path : String
  pid : Nat
  process : Option Instance
  action : FileAction
  encrypted : Bool
  groups : List Group
deriving DecidableEq, Repr

/-- `GroupState`. -/
structure GroupState where
  events : List Observation := []
  lastEmit : Map Nat (Nat × ℚ) := ∅

/-- `MultiOutcome`. -/
structure MultiOutcome where
  alerts : List Detection := []
  instanceScore : Option ℚ := none
  truncated : Bool := false
  approvalApplied : Bool := false
deriving DecidableEq, Repr

/-- `MultiWindowScorer`, its settings apart. -/
structure MultiWindowScorer where
  events : List Observation := []
  groups : Map Group GroupState := ∅
  sequence : Nat := 0
  watermark : Nat := 0
  incompleteUntil : Option Nat := none

/-- `horizon_ms`: the length of the longest window. -/
def horizonMs (S : Setup) : Nat :=
  ((S.config.multiWindow.windows.map fun w => millis w.windowSecs).max?).getD 0

/-- The actions that are evidence. -/
def countedAction : FileAction → Bool
  | .modify | .create | .delete | .rename => true
  | .chmod | .chown => false

namespace MultiWindowScorer

/-- `truncate`. -/
def truncate (S : Setup) (m : MultiWindowScorer) (now : Nat) : MultiWindowScorer :=
  { m with incompleteUntil := some (saturatingAdd now (horizonMs S)) }

/-- An event leaves one of its groups; a group without events goes. -/
def leaveGroup (old : Observation) (groups : Map Group GroupState) (group : Group) :
    Map Group GroupState :=
  match groups.lookup group with
  | none => groups
  | some state =>
    let events := if state.events.head?.any fun e => e.sequence = old.sequence then state.events.tail
      else state.events
    if events = [] then groups.erase group else groups.insert group { state with events := events }

/-- `expire_front`. -/
def expireFront (m : MultiWindowScorer) : MultiWindowScorer :=
  match m.events with
  | [] => m
  | old :: rest => { m with events := rest, groups := old.groups.foldl (leaveGroup old) m.groups }

/-- The events before a horizon leave, from the front; `n` is the number of events. -/
def expireBefore (horizon : Nat) : Nat → MultiWindowScorer → MultiWindowScorer
  | 0, m => m
  | n + 1, m =>
    if m.events.head?.any fun e => e.timestampMs < horizon then expireBefore horizon n m.expireFront
    else m

/-- The time moves on, and what is too old goes. -/
def advanced (S : Setup) (m : MultiWindowScorer) (event : FileEvent) : MultiWindowScorer :=
  let now := max m.watermark event.timestampMs
  expireBefore (now - horizonMs S) m.events.length { m with watermark := now }

/-- Room for a new event. -/
def makeRoom (S : Setup) (m : MultiWindowScorer) : MultiWindowScorer :=
  if maxEvents S ≤ m.events.length then
    expireFront^[m.events.length + 1 - maxEvents S] (m.truncate S m.watermark)
  else m

/-- The group whose last event is the oldest. -/
def oldestGroup (m : MultiWindowScorer) : Option Group :=
  leastKey (fun group state =>
    toLex ((state.events.getLast?.map (·.timestampMs)).getD 0, group.rank)) m.groups

/-- Room for a new group. -/
def makeGroup (S : Setup) (m : MultiWindowScorer) (group : Group) : MultiWindowScorer :=
  if group ∉ m.groups ∧ maxGroups S ≤ m.groups.entries.length then
    m.oldestGroup.elim m fun oldest => { m with groups := m.groups.erase oldest }.truncate S m.watermark
  else m

/-- An event enters one of its groups. -/
def joinGroup (S : Setup) (entry : Observation) (m : MultiWindowScorer) (group : Group) :
    MultiWindowScorer :=
  let m := m.makeGroup S group
  let state := (m.groups.lookup group).getD {}
  { m with groups := m.groups.insert group { state with events := state.events ++ [entry] } }

/-- The observation of an event. -/
def observation (S : Setup) (m : MultiWindowScorer) (event : FileEvent) (included : List Group) :
    Observation where
  sequence := saturatingAdd m.sequence 1
  timestampMs := m.watermark
  path := event.path
  pid := event.pid
  process := instanceOf event
  action := event.action
  encrypted := encryptionSignal S.config event
  groups := included

/-- The event is kept, if it is evidence for a group. -/
def inserted (S : Setup) (m : MultiWindowScorer) (event : FileEvent) (included : List Group) :
    MultiWindowScorer :=
  if included ≠ [] ∧ countedAction event.action then
    let m := m.makeRoom S
    let entry := m.observation S event included
    let m := included.foldl (joinGroup S entry) { m with sequence := entry.sequence }
    { m with events := m.events ++ [entry] }
  else m

/-- Evidence was lost that would not have expired. -/
def lacking (m : MultiWindowScorer) : Bool := m.incompleteUntil.any fun last => m.watermark ≤ last

end MultiWindowScorer

/-! ## The windows of a group -/

/-- The events of a window. -/
def selected (now window : Nat) (events : List Observation) : List Observation :=
  events.filter fun e => now - window ≤ e.timestampMs

/-- The score of the events of a window. Without events the ratios of the source are not numbers, and
the minimum with 100 is 100; a valid window has events when it is scored. -/
def selectedScore (S : Setup) (window : DetectionWindow) (events : List Observation) : ℚ :=
  if events = [] then 100 else
  let paths := (distinct (events.map (·.path))).length
  let high := (distinct ((events.filter fun e => e.action = .modify ∧ e.encrypted).map
    (·.path))).length
  let churned := (events.filter fun e => e.action = .delete ∨ e.action = .rename).length
  let mass := min ((paths : ℚ) / (max window.massChangeThreshold 1 : Nat)) 1 * 40
  let entropy := (high : ℚ) / paths * entropyWeight S.sensor
  let churn := if S.sensor = .notify then (churned : ℚ) / events.length * 25 else 0
  min (mass + entropy + churn) 100

/-- The pid of an alert: of the process itself, and `0` for the other groups. -/
def alertPid : Group → Nat
  | .instance process => process.1
  | _ => 0

/-- A list of texts as it is printed. -/
def listText (texts : List String) : String := "[" ++ ", ".intercalate texts ++ "]"

/-- The alert for a window of a group. -/
def groupAlert (S : Setup) (now : Nat) (truncated : Bool) (group : Group) (window : DetectionWindow)
    (events : List Observation) : Detection :=
  let paths := (distinct (events.map (·.path))).insertionSort (· ≤ ·)
  let pids := ((events.map (·.pid)).dedup).insertionSort (· ≤ ·)
  let processes := ((events.filterMap (·.process)).dedup).insertionSort fun a b =>
    (Group.instance a).rank ≤ (Group.instance b).rank
  { timestampMs := now
    rule := group.rule
    score := .finite (selectedScore S window events)
    severity := severityOf (selectedScore S window events)
    summary := toString window.windowSecs ++ "초 집계 [" ++ group.label ++ "]: 파일 " ++
      toString paths.length ++ "개, PID " ++ listText ((pids.take 20).map toString) ++ ", 신원 " ++
      listText (((processes.take 20).map Group.instanceLabel).map S.debug) ++ ", 증거 제한=" ++
      toString (truncated || pids.length > 20 || processes.length > 20) ++ ", 집계 자동 차단=" ++
      (if alertPid group = 0 then "금지" else "개별 정책 평가")
    pid := alertPid group
    paths := paths.take 20 }

/-- One window of a group: its score counts for the process itself, and an alert is raised unless the
group is quiet. -/
def windowOutcome (S : Setup) (now : Nat) (truncated : Bool) (group : Group)
    (events : List Observation) (acc : MultiOutcome × Map Nat (Nat × ℚ)) (window : DetectionWindow) :
    MultiOutcome × Map Nat (Nat × ℚ) :=
  let chosen := selected now (millis window.windowSecs) events
  if (distinct (chosen.map (·.path))).length < window.minChangedFiles then acc
  else
    let score := selectedScore S window chosen
    let outcome := if group.isInstance && !truncated then
        { acc.1 with instanceScore := some (acc.1.instanceScore.elim score fun old => max old score) }
      else acc.1
    if Number.lt (.finite score) window.detectScore ||
        (acc.2.lookup window.windowSecs).any (fun last =>
          now - last.1 < millis window.windowSecs && score < last.2 + 15) then (outcome, acc.2)
    else
      ({ outcome with alerts := outcome.alerts ++ [groupAlert S now truncated group window chosen] },
        acc.2.insert window.windowSecs (now, score))

/-- The windows of a group. -/
def groupOutcome (S : Setup) (now : Nat) (truncated : Bool)
    (acc : MultiOutcome × Map Group GroupState) (group : Group) : MultiOutcome × Map Group GroupState :=
  match acc.2.lookup group with
  | none => acc
  | some state =>
    let r := (S.config.multiWindow.windows.take 8).foldl
      (windowOutcome S now truncated group state.events) (acc.1, state.lastEmit)
    (r.1, acc.2.insert group { state with lastEmit := r.2 })

/-- The keys whose rules are not adjusted. -/
def includedKeys (config : MultiWindowConfig) (event : FileEvent) (adjustedRules : List String) :
    List Group :=
  (groupKeys config event).filter fun key => !adjustedRules.contains key.rule

/-- An event that is late, or whose path cannot be kept. -/
def unsupported (S : Setup) (m : MultiWindowScorer) (event : FileEvent) : Bool :=
  event.timestampMs < m.watermark || event.path.utf8ByteSize > S.config.multiWindow.maxPathBytes ||
    !absoluteCleanPath event.path

/-- `MultiWindowScorer::evaluate`. -/
def MultiWindowScorer.evaluate (S : Setup) (m : MultiWindowScorer) (event : FileEvent)
    (adjustedRules : List String) : MultiOutcome × MultiWindowScorer :=
  if !S.config.multiWindow.enabled then ({}, m)
  else
    let m := m.advanced S event
    if unsupported S m event then ({ truncated := true }, m.truncate S m.watermark)
    else
      let keys := groupKeys S.config.multiWindow event
      let included := includedKeys S.config.multiWindow event adjustedRules
      let m := m.inserted S event included
      let r := keys.foldl (groupOutcome S m.watermark m.lacking)
        ({ truncated := m.lacking, approvalApplied := included.length < keys.length }, m.groups)
      (r.1, { m with groups := r.2 })

end Argos.Detect
