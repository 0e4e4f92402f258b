import Argos.Agent.EventStore
import Argos.Recovery.Incidents

/-!
# The retention loop

`run_retention` of `argos-agent/src/backup_worker.rs`: a thread reads the requests for retention
that are due, asks the backup store to keep what was good before each detection, path by path, and
then removes the request from the event store or notes the failure. The two databases have no common
transaction, and any number of such threads may work on the same databases, so every database step
is a step of its own here: between two of them another thread may come, an operator may use the
backup store, and the process may be stopped or killed.

A run is a script of events with their plans. What the statements need of the past is kept beside
the databases: the calls of `record_detection` that asked for retention and returned, the requests
that were counted as completed, and the successful calls of `pin_known_good_before` with the index
that each left.
-/

namespace Argos.Agent

open Argos.Lib
open Argos.Common
open Argos.Vault (bytesOf saturatingAdd)
open Argos.Recovery (i64Max Digest RecoveryError Index)

/-- What the agent takes from elsewhere: `serde_json`, SHA-256, and the text of an error, which is
in part that of the system. -/
structure Env where
  json : Json
  digest : Digest
  describe : RecoveryError → String

/-- Where a loop stands. -/
inductive Loop where
  /-- The jobs of the batch that are still to be taken up; an empty batch is followed by a new one.
  -/
  | batch (jobs : List RetentionJob)
  /-- A job with the paths that are still to be pinned, the last failure, and the rest of the batch.
  -/
  | working (job : RetentionJob) (paths : List String) (failure : Option String)
      (rest : List RetentionJob)
deriving DecidableEq

/-- The incident of a detection. -/
def incidentOf (detectionId : Nat) : String := "detection-" ++ toString detectionId

/-- The call of `pin_known_good_before` for a path of a job. -/
def pinCall (job : RetentionJob) (path : String) (clock : Nat → Nat) : Recovery.Call :=
  .pinKnownGoodBefore (bytesOf path) job.detection.timestampMs (incidentOf job.detectionId)
    "argos-agent" "탐지 이전 정상 복구 지점 자동 보존" clock

/-- When a failed job is due again. -/
def nextAttempt (job : RetentionJob) (nowMs : Nat) : Nat :=
  min (saturatingAdd nowMs (min (1000 * 2 ^ min job.attempts 6) 60000)) i64Max

/-- The last step of a job: it is removed, or its failure is noted. -/
def settle (job : RetentionJob) (failure : Option String) (nowMs : Nat) : Op Unit :=
  match failure with
  | some error => recordRetentionFailure job.detectionId error (nextAttempt job nowMs)
  | none => acknowledgeRetentionJob job.detectionId

/-- A step of one of the threads and processes. -/
inductive Event where
  | recordDetection (d : Detection) (agentId : Option String) (retain : Bool) (deliveryId : String)
      (nowMs : Nat)
  | insertDetectionWithOutbox (d : Detection) (agentId deliveryId : String) (nowMs : Nat)
  /-- Another process uses the backup store. -/
  | recovery (event : Recovery.Event)
  /-- A loop is started. -/
  | start
  /-- The `i`-th loop is stopped or killed. -/
  | leave (i : Nat)
  /-- The `i`-th loop reads a new batch. -/
  | poll (i nowMs : Nat)
  /-- The `i`-th loop takes its next step. -/
  | proceed (i : Nat) (clock : Nat → Nat) (nowMs : Nat)

/-- A call of `record_detection` that asked for retention and returned: the detection and its
number, and whether there was room for it in the queue. -/
structure Request where
  id : Nat
  detection : Detection
  queued : Bool
deriving DecidableEq

/-- A successful call of `pin_known_good_before`, and the index that it left. -/
structure Pinning where
  detectionId : Nat
  path : String
  beforeMs : Nat
  index : Index

/-- The two databases, the loops, and the past. -/
structure Sys where
  events : EventDb := {}
  recovery : Recovery.Sys := {}
  loops : List Loop := []
  requests : List Request := []
  completions : List Nat := []
  pinnings : List Pinning := []

section Runs

variable (E : Env)

/-- The loop after a path was tried. -/
def Loop.tried (job : RetentionJob) (paths : List String) (failure : Option String)
    (rest : List RetentionJob) : Outcome RecoveryError Recovery.Reply → Option Loop
  | .ok _ => some (.working job paths failure rest)
  | .error e => some (.working job paths (some (E.describe e)) rest)
  | .killed => none

/-- The loops after the `i`-th has taken a step, or is gone. -/
def Sys.moved (sys : Sys) (i : Nat) : Option Loop → List Loop
  | some loop => sys.loops.set i loop
  | none => sys.loops.eraseIdx i

/-- A path of a job is pinned. -/
def Sys.pinPath (sys : Sys) (i : Nat) (job : RetentionJob) (path : String) (paths : List String)
    (failure : Option String) (rest : List RetentionJob) (clock : Nat → Nat) (plan : Plan) : Sys :=
  let outcome := ((pinCall job path clock).prog E.digest plan sys.recovery.store).1
  let recovery := sys.recovery.next E.digest (.call (pinCall job path clock)) plan
  { sys with
    recovery := recovery
    loops := sys.moved i (Loop.tried E job paths failure rest outcome)
    pinnings := if outcome.isOk then
        sys.pinnings ++ [⟨job.detectionId, path, job.detection.timestampMs, recovery.store.index⟩]
      else sys.pinnings }

/-- A job is settled. An error is logged, and the loop goes on. -/
def Sys.settleJob (sys : Sys) (i : Nat) (job : RetentionJob) (failure : Option String)
    (rest : List RetentionJob) (nowMs : Nat) (plan : Plan) : Sys :=
  match settle job failure nowMs plan sys.events with
  | (outcome, _, events) =>
    { sys with
      events := events
      loops := sys.moved i (match outcome with
        | .killed => none
        | _ => some (.batch rest))
      completions :=
        if outcome.isOk ∧ failure = none ∧
            sys.events.retentionJobs.any (fun row => row.detectionId = job.detectionId) then
          sys.completions ++ [job.detectionId]
        else sys.completions }

/-- One step. An event that is not possible changes nothing. -/
def Sys.next (sys : Sys) : Event → Plan → Sys
  | .recordDetection d agentId retain deliveryId nowMs, plan =>
    match recordDetection E.json d agentId retain deliveryId nowMs plan sys.events with
    | (.ok id, _, events) =>
      { sys with
        events := events
        requests := if retain then
            sys.requests ++ [⟨id, d, sys.events.retentionJobs.length < retentionCapacity⟩]
          else sys.requests }
    | (_, _, events) => { sys with events := events }
  | .insertDetectionWithOutbox d agentId deliveryId nowMs, plan =>
    match insertDetectionWithOutbox E.json d agentId deliveryId nowMs plan sys.events with
    | (_, _, events) => { sys with events := events }
  | .recovery event, plan => { sys with recovery := sys.recovery.next E.digest event plan }
  | .start, _ => { sys with loops := sys.loops ++ [.batch []] }
  | .leave i, _ => { sys with loops := sys.loops.eraseIdx i }
  | .poll i nowMs, _ =>
    match sys.loops[i]? with
    | some (.batch []) =>
      match pendingRetentionJobs E.json sys.events nowMs 16 with
      | .ok jobs => { sys with loops := sys.loops.set i (.batch jobs) }
      | .error _ => sys
    | _ => sys
  | .proceed i clock nowMs, plan =>
    match sys.loops[i]? with
    | some (.batch (job :: rest)) =>
      { sys with loops := sys.loops.set i (.working job job.detection.paths none rest) }
    | some (.working job (path :: paths) failure rest) =>
      sys.pinPath E i job path paths failure rest clock plan
    | some (.working job [] failure rest) => sys.settleJob i job failure rest nowMs plan
    | _ => sys

/-- A script is played. -/
def Sys.play (sys : Sys) (script : List (Event × Plan)) : Sys :=
  script.foldl (fun sys step => sys.next E step.1 step.2) sys

variable {E}

theorem Sys.play_append (sys : Sys) (script script' : List (Event × Plan)) :
    sys.play E (script ++ script') = (sys.play E script).play E script' := List.foldl_append

/-- What one step keeps, every run keeps. -/
theorem Sys.play_induction {I : Sys → Prop} {sys : Sys} (hinit : I sys)
    (hstep : ∀ sys event plan, I sys → I (sys.next E event plan)) (script : List (Event × Plan)) :
    I (sys.play E script) := by
  induction script generalizing sys with
  | nil => exact hinit
  | cons step rest ih => exact ih (hstep sys step.1 step.2 hinit)

/-! ## What a step does -/

variable (E) in
/-- A loop as it stands after it has read a batch, or taken up the first job of its batch. -/
def Sys.Taken (sys : Sys) : Loop → Prop
  | .batch jobs => ∀ job ∈ jobs, ∃ row ∈ sys.events.retentionJobs, row.job E.json = .ok job
  | .working job paths failure rest =>
    .batch (job :: rest) ∈ sys.loops ∧ paths = job.detection.paths ∧ failure = none

variable (E) in
/-- What one step can do. -/
inductive Step (sys : Sys) : Sys → Prop where
  | same : Step sys sys
  | recorded {id : Nat} {d : Detection} {agentId : Option String} {retain : Bool}
      {deliveryId : String} {events : EventDb}
      (made : Recorded E.json sys.events events id d agentId retain deliveryId) :
      Step sys { sys with
        events := events
        requests := if retain then
            sys.requests ++ [⟨id, d, sys.events.retentionJobs.length < retentionCapacity⟩]
          else sys.requests }
  | recovery (event : Recovery.Event) (plan : Plan) :
      Step sys { sys with recovery := sys.recovery.next E.digest event plan }
  | loops {loops : List Loop} (moved : ∀ loop ∈ loops, loop ∈ sys.loops ∨ sys.Taken E loop) :
      Step sys { sys with loops := loops }
  | tried {i : Nat} {job : RetentionJob} {path : String} {paths : List String}
      {failure : Option String} {rest : List RetentionJob} (clock : Nat → Nat) (plan : Plan)
      (found : sys.loops[i]? = some (.working job (path :: paths) failure rest)) :
      Step sys (sys.pinPath E i job path paths failure rest clock plan)
  | settled {i : Nat} {job : RetentionJob} {failure : Option String} {rest : List RetentionJob}
      (nowMs : Nat) (plan : Plan) (found : sys.loops[i]? = some (.working job [] failure rest)) :
      Step sys (sys.settleJob i job failure rest nowMs plan)

/-- The jobs of a batch are those of rows. -/
theorem pendingRetentionJobs_rows {J : Json} {db : EventDb} {nowMs limit : Nat}
    {jobs : List RetentionJob} (h : pendingRetentionJobs J db nowMs limit = .ok jobs) :
    ∀ job ∈ jobs, ∃ row ∈ db.retentionJobs, row.job J = .ok job := by
  unfold pendingRetentionJobs at h
  rw [Prog.answer_bind_iff] at h
  obtain ⟨-, -, h⟩ := h
  intro job hjob
  obtain ⟨row, hrow, hread⟩ := Prog.answer_mapM_mem h job hjob
  have hsorted := (List.perm_insertionSort _ _).mem_iff.1 (List.mem_of_mem_take hrow)
  exact ⟨row, List.mem_of_mem_filter hsorted, hread⟩

theorem Sys.step (sys : Sys) (event : Event) (plan : Plan) :
    Step E sys (sys.next E event plan) := by
  cases event with
  | recordDetection d agentId retain deliveryId nowMs =>
    have hrun := (recordDetection_sat : (recordDetection E.json d agentId retain deliveryId
      nowMs).Sat sys.events _ _ _) plan
    rw [Sys.next]
    rcases hcall : recordDetection E.json d agentId retain deliveryId nowMs plan sys.events with
      ⟨outcome, plan', events⟩
    rw [hcall] at hrun
    cases outcome with
    | ok id => exact .recorded hrun
    | error e => rw [hrun]; exact .same
    | killed => rw [hrun]; exact .same
  | insertDetectionWithOutbox d agentId deliveryId nowMs =>
    have hrun := (insertDetectionWithOutbox_sat : (insertDetectionWithOutbox E.json d agentId
      deliveryId nowMs).Sat sys.events _ _ _) plan
    rw [Sys.next]
    rcases hcall : insertDetectionWithOutbox E.json d agentId deliveryId nowMs plan sys.events with
      ⟨outcome, plan', events⟩
    rw [hcall] at hrun
    cases outcome with
    | ok id =>
      obtain ⟨id, hmade⟩ := hrun
      exact .recorded hmade
    | error e => rw [hrun]; exact .same
    | killed => rw [hrun]; exact .same
  | recovery event => exact .recovery event plan
  | start =>
    refine .loops fun loop hloop => ?_
    rcases List.mem_append.1 hloop with hloop | hloop
    · exact .inl hloop
    · rw [List.mem_singleton.1 hloop]
      exact .inr (by simp [Sys.Taken])
  | leave i => exact .loops fun loop hloop => .inl (List.mem_of_mem_eraseIdx hloop)
  | poll i nowMs =>
    rw [Sys.next]
    split
    · split
      next jobs hjobs =>
        refine .loops fun loop hloop => ?_
        rcases List.mem_or_eq_of_mem_set hloop with hloop | rfl
        · exact .inl hloop
        · exact .inr (pendingRetentionJobs_rows hjobs)
      · exact .same
    · exact .same
  | proceed i clock nowMs =>
    rw [Sys.next]
    split
    next job rest hfound =>
      refine .loops fun loop hloop => ?_
      rcases List.mem_or_eq_of_mem_set hloop with hloop | rfl
      · exact .inl hloop
      · exact .inr ⟨List.mem_of_getElem? hfound, rfl, rfl⟩
    next hfound => exact .tried clock plan hfound
    next hfound => exact .settled nowMs plan hfound
    · exact .same

end Runs

end Argos.Agent
