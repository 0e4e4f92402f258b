import Argos.Queue.Jobs

/-!
# Runs of a queue

Several processes work on one queue. Whatever holds the lock runs alone, from its first step to its
last or to where it is killed; the unlocked part of `enqueue_bundle` takes one read at a time, between
the steps of the others. A lease is kept by the worker that got it, and may be finished at any time,
with any answer of the server, any number of times. The order in which a directory lists its files is
not fixed, so it may change at any time. A run is a script: the events with their plans, in the order
in which they happen. The calls that have ended are kept with their outcomes in a log.
-/

namespace Argos.Queue

open Argos.Lib
open Argos.Vault (Bytes Error SignedReceipt BundleRecord)

/-- Where a call of `enqueue_bundle` is: the copies of its chunks, or none when the bundle was
registered at the first, and what is left to read. -/
structure Stage where
  bundle : Bundle
  spool : Option (List (String × Bytes))
  task : Task Disk Error Checked

/-- A step of one of the processes. -/
inductive Event where
  | enqueue (config : VaultConfig) (source : Option Bytes) (kind : String) (limits : QueueLimits)
      (readings : EnqueueReadings)
  | claim (target : QueueTarget) (timeoutSecs now clock : Nat) (token : Option RandomId)
  /-- The `i`-th lease is finished. -/
  | finish (i : Nat) (target : QueueTarget) (result : Except String SignedReceipt)
      (now clock : Nat)
  | claimJob (target : QueueTarget) (timeoutSecs now clock : Nat) (token : Option RandomId)
  /-- The `i`-th lease of a job is finished. -/
  | finishJob (i : Nat) (target : QueueTarget) (result : Except String BundleRecord)
      (now clock : Nat)
  /-- A call of `enqueue_bundle` begins. -/
  | beginBundle (request : BundleRequest) (draw : String → Option RandomId)
  /-- The `i`-th of the calls that are registering a bundle takes its next step. -/
  | proceed (i : Nat) (readings : BundleReadings)
  /-- The `i`-th of the calls that are registering a bundle fails or is killed outside the lock. -/
  | abort (i : Nat) (error : Option Error)
  /-- The directory lists its files in another order. -/
  | reorder (files : Objects)

/-- A call that has ended. -/
inductive Done where
  | enqueue (source : Option Bytes) (kind : String) (outcome : Outcome Error QueueItem)
  | claim (outcome : Outcome Error (Option Lease))
  | finish (lease : Lease) (result : Except String SignedReceipt) (outcome : Outcome Error Bool)
  | claimJob (outcome : Outcome Error (Option JobLease))
  | finishJob (lease : JobLease) (result : Except String BundleRecord)
      (outcome : Outcome Error Bool)
  | bundle (bundle : Bundle) (outcome : Outcome Error BundleJob)

/-- The directory, the leases that were given out, the calls that are registering a bundle, and the
calls that have ended. -/
structure Sys where
  disk : Disk := {}
  leases : List Lease := []
  jobLeases : List JobLease := []
  stages : List Stage := []
  log : List Done := []

section Runs

variable (F : Formats)

/-- The calls that are registering a bundle after the `i`-th has ended. -/
def Sys.ended (sys : Sys) (i : Nat) (disk : Disk) (bundle : Bundle)
    (outcome : Outcome Error BundleJob) : Sys :=
  { sys with
    disk := disk
    stages := sys.stages.eraseIdx i
    log := sys.log ++ [.bundle bundle outcome] }

/-- A call of `enqueue_bundle` after its first part. -/
def Sys.begun (sys : Sys) (request : BundleRequest) (bundle : Bundle) (registered : Bool)
    (disk : Disk) : Sys :=
  if registered then
    { sys with
      disk := disk
      stages := sys.stages ++
        [⟨bundle, none, verifyPendingSnapshots F bundle.chunks bundle.target⟩] }
  else
    match spoolBundle F bundle.manifest request.chunks with
    | .error e => { sys with disk := disk, log := sys.log ++ [.bundle bundle (.error e)] }
    | .ok spool =>
      { sys with
        disk := disk
        stages := sys.stages ++
          [⟨bundle, some spool, verifyPendingSnapshots F bundle.chunks bundle.target⟩] }

/-- The last part of `enqueue_bundle`. -/
def Stage.finish (stage : Stage) (checked : Checked) (readings : BundleReadings) : Op BundleJob :=
  match stage.spool with
  | none => confirmBundle F stage.bundle checked
  | some spool => commitBundle F stage.bundle spool checked readings

/-- One step. An event that is not possible changes nothing. -/
def Sys.next (sys : Sys) : Event → Plan → Sys
  | .enqueue config source kind limits readings, plan =>
    match enqueue F config source kind limits readings plan sys.disk with
    | (outcome, _, disk) =>
      { sys with disk := disk, log := sys.log ++ [.enqueue source kind outcome] }
  | .claim target timeoutSecs now clock token, plan =>
    match claim F target timeoutSecs now clock token plan sys.disk with
    | (outcome, _, disk) =>
      { sys with
        disk := disk
        leases := match outcome with
          | .ok (some lease) => sys.leases ++ [lease]
          | _ => sys.leases
        log := sys.log ++ [.claim outcome] }
  | .finish i target result now clock, plan =>
    match sys.leases[i]? with
    | none => sys
    | some lease =>
      match finish F target lease result now clock plan sys.disk with
      | (outcome, _, disk) =>
        { sys with disk := disk, log := sys.log ++ [.finish lease result outcome] }
  | .claimJob target timeoutSecs now clock token, plan =>
    match claimJob F target timeoutSecs now clock token plan sys.disk with
    | (outcome, _, disk) =>
      { sys with
        disk := disk
        jobLeases := match outcome with
          | .ok (some lease) => sys.jobLeases ++ [lease]
          | _ => sys.jobLeases
        log := sys.log ++ [.claimJob outcome] }
  | .finishJob i target result now clock, plan =>
    match sys.jobLeases[i]? with
    | none => sys
    | some lease =>
      match finishJob F target lease result now clock plan sys.disk with
      | (outcome, _, disk) =>
        { sys with disk := disk, log := sys.log ++ [.finishJob lease result outcome] }
  | .beginBundle request draw, plan =>
    match request.check F with
    | .error _ => sys
    | .ok bundle =>
      match beginBundle F bundle draw plan sys.disk with
      | (.ok registered, _, disk) => sys.begun F request bundle registered disk
      | (.error e, _, disk) =>
        { sys with disk := disk, log := sys.log ++ [.bundle bundle (.error e)] }
      | (.killed, _, disk) =>
        { sys with disk := disk, log := sys.log ++ [.bundle bundle .killed] }
  | .proceed i readings, plan =>
    match sys.stages[i]? with
    | none => sys
    | some stage =>
      match stage.task with
      | .read next => { sys with stages := sys.stages.set i { stage with task := next sys.disk } }
      | .done (.error e) => sys.ended i sys.disk stage.bundle (.error e)
      | .done (.ok checked) =>
        match stage.finish F checked readings plan sys.disk with
        | (outcome, _, disk) => sys.ended i disk stage.bundle outcome
  | .abort i error, _ =>
    match sys.stages[i]? with
    | none => sys
    | some stage => sys.ended i sys.disk stage.bundle (error.elim .killed .error)
  | .reorder files, _ =>
    if files.isPerm sys.disk.files then
      { sys with disk := { sys.disk with objects := sys.disk.objects.map fun _ => files } }
    else sys

/-- A script is played. -/
def Sys.play (sys : Sys) (script : List (Event × Plan)) : Sys :=
  script.foldl (fun sys step => sys.next F step.1 step.2) sys

variable {F}

theorem Sys.play_append (sys : Sys) (script script' : List (Event × Plan)) :
    sys.play F (script ++ script') = (sys.play F script).play F script' := List.foldl_append

/-- What one step keeps, every run keeps. -/
theorem Sys.play_induction {I : Sys → Prop} {sys : Sys} (hinit : I sys)
    (hstep : ∀ sys event plan, I sys → I (sys.next F event plan)) (script : List (Event × Plan)) :
    I (sys.play F script) := by
  induction script generalizing sys with
  | nil => exact hinit
  | cons step rest ih => exact ih (hstep sys step.1 step.2 hinit)

variable (F) in
/-- The queue and its processes after some script. -/
def Reached (sys : Sys) : Prop := ∃ script, sys = ({} : Sys).play F script

end Runs

end Argos.Queue
