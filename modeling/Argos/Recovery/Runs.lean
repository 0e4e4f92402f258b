import Argos.Recovery.Retention
import Argos.Vault.Sample

/-!
# Runs of a backup store

Several processes call one store. The calls that are transactions come one after the other, in any
order; between the parts of a call that gives a verdict the others go on. Every step runs under a plan
that says which of its durable steps fail and where its process is killed. A run is a script: the
events and their plans, in the order in which they happen. The calls that have ended are kept with
their outcomes in a log.
-/

namespace Argos.Recovery

open Argos.Lib

/-- A call that is one transaction. -/
inductive Call where
  | backup (limit : Nat) (path : Path) (source : Option Source)
      (timestampMs pid process counter : Nat)
  | prune (keep : Nat) (listing : List String)
  | pinVersion (path : Path) (versionId : Int) (incidentId actor reason : String) (reading : Nat)
  | pinKnownGoodBefore (path : Path) (beforeMs : Nat) (incidentId actor reason : String)
      (clock : Nat → Nat)
  | releasePin (pinId : Int) (approval : ReleaseApproval) (clock : Nat → Nat)
  | releaseIncident (incidentId : String) (approval : ReleaseApproval) (clock : Nat → Nat)

/-- The approval of a call that releases references. -/
def Call.approval : Call → Option ReleaseApproval
  | .releasePin _ approval _ => some approval
  | .releaseIncident _ approval _ => some approval
  | _ => none

/-- What a call returns. -/
inductive Reply where
  | hash (hash : Option String)
  | removed (count : Nat)
  | pins (pins : List RetentionPin)

/-- A step of one of the processes. -/
inductive Event where
  /-- A call is made and ends. -/
  | call (call : Call)
  /-- A call that gives a verdict begins. -/
  | begin (judgement : Judgement)
  /-- The `i`-th of the calls that are giving a verdict takes its next part. -/
  | proceed (i : Nat)

/-- A call that has ended. -/
inductive Done where
  | call (call : Call) (outcome : Outcome RecoveryError Reply)
  | verdict (judgement : Judgement) (outcome : Outcome RecoveryError BackupVersion)

/-- The store, the calls that are giving a verdict, and the calls that have ended. -/
structure Sys where
  store : Store := {}
  judging : List (Judgement × Stage) := []
  log : List Done := []

section Runs

variable (D : Digest)

/-- The program of a call. -/
def Call.prog : Call → Op Reply
  | .backup limit path source timestampMs pid process counter => do
    let hash ← Recovery.backup D limit path source timestampMs pid process counter
    pure (.hash hash)
  | .prune keep listing => do
    let count ← Recovery.prune keep listing
    pure (.removed count)
  | .pinVersion path versionId incidentId actor reason reading => do
    let pin ← Recovery.pinVersion path versionId incidentId actor reason reading
    pure (.pins [pin])
  | .pinKnownGoodBefore path beforeMs incidentId actor reason clock => do
    let pins ← Recovery.pinKnownGoodBefore path beforeMs incidentId actor reason clock
    pure (.pins pins)
  | .releasePin pinId approval clock => do
    let pin ← Recovery.releasePin pinId approval clock
    pure (.pins [pin])
  | .releaseIncident incidentId approval clock => do
    let pins ← Recovery.releaseIncident incidentId approval clock
    pure (.pins pins)

/-- One step. A process that is killed is gone, and an event that is not possible changes nothing. -/
def Sys.next (sys : Sys) : Event → Plan → Sys
  | .call call, plan =>
    match call.prog D plan sys.store with
    | (outcome, _, store) => { sys with store := store, log := sys.log ++ [.call call outcome] }
  | .begin j, plan =>
    match j.start plan sys.store with
    | (.ok stage, _, store) => { sys with store := store, judging := sys.judging ++ [(j, stage)] }
    | (.error e, _, store) => { sys with store := store, log := sys.log ++ [.verdict j (.error e)] }
    | (.killed, _, store) => { sys with store := store }
  | .proceed i, plan =>
    match sys.judging[i]? with
    | none => sys
    | some (j, stage) =>
      match j.proceed D stage plan sys.store with
      | (.ok (.inl stage'), _, store) =>
        { sys with store := store, judging := sys.judging.set i (j, stage') }
      | (.ok (.inr version), _, store) =>
        { store := store
          judging := sys.judging.eraseIdx i
          log := sys.log ++ [.verdict j (.ok version)] }
      | (.error e, _, store) =>
        { store := store
          judging := sys.judging.eraseIdx i
          log := sys.log ++ [.verdict j (.error e)] }
      | (.killed, _, store) => { sys with store := store, judging := sys.judging.eraseIdx i }

/-- A script is played. -/
def Sys.play (sys : Sys) (script : List (Event × Plan)) : Sys :=
  script.foldl (fun sys step => sys.next D step.1 step.2) sys

variable {D}

theorem Sys.play_append (sys : Sys) (script script' : List (Event × Plan)) :
    sys.play D (script ++ script') = (sys.play D script).play D script' := List.foldl_append

/-- What one step keeps, every run keeps. -/
theorem Sys.play_induction {I : Sys → Prop} {sys : Sys} (hinit : I sys)
    (hstep : ∀ sys event plan, I sys → I (sys.next D event plan)) (script : List (Event × Plan)) :
    I (sys.play D script) := by
  induction script generalizing sys with
  | nil => exact hinit
  | cons step rest ih => exact ih (hstep sys step.1 step.2 hinit)

variable (D) in
/-- The store and its processes after some script. -/
def Reached (sys : Sys) : Prop := ∃ script, sys = ({} : Sys).play D script

variable {sys : Sys} {plan : Plan}

/-- A call is run to its end. -/
theorem Sys.next_call (call : Call) :
    sys.next D (.call call) plan =
      { sys with
        store := (call.prog D plan sys.store).2.2
        log := sys.log ++ [.call call (call.prog D plan sys.store).1] } := rfl

/-- The log was extended by at most the end of a verdict. -/
def VerdictLog (log log' : List Done) : Prop :=
  log' = log ∨ ∃ j outcome, log' = log ++ [.verdict j outcome]

/-- The first part of a verdict only reads. -/
theorem Sys.next_begin (j : Judgement) : (sys.next D (.begin j) plan).store = sys.store ∧
    VerdictLog sys.log (sys.next D (.begin j) plan).log := by
  have hsat : j.start.Sat sys.store (fun _ s => s = sys.store) (fun s => s = sys.store)
      (fun s => s = sys.store) :=
    Prog.Sat.bind (Prog.Sat.ask (fun _ _ => Prog.Sat.bind (Prog.Sat.ask (fun _ _ => Prog.Sat.pure rfl)
      rfl)) rfl)
  have hrun := hsat plan
  rw [Sys.next]
  rcases hstart : j.start plan sys.store with ⟨outcome, plan', s'⟩
  rw [hstart] at hrun
  cases outcome with
  | ok stage => exact ⟨hrun, .inl rfl⟩
  | error e => exact ⟨hrun, .inr ⟨j, _, rfl⟩⟩
  | killed => exact ⟨hrun, .inl rfl⟩

/-- The store after a verdict was written. -/
def Store.judged (s : Store) (version : BackupVersion) (j : Judgement) : Store :=
  { s with index := s.index.judge version.id j.good (trim j.note) }

/-- A later part of a verdict only reads, or it writes the verdict and goes on. -/
theorem Judgement.proceed_sat {j : Judgement} {stage : Stage} {s : Store} :
    (j.proceed D stage).Sat s
      (fun out s' => s' = s ∨
        ∃ version, stage = .writing version ∧ s' = s.judged version j ∧ out = .inl .confirming)
      (fun s' => s' = s) (fun s' => s' = s) := by
  cases stage with
  | reading version => exact Prog.Sat.bind (Prog.Sat.ask (fun _ _ => Prog.Sat.pure (.inl rfl)) rfl)
  | writing version =>
    exact Prog.Sat.bind (Prog.Sat.atomic (Prog.Sat.pure (.inr ⟨version, rfl, rfl, rfl⟩)) rfl rfl)
  | confirming => exact Prog.Sat.bind (Prog.Sat.ask (fun _ _ => Prog.Sat.pure (.inl rfl)) rfl)

theorem Sys.next_proceed (i : Nat) :
    ((sys.next D (.proceed i) plan).store = sys.store ∧
      VerdictLog sys.log (sys.next D (.proceed i) plan).log) ∨
    ∃ j version, sys.judging[i]? = some (j, .writing version) ∧
      (sys.next D (.proceed i) plan).store = sys.store.judged version j ∧
      (sys.next D (.proceed i) plan).log = sys.log := by
  rw [Sys.next]
  rcases hjudging : sys.judging[i]? with _ | ⟨j, stage⟩
  · exact .inl ⟨rfl, .inl rfl⟩
  have hrun := (Judgement.proceed_sat : (j.proceed D stage).Sat sys.store _ _ _) plan
  dsimp only
  rcases hproceed : j.proceed D stage plan sys.store with ⟨outcome, plan', s'⟩
  rw [hproceed] at hrun
  cases outcome with
  | ok out =>
    rcases hrun with rfl | ⟨version, rfl, rfl, rfl⟩
    · cases out with
      | inl stage' => exact .inl ⟨rfl, .inl rfl⟩
      | inr version => exact .inl ⟨rfl, .inr ⟨j, _, rfl⟩⟩
    · exact .inr ⟨j, version, rfl, rfl, rfl⟩
  | error e => exact .inl ⟨hrun, .inr ⟨j, _, rfl⟩⟩
  | killed => exact .inl ⟨hrun, .inl rfl⟩

end Runs

/-! ## A sample -/

/-- The digest of the sample. -/
def sampleDigest : Digest where
  hash data := Vault.hexText 56 (Vault.fingerprint data)
  named data := by
    have hvalid := Vault.validHash_hexText (Vault.fingerprint data)
    rw [Vault.validHash, Bool.and_eq_true, List.all_eq_true] at hvalid
    rw [Bool.and_eq_true, List.all_eq_true]
    refine ⟨hvalid.1, fun b hb => ?_⟩
    have hdigit := hvalid.2 b hb
    rw [Vault.isHexDigit] at hdigit
    rw [isAsciiHexdigit, hdigit, Bool.true_or]

/-- A path. -/
def samplePath : Path := [0x61]

/-- The file at the path is backed up with a content. -/
def sampleBackup (content : Vault.Bytes) (timestampMs : Nat) : Event × Plan :=
  (.call (.backup 16 samplePath (some ⟨true, content.length, some content⟩) timestampMs 1 1 0), [])

/-- The store of the sample after a script. -/
def samplePlay (script : List (Event × Plan)) : Sys := ({} : Sys).play sampleDigest script

end Argos.Recovery
