import Argos.Agent.Loop

/-!
# What a tick reports of the analyses

The loop keeps one flag for the analyses, and every event replaces it by the result of its own
analysis. So a tick reports the analysis of the last event before it, and not whether any analysis
since the tick before was incomplete (`honest_iff`).
-/

namespace Argos.Agent

open Argos.Common
open Argos.Detect

/-- The analysis of an event is incomplete: evidence was lost, or its content could not be sampled. -/
def lapse (config : AgentConfig) (engine : DetectionEngine) (event : FileEvent) (env : Surroundings) :
    Bool :=
  (engine.evaluate config.setup (observed config event env)).1.evidenceTruncated ||
    samplingFailed config event env

/-- Whether the analysis of an input is incomplete, if it is an event. -/
def Input.lapse (config : AgentConfig) (a : EventLoop) : Input → List Bool
  | .file event env => [Agent.lapse config a.engine event env]
  | _ => []

/-- Whether the analyses of the events among some inputs are incomplete, one after the other. -/
def lapses (config : AgentConfig) : EventLoop → List Input → List Bool
  | _, [] => []
  | a, input :: rest => input.lapse config a ++ lapses config (a.step config input).1 rest

/-- A tick after `since` reports an incomplete analysis of any event of `since`. -/
def Honest (config : AgentConfig) (a : EventLoop) (since : List Input) (readings : Readings) : Prop :=
  true ∈ lapses config a since →
    ∀ status, Deed.persistHealth status ∈ ((a.after config since).step config (.tick readings)).2 →
      status.analysisIncomplete = true ∧ status.sensorHealthy = false

section Reports

variable {config : AgentConfig} {a : EventLoop} {since : List Input}

theorem running_of_after (h : (a.after config since).running = true) : a.running = true := by
  induction since generalizing a with
  | nil => exact h
  | cons input rest ih =>
    by_contra hstopped
    have hrest : (a.step config input).1.running = true := ih h
    unfold EventLoop.step at hrest
    rw [if_neg hstopped] at hrest
    exact hstopped hrest

/-- The flag of a running loop is the one of the last event. -/
theorem analysisIncomplete_after (h : (a.after config since).running = true) :
    (a.after config since).analysisIncomplete =
      (lapses config a since).getLast?.getD a.analysisIncomplete := by
  induction since generalizing a with
  | nil => rfl
  | cons input rest ih =>
    have hrunning : a.running = true := running_of_after h
    have hstep : a.step config input = a.turn config input := by
      unfold EventLoop.step
      rw [if_pos hrunning]
    have hrest : ((a.step config input).1.after config rest).running = true := h
    show ((a.step config input).1.after config rest).analysisIncomplete = _
    rw [ih hrest, lapses, hstep]
    cases input with
    | file event env =>
      show _ = (List.getLast? (lapse config a.engine event env :: _)).getD _
      rw [List.getLast?_cons, Option.getD_some]
      rfl
    | _ => rfl

/-- The report of a tick. -/
theorem persistHealth_tick {readings : Readings} (h : a.running = true) (status : HealthStatus) :
    Deed.persistHealth status ∈ (a.step config (.tick readings)).2 ↔ status =
      readings.report (guardPolicyTime a.policyRuntime a.response readings.clock).1
        a.analysisIncomplete := by
  unfold EventLoop.step
  rw [if_pos h]
  show _ ∈ config.reportDeeds _ ++ [_] ↔ _
  rw [List.mem_append, List.mem_singleton]
  have hreport : ∀ healthy, Deed.persistHealth status ∉ config.reportDeeds healthy := by
    intro healthy hmem
    unfold AgentConfig.reportDeeds at hmem
    split at hmem
    · cases List.mem_singleton.1 hmem
    · cases hmem
  constructor
  · rintro (hmem | heq)
    · exact absurd hmem (hreport _)
    · exact Deed.persistHealth.inj heq
  · rintro rfl
    exact .inr rfl

/-- An incomplete analysis makes the health bad. -/
theorem healthy_incomplete (readings : Readings) (policy : Option PolicyStatus) :
    readings.healthy policy true = false := by
  unfold Readings.healthy
  simp

/-- A tick reports the incomplete analyses since the tick before exactly when the last analysis is
incomplete, if any is. -/
theorem honest_iff {readings : Readings} (h : (a.after config since).running = true) :
    Honest config a since readings ↔
      (true ∈ lapses config a since → (lapses config a since).getLast? = some true) := by
  have hflag := analysisIncomplete_after h
  unfold Honest
  refine forall_congr' fun hany => ?_
  have hreport := fun status => @persistHealth_tick config (a.after config since) readings h status
  simp only [hreport, forall_eq]
  rcases hlast : (lapses config a since).getLast? with _ | last
  · rw [List.getLast?_eq_none_iff] at hlast
    rw [hlast] at hany
    cases hany
  · rw [hlast, Option.getD_some] at hflag
    rw [hflag]
    cases last with
    | true => exact iff_of_true ⟨rfl, healthy_incomplete _ _⟩ rfl
    | false => exact iff_of_false (fun hbad => nomatch hbad.1) (by decide)

end Reports

/-- An agent that samples the content of files. -/
def samplingConfig : AgentConfig where
  detection := { DetectionConfig.default with
    contentSampling := { ContentSamplingConfig.default with enabled := true } }
  response := .default
  sensor := .fanotify
  debug := id
  backup := false
  agentId := none

/-- The agent before its first event, without a signed policy. -/
def idle : EventLoop where
  response := .default
  policyRuntime := none

/-- A change of one file. -/
def changed (timestampMs : Nat) (action : FileAction) : FileEvent where
  timestampMs := timestampMs
  pid := 7
  path := "/srv/a"
  action := action
  size := none
  entropy := none
  process := some ⟨1000, "/bin/cp", 1, "boot", []⟩
  content := none

/-- Surroundings in which no file can be read. -/
def unreadable : Surroundings where
  loopClock := 0
  fileEntropy := none
  sampling := .error "권한 없음"
  semantic := none
  guardClock := 0
  execute := fun _ => .ok ()
  auditClock := 0
  recorded := fun _ => true

/-- Readings without any trouble. -/
def untroubled : Readings where
  clock := 0
  sensor := ⟨true, 2, 0, 0, 0, some 1⟩
  processMonitor := none
  pins := none
  coverage := none
  semanticUnavailable := 0
  statusClock := 0
  sensorQueue := 0

theorem honest_created : Honest samplingConfig idle [.file (changed 0 .create) unreadable] untroubled :=
  (honest_iff rfl).2 fun _ => by decide +kernel

/-- A file that cannot be sampled is written and deleted: the deletion needs no sample, and the tick
reports a complete analysis. -/
theorem not_honest_deleted : ¬ Honest samplingConfig idle
    [.file (changed 0 .create) unreadable, .file (changed 1 .delete) unreadable] untroubled := by
  intro h
  have hany : true ∈ lapses samplingConfig idle
      [.file (changed 0 .create) unreadable, .file (changed 1 .delete) unreadable] := by decide +kernel
  have hflag : (idle.after samplingConfig [.file (changed 0 .create) unreadable,
      .file (changed 1 .delete) unreadable]).analysisIncomplete = false := by decide +kernel
  have hreport : (idle.after samplingConfig [.file (changed 0 .create) unreadable,
      .file (changed 1 .delete) unreadable]).analysisIncomplete = true :=
    (h hany _ ((persistHealth_tick rfl _).2 rfl)).1
  rw [hflag] at hreport
  cases hreport

end Argos.Agent
