import Argos.Agent.Loop
import Argos.Detect.TwoRuns

/-!
# When the agent responds

The responder may be called only in the time of the signed policy. The loop reads the clock before
every event and every tick, and once more before the response; a clock that is outside the time of the
policy suspends the automatic response for the rest of the run, whatever the clocks say later. The
suspension is kept in the status of the policy, while the settings of the response are changed at the
next turn only. `Guarded` says how the two are tied to what the clocks have said, and
`Guarded.guardPolicyTime` that every guard keeps it so and hands out the settings that are in force.
-/

namespace Argos.Agent

open Argos.Common
open Argos.Detect
open Argos.Policies (Policy)

/-- The clocks that are compared with the time of the policy at an input. -/
def Input.clocks : Input → List Nat
  | .file _ env => [env.loopClock, env.guardClock]
  | .tick readings => [readings.clock]
  | _ => []

/-- A clock is outside the time of a policy. -/
def beyond (policy : Policy) (now : Nat) : Bool := now < policy.notBeforeMs || policy.expiresAtMs ≤ now

/-- At some input a clock was outside the time of the policy. -/
def suspended (policy : Policy) (inputs : List Input) : Bool :=
  (inputs.flatMap Input.clocks).any (beyond policy)

/-- The settings of the response that are in force. -/
def inForce (policy : Policy) (off : Bool) : ResponseConfig :=
  { policy.response with autoBlock := policy.response.autoBlock && !off }

section Guard

variable {policy : Policy} {runtime : Option PolicyStatus} {response : ResponseConfig} {off : Bool}

/-- The status of the policy and the settings of the response, when `off` says whether a clock was
outside the time of the policy. -/
structure Guarded (policy : Policy) (off : Bool) (runtime : Option PolicyStatus)
    (response : ResponseConfig) : Prop where
  status : ∃ status, runtime = some status ∧
    status.lookup "not_before_ms" = some (.number policy.notBeforeMs) ∧
    status.lookup "expires_at_ms" = some (.number policy.expiresAtMs) ∧ status.isInvalid = off
  score : response.blockScore = policy.response.blockScore
  unchanged : off = false → response = policy.response

theorem guarded_start (policy : Policy) (sha256 : String) :
    Guarded policy false (EventLoop.start policy sha256).policyRuntime (EventLoop.start policy sha256).response := by
  refine ⟨⟨_, rfl, ?_, ?_, ?_⟩, rfl, fun _ => rfl⟩
  · unfold policyStatus
    rw [AList.lookup_insert_ne (by decide), AList.lookup_insert_ne (by decide), AList.lookup_insert]
  · unfold policyStatus
    rw [AList.lookup_insert_ne (by decide), AList.lookup_insert]
  · unfold PolicyStatus.isInvalid policyStatus
    rw [AList.lookup_insert]
    rfl

/-- A guard notes a clock that is outside the time of the policy, and hands out what is in force. -/
theorem Guarded.guardPolicyTime (h : Guarded policy off runtime response) (now : Nat) :
    Guarded policy (off || beyond policy now) (guardPolicyTime runtime response now).1
      (Agent.guardPolicyTime runtime response now).2 ∧
    (Agent.guardPolicyTime runtime response now).2 = inForce policy (off || beyond policy now) := by
  obtain ⟨status, rfl, hbefore, hexpires, hinvalid⟩ := h.status
  have houtside : status.outside now = (off || beyond policy now) := by
    unfold PolicyStatus.outside beyond
    rw [hbefore, hexpires, hinvalid, Bool.or_assoc]
    rfl
  unfold Agent.guardPolicyTime
  dsimp only
  rw [houtside]
  rcases hoff : off || beyond policy now with _ | _
  · have hsame := h.unchanged (Bool.or_eq_false_iff.1 hoff).1
    rw [if_neg Bool.false_ne_true]
    refine ⟨⟨⟨status, rfl, hbefore, hexpires, ?_⟩, h.score, fun _ => hsame⟩, ?_⟩
    · rw [hinvalid]
      exact (Bool.or_eq_false_iff.1 hoff).1
    · rw [hsame]
      unfold inForce
      rw [Bool.not_false, Bool.and_true]
  · rw [if_pos rfl]
    refine ⟨⟨⟨_, rfl, ?_, ?_, ?_⟩, h.score, fun hfalse => nomatch hfalse⟩, ?_⟩
    · rw [AList.lookup_insert_ne (by decide)]
      exact hbefore
    · rw [AList.lookup_insert_ne (by decide)]
      exact hexpires
    · unfold PolicyStatus.isInvalid
      rw [AList.lookup_insert]
      rfl
    · unfold inForce
      dsimp only
      rw [h.score, Bool.not_true, Bool.and_false]

end Guard

/-! ## Runs -/

section Runs

variable {policy : Policy} {sha256 : String} {config : AgentConfig} {inputs : List Input} {input : Input}

theorem suspended_append (policy : Policy) (xs ys : List Input) :
    suspended policy (xs ++ ys) = (suspended policy xs || suspended policy ys) := by
  unfold suspended
  rw [List.flatMap_append, List.any_append]

theorem suspended_singleton (policy : Policy) (input : Input) :
    suspended policy [input] = input.clocks.any (beyond policy) := by
  unfold suspended
  rw [List.flatMap_singleton]

/-- One turn keeps the status and the settings tied to the clocks. -/
theorem guarded_turn {a : EventLoop} {off : Bool} (h : Guarded policy off a.policyRuntime a.response) :
    Guarded policy (off || suspended policy [input]) (a.turn config input).1.policyRuntime
      (a.turn config input).1.response := by
  rw [suspended_singleton]
  cases input with
  | file event env =>
    obtain ⟨hloop, hforce⟩ := h.guardPolicyTime env.loopClock
    obtain ⟨hinner, -⟩ := hloop.guardPolicyTime env.guardClock
    have hclocks : (off || (Input.file event env).clocks.any (beyond policy)) =
        (off || beyond policy env.loopClock || beyond policy env.guardClock) := by
      show (off || (beyond policy env.loopClock || (beyond policy env.guardClock || false))) = _
      rw [Bool.or_false, Bool.or_assoc]
    rw [hclocks]
    -- The settings of the loop are those before the second guard.
    refine ⟨hinner.status, hloop.score, fun hoff => hloop.unchanged ?_⟩
    exact (Bool.or_eq_false_iff.1 hoff).1
  | tick readings =>
    have hclocks : (Input.tick readings).clocks.any (beyond policy) = beyond policy readings.clock :=
      Bool.or_false _
    rw [hclocks]
    exact (h.guardPolicyTime readings.clock).1
  | sensorClosed => exact (Bool.or_false off).symm ▸ h
  | process => exact (Bool.or_false off).symm ▸ h
  | interrupt => exact (Bool.or_false off).symm ▸ h

/-- While the loop runs, the status and the settings are tied to the clocks of all inputs. -/
theorem guarded_after (hrunning : ((EventLoop.start policy sha256).after config inputs).running = true) :
    Guarded policy (suspended policy inputs) ((EventLoop.start policy sha256).after config inputs).policyRuntime
      ((EventLoop.start policy sha256).after config inputs).response := by
  induction inputs using List.reverseRecOn with
  | nil => exact guarded_start policy sha256
  | append_singleton inputs input ih =>
    rw [EventLoop.after_append] at hrunning ⊢
    generalize hbefore : (EventLoop.start policy sha256).after config inputs = before at *
    show Guarded policy _ (before.step config input).1.policyRuntime (before.step config input).1.response
    have hrunning' : (before.step config input).1.running = true := hrunning
    unfold EventLoop.step at hrunning' ⊢
    by_cases hbefore : before.running = true
    · rw [if_pos hbefore, suspended_append]
      exact guarded_turn (ih hbefore)
    · rw [if_neg hbefore] at hrunning'
      exact absurd hrunning' hbefore

end Runs

/-! ## Responses -/

/-- The call of the responder in a deed. -/
def Deed.execution : Deed → Option (ResponseAction × Except String Unit)
  | .execute action result => some (action, result)
  | _ => none

/-- The audit in a deed. -/
def Deed.audit : Deed → Option ResponseAudit
  | .insertResponseResult audit => some audit
  | _ => none

/-- The calls of the responder in some deeds. -/
def executions (deeds : List Deed) : List (ResponseAction × Except String Unit) :=
  deeds.filterMap Deed.execution

/-- The audits in some deeds. -/
def audits (deeds : List Deed) : List ResponseAudit := deeds.filterMap Deed.audit

section Responses

variable {config : AgentConfig} {event : FileEvent} {env : Surroundings} {evaluation : Evaluation}
  {response : ResponseConfig}

theorem observed_same : (observed config event env).pid = event.pid ∧
    (observed config event env).process = event.process := by
  unfold observed
  dsimp only
  rcases env.sampling with _ | content <;> split <;> split <;> exact ⟨rfl, rfl⟩

/-- What is stored of an event is neither a response nor an audit of one. -/
theorem storeDeeds_none : executions (storeDeeds config event evaluation env) = [] ∧
    audits (storeDeeds config event evaluation env) = [] := by
  have hnone : ∀ deed ∈ storeDeeds config event evaluation env,
      deed.execution = none ∧ deed.audit = none := by
    intro deed hdeed
    unfold storeDeeds at hdeed
    rw [List.mem_append, List.mem_append, List.mem_singleton, List.mem_flatMap] at hdeed
    rcases hdeed with (rfl | hbackup) | ⟨detection, -, hrecord⟩
    · exact ⟨rfl, rfl⟩
    · split at hbackup
      · rw [List.mem_singleton.1 hbackup]
        exact ⟨rfl, rfl⟩
      · cases hbackup
    · unfold recordDeeds at hrecord
      rcases List.mem_cons.1 hrecord with rfl | hnotify
      · exact ⟨rfl, rfl⟩
      · split at hnotify
        · rw [List.mem_singleton.1 hnotify]
          exact ⟨rfl, rfl⟩
        · cases hnotify
  exact ⟨List.filterMap_eq_nil_iff.2 fun deed hdeed => (hnone deed hdeed).1,
    List.filterMap_eq_nil_iff.2 fun deed hdeed => (hnone deed hdeed).2⟩

/-- The action against the process of an event. -/
def killOf (event : FileEvent) (process : FileProcessContext) : ResponseAction :=
  .killProcessInstance event.pid process.startTimeTicks process.bootId

/-- What an evaluation asks for under the settings in force, with the outcome for the audit. -/
inductive Answered (event : FileEvent) (evaluation : Evaluation) (response : ResponseConfig)
    (env : Surroundings) : Option String → List (ResponseAction × Except String Unit) → Prop
  | succeeded (process : FileProcessContext) (due : evaluation.shouldBlock response = true)
      (known : event.process = some process) (done : env.execute (killOf event process) = .ok ()) :
      Answered event evaluation response env (some "succeeded") [(killOf event process, .ok ())]
  | failed (process : FileProcessContext) (text : String)
      (due : evaluation.shouldBlock response = true) (known : event.process = some process)
      (failed : env.execute (killOf event process) = .error text) :
      Answered event evaluation response env (some "failed_or_unconfirmed")
        [(killOf event process, .error text)]
  | rejected (due : evaluation.shouldBlock response = true) (unknown : event.process = none) :
      Answered event evaluation response env (some "rejected") []
  | observedThreshold (candidate : evaluation.blockCandidate response = true)
      (off : response.autoBlock = false) :
      Answered event evaluation response env (some "observed_threshold") []
  | nothing (low : evaluation.blockCandidate response = false) :
      Answered event evaluation response env none []

/-- The response to an event and its audit. -/
theorem respond_answered (hpid : evaluation.pid = event.pid) :
    Answered event evaluation response env
      ((respond event evaluation response env).1.map Prod.fst)
      (executions (respond event evaluation response env).2) := by
  unfold respond
  by_cases hdue : evaluation.shouldBlock response = true
  · rw [if_pos hdue]
    rcases hprocess : event.process with _ | process
    · exact .rejected hdue hprocess
    · dsimp only
      rw [hpid]
      rcases hresult : env.execute (killOf event process) with text | _
      · have hkill : env.execute (.killProcessInstance event.pid process.startTimeTicks process.bootId) =
            .error text := hresult
        rw [hkill]
        exact .failed process text hdue hprocess hresult
      · have hkill : env.execute (.killProcessInstance event.pid process.startTimeTicks process.bootId) =
            .ok () := hresult
        rw [hkill]
        exact .succeeded process hdue hprocess hresult
  · rw [if_neg hdue]
    by_cases hcandidate : evaluation.blockCandidate response = true
    · rw [if_pos hcandidate]
      refine .observedThreshold hcandidate ?_
      unfold Evaluation.shouldBlock at hdue
      rw [hcandidate, Bool.and_true] at hdue
      exact Bool.eq_false_iff.2 hdue
    · rw [if_neg hcandidate]
      exact .nothing (Bool.eq_false_iff.2 hcandidate)

/-- The answer depends on the process of the event alone. -/
theorem Answered.congr {event' : FileEvent} {outcome : Option String}
    {calls : List (ResponseAction × Except String Unit)} (hpid : event'.pid = event.pid)
    (hprocess : event'.process = event.process)
    (h : Answered event' evaluation response env outcome calls) :
    Answered event evaluation response env outcome calls := by
  have hkill : killOf event' = killOf event := by
    unfold killOf
    rw [hpid]
  cases h with
  | succeeded process due known done =>
    rw [hkill] at done ⊢
    exact .succeeded process due (hprocess ▸ known) done
  | failed process text due known failed =>
    rw [hkill] at failed ⊢
    exact .failed process text due (hprocess ▸ known) failed
  | rejected due unknown => exact .rejected due (hprocess ▸ unknown)
  | observedThreshold candidate off => exact .observedThreshold candidate off
  | nothing low => exact .nothing low

/-- A response holds calls of the responder alone. -/
theorem audits_respond : audits (respond event evaluation response env).2 = [] := by
  unfold respond
  split
  · split
    · dsimp only
      split <;> rfl
    · rfl
  · split <;> rfl

/-- The calls of the responder and the audits, when an event is processed. -/
theorem processEvent_deeds {engine : DetectionEngine} {runtime : Option PolicyStatus} :
    let event' := observed config event env
    let answer := respond event' (engine.evaluate config.setup event').1
      (guardPolicyTime runtime response env.guardClock).2 env
    let deeds := (processEvent config response engine runtime event env).2.2.2
    executions deeds = executions answer.2 ∧
    (audits deeds).map (·.outcome) = (answer.1.map Prod.fst).toList := by
  dsimp only
  obtain ⟨hstored, hstored'⟩ := @storeDeeds_none config (observed config event env) env
    (engine.evaluate config.setup (observed config event env)).1
  have hanswer := @audits_respond (observed config event env) env
    (engine.evaluate config.setup (observed config event env)).1
    (guardPolicyTime runtime response env.guardClock).2
  unfold executions audits at *
  unfold processEvent
  dsimp only
  rw [List.filterMap_append, List.filterMap_append, List.filterMap_append, List.filterMap_append,
    hstored, hstored', hanswer, List.append_nil, List.append_nil, List.nil_append]
  rcases (respond (observed config event env) _ _ env).1 with _ | outcome
  · exact ⟨List.append_nil _, rfl⟩
  · exact ⟨List.append_nil _, rfl⟩

/-- The calls of the responder and the audits of a turn with an event. -/
theorem turn_answered {policy : Policy} {off : Bool} {a : EventLoop}
    (h : Guarded policy off a.policyRuntime a.response) :
    ∃ outcome, Answered event ((a.engine.evaluate config.setup (observed config event env)).1)
        (inForce policy (off || suspended policy [.file event env])) env outcome
        (executions (a.turn config (.file event env)).2) ∧
      (audits (a.turn config (.file event env)).2).map (·.outcome) = outcome.toList := by
  have hclocks : suspended policy [.file event env] =
      (beyond policy env.loopClock || beyond policy env.guardClock) := by
    rw [suspended_singleton]
    show (beyond policy env.loopClock || (beyond policy env.guardClock || false)) = _
    rw [Bool.or_false]
  have hforce := ((h.guardPolicyTime env.loopClock).1.guardPolicyTime env.guardClock).2
  rw [Bool.or_assoc, ← hclocks] at hforce
  obtain ⟨hpid, hprocess⟩ := @observed_same config event env
  obtain ⟨hcalls, haudits⟩ := @processEvent_deeds config event env
    (guardPolicyTime a.policyRuntime a.response env.loopClock).2 a.engine
    (guardPolicyTime a.policyRuntime a.response env.loopClock).1
  have hanswer := @respond_answered (observed config event env) env
    (a.engine.evaluate config.setup (observed config event env)).1
    (inForce policy (off || suspended policy [.file event env])) evaluate_pid
  rw [hforce] at hcalls haudits
  rw [← hcalls] at hanswer
  exact ⟨_, hanswer.congr hpid hprocess, haudits⟩

end Responses

/-! ## The whole run -/

/-- An event and its surroundings call for a response to its process. -/
def CallsFor (policy : Policy) (evaluation : Evaluation) (event : FileEvent) (action : ResponseAction) :
    Prop :=
  evaluation.shouldBlock policy.response = true ∧ event.pid ≠ 0 ∧
    ∃ process, event.process = some process ∧
      action = .killProcessInstance event.pid process.startTimeTicks process.bootId

/-- The outcome of the one audit of an event that is a block candidate. -/
structure Audited (policy : Policy) (off : Bool) (event : FileEvent) (deeds : List Deed)
    (outcome : String) : Prop where
  succeeded : outcome = "succeeded" ↔ ∃ action, Deed.execute action (.ok ()) ∈ deeds
  rejected : outcome = "rejected" ↔
    policy.response.autoBlock = true ∧ off = false ∧ event.process = none
  observedThreshold : outcome = "observed_threshold" ↔ policy.response.autoBlock = false ∨ off = true

section Run

variable {policy : Policy} {event : FileEvent} {evaluation : Evaluation} {env : Surroundings} {off : Bool}
  {outcome : Option String} {deeds : List Deed}

theorem execute_mem_iff {action : ResponseAction} {result : Except String Unit} :
    Deed.execute action result ∈ deeds ↔ (action, result) ∈ executions deeds := by
  unfold executions
  rw [List.mem_filterMap]
  constructor
  · intro hmem
    exact ⟨_, hmem, rfl⟩
  · rintro ⟨deed, hmem, hdeed⟩
    cases deed with
    | execute action' result' =>
      obtain ⟨rfl, rfl⟩ := Prod.mk.inj (Option.some.inj hdeed)
      exact hmem
    | _ => cases hdeed

theorem blockCandidate_inForce : evaluation.blockCandidate (inForce policy off) =
    evaluation.blockCandidate policy.response := rfl

theorem shouldBlock_inForce (h : evaluation.shouldBlock (inForce policy off) = true) :
    evaluation.shouldBlock policy.response = true ∧ policy.response.autoBlock = true ∧ off = false := by
  unfold Evaluation.shouldBlock at h ⊢
  rw [blockCandidate_inForce] at h
  obtain ⟨hauto, hcandidate⟩ := Bool.and_eq_true_iff.1 h
  obtain ⟨hconfigured, hon⟩ := Bool.and_eq_true_iff.1 hauto
  exact ⟨Bool.and_eq_true_iff.2 ⟨hconfigured, hcandidate⟩, hconfigured, (Bool.not_eq_true' off).mp hon⟩

/-- The calls of the responder in the answer to an event. -/
theorem Answered.callsFor {calls : List (ResponseAction × Except String Unit)}
    (h : Answered event evaluation (inForce policy off) env outcome calls)
    (hpid : evaluation.pid = event.pid) {action : ResponseAction} {result : Except String Unit}
    (hcall : (action, result) ∈ calls) : CallsFor policy evaluation event action ∧ off = false := by
  have hknown : ∀ process, evaluation.shouldBlock (inForce policy off) = true →
      event.process = some process →
      CallsFor policy evaluation event (killOf event process) ∧ off = false := by
    intro process hdue hprocess
    obtain ⟨hblock, -, hon⟩ := shouldBlock_inForce hdue
    refine ⟨⟨hblock, ?_, process, hprocess, rfl⟩, hon⟩
    unfold Evaluation.shouldBlock Evaluation.blockCandidate at hblock
    rw [← hpid]
    simpa using ((Bool.and_eq_true_iff.1 (Bool.and_eq_true_iff.1 (Bool.and_eq_true_iff.1 hblock).2).1).2)
  cases h with
  | succeeded process due known done =>
    rw [(Prod.mk.inj (List.mem_singleton.1 hcall)).1]
    exact hknown process due known
  | failed process text due known failed =>
    rw [(Prod.mk.inj (List.mem_singleton.1 hcall)).1]
    exact hknown process due known
  | rejected due unknown => cases hcall
  | observedThreshold candidate off => cases hcall
  | nothing low => cases hcall

/-- The outcome of the audit of a block candidate. -/
theorem Answered.audited (h : Answered event evaluation (inForce policy off) env outcome (executions deeds))
    (hcandidate : evaluation.blockCandidate policy.response = true) :
    ∃ text, outcome = some text ∧ Audited policy off event deeds text := by
  have hdone : ∀ action, Deed.execute action (.ok ()) ∈ deeds ↔ (action, .ok ()) ∈ executions deeds :=
    fun action => execute_mem_iff
  generalize executions deeds = calls at h hdone
  cases h with
  | succeeded process due known done =>
    obtain ⟨-, hauto, hon⟩ := shouldBlock_inForce due
    refine ⟨_, rfl, iff_of_true rfl ⟨_, (hdone _).2 (List.mem_singleton_self _)⟩,
      iff_of_false (by decide) ?_, iff_of_false (by decide) ?_⟩
    · rintro ⟨-, -, hnone⟩
      rw [known] at hnone
      cases hnone
    · rw [hauto, hon]
      decide
  | failed process text due known failed =>
    obtain ⟨-, hauto, hon⟩ := shouldBlock_inForce due
    refine ⟨_, rfl, iff_of_false (by decide) ?_, iff_of_false (by decide) ?_, iff_of_false (by decide) ?_⟩
    · rintro ⟨action, hmem⟩
      have hresult := (Prod.mk.inj (List.mem_singleton.1 ((hdone action).1 hmem))).2
      cases hresult
    · rintro ⟨-, -, hnone⟩
      rw [known] at hnone
      cases hnone
    · rw [hauto, hon]
      decide
  | rejected due unknown =>
    obtain ⟨-, hauto, hon⟩ := shouldBlock_inForce due
    refine ⟨_, rfl, iff_of_false (by decide) ?_, iff_of_true rfl ⟨hauto, hon, unknown⟩,
      iff_of_false (by decide) ?_⟩
    · rintro ⟨action, hmem⟩
      cases (hdone action).1 hmem
    · rw [hauto, hon]
      decide
  | observedThreshold candidate offline =>
    have hoff : policy.response.autoBlock = false ∨ off = true := by
      unfold inForce at offline
      dsimp only at offline
      rcases hauto : policy.response.autoBlock with _ | _
      · exact .inl rfl
      · rw [hauto, Bool.true_and] at offline
        exact .inr ((Bool.not_eq_false' off).mp offline)
    refine ⟨_, rfl, iff_of_false (by decide) ?_, iff_of_false (by decide) ?_, iff_of_true rfl hoff⟩
    · rintro ⟨action, hmem⟩
      cases (hdone action).1 hmem
    · rintro ⟨hauto, hon, -⟩
      rw [hauto, hon] at hoff
      revert hoff
      decide
  | nothing low =>
    rw [blockCandidate_inForce, hcandidate] at low
    cases low

end Run

/-- Only an event can be answered. -/
theorem turn_executions {config : AgentConfig} {a : EventLoop} {input : Input}
    (h : ∀ event env, input ≠ .file event env) : executions (a.turn config input).2 = [] := by
  have hreport : ∀ healthy, executions (config.reportDeeds healthy) = [] := by
    intro healthy
    unfold AgentConfig.reportDeeds
    split <;> rfl
  cases input with
  | file event env => exact absurd rfl (h event env)
  | sensorClosed => exact hreport false
  | process => rfl
  | tick readings =>
    show List.filterMap Deed.execution (config.reportDeeds _ ++ [_]) = []
    rw [List.filterMap_append]
    exact (List.append_nil _).trans (hreport _)
  | interrupt => rfl

/-- The responder is called at an input only when it may be, and every block candidate is audited; `off`
says whether a clock was outside the time of the policy, at this input or before. -/
structure Gated (policy : Policy) (settings : AgentConfig) (off : Bool) (a : EventLoop) (input : Input) : Prop
    where
  silent : off = true → ∀ action result, Deed.execute action result ∉ (a.step settings input).2
  due : ∀ action result, Deed.execute action result ∈ (a.step settings input).2 →
    ∃ event env, input = .file event env ∧
      CallsFor policy (a.engine.evaluate settings.setup (observed settings event env)).1 event action
  audited : ∀ event env, input = .file event env → a.running = true →
    (a.engine.evaluate settings.setup (observed settings event env)).1.blockCandidate
      policy.response = true →
    ∃ audit, audits (a.step settings input).2 = [audit] ∧
      Audited policy off event (a.step settings input).2 audit.outcome

/-- Without a call of the responder and without an event there is nothing to show. -/
theorem gated_of_quiet {policy : Policy} {settings : AgentConfig} {off : Bool} {a : EventLoop} {input : Input}
    (h : executions (a.step settings input).2 = [])
    (hinput : ∀ event env, input = .file event env → a.running ≠ true) :
    Gated policy settings off a input := by
  have hnone : ∀ action result, Deed.execute action result ∉ (a.step settings input).2 := by
    intro action result hmem
    rw [execute_mem_iff, h] at hmem
    cases hmem
  exact ⟨fun _ => hnone, fun action result hmem => absurd hmem (hnone action result),
    fun event env heq hrunning => absurd hrunning (hinput event env heq)⟩

/-- The automatic response is gated for the whole run. -/
theorem responses_gated (policy : Policy) (sha256 : String) (config : AgentConfig) (before : List Input)
    (input : Input) :
    Gated policy (config.activated policy) (suspended policy (before ++ [input]))
      ((EventLoop.start policy sha256).after (config.activated policy) before) input := by
  generalize config.activated policy = settings
  generalize ha : (EventLoop.start policy sha256).after settings before = a
  by_cases hrunning : a.running = true
  · have hguarded : Guarded policy (suspended policy before) a.policyRuntime a.response :=
      ha ▸ @guarded_after policy sha256 settings before (ha ▸ hrunning)
    have hdeeds : (a.step settings input).2 = (a.turn settings input).2 := by
      unfold EventLoop.step
      rw [if_pos hrunning]
    by_cases hfile : ∃ event env, input = .file event env
    · obtain ⟨event, env, rfl⟩ := hfile
      obtain ⟨outcome, hanswer, haudits⟩ := @turn_answered settings event env policy _ a hguarded
      rw [← suspended_append, ← hdeeds] at hanswer
      rw [← hdeeds] at haudits
      have hpid : (a.engine.evaluate settings.setup (observed settings event env)).1.pid = event.pid :=
        evaluate_pid.trans observed_same.1
      constructor
      · intro hoff action result hmem
        have hon := (hanswer.callsFor hpid (execute_mem_iff.1 hmem)).2
        rw [hoff] at hon
        cases hon
      · intro action result hmem
        exact ⟨event, env, rfl, (hanswer.callsFor hpid (execute_mem_iff.1 hmem)).1⟩
      · intro event' env' heq _ hcandidate
        obtain ⟨rfl, rfl⟩ := Input.file.inj heq
        obtain ⟨text, rfl, haudited⟩ := hanswer.audited hcandidate
        obtain ⟨audit, haudit, rfl⟩ := List.map_eq_singleton_iff.1 haudits
        exact ⟨audit, haudit, haudited⟩
    · refine gated_of_quiet ?_ fun event env heq => absurd ⟨event, env, heq⟩ hfile
      rw [hdeeds]
      exact turn_executions fun event env heq => hfile ⟨event, env, heq⟩
  · refine gated_of_quiet ?_ fun _ _ _ => hrunning
    unfold EventLoop.step
    rw [if_neg hrunning]
    rfl

end Argos.Agent
