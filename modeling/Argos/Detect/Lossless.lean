import Argos.Detect.BaseWindow
import Argos.Detect.Engine
import Argos.Detect.Observations

/-!
# Runs that lose nothing

As long as no evaluation of the engine reports a loss, the score of an event and whether it may lead to
a block are functions of the events so far (`Clean.assessment`). `Clean` relates the engine to the
events that reached its scorers, newest first. Two such runs are compared in `Clean.complete_of_thinner`:
a run whose evidence is thinner at every point loses nothing either.
-/

namespace Argos.Detect

open Argos.Common
open Argos.Lib
open Argos.Vault (saturatingAdd)

/-! ## The log as a function of the events -/

/-- An observation without its number. -/
def strip (o : Observation) : Observation := { o with sequence := 0 }

/-- The observation of an event, without its number. -/
def obsOf (S : Setup) (event : FileEvent) : Observation where
  sequence := 0
  timestampMs := event.timestampMs
  path := event.path
  pid := event.pid
  process := instanceOf event
  action := event.action
  encrypted := encryptionSignal S.config event
  groups := includedKeys S.config.multiWindow event (adjustedFor S.config event)

/-- An event that is evidence for a group. -/
def counts (S : Setup) (event : FileEvent) : Bool :=
  includedKeys S.config.multiWindow event (adjustedFor S.config event) ≠ [] && countedAction event.action

/-- What is accepted of some events, newest first. -/
def logOf (S : Setup) (past : List FileEvent) : List Observation :=
  ((past.filter (counts S)).map (obsOf S)).reverse

section Stripped

variable {S : Setup} {now : Nat} {g : Group} {log : List Observation}

theorem joined_strip : joined g (log.map strip) = (joined g log).map strip := by
  unfold joined
  rw [List.filter_map]
  rfl

theorem allEvidence_strip : allEvidence S now g (log.map strip) = (allEvidence S now g log).map strip := by
  unfold allEvidence
  rw [joined_strip, List.filter_map]
  rfl

theorem selected_strip {window : Nat} : selected now window (log.map strip) =
    (selected now window log).map strip := by
  unfold selected
  rw [List.filter_map]
  rfl

/-- The score of a window does not depend on the numbers of its observations. -/
theorem selectedScore_strip {window : DetectionWindow} :
    selectedScore S window (log.map strip) = selectedScore S window log := by
  have hpaths : (log.map strip).map (·.path) = log.map (·.path) := by
    rw [List.map_map]
    rfl
  have hhigh : ((log.map strip).filter fun e => e.action = .modify ∧ e.encrypted).map (·.path) =
      (log.filter fun e => e.action = .modify ∧ e.encrypted).map (·.path) := by
    rw [List.filter_map, List.map_map]
    rfl
  have hchurned : ((log.map strip).filter fun e => e.action = .delete ∨ e.action = .rename).length =
      (log.filter fun e => e.action = .delete ∨ e.action = .rename).length := by
    rw [List.filter_map, List.length_map]
    rfl
  unfold selectedScore
  rw [hpaths, hhigh, hchurned, List.length_map]
  simp only [List.map_eq_nil_iff]

theorem scores_strip : scores S now (log.map strip) = scores S now log := by
  have hpaths : ∀ l : List Observation, (l.map strip).map (·.path) = l.map (·.path) := by
    intro l
    rw [List.map_map]
    rfl
  unfold scores
  simp only [List.map_eq_nil_iff, selected_strip, selectedScore_strip, hpaths]

theorem logOf_cons {event : FileEvent} {past : List FileEvent} :
    logOf S (event :: past) = logOf S past ++ if counts S event then [obsOf S event] else [] := by
  unfold logOf
  rw [List.filter_cons]
  split
  · rw [List.map_cons, List.reverse_cons]
  · rw [List.append_nil]

end Stripped

/-! ## The assessment as a function of the events -/

/-- The score of the process of an event over several windows. -/
def wholeInstanceScore (S : Setup) (event : FileEvent) (past : List FileEvent) : Option ℚ :=
  if S.config.multiWindow.enabled then
    (instanceOf event).bind fun process => (scores S event.timestampMs
      (allEvidence S event.timestampMs (.instance process) (logOf S (event :: past)))).max?
  else none

/-- The score of an event and whether it may lead to a block, from the events before it. -/
def assessment (S : Setup) (event : FileEvent) (past : List FileEvent) : ℚ × Bool :=
  let window := wholeWindow S (behaviorApproval S.config) event past
  let instanceScore := wholeInstanceScore S event past
  (instanceScore.elim (windowScore S window) (max (windowScore S window)),
    decide (S.config.minChangedFiles ≤ (distinct (window.map (·.path))).length) || instanceScore.isSome)

/-- The same with the change of a canary file. -/
def assessed (S : Setup) (event : FileEvent) (past : List FileEvent) : ℚ × Bool :=
  let scored := if isExcluded S.config event.path then (0, false) else assessment S event past
  if tampersCanary S.config event then (max scored.1 95, true) else scored

/-- An engine that has lost nothing, after the events that reached its scorers. -/
structure Clean (S : Setup) (e : DetectionEngine) (past : List FileEvent) : Prop where
  base : Reflects S (behaviorApproval S.config) e.scorer past
  baseComplete : e.scorer.incompleteUntil = none
  bounded : Bounded S e.scorer
  multi : S.config.multiWindow.enabled = true → ∃ log, Kept S e.multiWindow log ∧
    log.map strip = logOf S past ∧ e.multiWindow.watermark = lastTime past ∧
    e.multiWindow.incompleteUntil = none

section Clean

variable {S : Setup} {e : DetectionEngine} {past : List FileEvent} {event : FileEvent}

theorem Clean.initial : Clean S {} [] where
  base := Reflects.initial
  baseComplete := rfl
  bounded := Bounded.initial
  multi := fun _ => ⟨[], Kept.initial, rfl, rfl, rfl⟩

/-- A step of the base scorer that reports no loss leaves none. -/
theorem baseComplete_step {s : BehaviorScorer} {A : FileEvent → Option String}
    (hs : s.incompleteUntil = none) (hmax : event.timestampMs ≤ u64Max)
    (hcomplete : (s.evaluateWithApproval S event (A event)).1.evidenceTruncated = false) :
    (s.evaluateWithApproval S event (A event)).2.incompleteUntil = none := by
  obtain ⟨-, hroom⟩ := roomy_of_evaluation hmax hcomplete
  rw [evaluateWithApproval_incompleteUntil, prepared_incompleteUntil hroom, hs]

/-- A step of the other scorer that reports no loss leaves none. -/
theorem multiComplete_step {m : MultiWindowScorer} {log : List Observation}
    {adjustedRules : List String} (h : Kept S m log) (henabled : S.config.multiWindow.enabled = true)
    (hm : m.incompleteUntil = none) (hmax : max m.watermark event.timestampMs ≤ u64Max)
    (hcomplete : (m.evaluate S event adjustedRules).1.truncated = false) :
    (m.evaluate S event adjustedRules).2.incompleteUntil = none := by
  rw [evaluate_truncated henabled, Bool.or_eq_false_iff] at hcomplete
  obtain ⟨hsupported, hlacking⟩ := hcomplete
  obtain ⟨hconsistent, -, -, -, huntil, -⟩ := @advanced_spec S m event h.consistent
  have hwatermark := @observed_watermark S m event adjustedRules h.consistent
  rw [evaluate_supported henabled hsupported]
  show (observed S m event adjustedRules).incompleteUntil = none
  by_cases haccept : includedKeys S.config.multiWindow event adjustedRules ≠ [] ∧
      countedAction event.action
  · obtain ⟨-, -, -, -, hloss | ⟨hsame, -⟩⟩ :=
      hconsistent.inserted (includedKeys_nodup _ _) haccept
    · -- A loss would be reported at once.
      have hlt := watermark_lt_of_loss hloss (by rw [← hwatermark] at hmax; exact hmax) hlacking
      unfold observed at hlt
      omega
    · exact hsame.trans (huntil.trans hm)
  · unfold observed MultiWindowScorer.inserted
    rw [if_neg haccept]
    exact huntil.trans hm

/-- What is accepted of an event that is supported. -/
theorem acceptance_strip {m : MultiWindowScorer} (h : Consistent S m)
    (henabled : S.config.multiWindow.enabled = true)
    (hsupported : unsupported S (m.advanced S event) event = false) (hnow : m.watermark ≤ event.timestampMs) :
    ((acceptance S m event (adjustedFor S.config event)).toList).map strip =
      if counts S event then [obsOf S event] else [] := by
  obtain ⟨-, -, -, hwatermark, -⟩ := @advanced_spec S m event h
  have hcounts : counts S event = true ↔ includedKeys S.config.multiWindow event
      (adjustedFor S.config event) ≠ [] ∧ countedAction event.action = true := by
    unfold counts
    rw [Bool.and_eq_true, decide_eq_true_eq]
  unfold acceptance
  dsimp only
  by_cases haccept : counts S event = true
  · obtain ⟨hsome, hcounted⟩ := hcounts.1 haccept
    rw [if_pos haccept, if_pos ⟨henabled, hsupported, hsome, hcounted⟩]
    show [strip _] = [obsOf S event]
    unfold strip obsOf MultiWindowScorer.observation
    rw [hwatermark, Nat.max_eq_right hnow]
  · rw [if_neg haccept, if_neg fun hall => haccept (hcounts.2 hall.2.2)]
    rfl

/-- An evaluation of the scorers that reports no loss: both report none. -/
theorem scored_complete (hscored : isExcluded S.config event.path = false)
    (hcomplete : (e.scored S event).1.evidenceTruncated = false) :
    (e.scorer.evaluateWithApproval S event (behaviorApproval S.config event)).1.evidenceTruncated =
      false ∧
    (e.multiWindow.evaluate S event (adjustedFor S.config event)).1.truncated = false := by
  unfold DetectionEngine.scored at hcomplete
  rw [hscored, if_neg Bool.false_ne_true] at hcomplete
  exact Bool.or_eq_false_iff.1 hcomplete

theorem scored_state (hscored : isExcluded S.config event.path = false) :
    (e.scored S event).2.scorer =
      (e.scorer.evaluateWithApproval S event (behaviorApproval S.config event)).2 ∧
    (e.scored S event).2.multiWindow =
      (e.multiWindow.evaluate S event (adjustedFor S.config event)).2 := by
  unfold DetectionEngine.scored
  rw [hscored, if_neg Bool.false_ne_true]
  exact ⟨rfl, rfl⟩

/-- An evaluation of the scorers that reports no loss keeps the engine clean. -/
theorem Clean.scored (h : Clean S e past) (hscored : isExcluded S.config event.path = false)
    (hnow : lastTime past ≤ event.timestampMs) (hmax : event.timestampMs ≤ u64Max)
    (hcomplete : (e.scored S event).1.evidenceTruncated = false) :
    Clean S (e.scored S event).2 (event :: past) := by
  obtain ⟨hbase, hmulti⟩ := scored_complete hscored hcomplete
  obtain ⟨hscorer, hwindows⟩ := @scored_state S e event hscored
  obtain ⟨hshort, -⟩ := roomy_of_evaluation hmax hbase
  refine ⟨?_, ?_, ?_, fun henabled => ?_⟩
  · rw [hscorer]
    exact h.base.step hnow hshort
  · rw [hscorer]
    exact baseComplete_step h.baseComplete hmax hbase
  · rw [hscorer]
    exact h.bounded.step
  · obtain ⟨log, hkept, hlog, hwatermark, huntil⟩ := h.multi henabled
    rw [hwindows]
    have hnow' : e.multiWindow.watermark ≤ event.timestampMs := hwatermark.le.trans hnow
    have hsupported : unsupported S (e.multiWindow.advanced S event) event = false := by
      rw [evaluate_truncated henabled, Bool.or_eq_false_iff] at hmulti
      exact hmulti.1
    refine ⟨_, hkept.step henabled, ?_, ?_, ?_⟩
    · rw [List.map_append, hlog, acceptance_strip hkept.consistent henabled hsupported hnow', logOf_cons]
    · rw [evaluate_watermark hkept.consistent henabled, Nat.max_eq_right hnow']
      rfl
    · exact multiComplete_step hkept henabled huntil (by rw [Nat.max_eq_right hnow']; exact hmax) hmulti

theorem evaluate_disabled {m : MultiWindowScorer} {adjustedRules : List String}
    (h : S.config.multiWindow.enabled = false) : m.evaluate S event adjustedRules = ({}, m) := by
  unfold MultiWindowScorer.evaluate
  rw [h]
  rfl

theorem Clean.instanceScore (h : Clean S e past) (hnow : lastTime past ≤ event.timestampMs)
    (hmax : event.timestampMs ≤ u64Max)
    (hcomplete : (e.multiWindow.evaluate S event (adjustedFor S.config event)).1.truncated = false) :
    (e.multiWindow.evaluate S event (adjustedFor S.config event)).1.instanceScore =
      wholeInstanceScore S event past := by
  unfold wholeInstanceScore
  rcases henabled : S.config.multiWindow.enabled with _ | _
  · rw [evaluate_disabled henabled]
    rfl
  · obtain ⟨log, hkept, hlog, hwatermark, huntil⟩ := h.multi henabled
    have hnow' : e.multiWindow.watermark ≤ event.timestampMs := hwatermark.le.trans hnow
    have hsupported : unsupported S (e.multiWindow.advanced S event) event = false := by
      rw [evaluate_truncated henabled, Bool.or_eq_false_iff] at hcomplete
      exact hcomplete.1
    have hnone := multiComplete_step hkept henabled huntil
      (by rw [Nat.max_eq_right hnow']; exact hmax) hcomplete
    have hlogged : (log ++ (acceptance S e.multiWindow event
        (adjustedFor S.config event)).toList).map strip = logOf S (event :: past) := by
      rw [List.map_append, hlog, acceptance_strip hkept.consistent henabled hsupported hnow', logOf_cons]
    rw [(hkept.outcome henabled hcomplete (Or.inl hnone)).2, Nat.max_eq_right hnow', if_pos rfl]
    -- The numbers of the observations do not matter for the scores.
    simp only [← hlogged, allEvidence_strip, scores_strip]

/-- An evaluation of the scorers that reports no loss is a function of the events so far. -/
theorem Clean.assessment (h : Clean S e past) (hscored : isExcluded S.config event.path = false)
    (hnow : lastTime past ≤ event.timestampMs) (hmax : event.timestampMs ≤ u64Max)
    (hcomplete : (e.scored S event).1.evidenceTruncated = false) :
    ((e.scored S event).1.score, (e.scored S event).1.eligible) = assessment S event past := by
  obtain ⟨hbase, hmulti⟩ := scored_complete hscored hcomplete
  obtain ⟨hscore, heligible⟩ := h.base.evaluation hnow hmax hbase
  have hinstance := h.instanceScore hnow hmax hmulti
  unfold DetectionEngine.scored
  rw [hscored, if_neg Bool.false_ne_true]
  dsimp only
  unfold merged Detect.assessment
  dsimp only
  rw [hscore, heligible, hinstance]

/-- The canary files are not looked at by the scorers. -/
theorem evaluate_state : (e.evaluate S event).2.scorer = (e.scored S event).2.scorer ∧
    (e.evaluate S event).2.multiWindow = (e.scored S event).2.multiWindow := by
  unfold DetectionEngine.evaluate
  dsimp only
  split
  · unfold DetectionEngine.canaried
    dsimp only
    split
    · unfold DetectionEngine.canaryRoom
      split
      · rcases (e.scored S event).2.oldestCanary with _ | _
        · exact ⟨rfl, rfl⟩
        · exact ⟨rfl, rfl⟩
      · exact ⟨rfl, rfl⟩
    · exact ⟨rfl, rfl⟩
  · exact ⟨rfl, rfl⟩

theorem evaluate_assessment : ((e.evaluate S event).1.score, (e.evaluate S event).1.eligible) =
      (if tampersCanary S.config event then (max (e.scored S event).1.score 95, true)
      else ((e.scored S event).1.score, (e.scored S event).1.eligible)) ∧
    (e.evaluate S event).1.pid = (e.scored S event).1.pid ∧
    ((e.evaluate S event).1.evidenceTruncated = false →
      (e.scored S event).1.evidenceTruncated = false) := by
  unfold DetectionEngine.evaluate
  dsimp only
  split
  · unfold DetectionEngine.canaried
    dsimp only
    split
    · exact ⟨rfl, rfl, fun h => (Bool.or_eq_false_iff.1 h).1⟩
    · exact ⟨rfl, rfl, id⟩
  · exact ⟨rfl, rfl, id⟩

theorem Clean.congr {e' : DetectionEngine} (h : Clean S e past) (hscorer : e'.scorer = e.scorer)
    (hmulti : e'.multiWindow = e.multiWindow) : Clean S e' past := by
  refine ⟨?_, ?_, ?_, ?_⟩
  · rw [hscorer]
    exact h.base
  · rw [hscorer]
    exact h.baseComplete
  · rw [hscorer]
    exact h.bounded
  · rw [hmulti]
    exact h.multi

theorem scored_excluded (h : isExcluded S.config event.path = true) :
    e.scored S event = (excludedEvaluation event, e) := by
  unfold DetectionEngine.scored
  rw [if_pos h]

/-- What is in the past of the scorers after an event. -/
def pastWith (S : Setup) (event : FileEvent) (past : List FileEvent) : List FileEvent :=
  if isExcluded S.config event.path then past else event :: past

/-- An evaluation without a loss keeps the engine clean, and is a function of the events so far. -/
theorem Clean.step (h : Clean S e past) (hnow : lastTime past ≤ event.timestampMs)
    (hmax : event.timestampMs ≤ u64Max)
    (hcomplete : (e.scored S event).1.evidenceTruncated = false) :
    Clean S (e.evaluate S event).2 (pastWith S event past) ∧
    ((e.evaluate S event).1.score, (e.evaluate S event).1.eligible) = assessed S event past := by
  obtain ⟨hscorer, hmulti⟩ := @evaluate_state S e event
  obtain ⟨hassessment, -, -⟩ := @evaluate_assessment S e event
  rw [hassessment]
  unfold pastWith assessed
  dsimp only
  rcases hexcluded : isExcluded S.config event.path with _ | _
  · have hassessed := h.assessment hexcluded hnow hmax hcomplete
    rw [if_neg Bool.false_ne_true, if_neg Bool.false_ne_true, ← hassessed]
    exact ⟨(h.scored hexcluded hnow hmax hcomplete).congr hscorer hmulti, rfl⟩
  · rw [scored_excluded hexcluded] at hscorer hmulti ⊢
    exact ⟨h.congr hscorer hmulti, rfl⟩

end Clean

/-! ## A thinner run -/

section Thinner

variable {S : Setup} {past : List FileEvent} {event : FileEvent}

/-- The windows that are left when an event comes, of a scorer that has lost nothing. -/
theorem Reflects.retained_lookup {A : FileEvent → Option String} {s : BehaviorScorer}
    (h : Reflects S A s past) (hs : s.incompleteUntil = none) (hnow : lastTime past ≤ event.timestampMs)
    (hmax : event.timestampMs ≤ u64Max) (pid : Nat) :
    (s.retained S event.timestampMs).windows.lookup pid =
      if evidence A pid (event.timestampMs - windowMs S) past = [] then none
      else some (entriesOf S (evidence A pid (event.timestampMs - windowMs S) past)) := by
  have hcomplete : s.lacking event.timestampMs = false := by
    unfold BehaviorScorer.lacking
    rw [hs]
    rfl
  have hwindow := (h.knows event.timestampMs hnow hmax hcomplete).windows pid
  rw [Detect.retained_lookup]
  rcases hlookup : s.windows.lookup pid with _ | window
  · rw [hlookup] at hwindow
    rw [if_pos (entriesOf_eq_nil.1 hwindow.symm)]
    rfl
  · rw [hlookup, Option.getD_some] at hwindow
    rw [Option.bind_some]
    unfold unexpired
    rw [hwindow]
    simp only [entriesOf_eq_nil]

/-- The evidence of one past is nowhere more than that of another. -/
structure Thinner (S : Setup) (pastB pastA : List FileEvent) : Prop where
  sublist : pastB.Sublist pastA
  evidence : ∀ pid horizon, (evidence (behaviorApproval S.config) pid horizon pastB).length ≤
    (evidence (behaviorApproval S.config) pid horizon pastA).length

theorem entriesOf_length (events : List FileEvent) : (entriesOf S events).length = events.length := by
  unfold entriesOf
  rw [List.length_reverse, List.length_map]

/-- Where there is room for an event there is room for it in a thinner run. -/
theorem roomy_of_thinner {a b : BehaviorScorer} {pastA pastB : List FileEvent}
    (hA : Reflects S (behaviorApproval S.config) a pastA) (hB : Reflects S (behaviorApproval S.config) b pastB)
    (ha : a.incompleteUntil = none) (hb : b.incompleteUntil = none) (hbounded : Bounded S a)
    (hnowA : lastTime pastA ≤ event.timestampMs) (hnowB : lastTime pastB ≤ event.timestampMs)
    (hmax : event.timestampMs ≤ u64Max) (hthin : Thinner S pastB pastA)
    (hroom : Roomy S (a.retained S event.timestampMs) event.pid) :
    Roomy S (b.retained S event.timestampMs) event.pid := by
  have hlookup : ∀ pid window, (b.retained S event.timestampMs).windows.lookup pid = some window →
      ∃ window', (a.retained S event.timestampMs).windows.lookup pid = some window' ∧
        window.length ≤ window'.length := by
    intro pid window hwindow
    have hle := hthin.evidence pid (event.timestampMs - windowMs S)
    rw [hB.retained_lookup hb hnowB hmax] at hwindow
    rw [hA.retained_lookup ha hnowA hmax]
    split at hwindow
    · cases hwindow
    next hsome =>
      obtain rfl := Option.some.inj hwindow
      have hsome' : evidence (behaviorApproval S.config) pid (event.timestampMs - windowMs S) pastA ≠ [] := by
        intro hnil
        rw [hnil] at hle
        exact hsome (List.eq_nil_of_length_eq_zero (Nat.le_zero.1 hle))
      rw [if_neg hsome']
      exact ⟨_, rfl, by rw [entriesOf_length, entriesOf_length]; exact hle⟩
  have hkeys : ∀ pid ∈ (b.retained S event.timestampMs).windows,
      pid ∈ (a.retained S event.timestampMs).windows := by
    intro pid hpid
    obtain ⟨window, hwindow⟩ := mem_iff_lookup.1 hpid
    obtain ⟨window', hwindow', -⟩ := hlookup pid window hwindow
    exact mem_iff_lookup.2 ⟨window', hwindow'⟩
  refine ⟨fun hnew => ?_, lt_of_le_of_lt (sumOver_le _ _ hlookup) hroom.events⟩
  by_cases hold : event.pid ∈ (a.retained S event.timestampMs).windows
  · exact lt_of_lt_of_le (length_lt_of_keys hkeys hnew hold) hbounded.retained.groups
  · exact lt_of_le_of_lt (length_le_of_keys hkeys) (hroom.groups hold)

/-- The scorer of processes loses nothing in a thinner run. -/
theorem baseComplete_of_thinner {a b : BehaviorScorer} {pastA pastB : List FileEvent}
    (hA : Reflects S (behaviorApproval S.config) a pastA) (hB : Reflects S (behaviorApproval S.config) b pastB)
    (ha : a.incompleteUntil = none) (hb : b.incompleteUntil = none) (hbounded : Bounded S a)
    (hnowA : lastTime pastA ≤ event.timestampMs) (hnowB : lastTime pastB ≤ event.timestampMs)
    (hmax : event.timestampMs ≤ u64Max) (hthin : Thinner S pastB pastA)
    (hcomplete : (a.evaluateWithApproval S event
      (behaviorApproval S.config event)).1.evidenceTruncated = false) :
    (b.evaluateWithApproval S event (behaviorApproval S.config event)).1.evidenceTruncated = false := by
  obtain ⟨hshort, hroom⟩ := roomy_of_evaluation hmax hcomplete
  have hroom' := roomy_of_thinner hA hB ha hb hbounded hnowA hnowB hmax hthin hroom
  rw [evaluateWithApproval_truncated, hshort, Bool.false_or]
  unfold BehaviorScorer.lacking
  rw [prepared_incompleteUntil hroom', hb]
  rfl

/-- A loss that is marked stays marked while an event joins its groups. -/
theorem joinGroups_none {m : MultiWindowScorer} {entry : Observation} {joining : List Group}
    (h : (joining.foldl (MultiWindowScorer.joinGroup S entry) m).incompleteUntil = none) :
    m.incompleteUntil = none := by
  induction joining generalizing m with
  | nil => exact h
  | cons g rest ih =>
    have hjoined : (m.joinGroup S entry g).incompleteUntil = none := ih h
    have hnext : (m.makeGroup S g).incompleteUntil = none := hjoined
    unfold MultiWindowScorer.makeGroup at hnext
    split at hnext
    · rcases hoid : m.oldestGroup with _ | oldest
      · rw [hoid] at hnext
        exact hnext
      · rw [hoid] at hnext
        cases hnext
    · exact hnext

/-- A group for which no other had to go. -/
theorem makeGroup_none {m : MultiWindowScorer} {g : Group}
    (h : (m.makeGroup S g).incompleteUntil = none) (hfew : m.groups.entries.length ≤ maxGroups S) :
    (g ∈ m.groups ∨ m.groups.entries.length < maxGroups S) ∧ m.makeGroup S g = m := by
  have hpos := @maxGroups_pos S
  by_cases hfull : g ∉ m.groups ∧ maxGroups S ≤ m.groups.entries.length
  · obtain ⟨oldest, holdest⟩ := exists_leastKey (fun group (state : GroupState) =>
      toLex ((state.events.getLast?.map (·.timestampMs)).getD 0, group.rank)) (hpos.trans_le hfull.2)
    have hsome : m.oldestGroup = some oldest := holdest
    unfold MultiWindowScorer.makeGroup at h
    rw [if_pos hfull, hsome] at h
    cases h
  · refine ⟨?_, ?_⟩
    · by_cases hmem : g ∈ m.groups
      · exact Or.inl hmem
      · refine Or.inr ?_
        by_contra hle
        exact hfull ⟨hmem, by omega⟩
    · unfold MultiWindowScorer.makeGroup
      rw [if_neg hfull]

/-- Where no group had to go, none has to go in a scorer with fewer groups. -/
theorem joinGroups_complete {entryA entryB : Observation} {joining : List Group}
    {a b : MultiWindowScorer} (hkeys : ∀ g ∈ b.groups, g ∈ a.groups)
    (hfew : a.groups.entries.length ≤ maxGroups S)
    (ha : (joining.foldl (MultiWindowScorer.joinGroup S entryA) a).incompleteUntil = none)
    (hb : b.incompleteUntil = none) :
    (joining.foldl (MultiWindowScorer.joinGroup S entryB) b).incompleteUntil = none := by
  induction joining generalizing a b with
  | nil => exact hb
  | cons g rest ih =>
    have hjoined : (a.joinGroup S entryA g).incompleteUntil = none := joinGroups_none ha
    have hstep : (a.makeGroup S g).incompleteUntil = none := hjoined
    obtain ⟨hroom, hsame⟩ := makeGroup_none hstep hfew
    have hroom' : ¬ (g ∉ b.groups ∧ maxGroups S ≤ b.groups.entries.length) := by
      rintro ⟨hnew, hfull⟩
      rcases hroom with hmem | hlt
      · have := length_lt_of_keys hkeys hnew hmem
        omega
      · have := length_le_of_keys hkeys
        omega
    have hsame' : b.makeGroup S g = b := if_neg hroom'
    rw [List.foldl_cons] at ha ⊢
    obtain ⟨stateA, hgroups⟩ : ∃ state, (a.joinGroup S entryA g).groups = a.groups.insert g state :=
      ⟨_, by rw [joinGroup_groups, hsame]⟩
    obtain ⟨stateB, hgroups'⟩ : ∃ state, (b.joinGroup S entryB g).groups = b.groups.insert g state :=
      ⟨_, by rw [joinGroup_groups, hsame']⟩
    refine ih (fun g' hg' => ?_) ?_ ha ?_
    · rw [hgroups'] at hg'
      rw [hgroups, AList.mem_insert]
      rcases (AList.mem_insert _).1 hg' with rfl | hmem
      · exact Or.inl rfl
      · exact Or.inr (hkeys g' hmem)
    · rw [hgroups]
      by_cases hmem : g ∈ a.groups
      · rw [length_insert_of_mem hmem]
        exact hfew
      · have := hroom.resolve_left hmem
        rw [AList.entries_insert_of_notMem hmem, List.length_cons]
        omega
    · show (b.makeGroup S g).incompleteUntil = none
      rw [hsame', hb]

/-- The marks of an insertion. -/
theorem inserted_incompleteUntil {m : MultiWindowScorer} {included : List Group}
    (haccept : included ≠ [] ∧ countedAction event.action) :
    (m.inserted S event included).incompleteUntil =
      (included.foldl (MultiWindowScorer.joinGroup S ((m.makeRoom S).observation S event included))
        { m.makeRoom S with
          sequence := ((m.makeRoom S).observation S event included).sequence }).incompleteUntil := by
  unfold MultiWindowScorer.inserted
  rw [if_pos haccept]

/-- Where an event found room, it finds room in a scorer with fewer events and groups. -/
theorem inserted_complete {a b : MultiWindowScorer} {included : List Group} (hA : Consistent S a)
    (hkeys : ∀ g ∈ b.groups, g ∈ a.groups) (hevents : b.events.length ≤ a.events.length)
    (ha : (a.inserted S event included).incompleteUntil = none) (hb : b.incompleteUntil = none) :
    (b.inserted S event included).incompleteUntil = none := by
  by_cases haccept : included ≠ [] ∧ countedAction event.action
  · rw [inserted_incompleteUntil haccept] at ha ⊢
    have hstart := joinGroups_none ha
    have hnone : (a.makeRoom S).incompleteUntil = none := hstart
    have hfits : a.events.length < maxEvents S := by
      by_contra hfull
      unfold MultiWindowScorer.makeRoom at hnone
      rw [if_pos (by omega)] at hnone
      have htruncated : Consistent S (a.truncate S a.watermark) :=
        ⟨hA.live, hA.ends, hA.sorted, hA.numbered, hA.counted, hA.counter, hA.past, hA.nodup,
          hA.fewEvents, hA.fewGroups⟩
      rw [(htruncated.expireFronts _).2.2.2.2] at hnone
      cases hnone
    have hsameA : a.makeRoom S = a := if_neg (by omega)
    have hsameB : b.makeRoom S = b := if_neg (by omega)
    rw [hsameA] at ha
    rw [hsameB]
    exact joinGroups_complete
      (a := { a with sequence := (a.observation S event included).sequence })
      (b := { b with sequence := (b.observation S event included).sequence }) hkeys hA.fewGroups ha hb
  · unfold MultiWindowScorer.inserted
    rw [if_neg haccept]
    exact hb

/-- What is left of the log when an event comes. -/
theorem advanced_of_clean {m : MultiWindowScorer} {log : List Observation} (h : Kept S m log)
    (huntil : m.incompleteUntil = none) (hnow : m.watermark ≤ event.timestampMs) :
    Full (m.advanced S event) ∧ (m.advanced S event).events =
      log.filter fun o => event.timestampMs - horizonMs S ≤ o.timestampMs := by
  obtain ⟨-, hevents, -, -, -, hfull, -⟩ := @advanced_spec S m event h.consistent
  obtain ⟨hfull', hrecent⟩ := h.full huntil
  rw [Nat.max_eq_right hnow] at hevents
  exact ⟨hfull hfull', hevents.trans (filter_later (by omega) hrecent)⟩

theorem logOf_sublist {pastA pastB : List FileEvent} (h : pastB.Sublist pastA) :
    (logOf S pastB).Sublist (logOf S pastA) :=
  ((h.filter _).map _).reverse

/-- The scorer of groups loses nothing in a thinner run. -/
theorem multiComplete_of_thinner {a b : MultiWindowScorer} {logA logB : List Observation}
    {pastA pastB : List FileEvent} (henabled : S.config.multiWindow.enabled = true)
    (hA : Kept S a logA) (hB : Kept S b logB) (hlogA : logA.map strip = logOf S pastA)
    (hlogB : logB.map strip = logOf S pastB) (ha : a.incompleteUntil = none)
    (hb : b.incompleteUntil = none) (hnowA : a.watermark ≤ event.timestampMs)
    (hnowB : b.watermark ≤ event.timestampMs) (hmax : event.timestampMs ≤ u64Max)
    (hsublist : pastB.Sublist pastA)
    (hcomplete : (a.evaluate S event (adjustedFor S.config event)).1.truncated = false) :
    (b.evaluate S event (adjustedFor S.config event)).1.truncated = false := by
  have hnone := multiComplete_step hA henabled ha (by rw [Nat.max_eq_right hnowA]; exact hmax) hcomplete
  rw [evaluate_truncated henabled, Bool.or_eq_false_iff] at hcomplete ⊢
  obtain ⟨hsupported, -⟩ := hcomplete
  rw [evaluate_supported henabled hsupported] at hnone
  obtain ⟨hconsistentA, -, -, htimeA, -⟩ := @advanced_spec S a event hA.consistent
  obtain ⟨hconsistentB, -, -, htimeB, huntilB, -⟩ := @advanced_spec S b event hB.consistent
  obtain ⟨hfullA, heventsA⟩ := @advanced_of_clean S event a logA hA ha hnowA
  obtain ⟨hfullB, heventsB⟩ := @advanced_of_clean S event b logB hB hb hnowB
  -- Without their numbers, the events of the thinner run are among the others.
  have hevents : ((b.advanced S event).events.map strip).Sublist
      ((a.advanced S event).events.map strip) := by
    have hstrip : ∀ log : List Observation,
        (log.filter fun o => event.timestampMs - horizonMs S ≤ o.timestampMs).map strip =
          (log.map strip).filter fun o => event.timestampMs - horizonMs S ≤ o.timestampMs := by
      intro log
      rw [List.filter_map]
      rfl
    rw [heventsA, heventsB, hstrip, hstrip, hlogA, hlogB]
    exact (logOf_sublist hsublist).filter _
  have hkeys : ∀ g ∈ (b.advanced S event).groups, g ∈ (a.advanced S event).groups := by
    intro g hg
    have hsome := hconsistentB.live g hg
    by_contra hno
    have hnil := eventsIn_of_notMem hno
    rw [hfullA g] at hnil
    rw [hfullB g] at hsome
    have hjoined : ((joined g (b.advanced S event).events).map strip).Sublist
        ((joined g (a.advanced S event).events).map strip) := by
      rw [← joined_strip, ← joined_strip]
      exact hevents.filter _
    rw [hnil, List.map_nil, List.sublist_nil, List.map_eq_nil_iff] at hjoined
    exact hsome hjoined
  constructor
  · unfold unsupported at hsupported ⊢
    rw [htimeA, Nat.max_eq_right hnowA] at hsupported
    rwa [htimeB, Nat.max_eq_right hnowB]
  · unfold MultiWindowScorer.lacking
    have hcompleteB : (observed S b event (adjustedFor S.config event)).incompleteUntil = none := by
      refine inserted_complete hconsistentA hkeys ?_ hnone (huntilB.trans hb)
      have := hevents.length_le
      rwa [List.length_map, List.length_map] at this
    rw [hcompleteB]
    rfl

/-- A thinner run loses nothing either. -/
theorem Clean.complete_of_thinner {a b : DetectionEngine} {pastA pastB : List FileEvent}
    (hA : Clean S a pastA) (hB : Clean S b pastB) (hnowA : lastTime pastA ≤ event.timestampMs)
    (hnowB : lastTime pastB ≤ event.timestampMs) (hmax : event.timestampMs ≤ u64Max)
    (hthin : Thinner S pastB pastA) (hcomplete : (a.scored S event).1.evidenceTruncated = false) :
    (b.scored S event).1.evidenceTruncated = false := by
  rcases hexcluded : isExcluded S.config event.path with _ | _
  · obtain ⟨hbase, hmulti⟩ := scored_complete hexcluded hcomplete
    have hbase' := baseComplete_of_thinner hA.base hB.base hA.baseComplete hB.baseComplete hA.bounded
      hnowA hnowB hmax hthin hbase
    have hmulti' : (b.multiWindow.evaluate S event (adjustedFor S.config event)).1.truncated = false := by
      rcases henabled : S.config.multiWindow.enabled with _ | _
      · rw [evaluate_disabled henabled]
      · obtain ⟨logA, hkeptA, hlogA, htimeA, huntilA⟩ := hA.multi henabled
        obtain ⟨logB, hkeptB, hlogB, htimeB, huntilB⟩ := hB.multi henabled
        exact multiComplete_of_thinner henabled hkeptA hkeptB hlogA hlogB huntilA huntilB
          (htimeA.le.trans hnowA) (htimeB.le.trans hnowB) hmax hthin.sublist hmulti
    unfold DetectionEngine.scored
    rw [hexcluded, if_neg Bool.false_ne_true]
    exact Bool.or_eq_false_iff.2 ⟨hbase', hmulti'⟩
  · rw [scored_excluded hexcluded]
    rfl

end Thinner

end Argos.Detect
