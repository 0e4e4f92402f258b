import Argos.Detect.TwoRuns

/-!
# What approved changes withhold

An approved change keeps an event out of the evidence of the rules that it adjusts, and nothing
else. What is kept out at an event (`DetectionEngine.withheld`) depends on the approved changes, on
the event and on the time of the aggregation, not on what was kept out before. So an engine whose
changes adjust less meets the same withholdings (`approvedChangeId_eq`), and two engines that
withhold the same from every event of a run are the same engine (`evaluations_approving`).
-/

namespace Argos.Detect

open Argos.Common
open Argos.Lib

/-- The setup with other approved changes. -/
def Setup.approving (S : Setup) (changes : List ApprovedChange) : Setup :=
  { S with config := { S.config with approvedChanges := changes } }

section Time

variable {S : Setup} {m : MultiWindowScorer} {event : FileEvent}

theorem expireBefore_watermark (horizon n : Nat) (m : MultiWindowScorer) :
    (MultiWindowScorer.expireBefore horizon n m).watermark = m.watermark := by
  induction n generalizing m with
  | zero => rfl
  | succ n ih =>
    rw [MultiWindowScorer.expireBefore]
    split
    · rw [ih, expireFront_frame.2.1]
    · rfl

theorem advanced_watermark : (m.advanced S event).watermark = max m.watermark event.timestampMs :=
  expireBefore_watermark _ _ _

theorem joinGroups_watermark {entry : Observation} (included : List Group) (m : MultiWindowScorer) :
    (included.foldl (MultiWindowScorer.joinGroup S entry) m).watermark = m.watermark := by
  induction included generalizing m with
  | nil => rfl
  | cons group rest ih =>
    rw [List.foldl_cons, ih]
    unfold MultiWindowScorer.joinGroup MultiWindowScorer.makeGroup
    dsimp only
    split
    · rcases m.oldestGroup with _ | _ <;> rfl
    · rfl

theorem inserted_watermark (included : List Group) :
    (m.inserted S event included).watermark = m.watermark := by
  have hfronts : ∀ (n : Nat) (m : MultiWindowScorer),
      (MultiWindowScorer.expireFront^[n] m).watermark = m.watermark := by
    intro n
    induction n with
    | zero => exact fun _ => rfl
    | succ n ih =>
      intro m
      rw [Function.iterate_succ_apply, ih, expireFront_frame.2.1]
  unfold MultiWindowScorer.inserted
  split
  · dsimp only
    rw [joinGroups_watermark]
    unfold MultiWindowScorer.makeRoom
    dsimp only
    split
    · exact hfronts _ _
    · rfl
  · rfl

/-- The time of the aggregation after an event. -/
def timeAfter (S : Setup) (time : Nat) (event : FileEvent) : Nat :=
  if isExcluded S.config event.path || !S.config.multiWindow.enabled then time
  else max time event.timestampMs

theorem evaluate_time {rules : List String} : (m.evaluate S event rules).2.watermark =
    if S.config.multiWindow.enabled then max m.watermark event.timestampMs else m.watermark := by
  rcases henabled : S.config.multiWindow.enabled with _ | _
  · rw [evaluate_disabled henabled]
    rfl
  · rcases hsupported : unsupported S (m.advanced S event) event with _ | _
    · rw [evaluate_supported henabled hsupported]
      exact (inserted_watermark _).trans advanced_watermark
    · rw [evaluate_unsupported henabled hsupported]
      exact advanced_watermark

/-- The time does not depend on what is approved. -/
theorem after_time (e : DetectionEngine) (events : List FileEvent) :
    (e.after S events).multiWindow.watermark = events.foldl (timeAfter S) e.multiWindow.watermark := by
  induction events generalizing e with
  | nil => rfl
  | cons event rest ih =>
    have hevent : (e.evaluate S event).2.multiWindow.watermark =
        timeAfter S e.multiWindow.watermark event := by
      rw [evaluate_state.2]
      unfold DetectionEngine.scored timeAfter
      rcases isExcluded S.config event.path with _ | _
      · rw [if_neg Bool.false_ne_true, evaluate_time]
        rcases S.config.multiWindow.enabled with _ | _ <;> rfl
      · rfl
    rw [List.foldl_cons, ← hevent]
    exact ih _

end Time

/-! ## What is withheld -/

/-- The aggregation at a time takes an event: it is not late, and its path can be kept. -/
def supportedAt (S : Setup) (time : Nat) (event : FileEvent) : Bool :=
  S.config.multiWindow.enabled && !(event.timestampMs < max time event.timestampMs ||
    event.path.utf8ByteSize > S.config.multiWindow.maxPathBytes || !absoluteCleanPath event.path)

/-- An event is given to a rule, unless it is approved: every event to the behaviour rule, and the
actions that are evidence to the rules of the groups that they belong to. -/
def given (S : Setup) (time : Nat) (event : FileEvent) (rule : String) : Bool :=
  !isExcluded S.config event.path &&
    (rule = behaviorRule || supportedAt S time event && countedAction event.action &&
      (groupKeys S.config.multiWindow event).any fun key => key.rule = rule)

/-- The approved change for which an event is kept out of the evidence of a rule. -/
def withheldAt (S : Setup) (time : Nat) (event : FileEvent) (rule : String) : Option ApprovedChange :=
  if given S time event rule then
    (approvalOf S.config event).filter fun change => change.adjustedRules.contains rule
  else none

/-- The approved change for which an engine keeps an event out of the evidence of a rule. -/
def DetectionEngine.withheld (S : Setup) (e : DetectionEngine) (event : FileEvent) (rule : String) :
    Option ApprovedChange :=
  withheldAt S e.multiWindow.watermark event rule

section Withheld

variable {S : Setup} {e : DetectionEngine} {event : FileEvent}

theorem unsupported_advanced {m : MultiWindowScorer} (henabled : S.config.multiWindow.enabled = true) :
    unsupported S (m.advanced S event) event = !supportedAt S m.watermark event := by
  unfold unsupported supportedAt
  rw [advanced_watermark, henabled, Bool.true_and, Bool.not_not]

/-- Some group of an event is left out. -/
theorem includedKeys_lt_iff {rules : List String} :
    (includedKeys S.config.multiWindow event rules).length <
      (groupKeys S.config.multiWindow event).length ↔
    ∃ key ∈ groupKeys S.config.multiWindow event, key.rule ∈ rules := by
  unfold includedKeys
  rw [List.length_filter_lt_length_iff_exists]
  simp

/-- What is approved leaves nothing else in an outcome. -/
theorem groupOutcomes_approving {now : Nat} {truncated : Bool} (keys : List Group)
    (outcome : MultiOutcome) (groups : Map Group GroupState) (applied : Bool) :
    keys.foldl (groupOutcome S now truncated) ({ outcome with approvalApplied := applied }, groups) =
      ({ (keys.foldl (groupOutcome S now truncated) (outcome, groups)).1 with
          approvalApplied := applied },
        (keys.foldl (groupOutcome S now truncated) (outcome, groups)).2) := by
  have hwindows : ∀ (group : Group) (events : List Observation) (windows : List DetectionWindow)
      (outcome : MultiOutcome) (emitted : Map Nat (Nat × ℚ)),
      windows.foldl (windowOutcome S now truncated group events)
          ({ outcome with approvalApplied := applied }, emitted) =
        ({ (windows.foldl (windowOutcome S now truncated group events) (outcome, emitted)).1 with
            approvalApplied := applied },
          (windows.foldl (windowOutcome S now truncated group events) (outcome, emitted)).2) := by
    intro group events windows
    induction windows with
    | nil => exact fun _ _ => rfl
    | cons window rest ih =>
      intro outcome emitted
      have hwindow : windowOutcome S now truncated group events
          ({ outcome with approvalApplied := applied }, emitted) window =
            ({ (windowOutcome S now truncated group events (outcome, emitted) window).1 with
                approvalApplied := applied },
              (windowOutcome S now truncated group events (outcome, emitted) window).2) := by
        unfold windowOutcome
        dsimp only
        split
        · rfl
        · split <;> split <;> rfl
      rw [List.foldl_cons, List.foldl_cons, hwindow]
      exact ih _ _
  induction keys generalizing outcome groups with
  | nil => rfl
  | cons key rest ih =>
    have hkey : groupOutcome S now truncated ({ outcome with approvalApplied := applied }, groups) key =
        ({ (groupOutcome S now truncated (outcome, groups) key).1 with approvalApplied := applied },
          (groupOutcome S now truncated (outcome, groups) key).2) := by
      unfold groupOutcome
      dsimp only
      rcases groups.lookup key with _ | state
      · rfl
      · dsimp only
        rw [hwindows]
    rw [List.foldl_cons, List.foldl_cons, hkey]
    exact ih _ _

theorem evaluate_approvalApplied {m : MultiWindowScorer} {rules : List String} :
    (m.evaluate S event rules).1.approvalApplied = true ↔
      supportedAt S m.watermark event = true ∧
        ∃ key ∈ groupKeys S.config.multiWindow event, key.rule ∈ rules := by
  rcases henabled : S.config.multiWindow.enabled with _ | _
  · rw [evaluate_disabled henabled, supportedAt, henabled, Bool.false_and]
    simp
  · rcases hsupported : unsupported S (m.advanced S event) event with _ | _
    · rw [evaluate_supported henabled hsupported, ← includedKeys_lt_iff]
      rw [unsupported_advanced henabled, Bool.not_eq_false'] at hsupported
      dsimp only
      rw [groupOutcomes_approving _ { truncated := _ } _ (decide _), hsupported]
      simp
    · rw [evaluate_unsupported henabled hsupported]
      rw [unsupported_advanced henabled, Bool.not_eq_true'] at hsupported
      rw [hsupported]
      simp

/-- The behaviour of a process is evaluated alike, whatever the approval is. -/
theorem evaluateWithApproval_approving {s : BehaviorScorer} {approved approved' : Option String}
    (h : approved.isSome = approved'.isSome) :
    s.evaluateWithApproval S event approved' =
      ({ (s.evaluateWithApproval S event approved).1 with approvedChangeId := approved' },
        (s.evaluateWithApproval S event approved).2) := by
  have hwindow : ∀ s : BehaviorScorer,
      s.windowWith S event approved' = s.windowWith S event approved := by
    intro s
    unfold BehaviorScorer.windowWith
    rw [← Option.not_isSome, ← Option.not_isSome, h]
  unfold BehaviorScorer.evaluateWithApproval
  dsimp only
  split
  · rfl
  · have hentered : ∀ s : BehaviorScorer, s.entered S event approved' = s.entered S event approved := by
      intro s
      unfold BehaviorScorer.entered
      rw [hwindow]
    rw [hwindow, hentered]
    unfold BehaviorScorer.alerted
    dsimp only [BehaviorScorer.assessed]
    split
    · rfl
    · rfl

theorem evaluateWithApproval_approvedChangeId {s : BehaviorScorer} {approved : Option String} :
    (s.evaluateWithApproval S event approved).1.approvedChangeId = approved := by
  rw [@evaluateWithApproval_approving S event s approved approved rfl]

/-- The approved change of an evaluation. -/
theorem evaluate_approvedChangeId : (e.evaluate S event).1.approvedChangeId =
    if isExcluded S.config event.path then none
    else if supportedAt S e.multiWindow.watermark event = true ∧
        ∃ key ∈ groupKeys S.config.multiWindow event, key.rule ∈ adjustedFor S.config event then
      (approvalOf S.config event).map (·.id)
    else behaviorApproval S.config event := by
  have hscored : (e.evaluate S event).1.approvedChangeId = (e.scored S event).1.approvedChangeId := by
    unfold DetectionEngine.evaluate
    dsimp only
    split
    · unfold DetectionEngine.canaried
      dsimp only
      split
      · rfl
      · rfl
    · rfl
  rw [hscored]
  unfold DetectionEngine.scored
  rcases isExcluded S.config event.path with _ | _
  · rw [if_neg Bool.false_ne_true, if_neg Bool.false_ne_true]
    dsimp only [merged]
    rw [evaluateWithApproval_approvedChangeId]
    exact if_congr evaluate_approvalApplied rfl rfl
  · rfl

end Withheld

/-! ## Changes that adjust one rule -/

/-- An approved change that adjusts one rule at most. -/
def ApprovedChange.only (rule : String) (change : ApprovedChange) : ApprovedChange :=
  { change with adjustedRules := change.adjustedRules.filter (· = rule) }

/-- The rules that changes can adjust. -/
def adjustableRules : List String := behaviorRule :: multiWindowRules

theorem Group.rule_mem (group : Group) : group.rule ∈ multiWindowRules := by
  cases group <;> simp [Group.rule, multiWindowRules]

section Only

variable {S : Setup} {e : DetectionEngine} {event : FileEvent} {rule : String}

theorem approvalOf_only (rule : String) (changes : List ApprovedChange) :
    approvalOf (S.approving (changes.map (.only rule))).config event =
      (approvalOf (S.approving changes).config event).map (.only rule) :=
  List.find?_map ..

/-- The approved change of an evaluation tells for which change the engine would keep the event out
of the evidence of a rule, if the changes adjust no other. -/
theorem approvedChangeId_only (changes : List ApprovedChange)
    (hcounted : rule = behaviorRule ∨ countedAction event.action = true) :
    (e.evaluate (S.approving (changes.map (.only rule))) event).1.approvedChangeId =
      (withheldAt (S.approving changes) e.multiWindow.watermark event rule).map (·.id) := by
  have honly := @approvalOf_only S event rule changes
  rw [evaluate_approvedChangeId, adjustedFor, behaviorApproval, honly, withheldAt]
  rcases approvalOf (S.approving changes).config event with _ | change
  · simp
  have hkept : ∀ other, other ∈ (ApprovedChange.only rule change).adjustedRules ↔
      other = rule ∧ rule ∈ change.adjustedRules := by
    intro other
    simp only [ApprovedChange.only, List.mem_filter, decide_eq_true_eq]
    exact ⟨fun ⟨hmem, heq⟩ => ⟨heq, heq ▸ hmem⟩, fun ⟨heq, hmem⟩ => ⟨heq ▸ hmem, heq⟩⟩
  have hgroups : (∃ key ∈ groupKeys S.config.multiWindow event,
      key.rule ∈ (ApprovedChange.only rule change).adjustedRules) ↔
      (groupKeys S.config.multiWindow event).any (fun key => key.rule = rule) = true ∧
        rule ∈ change.adjustedRules := by
    simp only [hkept, List.any_eq_true, decide_eq_true_eq]
    exact ⟨fun ⟨key, hkey, heq, hmem⟩ => ⟨⟨key, hkey, heq⟩, hmem⟩,
      fun ⟨⟨key, hkey, heq⟩, hmem⟩ => ⟨key, hkey, heq, hmem⟩⟩
  have hany : ((ApprovedChange.only rule change).adjustedRules.any fun x => x = behaviorRule) =
      decide (rule = behaviorRule ∧ rule ∈ change.adjustedRules) := by
    rw [Bool.eq_iff_iff]
    simp only [List.any_eq_true, decide_eq_true_eq, hkept]
    exact ⟨fun ⟨_, ⟨heq, hmem⟩, hrule⟩ => ⟨heq.symm.trans hrule, hmem⟩,
      fun ⟨heq, hmem⟩ => ⟨rule, ⟨rfl, hmem⟩, heq⟩⟩
  simp only [Option.map_some, Option.elim_some, Option.filter_some, hany]
  show (if isExcluded S.config event.path then none
    else if supportedAt S e.multiWindow.watermark event = true ∧
        ∃ key ∈ groupKeys S.config.multiWindow event,
          key.rule ∈ (ApprovedChange.only rule change).adjustedRules then some change.id else _) =
      Option.map _ (if given S e.multiWindow.watermark event rule = true then _ else none)
  rw [given]
  rcases isExcluded S.config event.path with _ | _
  · rw [if_neg Bool.false_ne_true]
    by_cases hmem : rule ∈ change.adjustedRules
    · by_cases hbehavior : rule = behaviorRule
      · -- no group has the behaviour rule
        have hnone : ¬∃ key ∈ groupKeys S.config.multiWindow event,
            key.rule ∈ (ApprovedChange.only rule change).adjustedRules := by
          rintro ⟨key, -, hkey⟩
          exact absurd (hbehavior ▸ ((hkept _).1 hkey).1 ▸ key.rule_mem) (by decide)
        rw [if_neg (not_and_of_not_right _ hnone), decide_eq_true ⟨hbehavior, hmem⟩,
          decide_eq_true hbehavior]
        simp only [hmem, List.contains_eq_mem, decide_true, Bool.true_or, Bool.not_false, Bool.and_self,
          if_true, Option.map_some]
        rfl
      · have hcounts := hcounted.resolve_left hbehavior
        rw [hcounts]
        simp [hgroups, hbehavior, hmem]
    · simp [hgroups, hmem]
  · rfl

end Only

/-! ## Changes that withhold the same -/

/-- An evaluation without its approved change. -/
def Evaluation.unapproved (v : Evaluation) : Evaluation := { v with approvedChangeId := none }

/-- Other changes keep an event out of the evidence of the same rules. -/
def SameWithheld (S : Setup) (changes : List ApprovedChange) (time : Nat) (event : FileEvent) : Prop :=
  ∀ rule ∈ adjustableRules,
    (withheldAt (S.approving changes) time event rule).isSome = (withheldAt S time event rule).isSome

section Same

variable {S : Setup} {e : DetectionEngine} {event : FileEvent} {changes : List ApprovedChange}

theorem behaviorApproval_isSome (hincluded : isExcluded S.config event.path = false) :
    (behaviorApproval S.config event).isSome =
      (withheldAt S e.multiWindow.watermark event behaviorRule).isSome := by
  have hrules : ∀ rules : List String,
      rules.contains behaviorRule = rules.any fun x => x = behaviorRule := by
    intro rules
    rw [Bool.eq_iff_iff]
    simp
  unfold withheldAt given behaviorApproval
  simp only [hincluded, hrules, Option.isSome_map, Bool.not_false, Bool.true_and, decide_true,
    Bool.true_or, if_true]

/-- The aggregation goes on alike, whatever the rules are, when the same groups are included or the
action is no evidence. -/
theorem multi_approving {m : MultiWindowScorer} {rules rules' : List String}
    (h : supportedAt S m.watermark event = true → countedAction event.action = true →
      includedKeys S.config.multiWindow event rules' = includedKeys S.config.multiWindow event rules) :
    (m.evaluate S event rules').2 = (m.evaluate S event rules).2 ∧
      { (m.evaluate S event rules').1 with approvalApplied := false } =
        { (m.evaluate S event rules).1 with approvalApplied := false } := by
  rcases henabled : S.config.multiWindow.enabled with _ | _
  · rw [evaluate_disabled henabled, evaluate_disabled henabled]
    exact ⟨rfl, rfl⟩
  · rcases hunsupported : unsupported S (m.advanced S event) event with _ | _
    · have hsupported := hunsupported
      rw [unsupported_advanced henabled, Bool.not_eq_false'] at hsupported
      have hobserved : observed S m event rules' = observed S m event rules := by
        unfold Detect.observed
        rcases hcounted : countedAction event.action with _ | _
        · unfold MultiWindowScorer.inserted
          rw [hcounted]
          simp
        · rw [h hsupported hcounted]
      rw [evaluate_supported henabled hunsupported, evaluate_supported henabled hunsupported, hobserved]
      dsimp only
      rw [groupOutcomes_approving _ { truncated := _ } _ (decide _),
        groupOutcomes_approving _ { truncated := _ } _ (decide _)]
      exact ⟨rfl, rfl⟩
    · rw [evaluate_unsupported henabled hunsupported, evaluate_unsupported henabled hunsupported]
      exact ⟨rfl, rfl⟩

theorem includedKeys_approving (hincluded : isExcluded S.config event.path = false)
    (h : SameWithheld S changes e.multiWindow.watermark event)
    (hsupported : supportedAt S e.multiWindow.watermark event = true)
    (hcounted : countedAction event.action = true) :
    includedKeys S.config.multiWindow event (adjustedFor (S.approving changes).config event) =
      includedKeys S.config.multiWindow event (adjustedFor S.config event) := by
  refine List.filter_congr fun key hkey => ?_
  have hadjusted : ∀ S' : Setup, given S' e.multiWindow.watermark event key.rule = true →
      (adjustedFor S'.config event).contains key.rule =
        (withheldAt S' e.multiWindow.watermark event key.rule).isSome := by
    intro S' hgiven
    unfold withheldAt adjustedFor
    rw [if_pos hgiven]
    rcases approvalOf S'.config event with _ | change
    · rfl
    · rcases hrule : change.adjustedRules.contains key.rule with _ | _
      · simp only [Option.elim_some, Option.filter_some, hrule]
        rfl
      · simp only [Option.elim_some, Option.filter_some, hrule]
        rfl
  have hgiven : given S e.multiWindow.watermark event key.rule = true := by
    unfold given
    rw [hincluded, hsupported, hcounted]
    simp only [Bool.not_false, Bool.true_and, Bool.or_eq_true, List.any_eq_true, decide_eq_true_eq]
    exact .inr ⟨key, hkey, rfl⟩
  rw [hadjusted (S.approving changes) hgiven, hadjusted S hgiven,
    h _ (List.mem_cons_of_mem _ key.rule_mem)]

theorem scored_included (hincluded : isExcluded S.config event.path = false) :
    e.scored S event =
      (merged S.config event (e.scorer.evaluateWithApproval S event (behaviorApproval S.config event)).1
          (e.multiWindow.evaluate S event (adjustedFor S.config event)).1,
        { e with
          scorer := (e.scorer.evaluateWithApproval S event (behaviorApproval S.config event)).2
          multiWindow := (e.multiWindow.evaluate S event (adjustedFor S.config event)).2 }) := by
  unfold DetectionEngine.scored
  rw [hincluded]
  rfl

theorem merged_unapproved {config config' : DetectionConfig} {base base' : Evaluation}
    {multi multi' : MultiOutcome} (hbase : base.unapproved = base'.unapproved)
    (hmulti : { multi with approvalApplied := false } = { multi' with approvalApplied := false }) :
    (merged config event base multi).unapproved = (merged config' event base' multi').unapproved := by
  show (merged config event base.unapproved { multi with approvalApplied := false }).unapproved = _
  rw [hbase, hmulti]
  rfl

theorem scored_approving (h : SameWithheld S changes e.multiWindow.watermark event) :
    (e.scored (S.approving changes) event).2 = (e.scored S event).2 ∧
      (e.scored (S.approving changes) event).1.unapproved = (e.scored S event).1.unapproved := by
  rcases hincluded : isExcluded S.config event.path with _ | _
  · have hbase := @evaluateWithApproval_approving S event e.scorer (behaviorApproval S.config event)
      (behaviorApproval (S.approving changes).config event) (by
        rw [behaviorApproval_isSome (e := e) hincluded,
          behaviorApproval_isSome (S := S.approving changes) (e := e) hincluded,
          h _ List.mem_cons_self])
    obtain ⟨hstate, houtcome⟩ := @multi_approving S event e.multiWindow (adjustedFor S.config event)
      (adjustedFor (S.approving changes).config event) fun hsupported hcounted =>
        includedKeys_approving hincluded h hsupported hcounted
    rw [scored_included hincluded, scored_included (S := S.approving changes) hincluded]
    refine ⟨?_, merged_unapproved ?_ houtcome⟩
    · show DetectionEngine.mk (e.scorer.evaluateWithApproval S event _).2 _
        (e.multiWindow.evaluate S event _).2 = _
      rw [hbase, hstate]
    · show (e.scorer.evaluateWithApproval S event _).1.unapproved = _
      rw [hbase]
      rfl
  · rw [scored_excluded hincluded, scored_excluded (S := S.approving changes) hincluded]
    exact ⟨rfl, rfl⟩

theorem canaried_unapproved {v v' : Evaluation} (h : v.unapproved = v'.unapproved) :
    (e.canaried S event v).2 = (e.canaried S event v').2 ∧
      (e.canaried S event v).1.unapproved = (e.canaried S event v').1.unapproved := by
  have hfields : ∀ v : Evaluation, (e.canaried S event v.unapproved).2 = (e.canaried S event v).2 ∧
      (e.canaried S event v.unapproved).1.unapproved = (e.canaried S event v).1.unapproved := by
    intro v
    unfold DetectionEngine.canaried
    dsimp only [Evaluation.unapproved]
    split
    · exact ⟨rfl, rfl⟩
    · exact ⟨rfl, rfl⟩
  rw [← (hfields v).1, ← (hfields v).2, h, (hfields v').1, (hfields v').2]
  exact ⟨rfl, rfl⟩

/-- Two engines that keep an event out of the evidence of the same rules evaluate it alike. -/
theorem evaluate_approving (h : SameWithheld S changes e.multiWindow.watermark event) :
    (e.evaluate (S.approving changes) event).2 = (e.evaluate S event).2 ∧
      (e.evaluate (S.approving changes) event).1.unapproved = (e.evaluate S event).1.unapproved := by
  obtain ⟨hstate, hsame⟩ := scored_approving h
  unfold DetectionEngine.evaluate
  rw [show tampersCanary (S.approving changes).config event = tampersCanary S.config event from rfl]
  dsimp only
  split
  · rw [hstate]
    exact canaried_unapproved hsame
  · exact ⟨hstate, hsame⟩

/-- Two engines that keep every event of a run out of the evidence of the same rules are the same.
-/
theorem evaluations_approving {events : List FileEvent} (h : ∀ before event rest,
    events = before ++ event :: rest →
      SameWithheld S changes (before.foldl (timeAfter S) e.multiWindow.watermark) event) :
    (e.evaluations (S.approving changes) events).map Evaluation.unapproved =
      (e.evaluations S events).map Evaluation.unapproved := by
  induction events generalizing e with
  | nil => rfl
  | cons event rest ih =>
    obtain ⟨hstate, hsame⟩ := evaluate_approving (h [] event rest rfl)
    have htime := after_time (S := S) e [event]
    simp only [DetectionEngine.evaluations, List.map_cons, hstate, hsame, List.cons.injEq, true_and]
    refine ih fun before event' rest' heq => ?_
    have hlater := h (event :: before) event' rest' (by rw [heq, List.cons_append])
    rw [List.foldl_cons] at hlater
    exact htime ▸ hlater

end Same

end Argos.Detect
