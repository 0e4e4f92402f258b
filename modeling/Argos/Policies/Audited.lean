import Argos.Policies.Matches

/-!
# What an audit of exceptions shows

Of every policy and every stored events, when the audit succeeds: its numbers are those of one run
of the engine of the policy (`audit_counts`), each event in the range is counted for one change at
most, and none whose process is unknown (`audit_counts_once`), and a policy whose last changes are
all reported as unmatched replays alike without them (`unmatched_removable`). Of a change before
others the last is not true: it may hide them, unmatched as it is.
-/

namespace Argos.Policies

open Argos.Common
open Argos.Detect
open Argos.Lib

/-! ## Valid changes -/

section Valid

variable {seen : List String} {change : ApprovedChange}

/-- What the validation finds out about a change. -/
theorem changeErrors_nil (h : changeErrors seen change = []) :
    change.id ∉ seen ∧ absoluteCleanPath change.exe = true ∧
      ∀ rule ∈ change.adjustedRules, rule ∈ auditRules := by
  unfold changeErrors at h
  simp only [List.append_eq_nil_iff, complain_eq_nil, Bool.or_eq_false_iff, Bool.not_eq_false'] at h
  obtain ⟨⟨⟨⟨-, hid⟩, -⟩, ⟨-, hexe⟩, -⟩, -, hrules⟩ := h
  refine ⟨fun hmem => ?_, hexe, fun rule hrule => ?_⟩
  · rw [List.contains_iff_mem.2 hmem] at hid
    cases hid
  · have hknown := List.any_eq_false.1 hrules rule hrule
    by_contra hunknown
    refine hknown ?_
    simp only [auditRules, List.mem_cons, List.not_mem_nil, or_false, not_or] at hunknown
    simp [multiWindowRules, hunknown]

theorem approvalErrors_append (seen : List String) (a b : List ApprovedChange) :
    approvalErrors seen (a ++ b) =
      approvalErrors seen a ++ approvalErrors ((a.map (·.id)).reverse ++ seen) b := by
  induction a generalizing seen with
  | nil => rfl
  | cons change rest ih =>
    simp [approvalErrors, ih]

/-- The ids of valid changes are different, and each change is valid. -/
theorem approvalErrors_nil {changes : List ApprovedChange} (h : approvalErrors seen changes = []) :
    (changes.map (·.id)).Nodup ∧ (∀ id ∈ changes.map (·.id), id ∉ seen) ∧
      ∀ change ∈ changes, absoluteCleanPath change.exe = true ∧
        ∀ rule ∈ change.adjustedRules, rule ∈ auditRules := by
  induction changes generalizing seen with
  | nil => simp
  | cons change rest ih =>
    obtain ⟨hfirst, hrest⟩ := List.append_eq_nil_iff.1 h
    obtain ⟨hid, hvalid⟩ := changeErrors_nil hfirst
    obtain ⟨hnodup, hseen, hothers⟩ := ih hrest
    refine ⟨List.nodup_cons.2 ⟨fun hmem => hseen _ hmem List.mem_cons_self, hnodup⟩, ?_, ?_⟩
    · intro id hmem
      rcases List.mem_cons.1 hmem with rfl | hmem
      · exact hid
      · exact fun h => hseen id hmem (List.mem_cons_of_mem _ h)
    · intro other hother
      rcases List.mem_cons.1 hother with rfl | hother
      · exact hvalid
      · exact hothers other hother

end Valid

/-! ## Numbers -/

section Audit

variable {debug : String → String} {store : List FileEventRow} {policy : Policy}
  {options : ExceptionAuditOptions} {report : ExceptionAuditReport}

/-- What a successful audit has done. -/
theorem auditExceptions_ok (h : auditExceptions debug store policy options = .ok report) :
    ∃ range, loadSimulationRange store policy (policy.approving []) options.simulation = .ok range ∧
      ∃ comparison, simulateRange debug range policy (policy.approving []) options.simulation =
        .ok comparison ∧ report = auditRange debug range policy options comparison := by
  simp only [auditExceptions, Prog.answer_bind_iff] at h
  obtain ⟨-, -, range, hrange, comparison, hcomparison, hreport⟩ := h
  exact ⟨range, hrange, comparison, hcomparison, (Except.ok.inj hreport).symm⟩

theorem checkedPolicy_ok {name : String} : checkedPolicy name policy = .ok () ↔
    configurationErrors policy.detection policy.response = [] := by
  rw [← validateConfiguration_ok, checkedPolicy]
  rcases validateConfiguration policy.detection policy.response with reason | _ <;> simp

/-- Both policies of a load are valid; another valid candidate with the same windows loads the same.
-/
theorem loadSimulationRange_checked {candidate candidate' : Policy} {range : FileEventRange}
    {options : SimulationOptions}
    (h : loadSimulationRange store policy candidate options = .ok range) :
    configurationErrors policy.detection policy.response = [] ∧
      (configurationErrors candidate'.detection candidate'.response = [] →
        policyWindowSecs candidate' = policyWindowSecs candidate →
          loadSimulationRange store policy candidate' options = .ok range) := by
  unfold loadSimulationRange warmupMs at h ⊢
  by_cases hrange : options.fromMs > options.toMs ∨ options.toMs > Recovery.i64Max
  · rw [if_pos hrange] at h
    cases h
  by_cases hlimit : options.maxEvents = 0 ∨ options.maxEvents > 1000000
  · rw [if_neg hrange, if_pos hlimit] at h
    cases h
  rw [if_neg hrange, if_neg hlimit] at h ⊢
  rcases hpolicy : checkedPolicy "기존" policy with reason | _
  · rw [hpolicy] at h
    cases h
  rcases hcandidate : checkedPolicy "후보" candidate with reason | _
  · rw [hpolicy, hcandidate] at h
    cases h
  rw [hpolicy, hcandidate] at h
  refine ⟨checkedPolicy_ok.1 hpolicy, fun hvalid hwindow => ?_⟩
  rw [checkedPolicy_ok.2 hvalid, hwindow]
  exact h

/-- The changes of a valid policy. -/
theorem changes_valid (h : configurationErrors policy.detection policy.response = []) :
    (policy.detection.approvedChanges.map (·.id)).Nodup ∧
      ∀ change ∈ policy.detection.approvedChanges, absoluteCleanPath change.exe = true ∧
        ∀ rule ∈ change.adjustedRules, rule ∈ auditRules := by
  unfold configurationErrors at h
  simp only [List.append_eq_nil_iff, and_assoc] at h
  obtain ⟨hids, -, hchanges⟩ := approvalErrors_nil h.1
  exact ⟨hids, hchanges⟩

/-- The usages that are reported for a range, in one run of the engine of the policy. -/
theorem auditRange_exceptions {range : FileEventRange} {comparison : SimulationReport}
    (h : configurationErrors policy.detection policy.response = []) :
    (auditRange debug range policy options comparison).exceptions =
      policy.detection.approvedChanges.map (directUsage debug policy options range.events) := by
  obtain ⟨hids, hchanges⟩ := changes_valid h
  obtain ⟨truncated, hmatching⟩ := @matching_hits debug policy options range.events hids
  show List.zipWith (usageOf range.events options) _ _ = _
  rw [hmatching]
  simp only [matchingOf, List.zipWith_map, List.zipWith_self]
  refine List.map_congr_left fun change hchange => ?_
  rw [usageOf, rows_hitPlaces, closed_unused, directUsage]
  congr 1
  refine List.map_congr_left fun rule hrule => ?_
  rw [hitRows_all change ((hchanges change hchange).2 rule (mem_rulesOf.1 hrule))]

/-- The audit reports of every change what one run of the engine of the policy keeps out of the
evidence for it. -/
theorem audit_counts (h : auditExceptions debug store policy options = .ok report) :
    ∃ range, loadSimulationRange store policy (policy.approving []) options.simulation = .ok range ∧
      report.exceptions =
        policy.detection.approvedChanges.map (directUsage debug policy options range.events) := by
  obtain ⟨range, hrange, comparison, -, rfl⟩ := auditExceptions_ok h
  have hvalid := (@loadSimulationRange_checked _ _ _ policy _ _ hrange).1
  exact ⟨range, hrange, auditRange_exceptions hvalid⟩

/-! ## Each event once -/

variable {rows : List FileEventRow}

/-- Fewer changes are valid, if they are the first ones. -/
theorem configurationErrors_take (n : Nat)
    (h : configurationErrors policy.detection policy.response = []) :
    configurationErrors (policy.approving (policy.detection.approvedChanges.take n)).detection
      policy.response = [] := by
  unfold configurationErrors at h ⊢
  simp only [List.append_eq_nil_iff, and_assoc] at h ⊢
  refine ⟨?_, h.2⟩
  have hall := h.1
  rw [← List.take_append_drop n policy.detection.approvedChanges, approvalErrors_append,
    List.append_eq_nil_iff] at hall
  exact hall.1

/-- A replay does not read what was approved. -/
theorem foldl_tallied_unapproved (rows : List FileEventRow) (evaluations : List Evaluation) (t : Tally) :
    (rows.zip (evaluations.map Evaluation.unapproved)).foldl (tallied policy options.simulation) t =
      (rows.zip evaluations).foldl (tallied policy options.simulation) t := by
  rw [List.zip_map_right, List.foldl_map]
  rfl

/-- Policies whose changes keep the events of a replay out of the evidence of the same rules replay
alike. -/
theorem replay_approving {changes : List ApprovedChange} (h : ∀ x ∈ rows.zipIdx,
    SameWithheld (setupOf debug policy options.simulation) changes
      (((rows.take x.2).map (replayed policy)).foldl (timeAfter (setupOf debug policy options.simulation))
        0) (replayed policy x.1)) :
    replay debug rows (policy.approving changes) options.simulation =
      replay debug rows policy options.simulation := by
  have hevaluations := @evaluations_approving (setupOf debug policy options.simulation) {} changes
    (rows.map (replayed policy)) fun before event rest heq => by
      obtain ⟨first, last, rfl, rfl, hlast⟩ := List.map_eq_append_iff.1 heq
      obtain ⟨row, last', rfl, rfl, -⟩ := List.map_eq_cons_iff.1 hlast
      have hplace := h (row, first.length) (List.mem_zipIdx_iff_getElem?.2 (by simp))
      rwa [List.take_left'] at hplace
      rfl
  rw [replay_eq, replay_eq, evaluatedRows, evaluatedRows,
    ← @foldl_tallied_unapproved policy options rows (DetectionEngine.evaluations _ _ _),
    ← @foldl_tallied_unapproved (policy.approving changes) options rows]
  exact congrArg (fun evaluations => reported policy
    ((rows.zip evaluations).foldl (tallied policy options.simulation) {})) hevaluations

/-- Replays that are the same do not differ. -/
theorem deltaOf_same {baseline candidate : Policy} (hresponse : candidate.response = baseline.response)
    (simulation : PolicySimulation) :
    deltaOf baseline candidate simulation simulation = ⟨0, 0, [], [], [], [], [], []⟩ := by
  have hself : ∀ {α : Type} [DecidableEq α] (values : List α), difference values values = [] := by
    intro α _ values
    exact List.filter_eq_nil_iff.2 fun a ha => by simp [ha]
  have htargets : blockTargets candidate simulation = blockTargets baseline simulation := by
    unfold blockTargets
    rw [hresponse]
  unfold deltaOf
  rw [htargets, hself, hself, hself, Int.sub_self, Int.sub_self]

/-- The first changes keep every event of a replay out of the evidence of the same rules as all of
them, when the others match nothing. -/
theorem sameWithheld_take {n : Nat} (hunmatched : ∀ change ∈ policy.detection.approvedChanges.drop n,
      matchedRows debug policy options.simulation rows change = [])
    {x : FileEventRow × Nat} (hx : x ∈ rows.zipIdx) :
    SameWithheld (setupOf debug policy options.simulation) (policy.detection.approvedChanges.take n)
      (((rows.take x.2).map (replayed policy)).foldl (timeAfter (setupOf debug policy options.simulation))
        0) (replayed policy x.1) := by
  intro rule hrule
  generalize htime : ((rows.take x.2).map (replayed policy)).foldl
    (timeAfter (setupOf debug policy options.simulation)) 0 = time
  have hfirst : approvalOf policy.detection (replayed policy x.1) =
      (approvalOf (policy.approving (policy.detection.approvedChanges.take n)).detection
        (replayed policy x.1)).or
      ((policy.detection.approvedChanges.drop n).find? fun change =>
        approvedEvent change (replayed policy x.1)) := by
    unfold approvalOf Policy.approving
    dsimp only
    rw [← List.find?_append, List.take_append_drop]
  rcases hkept : approvalOf (policy.approving (policy.detection.approvedChanges.take n)).detection
    (replayed policy x.1) with _ | change
  · -- what belongs to a later change belongs to none without it, and matched nothing
    rw [hkept, Option.none_or] at hfirst
    have hfewer : withheldAt ((setupOf debug policy options.simulation).approving
        (policy.detection.approvedChanges.take n)) time (replayed policy x.1) rule = none := by
      rw [withheldAt]
      split
      · exact congrArg (Option.filter _) hkept
      · rfl
    rw [hfewer, eq_comm, Option.isSome_none, Option.isSome_eq_false_iff, Option.isNone_iff_eq_none,
      Option.eq_none_iff_forall_ne_some]
    intro change hwithheld
    have hchange : change ∈ policy.detection.approvedChanges.drop n := by
      rw [withheldAt] at hwithheld
      split at hwithheld
      · exact List.mem_of_find?_eq_some (hfirst.symm.trans (Option.filter_eq_some_iff.1 hwithheld).1)
      · cases hwithheld
    have hrow : x.1 ∈ matchedRows debug policy options.simulation rows change := by
      refine List.mem_map.2 ⟨x, List.mem_filter.2 ⟨hx, List.any_eq_true.2 ⟨rule, hrule, ?_⟩⟩, rfl⟩
      rw [decide_eq_true_eq, ← hwithheld, withheldRow, List.mem_zipIdx_iff_getElem?.1 hx,
        Option.bind_some, DetectionEngine.withheld, after_time, ← htime]
    rw [hunmatched change hchange] at hrow
    cases hrow
  · rw [hkept, Option.some_or] at hfirst
    have hsame : withheldAt ((setupOf debug policy options.simulation).approving
        (policy.detection.approvedChanges.take n)) time (replayed policy x.1) rule =
        withheldAt (setupOf debug policy options.simulation) time (replayed policy x.1) rule := by
      rw [withheldAt, withheldAt]
      exact if_congr Iff.rfl (congrArg (Option.filter _) (hkept.trans hfirst.symm)) rfl
    rw [hsame]

/-- A replay is the same without the last changes, if the audit reports of each of them that it
matched nothing, and the simulator says so. -/
theorem unmatched_removable (h : auditExceptions debug store policy options = .ok report) {n : Nat}
    (hunmatched : ∀ usage ∈ report.exceptions.drop n,
      usage.replayMatchedEvents = 0 ∧ usage.warmupMatchedEvents = 0) :
    ∃ result, simulate debug store policy
        (policy.approving (policy.detection.approvedChanges.take n)) options.simulation = .ok result ∧
      result.baseline = report.comparison.baseline ∧ result.candidate = result.baseline ∧
      result.delta = ⟨0, 0, [], [], [], [], [], []⟩ := by
  obtain ⟨range, hrange, comparison, hcomparison, hreport⟩ := auditExceptions_ok h
  have hvalid := (@loadSimulationRange_checked _ _ _ policy _ _ hrange).1
  have hfewer := configurationErrors_take n hvalid
  -- the same events are loaded
  have hload := (loadSimulationRange_checked hrange).2 hfewer rfl
  -- and they are replayed alike
  have hreplay : replay debug range.events
      (policy.approving (policy.detection.approvedChanges.take n)) options.simulation =
        replay debug range.events policy options.simulation := by
    refine replay_approving fun x hx => sameWithheld_take (fun change hchange => ?_) hx
    have husage := hunmatched (directUsage debug policy options range.events change) (by
      rw [hreport, auditRange_exceptions hvalid, ← List.map_drop]
      exact List.mem_map_of_mem hchange)
    have hsplit := List.length_eq_length_filter_add
      (l := matchedRows debug policy options.simulation range.events change) fun row =>
        isEarly options.simulation row
    have hlate : (lateRows options.simulation
        (matchedRows debug policy options.simulation range.events change)).length = 0 := husage.1
    have hearly : (earlyRows options.simulation
        (matchedRows debug policy options.simulation range.events change)).length = 0 := husage.2
    unfold lateRows at hlate
    unfold earlyRows at hearly
    exact List.eq_nil_of_length_eq_zero (by omega)
  have hbaseline : report.comparison.baseline = replay debug range.events policy options.simulation := by
    simp only [simulateRange, Prog.answer_bind_iff] at hcomparison
    obtain ⟨-, -, -, -, hcomparison⟩ := hcomparison
    rw [hreport, ← Except.ok.inj hcomparison]
    rfl
  have hpolicy := (@checkedPolicy_ok policy "기존").2 hvalid
  have hcandidate := (@checkedPolicy_ok
    (policy.approving (policy.detection.approvedChanges.take n)) "후보").2 hfewer
  have hsimulate : simulate debug store policy
      (policy.approving (policy.detection.approvedChanges.take n)) options.simulation =
      .ok ⟨options.simulation.sensor, coverageOf range policy
          (policy.approving (policy.detection.approvedChanges.take n)) options.simulation,
        replay debug range.events policy options.simulation,
        replay debug range.events policy options.simulation, ⟨0, 0, [], [], [], [], [], []⟩⟩ := by
    simp only [simulate, simulateRange, Prog.answer_bind_iff]
    refine ⟨range, hload, (), hpolicy, (), hcandidate, ?_⟩
    rw [hreplay, @deltaOf_same policy
      (policy.approving (policy.detection.approvedChanges.take n)) rfl]
    rfl
  exact ⟨_, hsimulate, hbaseline.symm, rfl, rfl⟩

end Audit

/-! ## A sample -/

/-- The approval of the behaviour of `cp` under a path. -/
def copying (id path : String) : ApprovedChange :=
  ⟨id, 0, 10000, [path], "/bin/cp", 1000, [behaviorRule]⟩

/-- A policy that approves of copies to two paths. -/
def lenient : Policy := strict.approving [copying "services" "/srv", copying "data" "/data"]

/-- The audit of the sixth second. -/
def auditSixth : ExceptionAuditOptions := ⟨sixthSecond, 6000, 0, 1⟩

/-- The audit of three changes under one of the paths. -/
def spreadAudit : Except SimulationError ExceptionAuditReport :=
  auditExceptions id spread lenient auditSixth

theorem spreadAudit_ok : ∃ report, spreadAudit = .ok report ∧
    report.exceptions.map (fun usage => (usage.replayMatchedEvents, usage.warmupMatchedEvents)) =
      [(1, 1), (0, 0)] := by
  have hok : (match spreadAudit with
      | .ok report => report.exceptions.map (fun usage =>
        (usage.replayMatchedEvents, usage.warmupMatchedEvents)) == [(1, 1), (0, 0)]
      | .error _ => false) = true := by decide +kernel
  split at hok
  next report heq => exact ⟨report, heq, beq_iff_eq.1 hok⟩
  · cases hok

theorem audit_counts_spread : ∃ report, spreadAudit = .ok report ∧
    report.exceptions =
      lenient.detection.approvedChanges.map (directUsage id lenient auditSixth spreadRange.events) := by
  obtain ⟨report, heq, -⟩ := spreadAudit_ok
  obtain ⟨range, hrange, hexceptions⟩ := audit_counts heq
  have hload : loadSimulationRange spread lenient (lenient.approving []) sixthSecond =
      .ok spreadRange := by
    decide +kernel
  cases hload.symm.trans hrange
  exact ⟨report, heq, hexceptions⟩

/-- The second approval matched nothing. -/
theorem unmatched_removable_spread :
    ∃ result, simulate id spread lenient (strict.approving [copying "services" "/srv"]) sixthSecond =
      .ok result ∧ result.candidate = result.baseline := by
  obtain ⟨report, heq, hcounts⟩ := spreadAudit_ok
  have hunmatched : ∀ usage ∈ report.exceptions.drop 1,
      usage.replayMatchedEvents = 0 ∧ usage.warmupMatchedEvents = 0 := by
    intro usage husage
    have hmem : (usage.replayMatchedEvents, usage.warmupMatchedEvents) ∈
        (report.exceptions.map fun usage =>
          (usage.replayMatchedEvents, usage.warmupMatchedEvents)).drop 1 := by
      rw [← List.map_drop]
      exact List.mem_map.2 ⟨usage, husage, rfl⟩
    rw [hcounts] at hmem
    exact Prod.mk.inj (List.mem_singleton.1 hmem)
  obtain ⟨result, hresult, -, hsame, -⟩ := unmatched_removable heq hunmatched
  exact ⟨result, hresult, hsame⟩

end Argos.Policies
