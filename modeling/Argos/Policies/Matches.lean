import Argos.Policies.Exceptions

/-!
# What the audit counts

The audit replays the stored events once for every rule, by an engine whose changes adjust that rule
only, and puts the matches together. What it counts for a change is what one run of the engine of
the policy itself keeps out of the evidence for that change (`directUsage`): every match is a row
that this engine withholds (`evaluatedRow_withheld`), the matches of a rule are noted in order
(`row_hits`), and from the places of all rules each row is counted once (`rows_hitPlaces`).
-/

namespace Argos.Policies

open Argos.Common
open Argos.Detect
open Argos.Lib

/-! ## One run of the engine -/

section Direct

variable (debug : String → String) (policy : Policy) (options : SimulationOptions)
  (rows : List FileEventRow)

/-- The change for which the engine of a policy keeps the event of a row, when it comes to it, out
of the evidence of a rule. -/
def withheldRow (rule : String) (place : Nat) : Option ApprovedChange :=
  (rows[place]?).bind fun row =>
    (DetectionEngine.after (setupOf debug policy options) {}
      ((rows.take place).map (replayed policy))).withheld (setupOf debug policy options)
        (replayed policy row) rule

/-- The rows at the places with a property. -/
def rowsWhere (p : Nat → Bool) : List FileEventRow := (rows.zipIdx.filter fun x => p x.2).map (·.1)

/-- The rows that are kept out of the evidence of a rule for a change. -/
def matchedBy (change : ApprovedChange) (rule : String) : List FileEventRow :=
  rowsWhere rows fun place => withheldRow debug policy options rows rule place = some change

/-- The rows that are kept out of the evidence of some rule for a change. -/
def matchedRows (change : ApprovedChange) : List FileEventRow :=
  rowsWhere rows fun place =>
    auditRules.any fun rule => withheldRow debug policy options rows rule place = some change

end Direct

/-- The rows in the range of interest. -/
def lateRows (options : SimulationOptions) (rows : List FileEventRow) : List FileEventRow :=
  rows.filter fun row => !isEarly options row

/-- The rows before the range of interest. -/
def earlyRows (options : SimulationOptions) (rows : List FileEventRow) : List FileEventRow :=
  rows.filter fun row => isEarly options row

/-- The usage of a change, with the rows before the range and in the range that matched it. -/
def usageFrom (options : ExceptionAuditOptions) (change : ApprovedChange)
    (ruleMatches : List ExceptionRuleUsage) (early late : List FileEventRow) : ExceptionUsage where
  definition := change
  timeStatus := timeStatus change options
  broadScopeReasons := broadScopeReasons change
  usageStatus := if late.isEmpty then "no_matches_in_loaded_range" else "matched_in_loaded_range"
  replayMatchedEvents := late.length
  warmupMatchedEvents := early.length
  firstMatchedMs := late.head?.map (·.event.timestampMs)
  lastMatchedMs := late.getLast?.map (·.event.timestampMs)
  ruleMatches := ruleMatches
  paths := ((Sample.firsts (late.map (·.event.path))).take options.sampleLimit).map fun path =>
    ⟨path, (late.map (·.event.path)).count path⟩
  pathSamplesTruncated := options.sampleLimit < (Sample.firsts (late.map (·.event.path))).length
  processSamples :=
    (Sample.firsts (late.filterMap fun row => processOf row.event)).take options.sampleLimit
  processSamplesTruncated :=
    options.sampleLimit < (Sample.firsts (late.filterMap fun row => processOf row.event)).length
  evidenceEventIds := (late.map (·.id)).take options.sampleLimit
  evidenceSamplesTruncated := options.sampleLimit < late.length

/-- The usage of a change in one run of the engine of a policy. -/
def directUsage (debug : String → String) (policy : Policy) (options : ExceptionAuditOptions)
    (rows : List FileEventRow) (change : ApprovedChange) : ExceptionUsage :=
  let matchedBy := matchedBy debug policy options.simulation rows change
  let matched := matchedRows debug policy options.simulation rows change
  usageFrom options change
    ((rulesOf change).map fun rule => ⟨rule, (lateRows options.simulation (matchedBy rule)).length,
      (earlyRows options.simulation (matchedBy rule)).length⟩)
    (earlyRows options.simulation matched) (lateRows options.simulation matched)

/-! ## Rows that are counted -/

section Count

variable {options : ExceptionAuditOptions}

/-- What counting some rows does to a usage. -/
theorem foldl_count_rows (rows : List FileEventRow) (usage : ExceptionUsage) :
    rows.foldl (ExceptionUsage.count options) usage =
      let late := lateRows options.simulation rows
      let evidence := (late.map (·.id)).foldl (Sample.push options.sampleLimit)
        (usage.evidenceEventIds, usage.evidenceSamplesTruncated)
      let paths := (late.map (·.event.path)).foldl
        (Sample.count ExceptionPathUsage.path (⟨·, 1⟩)
          (fun path => { path with matchedEvents := path.matchedEvents + 1 }) options.sampleLimit)
        (usage.paths, usage.pathSamplesTruncated)
      let processes := (late.filterMap fun row => processOf row.event).foldl
        (Sample.pushNew options.sampleLimit) (usage.processSamples, usage.processSamplesTruncated)
      { usage with
        replayMatchedEvents := usage.replayMatchedEvents + late.length
        warmupMatchedEvents := usage.warmupMatchedEvents +
          (earlyRows options.simulation rows).length
        firstMatchedMs := usage.firstMatchedMs.or (late.head?.map (·.event.timestampMs))
        lastMatchedMs := (late.getLast?.map (·.event.timestampMs)).or usage.lastMatchedMs
        paths := paths.1
        pathSamplesTruncated := paths.2
        processSamples := processes.1
        processSamplesTruncated := processes.2
        evidenceEventIds := evidence.1
        evidenceSamplesTruncated := evidence.2 } := by
  induction rows generalizing usage with
  | nil => simp [lateRows, earlyRows]
  | cons row rest ih =>
    rw [List.foldl_cons, ih]
    unfold lateRows earlyRows
    rcases hearly : isEarly options.simulation row with _ | _
    · have hlast : ∀ late : List FileEventRow, ((row :: late).getLast?.map (·.event.timestampMs)).or
          usage.lastMatchedMs =
          (late.getLast?.map (·.event.timestampMs)).or (some row.event.timestampMs) := by
        intro late
        rw [List.getLast?_cons]
        rcases late.getLast? with _ | last <;> rfl
      have hfirst : ∀ late : List FileEventRow, usage.firstMatchedMs.or
          ((row :: late).head?.map (·.event.timestampMs)) =
          some (usage.firstMatchedMs.getD row.event.timestampMs) := by
        intro late
        rcases usage.firstMatchedMs with _ | first <;> rfl
      have hprocesses : ∀ late : List FileEventRow,
          ((row :: late).filterMap fun row => processOf row.event).foldl
            (Sample.pushNew options.sampleLimit) (usage.processSamples, usage.processSamplesTruncated) =
          (late.filterMap fun row => processOf row.event).foldl (Sample.pushNew options.sampleLimit)
            ((processOf row.event).elim (usage.processSamples, usage.processSamplesTruncated)
              (Sample.pushNew options.sampleLimit
                (usage.processSamples, usage.processSamplesTruncated))) := by
        intro late
        rw [List.filterMap_cons]
        rcases processOf row.event with _ | process <;> rfl
      simp only [ExceptionUsage.count, hearly, List.filter_cons, Bool.not_false, if_true,
        Bool.false_eq_true, if_false, List.length_cons, List.map_cons, List.foldl_cons, hlast, hfirst,
        hprocesses]
      congr 1
      omega
    · simp only [ExceptionUsage.count, hearly, List.filter_cons, if_true, Bool.not_true,
        Bool.false_eq_true, if_false, List.length_cons]
      congr 1
      omega

/-- A change that nothing was counted for, with the rows that matched it. -/
theorem closed_unused (change : ApprovedChange) (ruleMatches : List ExceptionRuleUsage)
    (matched : List FileEventRow) :
    (matched.foldl (ExceptionUsage.count options)
      { unused options change with ruleMatches := ruleMatches }).closed =
      usageFrom options change ruleMatches (earlyRows options.simulation matched)
        (lateRows options.simulation matched) := by
  have hpaths := @Sample.foldl_count String ExceptionPathUsage _ ExceptionPathUsage.path (⟨·, 1⟩)
    (fun path => { path with matchedEvents := path.matchedEvents + 1 }) ExceptionPathUsage.mk
    (fun _ _ => rfl) (fun _ => rfl) (fun _ _ => rfl) options.sampleLimit
  rw [foldl_count_rows]
  simp only [unused]
  rw [Sample.foldl_push, Sample.foldl_pushNew, hpaths]
  generalize lateRows options.simulation matched = late
  unfold ExceptionUsage.closed usageFrom Sample.of
  rcases late with _ | ⟨row, late⟩
  · simp
  · simp only [List.length_cons, Nat.zero_add, gt_iff_lt, Nat.zero_lt_succ, if_true, List.map_take,
      Option.none_or, Option.or_none, List.length_map, List.isEmpty_cons, Bool.false_eq_true, if_false]

end Count

/-! ## Matches that are noted -/

/-- A row that is kept out of the evidence of a rule for a change. -/
structure Hit where
  rule : String
  change : ApprovedChange
  row : FileEventRow
  place : Nat
deriving DecidableEq

/-- The rows of a change under a rule. -/
def hitRows (hits : List Hit) (change : ApprovedChange) (rule : String) : List FileEventRow :=
  (hits.filter fun hit => hit.change = change && hit.rule = rule).map (·.row)

/-- The places of the rows of a change. -/
def hitPlaces (hits : List Hit) (change : ApprovedChange) : List Nat :=
  (hits.filter fun hit => hit.change = change).map (·.place)

section Noted

variable (options : ExceptionAuditOptions) (changes : List ApprovedChange)

/-- The matches of a change by its rules. -/
def ruleMatches (hits : List Hit) (change : ApprovedChange) : List ExceptionRuleUsage :=
  (rulesOf change).map fun rule =>
    ⟨rule, (lateRows options.simulation (hitRows hits change rule)).length,
      (earlyRows options.simulation (hitRows hits change rule)).length⟩

/-- What the audit knows after some hits. -/
def matchingOf (hits : List Hit) (truncated : Bool) : Matching where
  usages := changes.map fun change =>
    { unused options change with ruleMatches := ruleMatches options hits change }
  rows := changes.map (hitPlaces hits)
  truncated := truncated

variable {options changes}

theorem hitRows_concat (hits : List Hit) (hit : Hit) (change : ApprovedChange) (rule : String) :
    hitRows (hits ++ [hit]) change rule =
      hitRows hits change rule ++ if hit.change = change ∧ hit.rule = rule then [hit.row] else [] := by
  unfold hitRows
  rw [List.filter_append, List.map_append, List.filter_singleton]
  by_cases h : hit.change = change ∧ hit.rule = rule
  · rw [if_pos h, h.1, h.2]
    simp
  · rw [if_neg h]
    by_cases hchange : hit.change = change
    · have hrule : hit.rule ≠ rule := fun heq => h ⟨hchange, heq⟩
      simp [hrule]
    · simp [hchange]

theorem hitPlaces_concat (hits : List Hit) (hit : Hit) (change : ApprovedChange) :
    hitPlaces (hits ++ [hit]) change =
      hitPlaces hits change ++ if hit.change = change then [hit.place] else [] := by
  unfold hitPlaces
  rw [List.filter_append, List.map_append, List.filter_singleton]
  by_cases h : hit.change = change <;> simp [h]

theorem rulesOf_nodup (change : ApprovedChange) : (rulesOf change).Nodup :=
  (List.perm_insertionSort _ _).nodup_iff.2 (List.nodup_dedup _)

theorem mem_rulesOf {change : ApprovedChange} {rule : String} :
    rule ∈ rulesOf change ↔ rule ∈ change.adjustedRules :=
  (List.perm_insertionSort _ _).mem_iff.trans List.mem_dedup

theorem ruleMatches_concat (hits : List Hit) (hit : Hit) :
    ruleMatches options (hits ++ [hit]) hit.change =
      updateFirst (fun item => item.rule = hit.rule) (.bump (isEarly options.simulation hit.row))
        (ruleMatches options hits hit.change) := by
  unfold ruleMatches
  rw [updateFirst_key ExceptionRuleUsage.rule, List.map_map]
  · refine List.map_congr_left fun rule _ => ?_
    simp only [Function.comp, hitRows_concat, true_and]
    by_cases hrule : hit.rule = rule
    · simp only [hrule, if_true, lateRows, earlyRows, List.filter_append, List.filter_singleton]
      rcases isEarly options.simulation hit.row with _ | _
      · simp [ExceptionRuleUsage.bump]
      · simp [ExceptionRuleUsage.bump]
    · simp [hrule, Ne.symm hrule]
  · rw [List.map_map]
    exact (List.map_id (rulesOf hit.change)).symm ▸ rulesOf_nodup hit.change

theorem ruleMatches_other (hits : List Hit) {hit : Hit} {change : ApprovedChange}
    (h : hit.change ≠ change) :
    ruleMatches options (hits ++ [hit]) change = ruleMatches options hits change := by
  unfold ruleMatches
  simp only [hitRows_concat, h, false_and, if_false, List.append_nil]

/-- A hit is noted for its change. -/
theorem noted_hit (hnodup : changes.Nodup) {hits : List Hit} {hit : Hit} {truncated : Bool} {index : Nat}
    (hindex : changes[index]? = some hit.change) (hrule : hit.rule ∈ hit.change.adjustedRules) :
    (matchingOf options changes hits truncated).noted hit.rule (isEarly options.simulation hit.row) index
      hit.place = matchingOf options changes (hits ++ [hit]) truncated := by
  have hfound : ((matchingOf options changes hits truncated).usages[index]?).any (fun usage =>
      usage.ruleMatches.any fun item => item.rule = hit.rule) = true := by
    simp only [matchingOf, List.getElem?_map, hindex, Option.map_some, Option.any_some, ruleMatches,
      List.any_map, List.any_eq_true, Function.comp, decide_eq_true_eq]
    exact ⟨_, mem_rulesOf.2 hrule, rfl⟩
  unfold Matching.noted
  rw [if_pos hfound]
  simp only [matchingOf, modify_map hnodup hindex, Matching.mk.injEq, and_true]
  constructor
  · refine List.map_congr_left fun change _ => ?_
    split
    next heq => rw [heq, ruleMatches_concat]
    next hne => rw [ruleMatches_other _ (Ne.symm hne)]
  · refine List.map_congr_left fun change _ => ?_
    rw [hitPlaces_concat]
    split
    next heq => rw [heq, if_pos rfl]
    next hne => rw [if_neg (Ne.symm hne), List.append_nil]

end Noted

/-! ## Matches of a replay -/

theorem evaluations_getElem? (S : Setup) (e : DetectionEngine) (events : List FileEvent) (i : Nat) :
    (e.evaluations S events)[i]? =
      events[i]?.map fun event => ((e.after S (events.take i)).evaluate S event).1 := by
  induction events generalizing e i with
  | nil => rfl
  | cons event rest ih =>
    rcases i with _ | i
    · rfl
    · exact ih _ _

/-- The only change with an id, where the ids are different. -/
theorem filter_zipIdx_id {changes : List ApprovedChange} (hids : (changes.map (·.id)).Nodup)
    {change : ApprovedChange} {index : Nat} (hindex : changes[index]? = some change) (start : Nat) :
    (changes.zipIdx start).filter (fun x => x.1.id = change.id) = [(change, start + index)] := by
  induction changes generalizing index start with
  | nil => cases hindex
  | cons first rest ih =>
    rw [List.map_cons, List.nodup_cons] at hids
    rw [List.zipIdx_cons, List.filter_cons]
    rcases index with _ | index
    · -- the others have other ids
      cases hindex
      rw [if_pos (decide_eq_true rfl), List.filter_eq_nil_iff.2 fun x hx heq => ?_]
      · rfl
      · exact hids.1 (List.mem_map.2 ⟨x.1, List.fst_mem_of_mem_zipIdx hx, of_decide_eq_true heq⟩)
    · have hmem : change ∈ rest := List.mem_of_getElem? hindex
      rw [if_neg fun heq => hids.1 (List.mem_map.2 ⟨change, hmem, (of_decide_eq_true heq).symm⟩),
        ih hids.2 hindex, Nat.add_assoc, Nat.add_comm 1 index]

/-- The place of a change of a policy whose ids are different. -/
theorem indexOf_id {changes : List ApprovedChange} (hids : (changes.map (·.id)).Nodup)
    {change : ApprovedChange} (hmem : change ∈ changes) :
    ∃ index, indexOf changes change.id = some index ∧ changes[index]? = some change := by
  obtain ⟨index, hindex⟩ := List.mem_iff_getElem?.1 hmem
  refine ⟨index, ?_, hindex⟩
  rw [indexOf, filter_zipIdx_id hids hindex, Nat.zero_add]
  rfl

section Replayed

variable {debug : String → String} {policy : Policy} {options : ExceptionAuditOptions}
  {rows : List FileEventRow} {rule : String}

/-- A withheld change is one of the policy and adjusts the rule. -/
theorem withheldRow_some {place : Nat} {change : ApprovedChange}
    (h : withheldRow debug policy options.simulation rows rule place = some change) :
    change ∈ policy.detection.approvedChanges ∧ rule ∈ change.adjustedRules := by
  unfold withheldRow DetectionEngine.withheld withheldAt at h
  obtain ⟨row, -, h⟩ := Option.bind_eq_some_iff.1 h
  split at h
  · obtain ⟨hfound, hrule⟩ := Option.filter_eq_some_iff.1 h
    exact ⟨List.mem_of_find?_eq_some hfound, by simpa using hrule⟩
  · cases h

theorem replayed_action (row : FileEventRow) : (replayed policy row).action = row.event.action := by
  unfold replayed
  split <;> rfl

/-- The approved change of an evaluation, as the audit reads it, is the one that is withheld. -/
theorem evaluatedRow_withheld {x : (FileEventRow × Evaluation) × Nat}
    (hx : x ∈ (evaluatedRows debug (projected policy rule) options.simulation {} rows).zipIdx) :
    (if rule ≠ behaviorRule && !countedAction x.1.1.event.action then none else x.1.2.approvedChangeId) =
      (withheldRow debug policy options.simulation rows rule x.2).map (·.id) := by
  rw [List.mem_zipIdx_iff_getElem?, evaluatedRows, List.getElem?_zip_eq_some, evaluations_getElem?,
    List.getElem?_map] at hx
  obtain ⟨hrow, hevaluation⟩ := hx
  rw [hrow] at hevaluation
  rw [Option.map_some, Option.map_some, Option.some.injEq] at hevaluation
  -- both engines come to the row at the same time
  have htime : (DetectionEngine.after (setupOf debug (projected policy rule) options.simulation) {}
      ((rows.take x.2).map (replayed policy))).multiWindow.watermark =
      (DetectionEngine.after (setupOf debug policy options.simulation) {}
        ((rows.take x.2).map (replayed policy))).multiWindow.watermark := by
    rw [after_time, after_time]
    rfl
  have hwithheld : withheldRow debug policy options.simulation rows rule x.2 =
      withheldAt (setupOf debug policy options.simulation)
        (DetectionEngine.after (setupOf debug (projected policy rule) options.simulation) {}
          ((rows.take x.2).map (replayed policy))).multiWindow.watermark (replayed policy x.1.1)
          rule := by
    rw [htime, withheldRow, hrow]
    rfl
  rw [hwithheld, ← hevaluation, ← @replayed_action policy x.1.1]
  by_cases hcounted : rule = behaviorRule ∨ countedAction (replayed policy x.1.1).action = true
  · rw [if_neg (by simpa [or_iff_not_imp_left] using hcounted), ← List.map_take]
    exact @approvedChangeId_only (setupOf debug policy options.simulation)
      (DetectionEngine.after (setupOf debug (projected policy rule) options.simulation) {}
        ((rows.take x.2).map (replayed policy))) (replayed policy x.1.1) rule
      policy.detection.approvedChanges hcounted
  · obtain ⟨hbehavior, hcounted⟩ := not_or.1 hcounted
    rw [Bool.not_eq_true] at hcounted
    rw [withheldAt, given, hcounted]
    simp [hbehavior]

/-- The hit of a row under a rule. -/
def hitOf (debug : String → String) (policy : Policy) (options : SimulationOptions)
    (rows : List FileEventRow) (rule : String) (x : FileEventRow × Nat) : Option Hit :=
  (withheldRow debug policy options rows rule x.2).map fun change => ⟨rule, change, x.1, x.2⟩

theorem row_hits (hids : (policy.detection.approvedChanges.map (·.id)).Nodup)
    {xs : List ((FileEventRow × Evaluation) × Nat)}
    (hxs : ∀ x ∈ xs,
      x ∈ (evaluatedRows debug (projected policy rule) options.simulation {} rows).zipIdx)
    (hits : List Hit) (truncated : Bool) :
    xs.foldl (Matching.row policy options rule)
      (matchingOf options policy.detection.approvedChanges hits truncated) =
      matchingOf options policy.detection.approvedChanges
        (hits ++ xs.filterMap fun x => hitOf debug policy options.simulation rows rule (x.1.1, x.2))
        (truncated || xs.any fun x => x.1.2.evidenceTruncated) := by
  induction xs generalizing hits truncated with
  | nil => simp
  | cons x xs ih =>
    have hrow : Matching.row policy options rule
        (matchingOf options policy.detection.approvedChanges hits truncated) x =
        matchingOf options policy.detection.approvedChanges
          (hits ++ (hitOf debug policy options.simulation rows rule (x.1.1, x.2)).toList)
          (truncated || x.1.2.evidenceTruncated) := by
      have hwithheld := evaluatedRow_withheld (hxs x List.mem_cons_self)
      unfold Matching.row hitOf
      dsimp only
      rcases hchange : withheldRow debug policy options.simulation rows rule x.2 with _ | change
      · rw [hchange] at hwithheld
        split
        next => simp [matchingOf]
        next hcounted =>
          rw [if_neg hcounted, Option.map_none] at hwithheld
          rw [hwithheld]
          simp [matchingOf]
      · rw [hchange] at hwithheld
        obtain ⟨hmem, hrule⟩ := withheldRow_some hchange
        obtain ⟨index, hindex, hplace⟩ := indexOf_id hids hmem
        split
        next hcounted => rw [if_pos hcounted] at hwithheld; cases hwithheld
        next hcounted =>
          rw [if_neg hcounted, Option.map_some] at hwithheld
          rw [hwithheld, Option.bind_some, hindex]
          exact @noted_hit options policy.detection.approvedChanges (List.Nodup.of_map _ hids) hits
            ⟨rule, change, x.1.1, x.2⟩ _ index hplace hrule
    rw [List.foldl_cons, hrow, ih fun y hy => hxs y (List.mem_cons_of_mem _ hy)]
    rw [List.filterMap_cons]
    rcases hitOf debug policy options.simulation rows rule (x.1.1, x.2) with _ | hit
    · simp [Bool.or_assoc]
    · simp [Bool.or_assoc]

/-- The hits of a rule. -/
def hitsUnder (debug : String → String) (policy : Policy) (options : SimulationOptions)
    (rows : List FileEventRow) (rule : String) : List Hit :=
  rows.zipIdx.filterMap (hitOf debug policy options rows rule)

theorem hitsUnder_eq : hitsUnder debug policy options.simulation rows rule =
    ((evaluatedRows debug (projected policy rule) options.simulation {} rows).zipIdx).filterMap
      fun x => hitOf debug policy options.simulation rows rule (x.1.1, x.2) := by
  unfold hitsUnder
  conv_lhs => arg 2; rw [← @evaluatedRows_fst debug (projected policy rule) options.simulation {} rows]
  rw [List.zipIdx_map, List.filterMap_map]
  rfl

theorem rule_hits (hids : (policy.detection.approvedChanges.map (·.id)).Nodup) (hits : List Hit)
    (truncated : Bool) : ∃ truncated',
    Matching.rule debug rows policy options
      (matchingOf options policy.detection.approvedChanges hits truncated) rule =
      matchingOf options policy.detection.approvedChanges
        (hits ++ hitsUnder debug policy options.simulation rows rule) truncated' := by
  unfold Matching.rule
  split
  · rw [row_hits hids (fun x hx => hx), ← hitsUnder_eq]
    exact ⟨_, rfl⟩
  next hunused =>
    -- no change adjusts the rule
    have hnone : hitsUnder debug policy options.simulation rows rule = [] := by
      refine List.filterMap_eq_nil_iff.2 fun x _ => ?_
      rw [hitOf, Option.map_eq_none_iff, Option.eq_none_iff_forall_ne_some]
      intro change hchange
      obtain ⟨hmem, hrule⟩ := withheldRow_some hchange
      exact hunused (List.any_eq_true.2 ⟨change, hmem, List.contains_iff_mem.2 hrule⟩)
    rw [hnone, List.append_nil]
    exact ⟨truncated, rfl⟩

/-- The matches of all rules. -/
theorem matching_hits (hids : (policy.detection.approvedChanges.map (·.id)).Nodup) :
    ∃ truncated, matching debug rows policy options =
      matchingOf options policy.detection.approvedChanges
        (auditRules.flatMap (hitsUnder debug policy options.simulation rows)) truncated := by
  have hrules : ∀ (rules : List String) (hits : List Hit) (truncated : Bool), ∃ truncated',
      rules.foldl (Matching.rule debug rows policy options)
        (matchingOf options policy.detection.approvedChanges hits truncated) =
        matchingOf options policy.detection.approvedChanges
          (hits ++ rules.flatMap (hitsUnder debug policy options.simulation rows)) truncated' := by
    intro rules
    induction rules with
    | nil => exact fun hits truncated => ⟨truncated, by simp⟩
    | cons rule rest ih =>
      intro hits truncated
      obtain ⟨truncated', hrule⟩ := @rule_hits debug policy options rows rule hids hits truncated
      rw [List.foldl_cons, hrule, List.flatMap_cons, ← List.append_assoc]
      exact ih _ _
  exact hrules auditRules [] false

/-- The rows of the hits of a rule. -/
theorem hitRows_under {other : String} (change : ApprovedChange) :
    hitRows (hitsUnder debug policy options.simulation rows other) change rule =
      if other = rule then matchedBy debug policy options.simulation rows change rule else [] := by
  unfold hitRows hitsUnder matchedBy rowsWhere
  rw [List.filter_filterMap, List.map_filterMap]
  split
  next heq =>
    subst heq
    rw [← List.filterMap_eq_map, List.filterMap_filter]
    refine List.filterMap_congr fun x _ => ?_
    unfold hitOf
    rcases hwithheld : withheldRow debug policy options.simulation rows other x.2 with _ | found
    · simp [hwithheld]
    · by_cases hfound : found = change <;> simp [hwithheld, hfound, Option.filter_some]
  next hne =>
    refine List.filterMap_eq_nil_iff.2 fun x _ => ?_
    unfold hitOf
    rcases withheldRow debug policy options.simulation rows other x.2 with _ | found
    · rfl
    · simp [hne]

/-- The rows of all hits under a rule. -/
theorem hitRows_all (change : ApprovedChange) (hrule : rule ∈ auditRules) :
    hitRows (auditRules.flatMap (hitsUnder debug policy options.simulation rows)) change rule =
      matchedBy debug policy options.simulation rows change rule := by
  have hflat : ∀ rules : List String,
      hitRows (rules.flatMap (hitsUnder debug policy options.simulation rows)) change rule =
        rules.flatMap fun other =>
          hitRows (hitsUnder debug policy options.simulation rows other) change rule := by
    intro rules
    unfold hitRows
    rw [List.filter_flatMap, List.map_flatMap]
  rw [hflat]
  simp only [hitRows_under]
  -- the rules are different
  simp only [auditRules, List.mem_cons, List.not_mem_nil, or_false] at hrule
  rcases hrule with rfl | rfl | rfl | rfl | rfl <;>
    simp [auditRules, behaviorRule, instanceRule, userRule, pathRule, ancestorRule]

theorem mem_hitPlaces {change : ApprovedChange} {place : Nat} :
    place ∈ hitPlaces (auditRules.flatMap (hitsUnder debug policy options.simulation rows)) change ↔
      ∃ row, (row, place) ∈ rows.zipIdx ∧ auditRules.any fun rule =>
        withheldRow debug policy options.simulation rows rule place = some change := by
  unfold hitPlaces hitsUnder hitOf
  simp only [List.mem_map, List.mem_filter, List.mem_flatMap, List.mem_filterMap, decide_eq_true_eq,
    Option.map_eq_some_iff, List.any_eq_true]
  constructor
  · rintro ⟨hit, ⟨⟨rule, hrule, x, hx, found, hfound, rfl⟩, rfl⟩, rfl⟩
    exact ⟨x.1, hx, rule, hrule, hfound⟩
  · rintro ⟨row, hx, rule, hrule, hfound⟩
    exact ⟨_, ⟨⟨rule, hrule, (row, place), hx, change, hfound, rfl⟩, rfl⟩, rfl⟩

/-- The rows at the places of a change, each once and in order. -/
theorem rows_hitPlaces (change : ApprovedChange) :
    (((hitPlaces (auditRules.flatMap (hitsUnder debug policy options.simulation rows))
      change).dedup).insertionSort (· ≤ ·)).filterMap (rows[·]?) =
      matchedRows debug policy options.simulation rows change := by
  have hplaces : ((hitPlaces (auditRules.flatMap (hitsUnder debug policy options.simulation rows))
      change).dedup).insertionSort (· ≤ ·) =
      (rows.zipIdx.filter fun x => auditRules.any fun rule =>
        withheldRow debug policy options.simulation rows rule x.2 = some change).map (·.2) := by
    refine List.Pairwise.eq_of_mem_iff (r := (· < ·)) ?_ ?_ fun place => ?_
    · exact ((List.pairwise_insertionSort _ _).and
        ((List.perm_insertionSort _ _).nodup_iff.2 (List.nodup_dedup _))).imp fun h =>
          lt_of_le_of_ne h.1 h.2
    · have hrange : (rows.zipIdx.map (·.2)).Pairwise (· < ·) := by
        rw [List.zipIdx_map_snd]
        exact List.pairwise_lt_range'
      exact hrange.sublist (List.filter_sublist.map _)
    · rw [(List.perm_insertionSort _ _).mem_iff, List.mem_dedup, mem_hitPlaces]
      simp only [List.mem_map, List.mem_filter, Prod.exists, exists_eq_right]
  rw [hplaces, matchedRows, rowsWhere, List.filterMap_map, ← List.filterMap_eq_map]
  refine List.filterMap_congr fun x hx => ?_
  exact List.mem_zipIdx_iff_getElem?.1 (List.mem_of_mem_filter hx)

end Replayed

end Argos.Policies
