import Argos.Policies.Simulation

/-!
# The warm-up of a replay

A replay of the events since one window before the range is compared with a replay of the whole
history. When nothing is lost, both evaluate the events of the range alike, so they report the same
targets (`warmup_targets`).
-/

namespace Argos.Policies

open Argos.Common
open Argos.Detect
open Argos.Lib

section Replay

variable {debug : String → String} {policy : Policy} {options : SimulationOptions}

theorem replayed_timestampMs (row : FileEventRow) :
    (replayed policy row).timestampMs = row.event.timestampMs := by
  unfold replayed
  split <;> rfl

/-- A replay is a run of the engine and a tally of its evaluations. -/
theorem foldl_replayRow (rows : List FileEventRow) (e : DetectionEngine) (t : Tally) :
    rows.foldl (replayRow debug policy options) (e, t) =
      (e.after (setupOf debug policy options) (rows.map (replayed policy)),
        (rows.zip (e.evaluations (setupOf debug policy options) (rows.map (replayed policy)))).foldl
          (tallied policy options) t) := by
  induction rows generalizing e t with
  | nil => rfl
  | cons row rest ih =>
    rw [List.foldl_cons]
    exact ih _ _

/-- The rows of a replay with their evaluations. -/
def evaluatedRows (debug : String → String) (policy : Policy) (options : SimulationOptions)
    (e : DetectionEngine) (rows : List FileEventRow) : List (FileEventRow × Evaluation) :=
  rows.zip (e.evaluations (setupOf debug policy options) (rows.map (replayed policy)))

theorem replay_eq (rows : List FileEventRow) : replay debug rows policy options =
    reported policy ((evaluatedRows debug policy options {} rows).foldl (tallied policy options) {}) := by
  unfold replay
  rw [foldl_replayRow]
  rfl

theorem length_evaluations (S : Setup) (e : DetectionEngine) (events : List FileEvent) :
    (e.evaluations S events).length = events.length := by
  induction events generalizing e with
  | nil => rfl
  | cons event rest ih => exact congrArg (· + 1) (ih _)

theorem evaluatedRows_append (e : DetectionEngine) (a b : List FileEventRow) :
    evaluatedRows debug policy options e (a ++ b) = evaluatedRows debug policy options e a ++
      evaluatedRows debug policy options
        (e.after (setupOf debug policy options) (a.map (replayed policy))) b := by
  unfold evaluatedRows
  rw [List.map_append, DetectionEngine.evaluations_append, List.zip_append]
  rw [length_evaluations, List.length_map]

theorem evaluatedRows_fst (e : DetectionEngine) (rows : List FileEventRow) :
    (evaluatedRows debug policy options e rows).map Prod.fst = rows := by
  unfold evaluatedRows
  refine List.map_fst_zip ?_
  rw [length_evaluations, List.length_map]

theorem evaluatedRows_snd (e : DetectionEngine) (rows : List FileEventRow) :
    (evaluatedRows debug policy options e rows).map Prod.snd =
      e.evaluations (setupOf debug policy options) (rows.map (replayed policy)) := by
  unfold evaluatedRows
  refine List.map_snd_zip ?_
  rw [length_evaluations, List.length_map]

/-- A replay reports a loss when one of its evaluations does. -/
theorem tallied_truncated (xs : List (FileEventRow × Evaluation)) (t : Tally) :
    (xs.foldl (tallied policy options) t).result.aggregationEvidenceTruncated =
      (t.result.aggregationEvidenceTruncated || xs.any fun x => x.2.evidenceTruncated) := by
  induction xs generalizing t with
  | nil => exact (Bool.or_false _).symm
  | cons x rest ih =>
    have hstep : (tallied policy options t x).result.aggregationEvidenceTruncated =
        (t.result.aggregationEvidenceTruncated || x.2.evidenceTruncated) := by
      unfold tallied
      dsimp only
      split <;> rfl
    rw [List.foldl_cons, ih, hstep, List.any_cons, Bool.or_assoc]

theorem complete_of_replay {rows : List FileEventRow}
    (h : (replay debug rows policy options).aggregationEvidenceTruncated = false) :
    Complete (setupOf debug policy options) (rows.map (replayed policy)) := by
  rw [replay_eq] at h
  have hflag : ((evaluatedRows debug policy options {} rows).foldl (tallied policy options)
      {}).result.aggregationEvidenceTruncated = false := h
  rw [tallied_truncated, Bool.or_eq_false_iff, List.any_eq_false] at hflag
  intro v hv
  rw [← @evaluatedRows_snd debug policy options {} rows, List.mem_map] at hv
  obtain ⟨x, hx, rfl⟩ := hv
  exact Bool.eq_false_iff.2 (hflag.2 x hx)

/-! ## Before and in the range -/

/-- Before the range only the state of the targets changes. -/
theorem tallied_before {xs : List (FileEventRow × Evaluation)}
    (h : ∀ x ∈ xs, x.1.event.timestampMs < options.fromMs) (t : Tally) :
    (xs.foldl (tallied policy options) t).targets = t.targets ∧
    (xs.foldl (tallied policy options) t).result.unattributedThresholdEvents =
      t.result.unattributedThresholdEvents ∧
    (xs.foldl (tallied policy options) t).result.blockThresholdCrossings =
      t.result.blockThresholdCrossings := by
  induction xs generalizing t with
  | nil => exact ⟨rfl, rfl, rfl⟩
  | cons x rest ih =>
    obtain ⟨htargets, hunattributed, hcrossings⟩ :=
      ih (fun y hy => h y (List.mem_cons_of_mem _ hy)) (tallied policy options t x)
    have hstep : (tallied policy options t x).targets = t.targets ∧
        (tallied policy options t x).result.unattributedThresholdEvents =
          t.result.unattributedThresholdEvents ∧
        (tallied policy options t x).result.blockThresholdCrossings =
          t.result.blockThresholdCrossings := by
      unfold tallied
      dsimp only
      rw [if_pos (h x List.mem_cons_self)]
      exact ⟨rfl, rfl, rfl⟩
    rw [List.foldl_cons, htargets, hunattributed, hcrossings]
    exact hstep

/-- In the range the targets depend on what decides about a block alone. -/
theorem tallied_range {xs ys : List (FileEventRow × Evaluation)} {t u : Tally}
    (h : xs.map (fun x => (x.1, x.2.decisive)) = ys.map fun y => (y.1, y.2.decisive))
    (htargets : t.targets = u.targets)
    (hunattributed : t.result.unattributedThresholdEvents = u.result.unattributedThresholdEvents) :
    (xs.foldl (tallied policy options) t).targets = (ys.foldl (tallied policy options) u).targets ∧
    (xs.foldl (tallied policy options) t).result.unattributedThresholdEvents =
      (ys.foldl (tallied policy options) u).result.unattributedThresholdEvents := by
  induction xs generalizing ys t u with
  | nil =>
    obtain rfl : ys = [] := List.map_eq_nil_iff.1 h.symm
    exact ⟨htargets, hunattributed⟩
  | cons x xs ih =>
    rcases ys with _ | ⟨y, ys⟩
    · cases h
    · rw [List.map_cons, List.map_cons, List.cons.injEq] at h
      obtain ⟨hfirst, hrest⟩ := h
      obtain ⟨hrow, hdecisive⟩ := Prod.mk.inj hfirst
      have hscore : x.2.score = y.2.score := congrArg Prod.fst hdecisive
      have heligible : x.2.eligible = y.2.eligible := congrArg (·.2.1) hdecisive
      have hpid : x.2.pid = y.2.pid := congrArg (·.2.2) hdecisive
      have habove : isAbove policy x.2 = isAbove policy y.2 := by
        unfold isAbove
        rw [hscore, heligible]
      have hcandidate : x.2.blockCandidate policy.response = y.2.blockCandidate policy.response := by
        unfold Evaluation.blockCandidate
        rw [hscore, heligible, hpid]
      rw [List.foldl_cons, List.foldl_cons]
      refine ih hrest ?_ ?_
      · unfold tallied
        dsimp only
        rw [hrow, hcandidate, hscore, htargets]
        split <;> rfl
      · unfold tallied
        dsimp only
        rw [hrow]
        split
        · exact hunattributed
        · unfold counted
          dsimp only
          rw [habove, hunattributed]

end Replay

/-! ## The whole history -/

section History

variable {debug : String → String} {policy : Policy} {options : SimulationOptions}
  {rows : List FileEventRow} {since : Nat}

/-- The rows are ordered by their times, which fit into 64 bits. -/
structure Ordered (rows : List FileEventRow) : Prop where
  sorted : rows.Pairwise fun a b => a.event.timestampMs ≤ b.event.timestampMs
  fits : ∀ row ∈ rows, row.event.timestampMs ≤ u64Max

theorem Ordered.timely (h : Ordered rows) : Timely (rows.map (replayed policy)) := by
  refine ⟨?_, fun e he => ?_⟩
  · rw [List.pairwise_map]
    simpa only [replayed_timestampMs] using h.sorted
  · obtain ⟨row, hrow, rfl⟩ := List.mem_map.1 he
    rw [replayed_timestampMs]
    exact h.fits row hrow

/-- The rows before the range come first. -/
theorem Ordered.split (h : Ordered rows) (start : Nat) :
    rows = rows.filter (fun row => row.event.timestampMs < start) ++
      rows.filter fun row => start ≤ row.event.timestampMs := by
  have hsorted := h.sorted
  clear h
  induction rows with
  | nil => rfl
  | cons row rest ih =>
    obtain ⟨hfirst, hrest⟩ := List.pairwise_cons.1 hsorted
    by_cases hlt : row.event.timestampMs < start
    · rw [List.filter_cons, if_pos (decide_eq_true hlt), List.filter_cons,
        if_neg (by simpa using hlt), List.cons_append, ← ih hrest]
    · have hall : ∀ x ∈ rest, start ≤ x.event.timestampMs := fun x hx =>
        (not_lt.1 hlt).trans (hfirst x hx)
      rw [List.filter_eq_nil_iff.2, List.nil_append, List.filter_eq_self.2]
      · intro x hx
        rcases List.mem_cons.1 hx with rfl | hx
        · exact decide_eq_true (not_lt.1 hlt)
        · exact decide_eq_true (hall x hx)
      · intro x hx
        rw [decide_eq_true_eq, not_lt]
        rcases List.mem_cons.1 hx with rfl | hx
        · exact not_lt.1 hlt
        · exact hall x hx

theorem millis_mono {a b : Nat} (h : a ≤ b) : millis a ≤ millis b := by
  unfold millis
  omega

/-- All windows of a policy are within its longest one. -/
theorem windows_le : windowMs (setupOf debug policy options) ≤ millis (policyWindowSecs policy) ∧
    (policy.detection.multiWindow.enabled = true →
      horizonMs (setupOf debug policy options) ≤ millis (policyWindowSecs policy)) := by
  refine ⟨millis_mono (Nat.le_max_left _ _), fun henabled => ?_⟩
  unfold horizonMs
  show ((policy.detection.multiWindow.windows.map fun w => millis w.windowSecs).max?).getD 0 ≤ _
  rcases hmax : (policy.detection.multiWindow.windows.map fun w => millis w.windowSecs).max? with
    _ | longest
  · rw [hmax]
    exact Nat.zero_le _
  · rw [hmax, Option.getD_some]
    obtain ⟨window, hwindow, rfl⟩ := List.mem_map.1 (List.max?_eq_some_iff.1 hmax).1
    refine millis_mono ?_
    unfold policyWindowSecs
    rw [henabled, if_pos rfl]
    refine le_trans ?_ (Nat.le_max_right _ _)
    rcases hsecs : (policy.detection.multiWindow.windows.map (·.windowSecs)).max? with _ | secs
    · rw [List.max?_eq_none_iff, List.map_eq_nil_iff] at hsecs
      rw [hsecs] at hwindow
      cases hwindow
    · rw [hsecs, Option.getD_some]
      exact (List.max?_eq_some_iff.1 hsecs).2 _ (List.mem_map_of_mem hwindow)

theorem map_filter_replayed (rows : List FileEventRow) :
    (rows.filter fun row => since ≤ row.event.timestampMs).map (replayed policy) =
      (rows.map (replayed policy)).filter fun e => since ≤ e.timestampMs := by
  rw [List.filter_map]
  congr 1
  refine List.filter_congr fun row _ => ?_
  show _ = decide (since ≤ (replayed policy row).timestampMs)
  rw [replayed_timestampMs]

/-- The replay since a time evaluates the rows of the range as the replay of everything does. -/
theorem evaluations_since (hordered : Ordered rows)
    (hcomplete : Complete (setupOf debug policy options) (rows.map (replayed policy)))
    (hsince : since ≤ options.fromMs - millis (policyWindowSecs policy)) :
    (DetectionEngine.evaluations (setupOf debug policy options)
      (DetectionEngine.after (setupOf debug policy options) {}
        (((rows.filter fun row => row.event.timestampMs < options.fromMs).filter
          fun row => since ≤ row.event.timestampMs).map (replayed policy)))
      ((rows.filter fun row => options.fromMs ≤ row.event.timestampMs).map (replayed policy))).map
        Evaluation.decisive =
    (DetectionEngine.evaluations (setupOf debug policy options)
      (DetectionEngine.after (setupOf debug policy options) {}
        ((rows.filter fun row => row.event.timestampMs < options.fromMs).map (replayed policy)))
      ((rows.filter fun row => options.fromMs ≤ row.event.timestampMs).map (replayed policy))).map
        Evaluation.decisive := by
  obtain ⟨hbase, hmulti⟩ := @windows_le debug policy options
  have hsplit := congrArg (List.map (replayed policy)) (hordered.split options.fromMs)
  rw [List.map_append] at hsplit
  have htimely : Timely (rows.map (replayed policy)) := hordered.timely
  have hrange : ∀ e ∈ (rows.filter fun row => options.fromMs ≤ row.event.timestampMs).map
      (replayed policy), options.fromMs ≤ e.timestampMs := by
    intro e he
    obtain ⟨row, hrow, rfl⟩ := List.mem_map.1 he
    rw [replayed_timestampMs]
    exact of_decide_eq_true (List.mem_filter.1 hrow).2
  rw [map_filter_replayed]
  rw [hsplit] at htimely hcomplete
  refine kept_tail htimely hcomplete (fun e he => ?_) (fun a b heq => ?_) fun a x b heq => ?_
  · have := hrange e he
    exact decide_eq_true (by omega)
  · rw [scoredPast_filter]
    rw [heq] at htimely
    exact thinner_since (newestFirst_scoredPast htimely.before)
  · have hx : options.fromMs ≤ x.timestampMs := hrange x (by rw [heq]; simp)
    rw [heq, ← List.append_assoc] at htimely
    rw [scoredPast_filter]
    refine assessed_since ?_ (by omega) fun henabled => ?_
    · refine List.pairwise_cons.2 ⟨fun e he => ?_, newestFirst_scoredPast htimely.before⟩
      unfold scoredPast at he
      have hmem := List.mem_of_mem_filter (List.mem_reverse.1 he)
      exact (List.pairwise_append.1 htimely.sorted).2.2 e hmem x List.mem_cons_self
    · have := hmulti henabled
      omega

/-- The rows since a time: those before the range, and the range. -/
theorem Ordered.since_split (h : Ordered rows) (hsince : since ≤ options.fromMs) :
    rows.filter (fun row => since ≤ row.event.timestampMs) =
      ((rows.filter fun row => row.event.timestampMs < options.fromMs).filter
        fun row => since ≤ row.event.timestampMs) ++
      rows.filter fun row => options.fromMs ≤ row.event.timestampMs := by
  conv_lhs => rw [h.split options.fromMs, List.filter_append]
  congr 1
  refine List.filter_eq_self.2 fun row hrow => decide_eq_true ?_
  exact hsince.trans (of_decide_eq_true (List.mem_filter.1 hrow).2)

theorem map_decisive (e : DetectionEngine) (rows : List FileEventRow) :
    (evaluatedRows debug policy options e rows).map (fun x => (x.1, x.2.decisive)) =
      rows.zip ((e.evaluations (setupOf debug policy options) (rows.map (replayed policy))).map
        Evaluation.decisive) := by
  unfold evaluatedRows
  rw [List.zip_map_right]
  rfl

theorem before_range {e : DetectionEngine} {part : List FileEventRow}
    (hpart : ∀ row ∈ part, row.event.timestampMs < options.fromMs) :
    ∀ x ∈ evaluatedRows debug policy options e part, x.1.event.timestampMs < options.fromMs := by
  intro x hx
  refine hpart x.1 ?_
  rw [← @evaluatedRows_fst debug policy options e part]
  exact List.mem_map_of_mem hx

/-- The replay since one window before the range reports the targets of the replay of everything. -/
theorem replay_since (hordered : Ordered rows)
    (hcomplete : Complete (setupOf debug policy options) (rows.map (replayed policy)))
    (hsince : since ≤ options.fromMs - millis (policyWindowSecs policy)) :
    (replay debug (rows.filter fun row => since ≤ row.event.timestampMs) policy
        options).thresholdTargets = (replay debug rows policy options).thresholdTargets ∧
    (replay debug (rows.filter fun row => since ≤ row.event.timestampMs) policy
        options).wouldBlockPids = (replay debug rows policy options).wouldBlockPids ∧
    (replay debug (rows.filter fun row => since ≤ row.event.timestampMs) policy
        options).unattributedThresholdEvents =
      (replay debug rows policy options).unattributedThresholdEvents := by
  have hevaluations := evaluations_since hordered hcomplete hsince
  have hold : ∀ row ∈ rows.filter (fun row => row.event.timestampMs < options.fromMs),
      row.event.timestampMs < options.fromMs := fun row hrow => of_decide_eq_true (List.mem_filter.1 hrow).2
  have hold' : ∀ row ∈ (rows.filter fun row => row.event.timestampMs < options.fromMs).filter
      (fun row => since ≤ row.event.timestampMs), row.event.timestampMs < options.fromMs :=
    fun row hrow => hold row (List.mem_of_mem_filter hrow)
  rw [hordered.since_split (hsince.trans (Nat.sub_le _ _))]
  have hrows : replay debug rows policy options = replay debug
      (rows.filter (fun row => row.event.timestampMs < options.fromMs) ++
        rows.filter fun row => options.fromMs ≤ row.event.timestampMs) policy options :=
    congrArg (fun r => replay debug r policy options) (hordered.split options.fromMs)
  rw [hrows, replay_eq, replay_eq, evaluatedRows_append, evaluatedRows_append, List.foldl_append,
    List.foldl_append]
  obtain ⟨htargets, hunattributed, -⟩ := @tallied_before policy options _
    (@before_range debug policy options {} _ hold) {}
  obtain ⟨htargets', hunattributed', -⟩ := @tallied_before policy options _
    (@before_range debug policy options {} _ hold') {}
  have hmaps := congrArg (List.zip (rows.filter fun row => options.fromMs ≤ row.event.timestampMs))
    hevaluations
  rw [← map_decisive, ← map_decisive] at hmaps
  obtain ⟨hsame, hcount⟩ := @tallied_range policy options _ _ _ _ hmaps (htargets'.trans htargets.symm)
    (hunattributed'.trans hunattributed.symm)
  unfold reported
  dsimp only
  exact ⟨by rw [hsame], by rw [hsame], hcount⟩

end History

/-! ## Loading -/

section Loading

variable {debug : String → String} {policy baseline candidate : Policy} {options : SimulationOptions}
  {store : List FileEventRow} {range : FileEventRange}

/-- A stored history in its order. -/
def Stored (store : List FileEventRow) : Prop := store.Pairwise fun a b => rowLe a b = true

theorem Stored.rowsBetween_eq (h : Stored store) (fromMs toMs : Nat) :
    rowsBetween store fromMs toMs = store.filter fun row =>
      fromMs ≤ row.event.timestampMs && row.event.timestampMs ≤ toMs :=
  List.Pairwise.insertionSort_eq (h.filter _)

theorem Stored.ordered (h : Stored store) {toMs : Nat} (hmax : toMs ≤ u64Max) :
    Ordered (rowsBetween store 0 toMs) := by
  rw [h.rowsBetween_eq]
  refine ⟨(h.filter _).imp fun {a b} hle => ?_, fun row hrow => ?_⟩
  · unfold rowLe at hle
    rw [Bool.or_eq_true, Bool.and_eq_true, decide_eq_true_eq, decide_eq_true_eq] at hle
    rcases hle with hlt | heq
    · exact hlt.le
    · exact heq.1.le
  · have hle := (Bool.and_eq_true_iff.1 (List.mem_filter.1 hrow).2).2
    exact (of_decide_eq_true hle).trans hmax

/-- What a successful load returns. -/
theorem loadSimulationRange_ok
    (h : loadSimulationRange store baseline candidate options = .ok range)
    (hall : range.truncated = false) :
    range.events = rowsBetween store (options.fromMs - warmupMs baseline candidate) options.toMs ∧
    options.toMs ≤ u64Max := by
  unfold loadSimulationRange at h
  by_cases hrange : options.fromMs > options.toMs ∨ options.toMs > Recovery.i64Max
  · rw [if_pos hrange] at h
    cases h
  by_cases hlimit : options.maxEvents = 0 ∨ options.maxEvents > 1000000
  · rw [if_neg hrange, if_pos hlimit] at h
    cases h
  rw [if_neg hrange, if_neg hlimit] at h
  rcases hbaseline : checkedPolicy "기존" baseline with reason | _
  · rw [hbaseline] at h
    cases h
  rcases hcandidate : checkedPolicy "후보" candidate with reason | _
  · rw [hbaseline, hcandidate] at h
    cases h
  rw [hbaseline, hcandidate] at h
  have hload : fileEventsInRange store (options.fromMs - warmupMs baseline candidate) options.toMs
      options.maxEvents = .ok range := h
  have hmax : Recovery.i64Max ≤ u64Max := by decide
  unfold fileEventsInRange at hload
  split at hload
  · cases hload
  · split at hload
    · cases hload
    · obtain rfl := Except.ok.inj hload
      refine ⟨?_, by omega⟩
      -- As many rows as there are: the limit cuts nothing.
      have hlength := of_decide_eq_false hall
      rw [List.length_take] at hlength
      exact List.take_of_length_le (by omega)

/-- The rows since a time are those of the whole history since that time. -/
theorem Stored.rowsBetween_since (h : Stored store) (since toMs : Nat) :
    rowsBetween store since toMs =
      (rowsBetween store 0 toMs).filter fun row => since ≤ row.event.timestampMs := by
  rw [h.rowsBetween_eq, h.rowsBetween_eq, List.filter_filter]
  refine List.filter_congr fun row _ => ?_
  rw [decide_eq_true (Nat.zero_le _), Bool.true_and]

theorem warmup_covers (hpolicy : policy = baseline ∨ policy = candidate) :
    options.fromMs - warmupMs baseline candidate ≤
      options.fromMs - millis (policyWindowSecs policy) := by
  have hle : millis (policyWindowSecs policy) ≤ warmupMs baseline candidate := by
    rcases hpolicy with rfl | rfl
    · exact millis_mono (Nat.le_max_left _ _)
    · exact millis_mono (Nat.le_max_right _ _)
  omega

/-- The warm-up is sufficient: the loaded events and the whole history give the same targets. -/
theorem warmup_targets (hstore : Stored store)
    (hload : loadSimulationRange store baseline candidate options = .ok range)
    (hall : range.truncated = false) (hpolicy : policy = baseline ∨ policy = candidate)
    (hcomplete : (replay debug (rowsBetween store 0 options.toMs) policy
      options).aggregationEvidenceTruncated = false) :
    (replay debug range.events policy options).thresholdTargets =
      (replay debug (rowsBetween store 0 options.toMs) policy options).thresholdTargets ∧
    (replay debug range.events policy options).wouldBlockPids =
      (replay debug (rowsBetween store 0 options.toMs) policy options).wouldBlockPids ∧
    (replay debug range.events policy options).unattributedThresholdEvents =
      (replay debug (rowsBetween store 0 options.toMs) policy options).unattributedThresholdEvents := by
  obtain ⟨hevents, hmax⟩ := loadSimulationRange_ok hload hall
  rw [hevents, hstore.rowsBetween_since]
  exact replay_since (hstore.ordered hmax) (complete_of_replay hcomplete) (warmup_covers hpolicy)

/-- A policy that blocks a process after two changed files within a second. -/
def strict : Policy where
  version := 1
  policyId := "strict"
  keyId := "ops"
  issuedAtMs := 0
  notBeforeMs := 0
  expiresAtMs := 1
  targetHosts := []
  targetGroups := []
  rollback := none
  detection := { DetectionConfig.default with
    windowSecs := 1
    minChangedFiles := 2
    massChangeThreshold := 2 }
  response := { ResponseConfig.default with blockScore := .finite 40 }

/-- The change of a file by one process. -/
def rowAt (id : Int) (timestampMs : Nat) (path : String) : FileEventRow where
  id := id
  event :=
    { timestampMs := timestampMs
      pid := 7
      path := path
      action := .modify
      size := none
      entropy := none
      process := some ⟨1000, "/bin/cp", 1, "boot", []⟩
      content := none }

/-- The sixth second. -/
def sixthSecond : SimulationOptions := ⟨5000, 6000, 100, .fanotify⟩

/-- Three changes, the first of them more than a second before the range. -/
def spread : List FileEventRow := [rowAt 1 3999 "/srv/a", rowAt 2 4999 "/srv/b", rowAt 3 5000 "/srv/c"]

/-- What is loaded of them. -/
def spreadRange : FileEventRange :=
  ⟨4000, 6000, 2, false, [rowAt 2 4999 "/srv/b", rowAt 3 5000 "/srv/c"]⟩

theorem warmup_targets_spread :
    (replay id spreadRange.events strict sixthSecond).thresholdTargets =
      (replay id (rowsBetween spread 0 6000) strict sixthSecond).thresholdTargets := by
  have hstore : Stored spread := by
    unfold Stored
    decide
  exact (@warmup_targets id strict strict strict sixthSecond spread spreadRange hstore
    (by decide +kernel) rfl (.inl rfl) (by decide +kernel)).1

end Loading

end Argos.Policies
