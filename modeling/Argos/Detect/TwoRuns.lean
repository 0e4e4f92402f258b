import Argos.Detect.Aggregation
import Argos.Detect.Lossless

/-!
# Two runs of the engine

A run of the engine and the run of a part of its events. `kept_run` says that the second loses nothing
if the first does not and the second is thinner at every point, so both are functions of their events.
With the part of the events of one process the two functions agree (`assessed_filter_pid`): what other
processes do changes neither its score nor whether it may be blocked.
-/

namespace Argos.Detect

open Argos.Common
open Argos.Lib

/-- The events that reached the scorers, newest first. -/
def scoredPast (S : Setup) (events : List FileEvent) : List FileEvent :=
  (events.filter fun e => !isExcluded S.config e.path).reverse

section Runs

variable {S : Setup} {keep : FileEvent → Bool}

theorem scoredPast_concat (events : List FileEvent) (event : FileEvent) :
    scoredPast S (events ++ [event]) = pastWith S event (scoredPast S events) := by
  unfold scoredPast pastWith
  rw [List.filter_append, List.reverse_append, List.filter_cons, List.filter_nil]
  rcases isExcluded S.config event.path with _ | _
  · rfl
  · rfl

theorem lastTime_le_of_forall {past : List FileEvent} {time : Nat}
    (h : ∀ e ∈ past, e.timestampMs ≤ time) : lastTime past ≤ time := by
  rcases past with _ | ⟨e, rest⟩
  · exact Nat.zero_le _
  · exact h e List.mem_cons_self

/-- A part of the events before an event is not later than the event. -/
theorem Timely.scoredPast_le {before rest : List FileEvent} {event : FileEvent}
    (h : Timely (before ++ event :: rest)) {part : List FileEvent} (hpart : ∀ e ∈ part, e ∈ before) :
    lastTime (scoredPast S part) ≤ event.timestampMs := by
  refine lastTime_le_of_forall fun e he => ?_
  unfold scoredPast at he
  have hmem := hpart e (List.mem_of_mem_filter (List.mem_reverse.1 he))
  exact (List.pairwise_append.1 h.sorted).2.2 e hmem event List.mem_cons_self

/-- The evaluations of a run, and its last one. -/
theorem evaluations_concat (events : List FileEvent) (event : FileEvent) :
    DetectionEngine.evaluations S {} (events ++ [event]) =
      DetectionEngine.evaluations S {} events ++
        [((DetectionEngine.after S {} events).evaluate S event).1] :=
  DetectionEngine.evaluations_append S {} events [event]

/-- No evaluation of a run reports a loss. -/
def Complete (S : Setup) (events : List FileEvent) : Prop :=
  ∀ v ∈ DetectionEngine.evaluations S {} events, v.evidenceTruncated = false

theorem Complete.before {a b : List FileEvent} (h : Complete S (a ++ b)) : Complete S a := by
  intro v hv
  refine h v ?_
  rw [DetectionEngine.evaluations_append]
  exact List.mem_append_left _ hv

theorem Complete.last {events : List FileEvent} {event : FileEvent} (h : Complete S (events ++ [event])) :
    ((DetectionEngine.after S {} events).scored S event).1.evidenceTruncated = false := by
  refine (@evaluate_assessment S (DetectionEngine.after S {} events) event).2.2 (h _ ?_)
  rw [evaluations_concat]
  exact List.mem_append_right _ (List.mem_singleton.2 rfl)

theorem Clean.run {events : List FileEvent} (htimely : Timely events) (hcomplete : Complete S events) :
    Clean S (DetectionEngine.after S {} events) (scoredPast S events) := by
  induction events using List.reverseRecOn with
  | nil => exact Clean.initial
  | append_singleton events event ih =>
    rw [DetectionEngine.after_append, scoredPast_concat]
    have hclean := ih htimely.before hcomplete.before
    exact (hclean.step (htimely.scoredPast_le fun _ => id) (htimely.fits event (by simp))
      hcomplete.last).1

/-- The run of a part of the events that is thinner at every point loses nothing. -/
theorem kept_run {events : List FileEvent} (htimely : Timely events) (hcomplete : Complete S events)
    (hthin : ∀ before rest, events = before ++ rest →
      Thinner S (scoredPast S (before.filter keep)) (scoredPast S before)) :
    Clean S (DetectionEngine.after S {} (events.filter keep)) (scoredPast S (events.filter keep)) := by
  induction events using List.reverseRecOn with
  | nil => exact Clean.initial
  | append_singleton events event ih =>
    have hclean := ih htimely.before hcomplete.before fun before rest heq =>
      hthin before (rest ++ [event]) (by rw [heq, List.append_assoc])
    rw [List.filter_append, List.filter_cons, List.filter_nil]
    split
    · have hmax := htimely.fits event (by simp)
      have hnow : lastTime (scoredPast S (events.filter keep)) ≤ event.timestampMs :=
        htimely.scoredPast_le fun e he => List.mem_of_mem_filter he
      have hscored := (Clean.run htimely.before hcomplete.before).complete_of_thinner hclean
        (htimely.scoredPast_le fun _ => id) hnow hmax (hthin events [event] rfl) hcomplete.last
      rw [DetectionEngine.after_append, scoredPast_concat]
      exact (hclean.step hnow hmax hscored).1
    · rw [List.append_nil]
      exact hclean

/-- The evaluations of an event in the two runs are functions of their events. -/
theorem kept_evaluations {before rest : List FileEvent} {event : FileEvent}
    (htimely : Timely (before ++ event :: rest)) (hcomplete : Complete S (before ++ event :: rest))
    (hthin : ∀ a b, before = a ++ b → Thinner S (scoredPast S (a.filter keep)) (scoredPast S a)) :
    (((DetectionEngine.after S {} before).evaluate S event).1.score,
      ((DetectionEngine.after S {} before).evaluate S event).1.eligible) =
      assessed S event (scoredPast S before) ∧
    (((DetectionEngine.after S {} (before.filter keep)).evaluate S event).1.score,
      ((DetectionEngine.after S {} (before.filter keep)).evaluate S event).1.eligible) =
      assessed S event (scoredPast S (before.filter keep)) ∧
    ((DetectionEngine.after S {} (before.filter keep)).scored S event).1.evidenceTruncated = false := by
  have hsplit : before ++ event :: rest = before ++ [event] ++ rest := by simp
  have hprefix : Complete S (before ++ [event]) := by
    rw [hsplit] at hcomplete
    exact hcomplete.before
  have hmax : event.timestampMs ≤ u64Max := htimely.fits event (by simp)
  have hclean := Clean.run htimely.before hprefix.before
  have hnow : lastTime (scoredPast S before) ≤ event.timestampMs := htimely.scoredPast_le fun _ => id
  have hkept := kept_run htimely.before hprefix.before hthin
  have hnow' : lastTime (scoredPast S (before.filter keep)) ≤ event.timestampMs :=
    htimely.scoredPast_le fun e he => List.mem_of_mem_filter he
  have hcomplete' := hclean.complete_of_thinner hkept hnow hnow' hmax
    (hthin before [] (List.append_nil _).symm) hprefix.last
  exact ⟨(hclean.step hnow hmax hprefix.last).2, (hkept.step hnow' hmax hcomplete').2, hcomplete'⟩

theorem scored_pid {e : DetectionEngine} {event : FileEvent} :
    (e.scored S event).1.pid = event.pid := by
  unfold DetectionEngine.scored
  split
  · rfl
  · show (e.scorer.evaluateWithApproval S event _).1.pid = event.pid
    unfold BehaviorScorer.evaluateWithApproval
    dsimp only
    split
    · rfl
    · exact alerted_evaluation.2.1

theorem evaluate_pid {e : DetectionEngine} {event : FileEvent} :
    (e.evaluate S event).1.pid = event.pid := by
  rw [(@evaluate_assessment S e event).2.1]
  exact scored_pid

/-- What decides about a block. -/
def Evaluation.decisive (v : Evaluation) : ℚ × Bool × Nat := (v.score, v.eligible, v.pid)

/-- The last events of the two runs are evaluated alike, if the functions of their events agree. -/
theorem kept_tail {before rest : List FileEvent} (htimely : Timely (before ++ rest))
    (hcomplete : Complete S (before ++ rest)) (hkeep : ∀ e ∈ rest, keep e = true)
    (hthin : ∀ a b, before ++ rest = a ++ b →
      Thinner S (scoredPast S (a.filter keep)) (scoredPast S a))
    (hagree : ∀ a x b, rest = a ++ x :: b →
      assessed S x (scoredPast S ((before ++ a).filter keep)) =
        assessed S x (scoredPast S (before ++ a))) :
    (DetectionEngine.evaluations S (DetectionEngine.after S {} (before.filter keep)) rest).map
        Evaluation.decisive =
      (DetectionEngine.evaluations S (DetectionEngine.after S {} before) rest).map
        Evaluation.decisive := by
  induction rest using List.reverseRecOn with
  | nil => rfl
  | append_singleton rest x ih =>
    rw [← List.append_assoc] at htimely hcomplete hthin
    have hrest := ih htimely.before hcomplete.before
      (fun e he => hkeep e (List.mem_append_left _ he))
      (fun a b heq => hthin a (b ++ [x]) (by rw [heq, List.append_assoc]))
      (fun a y b heq => hagree a y (b ++ [x]) (by rw [heq, List.append_assoc]; rfl))
    obtain ⟨htogether, hapart, -⟩ := kept_evaluations htimely hcomplete fun a b heq =>
      hthin a (b ++ [x]) (by rw [heq, List.append_assoc])
    rw [hagree rest x [] rfl, ← htogether] at hapart
    have hfilter : (before ++ rest).filter keep = before.filter keep ++ rest := by
      rw [List.filter_append, List.filter_eq_self.2 fun e he => hkeep e (List.mem_append_left _ he)]
    rw [hfilter, DetectionEngine.after_append, DetectionEngine.after_append] at hapart
    rw [DetectionEngine.evaluations_append, DetectionEngine.evaluations_append, List.map_append,
      List.map_append, hrest]
    have hlast : ∀ e : DetectionEngine, (DetectionEngine.evaluations S e [x]).map Evaluation.decisive =
        [((e.evaluate S x).1.score, (e.evaluate S x).1.eligible, x.pid)] := by
      intro e
      show [(_, _, (e.evaluate S x).1.pid)] = _
      rw [evaluate_pid]
    obtain ⟨hscore, heligible⟩ := Prod.mk.inj hapart
    rw [hlast, hlast, hscore, heligible]

end Runs

/-! ## The events of one process -/

section Process

variable {S : Setup} {A : FileEvent → Option String} {p : Nat} {past : List FileEvent}

theorem scoredPast_filter (keep : FileEvent → Bool) (events : List FileEvent) :
    scoredPast S (events.filter keep) = (scoredPast S events).filter keep := by
  unfold scoredPast
  rw [List.filter_filter, List.filter_reverse, List.filter_filter]
  simp only [Bool.and_comm]

/-- The evidence against a process is its own. -/
theorem evidence_filter_pid (pid horizon : Nat) :
    evidence A pid horizon (past.filter fun e => e.pid = p) =
      if pid = p then evidence A pid horizon past else [] := by
  unfold evidence sinceReplaced
  split
  next heq =>
    subst heq
    have hfilter : (past.filter fun e => e.pid = pid).filter (fun e => e.pid = pid) =
        past.filter fun e => e.pid = pid := by
      rw [List.filter_filter]
      simp only [Bool.and_self]
    rw [← List.head?_filter, ← List.head?_filter, hfilter]
  next hne =>
    have hnone : (past.filter fun e => e.pid = p).filter (fun e => e.pid = pid) = [] := by
      rw [List.filter_eq_nil_iff]
      intro e he
      have heq := of_decide_eq_true (List.mem_filter.1 he).2
      rw [decide_eq_true_eq]
      exact fun h => hne (h.symm.trans heq)
    rw [hnone]
    rfl

theorem thinner_filter_pid : Thinner S (past.filter fun e => e.pid = p) past := by
  refine ⟨List.filter_sublist, fun pid horizon => ?_⟩
  rw [evidence_filter_pid]
  split
  · exact le_rfl
  · exact Nat.zero_le _

/-- The group of a process has the events of its pid alone. -/
theorem mem_includedKeys_instance {event : FileEvent} {process : Instance} {rules : List String}
    (h : .instance process ∈ includedKeys S.config.multiWindow event rules) : process.1 = event.pid := by
  have hmem : Group.instance process ∈ (groupKeys S.config.multiWindow event).filter Group.isInstance :=
    List.mem_filter.2 ⟨List.mem_of_mem_filter h, rfl⟩
  rw [groupKeys_isInstance, Option.mem_toList, Option.map_eq_some_iff] at hmem
  obtain ⟨process', hprocess, heq⟩ := hmem
  obtain rfl := Group.instance.inj heq
  unfold instanceOf at hprocess
  obtain ⟨context, -, rfl⟩ := Option.map_eq_some_iff.1 hprocess
  rfl

theorem joined_logOf_filter_pid {process : Instance} (h : process.1 = p) :
    joined (.instance process) (logOf S (past.filter fun e => e.pid = p)) =
      joined (.instance process) (logOf S past) := by
  unfold joined logOf
  rw [List.filter_reverse, List.filter_reverse, List.filter_map, List.filter_map, List.filter_filter,
    List.filter_filter, List.filter_filter]
  congr 2
  refine List.filter_congr fun e _ => ?_
  by_cases hin : Group.instance process ∈ (obsOf S e).groups
  · have hpid : e.pid = p := (mem_includedKeys_instance hin).symm.trans h
    simp [hpid]
  · simp [hin]

theorem instanceOf_pid {event : FileEvent} {process : Instance} (h : instanceOf event = some process) :
    process.1 = event.pid := by
  unfold instanceOf at h
  obtain ⟨context, -, rfl⟩ := Option.map_eq_some_iff.1 h
  rfl

/-- What other processes do does not matter for the assessment of an event. -/
theorem assessed_filter_pid (event : FileEvent) :
    assessed S event (past.filter fun e => e.pid = event.pid) = assessed S event past := by
  have hcons : event :: past.filter (fun e => e.pid = event.pid) =
      (event :: past).filter fun e => e.pid = event.pid := by
    rw [List.filter_cons, if_pos (decide_eq_true rfl)]
  have hwindow : wholeWindow S (behaviorApproval S.config) event
      (past.filter fun e => e.pid = event.pid) =
      wholeWindow S (behaviorApproval S.config) event past := by
    unfold wholeWindow
    rw [hcons, evidence_filter_pid, if_pos rfl]
  have hinstance : wholeInstanceScore S event (past.filter fun e => e.pid = event.pid) =
      wholeInstanceScore S event past := by
    unfold wholeInstanceScore
    rcases hprocess : instanceOf event with _ | process
    · rfl
    · simp only [Option.bind_some]
      unfold allEvidence
      rw [hcons, joined_logOf_filter_pid (instanceOf_pid hprocess)]
  unfold assessed Detect.assessment
  rw [hwindow, hinstance]

end Process

/-! ## The events since a time -/

section Since

variable {S : Setup} {A : FileEvent → Option String} {past : List FileEvent} {since : Nat}

/-- The events are ordered by their times, newest first. -/
def NewestFirst (past : List FileEvent) : Prop :=
  past.Pairwise fun a b => b.timestampMs ≤ a.timestampMs

/-- The events since a time are the newest ones. -/
theorem NewestFirst.split (h : NewestFirst past) : ∃ older,
    past = past.filter (fun e => since ≤ e.timestampMs) ++ older ∧ ∀ e ∈ older, e.timestampMs < since := by
  induction past with
  | nil => exact ⟨[], rfl, fun _ he => by cases he⟩
  | cons e rest ih =>
    obtain ⟨hfirst, hrest⟩ := List.pairwise_cons.1 h
    rw [List.filter_cons]
    split
    next hin =>
      obtain ⟨older, heq, holder⟩ := ih hrest
      exact ⟨older, by rw [List.cons_append, ← heq], holder⟩
    next hout =>
      rw [decide_eq_true_eq, not_le] at hout
      have hall : ∀ x ∈ rest, x.timestampMs < since := fun x hx => lt_of_le_of_lt (hfirst x hx) hout
      have hnone : rest.filter (fun x => since ≤ x.timestampMs) = [] := by
        rw [List.filter_eq_nil_iff]
        intro x hx
        have := hall x hx
        rw [decide_eq_true_eq]
        omega
      rw [hnone]
      refine ⟨e :: rest, rfl, fun x hx => ?_⟩
      rcases List.mem_cons.1 hx with rfl | hx
      · exact hout
      · exact hall x hx

/-- The older events are left out after as well as before the last change of the process. -/
theorem filter_takeWhile_append {p : FileEvent → Bool} {recent older : List FileEvent}
    (hrecent : ∀ e ∈ recent, since ≤ e.timestampMs) (holder : ∀ e ∈ older, e.timestampMs < since) :
    ((recent ++ older).takeWhile p).filter (fun e => since ≤ e.timestampMs) = recent.takeWhile p := by
  induction recent with
  | nil =>
    rw [List.nil_append, List.takeWhile_nil, List.filter_eq_nil_iff]
    intro e he
    have := holder e ((List.takeWhile_sublist _).subset he)
    rw [decide_eq_true_eq]
    omega
  | cons e recent ih =>
    rw [List.cons_append, List.takeWhile_cons, List.takeWhile_cons]
    split
    · rw [List.filter_cons, if_pos (decide_eq_true (hrecent e List.mem_cons_self)),
        ih fun x hx => hrecent x (List.mem_cons_of_mem _ hx)]
    · rfl

/-- The evidence of the events since a time. -/
theorem evidence_since (h : NewestFirst past) (pid horizon : Nat) :
    evidence A pid horizon (past.filter fun e => since ≤ e.timestampMs) =
      (evidence A pid horizon past).filter fun e => since ≤ e.timestampMs := by
  obtain ⟨older, heq, holder⟩ := @NewestFirst.split past since h
  have hrecent : ∀ e ∈ past.filter (fun e => since ≤ e.timestampMs), since ≤ e.timestampMs :=
    fun e he => of_decide_eq_true (List.mem_filter.1 he).2
  generalize past.filter (fun e => since ≤ e.timestampMs) = recent at heq hrecent
  subst heq
  have hcomm : ∀ (q : FileEvent → Bool) (l : List FileEvent),
      (l.filter q).filter (fun e => since ≤ e.timestampMs) =
        (l.filter fun e => since ≤ e.timestampMs).filter q := by
    intro q l
    rw [List.filter_filter, List.filter_filter]
    exact List.filter_congr fun e _ => Bool.and_comm _ _
  unfold evidence sinceReplaced
  rw [hcomm, List.filter_append, filter_takeWhile_append
    (fun e he => hrecent e (List.mem_of_mem_filter he)) fun e he => holder e (List.mem_of_mem_filter he)]
  -- The newest event of the pid decides which process has it, unless there is none since the time.
  rcases hfind : recent.find? (fun e => e.pid = pid) with _ | e
  · have hnone : recent.filter (fun e => e.pid = pid) = [] := by
      rw [← List.head?_eq_none_iff, List.head?_filter, hfind]
    rw [hnone]
    rfl
  · rw [List.find?_append, hfind, Option.some_or]

theorem thinner_since (h : NewestFirst past) :
    Thinner S (past.filter fun e => since ≤ e.timestampMs) past := by
  refine ⟨List.filter_sublist, fun pid horizon => ?_⟩
  rw [evidence_since h]
  exact List.length_filter_le _ _

/-- The log of the events since a time. -/
theorem logOf_since : logOf S (past.filter fun e => since ≤ e.timestampMs) =
    (logOf S past).filter fun o => since ≤ o.timestampMs := by
  unfold logOf
  rw [List.filter_reverse, List.filter_map, List.filter_filter, List.filter_filter]
  congr 2
  refine List.filter_congr fun e _ => ?_
  exact Bool.and_comm _ _

/-- What is older than all windows does not matter for the assessment of an event. -/
theorem assessed_since {event : FileEvent} (h : NewestFirst (event :: past))
    (hbase : since ≤ event.timestampMs - windowMs S)
    (hmulti : S.config.multiWindow.enabled = true → since ≤ event.timestampMs - horizonMs S) :
    assessed S event (past.filter fun e => since ≤ e.timestampMs) = assessed S event past := by
  have hcons : event :: past.filter (fun e => since ≤ e.timestampMs) =
      (event :: past).filter fun e => since ≤ e.timestampMs := by
    rw [List.filter_cons, if_pos (decide_eq_true (hbase.trans (Nat.sub_le _ _)))]
  have hwindow : wholeWindow S (behaviorApproval S.config) event
      (past.filter fun e => since ≤ e.timestampMs) =
      wholeWindow S (behaviorApproval S.config) event past := by
    unfold wholeWindow
    rw [hcons, evidence_since h, List.filter_eq_self.2]
    intro e he
    unfold evidence at he
    have hhorizon := (Bool.and_eq_true_iff.1 (List.mem_filter.1 he).2).2
    exact decide_eq_true (hbase.trans (of_decide_eq_true hhorizon))
  have hinstance : wholeInstanceScore S event (past.filter fun e => since ≤ e.timestampMs) =
      wholeInstanceScore S event past := by
    unfold wholeInstanceScore
    rcases henabled : S.config.multiWindow.enabled with _ | _
    · rfl
    · have hevidence : ∀ g, allEvidence S event.timestampMs g
          (logOf S (event :: past.filter fun e => since ≤ e.timestampMs)) =
          allEvidence S event.timestampMs g (logOf S (event :: past)) := by
        intro g
        rw [hcons, logOf_since]
        unfold allEvidence joined
        rw [List.filter_filter, List.filter_filter, List.filter_filter]
        refine List.filter_congr fun o _ => ?_
        by_cases hin : event.timestampMs - horizonMs S ≤ o.timestampMs
        · have hsince : since ≤ o.timestampMs := (hmulti henabled).trans hin
          simp [hin, hsince]
        · simp [hin]
      simp only [hevidence]
  unfold assessed Detect.assessment
  rw [hwindow, hinstance]

theorem newestFirst_scoredPast {events : List FileEvent} (h : Timely events) :
    NewestFirst (scoredPast S events) := by
  unfold NewestFirst scoredPast
  rw [List.pairwise_reverse]
  exact h.sorted.filter _

end Since

/-! ## Alerts -/

section Alerts

variable {S : Setup} {e : DetectionEngine} {event : FileEvent}

/-- The rules for groups of more than one process. -/
def aggregateRules : List String := [userRule, pathRule, ancestorRule]

/-- The alerts of an outcome name a group, and their pid is the one of the group. -/
def NamesGroup (d : Detection) : Prop := ∃ group : Group, d.rule = group.rule ∧ d.pid = alertPid group

theorem NamesGroup.pid_eq_zero {d : Detection} (h : NamesGroup d) (hrule : d.rule ∈ aggregateRules) :
    d.pid = 0 := by
  obtain ⟨group, hname, hpid⟩ := h
  rw [hname] at hrule
  rw [hpid]
  cases group with
  | «instance» process =>
    have hother : instanceRule ∉ aggregateRules := by decide
    exact absurd hrule hother
  | user uid boot path => rfl
  | protectedPath boot path => rfl
  | ancestor process path => rfl

theorem windowOutcomes_alerts {now : Nat} {truncated : Bool} {group : Group} {events : List Observation}
    (windows : List DetectionWindow) (acc : MultiOutcome × Map Nat (Nat × ℚ))
    (h : ∀ d ∈ acc.1.alerts, NamesGroup d) :
    ∀ d ∈ (windows.foldl (windowOutcome S now truncated group events) acc).1.alerts, NamesGroup d := by
  induction windows generalizing acc with
  | nil => exact h
  | cons window rest ih =>
    refine ih _ ?_
    unfold windowOutcome
    dsimp only
    split
    · exact h
    · have hsame : ∀ score, (if (group.isInstance && !truncated) = true then
          { acc.1 with instanceScore := score } else acc.1).alerts = acc.1.alerts := by
        intro score
        split <;> rfl
      split
      · intro d hd
        rw [hsame] at hd
        exact h d hd
      · intro d hd
        dsimp only at hd
        rw [hsame] at hd
        rcases List.mem_append.1 hd with hd | hd
        · exact h d hd
        · rw [List.mem_singleton.1 hd]
          exact ⟨group, rfl, rfl⟩

theorem groupOutcomes_alerts {now : Nat} {truncated : Bool} (keys : List Group)
    (acc : MultiOutcome × Map Group GroupState) (h : ∀ d ∈ acc.1.alerts, NamesGroup d) :
    ∀ d ∈ (keys.foldl (groupOutcome S now truncated) acc).1.alerts, NamesGroup d := by
  induction keys generalizing acc with
  | nil => exact h
  | cons key rest ih =>
    refine ih _ ?_
    unfold groupOutcome
    rcases acc.2.lookup key with _ | state
    · exact h
    · exact windowOutcomes_alerts _ _ h

theorem multi_alerts {m : MultiWindowScorer} {rules : List String} :
    ∀ d ∈ (m.evaluate S event rules).1.alerts, NamesGroup d := by
  have hnone : ∀ d ∈ ([] : List Detection), NamesGroup d := fun _ h => by cases h
  unfold MultiWindowScorer.evaluate
  split
  · exact hnone
  · dsimp only
    split
    · exact hnone
    · exact groupOutcomes_alerts _ _ hnone

/-- The alerts of an evaluation: the one of the process is of the rules for single processes, and an
aggregate alert carries no pid. -/
theorem evaluate_alerts : (∀ d ∈ (e.evaluate S event).1.additionalAlerts,
      d.rule ∈ aggregateRules → d.pid = 0) ∧
    ∀ d ∈ (e.evaluate S event).1.alert, d.rule ∉ aggregateRules := by
  have hbehavior : behaviorRule ∉ aggregateRules := by decide
  have hcanary : canaryRule ∉ aggregateRules := by decide
  have hscored : (∀ d ∈ (e.scored S event).1.additionalAlerts, d.rule ∈ aggregateRules → d.pid = 0) ∧
      ∀ d ∈ (e.scored S event).1.alert, d.rule ∉ aggregateRules := by
    unfold DetectionEngine.scored
    split
    · exact ⟨fun _ h => (by cases h), fun _ h => (by cases h)⟩
    · refine ⟨fun d hd hrule => (multi_alerts d hd).pid_eq_zero hrule, fun d hd => ?_⟩
      have hbase : d ∈ (e.scorer.evaluateWithApproval S event
          (behaviorApproval S.config event)).1.alert := hd
      unfold BehaviorScorer.evaluateWithApproval at hbase
      dsimp only at hbase
      split at hbase
      · cases hbase
      · unfold BehaviorScorer.alerted at hbase
        dsimp only at hbase
        split at hbase
        · cases hbase
        · obtain rfl := Option.some.inj hbase
          exact hbehavior
  unfold DetectionEngine.evaluate
  dsimp only
  split
  · unfold DetectionEngine.canaried
    dsimp only
    split
    · refine ⟨hscored.1, fun d hd => ?_⟩
      obtain rfl := Option.some.inj hd
      exact hcanary
    · exact hscored
  · exact hscored

end Alerts

/-! ## Other processes -/

/-- What other processes do changes neither the score of an event nor whether its process may be
blocked; it shows only in alerts that name no process. -/
theorem others_cannot_block {S : Setup} {events before rest : List FileEvent} {event : FileEvent}
    (htimely : Timely events) (hcomplete : Complete S events)
    (hsplit : events = before ++ event :: rest) :
    let alone := before.filter fun e => e.pid = event.pid
    let together := ((DetectionEngine.after S {} before).evaluate S event).1
    let apart := ((DetectionEngine.after S {} alone).evaluate S event).1
    apart.score = together.score ∧ apart.eligible = together.eligible ∧
    (∀ response, apart.blockCandidate response = together.blockCandidate response) ∧
    (∀ d ∈ together.additionalAlerts, d.rule ∈ aggregateRules → d.pid = 0) ∧
    ∀ d ∈ together.alert, d.rule ∉ aggregateRules := by
  dsimp only
  subst hsplit
  have hthin : ∀ a b, before = a ++ b →
      Thinner S (scoredPast S (a.filter fun e => e.pid = event.pid)) (scoredPast S a) := by
    intro a b _
    rw [scoredPast_filter]
    exact thinner_filter_pid
  obtain ⟨htogether, hapart, -⟩ := kept_evaluations htimely hcomplete hthin
  rw [scoredPast_filter, assessed_filter_pid, ← htogether] at hapart
  obtain ⟨hscore, heligible⟩ := Prod.mk.inj hapart
  refine ⟨hscore, heligible, fun response => ?_, evaluate_alerts.1, evaluate_alerts.2⟩
  unfold Evaluation.blockCandidate
  rw [hscore, heligible, evaluate_pid, evaluate_pid]

/-- A setup that watches processes and a protected path. -/
def watched : Setup where
  config := { DetectionConfig.default with
    minChangedFiles := 1
    multiWindow := { MultiWindowConfig.default with
      enabled := true
      windows := [⟨1, 1, 1, .finite 30⟩]
      protectedPaths := ["/srv"] } }
  sensor := .fanotify
  debug := id

/-- Two processes change a file, the first of them once more. -/
def twoProcesses : List FileEvent := [(changeBy 7 0).1, (changeBy 8 50).1, (changeBy 7 100).1]

theorem others_cannot_block_second :
    ((DetectionEngine.after watched {} [(changeBy 7 0).1]).evaluate watched (changeBy 7 100).1).1.score =
      ((DetectionEngine.after watched {} [(changeBy 7 0).1, (changeBy 8 50).1]).evaluate watched
        (changeBy 7 100).1).1.score := by
  have htimely : Timely twoProcesses := ⟨by decide, by decide⟩
  have hcomplete : Complete watched twoProcesses := by
    unfold Complete
    decide +kernel
  exact (@others_cannot_block watched twoProcesses [(changeBy 7 0).1, (changeBy 8 50).1] []
    (changeBy 7 100).1 htimely hcomplete rfl).1

end Argos.Detect
