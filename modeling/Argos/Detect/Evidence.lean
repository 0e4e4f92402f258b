import Argos.Detect.Scorer

/-!
# What the window of a process contains

The evidence against a process is a function of the events so far (`evidence`): those of its pid since
another process had it, of the last seconds, that were not approved. `Knows` says that the scorer has
this evidence from a horizon on, and `Reflects` that it has it whenever it does not report a loss.
Every evaluation keeps that (`Reflects.step`), so an evaluation that reports no loss is one of the
whole evidence (`Reflects.evaluation`).
-/

namespace Argos.Detect

open Argos.Common
open Argos.Lib
open Argos.Vault (saturatingAdd)

/-! ## The evidence -/

/-- The events of a pid since another process had it, newest first. -/
def sinceReplaced (pid : Nat) (past : List FileEvent) : List FileEvent :=
  (past.filter fun e => e.pid = pid).takeWhile fun e =>
    some (identityOf e) = (past.find? fun e => e.pid = pid).map identityOf

/-- The events of a pid that count from a horizon on, newest first: `A` gives the approval of an
event, and an approved event does not count. -/
def evidence (A : FileEvent → Option String) (pid horizon : Nat) (past : List FileEvent) :
    List FileEvent :=
  (sinceReplaced pid past).filter fun e => (A e).isNone && horizon ≤ e.timestampMs

/-- The entries of events, in the order of a window. -/
def entriesOf (S : Setup) (events : List FileEvent) : List WindowEntry :=
  (events.map (entryOf S.config)).reverse

/-- The time of the last event. -/
def lastTime (past : List FileEvent) : Nat := (past.head?.map (·.timestampMs)).getD 0

section Evidence

variable {S : Setup} {A : FileEvent → Option String} {pid horizon : Nat} {past : List FileEvent} {event : FileEvent}

theorem evidence_cons_ne (h : event.pid ≠ pid) :
    evidence A pid horizon (event :: past) = evidence A pid horizon past := by
  have hno : decide (event.pid = pid) = false := decide_eq_false h
  unfold evidence sinceReplaced
  rw [List.filter_cons, List.find?_cons, hno]
  rfl

/-- An event of another process with the pid starts anew. -/
theorem evidence_cons_other (h : ∀ e, past.find? (fun e => e.pid = event.pid) = some e →
      identityOf e ≠ identityOf event) :
    evidence A event.pid horizon (event :: past) =
      [event].filter fun e => (A e).isNone && horizon ≤ e.timestampMs := by
  have hself : decide (event.pid = event.pid) = true := decide_eq_true rfl
  unfold evidence sinceReplaced
  rw [List.filter_cons, List.find?_cons, hself]
  simp only [if_true, Option.map_some, Option.some.injEq, decide_true, List.takeWhile_cons]
  -- The next event of the pid, if there is one, has another identity.
  have hnone : (past.filter fun e => e.pid = event.pid).takeWhile
      (fun e => identityOf e = identityOf event) = [] := by
    rcases hpast : past.filter (fun e => e.pid = event.pid) with _ | ⟨e, rest⟩
    · rw [hpast]
      rfl
    · have hfind : past.find? (fun e => e.pid = event.pid) = some e := by
        rw [← List.head?_filter, hpast]
        rfl
      rw [hpast, List.takeWhile_cons, decide_eq_false (h e hfind)]
      rfl
  rw [hnone]

/-- An event of the same process is added. -/
theorem evidence_cons_same {e : FileEvent} (hfind : past.find? (fun e => e.pid = event.pid) = some e)
    (h : identityOf e = identityOf event) :
    evidence A event.pid horizon (event :: past) =
      ([event].filter fun e => (A e).isNone && horizon ≤ e.timestampMs) ++
        evidence A event.pid horizon past := by
  have hself : decide (event.pid = event.pid) = true := decide_eq_true rfl
  unfold evidence sinceReplaced
  rw [List.filter_cons, List.find?_cons, hself, hfind, ← List.filter_append]
  simp only [if_true, Option.map_some, Option.some.injEq, decide_true, List.takeWhile_cons, h]
  rfl

theorem find_of_evidence (h : evidence A pid horizon past ≠ []) :
    ∃ e, past.find? (fun e => e.pid = pid) = some e := by
  by_contra hnone
  have hfind : past.find? (fun e => e.pid = pid) = none := by
    rw [← Option.not_isSome_iff_eq_none, Option.isSome_iff_exists]
    exact hnone
  have hempty : past.filter (fun e => e.pid = pid) = [] := by
    rw [← List.head?_eq_none_iff, List.head?_filter, hfind]
  refine h ?_
  unfold evidence sinceReplaced
  rw [hempty]
  rfl

/-- A later horizon keeps a part. -/
theorem evidence_filter {later : Nat} (h : horizon ≤ later) :
    (evidence A pid horizon past).filter (fun e => later ≤ e.timestampMs) = evidence A pid later past := by
  unfold evidence
  rw [List.filter_filter]
  refine List.filter_congr fun e _ => ?_
  by_cases hlater : later ≤ e.timestampMs
  · have hle : horizon ≤ e.timestampMs := h.trans hlater
    simp [hlater, hle]
  · simp [hlater]

theorem entriesOf_filter (events : List FileEvent) :
    (entriesOf S events).filter (fun e => horizon ≤ e.timestampMs) =
      entriesOf S (events.filter fun e => horizon ≤ e.timestampMs) := by
  unfold entriesOf
  rw [List.filter_reverse, List.filter_map]
  rfl

end Evidence

/-! ## Room -/

section Steps

variable {S : Setup} {s : BehaviorScorer} {past : List FileEvent} {event : FileEvent}

/-- There is room for an event. -/
structure Roomy (S : Setup) (s : BehaviorScorer) (pid : Nat) : Prop where
  groups : pid ∉ s.windows → s.windows.entries.length < maxGroups S
  events : sumOver List.length s.windows < maxEvents S

theorem prepared_of_roomy (h : Roomy S (s.retained S event.timestampMs) event.pid) :
    s.prepared S event = s.retained S event.timestampMs := by
  have hgroup : (s.retained S event.timestampMs).evictGroup S event = s.retained S event.timestampMs := by
    refine if_neg fun hfull => ?_
    have := h.groups hfull.1
    omega
  have hevents : (s.retained S event.timestampMs).evictEvents S event.timestampMs =
      s.retained S event.timestampMs := if_neg (by have := h.events; omega)
  rw [BehaviorScorer.prepared, hgroup, hevents]

/-- Without room something is lost, and the scorer knows it. -/
theorem incomplete_of_not_roomy (h : ¬ Roomy S (s.retained S event.timestampMs) event.pid) :
    (s.prepared S event).incompleteUntil = some (saturatingAdd event.timestampMs (windowMs S)) := by
  unfold BehaviorScorer.prepared BehaviorScorer.evictEvents
  split
  · rfl
  next hevents =>
    -- The events fit, so it is the group that does not.
    unfold BehaviorScorer.evictGroup at hevents ⊢
    split
    · rfl
    next hgroup =>
      rw [if_neg hgroup] at hevents
      refine absurd ⟨fun hnew => ?_, by omega⟩ h
      by_contra hfull
      exact hgroup ⟨hnew, by omega⟩

theorem prepared_incompleteUntil (h : Roomy S (s.retained S event.timestampMs) event.pid) :
    (s.prepared S event).incompleteUntil = s.incompleteUntil := by
  rw [prepared_of_roomy h]
  rfl

/-- What an evaluation says of lost evidence. -/
theorem evaluateWithApproval_truncated (approved : Option String) :
    (s.evaluateWithApproval S event approved).1.evidenceTruncated =
      (tooLong S event || (s.prepared S event).lacking event.timestampMs) := by
  unfold BehaviorScorer.evaluateWithApproval
  dsimp only
  rcases htoo : tooLong S event with _ | _
  · simp only [Bool.false_eq_true, if_false, Bool.false_or]
    have hreplaced : ((s.prepared S event).replaced event).incompleteUntil =
        (s.prepared S event).incompleteUntil := by
      unfold BehaviorScorer.replaced
      split <;> rfl
    unfold BehaviorScorer.alerted
    dsimp only
    split
    · exact congrArg (fun last : Option Nat => last.any fun t => event.timestampMs ≤ t) hreplaced
    · exact congrArg (fun last : Option Nat => last.any fun t => event.timestampMs ≤ t) hreplaced
  · rfl

/-- An evaluation that reports no loss found room. -/
theorem roomy_of_evaluation {approved : Option String}
    (hnow : event.timestampMs ≤ u64Max)
    (h : (s.evaluateWithApproval S event approved).1.evidenceTruncated = false) :
    tooLong S event = false ∧ Roomy S (s.retained S event.timestampMs) event.pid := by
  rw [evaluateWithApproval_truncated, Bool.or_eq_false_iff] at h
  refine ⟨h.1, ?_⟩
  by_contra hfull
  have hlacking : (s.prepared S event).lacking event.timestampMs = true := by
    unfold BehaviorScorer.lacking
    rw [incomplete_of_not_roomy hfull, Option.any_some, decide_eq_true_eq]
    unfold saturatingAdd Vault.u64Max
    unfold u64Max at hnow
    omega
  rw [hlacking] at h
  cases h.2

end Steps

/-! ## What the scorer knows -/

/-- The scorer has the evidence from a horizon on. -/
structure Knows (S : Setup) (A : FileEvent → Option String) (s : BehaviorScorer) (past : List FileEvent) (horizon : Nat) : Prop where
  windows : ∀ pid, ((s.windows.lookup pid).getD []).filter (fun e => horizon ≤ e.timestampMs) =
    entriesOf S (evidence A pid horizon past)
  identities : ∀ pid, evidence A pid horizon past ≠ [] →
    s.identities.lookup pid = (past.find? fun e => e.pid = pid).map identityOf

section Knows

variable {S : Setup} {A : FileEvent → Option String} {s : BehaviorScorer} {past : List FileEvent} {event : FileEvent} {now horizon : Nat}

theorem entriesOf_eq_nil {events : List FileEvent} : entriesOf S events = [] ↔ events = [] := by
  unfold entriesOf
  rw [List.reverse_eq_nil_iff, List.map_eq_nil_iff]

theorem entriesOf_append (a b : List FileEvent) :
    entriesOf S (a ++ b) = entriesOf S b ++ entriesOf S a := by
  unfold entriesOf
  rw [List.map_append, List.reverse_append]

/-- The window that is left at an earlier horizon has the same part from a later one on. -/
theorem filter_unexpired {earlier : Nat} (h : earlier ≤ horizon) (window : List WindowEntry) :
    ((unexpired earlier window).getD []).filter (fun e => horizon ≤ e.timestampMs) =
      window.filter fun e => horizon ≤ e.timestampMs := by
  have hboth : (window.filter fun e => earlier ≤ e.timestampMs).filter
      (fun e => horizon ≤ e.timestampMs) = window.filter fun e => horizon ≤ e.timestampMs := by
    rw [List.filter_filter]
    refine List.filter_congr fun e _ => ?_
    by_cases hlater : horizon ≤ e.timestampMs
    · have hle : earlier ≤ e.timestampMs := h.trans hlater
      simp [hlater, hle]
    · simp [hlater]
  unfold unexpired
  split
  next hnil =>
    rw [← hboth, hnil]
    rfl
  next => exact hboth

theorem retained_lookup (pid : Nat) : (s.retained S now).windows.lookup pid =
    (s.windows.lookup pid).bind (unexpired (now - windowMs S)) :=
  lookup_retain _ _ _

theorem retained_identity (pid : Nat) : (s.retained S now).identities.lookup pid =
    if pid ∈ (s.retained S now).windows then s.identities.lookup pid else none := by
  have hlookup : (s.retained S now).identities.lookup pid = (s.identities.lookup pid).bind
      fun known => if pid ∈ (s.retained S now).windows then some known else none :=
    lookup_retain _ _ _
  rw [hlookup]
  rcases s.identities.lookup pid with _ | known
  · split <;> rfl
  · rfl

theorem filter_retained (h : now - windowMs S ≤ horizon) (pid : Nat) :
    (((s.retained S now).windows.lookup pid).getD []).filter (fun e => horizon ≤ e.timestampMs) =
      ((s.windows.lookup pid).getD []).filter fun e => horizon ≤ e.timestampMs := by
  rw [retained_lookup]
  rcases s.windows.lookup pid with _ | window
  · rfl
  · exact filter_unexpired h window

theorem Knows.retained (hs : Knows S A s past horizon) (h : now - windowMs S ≤ horizon) :
    Knows S A (s.retained S now) past horizon where
  windows := fun pid => (filter_retained h pid).trans (hs.windows pid)
  identities := by
    intro pid hsome
    have hmem : pid ∈ (s.retained S now).windows := by
      -- A window with evidence is not empty, so it stays.
      by_contra hno
      have hnone : (s.retained S now).windows.lookup pid = none := AList.lookup_eq_none.2 hno
      have hfilter := filter_retained (s := s) h pid
      rw [hnone, hs.windows pid] at hfilter
      exact hsome (entriesOf_eq_nil.1 hfilter.symm)
    rw [retained_identity, if_pos hmem]
    exact hs.identities pid hsome

/-- What is dropped from the front is not missed. -/
theorem filter_dropWhile {α : Type} {p q : α → Bool} (h : ∀ a, p a = true → q a = false) (l : List α) :
    (l.dropWhile p).filter q = l.filter q := by
  induction l with
  | nil => rfl
  | cons a l ih =>
    rw [List.dropWhile_cons]
    rcases hp : p a with _ | _
    · rfl
    · rw [if_pos rfl, ih, List.filter_cons, h a hp]
      rfl

/-- The entry of an event, unless the event is approved or too old. -/
theorem filter_newest : (if (A event).isNone then [entryOf S.config event]
      else []).filter (fun e => horizon ≤ e.timestampMs) =
    entriesOf S ([event].filter fun e =>
      (A e).isNone && horizon ≤ e.timestampMs) := by
  rw [List.filter_cons, List.filter_nil]
  rcases (A event).isNone with _ | _
  · rfl
  · rw [Bool.true_and, if_pos rfl, List.filter_cons]
    show (if decide (horizon ≤ event.timestampMs) = true then _ else _) = _
    split <;> rfl

/-- The window of the process of an event, when another process has left it. -/
theorem Knows.replaced_filter (hs : Knows S A s past horizon) :
    (((s.replaced event).windows.lookup event.pid).getD []).filter (fun e => horizon ≤ e.timestampMs) ++
      entriesOf S ([event].filter fun e =>
        (A e).isNone && horizon ≤ e.timestampMs) =
      entriesOf S (evidence A event.pid horizon (event :: past)) := by
  have hold := hs.windows event.pid
  by_cases hnil : evidence A event.pid horizon past = []
  · -- There is no older evidence, whether the process is the same or not.
    have hempty : (((s.replaced event).windows.lookup event.pid).getD []).filter
        (fun e => horizon ≤ e.timestampMs) = [] := by
      unfold BehaviorScorer.replaced
      split
      · rw [AList.lookup_erase]
        rfl
      · rw [hold, hnil]
        rfl
    rw [hempty, List.nil_append]
    by_cases hsame : ∃ e, past.find? (fun e => e.pid = event.pid) = some e ∧
        identityOf e = identityOf event
    · obtain ⟨e, hfind, hid⟩ := hsame
      rw [evidence_cons_same hfind hid, hnil, List.append_nil]
    · rw [evidence_cons_other fun e hfind hid => hsame ⟨e, hfind, hid⟩]
  · obtain ⟨e, hfind⟩ := find_of_evidence hnil
    have hknown := hs.identities event.pid hnil
    rw [hfind, Option.map_some] at hknown
    unfold BehaviorScorer.replaced
    rw [hknown, Option.any_some]
    by_cases hid : identityOf e = identityOf event
    · rw [if_neg (by simp [hid]), hold, evidence_cons_same hfind hid, entriesOf_append]
    · rw [if_pos (by simp [hid])]
      have hother : ∀ e', past.find? (fun e => e.pid = event.pid) = some e' →
          identityOf e' ≠ identityOf event := by
        intro e' hfind'
        rw [hfind] at hfind'
        obtain rfl := Option.some.inj hfind'
        exact hid
      rw [AList.lookup_erase, evidence_cons_other hother]
      rfl

theorem replaced_lookup_ne {pid : Nat} (h : pid ≠ event.pid) :
    (s.replaced event).windows.lookup pid = s.windows.lookup pid := by
  unfold BehaviorScorer.replaced
  split
  · exact AList.lookup_erase_ne h
  · rfl

theorem replaced_identities : (s.replaced event).identities = s.identities := by
  unfold BehaviorScorer.replaced
  split <;> rfl

theorem replaced_incompleteUntil : (s.replaced event).incompleteUntil = s.incompleteUntil := by
  unfold BehaviorScorer.replaced
  split <;> rfl

theorem Knows.entered (hs : Knows S A s past horizon) (h : event.timestampMs - windowMs S ≤ horizon) :
    Knows S A ((s.replaced event).entered S event (A event)) (event :: past)
      horizon where
  windows := by
    intro pid
    unfold BehaviorScorer.entered
    by_cases hpid : pid = event.pid
    · subst hpid
      rw [AList.lookup_insert, Option.getD_some, BehaviorScorer.windowWith, filter_dropWhile,
        List.filter_append, filter_newest]
      · exact hs.replaced_filter
      · intro e he
        rw [decide_eq_true_eq] at he
        rw [decide_eq_false_iff_not]
        omega
    · rw [AList.lookup_insert_ne hpid, replaced_lookup_ne hpid, evidence_cons_ne (Ne.symm hpid)]
      exact hs.windows pid
  identities := by
    intro pid hsome
    unfold BehaviorScorer.entered
    by_cases hpid : pid = event.pid
    · subst hpid
      rw [AList.lookup_insert, List.find?_cons, decide_eq_true rfl]
      rfl
    · rw [evidence_cons_ne (Ne.symm hpid)] at hsome
      rw [AList.lookup_insert_ne hpid, replaced_identities, List.find?_cons,
        decide_eq_false (Ne.symm hpid)]
      exact hs.identities pid hsome

end Knows

/-! ## Losses -/

/-- No entry of a window is later than a time. -/
def Within (last : Nat) (s : BehaviorScorer) : Prop :=
  ∀ pid, ∀ e ∈ (s.windows.lookup pid).getD [], e.timestampMs ≤ last

section Within

variable {S : Setup} {A : FileEvent → Option String} {s : BehaviorScorer} {event : FileEvent} {last now : Nat}

theorem Within.mono {later : Nat} (h : Within last s) (hle : last ≤ later) : Within later s :=
  fun pid e he => (h pid e he).trans hle

theorem Within.retained (h : Within last s) : Within last (s.retained S now) := by
  intro pid e he
  rw [retained_lookup] at he
  rcases hold : s.windows.lookup pid with _ | window
  · rw [hold] at he
    cases he
  · rw [hold, Option.bind_some] at he
    refine h pid e ?_
    rw [hold, Option.getD_some]
    unfold unexpired at he
    split at he
    · cases he
    · exact List.mem_of_mem_filter he

theorem Within.erase {pid : Nat} (h : Within last s) {windows : Map Nat (List WindowEntry)}
    (hwindows : windows = s.windows.erase pid) {s' : BehaviorScorer} (hs' : s'.windows = windows) :
    Within last s' := by
  intro other e he
  rw [hs', hwindows] at he
  by_cases hpid : other = pid
  · rw [hpid, AList.lookup_erase] at he
    cases he
  · rw [AList.lookup_erase_ne hpid] at he
    exact h other e he

theorem Within.evictGroup (h : Within last s) : Within last (s.evictGroup S event) := by
  unfold BehaviorScorer.evictGroup
  split
  · rcases s.oldestGroup with _ | pid
    · exact h
    · exact h.erase rfl rfl
  · exact h

theorem Within.popOldest (h : Within last s) : Within last s.popOldest := by
  unfold BehaviorScorer.popOldest
  rcases s.oldestEvent with _ | pid
  · exact h
  · intro other e he
    by_cases hpid : other = pid
    · rw [Option.elim_some, hpid, AList.lookup_insert] at he
      exact h pid e (List.mem_of_mem_tail he)
    · rw [Option.elim_some, AList.lookup_insert_ne hpid] at he
      exact h other e he

theorem Within.evictEvents (h : Within last s) : Within last (s.evictEvents S now) := by
  unfold BehaviorScorer.evictEvents
  split
  · have hpops : ∀ n, Within last (BehaviorScorer.popOldest^[n] s) := fun n =>
      Function.Iterate.rec _ h (fun _ hs' => Within.popOldest hs') n
    exact hpops _
  · exact h

theorem Within.prepared (h : Within last s) : Within last (s.prepared S event) :=
  h.retained.evictGroup.evictEvents

theorem Within.replaced (h : Within last s) : Within last (s.replaced event) := by
  unfold BehaviorScorer.replaced
  split
  · exact h.erase rfl rfl
  · exact h

theorem Within.entered {approved : Option String} (h : Within event.timestampMs s) :
    Within event.timestampMs (s.entered S event approved) := by
  intro pid e he
  unfold BehaviorScorer.entered at he
  by_cases hpid : pid = event.pid
  · rw [hpid, AList.lookup_insert] at he
    have hmem := (List.dropWhile_sublist _).subset he
    rcases List.mem_append.1 hmem with hold | hnew
    · exact h event.pid e hold
    · split at hnew
      · rw [List.mem_singleton.1 hnew]
        exact le_rfl
      · cases hnew
  · rw [AList.lookup_insert_ne hpid] at he
    exact h pid e he

/-- Of the time after all that happened nothing is known, and nothing is there. -/
theorem Knows.of_later {past : List FileEvent} {horizon : Nat} (hs : Within last s)
    (hpast : ∀ e ∈ past, e.timestampMs ≤ last) (h : last < horizon) : Knows S A s past horizon := by
  have hnone : ∀ pid, evidence A pid horizon past = [] := by
    intro pid
    unfold evidence
    rw [List.filter_eq_nil_iff]
    intro e he
    have hmem : e ∈ past := List.mem_of_mem_filter ((List.takeWhile_sublist _).subset he)
    have hle := hpast e hmem
    have hno : ¬ horizon ≤ e.timestampMs := by omega
    simp [hno]
  refine ⟨fun pid => ?_, fun pid hsome => absurd (hnone pid) hsome⟩
  rw [hnone pid, List.filter_eq_nil_iff.2]
  · rfl
  · intro e he
    have hle := hs pid e he
    rw [decide_eq_true_eq]
    omega

end Within

/-- The scorer has the whole evidence whenever it does not report a loss. -/
structure Reflects (S : Setup) (A : FileEvent → Option String) (s : BehaviorScorer) (past : List FileEvent) : Prop where
  knows : ∀ now, lastTime past ≤ now → now ≤ u64Max → s.lacking now = false →
    Knows S A s past (now - windowMs S)
  within : Within (lastTime past) s
  ordered : ∀ e ∈ past, e.timestampMs ≤ lastTime past

section Reflects

variable {S : Setup} {A : FileEvent → Option String} {s : BehaviorScorer} {past : List FileEvent} {event : FileEvent}

theorem Reflects.initial : Reflects S A {} [] where
  knows := fun _ _ _ _ => ⟨fun _ => rfl, fun _ h => absurd rfl h⟩
  within := fun _ _ h => by cases h
  ordered := fun _ h => by cases h

/-- Past the end of what was lost, everything so far has expired. -/
theorem lt_of_complete {now until_ : Nat} (hnow : now ≤ u64Max)
    (h : until_ = saturatingAdd event.timestampMs (windowMs S)) (hlate : ¬ now ≤ until_) :
    event.timestampMs < now - windowMs S := by
  unfold saturatingAdd Vault.u64Max at h
  unfold u64Max at hnow
  omega

theorem alerted_windows {approved : Option String} {window : List WindowEntry} :
    (s.alerted S event approved window).2.windows = s.windows ∧
    (s.alerted S event approved window).2.identities = s.identities ∧
    (s.alerted S event approved window).2.incompleteUntil = s.incompleteUntil := by
  unfold BehaviorScorer.alerted
  dsimp only
  split
  · exact ⟨rfl, rfl, rfl⟩
  · exact ⟨rfl, rfl, rfl⟩

/-- The state after an event that is kept, alerts apart. -/
def settled (S : Setup) (A : FileEvent → Option String) (s : BehaviorScorer) (event : FileEvent) : BehaviorScorer :=
  ((s.prepared S event).replaced event).entered S event (A event)

theorem settled_incompleteUntil :
    (settled S A s event).incompleteUntil = (s.prepared S event).incompleteUntil :=
  replaced_incompleteUntil

theorem evaluateWithApproval_eq (hshort : tooLong S event = false) :
    s.evaluateWithApproval S event (A event) =
      (settled S A s event).alerted S event (A event)
        (((s.prepared S event).replaced event).windowWith S event (A event)) := by
  unfold BehaviorScorer.evaluateWithApproval
  dsimp only
  rw [hshort]
  rfl

theorem Reflects.settled (h : Reflects S A s past) (hnow : lastTime past ≤ event.timestampMs) :
    Reflects S A (settled S A s event) (event :: past) where
  knows := by
    intro now hle hmax hcomplete
    have hle' : event.timestampMs ≤ now := hle
    by_cases hroom : Roomy S (s.retained S event.timestampMs) event.pid
    · -- Nothing is lost in this step.
      have hbefore : s.lacking now = false := by
        unfold BehaviorScorer.lacking at hcomplete ⊢
        rwa [settled_incompleteUntil, prepared_incompleteUntil hroom] at hcomplete
      have hknows := h.knows now (hnow.trans hle') hmax hbefore
      unfold Detect.settled
      rw [prepared_of_roomy hroom]
      exact (hknows.retained (by omega)).entered (by omega)
    · -- What is lost has expired when the scorer no longer reports it.
      have hlate : event.timestampMs < now - windowMs S := by
        unfold BehaviorScorer.lacking at hcomplete
        rw [settled_incompleteUntil, incomplete_of_not_roomy hroom, Option.any_some,
          decide_eq_false_iff_not] at hcomplete
        exact lt_of_complete hmax rfl hcomplete
      refine Knows.of_later (h.within.mono hnow).prepared.replaced.entered ?_ hlate
      intro e he
      rcases List.mem_cons.1 he with rfl | he
      · exact le_rfl
      · exact (h.ordered e he).trans hnow
  within := (h.within.mono hnow).prepared.replaced.entered
  ordered := by
    intro e he
    rcases List.mem_cons.1 he with rfl | he
    · exact le_rfl
    · exact (h.ordered e he).trans hnow

/-- An evaluation of an event that is kept leaves the scorer with the evidence. -/
theorem Reflects.step (h : Reflects S A s past) (hnow : lastTime past ≤ event.timestampMs)
    (hshort : tooLong S event = false) :
    Reflects S A (s.evaluateWithApproval S event (A event)).2
      (event :: past) := by
  have hsettled := h.settled hnow
  rw [evaluateWithApproval_eq hshort]
  obtain ⟨hwindows, hidentities, huntil⟩ := @alerted_windows S (Detect.settled S A s event) event
    (A event) (((s.prepared S event).replaced event).windowWith S event
      (A event))
  refine ⟨fun now hle hmax hcomplete => ?_, fun pid e he => ?_, hsettled.ordered⟩
  · unfold BehaviorScorer.lacking at hcomplete
    rw [huntil] at hcomplete
    have hknows := hsettled.knows now hle hmax hcomplete
    refine ⟨fun pid => ?_, fun pid hsome => ?_⟩
    · rw [hwindows]
      exact hknows.windows pid
    · rw [hidentities]
      exact hknows.identities pid hsome
  · rw [hwindows] at he
    exact hsettled.within pid e he

/-- The whole window of the process of an event. -/
def wholeWindow (S : Setup) (A : FileEvent → Option String) (event : FileEvent) (past : List FileEvent) : List WindowEntry :=
  entriesOf S (evidence A event.pid (event.timestampMs - windowMs S) (event :: past))

/-- Without a loss the event finds itself in the whole window. -/
theorem Reflects.windowWith (h : Reflects S A s past) (hnow : lastTime past ≤ event.timestampMs)
    (hmax : event.timestampMs ≤ u64Max)
    (hcomplete : (s.prepared S event).lacking event.timestampMs = false) :
    ((s.prepared S event).replaced event).windowWith S event (A event) =
      wholeWindow S A event past := by
  have hroom : Roomy S (s.retained S event.timestampMs) event.pid := by
    by_contra hfull
    unfold BehaviorScorer.lacking at hcomplete
    rw [incomplete_of_not_roomy hfull, Option.any_some, decide_eq_false_iff_not] at hcomplete
    have := @lt_of_complete S event _ _ hmax rfl hcomplete
    omega
  have hknows := (h.settled hnow).knows event.timestampMs le_rfl hmax (by
    unfold BehaviorScorer.lacking at hcomplete ⊢
    rwa [settled_incompleteUntil])
  have hwindow := hknows.windows event.pid
  unfold Detect.settled BehaviorScorer.entered at hwindow
  rw [AList.lookup_insert, Option.getD_some] at hwindow
  -- Nothing in the window is older than the horizon.
  rw [wholeWindow, ← hwindow, List.filter_eq_self.2]
  intro e he
  have hmem := (List.dropWhile_sublist _).subset he
  rw [decide_eq_true_eq]
  rcases List.mem_append.1 hmem with hold | hnew
  · have hretained : e ∈ ((s.retained S event.timestampMs).windows.lookup event.pid).getD [] := by
      rw [← prepared_of_roomy hroom]
      unfold BehaviorScorer.replaced at hold
      split at hold
      · rw [AList.lookup_erase] at hold
        cases hold
      · exact hold
    rw [retained_lookup] at hretained
    rcases hlookup : s.windows.lookup event.pid with _ | window
    · rw [hlookup] at hretained
      cases hretained
    · rw [hlookup, Option.bind_some] at hretained
      unfold unexpired at hretained
      split at hretained
      · cases hretained
      · exact of_decide_eq_true (List.mem_filter.1 hretained).2
  · split at hnew
    · rw [List.mem_singleton.1 hnew]
      exact Nat.sub_le _ _
    · cases hnew

theorem alerted_evaluation {approved : Option String} {window : List WindowEntry} :
    (s.alerted S event approved window).1.score = windowScore S window ∧
    (s.alerted S event approved window).1.pid = event.pid ∧
    (s.alerted S event approved window).1.eligible =
      (decide (S.config.minChangedFiles ≤ (distinct (window.map (·.path))).length) &&
        !s.lacking event.timestampMs) := by
  unfold BehaviorScorer.alerted
  dsimp only
  split
  · exact ⟨rfl, rfl, rfl⟩
  · exact ⟨rfl, rfl, rfl⟩

/-- The evaluation of an event that is kept. -/
theorem evaluateWithApproval_kept (hshort : tooLong S event = false) :
    (s.evaluateWithApproval S event (A event)).1.score =
      windowScore S (((s.prepared S event).replaced event).windowWith S event
        (A event)) ∧
    (s.evaluateWithApproval S event (A event)).1.eligible =
      (decide (S.config.minChangedFiles ≤ (distinct ((((s.prepared S event).replaced event).windowWith S
        event (A event)).map (·.path))).length) &&
        !(s.prepared S event).lacking event.timestampMs) := by
  rw [evaluateWithApproval_eq hshort]
  obtain ⟨hscore, -, heligible⟩ := @alerted_evaluation S (Detect.settled S A s event) event
    (A event) (((s.prepared S event).replaced event).windowWith S event
      (A event))
  refine ⟨hscore, heligible.trans ?_⟩
  unfold BehaviorScorer.lacking
  rw [settled_incompleteUntil]

/-- An evaluation that reports no loss is one of the whole window. -/
theorem Reflects.evaluation (h : Reflects S A s past) (hnow : lastTime past ≤ event.timestampMs)
    (hmax : event.timestampMs ≤ u64Max)
    (hcomplete : (s.evaluateWithApproval S event
      (A event)).1.evidenceTruncated = false) :
    (s.evaluateWithApproval S event (A event)).1.score =
      windowScore S (wholeWindow S A event past) ∧
    (s.evaluateWithApproval S event (A event)).1.eligible =
      decide (S.config.minChangedFiles ≤
        (distinct ((wholeWindow S A event past).map (·.path))).length) := by
  rw [evaluateWithApproval_truncated, Bool.or_eq_false_iff] at hcomplete
  obtain ⟨hshort, hcomplete⟩ := hcomplete
  obtain ⟨hscore, heligible⟩ := @evaluateWithApproval_kept S A s event hshort
  rw [h.windowWith hnow hmax hcomplete] at hscore heligible
  rw [hcomplete, Bool.not_false, Bool.and_true] at heligible
  exact ⟨hscore, heligible⟩

end Reflects

end Argos.Detect
