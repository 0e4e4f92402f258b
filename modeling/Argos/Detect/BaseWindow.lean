import Argos.Detect.Evidence

/-!
# The base window over whole runs

What the scorer of single processes guarantees along a run: its state stays within its bounds
(`Bounded.step`), an entry that goes for lack of room is reported as long as a window covers it
(`Marked.step`), and an evaluation that may lead to a block is one of the whole window
(`exact_of_short`). The last needs that no event is too long to be kept: such an event is left out of
its window, and only its own evaluation says so.
-/

namespace Argos.Detect

open Argos.Common
open Argos.Lib
open Argos.Vault (saturatingAdd)

/-- The scorer after some events; `A` gives the approval of an event. -/
def BehaviorScorer.run (S : Setup) (A : FileEvent → Option String) (events : List FileEvent) :
    BehaviorScorer :=
  events.foldl (fun s e => (s.evaluateWithApproval S e (A e)).2) {}

/-- What the window of a process loses for lack of room when an event comes: the entries that are
not too old and yet no longer there. -/
def dropped (S : Setup) (s : BehaviorScorer) (event : FileEvent) (pid : Nat) : List WindowEntry :=
  let before := ((s.retained S event.timestampMs).windows.lookup pid).getD []
  before.take (before.length - (((s.prepared S event).windows.lookup pid).getD []).length)

/-- An entry is lost when an event comes: to the bounds, or with the event that is too long. -/
def Loses (S : Setup) (A : FileEvent → Option String) (s : BehaviorScorer) (event : FileEvent)
    (entry : WindowEntry) : Prop :=
  (∃ pid, entry ∈ dropped S s event pid) ∨
    tooLong S event = true ∧ A event = none ∧ entry = entryOf S.config event

/-! ## Bounds -/

/-- The state is within its bounds, and nothing is known of a process without a window. -/
structure Bounded (S : Setup) (s : BehaviorScorer) : Prop where
  groups : s.windows.entries.length ≤ maxGroups S
  events : sumOver List.length s.windows ≤ maxEvents S
  emits : ∀ pid ∈ s.lastEmit, pid ∈ s.windows
  known : ∀ pid ∈ s.identities, pid ∈ s.windows

section Bounds

variable {S : Setup} {A : FileEvent → Option String} {s : BehaviorScorer} {event : FileEvent}
  {now : Nat}

theorem maxGroups_pos : 0 < maxGroups S := by
  unfold maxGroups
  omega

theorem maxEvents_pos : 0 < maxEvents S := by
  unfold maxEvents
  omega

theorem Bounded.initial : Bounded S {} where
  groups := Nat.zero_le _
  events := Nat.zero_le _
  emits := fun _ h => h
  known := fun _ h => h

theorem mem_retain {V : Type} {f : Nat → V → Option V} {m : Map Nat V} {pid : Nat}
    (h : pid ∈ retain f m) : pid ∈ m := by
  obtain ⟨v, hv⟩ := mem_iff_lookup.1 h
  rw [lookup_retain, Option.bind_eq_some_iff] at hv
  obtain ⟨u, hu, -⟩ := hv
  exact mem_iff_lookup.2 ⟨u, hu⟩

theorem Bounded.retained (h : Bounded S s) : Bounded S (s.retained S now) where
  groups := (length_le_of_keys fun _ => mem_retain).trans h.groups
  events := by
    refine le_trans (sumOver_le _ _ fun pid window hwindow => ?_) h.events
    rw [retained_lookup, Option.bind_eq_some_iff] at hwindow
    obtain ⟨old, hold, hleft⟩ := hwindow
    refine ⟨old, hold, ?_⟩
    unfold unexpired at hleft
    split at hleft
    · cases hleft
    · rw [← Option.some.inj hleft]
      exact List.length_filter_le _ _
  emits := by
    intro pid hpid
    obtain ⟨last, hlast⟩ := mem_iff_lookup.1 hpid
    have hlookup : (s.retained S now).lastEmit.lookup pid = (s.lastEmit.lookup pid).bind
        fun last => if pid ∈ (s.retained S now).windows then some last else none :=
      lookup_retain _ _ _
    rw [hlookup, Option.bind_eq_some_iff] at hlast
    obtain ⟨_, _, hif⟩ := hlast
    by_contra hno
    rw [if_neg hno] at hif
    cases hif
  known := by
    intro pid hpid
    obtain ⟨known, hknown⟩ := mem_iff_lookup.1 hpid
    rw [retained_identity] at hknown
    by_contra hno
    rw [if_neg hno] at hknown
    cases hknown

/-- A process that is forgotten is forgotten altogether. -/
theorem Bounded.forget {pid : Nat} (h : Bounded S s) : Bounded S (s.forget pid) where
  groups := le_trans (length_le_of_keys fun _ hk => (AList.mem_erase.1 hk).2) h.groups
  events := by
    refine le_trans (sumOver_le _ _ fun other window hwindow => ?_) h.events
    have hne : other ≠ pid := by
      rintro rfl
      have hnone : (s.forget other).windows.lookup other = none := AList.lookup_erase _ _
      rw [hnone] at hwindow
      cases hwindow
    exact ⟨window, by rwa [← AList.lookup_erase_ne hne], le_rfl⟩
  emits := fun other hother =>
    AList.mem_erase.2 ⟨(AList.mem_erase.1 hother).1, h.emits other (AList.mem_erase.1 hother).2⟩
  known := fun other hother =>
    AList.mem_erase.2 ⟨(AList.mem_erase.1 hother).1, h.known other (AList.mem_erase.1 hother).2⟩

theorem Bounded.incomplete (h : Bounded S s) : Bounded S (s.incomplete S now) :=
  ⟨h.groups, h.events, h.emits, h.known⟩

/-- There is room for the process of the event. -/
theorem Bounded.evictGroup (h : Bounded S s) : Bounded S (s.evictGroup S event) ∧
    (event.pid ∉ (s.evictGroup S event).windows →
      (s.evictGroup S event).windows.entries.length < maxGroups S) := by
  unfold BehaviorScorer.evictGroup
  split
  next hfull =>
    -- The table is not empty, so there is an oldest process to forget.
    obtain ⟨pid, hpid⟩ := exists_leastKey (fun pid (window : List WindowEntry) =>
      toLex ((window.getLast?.map (·.timestampMs)).getD 0, pid)) (maxGroups_pos.trans_le hfull.2)
    have holdest : s.oldestGroup = some pid := hpid
    rw [holdest, Option.elim_some]
    refine ⟨h.forget.incomplete, fun _ => ?_⟩
    have hlength := length_erase_of_mem (leastKey_mem hpid)
    have hgroups := h.groups
    show (s.windows.erase pid).entries.length < maxGroups S
    omega
  next hroom =>
    refine ⟨h, fun hnew => ?_⟩
    by_contra hfull
    exact hroom ⟨hnew, by omega⟩

/-- The process with the oldest event has one. -/
theorem oldestEvent_lookup {pid : Nat} (h : s.oldestEvent = some pid) :
    ∃ entry rest, s.windows.lookup pid = some (entry :: rest) := by
  obtain ⟨window, hwindow⟩ := mem_iff_lookup.1 (leastKey_mem h)
  rw [lookup_retain, Option.bind_eq_some_iff] at hwindow
  obtain ⟨old, hold, hif⟩ := hwindow
  rcases old with _ | ⟨entry, rest⟩
  · cases hif
  · exact ⟨entry, rest, hold⟩

/-- As long as there are events, there is an oldest one. -/
theorem exists_oldestEvent (h : 0 < sumOver List.length s.windows) : ∃ pid, s.oldestEvent = some pid := by
  refine exists_leastKey _ ?_
  by_contra hempty
  -- No window has an event, so the sum is zero.
  have hempties : ∀ pid window, s.windows.lookup pid = some window → window = [] := by
    intro pid window hwindow
    by_contra hsome
    have hmem : pid ∈ retain (fun _ (window : List WindowEntry) =>
        if window = [] then none else some window) s.windows := by
      rw [mem_iff_lookup]
      refine ⟨window, ?_⟩
      rw [lookup_retain, hwindow, Option.bind_some, if_neg hsome]
    have hpos := List.length_pos_of_mem hmem
    rw [AList.keys, List.keys, List.length_map] at hpos
    exact hempty hpos
  have hsum : sumOver List.length s.windows ≤ sumOver (fun _ => 0) s.windows := by
    refine sumOver_le _ _ fun pid window hwindow => ⟨window, hwindow, ?_⟩
    rw [hempties pid window hwindow]
    exact le_rfl
  have hnull : sumOver (fun _ : List WindowEntry => 0) s.windows = 0 := by
    unfold sumOver
    rw [List.map_const', List.sum_replicate, nsmul_zero]
  omega

/-- The oldest event is one event. -/
theorem sumOver_popOldest : sumOver List.length s.popOldest.windows =
    sumOver List.length s.windows - 1 := by
  unfold BehaviorScorer.popOldest
  rcases holdest : s.oldestEvent with _ | pid
  · have hzero : ¬ 0 < sumOver List.length s.windows := by
      intro hpos
      obtain ⟨pid, hpid⟩ := exists_oldestEvent hpos
      rw [holdest] at hpid
      cases hpid
    show sumOver List.length s.windows = _
    omega
  · obtain ⟨entry, rest, hlookup⟩ := oldestEvent_lookup holdest
    rw [Option.elim_some, hlookup, Option.getD_some, List.tail_cons]
    have hsum := sumOver_insert_of_lookup (v := rest) List.length hlookup
    rw [List.length_cons] at hsum
    show sumOver List.length (s.windows.insert pid rest) = _
    omega

theorem popOldest_caches : s.popOldest.lastEmit = s.lastEmit ∧ s.popOldest.identities = s.identities := by
  unfold BehaviorScorer.popOldest
  rcases s.oldestEvent with _ | _
  · exact ⟨rfl, rfl⟩
  · exact ⟨rfl, rfl⟩

theorem mem_popOldest {pid : Nat} : pid ∈ s.popOldest.windows ↔ pid ∈ s.windows := by
  unfold BehaviorScorer.popOldest
  rcases holdest : s.oldestEvent with _ | oldest
  · rfl
  · obtain ⟨entry, rest, hlookup⟩ := oldestEvent_lookup holdest
    rw [Option.elim_some]
    show pid ∈ s.windows.insert oldest _ ↔ _
    rw [AList.mem_insert]
    constructor
    · rintro (rfl | hmem)
      · exact mem_iff_lookup.2 ⟨_, hlookup⟩
      · exact hmem
    · exact Or.inr

theorem Bounded.popOldest (h : Bounded S s) : Bounded S s.popOldest where
  groups := le_trans (length_le_of_keys fun _ hk => mem_popOldest.1 hk) h.groups
  events := by
    have := h.events
    rw [sumOver_popOldest]
    omega
  emits := by
    intro pid hpid
    rw [popOldest_caches.1] at hpid
    exact mem_popOldest.2 (h.emits pid hpid)
  known := by
    intro pid hpid
    rw [popOldest_caches.2] at hpid
    exact mem_popOldest.2 (h.known pid hpid)

/-- Some oldest events go, and nothing else changes. -/
theorem pops (n : Nat) : sumOver List.length (BehaviorScorer.popOldest^[n] s).windows =
      sumOver List.length s.windows - n ∧
    (∀ pid, pid ∈ (BehaviorScorer.popOldest^[n] s).windows ↔ pid ∈ s.windows) ∧
    (Bounded S s → Bounded S (BehaviorScorer.popOldest^[n] s)) := by
  induction n generalizing s with
  | zero => exact ⟨rfl, fun _ => Iff.rfl, id⟩
  | succ n ih =>
    rw [Function.iterate_succ_apply]
    obtain ⟨hsum, hkeys, hbounded⟩ := @ih s.popOldest
    refine ⟨?_, fun pid => (hkeys pid).trans mem_popOldest, fun h => hbounded h.popOldest⟩
    rw [hsum, sumOver_popOldest]
    omega

/-- There is room for the event. -/
theorem Bounded.evictEvents (h : Bounded S s) : Bounded S (s.evictEvents S now) ∧
    sumOver List.length (s.evictEvents S now).windows < maxEvents S ∧
    ∀ pid, pid ∈ (s.evictEvents S now).windows ↔ pid ∈ s.windows := by
  have hpos := @maxEvents_pos S
  unfold BehaviorScorer.evictEvents
  split
  next hfull =>
    obtain ⟨hsum, hkeys, hbounded⟩ := @pops S s (sumOver List.length s.windows + 1 - maxEvents S)
    refine ⟨(hbounded h).incomplete, ?_, hkeys⟩
    show sumOver List.length (BehaviorScorer.popOldest^[_] s).windows < maxEvents S
    rw [hsum]
    omega
  next hroom => exact ⟨h, by omega, fun _ => Iff.rfl⟩

/-- The state in which an event finds the scorer has room for it. -/
theorem Bounded.prepared (h : Bounded S s) : Bounded S (s.prepared S event) ∧
    (event.pid ∉ (s.prepared S event).windows →
      (s.prepared S event).windows.entries.length < maxGroups S) ∧
    sumOver List.length (s.prepared S event).windows < maxEvents S := by
  have hretained : Bounded S (s.retained S event.timestampMs) := h.retained
  obtain ⟨hgroup, hnew⟩ := @Bounded.evictGroup S _ event hretained
  obtain ⟨hbounded, hevents, hkeys⟩ := @Bounded.evictEvents S _ event.timestampMs hgroup
  refine ⟨hbounded, fun hno => ?_, hevents⟩
  have hsame : (s.prepared S event).windows.entries.length ≤
      ((s.retained S event.timestampMs).evictGroup S event).windows.entries.length :=
    length_le_of_keys fun pid hpid => (hkeys pid).1 hpid
  have hno' : event.pid ∉ ((s.retained S event.timestampMs).evictGroup S event).windows :=
    fun hmem => hno ((hkeys event.pid).2 hmem)
  exact lt_of_le_of_lt hsame (hnew hno')

theorem mem_replaced {pid : Nat} (h : pid ∈ (s.replaced event).windows) : pid ∈ s.windows := by
  unfold BehaviorScorer.replaced at h
  split at h
  · exact (AList.mem_erase.1 h).2
  · exact h

theorem replaced_erase : sumOver List.length ((s.replaced event).windows.erase event.pid) =
      sumOver List.length (s.windows.erase event.pid) ∧
    (((s.replaced event).windows.lookup event.pid).getD []).length ≤
      ((s.windows.lookup event.pid).getD []).length := by
  unfold BehaviorScorer.replaced
  split
  · refine ⟨?_, ?_⟩
    · have hsum := sumOver_length_eq (s.windows.erase event.pid) event.pid
      rw [AList.lookup_erase, Option.getD_none, List.length_nil, Nat.zero_add] at hsum
      exact hsum.symm
    · rw [AList.lookup_erase]
      exact Nat.zero_le _
  · exact ⟨rfl, le_rfl⟩

/-- An event that enters its window stays within the bounds. -/
theorem Bounded.settled (h : Bounded S s) : Bounded S (settled S A s event) := by
  obtain ⟨hprepared, hgroups, hevents⟩ := @Bounded.prepared S s event h
  refine ⟨?_, ?_, ?_, ?_⟩
  · show (AList.insert _ _ _).entries.length ≤ _
    rw [length_insert]
    have hkeys : (((s.prepared S event).replaced event).windows.erase event.pid).entries.length ≤
        ((s.prepared S event).windows.erase event.pid).entries.length := by
      refine length_le_of_keys fun pid hpid => ?_
      have hmem := AList.mem_erase.1 hpid
      exact AList.mem_erase.2 ⟨hmem.1, mem_replaced hmem.2⟩
    by_cases hold : event.pid ∈ (s.prepared S event).windows
    · have hlength := length_erase_of_mem hold
      have := hprepared.groups
      omega
    · have hlength : ((s.prepared S event).windows.erase event.pid).entries.length ≤
          (s.prepared S event).windows.entries.length :=
        length_le_of_keys fun pid hpid => (AList.mem_erase.1 hpid).2
      have := hgroups hold
      omega
  · show sumOver List.length (AList.insert _ _ _) ≤ _
    rw [sumOver_insert]
    obtain ⟨hrest, hold⟩ := @replaced_erase (s.prepared S event) event
    have hsum := sumOver_length_eq (s.prepared S event).windows event.pid
    -- The window grows by one entry at most.
    have hwindow : (((s.prepared S event).replaced event).windowWith S event (A event)).length ≤
        ((((s.prepared S event).replaced event).windows.lookup event.pid).getD []).length + 1 := by
      refine (List.dropWhile_sublist _).length_le.trans ?_
      rw [List.length_append]
      refine Nat.add_le_add_left ?_ _
      split
      · exact le_rfl
      · exact Nat.zero_le _
    omega
  · intro pid hpid
    refine (AList.mem_insert _).2 ?_
    by_cases heq : pid = event.pid
    · exact Or.inl heq
    · right
      have hold : pid ∈ (s.prepared S event).lastEmit ∧
          (((s.prepared S event).replaced event).windows.lookup pid =
            (s.prepared S event).windows.lookup pid) := by
        refine ⟨?_, replaced_lookup_ne heq⟩
        have hmem : pid ∈ ((s.prepared S event).replaced event).lastEmit := hpid
        unfold BehaviorScorer.replaced at hmem
        split at hmem
        · exact (AList.mem_erase.1 hmem).2
        · exact hmem
      obtain ⟨window, hwindow⟩ := mem_iff_lookup.1 (hprepared.emits pid hold.1)
      exact mem_iff_lookup.2 ⟨window, hold.2.trans hwindow⟩
  · intro pid hpid
    refine (AList.mem_insert _).2 ?_
    by_cases heq : pid = event.pid
    · exact Or.inl heq
    · right
      have hmem : pid ∈ ((s.prepared S event).replaced event).identities.insert event.pid _ := hpid
      rw [AList.mem_insert, replaced_identities] at hmem
      obtain ⟨window, hwindow⟩ := mem_iff_lookup.1 (hprepared.known pid (hmem.resolve_left heq))
      exact mem_iff_lookup.2 ⟨window, (replaced_lookup_ne heq).trans hwindow⟩

theorem Bounded.alerted {approved : Option String} {window : List WindowEntry} (h : Bounded S s)
    (hpid : event.pid ∈ s.windows) : Bounded S (s.alerted S event approved window).2 := by
  unfold BehaviorScorer.alerted
  dsimp only
  split
  · exact h
  · refine ⟨h.groups, h.events, fun pid hmem => ?_, h.known⟩
    rcases (AList.mem_insert _).1 hmem with rfl | hold
    · exact hpid
    · exact h.emits pid hold

theorem Bounded.step (h : Bounded S s) : Bounded S (s.evaluateWithApproval S event (A event)).2 := by
  rcases hshort : tooLong S event with _ | _
  · rw [evaluateWithApproval_eq hshort]
    exact h.settled.alerted ((AList.mem_insert _).2 (Or.inl rfl))
  · unfold BehaviorScorer.evaluateWithApproval
    dsimp only
    rw [hshort]
    exact (@Bounded.prepared S s event h).1

end Bounds

/-! ## Losses -/

section Losses

variable {S : Setup} {A : FileEvent → Option String} {s : BehaviorScorer} {event : FileEvent}

theorem suffix_evictGroup (pid : Nat) : ((s.evictGroup S event).windows.lookup pid).getD [] <:+
    (s.windows.lookup pid).getD [] := by
  unfold BehaviorScorer.evictGroup
  split
  · rcases s.oldestGroup with _ | oldest
    · exact List.suffix_refl _
    · show ((s.windows.erase oldest).lookup pid).getD [] <:+ _
      by_cases heq : pid = oldest
      · rw [heq, AList.lookup_erase]
        exact List.nil_suffix
      · have hsame := @AList.lookup_erase_ne _ _ _ pid oldest s.windows heq
        exact hsame ▸ List.suffix_refl _
  · exact List.suffix_refl _

theorem suffix_popOldest (pid : Nat) : (s.popOldest.windows.lookup pid).getD [] <:+
    (s.windows.lookup pid).getD [] := by
  unfold BehaviorScorer.popOldest
  rcases s.oldestEvent with _ | oldest
  · exact List.suffix_refl _
  · show ((s.windows.insert oldest _).lookup pid).getD [] <:+ _
    by_cases heq : pid = oldest
    · rw [heq, AList.lookup_insert, Option.getD_some]
      exact List.tail_suffix _
    · have hsame := fun rest => @AList.lookup_insert_ne _ _ _ pid oldest rest s.windows heq
      exact hsame _ ▸ List.suffix_refl _

theorem suffix_pops (n pid : Nat) : ((BehaviorScorer.popOldest^[n] s).windows.lookup pid).getD [] <:+
    (s.windows.lookup pid).getD [] := by
  induction n generalizing s with
  | zero => exact List.suffix_refl _
  | succ n ih =>
    rw [Function.iterate_succ_apply]
    exact ih.trans (suffix_popOldest pid)

/-- What the bounds leave of a window is its end. -/
theorem suffix_prepared (pid : Nat) : ((s.prepared S event).windows.lookup pid).getD [] <:+
    ((s.retained S event.timestampMs).windows.lookup pid).getD [] := by
  refine List.IsSuffix.trans ?_ (@suffix_evictGroup S _ event pid)
  unfold BehaviorScorer.prepared BehaviorScorer.evictEvents
  split
  · exact suffix_pops _ pid
  · exact List.suffix_refl _

/-- A window is what it loses and what is left of it. -/
theorem dropped_append (pid : Nat) : dropped S s event pid ++
      ((s.prepared S event).windows.lookup pid).getD [] =
    ((s.retained S event.timestampMs).windows.lookup pid).getD [] :=
  List.suffix_iff_eq_append.1 (suffix_prepared pid)

/-- Without a lack of room nothing is lost. -/
theorem dropped_of_roomy (h : Roomy S (s.retained S event.timestampMs) event.pid) (pid : Nat) :
    dropped S s event pid = [] := by
  unfold dropped
  dsimp only
  rw [prepared_of_roomy h, Nat.sub_self, List.take_zero]

/-- What was lost at a time is still reported. -/
def Marked (S : Setup) (lost : Nat) (s : BehaviorScorer) : Prop :=
  ∃ last, s.incompleteUntil = some last ∧ saturatingAdd lost (windowMs S) ≤ last

theorem evaluateWithApproval_incompleteUntil :
    (s.evaluateWithApproval S event (A event)).2.incompleteUntil =
      (s.prepared S event).incompleteUntil := by
  rcases hshort : tooLong S event with _ | _
  · rw [evaluateWithApproval_eq hshort, alerted_windows.2.2, settled_incompleteUntil]
  · unfold BehaviorScorer.evaluateWithApproval
    dsimp only
    rw [hshort]
    rfl

theorem saturatingAdd_le {a b c : Nat} (h : a ≤ b) : saturatingAdd a c ≤ saturatingAdd b c := by
  unfold saturatingAdd
  omega

theorem Marked.prepared {lost : Nat} (h : Marked S lost s) (hle : lost ≤ event.timestampMs) :
    Marked S lost (s.prepared S event) := by
  by_cases hroom : Roomy S (s.retained S event.timestampMs) event.pid
  · obtain ⟨last, hlast, hbound⟩ := h
    exact ⟨last, (prepared_incompleteUntil hroom).trans hlast, hbound⟩
  · exact ⟨_, incomplete_of_not_roomy hroom, saturatingAdd_le hle⟩

theorem marked_of_dropped {pid : Nat} {entry : WindowEntry} (h : entry ∈ dropped S s event pid) :
    Marked S event.timestampMs (s.prepared S event) := by
  by_cases hroom : Roomy S (s.retained S event.timestampMs) event.pid
  · rw [dropped_of_roomy hroom] at h
    cases h
  · exact ⟨_, incomplete_of_not_roomy hroom, le_rfl⟩

/-- A marked loss that a window covers makes its evaluation say so. -/
theorem Marked.evaluation {lost : Nat} (h : Marked S lost (s.prepared S event))
    (hmax : event.timestampMs ≤ u64Max) (hcovers : event.timestampMs - windowMs S ≤ lost) :
    (s.evaluateWithApproval S event (A event)).1.eligible = false ∧
    (s.evaluateWithApproval S event (A event)).1.evidenceTruncated = true := by
  obtain ⟨last, hlast, hbound⟩ := h
  have hlacking : (s.prepared S event).lacking event.timestampMs = true := by
    unfold BehaviorScorer.lacking
    rw [hlast, Option.any_some, decide_eq_true_eq]
    unfold saturatingAdd Vault.u64Max at hbound
    unfold u64Max at hmax
    omega
  constructor
  · rcases hshort : tooLong S event with _ | _
    · rw [(evaluateWithApproval_kept hshort).2, hlacking, Bool.not_true, Bool.and_false]
    · unfold BehaviorScorer.evaluateWithApproval
      dsimp only
      rw [hshort]
      rfl
  · rw [evaluateWithApproval_truncated, hlacking, Bool.or_true]

/-- A later event leaves a loss marked. -/
theorem Marked.step {lost : Nat} (h : Marked S lost s) (hle : lost ≤ event.timestampMs) :
    Marked S lost (s.evaluateWithApproval S event (A event)).2 := by
  obtain ⟨last, hlast, hbound⟩ := @Marked.prepared S s event lost h hle
  exact ⟨last, evaluateWithApproval_incompleteUntil.trans hlast, hbound⟩

end Losses

/-! ## Runs -/

section Runs

variable {S : Setup} {A : FileEvent → Option String}

/-- The times of the events do not decrease, and fit into 64 bits. -/
structure Timely (events : List FileEvent) : Prop where
  sorted : events.Pairwise fun a b => a.timestampMs ≤ b.timestampMs
  fits : ∀ e ∈ events, e.timestampMs ≤ u64Max

theorem Timely.before {a b : List FileEvent} (h : Timely (a ++ b)) : Timely a :=
  ⟨(List.pairwise_append.1 h.sorted).1, fun e he => h.fits e (List.mem_append_left _ he)⟩

theorem Timely.lastTime_le {before rest : List FileEvent} {event : FileEvent}
    (h : Timely (before ++ event :: rest)) : lastTime before.reverse ≤ event.timestampMs := by
  unfold lastTime
  rw [List.head?_reverse]
  rcases hlast : before.getLast? with _ | e
  · exact Nat.zero_le _
  · exact (List.pairwise_append.1 h.sorted).2.2 e (List.mem_of_getLast? hlast) event List.mem_cons_self

theorem BehaviorScorer.run_concat (events : List FileEvent) (event : FileEvent) :
    BehaviorScorer.run S A (events ++ [event]) =
      ((BehaviorScorer.run S A events).evaluateWithApproval S event (A event)).2 := by
  unfold BehaviorScorer.run
  rw [List.foldl_append]
  rfl

theorem Bounded.run (events : List FileEvent) : Bounded S (BehaviorScorer.run S A events) := by
  induction events using List.reverseRecOn with
  | nil => exact Bounded.initial
  | append_singleton events event ih =>
    rw [BehaviorScorer.run_concat]
    exact ih.step

theorem Reflects.run {events : List FileEvent} (htimely : Timely events)
    (hshort : ∀ e ∈ events, tooLong S e = false) :
    Reflects S A (BehaviorScorer.run S A events) events.reverse := by
  induction events using List.reverseRecOn with
  | nil => exact Reflects.initial
  | append_singleton events event ih =>
    rw [BehaviorScorer.run_concat, List.reverse_append]
    have hbefore := ih htimely.before fun e he => hshort e (List.mem_append_left _ he)
    exact hbefore.step htimely.lastTime_le (hshort event (by simp))

/-- A loss stays marked as long as the run goes on. -/
theorem Marked.run {lost : Nat} {earlier later : List FileEvent}
    (h : Marked S lost (BehaviorScorer.run S A earlier))
    (hle : ∀ e ∈ later, lost ≤ e.timestampMs) :
    Marked S lost (BehaviorScorer.run S A (earlier ++ later)) := by
  induction later using List.reverseRecOn with
  | nil => rwa [List.append_nil]
  | append_singleton later event ih =>
    rw [← List.append_assoc, BehaviorScorer.run_concat]
    exact (ih fun e he => hle e (List.mem_append_left _ he)).step (hle event (by simp))

/-- What an evaluation after some events promises. An evaluation that may lead to a block is one of
the whole window; one whose window covers a loss does not lead to a block and says so; and the state
stays within its bounds. -/
structure ExactAt (S : Setup) (A : FileEvent → Option String) (before : List FileEvent)
    (event : FileEvent) : Prop where
  whole : ((BehaviorScorer.run S A before).evaluateWithApproval S event (A event)).1.eligible = true →
    (BehaviorScorer.run S A (before ++ [event])).windows.lookup event.pid =
      some (wholeWindow S A event before.reverse) ∧
    ((BehaviorScorer.run S A before).evaluateWithApproval S event (A event)).1.score =
      windowScore S (wholeWindow S A event before.reverse) ∧
    S.config.minChangedFiles ≤
      (distinct ((wholeWindow S A event before.reverse).map (·.path))).length
  flagged : ∀ earlier e later entry, before ++ [event] = earlier ++ e :: later →
    Loses S A (BehaviorScorer.run S A earlier) e entry →
    event.timestampMs - windowMs S ≤ entry.timestampMs →
    ((BehaviorScorer.run S A before).evaluateWithApproval S event (A event)).1.eligible = false ∧
    ((BehaviorScorer.run S A before).evaluateWithApproval S event (A event)).1.evidenceTruncated = true
  groups : (BehaviorScorer.run S A (before ++ [event])).windows.entries.length ≤ maxGroups S
  events : sumOver List.length (BehaviorScorer.run S A (before ++ [event])).windows ≤ maxEvents S

theorem whole_of_eligible {s : BehaviorScorer} {past : List FileEvent} {event : FileEvent}
    (h : Reflects S A s past) (hnow : lastTime past ≤ event.timestampMs)
    (hmax : event.timestampMs ≤ u64Max) (hshort : tooLong S event = false)
    (heligible : (s.evaluateWithApproval S event (A event)).1.eligible = true) :
    (s.evaluateWithApproval S event (A event)).2.windows.lookup event.pid =
      some (wholeWindow S A event past) ∧
    (s.evaluateWithApproval S event (A event)).1.score = windowScore S (wholeWindow S A event past) ∧
    S.config.minChangedFiles ≤ (distinct ((wholeWindow S A event past).map (·.path))).length := by
  obtain ⟨hscore, hfiles⟩ := @evaluateWithApproval_kept S A s event hshort
  rw [heligible] at hfiles
  obtain ⟨hfiles, hcomplete⟩ := (Bool.and_eq_true_iff.1 hfiles.symm)
  have hwindow := h.windowWith hnow hmax (by simpa using hcomplete)
  rw [hwindow] at hscore hfiles
  refine ⟨?_, hscore, of_decide_eq_true hfiles⟩
  rw [evaluateWithApproval_eq hshort, alerted_windows.1, ← hwindow]
  exact AList.lookup_insert _

/-- What is lost when an event comes is not later than the event. -/
theorem loses_le {s : BehaviorScorer} {event : FileEvent} {entry : WindowEntry}
    (hs : Within event.timestampMs s) (h : Loses S A s event entry) :
    entry.timestampMs ≤ event.timestampMs := by
  rcases h with ⟨pid, hpid⟩ | ⟨-, -, rfl⟩
  · exact (hs.retained (S := S)) pid entry (List.mem_of_mem_take hpid)
  · exact le_rfl

/-- What was lost at an event of a run is still marked when its last event comes. -/
theorem marked_of_split {before earlier later : List FileEvent} {event e : FileEvent} {pid : Nat}
    {entry : WindowEntry} (htimely : Timely (earlier ++ e :: later))
    (hsplit : before ++ [event] = earlier ++ e :: later)
    (hdropped : entry ∈ dropped S (BehaviorScorer.run S A earlier) e pid) :
    Marked S e.timestampMs ((BehaviorScorer.run S A before).prepared S event) := by
  have hmarked := marked_of_dropped hdropped
  have hlate := (List.pairwise_cons.1 (List.pairwise_append.1 htimely.sorted).2.1).1
  -- The loss is at the last event itself or at an earlier one.
  rcases later.eq_nil_or_concat with rfl | ⟨later, last, rfl⟩
  · obtain ⟨rfl, hlast⟩ := List.append_inj' hsplit rfl
    obtain rfl := List.singleton_inj.1 hlast
    exact hmarked
  · rw [List.concat_eq_append, ← List.cons_append, ← List.append_assoc] at hsplit
    obtain ⟨rfl, hlast⟩ := List.append_inj' hsplit rfl
    obtain rfl := List.singleton_inj.1 hlast
    rw [List.concat_eq_append] at hlate
    have hstep : Marked S e.timestampMs (BehaviorScorer.run S A (earlier ++ [e])) := by
      obtain ⟨last, hlast, hbound⟩ := hmarked
      rw [BehaviorScorer.run_concat]
      exact ⟨last, evaluateWithApproval_incompleteUntil.trans hlast, hbound⟩
    have hrun := hstep.run fun e' he' => hlate e' (List.mem_append_left _ he')
    rw [List.append_assoc, List.singleton_append] at hrun
    exact hrun.prepared (hlate event (by simp))

/-- In a run without events that are too long, every evaluation keeps the promise. -/
theorem exactAt_of_short {before : List FileEvent} {event : FileEvent}
    (htimely : Timely (before ++ [event])) (hshort : ∀ e ∈ before ++ [event], tooLong S e = false) :
    ExactAt S A before event := by
  have hkept : tooLong S event = false := hshort event (by simp)
  have hmax : event.timestampMs ≤ u64Max := htimely.fits event (by simp)
  have hbefore : Reflects S A (BehaviorScorer.run S A before) before.reverse :=
    Reflects.run htimely.before fun e he => hshort e (List.mem_append_left _ he)
  refine ⟨fun heligible => ?_, ?_, (Bounded.run _).groups, (Bounded.run _).events⟩
  · rw [BehaviorScorer.run_concat]
    exact whole_of_eligible hbefore htimely.lastTime_le hmax hkept heligible
  · intro earlier e later entry hsplit hloses hcovers
    have hsplitTimely : Timely (earlier ++ e :: later) := hsplit ▸ htimely
    have hearlier : Reflects S A (BehaviorScorer.run S A earlier) earlier.reverse := by
      refine Reflects.run hsplitTimely.before fun e' he' => hshort e' ?_
      rw [hsplit]
      exact List.mem_append_left _ he'
    have hentry := loses_le (hearlier.within.mono hsplitTimely.lastTime_le) hloses
    obtain ⟨pid, hpid⟩ : ∃ pid, entry ∈ dropped S (BehaviorScorer.run S A earlier) e pid := by
      rcases hloses with hdropped | ⟨hlong, -⟩
      · exact hdropped
      · rw [hshort e (by rw [hsplit]; simp)] at hlong
        cases hlong
    exact (marked_of_split hsplitTimely hsplit hpid).evaluation hmax (hcovers.trans hentry)

end Runs

/-! ## An event that is too long -/

/-- A setup that watches single processes, with short paths. -/
def shortPaths : Setup where
  config := { DetectionConfig.default with
    minChangedFiles := 1
    multiWindow := { MultiWindowConfig.default with maxPathBytes := 64 } }
  sensor := .fanotify
  debug := id

/-- A change of a file by a process. -/
def changeAt (timestampMs : Nat) (path : String) : FileEvent where
  timestampMs := timestampMs
  pid := 7
  path := path
  action := .modify
  size := none
  entropy := some (.finite 8)
  process := none
  content := none

/-- A change of a file whose path is too long. -/
def longChange : FileEvent :=
  changeAt 1000 "/srv/0123456789012345678901234567890123456789012345678901234567890123456789"

theorem exactAt_second_change :
    ExactAt shortPaths (fun _ => none) [changeAt 1000 "/srv/a"] (changeAt 2000 "/srv/b") ∧
    ((BehaviorScorer.run shortPaths (fun _ => none) [changeAt 1000 "/srv/a"]).evaluateWithApproval
      shortPaths (changeAt 2000 "/srv/b") none).1.eligible = true :=
  ⟨exactAt_of_short ⟨by decide, by decide⟩ (by decide +kernel), by decide +kernel⟩

/-- The loss of an event that is too long is forgotten at once: the next evaluation may lead to a
block. -/
theorem not_exactAt_longChange : Timely [longChange, changeAt 2000 "/srv/b"] ∧
    ¬ ExactAt shortPaths (fun _ => none) [longChange] (changeAt 2000 "/srv/b") := by
  refine ⟨⟨by decide, by decide⟩, fun h => ?_⟩
  have hloses : Loses shortPaths (fun _ => none) (BehaviorScorer.run shortPaths (fun _ => none) [])
      longChange (entryOf shortPaths.config longChange) := Or.inr ⟨by decide +kernel, rfl, rfl⟩
  have hflagged := (h.flagged [] longChange [changeAt 2000 "/srv/b"] _ rfl hloses (by decide)).1
  have heligible : ((BehaviorScorer.run shortPaths (fun _ => none) [longChange]).evaluateWithApproval
      shortPaths (changeAt 2000 "/srv/b") none).1.eligible = true := by decide +kernel
  rw [heligible] at hflagged
  cases hflagged

end Argos.Detect
