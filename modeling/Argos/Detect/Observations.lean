import Argos.Detect.Queues
import Mathlib.Data.List.Dedup

/-!
# What the groups have observed

The observations that the scorer has accepted so far are kept beside it in a log, which nothing is
ever removed from. The queue of all events is an end of the log, and as long as the scorer does not
report a loss its queues have everything from the longest window on (`Kept`). An evaluation keeps that
(`Kept.step`), in whatever order the times of the events are: an event that is late is refused, and
the refusal is a loss. So an outcome that is not truncated is one of all the evidence
(`Kept.selected_eq`, `Kept.instanceScore_eq`).
-/

namespace Argos.Detect

open Argos.Common
open Argos.Lib
open Argos.Vault (saturatingAdd)

/-- The observation that an evaluation accepts, if it accepts one. -/
def acceptance (S : Setup) (m : MultiWindowScorer) (event : FileEvent) (adjustedRules : List String) :
    Option Observation :=
  let m := m.advanced S event
  let included := includedKeys S.config.multiWindow event adjustedRules
  if S.config.multiWindow.enabled = true ∧ unsupported S m event = false ∧ included ≠ [] ∧
      countedAction event.action = true then
    some (m.observation S event included)
  else none

/-- A loss is reported at a time. -/
def MultiWindowScorer.lackingAt (m : MultiWindowScorer) (now : Nat) : Bool :=
  m.incompleteUntil.any fun last => now ≤ last

/-- The scorer and the log of what it has accepted. -/
structure Kept (S : Setup) (m : MultiWindowScorer) (log : List Observation) : Prop where
  consistent : Consistent S m
  queue : m.events <:+ log
  numbers : log.map (·.sequence) = (List.range log.length).map fun i => min (i + 1) u64Max
  counter : m.sequence = min log.length u64Max
  past : ∀ o ∈ log, o.timestampMs ≤ m.watermark
  whole : log.length ≤ u64Max → ∀ now, m.watermark ≤ now → now ≤ u64Max → m.lackingAt now = false →
    FullFrom (now - horizonMs S) m ∧
    m.events.filter (fun o => now - horizonMs S ≤ o.timestampMs) =
      log.filter fun o => now - horizonMs S ≤ o.timestampMs
  full : m.incompleteUntil = none → Full m ∧
    m.events.filter (fun o => m.watermark - horizonMs S ≤ o.timestampMs) =
      log.filter fun o => m.watermark - horizonMs S ≤ o.timestampMs

section Kept

variable {S : Setup} {m : MultiWindowScorer} {log : List Observation} {event : FileEvent}

theorem Kept.initial : Kept S {} [] where
  consistent := Consistent.initial
  queue := List.suffix_refl _
  numbers := rfl
  counter := rfl
  past := fun _ h => by cases h
  whole := fun _ _ _ _ _ => ⟨fun _ => rfl, rfl⟩
  full := fun _ => ⟨fun _ => rfl, rfl⟩

/-- As long as the numbers do not saturate they are all different. -/
theorem Kept.distinct (h : Kept S m log) (hlog : log.length ≤ u64Max) : Distinct m := by
  have hlt : (log.map (·.sequence)).Pairwise (· < ·) := by
    rw [h.numbers, List.pairwise_map]
    refine List.Pairwise.imp_of_mem ?_ List.pairwise_lt_range
    intro i j hi hj hij
    rw [List.mem_range] at hi hj
    omega
  exact (List.pairwise_map.1 hlt).sublist h.queue.sublist

/-- After the end of what is reported as lost, everything so far is too old for any window. -/
theorem watermark_lt_of_loss {now : Nat} (hloss : Loss S m) (hmax : now ≤ u64Max)
    (h : m.lackingAt now = false) : m.watermark < now - horizonMs S := by
  unfold MultiWindowScorer.lackingAt at h
  rw [hloss, Option.any_some, decide_eq_false_iff_not] at h
  unfold saturatingAdd Vault.u64Max at h
  unfold u64Max at hmax
  omega

theorem filter_eq_nil_of_past {events : List Observation} {last horizon : Nat}
    (h : ∀ o ∈ events, o.timestampMs ≤ last) (hlt : last < horizon) :
    events.filter (fun o => horizon ≤ o.timestampMs) = [] := by
  rw [List.filter_eq_nil_iff]
  intro o ho
  have := h o ho
  rw [decide_eq_true_eq]
  omega

/-- Of the time after all that happened nothing is missing. -/
theorem Consistent.fullFrom_later {horizon : Nat} (h : Consistent S m) (hlt : m.watermark < horizon) :
    FullFrom horizon m := by
  intro g
  have hjoined : ∀ o ∈ joined g m.events, o.timestampMs ≤ m.watermark := fun o ho =>
    h.past o (List.mem_of_mem_filter ho)
  rw [filter_eq_nil_of_past hjoined hlt,
    filter_eq_nil_of_past (fun o ho => hjoined o ((h.ends g).subset ho)) hlt]

/-- A scorer that has lost something at its own time. -/
theorem Kept.of_loss (hconsistent : Consistent S m) (hqueue : m.events <:+ log)
    (hnumbers : log.map (·.sequence) = (List.range log.length).map fun i => min (i + 1) u64Max)
    (hcounter : m.sequence = min log.length u64Max) (hpast : ∀ o ∈ log, o.timestampMs ≤ m.watermark)
    (hloss : Loss S m) : Kept S m log := by
  refine ⟨hconsistent, hqueue, hnumbers, hcounter, hpast, fun _ now _ hmax hlacking => ?_, fun hnone => ?_⟩
  · have hlt := watermark_lt_of_loss hloss hmax hlacking
    refine ⟨hconsistent.fullFrom_later hlt, ?_⟩
    rw [filter_eq_nil_of_past hpast hlt,
      filter_eq_nil_of_past (fun o ho => hpast o (hqueue.subset ho)) hlt]
  · rw [hloss] at hnone
    cases hnone

/-- What is left of the observations from an earlier horizon at a later one. -/
theorem filter_later {events log : List Observation} {earlier later : Nat} (h : earlier ≤ later)
    (heq : events.filter (fun o => earlier ≤ o.timestampMs) =
      log.filter fun o => earlier ≤ o.timestampMs) :
    events.filter (fun o => later ≤ o.timestampMs) = log.filter fun o => later ≤ o.timestampMs := by
  have hboth : ∀ l : List Observation, l.filter (fun o => later ≤ o.timestampMs) =
      (l.filter fun o => earlier ≤ o.timestampMs).filter fun o => later ≤ o.timestampMs := by
    intro l
    rw [List.filter_filter]
    refine List.filter_congr fun o _ => ?_
    by_cases hlater : later ≤ o.timestampMs
    · have hle : earlier ≤ o.timestampMs := h.trans hlater
      simp [hlater, hle]
    · simp [hlater]
  rw [hboth events, hboth log, heq]

theorem Kept.truncate (h : Kept S m log) : Kept S (m.truncate S m.watermark) log :=
  Kept.of_loss ⟨h.consistent.live, h.consistent.ends, h.consistent.sorted, h.consistent.numbered,
    h.consistent.counted, h.consistent.counter, h.consistent.past, h.consistent.nodup,
    h.consistent.fewEvents, h.consistent.fewGroups⟩ h.queue h.numbers h.counter h.past rfl

/-! ## The parts of an evaluation -/

theorem advanced_spec (h : Consistent S m) : Consistent S (m.advanced S event) ∧
    (m.advanced S event).events = m.events.filter (fun o =>
      max m.watermark event.timestampMs - horizonMs S ≤ o.timestampMs) ∧
    (m.advanced S event).sequence = m.sequence ∧
    (m.advanced S event).watermark = max m.watermark event.timestampMs ∧
    (m.advanced S event).incompleteUntil = m.incompleteUntil ∧
    (Full m → Full (m.advanced S event)) ∧
    ∀ later, max m.watermark event.timestampMs - horizonMs S ≤ later → Distinct m →
      FullFrom later m → FullFrom later (m.advanced S event) :=
  (h.at_time (Nat.le_max_left _ _)).expireBefore le_rfl

/-- What is too old goes. -/
theorem Kept.advanced (h : Kept S m log) : Kept S (m.advanced S event) log := by
  obtain ⟨hconsistent, hevents, hsequence, hwatermark, huntil, hfull, hfrom⟩ :=
    @advanced_spec S m event h.consistent
  have hsuffix : (m.advanced S event).events <:+ m.events := by
    -- The queue is sorted, so what is too old is its front.
    rw [hevents]
    have hsorted := h.consistent.sorted
    generalize m.events = events at hsorted
    induction events with
    | nil => exact List.suffix_refl _
    | cons o rest ih =>
      obtain ⟨hfirst, hrest⟩ := List.pairwise_cons.1 hsorted
      rw [List.filter_cons]
      split
      next hin =>
        rw [decide_eq_true_eq] at hin
        have hall : rest.filter (fun a => decide (max m.watermark event.timestampMs - horizonMs S ≤
            a.timestampMs)) = rest :=
          List.filter_eq_self.2 fun o' ho' => decide_eq_true (hin.trans (hfirst o' ho'))
        exact hall.symm ▸ List.suffix_refl _
      next => exact (ih hrest).trans (List.suffix_cons _ _)
  refine ⟨hconsistent, hsuffix.trans h.queue, h.numbers, hsequence.trans h.counter, ?_, ?_, ?_⟩
  · intro o ho
    rw [hwatermark]
    exact (h.past o ho).trans (Nat.le_max_left _ _)
  · intro hlog now hle hmax hlacking
    rw [hwatermark] at hle
    have hbefore : m.lackingAt now = false := by
      unfold MultiWindowScorer.lackingAt at hlacking ⊢
      rwa [huntil] at hlacking
    obtain ⟨hfrom', hrecent⟩ := h.whole hlog now ((Nat.le_max_left _ _).trans hle) hmax hbefore
    have hhorizon : max m.watermark event.timestampMs - horizonMs S ≤ now - horizonMs S := by omega
    refine ⟨hfrom _ hhorizon (h.distinct hlog) hfrom', ?_⟩
    rw [← hrecent, hevents]
    refine filter_later hhorizon ?_
    rw [List.filter_filter]
    simp only [Bool.and_self]
  · intro hnone
    rw [huntil] at hnone
    obtain ⟨hfull', hrecent⟩ := h.full hnone
    refine ⟨hfull hfull', ?_⟩
    rw [hwatermark, hevents, List.filter_filter]
    simp only [Bool.and_self]
    exact filter_later (by omega) hrecent

theorem groupKeys_nodup (config : MultiWindowConfig) : (groupKeys config event).Nodup := by
  unfold groupKeys
  exact (List.perm_insertionSort _ _).nodup_iff.2 (List.nodup_dedup _)

theorem includedKeys_nodup (config : MultiWindowConfig) (adjustedRules : List String) :
    (includedKeys config event adjustedRules).Nodup :=
  (groupKeys_nodup config).filter _

/-- The numbers of a log with one more observation. -/
theorem numbers_concat {o : Observation} (hnumbers : log.map (·.sequence) =
      (List.range log.length).map fun i => min (i + 1) u64Max)
    (ho : o.sequence = min (log.length + 1) u64Max) :
    (log ++ [o]).map (·.sequence) =
      (List.range (log ++ [o]).length).map fun i => min (i + 1) u64Max := by
  rw [List.map_append, hnumbers, List.length_append, List.length_singleton, List.range_succ,
    List.map_append, List.map_singleton, List.map_singleton, ho]

/-- The event is kept, and it is the last of the log. -/
theorem Kept.inserted {included : List Group} (h : Kept S m log) (hnodup : included.Nodup)
    (haccept : included ≠ [] ∧ countedAction event.action) :
    Kept S (m.inserted S event included) (log ++ [m.observation S event included]) := by
  obtain ⟨hconsistent, ⟨kept, hkept, hevents⟩, hsequence, hwatermark, hloss⟩ :=
    h.consistent.inserted hnodup haccept
  have hnumber : (m.observation S event included).sequence = min (log.length + 1) u64Max := by
    have hcounter := h.counter
    show saturatingAdd m.sequence 1 = _
    unfold saturatingAdd Vault.u64Max
    unfold u64Max at hcounter ⊢
    omega
  have hnumbers := numbers_concat h.numbers hnumber
  have hcounter : (m.inserted S event included).sequence =
      min (log ++ [m.observation S event included]).length u64Max := by
    rw [hsequence, hnumber, List.length_append, List.length_singleton]
  have hqueue : (m.inserted S event included).events <:+ log ++ [m.observation S event included] := by
    obtain ⟨gone, hgone⟩ := hkept.trans h.queue
    rw [hevents, ← hgone]
    exact ⟨gone, by rw [List.append_assoc]⟩
  have hpast : ∀ o ∈ log ++ [m.observation S event included],
      o.timestampMs ≤ (m.inserted S event included).watermark := by
    intro o ho
    rw [hwatermark]
    rcases List.mem_append.1 ho with ho | ho
    · exact h.past o ho
    · rw [List.mem_singleton.1 ho]
      exact le_rfl
  rcases hloss with hloss | ⟨huntil, hall, hqueues⟩
  · exact Kept.of_loss hconsistent hqueue hnumbers hcounter hpast hloss
  · -- Nothing is lost, and the event is added everywhere.
    have hjoined : ∀ g, joined g (m.events ++ [m.observation S event included]) =
        joined g m.events ++ if g ∈ included then [m.observation S event included] else [] := by
      intro g
      rw [joined_append]
      by_cases hin : g ∈ included
      · rw [if_pos hin, joined_cons_mem (show g ∈ (m.observation S event included).groups from hin)]
        rfl
      · rw [if_neg hin, joined_cons_notMem
          (show g ∉ (m.observation S event included).groups from hin)]
        rfl
    refine ⟨hconsistent, hqueue, hnumbers, hcounter, hpast, ?_, ?_⟩
    · intro hlog now hle hmax hlacking
      rw [hwatermark] at hle
      rw [List.length_append, List.length_singleton] at hlog
      have hbefore : m.lackingAt now = false := by
        unfold MultiWindowScorer.lackingAt at hlacking ⊢
        rwa [huntil] at hlacking
      obtain ⟨hfrom, hrecent⟩ := h.whole (by omega) now hle hmax hbefore
      refine ⟨fun g => ?_, ?_⟩
      · rw [hqueues g, hall, hjoined g, List.filter_append, List.filter_append, hfrom g]
      · rw [hall, List.filter_append, List.filter_append, hrecent]
    · intro hnone
      rw [huntil] at hnone
      obtain ⟨hfull, hrecent⟩ := h.full hnone
      refine ⟨fun g => ?_, ?_⟩
      · rw [hqueues g, hall, hjoined g, hfull g]
      · rw [hwatermark, hall, List.filter_append, List.filter_append, hrecent]

/-! ## The outcome -/

/-- The windows of a group are assessed, and its queue stays as it is. -/
theorem groupOutcome_groups {now : Nat} {truncated : Bool} (acc : MultiOutcome × Map Group GroupState)
    (group : Group) : (∀ g, eventsIn (groupOutcome S now truncated acc group).2 g = eventsIn acc.2 g) ∧
      ∀ g, g ∈ (groupOutcome S now truncated acc group).2 ↔ g ∈ acc.2 := by
  unfold groupOutcome
  rcases hstate : acc.2.lookup group with _ | state
  · exact ⟨fun _ => rfl, fun _ => Iff.rfl⟩
  · dsimp only
    refine ⟨fun g => ?_, fun g => ?_⟩
    · by_cases heq : g = group
      · rw [heq, eventsIn_insert]
        unfold eventsIn
        rw [hstate]
        rfl
      · exact eventsIn_insert_ne heq _
    · rw [AList.mem_insert]
      constructor
      · rintro (rfl | hmem)
        · exact mem_iff_lookup.2 ⟨state, hstate⟩
        · exact hmem
      · exact Or.inr

theorem groupOutcomes_groups {now : Nat} {truncated : Bool} (acc : MultiOutcome × Map Group GroupState)
    (keys : List Group) :
    (∀ g, eventsIn (keys.foldl (groupOutcome S now truncated) acc).2 g = eventsIn acc.2 g) ∧
      ∀ g, g ∈ (keys.foldl (groupOutcome S now truncated) acc).2 ↔ g ∈ acc.2 := by
  induction keys generalizing acc with
  | nil => exact ⟨fun _ => rfl, fun _ => Iff.rfl⟩
  | cons key rest ih =>
    obtain ⟨hevents, hkeys⟩ := @groupOutcome_groups S now truncated acc key
    obtain ⟨hevents', hkeys'⟩ := ih (groupOutcome S now truncated acc key)
    exact ⟨fun g => (hevents' g).trans (hevents g), fun g => (hkeys' g).trans (hkeys g)⟩

/-- Only the queues of the groups count. -/
theorem Kept.congr_groups {groups : Map Group GroupState} (h : Kept S m log)
    (hevents : ∀ g, eventsIn groups g = eventsIn m.groups g) (hkeys : ∀ g, g ∈ groups ↔ g ∈ m.groups) :
    Kept S { m with groups := groups } log := by
  have hc := h.consistent
  refine ⟨⟨fun g hg => ?_, fun g => ?_, hc.sorted, hc.numbered, hc.counted, hc.counter, hc.past,
    hc.nodup, hc.fewEvents, ?_⟩, h.queue, h.numbers, h.counter, h.past, ?_, ?_⟩
  · show eventsIn groups g ≠ []
    rw [hevents g]
    exact hc.live g ((hkeys g).1 hg)
  · show eventsIn groups g <:+ _
    rw [hevents g]
    exact hc.ends g
  · exact (length_le_of_keys fun g hg => (hkeys g).1 hg).trans hc.fewGroups
  · intro hlog now hle hmax hlacking
    obtain ⟨hfrom, hrecent⟩ := h.whole hlog now hle hmax hlacking
    refine ⟨fun g => ?_, hrecent⟩
    show (eventsIn groups g).filter _ = _
    rw [hevents g]
    exact hfrom g
  · intro hnone
    obtain ⟨hfull, hrecent⟩ := h.full hnone
    refine ⟨fun g => ?_, hrecent⟩
    show eventsIn groups g = _
    rw [hevents g]
    exact hfull g

/-- The windows of a group that have enough files count with these scores. A group without events has
no windows. -/
def scores (S : Setup) (now : Nat) (events : List Observation) : List ℚ :=
  if events = [] then []
  else ((S.config.multiWindow.windows.take 8).filter fun window => window.minChangedFiles ≤
      (distinct ((selected now (millis window.windowSecs) events).map (·.path))).length).map
    fun window => selectedScore S window (selected now (millis window.windowSecs) events)

/-- The best score so far with one more. -/
def raise (best : Option ℚ) (score : ℚ) : Option ℚ := some (best.elim score fun old => max old score)

theorem foldl_raise_some (best : ℚ) (l : List ℚ) : l.foldl raise (some best) = some (l.foldl max best) := by
  induction l generalizing best with
  | nil => rfl
  | cons score rest ih => exact ih _

theorem foldl_raise_none (l : List ℚ) : l.foldl raise none = l.max? := by
  rcases l with _ | ⟨score, rest⟩
  · rfl
  · exact foldl_raise_some score rest

/-- One window raises the best score of a process if it has enough files. -/
theorem windowOutcome_score {now : Nat} {group : Group} {events : List Observation}
    {acc : MultiOutcome × Map Nat (Nat × ℚ)} {window : DetectionWindow} :
    (windowOutcome S now false group events acc window).1.instanceScore =
      if group.isInstance = true ∧ window.minChangedFiles ≤
          (distinct ((selected now (millis window.windowSecs) events).map (·.path))).length then
        raise acc.1.instanceScore
          (selectedScore S window (selected now (millis window.windowSecs) events))
      else acc.1.instanceScore := by
  unfold windowOutcome
  dsimp only
  by_cases hfew : (distinct ((selected now (millis window.windowSecs) events).map (·.path))).length <
      window.minChangedFiles
  · rw [if_pos hfew, if_neg fun h => by omega]
  · rw [if_neg hfew, Bool.not_false, Bool.and_true]
    rcases hinstance : group.isInstance with _ | _
    · simp only [Bool.false_eq_true, if_false, false_and]
      split <;> rfl
    · simp only [if_true, true_and, if_pos (not_lt.1 hfew)]
      split <;> rfl

theorem windowOutcomes_score {now : Nat} {group : Group} {events : List Observation}
    (windows : List DetectionWindow) (acc : MultiOutcome × Map Nat (Nat × ℚ)) :
    (windows.foldl (windowOutcome S now false group events) acc).1.instanceScore =
      if group.isInstance = true then
        ((windows.filter fun window => window.minChangedFiles ≤
          (distinct ((selected now (millis window.windowSecs) events).map (·.path))).length).map
        fun window => selectedScore S window (selected now (millis window.windowSecs) events)).foldl
          raise acc.1.instanceScore
      else acc.1.instanceScore := by
  induction windows generalizing acc with
  | nil => split <;> rfl
  | cons window rest ih =>
    rw [List.foldl_cons, ih, windowOutcome_score]
    rcases hinstance : group.isInstance with _ | _
    · simp only [Bool.false_eq_true, if_false, false_and]
    · simp only [if_true, true_and, List.filter_cons, decide_eq_true_eq]
      split <;> rfl

/-- The windows of one group raise the best score if the group is the process itself. -/
theorem groupOutcome_score {now : Nat} {acc : MultiOutcome × Map Group GroupState} {group : Group}
    (hlive : Live acc.2) : (groupOutcome S now false acc group).1.instanceScore =
      if group.isInstance = true then
        (scores S now (eventsIn acc.2 group)).foldl raise acc.1.instanceScore
      else acc.1.instanceScore := by
  unfold groupOutcome
  rcases hstate : acc.2.lookup group with _ | state
  · have hnone : eventsIn acc.2 group = [] := eventsIn_of_notMem (AList.lookup_eq_none.1 hstate)
    rw [hnone]
    show acc.1.instanceScore = _
    rcases group.isInstance with _ | _
    · rfl
    · rfl
  · have hevents : eventsIn acc.2 group = state.events := by
      unfold eventsIn
      rw [hstate]
      rfl
    have hsome : state.events ≠ [] := hevents ▸ hlive group (mem_iff_lookup.2 ⟨state, hstate⟩)
    dsimp only
    rw [windowOutcomes_score, hevents, scores, if_neg hsome]

theorem groupOutcomes_score {now : Nat} (keys : List Group) (acc : MultiOutcome × Map Group GroupState)
    (hlive : Live acc.2) : (keys.foldl (groupOutcome S now false) acc).1.instanceScore =
      (keys.filter Group.isInstance).foldl
        (fun best key => (scores S now (eventsIn acc.2 key)).foldl raise best) acc.1.instanceScore := by
  induction keys generalizing acc with
  | nil => rfl
  | cons key rest ih =>
    obtain ⟨hevents, hkeys⟩ := @groupOutcome_groups S now false acc key
    have hlive' : Live (groupOutcome S now false acc key).2 := by
      intro g hg
      rw [hevents g]
      exact hlive g ((hkeys g).1 hg)
    rw [List.foldl_cons, ih _ hlive', groupOutcome_score hlive, List.filter_cons]
    simp only [hevents]
    rcases key.isInstance with _ | _
    · rfl
    · rfl

theorem rootGroups_isInstance (config : MultiWindowConfig) (root : String) :
    (rootGroups config event root).filter Group.isInstance = [] := by
  rw [List.filter_eq_nil_iff]
  intro g hg
  unfold rootGroups at hg
  rcases hcontext : contextOf event with _ | p
  · rw [hcontext] at hg
    rw [List.mem_singleton.1 hg]
    exact Bool.false_ne_true
  · rw [hcontext] at hg
    dsimp only at hg
    rcases List.mem_append.1 hg with hg | hg
    · rcases List.mem_append.1 hg with hg | hg
      · rw [List.mem_singleton.1 hg]
        exact Bool.false_ne_true
      · split at hg
        · rw [List.mem_singleton.1 hg]
          exact Bool.false_ne_true
        · cases hg
    · split at hg
      · obtain ⟨a, -, rfl⟩ := List.mem_map.1 hg
        exact Bool.false_ne_true
      · cases hg

/-- The keys of an event name its process once, if at all. -/
theorem groupKeys_isInstance (config : MultiWindowConfig) :
    (groupKeys config event).filter Group.isInstance =
      ((instanceOf event).map Group.instance).toList := by
  have hperm : ((groupKeys config event).filter Group.isInstance).Perm
      (((((instanceOf event).map Group.instance).toList ++
        (rootOf config event).elim [] (rootGroups config event)).dedup).filter Group.isInstance) :=
    (List.perm_insertionSort _ _).filter _
  have hnone : ((rootOf config event).elim [] (rootGroups config event)).filter Group.isInstance = [] := by
    rcases rootOf config event with _ | root
    · rfl
    · exact rootGroups_isInstance config root
  rcases hinstance : instanceOf event with _ | p
  · rw [hinstance, Option.map_none, Option.toList_none, List.nil_append] at hperm
    have hempty : (((rootOf config event).elim [] (rootGroups config event)).dedup).filter
        Group.isInstance = [] := by
      rw [List.filter_eq_nil_iff] at hnone ⊢
      exact fun g hg => hnone g (List.mem_dedup.1 hg)
    rw [hempty] at hperm
    exact hperm.eq_nil
  · refine List.Perm.eq_singleton ?_
    rw [hinstance] at hperm
    refine hperm.trans ((List.perm_ext_iff_of_nodup ((List.nodup_dedup _).filter _)
      (List.nodup_singleton _)).2 fun g => ?_)
    rw [List.mem_filter, List.mem_dedup, List.mem_append, List.mem_singleton, Option.map_some,
      Option.toList_some, List.mem_singleton]
    constructor
    · rintro ⟨rfl | hroot, hg⟩
      · rfl
      · exact absurd hg (List.filter_eq_nil_iff.1 hnone g hroot)
    · rintro rfl
      exact ⟨Or.inl rfl, rfl⟩

/-- The scorer between the insertion of an event and the assessment of its groups. -/
def observed (S : Setup) (m : MultiWindowScorer) (event : FileEvent) (adjustedRules : List String) :
    MultiWindowScorer :=
  (m.advanced S event).inserted S event (includedKeys S.config.multiWindow event adjustedRules)

theorem Kept.observed {adjustedRules : List String} (h : Kept S m log)
    (henabled : S.config.multiWindow.enabled = true)
    (hsupported : unsupported S (m.advanced S event) event = false) :
    Kept S (observed S m event adjustedRules)
      (log ++ (acceptance S m event adjustedRules).toList) := by
  unfold acceptance
  dsimp only
  split
  next haccept => exact h.advanced.inserted (includedKeys_nodup _ _) ⟨haccept.2.2.1, haccept.2.2.2⟩
  next hrefuse =>
    have hsame : Detect.observed S m event adjustedRules = m.advanced S event := by
      unfold Detect.observed MultiWindowScorer.inserted
      exact if_neg fun haccept => hrefuse ⟨henabled, hsupported, haccept⟩
    rw [hsame, Option.toList_none, List.append_nil]
    exact h.advanced

theorem evaluate_supported {adjustedRules : List String}
    (henabled : S.config.multiWindow.enabled = true)
    (hsupported : unsupported S (m.advanced S event) event = false) :
    m.evaluate S event adjustedRules =
      let keys := groupKeys S.config.multiWindow event
      let included := includedKeys S.config.multiWindow event adjustedRules
      let m := observed S m event adjustedRules
      let r := keys.foldl (groupOutcome S m.watermark m.lacking)
        ({ truncated := m.lacking, approvalApplied := included.length < keys.length }, m.groups)
      (r.1, { m with groups := r.2 }) := by
  unfold MultiWindowScorer.evaluate
  rw [henabled, Bool.not_true, if_neg Bool.false_ne_true]
  dsimp only
  rw [hsupported, if_neg Bool.false_ne_true]
  rfl

theorem evaluate_unsupported {adjustedRules : List String}
    (henabled : S.config.multiWindow.enabled = true)
    (hunsupported : unsupported S (m.advanced S event) event = true) :
    m.evaluate S event adjustedRules =
      ({ truncated := true }, (m.advanced S event).truncate S (m.advanced S event).watermark) := by
  unfold MultiWindowScorer.evaluate
  rw [henabled, Bool.not_true, if_neg Bool.false_ne_true]
  dsimp only
  rw [hunsupported, if_pos rfl]

/-- An evaluation keeps the queues and the log in step. -/
theorem Kept.step {adjustedRules : List String} (h : Kept S m log)
    (henabled : S.config.multiWindow.enabled = true) :
    Kept S (m.evaluate S event adjustedRules).2
      (log ++ (acceptance S m event adjustedRules).toList) := by
  rcases hsupported : unsupported S (m.advanced S event) event with _ | _
  · rw [evaluate_supported henabled hsupported]
    obtain ⟨hevents, hkeys⟩ := groupOutcomes_groups _ _
    exact (h.observed henabled hsupported).congr_groups hevents hkeys
  · have hnone : acceptance S m event adjustedRules = none := by
      unfold acceptance
      exact if_neg fun haccept => by rw [haccept.2.1] at hsupported; cases hsupported
    rw [evaluate_unsupported henabled hsupported, hnone, Option.toList_none, List.append_nil]
    exact h.advanced.truncate

/-! ## The evidence of an outcome -/

theorem observed_watermark {adjustedRules : List String} (h : Consistent S m) :
    (observed S m event adjustedRules).watermark = max m.watermark event.timestampMs := by
  obtain ⟨hconsistent, -, -, hwatermark, -⟩ := @advanced_spec S m event h
  unfold Detect.observed
  by_cases haccept : includedKeys S.config.multiWindow event adjustedRules ≠ [] ∧
      countedAction event.action
  · obtain ⟨-, -, -, hsame, -⟩ := hconsistent.inserted (includedKeys_nodup _ _) haccept
    rw [hsame, hwatermark]
  · unfold MultiWindowScorer.inserted
    rw [if_neg haccept, hwatermark]

/-- After an event came, the queue has nothing that is older than the longest window. -/
theorem observed_recent {adjustedRules : List String} (h : Consistent S m) :
    ∀ o ∈ (observed S m event adjustedRules).events,
      (observed S m event adjustedRules).watermark - horizonMs S ≤ o.timestampMs := by
  obtain ⟨hconsistent, hevents, -, hwatermark, -⟩ := @advanced_spec S m event h
  have hold : ∀ o ∈ (m.advanced S event).events,
      max m.watermark event.timestampMs - horizonMs S ≤ o.timestampMs := by
    intro o ho
    rw [hevents] at ho
    exact of_decide_eq_true (List.mem_filter.1 ho).2
  intro o ho
  rw [observed_watermark h]
  unfold Detect.observed at ho
  by_cases haccept : includedKeys S.config.multiWindow event adjustedRules ≠ [] ∧
      countedAction event.action
  · obtain ⟨-, ⟨kept, hkept, hqueue⟩, -⟩ := hconsistent.inserted (includedKeys_nodup _ _) haccept
    rw [hqueue] at ho
    rcases List.mem_append.1 ho with ho | ho
    · exact hold o (hkept.subset ho)
    · rw [List.mem_singleton.1 ho]
      show _ ≤ (m.advanced S event).watermark
      rw [hwatermark]
      exact Nat.sub_le _ _
  · unfold MultiWindowScorer.inserted at ho
    rw [if_neg haccept] at ho
    exact hold o ho

/-- All the evidence for a group, from the longest window on. -/
def allEvidence (S : Setup) (now : Nat) (group : Group) (log : List Observation) : List Observation :=
  (joined group log).filter fun o => now - horizonMs S ≤ o.timestampMs

/-- A scorer that reports no loss has all the evidence of every group. -/
theorem Kept.eventsIn_eq (h : Kept S m log)
    (hrecent : ∀ o ∈ m.events, m.watermark - horizonMs S ≤ o.timestampMs)
    (hcomplete : m.incompleteUntil = none ∨
      log.length ≤ u64Max ∧ m.watermark ≤ u64Max ∧ m.lacking = false) (g : Group) :
    eventsIn m.groups g = allEvidence S m.watermark g log := by
  have hboth : FullFrom (m.watermark - horizonMs S) m ∧
      m.events.filter (fun o => m.watermark - horizonMs S ≤ o.timestampMs) =
        log.filter fun o => m.watermark - horizonMs S ≤ o.timestampMs := by
    rcases hcomplete with hnone | ⟨hlog, hmax, hlacking⟩
    · obtain ⟨hfull, hlogged⟩ := h.full hnone
      exact ⟨fun g => by rw [hfull g], hlogged⟩
    · exact h.whole hlog m.watermark le_rfl hmax hlacking
  have hself : (eventsIn m.groups g).filter (fun o => m.watermark - horizonMs S ≤ o.timestampMs) =
      eventsIn m.groups g := by
    refine List.filter_eq_self.2 fun o ho => decide_eq_true (hrecent o ?_)
    exact List.mem_of_mem_filter ((h.consistent.ends g).subset ho)
  -- The part of the log is the queue, and the part of the queue is the group's.
  unfold allEvidence
  rw [← hself, hboth.1 g]
  unfold joined
  rw [List.filter_filter, List.filter_filter]
  simp only [Bool.and_comm]
  rw [← List.filter_filter, ← List.filter_filter, hboth.2]

theorem millis_le_horizonMs {window : DetectionWindow} (h : window ∈ S.config.multiWindow.windows) :
    millis window.windowSecs ≤ horizonMs S := by
  unfold horizonMs
  rcases hmax : (S.config.multiWindow.windows.map fun w => millis w.windowSecs).max? with _ | longest
  · rw [List.max?_eq_none_iff, List.map_eq_nil_iff] at hmax
    rw [hmax] at h
    cases h
  · rw [hmax, Option.getD_some]
    exact (List.max?_eq_some_iff.1 hmax).2 _ (List.mem_map_of_mem h)

/-- A window is cut out of all the evidence. -/
theorem selected_allEvidence {window : DetectionWindow} {now : Nat} {g : Group}
    (h : window ∈ S.config.multiWindow.windows) :
    selected now (millis window.windowSecs) (allEvidence S now g log) =
      (joined g log).filter fun o => now - millis window.windowSecs ≤ o.timestampMs := by
  have hle := millis_le_horizonMs h
  unfold selected allEvidence
  rw [List.filter_filter]
  refine List.filter_congr fun o _ => ?_
  by_cases hin : now - millis window.windowSecs ≤ o.timestampMs
  · have hall : now - horizonMs S ≤ o.timestampMs := by omega
    simp [hin, hall]
  · simp [hin]

theorem groupOutcomes_truncated {now : Nat} {truncated : Bool} (keys : List Group)
    (acc : MultiOutcome × Map Group GroupState) :
    (keys.foldl (groupOutcome S now truncated) acc).1.truncated = acc.1.truncated := by
  have hwindow : ∀ (group : Group) (events : List Observation) (windows : List DetectionWindow)
      (acc : MultiOutcome × Map Nat (Nat × ℚ)),
      (windows.foldl (windowOutcome S now truncated group events) acc).1.truncated = acc.1.truncated := by
    intro group events windows
    induction windows with
    | nil => exact fun _ => rfl
    | cons window rest ih =>
      intro acc
      rw [List.foldl_cons, ih]
      unfold windowOutcome
      dsimp only
      split
      · rfl
      · split <;> split <;> rfl
  induction keys generalizing acc with
  | nil => rfl
  | cons key rest ih =>
    rw [List.foldl_cons, ih]
    unfold groupOutcome
    rcases acc.2.lookup key with _ | state
    · rfl
    · exact hwindow key state.events _ (acc.1, state.lastEmit)

/-- The score of the process of an event, from the queues of the groups. -/
theorem evaluate_instanceScore {adjustedRules : List String} (h : Kept S m log)
    (henabled : S.config.multiWindow.enabled = true)
    (hsupported : unsupported S (m.advanced S event) event = false)
    (hcomplete : (observed S m event adjustedRules).lacking = false) :
    (m.evaluate S event adjustedRules).1.instanceScore = (instanceOf event).bind fun process =>
      (scores S (observed S m event adjustedRules).watermark
        (eventsIn (observed S m event adjustedRules).groups (.instance process))).max? := by
  have hlive :=
    (@Kept.observed S m log event adjustedRules h henabled hsupported).consistent.live
  rw [evaluate_supported henabled hsupported]
  dsimp only
  rw [hcomplete, groupOutcomes_score _ _ hlive, groupKeys_isInstance]
  rcases instanceOf event with _ | process
  · rfl
  · exact foldl_raise_none _

theorem evaluate_truncated {adjustedRules : List String}
    (henabled : S.config.multiWindow.enabled = true) :
    (m.evaluate S event adjustedRules).1.truncated =
      (unsupported S (m.advanced S event) event || (observed S m event adjustedRules).lacking) := by
  rcases hsupported : unsupported S (m.advanced S event) event with _ | _
  · rw [evaluate_supported henabled hsupported]
    exact groupOutcomes_truncated _ _
  · rw [evaluate_unsupported henabled hsupported]
    rfl

theorem evaluate_watermark {adjustedRules : List String}
    (h : Consistent S m) (henabled : S.config.multiWindow.enabled = true) :
    (m.evaluate S event adjustedRules).2.watermark = max m.watermark event.timestampMs := by
  rcases hsupported : unsupported S (m.advanced S event) event with _ | _
  · rw [evaluate_supported henabled hsupported]
    exact observed_watermark h
  · rw [evaluate_unsupported henabled hsupported]
    obtain ⟨-, -, -, hwatermark, -⟩ := @advanced_spec S m event h
    exact hwatermark

/-- An outcome that is not truncated is one of all the evidence. -/
theorem Kept.outcome {adjustedRules : List String} (h : Kept S m log)
    (henabled : S.config.multiWindow.enabled = true)
    (hcomplete : (m.evaluate S event adjustedRules).1.truncated = false)
    (hnumbers : (m.evaluate S event adjustedRules).2.incompleteUntil = none ∨
      (log ++ (acceptance S m event adjustedRules).toList).length ≤ u64Max ∧
      max m.watermark event.timestampMs ≤ u64Max) :
    (∀ g, eventsIn (m.evaluate S event adjustedRules).2.groups g =
      allEvidence S (max m.watermark event.timestampMs) g
        (log ++ (acceptance S m event adjustedRules).toList)) ∧
    (m.evaluate S event adjustedRules).1.instanceScore = (instanceOf event).bind fun process =>
      (scores S (max m.watermark event.timestampMs)
        (allEvidence S (max m.watermark event.timestampMs) (.instance process)
          (log ++ (acceptance S m event adjustedRules).toList))).max? := by
  rw [evaluate_truncated henabled, Bool.or_eq_false_iff] at hcomplete
  obtain ⟨hsupported, hlacking⟩ := hcomplete
  have hkept := @Kept.observed S m log event adjustedRules h henabled hsupported
  have hwatermark := @observed_watermark S m event adjustedRules h.consistent
  have hqueues := hkept.eventsIn_eq (observed_recent h.consistent) (by
    rcases hnumbers with hnone | ⟨hlog, hmax⟩
    · rw [evaluate_supported henabled hsupported] at hnone
      exact Or.inl hnone
    · exact Or.inr ⟨hlog, by rw [hwatermark]; exact hmax, hlacking⟩)
  rw [hwatermark] at hqueues
  constructor
  · intro g
    rw [← hqueues g, evaluate_supported henabled hsupported]
    exact (groupOutcomes_groups _ _).1 g
  · rw [evaluate_instanceScore h henabled hsupported hlacking, hwatermark]
    simp only [hqueues]

end Kept

end Argos.Detect
