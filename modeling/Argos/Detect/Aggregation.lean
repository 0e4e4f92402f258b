import Argos.Detect.Observations

/-!
# Aggregation over whole runs

A run of the multi-window scorer with the log of what it accepted, for events in any order of their
times. As long as fewer than `2^64` observations were accepted, every outcome that is not truncated is
one of all the evidence (`aggregates`). The numbers of the observations saturate; from then on an old
observation can be taken for a newer one with the same number, and the newer one is lost without a
mark. `flooded` is such a run.
-/

namespace Argos.Detect

open Argos.Common
open Argos.Lib
open Argos.Vault (saturatingAdd)

/-- An event with the rules that are adjusted for it. -/
abbrev Offer := FileEvent × List String

/-- One evaluation, with the log of what was accepted. -/
def MultiWindowScorer.logged (S : Setup) (state : MultiWindowScorer × List Observation) (offer : Offer) :
    MultiWindowScorer × List Observation :=
  ((state.1.evaluate S offer.1 offer.2).2, state.2 ++ (acceptance S state.1 offer.1 offer.2).toList)

/-- The scorer after some events, and what it has accepted. -/
def MultiWindowScorer.run (S : Setup) (offers : List Offer) : MultiWindowScorer × List Observation :=
  offers.foldl (MultiWindowScorer.logged S) ({}, [])

/-- What an evaluation after some events promises. -/
structure Aggregates (S : Setup) (before : List Offer) (offer : Offer) : Prop where
  fewEvents : (MultiWindowScorer.run S (before ++ [offer])).1.events.length ≤ maxEvents S
  fewGroups : (MultiWindowScorer.run S (before ++ [offer])).1.groups.entries.length ≤ maxGroups S
  /-- A group is not empty, in the order of the numbers, and has only observations of the queue. -/
  groups : ∀ g state, (MultiWindowScorer.run S (before ++ [offer])).1.groups.lookup g = some state →
    state.events ≠ [] ∧ state.events.Pairwise (fun a b => a.sequence < b.sequence) ∧
    ∀ o ∈ state.events, o ∈ (MultiWindowScorer.run S (before ++ [offer])).1.events
  /-- The next event to expire is at the front of each group that holds it. -/
  front : ∀ g state old, (MultiWindowScorer.run S (before ++ [offer])).1.events.head? = some old →
    (MultiWindowScorer.run S (before ++ [offer])).1.groups.lookup g = some state →
    old ∈ state.events → state.events.head? = some old
  /-- Without a loss, every window of every group of the event has all the evidence. -/
  whole : ((MultiWindowScorer.run S before).1.evaluate S offer.1 offer.2).1.truncated = false →
    ∀ g ∈ groupKeys S.config.multiWindow offer.1, ∀ window ∈ S.config.multiWindow.windows,
    selected (MultiWindowScorer.run S (before ++ [offer])).1.watermark (millis window.windowSecs)
        (eventsIn (MultiWindowScorer.run S (before ++ [offer])).1.groups g) =
      (joined g (MultiWindowScorer.run S (before ++ [offer])).2).filter fun o =>
        (MultiWindowScorer.run S (before ++ [offer])).1.watermark - millis window.windowSecs ≤
          o.timestampMs
  /-- Without a loss, the score of the process is the best of its windows over all the evidence. -/
  score : ((MultiWindowScorer.run S before).1.evaluate S offer.1 offer.2).1.truncated = false →
    ((MultiWindowScorer.run S before).1.evaluate S offer.1 offer.2).1.instanceScore =
      (instanceOf offer.1).bind fun process =>
        (scores S (MultiWindowScorer.run S (before ++ [offer])).1.watermark
          (allEvidence S (MultiWindowScorer.run S (before ++ [offer])).1.watermark (.instance process)
            (MultiWindowScorer.run S (before ++ [offer])).2)).max?

section Runs

variable {S : Setup}

theorem MultiWindowScorer.run_concat (offers : List Offer) (offer : Offer) :
    MultiWindowScorer.run S (offers ++ [offer]) =
      MultiWindowScorer.logged S (MultiWindowScorer.run S offers) offer := by
  unfold MultiWindowScorer.run
  rw [List.foldl_append]
  rfl

theorem Kept.run (henabled : S.config.multiWindow.enabled = true) (offers : List Offer) :
    Kept S (MultiWindowScorer.run S offers).1 (MultiWindowScorer.run S offers).2 := by
  induction offers using List.reverseRecOn with
  | nil => exact Kept.initial
  | append_singleton offers offer ih =>
    rw [MultiWindowScorer.run_concat]
    exact ih.step henabled

theorem run_watermark_le (henabled : S.config.multiWindow.enabled = true) {offers : List Offer}
    (hfits : ∀ offer ∈ offers, offer.1.timestampMs ≤ u64Max) :
    (MultiWindowScorer.run S offers).1.watermark ≤ u64Max := by
  induction offers using List.reverseRecOn with
  | nil => exact Nat.zero_le _
  | append_singleton offers offer ih =>
    rw [MultiWindowScorer.run_concat]
    show ((MultiWindowScorer.run S offers).1.evaluate S offer.1 offer.2).2.watermark ≤ u64Max
    rw [evaluate_watermark (Kept.run henabled offers).consistent henabled]
    have := ih fun offer hoffer => hfits offer (List.mem_append_left _ hoffer)
    have := hfits offer (by simp)
    omega

theorem eventsIn_of_lookup {groups : Map Group GroupState} {g : Group} {state : GroupState}
    (h : groups.lookup g = some state) : eventsIn groups g = state.events := by
  unfold eventsIn
  rw [h]
  rfl

/-- As long as fewer than `2^64` observations were accepted, every evaluation keeps the promise. -/
theorem aggregates (henabled : S.config.multiWindow.enabled = true) {before : List Offer}
    {offer : Offer} (hfits : ∀ o ∈ before ++ [offer], o.1.timestampMs ≤ u64Max)
    (hfew : (MultiWindowScorer.run S (before ++ [offer])).2.length ≤ u64Max) :
    Aggregates S before offer := by
  have hafter := Kept.run henabled (before ++ [offer])
  have hc := hafter.consistent
  have hdistinct := hafter.distinct hfew
  have hjoined : ∀ g, (joined g (MultiWindowScorer.run S (before ++ [offer])).1.events).Pairwise
      fun a b => a.sequence < b.sequence := fun g => hdistinct.sublist List.filter_sublist
  have hmax : max (MultiWindowScorer.run S before).1.watermark offer.1.timestampMs ≤ u64Max := by
    have := run_watermark_le henabled fun o ho => hfits o (List.mem_append_left _ ho)
    have := hfits offer (by simp)
    omega
  refine ⟨hc.fewEvents, hc.fewGroups, fun g state hstate => ?_, fun g state old hold hstate hmem => ?_,
    fun htruncated g _ window hwindow => ?_, fun htruncated => ?_⟩
  · have hends := hc.ends g
    rw [eventsIn_of_lookup hstate] at hends
    refine ⟨?_, (hjoined g).sublist hends.sublist, fun o ho => List.mem_of_mem_filter (hends.subset ho)⟩
    rw [← eventsIn_of_lookup hstate]
    exact hc.live g (mem_iff_lookup.2 ⟨state, hstate⟩)
  · have hends := hc.ends g
    rcases hevents : (MultiWindowScorer.run S (before ++ [offer])).1.events with _ | ⟨first, rest⟩
    · rw [hevents] at hold
      cases hold
    · rw [hevents] at hold hends
      obtain rfl := Option.some.inj hold
      rw [eventsIn_of_lookup hstate] at hends
      have hin : g ∈ first.groups := of_decide_eq_true (List.mem_filter.1 (hends.subset hmem)).2
      rw [joined_cons_mem hin] at hends
      -- Behind the front of the queue all numbers are larger.
      rcases List.suffix_cons_iff.1 hends with heq | hsuffix
      · rw [heq, List.head?_cons]
      · unfold Distinct at hdistinct
        rw [hevents] at hdistinct
        have hlt := (List.pairwise_cons.1 hdistinct).1 first
          (List.mem_of_mem_filter (hsuffix.subset hmem))
        omega
  · rw [MultiWindowScorer.run_concat] at hfew ⊢
    obtain ⟨hqueues, -⟩ := (Kept.run henabled before).outcome henabled htruncated
      (Or.inr ⟨hfew, hmax⟩)
    show selected ((MultiWindowScorer.run S before).1.evaluate S offer.1 offer.2).2.watermark _
      (eventsIn ((MultiWindowScorer.run S before).1.evaluate S offer.1 offer.2).2.groups g) = _
    rw [hqueues g, evaluate_watermark (Kept.run henabled before).consistent henabled,
      selected_allEvidence hwindow]
    show _ = (joined g (_ ++ _)).filter fun o =>
      ((MultiWindowScorer.run S before).1.evaluate S offer.1 offer.2).2.watermark - _ ≤ o.timestampMs
    rw [evaluate_watermark (Kept.run henabled before).consistent henabled]
  · rw [MultiWindowScorer.run_concat] at hfew ⊢
    obtain ⟨-, hscore⟩ := (Kept.run henabled before).outcome henabled htruncated
      (Or.inr ⟨hfew, hmax⟩)
    rw [hscore]
    show _ = (instanceOf offer.1).bind fun process => (scores S
      ((MultiWindowScorer.run S before).1.evaluate S offer.1 offer.2).2.watermark (allEvidence S
        ((MultiWindowScorer.run S before).1.evaluate S offer.1 offer.2).2.watermark
        (.instance process) (_ ++ _))).max?
    rw [evaluate_watermark (Kept.run henabled before).consistent henabled]

end Runs

/-! ## Numbers that saturate -/

/-- A setup with one window of a second and room for one group. -/
def narrow : Setup where
  config := { DetectionConfig.default with
    multiWindow := { MultiWindowConfig.default with
      enabled := true
      windows := [⟨1, 1, 1, .finite 50⟩]
      maxGroups := 1 } }
  sensor := .fanotify
  debug := id

/-- A change by a process that is known by its start and boot. -/
def changeBy (pid timestampMs : Nat) : Offer :=
  ({ timestampMs := timestampMs
     pid := pid
     path := "/srv/a"
     action := .modify
     size := none
     entropy := none
     process := some ⟨1000, "/bin/cp", 1, "boot", []⟩
     content := none }, [])

theorem aggregates_second_change : Aggregates narrow [changeBy 7 0] (changeBy 7 100) ∧
    ((MultiWindowScorer.run narrow [changeBy 7 0]).1.evaluate narrow (changeBy 7 100).1 []).1.truncated =
      false :=
  ⟨aggregates rfl (by decide) (by decide +kernel), by decide +kernel⟩

/-- The changes before the numbers saturate, all at once. -/
def flood (n : Nat) : List Offer := List.replicate n (changeBy 7 0)

/-- The changes after that: the group of process 7 is evicted for process 8, then it comes back. -/
def aftermath : List Offer :=
  [changeBy 7 2000, changeBy 7 2000, changeBy 8 2000, changeBy 7 2001, changeBy 7 2002]

/-- A scorer whose queues are empty and whose numbers have saturated. -/
def spent (incompleteUntil : Option Nat) : MultiWindowScorer where
  sequence := u64Max
  watermark := 2000
  incompleteUntil := incompleteUntil

theorem flood_supported {m : MultiWindowScorer} (h : Consistent narrow m) (hwatermark : m.watermark = 0) :
    unsupported narrow (m.advanced narrow (changeBy 7 0).1) (changeBy 7 0).1 = false := by
  obtain ⟨-, -, -, htime, -⟩ := @advanced_spec narrow m (changeBy 7 0).1 h
  unfold unsupported
  rw [htime, hwatermark]
  decide +kernel

/-- Every change of the flood is accepted. -/
theorem run_flood (n : Nat) : (MultiWindowScorer.run narrow (flood n)).1.watermark = 0 ∧
    (MultiWindowScorer.run narrow (flood n)).2.length = n ∧
    ((MultiWindowScorer.run narrow (flood n)).1.incompleteUntil = none ∨
      (MultiWindowScorer.run narrow (flood n)).1.incompleteUntil = some 1000) := by
  induction n with
  | zero => exact ⟨rfl, rfl, Or.inl rfl⟩
  | succ n ih =>
    obtain ⟨hwatermark, hlength, huntil⟩ := ih
    have hkept := @Kept.run narrow rfl (flood n)
    have hsupported := flood_supported hkept.consistent hwatermark
    have hincluded : includedKeys narrow.config.multiWindow (changeBy 7 0).1 [] ≠ [] := by
      decide +kernel
    have hcounted : countedAction (changeBy 7 0).1.action = true := rfl
    have happend : flood (n + 1) = flood n ++ [changeBy 7 0] := List.replicate_succ'
    rw [happend, MultiWindowScorer.run_concat]
    refine ⟨?_, ?_, ?_⟩
    · show ((MultiWindowScorer.run narrow (flood n)).1.evaluate narrow (changeBy 7 0).1 []).2.watermark = 0
      rw [evaluate_watermark hkept.consistent rfl, hwatermark]
      rfl
    · have haccept : (acceptance narrow (MultiWindowScorer.run narrow (flood n)).1 (changeBy 7 0).1
          []).toList.length = 1 := by
        unfold acceptance
        dsimp only
        rw [if_pos ⟨rfl, hsupported, hincluded, rfl⟩]
        rfl
      show (_ ++ (acceptance narrow (MultiWindowScorer.run narrow (flood n)).1 (changeBy 7 0).1
        []).toList).length = n + 1
      rw [List.length_append, hlength, haccept]
    · show ((MultiWindowScorer.run narrow (flood n)).1.evaluate narrow (changeBy 7 0).1
        []).2.incompleteUntil = none ∨ ((MultiWindowScorer.run narrow (flood n)).1.evaluate narrow
          (changeBy 7 0).1 []).2.incompleteUntil = some 1000
      rw [evaluate_supported rfl hsupported]
      obtain ⟨hadvanced, -, -, htime, hsame, -⟩ :=
        @advanced_spec narrow (MultiWindowScorer.run narrow (flood n)).1 (changeBy 7 0).1 hkept.consistent
      obtain ⟨-, -, -, htime', hloss⟩ :=
        hadvanced.inserted (includedKeys_nodup _ _) ⟨hincluded, hcounted⟩
      rcases hloss with hloss | ⟨hold, -⟩
      · right
        unfold Loss at hloss
        rw [htime', htime, hwatermark] at hloss
        exact hloss
      · rw [hsame] at hold
        rcases huntil with hnone | hsome
        · exact Or.inl (hold.trans hnone)
        · exact Or.inr (hold.trans hsome)

/-- When everything has expired, only the numbers are left. -/
theorem advanced_flood : (MultiWindowScorer.run narrow (flood u64Max)).1.advanced narrow
      (changeBy 7 2000).1 =
    spent (MultiWindowScorer.run narrow (flood u64Max)).1.incompleteUntil := by
  obtain ⟨hwatermark, hlength, -⟩ := run_flood u64Max
  have hkept := @Kept.run narrow rfl (flood u64Max)
  obtain ⟨hconsistent, hevents, hsequence, htime, huntil, -⟩ :=
    @advanced_spec narrow _ (changeBy 7 2000).1 hkept.consistent
  generalize (MultiWindowScorer.run narrow (flood u64Max)).1 = m at *
  have hempty : (m.advanced narrow (changeBy 7 2000).1).events = [] := by
    rw [hevents]
    refine @filter_eq_nil_of_past _ 0 _ (fun o ho => ?_) ?_
    · rw [← hwatermark]
      exact hkept.consistent.past o ho
    · rw [hwatermark]
      decide
  have hgroups : (m.advanced narrow (changeBy 7 2000).1).groups = ∅ := by
    refine AList.ext (List.eq_nil_iff_forall_not_mem.2 fun e he => ?_)
    have hmem : e.1 ∈ (m.advanced narrow (changeBy 7 2000).1).groups := List.mem_map_of_mem he
    refine hconsistent.live e.1 hmem ?_
    have hends := hconsistent.ends e.1
    rw [hempty] at hends
    exact List.suffix_nil.1 hends
  have hnumber : (m.advanced narrow (changeBy 7 2000).1).sequence = u64Max := by
    rw [hsequence, hkept.counter, hlength, Nat.min_self]
  have htime' : (m.advanced narrow (changeBy 7 2000).1).watermark = 2000 := by
    rw [htime, hwatermark]
    rfl
  generalize m.advanced narrow (changeBy 7 2000).1 = m' at *
  obtain ⟨events, groups, sequence, watermark, incompleteUntil⟩ := m'
  dsimp only at hempty hgroups hnumber htime' huntil
  subst hempty hgroups hnumber htime' huntil
  rfl

/-- An evaluation depends on what is left after the expiry alone. -/
theorem evaluate_congr {S : Setup} {m m' : MultiWindowScorer} {event : FileEvent}
    {adjustedRules : List String} (henabled : S.config.multiWindow.enabled = true)
    (h : m.advanced S event = m'.advanced S event) :
    m.evaluate S event adjustedRules = m'.evaluate S event adjustedRules ∧
    acceptance S m event adjustedRules = acceptance S m' event adjustedRules := by
  unfold MultiWindowScorer.evaluate acceptance
  rw [henabled, Bool.not_true, if_neg Bool.false_ne_true, if_neg Bool.false_ne_true, h]
  exact ⟨rfl, rfl⟩

/-- What was accepted before is not looked at. -/
theorem logged_append {S : Setup} (m : MultiWindowScorer) (log : List Observation)
    (offers : List Offer) : offers.foldl (MultiWindowScorer.logged S) (m, log) =
      ((offers.foldl (MultiWindowScorer.logged S) (m, [])).1,
        log ++ (offers.foldl (MultiWindowScorer.logged S) (m, [])).2) := by
  induction offers generalizing m log with
  | nil => simp
  | cons offer rest ih =>
    have hstep : ∀ log, MultiWindowScorer.logged S (m, log) offer =
        ((m.evaluate S offer.1 offer.2).2, log ++ (acceptance S m offer.1 offer.2).toList) :=
      fun _ => rfl
    rw [List.foldl_cons, List.foldl_cons, hstep, hstep, ih, ih _ ([] ++ _), List.nil_append,
      List.append_assoc]

theorem spent_advanced (last : Option Nat) :
    (spent last).advanced narrow (changeBy 7 2000).1 = spent last := by
  have htime : max (spent last).watermark (changeBy 7 2000).1.timestampMs = 2000 := Nat.max_self 2000
  unfold MultiWindowScorer.advanced
  rw [htime]
  rfl

/-- The run after the flood goes as one from a scorer whose numbers have saturated. -/
theorem run_aftermath (rest : List Offer) :
    MultiWindowScorer.run narrow (flood u64Max ++ changeBy 7 2000 :: rest) =
      (((changeBy 7 2000 :: rest).foldl (MultiWindowScorer.logged narrow)
          (spent (MultiWindowScorer.run narrow (flood u64Max)).1.incompleteUntil, [])).1,
        (MultiWindowScorer.run narrow (flood u64Max)).2 ++
        ((changeBy 7 2000 :: rest).foldl (MultiWindowScorer.logged narrow)
          (spent (MultiWindowScorer.run narrow (flood u64Max)).1.incompleteUntil, [])).2) := by
  have hadvanced : (MultiWindowScorer.run narrow (flood u64Max)).1.advanced narrow (changeBy 7 2000).1 =
      (spent (MultiWindowScorer.run narrow (flood u64Max)).1.incompleteUntil).advanced narrow
        (changeBy 7 2000).1 := advanced_flood.trans (spent_advanced _).symm
  obtain ⟨hevaluate, haccept⟩ := @evaluate_congr narrow _ _ _ [] rfl hadvanced
  unfold MultiWindowScorer.run at hevaluate haccept ⊢
  rw [List.foldl_append]
  generalize (flood u64Max).foldl (MultiWindowScorer.logged narrow) ({}, []) = state at *
  obtain ⟨m, log⟩ := state
  rw [logged_append, List.foldl_cons, List.foldl_cons]
  have hsame : MultiWindowScorer.logged narrow (m, []) (changeBy 7 2000) =
      MultiWindowScorer.logged narrow (spent m.incompleteUntil, []) (changeBy 7 2000) :=
    Prod.ext (congrArg Prod.snd hevaluate) (congrArg (fun a => [] ++ Option.toList a) haccept)
  rw [hsame]

/-- The observation that is lost. -/
def lostObservation : Observation :=
  ⟨u64Max, 2002, "/srv/a", 7, some (7, 1, "boot"), .modify, false, [.instance (7, 1, "boot")]⟩

/-- The last change finds a window that lacks an observation, and no loss is reported. -/
theorem aftermath_lost (last : Option Nat) (h : last = none ∨ last = some 1000) :
    let state := aftermath.foldl (MultiWindowScorer.logged narrow) (spent last, [])
    let after := MultiWindowScorer.logged narrow state (changeBy 7 3002)
    (state.1.evaluate narrow (changeBy 7 3002).1 []).1.truncated = false ∧
    lostObservation ∈ after.2 ∧ after.1.watermark = 3002 ∧
    lostObservation ∉ selected 3002 1000 (eventsIn after.1.groups (.instance (7, 1, "boot"))) := by
  rcases h with rfl | rfl
  · decide +kernel
  · decide +kernel

/-- After `2^64 - 1` accepted observations the promise is broken. -/
theorem not_aggregates_flooded :
    ¬ Aggregates narrow (flood u64Max ++ aftermath) (changeBy 7 3002) := by
  intro h
  obtain ⟨htruncated, hlogged, hwatermark, hlost⟩ := aftermath_lost _ (run_flood u64Max).2.2
  have hbefore := run_aftermath aftermath.tail
  have hafter := run_aftermath (aftermath.tail ++ [changeBy 7 3002])
  have htail : changeBy 7 2000 :: aftermath.tail = aftermath := rfl
  rw [← List.cons_append, htail, List.foldl_append, ← List.append_assoc] at hafter
  rw [htail] at hbefore
  have hwhole := h.whole
  rw [hafter, hbefore] at hwhole
  have heq := hwhole htruncated (.instance (7, 1, "boot")) (by decide +kernel)
    ⟨1, 1, 1, .finite 50⟩ (by decide)
  refine hlost ?_
  rw [← hwatermark]
  have hmem : lostObservation ∈ (joined (.instance (7, 1, "boot"))
      ((MultiWindowScorer.run narrow (flood u64Max)).2 ++ (MultiWindowScorer.logged narrow
        (aftermath.foldl (MultiWindowScorer.logged narrow)
          (spent (MultiWindowScorer.run narrow (flood u64Max)).1.incompleteUntil, []))
        (changeBy 7 3002)).2)).filter fun o => 3002 - millis 1 ≤ o.timestampMs :=
    List.mem_filter.2 ⟨List.mem_filter.2 ⟨List.mem_append_right _ hlogged, by decide⟩, by decide⟩
  rw [← hwatermark] at hmem
  exact heq.symm ▸ hmem

end Argos.Detect
