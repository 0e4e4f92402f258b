import Argos.Detect.MultiWindow

/-!
# The queue and the groups

An observation is kept in the queue of all events and in one queue for each of its groups. The queue
of a group is an end of what the queue of all events has for it (`Consistent`): only its front can be
missing, after the group was evicted. The parts of an evaluation keep that, one lemma for each
(`Consistent.expireFront`, `Consistent.advanced`, `Consistent.inserted`), and say what happens to the
queue of every group. A part that loses an event which has not expired marks the scorer.
-/

namespace Argos.Detect

open Argos.Common
open Argos.Lib
open Argos.Vault (saturatingAdd)

/-- The queue of a group. -/
def eventsIn (groups : Map Group GroupState) (group : Group) : List Observation :=
  ((groups.lookup group).map (·.events)).getD []

/-- The observations of a group. -/
def joined (group : Group) (events : List Observation) : List Observation :=
  events.filter fun o => group ∈ o.groups

/-- No group is kept without events. -/
def Live (groups : Map Group GroupState) : Prop := ∀ g ∈ groups, eventsIn groups g ≠ []

section Groups

variable {groups : Map Group GroupState} {g : Group} {events : List Observation} {old : Observation}

theorem joined_append (a b : List Observation) : joined g (a ++ b) = joined g a ++ joined g b :=
  List.filter_append _ _

theorem joined_cons_mem {o : Observation} (h : g ∈ o.groups) :
    joined g (o :: events) = o :: joined g events := by
  unfold joined
  rw [List.filter_cons, if_pos (decide_eq_true h)]

theorem joined_cons_notMem {o : Observation} (h : g ∉ o.groups) :
    joined g (o :: events) = joined g events := by
  unfold joined
  rw [List.filter_cons_of_neg (by simpa using h)]

theorem eventsIn_of_notMem (h : g ∉ groups) : eventsIn groups g = [] := by
  unfold eventsIn
  rw [AList.lookup_eq_none.2 h]
  rfl

theorem eventsIn_insert (state : GroupState) : eventsIn (groups.insert g state) g = state.events := by
  unfold eventsIn
  rw [AList.lookup_insert]
  rfl

theorem eventsIn_insert_ne {g' : Group} (h : g ≠ g') (state : GroupState) :
    eventsIn (groups.insert g' state) g = eventsIn groups g := by
  unfold eventsIn
  rw [AList.lookup_insert_ne h]

theorem eventsIn_erase : eventsIn (groups.erase g) g = [] := by
  unfold eventsIn
  rw [AList.lookup_erase]
  rfl

theorem eventsIn_erase_ne {g' : Group} (h : g ≠ g') :
    eventsIn (groups.erase g') g = eventsIn groups g := by
  unfold eventsIn
  rw [AList.lookup_erase_ne h]

theorem Live.erase {g' : Group} (h : Live groups) : Live (groups.erase g') := by
  intro g hg
  obtain ⟨hne, hmem⟩ := AList.mem_erase.1 hg
  rw [eventsIn_erase_ne hne]
  exact h g hmem

theorem Live.insert {g' : Group} {state : GroupState} (h : Live groups) (hstate : state.events ≠ []) :
    Live (groups.insert g' state) := by
  intro g hg
  by_cases heq : g = g'
  · rw [heq, eventsIn_insert]
    exact hstate
  · rw [eventsIn_insert_ne heq]
    exact h g (((AList.mem_insert _).1 hg).resolve_left heq)

/-! ## An event leaves its groups -/

/-- What an event leaves of the queue of one of its groups. -/
def leftOf (old : Observation) (events : List Observation) : List Observation :=
  if events.head?.any fun e => e.sequence = old.sequence then events.tail else events

/-- What is left of an empty queue. -/
theorem leftOf_nil : leftOf old [] = [] := rfl

theorem leaveGroup_none (h : groups.lookup g = none) :
    MultiWindowScorer.leaveGroup old groups g = groups := by
  unfold MultiWindowScorer.leaveGroup
  rw [h]

theorem leaveGroup_some {state : GroupState} (h : groups.lookup g = some state) :
    MultiWindowScorer.leaveGroup old groups g =
      if leftOf old state.events = [] then groups.erase g
      else groups.insert g { state with events := leftOf old state.events } := by
  unfold MultiWindowScorer.leaveGroup
  rw [h]
  rfl

theorem eventsIn_leaveGroup {g' : Group} : eventsIn (MultiWindowScorer.leaveGroup old groups g') g =
    if g = g' then leftOf old (eventsIn groups g) else eventsIn groups g := by
  rcases hstate : groups.lookup g' with _ | state
  · rw [leaveGroup_none hstate]
    split
    next heq =>
      rw [heq, eventsIn_of_notMem (AList.lookup_eq_none.1 hstate), leftOf_nil]
    next => rfl
  · have hevents : eventsIn groups g' = state.events := by
      unfold eventsIn
      rw [hstate]
      rfl
    rw [leaveGroup_some hstate]
    by_cases heq : g = g'
    · rw [if_pos heq, heq, hevents]
      split
      next hnil => rw [eventsIn_erase, hnil]
      next => rw [eventsIn_insert]
    · rw [if_neg heq]
      split
      · exact eventsIn_erase_ne heq
      · exact eventsIn_insert_ne heq _

theorem Live.leaveGroup {g' : Group} (h : Live groups) :
    Live (MultiWindowScorer.leaveGroup old groups g') := by
  rcases hstate : groups.lookup g' with _ | state
  · rw [leaveGroup_none hstate]
    exact h
  · rw [leaveGroup_some hstate]
    split
    · exact h.erase
    next hsome => exact h.insert hsome

theorem mem_leaveGroup {g' : Group} (h : g ∈ MultiWindowScorer.leaveGroup old groups g') :
    g ∈ groups := by
  rcases hstate : groups.lookup g' with _ | state
  · rwa [leaveGroup_none hstate] at h
  · rw [leaveGroup_some hstate] at h
    split at h
    · exact (AList.mem_erase.1 h).2
    · rcases (AList.mem_insert _).1 h with rfl | hmem
      · exact mem_iff_lookup.2 ⟨state, hstate⟩
      · exact hmem

/-- An event leaves some groups, one after the other. -/
theorem leaveGroups {leaving : List Group} (hnodup : leaving.Nodup) (hlive : Live groups) :
    (∀ g, eventsIn (leaving.foldl (MultiWindowScorer.leaveGroup old) groups) g =
      if g ∈ leaving then leftOf old (eventsIn groups g) else eventsIn groups g) ∧
    Live (leaving.foldl (MultiWindowScorer.leaveGroup old) groups) ∧
    ∀ g ∈ leaving.foldl (MultiWindowScorer.leaveGroup old) groups, g ∈ groups := by
  induction leaving generalizing groups with
  | nil => exact ⟨fun g => by simp, hlive, fun g hg => hg⟩
  | cons first rest ih =>
    obtain ⟨hfirst, hrest⟩ := List.nodup_cons.1 hnodup
    obtain ⟨hevents, hlive', hmem⟩ := ih hrest (@Live.leaveGroup _ old first hlive)
    refine ⟨fun g => ?_, hlive', fun g hg => mem_leaveGroup (hmem g hg)⟩
    rw [List.foldl_cons, hevents g, eventsIn_leaveGroup]
    by_cases heq : g = first
    · subst heq
      rw [if_neg hfirst, if_pos rfl, if_pos List.mem_cons_self]
    · rw [if_neg heq]
      simp only [List.mem_cons, heq, false_or]

end Groups

/-! ## The two levels -/

/-- The queues of the groups are ends of the queue of all events, within their bounds, and the
observations are numbered in their order. -/
structure Consistent (S : Setup) (m : MultiWindowScorer) : Prop where
  live : Live m.groups
  ends : ∀ g, eventsIn m.groups g <:+ joined g m.events
  sorted : m.events.Pairwise fun a b => a.timestampMs ≤ b.timestampMs
  numbered : m.events.Pairwise fun a b => a.sequence ≤ b.sequence
  counted : ∀ o ∈ m.events, o.sequence ≤ m.sequence
  counter : m.sequence ≤ u64Max
  past : ∀ o ∈ m.events, o.timestampMs ≤ m.watermark
  nodup : ∀ o ∈ m.events, o.groups.Nodup
  fewEvents : m.events.length ≤ maxEvents S
  fewGroups : m.groups.entries.length ≤ maxGroups S

/-- An event that has gone from the queue of a group is not taken for the front of what is left. -/
def Sharp (m : MultiWindowScorer) : Prop :=
  ∀ g gone, joined g m.events = gone ++ eventsIn m.groups g → ∀ o ∈ gone,
    ∀ e ∈ eventsIn m.groups g, o.sequence ≠ e.sequence

section Consistent

variable {S : Setup} {m : MultiWindowScorer} {old : Observation} {rest : List Observation} {g : Group}

theorem Consistent.initial : Consistent S {} where
  live := fun g hg => absurd hg (AList.notMem_empty g)
  ends := fun _ => List.nil_suffix
  sorted := List.Pairwise.nil
  numbered := List.Pairwise.nil
  counted := fun _ h => by cases h
  counter := Nat.zero_le _
  past := fun _ h => by cases h
  nodup := fun _ h => by cases h
  fewEvents := Nat.zero_le _
  fewGroups := Nat.zero_le _

/-- Distinct numbers are told apart. -/
theorem sharp_of_distinct (h : m.events.Pairwise fun a b => a.sequence < b.sequence) : Sharp m := by
  intro g gone heq o ho e he hsame
  have hjoined : (joined g m.events).Pairwise fun a b => a.sequence < b.sequence :=
    h.sublist List.filter_sublist
  rw [heq] at hjoined
  have := (List.pairwise_append.1 hjoined).2.2 o ho e he
  omega

/-- A queue from which nothing is missing is told apart as well. -/
theorem sharp_of_full (h : ∀ g, eventsIn m.groups g = joined g m.events) : Sharp m := by
  intro g gone heq o ho
  rw [h g] at heq
  have hgone : gone = [] := List.append_left_eq_self.1 heq.symm
  rw [hgone] at ho
  cases ho

/-- What an event leaves of an end of the queue of its group. -/
theorem leftOf_suffix {events : List Observation} (h : events <:+ old :: rest) :
    leftOf old events <:+ rest := by
  rcases List.suffix_cons_iff.1 h with rfl | hsuffix
  · have hself : decide (old.sequence = old.sequence) = true := decide_eq_true rfl
    unfold leftOf
    rw [List.head?_cons, Option.any_some, hself]
    exact List.suffix_refl _
  · unfold leftOf
    split
    · exact (List.tail_suffix _).trans hsuffix
    · exact hsuffix

theorem expireFront_events (h : m.events = old :: rest) : m.expireFront.events = rest := by
  unfold MultiWindowScorer.expireFront
  rw [h]

theorem expireFront_groups (h : m.events = old :: rest) :
    m.expireFront.groups = old.groups.foldl (MultiWindowScorer.leaveGroup old) m.groups := by
  unfold MultiWindowScorer.expireFront
  rw [h]

/-- The settings of the scorer do not change when an event expires. -/
theorem expireFront_frame : m.expireFront.sequence = m.sequence ∧
    m.expireFront.watermark = m.watermark ∧ m.expireFront.incompleteUntil = m.incompleteUntil := by
  unfold MultiWindowScorer.expireFront
  split <;> exact ⟨rfl, rfl, rfl⟩

theorem Consistent.eventsIn_expireFront (h : Consistent S m) (hm : m.events = old :: rest) (g : Group) :
    eventsIn m.expireFront.groups g =
      if g ∈ old.groups then leftOf old (eventsIn m.groups g) else eventsIn m.groups g := by
  have hnodup : old.groups.Nodup := h.nodup old (by rw [hm]; exact List.mem_cons_self)
  rw [expireFront_groups hm]
  exact (leaveGroups hnodup h.live).1 g

theorem Consistent.expireFront (h : Consistent S m) : Consistent S m.expireFront := by
  rcases hm : m.events with _ | ⟨old, rest⟩
  · unfold MultiWindowScorer.expireFront
    rw [hm]
    exact h
  · obtain ⟨hsequence, hwatermark, -⟩ := @expireFront_frame m
    have hnodup : old.groups.Nodup := h.nodup old (by rw [hm]; exact List.mem_cons_self)
    obtain ⟨-, hlive, hkeys⟩ := @leaveGroups m.groups old _ hnodup h.live
    have hmem : ∀ o ∈ m.expireFront.events, o ∈ m.events := by
      intro o ho
      rw [expireFront_events hm] at ho
      rw [hm]
      exact List.mem_cons_of_mem _ ho
    have hsub : m.expireFront.events.Sublist m.events := by
      rw [expireFront_events hm, hm]
      exact List.sublist_cons_self _ _
    refine ⟨?_, fun g => ?_, h.sorted.sublist hsub, h.numbered.sublist hsub, ?_, ?_, ?_, ?_, ?_,
      ?_⟩
    · rw [expireFront_groups hm]
      exact hlive
    · rw [h.eventsIn_expireFront hm, expireFront_events hm]
      have hend := h.ends g
      rw [hm] at hend
      split
      next hin =>
        rw [joined_cons_mem hin] at hend
        exact leftOf_suffix hend
      next hout => rwa [joined_cons_notMem hout] at hend
    · intro o ho
      rw [hsequence]
      exact h.counted o (hmem o ho)
    · rw [hsequence]
      exact h.counter
    · intro o ho
      rw [hwatermark]
      exact h.past o (hmem o ho)
    · exact fun o ho => h.nodup o (hmem o ho)
    · exact hsub.length_le.trans h.fewEvents
    · rw [expireFront_groups hm]
      exact (length_le_of_keys hkeys).trans h.fewGroups

/-- When an event expires, the queue of a group loses that event or nothing. -/
theorem Consistent.expired_eq (h : Consistent S m) (hsharp : Sharp m) (hm : m.events = old :: rest)
    (g : Group) : eventsIn m.groups g = joined g m.events ∧
      eventsIn m.expireFront.groups g = joined g rest ∨
    eventsIn m.expireFront.groups g = eventsIn m.groups g := by
  rw [h.eventsIn_expireFront hm]
  split
  next hin =>
    have hend := h.ends g
    obtain ⟨gone, hgone⟩ := hend
    rw [hm, joined_cons_mem hin] at hgone ⊢
    rcases gone with _ | ⟨first, gone⟩
    · left
      rw [List.nil_append] at hgone
      have hself : decide (old.sequence = old.sequence) = true := decide_eq_true rfl
      refine ⟨hgone, ?_⟩
      unfold leftOf
      rw [hgone, List.head?_cons, Option.any_some, hself]
      rfl
    · right
      obtain ⟨rfl, htail⟩ := List.cons.inj hgone
      -- The front of the queue is a later event, with another number.
      have hother : (eventsIn m.groups g).head?.any (fun e => e.sequence = first.sequence) = false := by
        rcases hhead : (eventsIn m.groups g).head? with _ | e
        · rfl
        · have hne := hsharp g (first :: gone) (by
            rw [hm, joined_cons_mem hin]
            exact hgone.symm) first List.mem_cons_self e (List.mem_of_head? hhead)
          rw [Option.any_some, decide_eq_false_iff_not]
          exact fun hsame => hne hsame.symm
      unfold leftOf
      rw [hother]
      rfl
  next => exact Or.inr rfl

/-- Nothing is missing from the queue of any group. -/
def Full (m : MultiWindowScorer) : Prop := ∀ g, eventsIn m.groups g = joined g m.events

/-- Nothing is missing from a horizon on. -/
def FullFrom (horizon : Nat) (m : MultiWindowScorer) : Prop :=
  ∀ g, (eventsIn m.groups g).filter (fun o => horizon ≤ o.timestampMs) =
    (joined g m.events).filter fun o => horizon ≤ o.timestampMs

theorem Consistent.full_expireFront (h : Consistent S m) (hfull : Full m) : Full m.expireFront := by
  intro g
  rcases hm : m.events with _ | ⟨old, rest⟩
  · unfold MultiWindowScorer.expireFront
    rw [hm]
    exact hfull g
  · rw [h.eventsIn_expireFront hm, expireFront_events hm, hfull g, hm]
    split
    next hin =>
      have hself : decide (old.sequence = old.sequence) = true := decide_eq_true rfl
      rw [joined_cons_mem hin]
      unfold leftOf
      rw [List.head?_cons, Option.any_some, hself]
      rfl
    next hout => rw [joined_cons_notMem hout]

/-- An event before the horizon is not missed. -/
theorem Consistent.fullFrom_expireFront {horizon : Nat} (h : Consistent S m) (hsharp : Sharp m)
    (hm : m.events = old :: rest) (hold : old.timestampMs < horizon) (hfull : FullFrom horizon m) :
    FullFrom horizon m.expireFront := by
  intro g
  rw [expireFront_events hm]
  rcases h.expired_eq hsharp hm g with ⟨-, heq⟩ | hsame
  · rw [heq]
  · have hfilter : (joined g m.events).filter (fun o => horizon ≤ o.timestampMs) =
        (joined g rest).filter fun o => horizon ≤ o.timestampMs := by
      rw [hm]
      by_cases hin : g ∈ old.groups
      · have hno : ¬ horizon ≤ old.timestampMs := by omega
        rw [joined_cons_mem hin, List.filter_cons, if_neg (by simpa using hold)]
      · rw [joined_cons_notMem hin]
    rw [hsame, hfull g, hfilter]

/-- Numbers that are all different. -/
def Distinct (m : MultiWindowScorer) : Prop := m.events.Pairwise fun a b => a.sequence < b.sequence

theorem Distinct.expireFront (h : Distinct m) : Distinct m.expireFront := by
  unfold Distinct
  rcases hm : m.events with _ | ⟨old, rest⟩
  · unfold MultiWindowScorer.expireFront
    rw [hm]
    exact h
  · unfold Distinct at h
    rw [hm] at h
    rw [expireFront_events hm]
    exact (List.pairwise_cons.1 h).2

/-- What the expiry up to a horizon leaves. -/
theorem Consistent.expireBefore {horizon n : Nat} (h : Consistent S m) (hn : m.events.length ≤ n) :
    Consistent S (MultiWindowScorer.expireBefore horizon n m) ∧
    (MultiWindowScorer.expireBefore horizon n m).events =
      m.events.filter (fun o => horizon ≤ o.timestampMs) ∧
    (MultiWindowScorer.expireBefore horizon n m).sequence = m.sequence ∧
    (MultiWindowScorer.expireBefore horizon n m).watermark = m.watermark ∧
    (MultiWindowScorer.expireBefore horizon n m).incompleteUntil = m.incompleteUntil ∧
    (Full m → Full (MultiWindowScorer.expireBefore horizon n m)) ∧
    ∀ later, horizon ≤ later → Distinct m → FullFrom later m →
      FullFrom later (MultiWindowScorer.expireBefore horizon n m) := by
  induction n generalizing m with
  | zero =>
    have hm : m.events = [] := List.eq_nil_of_length_eq_zero (by omega)
    refine ⟨h, ?_, rfl, rfl, rfl, id, fun _ _ _ => id⟩
    show m.events = _
    rw [hm]
    rfl
  | succ n ih =>
    unfold MultiWindowScorer.expireBefore
    split
    next hfront =>
      rcases hm : m.events with _ | ⟨old, rest⟩
      · rw [hm] at hfront
        cases hfront
      · rw [hm, List.head?_cons, Option.any_some, decide_eq_true_eq] at hfront
        have hrest : m.expireFront.events.length ≤ n := by
          rw [hm, List.length_cons] at hn
          rw [expireFront_events hm]
          omega
        obtain ⟨hconsistent, hevents, hsequence, hwatermark, huntil, hfull, hfrom⟩ :=
          ih h.expireFront hrest
        obtain ⟨hs, hw, hu⟩ := @expireFront_frame m
        refine ⟨hconsistent, ?_, hsequence.trans hs, hwatermark.trans hw, huntil.trans hu,
          fun hm' => hfull (h.full_expireFront hm'), fun later hlater hdistinct hlaterFull => ?_⟩
        · rw [hevents, expireFront_events hm, List.filter_cons, if_neg (by simpa using hfront)]
        · have hexpired : FullFrom later m.expireFront :=
            h.fullFrom_expireFront (sharp_of_distinct hdistinct) hm (by omega) hlaterFull
          exact hfrom later hlater hdistinct.expireFront hexpired
    next hfront =>
      -- The first event has not expired, and the others are not older.
      refine ⟨h, ?_, rfl, rfl, rfl, id, fun _ _ _ => id⟩
      rw [List.filter_eq_self.2]
      intro o ho
      rcases hm : m.events with _ | ⟨first, rest⟩
      · rw [hm] at ho
        cases ho
      · have hsorted := h.sorted
        rw [hm] at hfront hsorted ho
        rw [List.head?_cons, Option.any_some, decide_eq_true_eq] at hfront
        rw [decide_eq_true_eq]
        rcases List.mem_cons.1 ho with rfl | ho
        · omega
        · have := (List.pairwise_cons.1 hsorted).1 o ho
          omega

/-- The scorer as it is at a later time. -/
theorem Consistent.at_time {now : Nat} (h : Consistent S m) (hnow : m.watermark ≤ now) :
    Consistent S { m with watermark := now } :=
  ⟨h.live, h.ends, h.sorted, h.numbered, h.counted, h.counter, fun o ho => (h.past o ho).trans hnow,
    h.nodup, h.fewEvents, h.fewGroups⟩

end Consistent

/-! ## An event joins its groups -/

/-- Evidence was lost at the time of the watermark. -/
def Loss (S : Setup) (m : MultiWindowScorer) : Prop :=
  m.incompleteUntil = some (saturatingAdd m.watermark (horizonMs S))

/-- The queues of the groups while an event joins them: it has joined those in `done`. -/
structure Joining (S : Setup) (entry : Observation) (done : List Group) (m : MultiWindowScorer) :
    Prop where
  live : Live m.groups
  ends : ∀ g, eventsIn m.groups g <:+ joined g m.events ++ if g ∈ done then [entry] else []
  fewGroups : m.groups.entries.length ≤ maxGroups S

section Joining

variable {S : Setup} {m : MultiWindowScorer} {entry : Observation} {done : List Group} {g : Group}

/-- Room is made for a group, at the cost of the oldest one if there is none. -/
theorem Joining.makeGroup (h : Joining S entry done m) :
    Joining S entry done (m.makeGroup S g) ∧
    (g ∉ (m.makeGroup S g).groups → (m.makeGroup S g).groups.entries.length < maxGroups S) ∧
    (m.makeGroup S g).events = m.events ∧ (m.makeGroup S g).sequence = m.sequence ∧
    (m.makeGroup S g).watermark = m.watermark ∧
    (Loss S (m.makeGroup S g) ∨ m.makeGroup S g = m) := by
  unfold MultiWindowScorer.makeGroup
  split
  next hfull =>
    have hpos : 0 < maxGroups S := by
      unfold maxGroups
      omega
    obtain ⟨oldest, holdest⟩ := exists_leastKey (fun group (state : GroupState) =>
      toLex ((state.events.getLast?.map (·.timestampMs)).getD 0, group.rank)) (hpos.trans_le hfull.2)
    have hsome : m.oldestGroup = some oldest := holdest
    have hlength := length_erase_of_mem (leastKey_mem holdest)
    rw [hsome, Option.elim_some]
    refine ⟨⟨h.live.erase, fun g' => ?_, ?_⟩, fun _ => ?_, rfl, rfl, rfl, Or.inl rfl⟩
    · show eventsIn (m.groups.erase oldest) g' <:+ _
      by_cases heq : g' = oldest
      · rw [heq, eventsIn_erase]
        exact List.nil_suffix
      · rw [eventsIn_erase_ne heq]
        exact h.ends g'
    · have := h.fewGroups
      show (m.groups.erase oldest).entries.length ≤ _
      omega
    · have := h.fewGroups
      show (m.groups.erase oldest).entries.length < _
      omega
  next hroom =>
    refine ⟨h, fun hnew => ?_, rfl, rfl, rfl, Or.inr rfl⟩
    by_contra hfull
    exact hroom ⟨hnew, by omega⟩

theorem joinGroup_groups : (m.joinGroup S entry g).groups = (m.makeGroup S g).groups.insert g
    { ((m.makeGroup S g).groups.lookup g).getD {} with
      events := (((m.makeGroup S g).groups.lookup g).getD {}).events ++ [entry] } := rfl

theorem getD_events {groups : Map Group GroupState} :
    ((groups.lookup g).getD {}).events = eventsIn groups g := by
  unfold eventsIn
  rcases groups.lookup g with _ | state
  · rfl
  · rfl

/-- An event joins one group. -/
theorem Joining.joinGroup (h : Joining S entry done m) (hnew : g ∉ done) :
    Joining S entry (g :: done) (m.joinGroup S entry g) ∧
    (m.joinGroup S entry g).events = m.events ∧ (m.joinGroup S entry g).sequence = m.sequence ∧
    (m.joinGroup S entry g).watermark = m.watermark ∧
    (Loss S (m.joinGroup S entry g) ∨
      (m.joinGroup S entry g).incompleteUntil = m.incompleteUntil ∧
      ∀ g', eventsIn (m.joinGroup S entry g).groups g' =
        eventsIn m.groups g' ++ if g' = g then [entry] else []) := by
  obtain ⟨hroom, hfew, hevents, hsequence, hwatermark, hloss⟩ := @Joining.makeGroup S m entry done g h
  have hjoined : ∀ g', eventsIn (m.joinGroup S entry g).groups g' =
      eventsIn (m.makeGroup S g).groups g' ++ if g' = g then [entry] else [] := by
    intro g'
    rw [joinGroup_groups]
    by_cases heq : g' = g
    · rw [if_pos heq, heq, eventsIn_insert, getD_events]
    · rw [if_neg heq, List.append_nil, eventsIn_insert_ne heq]
  refine ⟨⟨?_, fun g' => ?_, ?_⟩, hevents, hsequence, hwatermark, ?_⟩
  · rw [joinGroup_groups]
    exact hroom.live.insert (List.append_ne_nil_of_right_ne_nil _ (List.cons_ne_nil _ _))
  · have hend := hroom.ends g'
    show _ <:+ joined g' (m.makeGroup S g).events ++ _
    rw [hjoined g']
    by_cases heq : g' = g
    · subst heq
      rw [if_neg hnew, List.append_nil] at hend
      obtain ⟨gone, hgone⟩ := hend
      rw [if_pos rfl, if_pos List.mem_cons_self, ← hgone]
      exact ⟨gone, by rw [List.append_assoc]⟩
    · rw [if_neg heq, List.append_nil]
      simpa only [List.mem_cons, heq, false_or] using hend
  · rw [joinGroup_groups]
    by_cases hmem : g ∈ (m.makeGroup S g).groups
    · rw [length_insert_of_mem hmem]
      exact hroom.fewGroups
    · have := hfew hmem
      rw [AList.entries_insert_of_notMem hmem, List.length_cons]
      omega
  · rcases hloss with hloss | hsame
    · exact Or.inl hloss
    · right
      refine ⟨?_, fun g' => ?_⟩
      · show (m.makeGroup S g).incompleteUntil = _
        rw [hsame]
      · rw [hjoined g', hsame]

/-- An event joins some groups, one after the other. -/
theorem Joining.joinGroups {joining : List Group} (h : Joining S entry done m)
    (hnodup : joining.Nodup) (hnew : ∀ g ∈ joining, g ∉ done) :
    Joining S entry (joining.reverse ++ done)
      (joining.foldl (MultiWindowScorer.joinGroup S entry) m) ∧
    (joining.foldl (MultiWindowScorer.joinGroup S entry) m).events = m.events ∧
    (joining.foldl (MultiWindowScorer.joinGroup S entry) m).sequence = m.sequence ∧
    (joining.foldl (MultiWindowScorer.joinGroup S entry) m).watermark = m.watermark ∧
    (Loss S (joining.foldl (MultiWindowScorer.joinGroup S entry) m) ∨
      (joining.foldl (MultiWindowScorer.joinGroup S entry) m).incompleteUntil = m.incompleteUntil ∧
      ∀ g', eventsIn (joining.foldl (MultiWindowScorer.joinGroup S entry) m).groups g' =
        eventsIn m.groups g' ++ if g' ∈ joining then [entry] else []) := by
  induction joining generalizing m done with
  | nil => exact ⟨h, rfl, rfl, rfl, Or.inr ⟨rfl, fun g' => by simp⟩⟩
  | cons first rest ih =>
    obtain ⟨hfirst, hrest⟩ := List.nodup_cons.1 hnodup
    obtain ⟨hjoining, hevents, hsequence, hwatermark, hloss⟩ := h.joinGroup (hnew first List.mem_cons_self)
    obtain ⟨hjoining', hevents', hsequence', hwatermark', hloss'⟩ := ih hjoining hrest (by
      intro g hg hdone
      rcases List.mem_cons.1 hdone with rfl | hdone
      · exact hfirst hg
      · exact hnew g (List.mem_cons_of_mem _ hg) hdone)
    rw [List.foldl_cons]
    refine ⟨?_, hevents'.trans hevents, hsequence'.trans hsequence, hwatermark'.trans hwatermark, ?_⟩
    · rw [List.reverse_cons, List.append_assoc]
      exact hjoining'
    · rcases hloss' with hloss' | ⟨huntil', hqueues'⟩
      · exact Or.inl hloss'
      · rcases hloss with hloss | ⟨huntil, hqueues⟩
        · left
          unfold Loss
          rw [huntil', hwatermark', hloss]
        · right
          refine ⟨huntil'.trans huntil, fun g' => ?_⟩
          rw [hqueues' g', hqueues g', List.append_assoc]
          by_cases heq : g' = first
          · rw [if_pos heq, heq, if_neg hfirst, if_pos List.mem_cons_self]
            rfl
          · simp only [heq, if_false, List.nil_append, List.mem_cons, false_or]

end Joining

/-! ## An event is kept -/

section Insertion

variable {S : Setup} {m : MultiWindowScorer} {event : FileEvent} {included : List Group}

theorem Consistent.expireFronts (h : Consistent S m) (n : Nat) :
    Consistent S (MultiWindowScorer.expireFront^[n] m) ∧
    (MultiWindowScorer.expireFront^[n] m).events = m.events.drop n ∧
    (MultiWindowScorer.expireFront^[n] m).sequence = m.sequence ∧
    (MultiWindowScorer.expireFront^[n] m).watermark = m.watermark ∧
    (MultiWindowScorer.expireFront^[n] m).incompleteUntil = m.incompleteUntil := by
  induction n generalizing m with
  | zero => exact ⟨h, rfl, rfl, rfl, rfl⟩
  | succ n ih =>
    obtain ⟨hs, hw, hu⟩ := @expireFront_frame m
    obtain ⟨hconsistent, hevents, hsequence, hwatermark, huntil⟩ := ih h.expireFront
    rw [Function.iterate_succ_apply]
    refine ⟨hconsistent, ?_, hsequence.trans hs, hwatermark.trans hw, huntil.trans hu⟩
    rw [hevents]
    rcases hm : m.events with _ | ⟨old, rest⟩
    · unfold MultiWindowScorer.expireFront
      rw [hm, hm, List.drop_nil, List.drop_nil]
    · rw [expireFront_events hm, List.drop_succ_cons]

/-- Room is made for an event, at the cost of the oldest ones if there is none. -/
theorem Consistent.makeRoom (h : Consistent S m) : Consistent S (m.makeRoom S) ∧
    (m.makeRoom S).events.length < maxEvents S ∧ (m.makeRoom S).events <:+ m.events ∧
    (m.makeRoom S).sequence = m.sequence ∧ (m.makeRoom S).watermark = m.watermark ∧
    (Loss S (m.makeRoom S) ∨ m.makeRoom S = m) := by
  unfold MultiWindowScorer.makeRoom
  split
  next hfull =>
    have htruncated : Consistent S (m.truncate S m.watermark) :=
      ⟨h.live, h.ends, h.sorted, h.numbered, h.counted, h.counter, h.past, h.nodup, h.fewEvents,
        h.fewGroups⟩
    obtain ⟨hconsistent, hevents, hsequence, hwatermark, huntil⟩ :=
      htruncated.expireFronts (m.events.length + 1 - maxEvents S)
    have hpos : 0 < maxEvents S := by
      unfold maxEvents
      omega
    refine ⟨hconsistent, ?_, ?_, hsequence, hwatermark, Or.inl ?_⟩
    · rw [hevents, List.length_drop]
      show m.events.length - _ < _
      omega
    · rw [hevents]
      exact List.drop_suffix _ _
    · unfold Loss
      rw [huntil, hwatermark]
      rfl
  next hroom => exact ⟨h, by omega, List.suffix_refl _, rfl, rfl, Or.inr rfl⟩

theorem observation_makeRoom (h : Consistent S m) :
    (m.makeRoom S).observation S event included = m.observation S event included := by
  obtain ⟨-, -, -, hsequence, hwatermark, -⟩ := h.makeRoom
  unfold MultiWindowScorer.observation
  rw [hsequence, hwatermark]

/-- The observation of an event has a number above all before it. -/
theorem Consistent.observation_sequence (h : Consistent S m) :
    m.sequence ≤ (m.observation S event included).sequence ∧
    (m.observation S event included).sequence ≤ u64Max := by
  have := h.counter
  show m.sequence ≤ saturatingAdd m.sequence 1 ∧ saturatingAdd m.sequence 1 ≤ u64Max
  unfold saturatingAdd Vault.u64Max
  unfold u64Max at this ⊢
  omega

/-- An event is kept: it is the last of all queues it belongs to, and what was lost is marked. -/
theorem Consistent.inserted (h : Consistent S m) (hnodup : included.Nodup)
    (haccept : included ≠ [] ∧ countedAction event.action) :
    Consistent S (m.inserted S event included) ∧
    (∃ kept, kept <:+ m.events ∧
      (m.inserted S event included).events = kept ++ [m.observation S event included]) ∧
    (m.inserted S event included).sequence = (m.observation S event included).sequence ∧
    (m.inserted S event included).watermark = m.watermark ∧
    (Loss S (m.inserted S event included) ∨
      (m.inserted S event included).incompleteUntil = m.incompleteUntil ∧
      (m.inserted S event included).events = m.events ++ [m.observation S event included] ∧
      ∀ g, eventsIn (m.inserted S event included).groups g = eventsIn m.groups g ++
        if g ∈ included then [m.observation S event included] else []) := by
  obtain ⟨hroom, hfew, hsuffix, hsequence, hwatermark, hloss⟩ := h.makeRoom
  obtain ⟨hle, hmax⟩ := @Consistent.observation_sequence S m event included h
  have hjoining : Joining S (m.observation S event included) []
      { m.makeRoom S with sequence := (m.observation S event included).sequence } := by
    refine ⟨hroom.live, fun g => ?_, hroom.fewGroups⟩
    rw [if_neg List.not_mem_nil, List.append_nil]
    exact hroom.ends g
  obtain ⟨hjoined, hevents, hsequence', hwatermark', hloss'⟩ :=
    hjoining.joinGroups hnodup fun g _ => List.not_mem_nil
  have heq : m.inserted S event included =
      { included.foldl (MultiWindowScorer.joinGroup S (m.observation S event included))
          { m.makeRoom S with sequence := (m.observation S event included).sequence } with
        events := (m.makeRoom S).events ++ [m.observation S event included] } := by
    rw [← hevents]
    unfold MultiWindowScorer.inserted
    rw [if_pos haccept]
    dsimp only
    rw [observation_makeRoom h]
  have hlast : ∀ o ∈ (m.makeRoom S).events ++ [m.observation S event included],
      o ∈ (m.makeRoom S).events ∨ o = m.observation S event included := by
    intro o ho
    rcases List.mem_append.1 ho with ho | ho
    · exact Or.inl ho
    · exact Or.inr (List.mem_singleton.1 ho)
  rw [heq]
  refine ⟨⟨hjoined.live, fun g => ?_, ?_, ?_, fun o ho => ?_, ?_, fun o ho => ?_, fun o ho => ?_, ?_,
    hjoined.fewGroups⟩, ⟨_, hsuffix, rfl⟩, hsequence', hwatermark'.trans hwatermark, ?_⟩
  · have hend := hjoined.ends g
    rw [hevents] at hend
    have hmem : g ∈ included.reverse ++ [] ↔ g ∈ included := by simp
    show _ <:+ joined g ((m.makeRoom S).events ++ [m.observation S event included])
    rw [joined_append]
    by_cases hin : g ∈ included
    · rw [if_pos (hmem.2 hin)] at hend
      rw [joined_cons_mem (show g ∈ (m.observation S event included).groups from hin)]
      exact hend
    · rw [if_neg fun hmem' => hin (hmem.1 hmem')] at hend
      rw [joined_cons_notMem (show g ∉ (m.observation S event included).groups from hin)]
      exact hend
  · refine List.pairwise_append.2 ⟨hroom.sorted, List.pairwise_singleton _ _, fun o ho e he => ?_⟩
    rw [List.mem_singleton.1 he]
    exact (hroom.past o ho).trans hwatermark.le
  · refine List.pairwise_append.2 ⟨hroom.numbered, List.pairwise_singleton _ _, fun o ho e he => ?_⟩
    rw [List.mem_singleton.1 he]
    exact ((hroom.counted o ho).trans hsequence.le).trans hle
  · show o.sequence ≤ (included.foldl _ _ : MultiWindowScorer).sequence
    rw [hsequence']
    rcases hlast o ho with ho | rfl
    · exact ((hroom.counted o ho).trans hsequence.le).trans hle
    · exact le_rfl
  · show (included.foldl _ _ : MultiWindowScorer).sequence ≤ u64Max
    rw [hsequence']
    exact hmax
  · show o.timestampMs ≤ (included.foldl _ _ : MultiWindowScorer).watermark
    rw [hwatermark']
    rcases hlast o ho with ho | rfl
    · exact hroom.past o ho
    · exact hwatermark.ge
  · rcases hlast o ho with ho | rfl
    · exact hroom.nodup o ho
    · exact hnodup
  · show ((m.makeRoom S).events ++ [m.observation S event included]).length ≤ _
    rw [List.length_append, List.length_singleton]
    omega
  · rcases hloss' with hloss' | ⟨huntil, hqueues⟩
    · exact Or.inl hloss'
    · rcases hloss with hloss | hsame
      · left
        unfold Loss at hloss ⊢
        show (included.foldl _ _ : MultiWindowScorer).incompleteUntil =
          some (saturatingAdd (included.foldl _ _ : MultiWindowScorer).watermark _)
        rw [huntil, hwatermark']
        exact hloss
      · right
        rw [hsame] at huntil hqueues ⊢
        exact ⟨huntil, rfl, hqueues⟩

end Insertion

end Argos.Detect
