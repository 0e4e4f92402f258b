import Mathlib.Logic.Relation

/-!
# Programs whose durable steps may be cut

A program works on a state of type `σ`, may return an error of type `ε`, and changes what survives a
crash only in its *durable steps*. A `Plan` says, for each durable step ahead, whether it goes well,
is refused, is stored but reported as failed, or is never reached because the process is killed. A
program is run against every plan, so that a property proved of all its runs holds at every point at
which it can stop.

`Prog.Sat p s Q E K` is the triple of this little language: from the state `s`, under every plan, a
run of `p` that returns ends in `Q`, one that ends with an error ends in `E`, and one that is killed
ends in `K`. The rules below give the triple of a program from those of its parts. `Prog.Calm` is the
triple of the one run in which no durable step goes wrong, and with it a program is shown to return.
-/

namespace Argos.Lib

/-- How a durable step goes wrong. -/
inductive Fault where
  /-- The process is killed before the step. -/
  | kill
  /-- The step fails and nothing of it is stored. -/
  | refuse
  /-- The step is stored, but reported as failed. -/
  | misreport
deriving DecidableEq, Repr

/-- The fate of the durable steps ahead, in order; after the last entry every step goes well. -/
abbrev Plan := List (Option Fault)

/-- The result of a run: a value, an error, or no result because the process was killed. -/
inductive Outcome (ε α : Type) where
  /-- The program returned a value. -/
  | ok (a : α)
  /-- The program returned an error. -/
  | error (e : ε)
  /-- The process was killed before the program returned. -/
  | killed
deriving DecidableEq, Repr

/-- Whether a value was returned. -/
def Outcome.isOk {ε α : Type} : Outcome ε α → Bool
  | .ok _ => true
  | _ => false

theorem Outcome.isOk_iff {ε α : Type} {o : Outcome ε α} : o.isOk = true ↔ ∃ a, o = .ok a := by
  cases o <;> simp [Outcome.isOk]

/-- A program over the state `σ`, with errors in `ε`, as the function that runs it: from a plan and a
state to an outcome, the rest of the plan, and the state in which it stopped. -/
def Prog (σ ε α : Type) := Plan → σ → Outcome ε α × Plan × σ

namespace Prog

variable {σ ε α β : Type}

/-- The program that returns `a` and does nothing. -/
protected def pure (a : α) : Prog σ ε α := fun plan s => (.ok a, plan, s)

/-- Sequential composition: an error or a kill of the first program ends the whole. -/
protected def bind (x : Prog σ ε α) (f : α → Prog σ ε β) : Prog σ ε β := fun plan s =>
  match x plan s with
  | (.ok a, plan', s') => f a plan' s'
  | (.error e, plan', s') => (.error e, plan', s')
  | (.killed, plan', s') => (.killed, plan', s')

instance : Monad (Prog σ ε) where
  pure := Prog.pure
  bind := Prog.bind

/-- The program that returns the error `e`. -/
def fail (e : ε) : Prog σ ε α := fun plan s => (.error e, plan, s)

/-- Reads the state. -/
def gets (g : σ → α) : Prog σ ε α := fun plan s => (.ok (g s), plan, s)

/-- A query of the state that may be refused. -/
def ask (g : σ → Except ε α) : Prog σ ε α := fun plan s =>
  match g s with
  | .ok a => (.ok a, plan, s)
  | .error e => (.error e, plan, s)

/-- A change that does not outlive the process, and so cannot be cut. -/
def modify (g : σ → σ) : Prog σ ε Unit := fun plan s => (.ok (), plan, g s)

/-- A change that does not outlive the process and may be refused. -/
def attempt (g : σ → Except ε α × σ) : Prog σ ε α := fun plan s =>
  match g s with
  | (.ok a, s') => (.ok a, plan, s')
  | (.error e, s') => (.error e, plan, s')

/-- One durable step, whose failure is reported as `e`. -/
def durable (e : ε) (g : σ → σ) : Prog σ ε Unit := fun plan s =>
  match plan with
  | [] => (.ok (), [], g s)
  | none :: rest => (.ok (), rest, g s)
  | some .kill :: rest => (.killed, rest, s)
  | some .refuse :: rest => (.error e, rest, s)
  | some .misreport :: rest => (.error e, rest, g s)

/-- One durable step of which nothing is stored when it is reported as failed. -/
def atomic (e : ε) (g : σ → σ) : Prog σ ε Unit := fun plan s =>
  match plan with
  | [] => (.ok (), [], g s)
  | none :: rest => (.ok (), rest, g s)
  | some .kill :: rest => (.killed, rest, s)
  | some .refuse :: rest => (.error e, rest, s)
  | some .misreport :: rest => (.error e, rest, s)

/-- Runs `h` after an error of `x`; a kill is final. -/
def handle (x : Prog σ ε α) (h : ε → Prog σ ε α) : Prog σ ε α := fun plan s =>
  match x plan s with
  | (.ok a, plan', s') => (.ok a, plan', s')
  | (.error e, plan', s') => h e plan' s'
  | (.killed, plan', s') => (.killed, plan', s')

/-- The result of `x`, a value or an error, as a value; a kill is final. -/
def outcome {ε' : Type} (x : Prog σ ε α) : Prog σ ε' (Except ε α) := fun plan s =>
  match x plan s with
  | (.ok a, plan', s') => (.ok (.ok a), plan', s')
  | (.error e, plan', s') => (.ok (.error e), plan', s')
  | (.killed, plan', s') => (.killed, plan', s')

/-! ## Running -/

/-- A composition of answers succeeds when both parts do. -/
theorem answer_bind_iff {x : Except ε α} {f : α → Except ε β} {b : β} :
    (x >>= f) = .ok b ↔ ∃ a, x = .ok a ∧ f a = .ok b := by
  cases x with
  | ok a => simp [Bind.bind, Except.bind]
  | error e => simp [Bind.bind, Except.bind]

/-- Every element of the answer for a list is the answer for one of its elements. -/
theorem answer_mapM_mem {f : α → Except ε β} {xs : List α} {ys : List β} (h : xs.mapM f = .ok ys) :
    ∀ y ∈ ys, ∃ x ∈ xs, f x = .ok y := by
  induction xs generalizing ys with
  | nil =>
    rw [List.mapM_nil] at h
    rw [← Except.ok.inj h]
    simp
  | cons x rest ih =>
    rw [List.mapM_cons, answer_bind_iff] at h
    obtain ⟨first, hfirst, h⟩ := h
    rw [answer_bind_iff] at h
    obtain ⟨others, hothers, h⟩ := h
    rw [← Except.ok.inj h]
    intro y hy
    rcases List.mem_cons.1 hy with rfl | hy
    · exact ⟨x, List.mem_cons_self, hfirst⟩
    · obtain ⟨x', hx', hy'⟩ := ih hothers y hy
      exact ⟨x', List.mem_cons_of_mem x hx', hy'⟩

theorem pure_run (a : α) (plan : Plan) (s : σ) :
    (pure a : Prog σ ε α) plan s = (.ok a, plan, s) := rfl

theorem bind_run (x : Prog σ ε α) (f : α → Prog σ ε β) (plan : Plan) (s : σ) :
    (x >>= f) plan s = match x plan s with
      | (.ok a, plan', s') => f a plan' s'
      | (.error e, plan', s') => (.error e, plan', s')
      | (.killed, plan', s') => (.killed, plan', s') := rfl

theorem gets_run (g : σ → α) (plan : Plan) (s : σ) :
    (gets g : Prog σ ε α) plan s = (.ok (g s), plan, s) := rfl

theorem fail_run (e : ε) (plan : Plan) (s : σ) :
    (fail e : Prog σ ε α) plan s = (.error e, plan, s) := rfl

theorem modify_run (g : σ → σ) (plan : Plan) (s : σ) :
    (modify g : Prog σ ε Unit) plan s = (.ok (), plan, g s) := rfl

theorem durable_run_nil (e : ε) (g : σ → σ) (s : σ) :
    (durable e g : Prog σ ε Unit) [] s = (.ok (), [], g s) := rfl

/-- A query that is answered leaves the state and the plan as they are. -/
theorem ask_run_ok {g : σ → Except ε α} {s : σ} {a : α} (h : g s = .ok a) (plan : Plan) :
    ask g plan s = (.ok a, plan, s) := by
  simp only [ask, h]

/-- A query that is refused ends the run with its error. -/
theorem ask_run_error {g : σ → Except ε α} {s : σ} {e : ε} (h : g s = .error e) (plan : Plan) :
    ask g plan s = (.error e, plan, s) := by
  simp only [ask, h]

/-- A run whose first part returns goes on with the second. -/
theorem bind_run_ok {x : Prog σ ε α} {f : α → Prog σ ε β} {plan plan' : Plan} {s s' : σ} {a : α}
    (h : x plan s = (.ok a, plan', s')) : (x >>= f) plan s = f a plan' s' := by
  rw [bind_run, h]

/-- A run whose first part fails ends there. -/
theorem bind_run_error {x : Prog σ ε α} {f : α → Prog σ ε β} {plan plan' : Plan} {s s' : σ} {e : ε}
    (h : x plan s = (.error e, plan', s')) : (x >>= f) plan s = (.error e, plan', s') := by
  rw [bind_run, h]

/-- The run of a composition that returned is a run of its first part that returned, followed by a
run of the second. -/
theorem bind_run_eq_ok {x : Prog σ ε α} {f : α → Prog σ ε β} {plan plan' : Plan} {s s' : σ} {b : β}
    (h : (x >>= f) plan s = (.ok b, plan', s')) :
    ∃ a plan₁ s₁, x plan s = (.ok a, plan₁, s₁) ∧ f a plan₁ s₁ = (.ok b, plan', s') := by
  rw [bind_run] at h
  rcases hx : x plan s with ⟨o, plan₁, s₁⟩
  rw [hx] at h
  cases o with
  | ok a => exact ⟨a, plan₁, s₁, rfl, h⟩
  | error e => simp at h
  | killed => simp at h

/-! ## Triples -/

/-- Under every plan, a run of `p` from `s` that returns ends in `Q`, one that ends with an error in
`E`, and one that is killed in `K`. -/
def Sat (p : Prog σ ε α) (s : σ) (Q : α → σ → Prop) (E K : σ → Prop) : Prop :=
  ∀ plan, match p plan s with
    | (.ok a, _, s') => Q a s'
    | (.error _, _, s') => E s'
    | (.killed, _, s') => K s'

variable {s : σ} {Q : α → σ → Prop} {E K : σ → Prop}

theorem Sat.mono {p : Prog σ ε α} {Q' : α → σ → Prop} {E' K' : σ → Prop} (h : p.Sat s Q E K)
    (hQ : ∀ a s', Q a s' → Q' a s') (hE : ∀ s', E s' → E' s') (hK : ∀ s', K s' → K' s') :
    p.Sat s Q' E' K' := by
  intro plan
  have hp := h plan
  rcases hrun : p plan s with ⟨o, plan', s'⟩
  rw [hrun] at hp
  cases o with
  | ok a => exact hQ a s' hp
  | error e => exact hE s' hp
  | killed => exact hK s' hp

/-- Two triples of one program. -/
theorem Sat.and {p : Prog σ ε α} {Q' : α → σ → Prop} {E' K' : σ → Prop} (h : p.Sat s Q E K)
    (h' : p.Sat s Q' E' K') : p.Sat s (fun a s' => Q a s' ∧ Q' a s') (fun s' => E s' ∧ E' s')
      (fun s' => K s' ∧ K' s') := by
  intro plan
  have hp := h plan
  have hp' := h' plan
  rcases hrun : p plan s with ⟨o, plan', s'⟩
  rw [hrun] at hp hp'
  cases o <;> exact ⟨hp, hp'⟩

theorem Sat.pure {a : α} (h : Q a s) : (pure a : Prog σ ε α).Sat s Q E K := fun _ => h

theorem Sat.fail {e : ε} (h : E s) : (fail e : Prog σ ε α).Sat s Q E K := fun _ => h

theorem Sat.gets {g : σ → α} (h : Q (g s) s) : (gets g : Prog σ ε α).Sat s Q E K := fun _ => h

theorem Sat.modify {g : σ → σ} {Q : Unit → σ → Prop} (h : Q () (g s)) :
    (modify g : Prog σ ε Unit).Sat s Q E K := fun _ => h

/-- A composition: the rest of the program starts wherever the first part may have returned. -/
theorem Sat.bind {x : Prog σ ε α} {f : α → Prog σ ε β} {Q : β → σ → Prop}
    (h : x.Sat s (fun a s' => (f a).Sat s' Q E K) E K) : (x >>= f).Sat s Q E K := by
  intro plan
  have hx := h plan
  rw [bind_run]
  rcases hrun : x plan s with ⟨o, plan', s'⟩
  rw [hrun] at hx
  cases o with
  | ok a => exact hx plan'
  | error e => exact hx
  | killed => exact hx

/-- A query: either it is answered, or the error is returned; the state is the same. -/
theorem Sat.ask {g : σ → Except ε α} (hok : ∀ a, g s = .ok a → Q a s) (herr : E s) :
    (ask g).Sat s Q E K := by
  intro plan
  rcases hg : g s with e | a
  · rw [ask_run_error hg]; exact herr
  · rw [ask_run_ok hg]; exact hok a hg

/-- A volatile change: the state is the one that it returns, with the result or with the error. -/
theorem Sat.attempt {g : σ → Except ε α × σ} (hok : ∀ a, (g s).1 = .ok a → Q a (g s).2)
    (herr : ∀ e, (g s).1 = .error e → E (g s).2) : (attempt g).Sat s Q E K := by
  intro plan
  rw [Prog.attempt]
  rcases hg : g s with ⟨r, s'⟩
  rw [hg] at hok herr
  cases r with
  | ok a => exact hok a rfl
  | error e => exact herr e rfl

/-- A durable step: done, done but reported as failed, not done, or never reached. -/
theorem Sat.durable {e : ε} {g : σ → σ} {Q : Unit → σ → Prop} (hdone : Q () (g s))
    (hmis : E (g s)) (hrefuse : E s) (hkill : K s) : (durable e g).Sat s Q E K := by
  intro plan
  match plan with
  | [] => exact hdone
  | none :: _ => exact hdone
  | some .kill :: _ => exact hkill
  | some .refuse :: _ => exact hrefuse
  | some .misreport :: _ => exact hmis

/-- An atomic step: done, not done, or never reached. -/
theorem Sat.atomic {e : ε} {g : σ → σ} {Q : Unit → σ → Prop} (hdone : Q () (g s)) (hfail : E s)
    (hkill : K s) : (atomic e g).Sat s Q E K := by
  intro plan
  match plan with
  | [] => exact hdone
  | none :: _ => exact hdone
  | some .kill :: _ => exact hkill
  | some .refuse :: _ => exact hfail
  | some .misreport :: _ => exact hfail

/-- A handler runs from wherever the program may have failed. -/
theorem Sat.handle {x : Prog σ ε α} {h : ε → Prog σ ε α}
    (hx : x.Sat s Q (fun s' => ∀ e, (h e).Sat s' Q E K) K) : (handle x h).Sat s Q E K := by
  intro plan
  have hp := hx plan
  rw [Prog.handle]
  rcases hrun : x plan s with ⟨o, plan', s'⟩
  rw [hrun] at hp
  cases o with
  | ok a => exact hp
  | error e => exact hp e plan'
  | killed => exact hp

theorem Sat.outcome {ε' : Type} {x : Prog σ ε α} {Q : Except ε α → σ → Prop}
    (hx : x.Sat s (fun a => Q (.ok a)) (fun s' => ∀ e, Q (.error e) s') K) :
    (x.outcome : Prog σ ε' (Except ε α)).Sat s Q E K := by
  intro plan
  have hplan := hx plan
  simp only [Prog.outcome]
  rcases hrun : x plan s with ⟨o, plan', s'⟩
  rw [hrun] at hplan
  cases o with
  | ok a => exact hplan
  | error e => exact hplan e
  | killed => exact hplan

theorem Sat.ite {c : Prop} [Decidable c] {x y : Prog σ ε α} (hx : c → x.Sat s Q E K)
    (hy : ¬ c → y.Sat s Q E K) : (if c then x else y).Sat s Q E K := by
  split
  · exact hx ‹_›
  · exact hy ‹_›

/-- What a triple says of one run. -/
theorem Sat.run {p : Prog σ ε α} (h : p.Sat s Q E K) {plan plan' : Plan} {o : Outcome ε α} {s' : σ}
    (hrun : p plan s = (o, plan', s')) : match o with
      | .ok a => Q a s'
      | .error _ => E s'
      | .killed => K s' := by
  have := h plan
  rw [hrun] at this
  cases o <;> exact this

/-- What a triple says of one run that returned. -/
theorem Sat.of_ok {p : Prog σ ε α} (h : p.Sat s Q E K) {plan plan' : Plan} {a : α} {s' : σ}
    (hrun : p plan s = (.ok a, plan', s')) : Q a s' := by
  have := h plan
  rwa [hrun] at this

/-- What a triple says of one run that was killed. -/
theorem Sat.of_killed {p : Prog σ ε α} (h : p.Sat s Q E K) {plan plan' : Plan} {s' : σ}
    (hrun : p plan s = (.killed, plan', s')) : K s' := by
  have := h plan
  rwa [hrun] at this

/-- What a triple says of one run that was not killed. -/
theorem Sat.of_alive {p : Prog σ ε α} (h : p.Sat s Q E K) {plan plan' : Plan} {o : Outcome ε α}
    {s' : σ} (hrun : p plan s = (o, plan', s')) (halive : o ≠ .killed) :
    (∃ a, o = .ok a ∧ Q a s') ∨ ((∃ e, o = .error e) ∧ E s') := by
  have := h plan
  rw [hrun] at this
  cases o with
  | ok a => exact .inl ⟨a, rfl, this⟩
  | error e => exact .inr ⟨⟨e, rfl⟩, this⟩
  | killed => exact (halive rfl).elim

/-- What a triple whose error and kill cases are both implied by `K` says of where a run stops. -/
theorem Sat.stops {p : Prog σ ε α} (h : p.Sat s (fun _ => E) E E) (plan : Plan) :
    E (p plan s).2.2 := by
  have := h plan
  rcases hrun : p plan s with ⟨o, plan', s'⟩
  rw [hrun] at this
  cases o <;> exact this

/-! ## Runs in which nothing goes wrong -/

/-- The run of `p` from `s` in which every durable step goes well returns and ends in `Q`, or returns
an error and ends in `E`. -/
def Calm (p : Prog σ ε α) (s : σ) (Q : α → σ → Prop) (E : σ → Prop) : Prop :=
  match p [] s with
  | (.ok a, plan, s') => plan = [] ∧ Q a s'
  | (.error _, plan, s') => plan = [] ∧ E s'
  | (.killed, _, _) => False

theorem Calm.mono {p : Prog σ ε α} {Q' : α → σ → Prop} {E' : σ → Prop} (h : p.Calm s Q E)
    (hQ : ∀ a s', Q a s' → Q' a s') (hE : ∀ s', E s' → E' s') : p.Calm s Q' E' := by
  unfold Calm at h ⊢
  rcases hrun : p [] s with ⟨o, plan', s'⟩
  rw [hrun] at h
  cases o with
  | ok a => exact ⟨h.1, hQ a s' h.2⟩
  | error e => exact ⟨h.1, hE s' h.2⟩
  | killed => exact h

theorem Calm.pure {a : α} (h : Q a s) : (pure a : Prog σ ε α).Calm s Q E := ⟨rfl, h⟩

theorem Calm.fail {e : ε} (h : E s) : (fail e : Prog σ ε α).Calm s Q E := ⟨rfl, h⟩

theorem Calm.gets {g : σ → α} (h : Q (g s) s) : (gets g : Prog σ ε α).Calm s Q E := ⟨rfl, h⟩

theorem Calm.modify {g : σ → σ} {Q : Unit → σ → Prop} (h : Q () (g s)) :
    (modify g : Prog σ ε Unit).Calm s Q E := ⟨rfl, h⟩

theorem Calm.durable {e : ε} {g : σ → σ} {Q : Unit → σ → Prop} (h : Q () (g s)) :
    (durable e g).Calm s Q E := ⟨rfl, h⟩

theorem Calm.bind {x : Prog σ ε α} {f : α → Prog σ ε β} {Q : β → σ → Prop}
    (h : x.Calm s (fun a s' => (f a).Calm s' Q E) E) : (x >>= f).Calm s Q E := by
  unfold Calm at h ⊢
  rw [bind_run]
  rcases hrun : x [] s with ⟨o, plan', s'⟩
  rw [hrun] at h
  cases o with
  | ok a => rw [h.1]; exact h.2
  | error e => exact h
  | killed => exact h

theorem Calm.ask {g : σ → Except ε α} (hok : ∀ a, g s = .ok a → Q a s)
    (herr : ∀ e, g s = .error e → E s) : (ask g).Calm s Q E := by
  unfold Calm
  rcases hg : g s with e | a
  · rw [ask_run_error hg]; exact ⟨rfl, herr e hg⟩
  · rw [ask_run_ok hg]; exact ⟨rfl, hok a hg⟩

/-- A query whose answer is known. -/
theorem Calm.answer {g : σ → Except ε α} {a : α} (hg : g s = .ok a) (h : Q a s) :
    (Prog.ask g).Calm s Q E := by
  refine Calm.ask (fun b hb => ?_) fun e he => ?_
  · rw [hg] at hb
    cases hb
    exact h
  · rw [hg] at he
    cases he

theorem Calm.attempt {g : σ → Except ε α × σ} (hok : ∀ a, (g s).1 = .ok a → Q a (g s).2)
    (herr : ∀ e, (g s).1 = .error e → E (g s).2) : (attempt g).Calm s Q E := by
  unfold Calm
  rw [Prog.attempt]
  rcases hg : g s with ⟨r, s'⟩
  rw [hg] at hok herr
  cases r with
  | ok a => exact ⟨rfl, hok a rfl⟩
  | error e => exact ⟨rfl, herr e rfl⟩

theorem Calm.handle {x : Prog σ ε α} {h : ε → Prog σ ε α}
    (hx : x.Calm s Q (fun s' => ∀ e, (h e).Calm s' Q E)) : (handle x h).Calm s Q E := by
  unfold Calm at hx ⊢
  rw [Prog.handle]
  rcases hrun : x [] s with ⟨o, plan', s'⟩
  rw [hrun] at hx
  cases o with
  | ok a => exact hx
  | error e => rw [hx.1]; exact hx.2 e
  | killed => exact hx

theorem Calm.ite {c : Prop} [Decidable c] {x y : Prog σ ε α} (hx : c → x.Calm s Q E)
    (hy : ¬ c → y.Calm s Q E) : (if c then x else y).Calm s Q E := by
  split
  · exact hx ‹_›
  · exact hy ‹_›

/-- A program that cannot fail while nothing goes wrong returns. -/
theorem Calm.returns {p : Prog σ ε α} (h : p.Calm s Q (fun _ => False)) :
    ∃ a s', p [] s = (.ok a, [], s') ∧ Q a s' := by
  unfold Calm at h
  rcases hrun : p [] s with ⟨o, plan', s'⟩
  rw [hrun] at h
  cases o with
  | ok a => exact ⟨a, s', by rw [h.1], h.2⟩
  | error e => exact h.2.elim
  | killed => exact h.elim

/-- A calm run that returned ended as it says. -/
theorem Calm.of_ok {p : Prog σ ε α} (h : p.Calm s Q E) {a : α} (hok : (p [] s).1 = .ok a) :
    ∃ s', p [] s = (.ok a, [], s') ∧ Q a s' := by
  unfold Calm at h
  rcases hrun : p [] s with ⟨o, plan', s'⟩
  rw [hrun] at h hok
  cases hok
  exact ⟨s', by rw [h.1], h.2⟩

/-- A run that is known. -/
theorem Calm.of_run {p : Prog σ ε α} {a : α} {s' : σ} (h : p [] s = (.ok a, [], s')) (hQ : Q a s') :
    p.Calm s Q E := by
  unfold Calm
  rw [h]
  exact ⟨rfl, hQ⟩

/-- What every run keeps, the calm one keeps. -/
theorem Sat.calm {p : Prog σ ε α} {Q' : α → σ → Prop} {E' : σ → Prop} (h : p.Sat s Q E K)
    (hc : p.Calm s Q' E') : p.Calm s (fun a s' => Q a s' ∧ Q' a s') (fun s' => E s' ∧ E' s') := by
  have hp := h []
  unfold Calm at hc ⊢
  rcases hrun : p [] s with ⟨o, plan', s'⟩
  rw [hrun] at hp hc
  cases o with
  | ok a => exact ⟨hc.1, hp, hc.2⟩
  | error e => exact ⟨hc.1, hp, hc.2⟩
  | killed => exact hc

/-- What the triple says of the state in which the run stops. -/
theorem Calm.stops {p : Prog σ ε α} (h : p.Calm s (fun _ => E) E) : E (p [] s).2.2 := by
  unfold Calm at h
  rcases hrun : p [] s with ⟨o, plan', s'⟩
  rw [hrun] at h
  cases o with
  | ok a => exact h.2
  | error e => exact h.2
  | killed => exact h.elim

end Prog

end Argos.Lib
