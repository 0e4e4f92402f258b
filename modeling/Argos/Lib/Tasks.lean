/-!
# Computations that read a state which others change

A `Task` reads a state several times, and between two reads anything may happen to it. A run is given
the state that each read finds. `Task.Holds R Q t s` is the triple of such a computation under the
*rely* `R`: whenever the state changes only as `R` allows, starting from `s`, the result is in `Q`
together with the state that the last read found.
-/

namespace Argos.Lib

/-- A computation with errors in `ε` that reads a state of type `σ`. -/
inductive Task (σ ε α : Type) where
  | done (result : Except ε α)
  | read (next : σ → Task σ ε α)

namespace Task

variable {σ ε α β : Type}

/-- Sequential composition. -/
protected def bind : Task σ ε α → (α → Task σ ε β) → Task σ ε β
  | done (.ok a), f => f a
  | done (.error e), _ => done (.error e)
  | read next, f => read fun s => (next s).bind f

instance : Monad (Task σ ε) where
  pure a := done (.ok a)
  bind := Task.bind

/-- One read, which may be refused. -/
def ask (g : σ → Except ε α) : Task σ ε α := read fun s => done (g s)

/-- A computation that reads nothing. -/
def lift (r : Except ε α) : Task σ ε α := done r

/-- The result of a computation as a value. -/
def outcome : Task σ ε α → Task σ ε (Except ε α)
  | done r => done (.ok r)
  | read next => read fun s => (next s).outcome

/-- The result, when `history n` is the state that the read number `n` finds. -/
def run : Task σ ε α → (Nat → σ) → Except ε α
  | done r, _ => r
  | read next, history => (next (history 0)).run (fun n => history (n + 1))

/-- A run that begins with a read. -/
theorem ask_bind_run (g : σ → Except ε α) (f : α → Task σ ε β) (history : Nat → σ) :
    (ask g >>= f).run history =
      (g (history 0) >>= fun a => (f a).run (fun n => history (n + 1))) := by
  show ((done (g (history 0)) : Task σ ε α).bind f).run (fun n => history (n + 1)) = _
  rcases g (history 0) with e | a
  · rfl
  · rfl

/-- Under the rely `R` from the state `s`, the result and the state that the last read found are in
`Q`. -/
def Holds (R : σ → σ → Prop) (Q : Except ε α → σ → Prop) : Task σ ε α → σ → Prop
  | done r, s => Q r s
  | read next, s => ∀ s', R s s' → (next s').Holds R Q s'

variable {R : σ → σ → Prop} {s : σ}

theorem Holds.mono {Q Q' : Except ε α → σ → Prop} (hQ : ∀ r s', Q r s' → Q' r s') :
    ∀ {t : Task σ ε α} {s : σ}, t.Holds R Q s → t.Holds R Q' s
  | done _, _, h => hQ _ _ h
  | read _, _, h => fun s' hs' => Holds.mono hQ (h s' hs')

theorem Holds.lift {Q : Except ε α → σ → Prop} {r : Except ε α} (h : Q r s) :
    (lift r : Task σ ε α).Holds R Q s := h

theorem Holds.pure {Q : Except ε α → σ → Prop} {a : α} (h : Q (.ok a) s) :
    (pure a : Task σ ε α).Holds R Q s := h

theorem Holds.ask {Q : Except ε α → σ → Prop} {g : σ → Except ε α}
    (h : ∀ s', R s s' → Q (g s') s') : (ask g : Task σ ε α).Holds R Q s := h

theorem Holds.outcome {Q : Except ε (Except ε α) → σ → Prop} :
    ∀ {t : Task σ ε α} {s : σ}, t.Holds R (fun r s' => Q (.ok r) s') s → t.outcome.Holds R Q s
  | done _, _, h => h
  | read _, _, h => fun s' hs' => Holds.outcome (h s' hs')

/-- A composition: the rest starts from the value and the state that the first part ended with. -/
theorem Holds.bind {Q : Except ε β → σ → Prop} {f : α → Task σ ε β} :
    ∀ {t : Task σ ε α} {s : σ},
      t.Holds R (fun r s' => match r with
        | .ok a => (f a).Holds R Q s'
        | .error e => Q (.error e) s') s → (t >>= f).Holds R Q s
  | done (.ok _), _, h => h
  | done (.error _), _, h => h
  | read _, _, h => fun s' hs' => Holds.bind (h s' hs')

/-- What the triple says of one run. -/
theorem Holds.run {Q : Except ε α → σ → Prop} :
    ∀ {t : Task σ ε α} {s : σ}, t.Holds R Q s → ∀ {history : Nat → σ}, R s (history 0) →
      (∀ n, R (history n) (history (n + 1))) → ∃ s', Q (t.run history) s'
  | done _, s, h, _, _, _ => ⟨s, h⟩
  | read _, _, h, _, hfirst, hnext => Holds.run (h _ hfirst) (hnext 0) (fun n => hnext (n + 1))

end Task

end Argos.Lib
