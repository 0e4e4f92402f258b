import Mathlib.Logic.Basic

/-!
# Computations that record what they did

A `Recording σ ε α` gives a value or an error, and keeps what it has recorded in either case: `σ` is what a
report says so far. An error ends the computation (`bind`), unless it is kept aside for later (`keep`).
-/

namespace Argos.Lib

/-- A value or an error, and what has been recorded. -/
def Recording (σ ε α : Type) := σ → Except ε α × σ

namespace Recording

variable {σ ε α β : Type}

/-- One part after another. -/
def bind (x : Recording σ ε α) (f : α → Recording σ ε β) : Recording σ ε β := fun s =>
  match x s with
  | (.error e, s) => (.error e, s)
  | (.ok a, s) => f a s

instance : Monad (Recording σ ε) where
  pure a := fun s => (.ok a, s)
  bind := bind

/-- A value or an error from elsewhere. -/
def ask (answer : Except ε α) : Recording σ ε α := fun s => (answer, s)

/-- Something is recorded. -/
def record (f : σ → σ) : Recording σ ε Unit := fun s => (.ok (), f s)

/-- The outcome of a part, which does not end the whole if it is an error. -/
def keep (x : Recording σ ε α) : Recording σ ε (Except ε α) := fun s =>
  match x s with
  | (outcome, s) => (.ok outcome, s)

theorem bind_ok_iff {x : Recording σ ε α} {f : α → Recording σ ε β} {b : β} {s s' : σ} :
    (x >>= f) s = (.ok b, s') ↔ ∃ a between, x s = (.ok a, between) ∧ f a between = (.ok b, s') := by
  show bind x f s = _ ↔ _
  unfold bind
  rcases x s with ⟨e | a, between⟩
  · simp
  · constructor
    · intro h
      exact ⟨a, between, rfl, h⟩
    · rintro ⟨_, _, hx, h⟩
      cases hx
      exact h

theorem pure_ok_iff {a b : α} {s s' : σ} :
    (pure a : Recording σ ε α) s = (.ok b, s') ↔ b = a ∧ s' = s := by
  show (Except.ok a, s) = _ ↔ _
  rw [Prod.mk.injEq, Except.ok.injEq, eq_comm, eq_comm (a := s)]

theorem ask_ok_iff {answer : Except ε α} {a : α} {s s' : σ} :
    ask answer s = (.ok a, s') ↔ answer = .ok a ∧ s' = s := by
  show (answer, s) = _ ↔ _
  rw [Prod.mk.injEq, eq_comm (a := s)]

theorem record_ok_iff {f : σ → σ} {u : Unit} {s s' : σ} :
    (record f : Recording σ ε Unit) s = (.ok u, s') ↔ s' = f s := by
  show (Except.ok (), f s) = _ ↔ _
  rw [Prod.mk.injEq, eq_comm (a := f s)]
  simp

theorem keep_ok_iff {x : Recording σ ε α} {outcome : Except ε α} {s s' : σ} :
    keep x s = (.ok outcome, s') ↔ x s = (outcome, s') := by
  show (match x s with | (outcome, s) => (Except.ok outcome, s)) = _ ↔ _
  rcases x s with ⟨kept, between⟩
  simp

theorem ask_bind_ok_iff {answer : Except ε α} {f : α → Recording σ ε β} {b : β} {s s' : σ} :
    (ask answer >>= f) s = (.ok b, s') ↔ ∃ a, answer = .ok a ∧ f a s = (.ok b, s') := by
  rw [bind_ok_iff]
  constructor
  · rintro ⟨a, between, hask, h⟩
    obtain ⟨hanswer, rfl⟩ := ask_ok_iff.1 hask
    exact ⟨a, hanswer, h⟩
  · rintro ⟨a, hanswer, h⟩
    exact ⟨a, s, ask_ok_iff.2 ⟨hanswer, rfl⟩, h⟩

theorem record_bind_ok_iff {f : σ → σ} {k : Unit → Recording σ ε β} {b : β} {s s' : σ} :
    (record f >>= k) s = (.ok b, s') ↔ k () (f s) = (.ok b, s') := Iff.rfl

theorem keep_bind_ok_iff {x : Recording σ ε α} {f : Except ε α → Recording σ ε β} {b : β} {s s' : σ} :
    (keep x >>= f) s = (.ok b, s') ↔
      ∃ outcome between, x s = (outcome, between) ∧ f outcome between = (.ok b, s') := by
  rw [bind_ok_iff]
  simp only [keep_ok_iff]

/-! ## What stays as it is -/

variable {γ : Type}

/-- A computation that leaves what `g` reads of the record alone, also when it fails. -/
def Keeps (g : σ → γ) (x : Recording σ ε α) : Prop := ∀ s, g (x s).2 = g s

variable {g : σ → γ}

theorem Keeps.bind {x : Recording σ ε α} {f : α → Recording σ ε β} (hx : Keeps g x)
    (hf : ∀ a, Keeps g (f a)) : Keeps g (x >>= f) := by
  intro s
  have hs := hx s
  show g (Recording.bind x f s).2 = g s
  unfold Recording.bind
  rcases hout : x s with ⟨e | a, between⟩ <;> rw [hout] at hs
  · exact hs
  · exact (hf a between).trans hs

theorem keeps_ask (answer : Except ε α) : Keeps g (ask answer : Recording σ ε α) := fun _ => rfl

theorem keeps_record {f : σ → σ} (hf : ∀ s, g (f s) = g s) : Keeps g (record f : Recording σ ε Unit) := hf

theorem Keeps.keep {x : Recording σ ε α} (hx : Keeps g x) : Keeps g (keep x) := hx

end Recording

end Argos.Lib
