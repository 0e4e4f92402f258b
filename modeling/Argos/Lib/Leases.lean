import Mathlib.Data.List.Basic
import Mathlib.Data.List.Nodup

/-!
# Leases

A key may be leased under a token until a time. It is granted anew when it is free, that is when
nobody holds it or the lease has ended, and it is settled by whoever still holds it in time. `Step`
says what one act does to who holds what, `Run` what a list of acts does. Two facts follow for every
run. A lease excludes every other until it ends or is settled (`Run.exclusive`), and a token that
has lost its key never settles it again (`Run.lost`). Last, the leases of a table, whose rows have
distinct keys.
-/

namespace Argos.Lib.Leases

variable {κ τ : Type}

/-- Who holds a key, and until when. -/
abbrev Held (κ τ : Type) := κ → Option (τ × Nat)

/-- Nobody holds the key at `now`. -/
def Free (lease : Option (τ × Nat)) (now : Nat) : Prop := ∀ p, lease = some p → p.2 ≤ now

/-- The token does not hold the key. -/
def Lost (held : Held κ τ) (key : κ) (token : τ) : Prop := ∀ expires, held key ≠ some (token, expires)

/-- What is done at a time. -/
inductive Act (κ τ : Type) where
  | idle
  | granted (key : κ) (token : τ) (now expires : Nat)
  | settled (key : κ) (token : τ) (now : Nat)

/-- One act. -/
inductive Step (held : Held κ τ) : Act κ τ → Held κ τ → Prop where
  | idle : Step held .idle held
  | granted {held' : Held κ τ} {key : κ} {token : τ} {now expires : Nat} (free : Free (held key) now)
      (holds : held' key = some (token, expires)) (rest : ∀ other, other ≠ key → held' other = held other) :
      Step held (.granted key token now expires) held'
  | settled {held' : Held κ τ} {key : κ} {token : τ} {now expires : Nat}
      (holds : held key = some (token, expires)) (intime : now < expires) (released : held' key = none)
      (rest : ∀ other, other ≠ key → held' other = held other) :
      Step held (.settled key token now) held'

/-- One act after another. -/
inductive Run : Held κ τ → List (Act κ τ) → Held κ τ → Prop where
  | nil (held : Held κ τ) : Run held [] held
  | cons {held held' held'' : Held κ τ} {act : Act κ τ} {acts : List (Act κ τ)}
      (step : Step held act held') (run : Run held' acts held'') : Run held (act :: acts) held''

variable {held held' held'' held₁ held₂ : Held κ τ} {key : κ} {token : τ} {now expires : Nat}
  {act : Act κ τ} {acts : List (Act κ τ)}

/-! ## A lease excludes the others -/

/-- A lease is kept, unless it is settled or has ended when the key is granted again. -/
theorem Step.kept (h : Step held act held') (hheld : held key = some (token, expires)) :
    held' key = some (token, expires) ∨ (∃ now, now < expires ∧ act = .settled key token now) ∨
      ∃ token' now expires', expires ≤ now ∧ act = .granted key token' now expires' := by
  cases h with
  | idle => exact .inl hheld
  | @granted _ k t now e hfree hholds hrest =>
    by_cases hk : key = k
    · subst hk
      exact .inr (.inr ⟨t, now, e, hfree _ hheld, rfl⟩)
    · left
      rw [hrest key hk, hheld]
  | @settled _ k t now e hholds hintime hreleased hrest =>
    by_cases hk : key = k
    · subst hk
      rw [hheld] at hholds
      cases hholds
      exact .inr (.inl ⟨now, hintime, rfl⟩)
    · left
      rw [hrest key hk, hheld]

/-- The same over a run. -/
theorem Run.kept (h : Run held acts held') (hheld : held key = some (token, expires)) :
    held' key = some (token, expires) ∨ (∃ now, now < expires ∧ .settled key token now ∈ acts) ∨
      ∃ token' now expires', expires ≤ now ∧ .granted key token' now expires' ∈ acts := by
  induction h with
  | nil _ => exact .inl hheld
  | cons step _ ih =>
    rcases step.kept hheld with hheld' | ⟨now, hnow, hact⟩ | ⟨token', now, expires', hnow, hact⟩
    · rcases ih hheld' with hend | ⟨now, hnow, hmem⟩ | ⟨token', now, expires', hnow, hmem⟩
      · exact .inl hend
      · exact .inr (.inl ⟨now, hnow, List.mem_cons_of_mem _ hmem⟩)
      · exact .inr (.inr ⟨token', now, expires', hnow, List.mem_cons_of_mem _ hmem⟩)
    · exact .inr (.inl ⟨now, hnow, hact ▸ List.mem_cons_self⟩)
    · exact .inr (.inr ⟨token', now, expires', hnow, hact ▸ List.mem_cons_self⟩)

/-- When a key is granted again, the lease before has ended or was settled in time, as long as the
clock did not go back between the two. -/
theorem Run.exclusive {token' : τ} {now' expires' : Nat} (h : Run held acts held')
    (hheld : held key = some (token, expires))
    (hgrant : Step held' (.granted key token' now' expires') held'')
    (hclock : ∀ token now expires, .granted key token now expires ∈ acts → now ≤ now') :
    expires ≤ now' ∨ ∃ now, now < expires ∧ .settled key token now ∈ acts := by
  rcases h.kept hheld with hend | hsettled | ⟨token'', now, expires'', hnow, hmem⟩
  · cases hgrant with
    | granted hfree _ _ => exact .inl (hfree _ hend)
  · exact .inr hsettled
  · exact .inl (Nat.le_trans hnow (hclock _ _ _ hmem))

/-! ## A lost token settles nothing -/

theorem Step.lost (h : Step held act held') (hlost : Lost held key token)
    (hfresh : ∀ now expires, act ≠ .granted key token now expires) :
    Lost held' key token ∧ ∀ now, act ≠ .settled key token now := by
  cases h with
  | idle => exact ⟨hlost, fun now h => by cases h⟩
  | @granted _ k t now e hfree hholds hrest =>
    refine ⟨fun expires hheld => ?_, fun now h => by cases h⟩
    by_cases hk : key = k
    · subst hk
      rw [hholds] at hheld
      cases hheld
      exact hfresh now e rfl
    · exact hlost expires ((hrest key hk).symm.trans hheld)
  | @settled _ k t now e hholds hintime hreleased hrest =>
    refine ⟨fun expires hheld => ?_, fun now' h => ?_⟩
    · by_cases hk : key = k
      · subst hk
        rw [hreleased] at hheld
        cases hheld
      · exact hlost expires ((hrest key hk).symm.trans hheld)
    · cases h
      exact hlost e hholds

/-- A token that does not hold the key, and is not granted it, never settles it. -/
theorem Run.lost (h : Run held acts held') (hlost : Lost held key token)
    (hfresh : ∀ now expires, .granted key token now expires ∉ acts) :
    Lost held' key token ∧ ∀ now, .settled key token now ∉ acts := by
  induction h with
  | nil _ => exact ⟨hlost, fun now => List.not_mem_nil⟩
  | cons step _ ih =>
    obtain ⟨hlost', hnot⟩ := step.lost hlost fun now expires hact =>
      hfresh now expires (hact ▸ List.mem_cons_self)
    obtain ⟨hend, hnone⟩ := ih hlost' fun now expires hmem =>
      hfresh now expires (List.mem_cons_of_mem _ hmem)
    refine ⟨hend, fun now hmem => ?_⟩
    rcases List.mem_cons.1 hmem with heq | hmem
    · exact hnot now heq.symm
    · exact hnone now hmem

/-- Who settles a key has lost it. -/
theorem Step.settled_lost (h : Step held (.settled key token now) held') : Lost held' key token := by
  cases h with
  | settled _ _ hreleased _ =>
    intro expires hheld
    rw [hreleased] at hheld
    cases hheld

/-- Who is replaced has lost the key. -/
theorem Step.granted_lost {token' : τ} (h : Step held (.granted key token' now expires) held')
    (hne : token' ≠ token) : Lost held' key token := by
  cases h with
  | granted _ hholds _ =>
    intro expires' hheld
    rw [hholds] at hheld
    cases hheld
    exact hne rfl

/-! ## The leases of a table -/

section Rows

variable {ρ : Type} [DecidableEq κ] (key : ρ → κ) (lease : ρ → Option (τ × Nat))

/-- Who holds the row of a key. -/
def ofRows (rows : List ρ) : Held κ τ := fun k => (rows.find? (key · = k)).bind lease

variable {key lease} {rows new : List ρ} {r : ρ}

/-- The row of a key, when the keys are distinct. -/
theorem find?_key (hnodup : (rows.map key).Nodup) (hr : r ∈ rows) :
    rows.find? (key · = key r) = some r := by
  rcases hfind : rows.find? (key · = key r) with _ | r'
  · have := List.find?_eq_none.1 hfind r hr
    simp at this
  · have hkey : key r' = key r := by simpa using List.find?_some hfind
    rw [List.inj_on_of_nodup_map hnodup (List.mem_of_find?_eq_some hfind) hr hkey]

theorem ofRows_row (hnodup : (rows.map key).Nodup) (hr : r ∈ rows) :
    ofRows key lease rows (key r) = lease r := by
  rw [ofRows, find?_key hnodup hr, Option.bind_some]

/-- Rows that nobody holds may be added. -/
theorem ofRows_append (hnew : ∀ r ∈ new, lease r = none) :
    ofRows key lease (rows ++ new) = ofRows key lease rows := by
  funext k
  rw [ofRows, ofRows, List.find?_append]
  rcases rows.find? (key · = k) with _ | r
  · rcases hfind : new.find? (key · = k) with _ | r
    · rfl
    · exact hnew r (List.mem_of_find?_eq_some hfind)
  · rfl

theorem find?_map_key {g : ρ → ρ} (hkey : ∀ r, key (g r) = key r) (k : κ) :
    (rows.map g).find? (key · = k) = (rows.find? (key · = k)).map g := by
  rw [List.find?_map]
  simp only [Function.comp_def, hkey]

/-- Rows are changed, but only those of one key. -/
theorem ofRows_map_other {g : ρ → ρ} {k other : κ} (hkey : ∀ r, key (g r) = key r)
    (hother : ∀ r, key r ≠ k → g r = r) (hne : other ≠ k) :
    ofRows key lease (rows.map g) other = ofRows key lease rows other := by
  rw [ofRows, ofRows, find?_map_key hkey]
  rcases hfind : rows.find? (key · = other) with _ | r
  · rfl
  · have hr : key r = other := by simpa using List.find?_some hfind
    rw [Option.map_some, hother r (hr ▸ hne)]

/-- The row of a key is leased. -/
theorem step_grant {g : ρ → ρ} (hnodup : (rows.map key).Nodup) (hr : r ∈ rows)
    (hfree : Free (lease r) now) (hkey : ∀ r, key (g r) = key r)
    (hother : ∀ r', key r' ≠ key r → g r' = r') (hlease : lease (g r) = some (token, expires)) :
    Step (ofRows key lease rows) (.granted (key r) token now expires)
      (ofRows key lease (rows.map g)) := by
  refine .granted ?_ ?_ fun other hne => ofRows_map_other hkey hother hne
  · rw [ofRows_row hnodup hr]
    exact hfree
  · rw [ofRows, find?_map_key hkey, find?_key hnodup hr]
    exact hlease

/-- The row of a key is released. -/
theorem step_release {g : ρ → ρ} (hnodup : (rows.map key).Nodup) (hr : r ∈ rows)
    (hheld : lease r = some (token, expires)) (hintime : now < expires)
    (hkey : ∀ r, key (g r) = key r) (hother : ∀ r', key r' ≠ key r → g r' = r')
    (hlease : lease (g r) = none) :
    Step (ofRows key lease rows) (.settled (key r) token now) (ofRows key lease (rows.map g)) := by
  refine .settled ((ofRows_row hnodup hr).trans hheld) hintime ?_ fun other hne =>
    ofRows_map_other hkey hother hne
  rw [ofRows, find?_map_key hkey, find?_key hnodup hr]
  exact hlease

/-- The row of a key is taken out. -/
theorem step_remove {p : ρ → Bool} (hnodup : (rows.map key).Nodup) (hr : r ∈ rows)
    (hheld : lease r = some (token, expires)) (hintime : now < expires) (hgone : p r = false)
    (hother : ∀ r', key r' ≠ key r → p r' = true) :
    Step (ofRows key lease rows) (.settled (key r) token now) (ofRows key lease (rows.filter p)) := by
  refine .settled ((ofRows_row hnodup hr).trans hheld) hintime ?_ fun other hne => ?_
  · have hnone : (rows.filter p).find? (key · = key r) = none := by
      refine List.find?_eq_none.2 fun r' hr' => ?_
      obtain ⟨hmem, hp⟩ := List.mem_filter.1 hr'
      simp only [decide_eq_true_eq]
      intro hk
      rw [List.inj_on_of_nodup_map hnodup hmem hr hk, hgone] at hp
      cases hp
    rw [ofRows, hnone, Option.bind_none]
  · have hsame : (rows.filter p).find? (key · = other) = rows.find? (key · = other) := by
      rw [List.find?_filter]
      congr 1
      funext r'
      by_cases hk : key r' = other
      · have hp : p r' = true := hother r' (hk ▸ hne)
        simp [hk, hp]
      · simp [hk]
    rw [ofRows, ofRows, hsame]

end Rows

end Argos.Lib.Leases
