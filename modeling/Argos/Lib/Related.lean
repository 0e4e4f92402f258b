import Mathlib.Data.List.Forall2

/-!
# Lists related element by element

More on Mathlib's `List.Forall₂`: what stands in one list has a partner in the other, at the same
place, and a relation that is a function carries extensions of a list over (`forall₂_prefix`).
-/

namespace Argos.Lib

variable {α β : Type} {R R' : α → β → Prop}

theorem exists_of_forall₂ {l : List α} {m : List β} (h : List.Forall₂ R l m) {a : α} (ha : a ∈ l) :
    ∃ b ∈ m, R a b := by
  induction h with
  | nil => cases ha
  | cons hr _ ih =>
    rcases List.mem_cons.1 ha with rfl | ha
    · exact ⟨_, List.mem_cons_self, hr⟩
    · obtain ⟨b, hb, hab⟩ := ih ha
      exact ⟨b, List.mem_cons_of_mem _ hb, hab⟩

theorem exists_of_forall₂_right {l : List α} {m : List β} (h : List.Forall₂ R l m) {b : β} (hb : b ∈ m) :
    ∃ a ∈ l, R a b :=
  exists_of_forall₂ h.flip hb

theorem getElem?_of_forall₂ {l : List α} {m : List β} (h : List.Forall₂ R l m) {k : Nat} {a : α}
    (ha : l[k]? = some a) : ∃ b, m[k]? = some b ∧ R a b := by
  obtain ⟨hk, rfl⟩ := List.getElem?_eq_some_iff.1 ha
  have hk' : k < m.length := h.length_eq ▸ hk
  exact ⟨m[k], List.getElem?_eq_getElem hk', h.get hk hk'⟩

/-- Lists that a function makes of a list and of one that extends it. -/
theorem forall₂_prefix (hfun : ∀ a b b', R a b → R' a b' → b' = b) {l l' : List α} {m m' : List β}
    (hl : l <+: l') (h : List.Forall₂ R l m) (h' : List.Forall₂ R' l' m') : m <+: m' := by
  induction h generalizing l' m' with
  | nil => exact List.nil_prefix
  | cons hr _ ih =>
    obtain ⟨rest, rfl⟩ := hl
    rw [List.cons_append] at h'
    cases h' with
    | cons hr' htail =>
      rw [hfun _ _ _ hr hr']
      exact (List.prefix_cons_inj _).2 (ih (List.prefix_append _ _) htail)

end Argos.Lib
