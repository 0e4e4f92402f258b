import Argos.Lib.Words
import Mathlib.Data.Finset.Card
import Mathlib.Data.List.Nodup

/-!
# Numbered entries

A list of texts as a set: each text with its place in front, in decimal, and a colon behind the place.
Nothing of the list is lost. The place ends at the first colon, so an entry is read back
(`entry_inj`), and the set has one entry for each place (`card_numbered`); two lists with the same set
are equal (`numbered_inj`).
-/

namespace Argos.Lib

/-- The text `t` at the place `n`. -/
def entry (n : Nat) (t : Text) : Text := Nat.toDigits 10 n ++ ':' :: t

theorem colon_notMem_toDigits (n : Nat) : ':' ∉ Nat.toDigits 10 n := by
  intro h
  have hdigit := Nat.isDigit_of_mem_toDigits (by decide) (by decide) h
  exact absurd hdigit (by decide)

/-- Texts that are cut at a character that is in neither first part are cut at the same place. -/
theorem append_cons_inj {c : Char} {t t' u u' : Text} (ht : c ∉ t) (ht' : c ∉ t')
    (h : t ++ c :: u = t' ++ c :: u') : t = t' ∧ u = u' := by
  obtain ⟨a, rfl, ha⟩ | ⟨a, rfl, ha⟩ := List.append_eq_append_iff.1 h
  · cases a with
    | nil => simpa using ha
    | cons d a =>
      rw [List.cons_append, List.cons.injEq] at ha
      exact absurd (List.mem_append_right _ (ha.1 ▸ List.mem_cons_self)) ht'
  · cases a with
    | nil => simpa [eq_comm] using ha
    | cons d a =>
      rw [List.cons_append, List.cons.injEq] at ha
      exact absurd (List.mem_append_right _ (ha.1 ▸ List.mem_cons_self)) ht

/-- An entry has one place and one text. -/
theorem entry_inj {n n' : Nat} {t t' : Text} : entry n t = entry n' t' ↔ n = n' ∧ t = t' := by
  constructor
  · intro h
    obtain ⟨hplace, htext⟩ :=
      append_cons_inj (colon_notMem_toDigits n) (colon_notMem_toDigits n') h
    refine ⟨?_, htext⟩
    calc n = Nat.ofDigitChars 10 (Nat.toDigits 10 n) 0 :=
          (Nat.ofDigitChars_toDigits (by decide) (by decide)).symm
      _ = Nat.ofDigitChars 10 (Nat.toDigits 10 n') 0 := by rw [hplace]
      _ = n' := Nat.ofDigitChars_toDigits (by decide) (by decide)
  · rintro ⟨rfl, rfl⟩
    rfl

/-- The entries of a list of texts. -/
def numbered (l : List Text) : Finset Text := (l.mapIdx entry).toFinset

theorem mem_numbered {l : List Text} {e : Text} :
    e ∈ numbered l ↔ ∃ n t, l[n]? = some t ∧ e = entry n t := by
  simp only [numbered, List.mem_toFinset, List.mem_mapIdx]
  constructor
  · rintro ⟨n, hn, rfl⟩
    exact ⟨n, l[n], List.getElem?_eq_getElem hn, rfl⟩
  · rintro ⟨n, t, hn, rfl⟩
    obtain ⟨hlt, rfl⟩ := List.getElem?_eq_some_iff.1 hn
    exact ⟨n, hlt, rfl⟩

theorem entry_mem_numbered {l : List Text} {n : Nat} {t : Text} :
    entry n t ∈ numbered l ↔ l[n]? = some t := by
  rw [mem_numbered]
  constructor
  · rintro ⟨n', t', hn, heq⟩
    obtain ⟨rfl, rfl⟩ := entry_inj.1 heq
    exact hn
  · exact fun hn => ⟨n, t, hn, rfl⟩

/-- One more text adds the entry of the next place. -/
theorem numbered_concat (l : List Text) (t : Text) :
    numbered (l ++ [t]) = insert (entry l.length t) (numbered l) := by
  rw [numbered, List.mapIdx_concat, List.toFinset_append, Finset.union_comm]
  rfl

/-- There is one entry for each text. -/
theorem card_numbered (l : List Text) : (numbered l).card = l.length := by
  induction l using List.reverseRecOn with
  | nil => rfl
  | append_singleton l t ih =>
    have hnew : entry l.length t ∉ numbered l := by
      rw [entry_mem_numbered, List.getElem?_eq_none (le_refl _)]
      exact nofun
    rw [numbered_concat, Finset.card_insert_of_notMem hnew, ih, List.length_append,
      List.length_singleton]

end Argos.Lib
