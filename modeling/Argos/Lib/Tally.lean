import Mathlib.Algebra.Order.Ring.Nat
import Mathlib.Data.List.AList
import Mathlib.Algebra.BigOperators.Group.List.Basic
import Mathlib.Algebra.Order.BigOperators.Group.List

/-!
# Finite maps of counters

A map from keys to values, each key at most once, is Mathlib's `AList`. `valueAt` reads it with a
default, `bump` changes the value at one key, and `sumOver` adds a weight of all its values. The
lemmas say how one `bump` moves the sum and the values, which is all that a ledger with a total and
one counter per owner needs to keep the two in step.
-/

namespace Argos.Lib

variable {K V : Type} [DecidableEq K]

/-- A finite map from `K` to `V`. -/
abbrev Map (K V : Type) := AList (fun _ : K => V)

/-- The value at `k`, or the default. -/
def valueAt [Inhabited V] (m : Map K V) (k : K) : V := (m.lookup k).getD default

/-- The map with the value at `k` replaced by its image under `g`; an absent value is the default. -/
def bump [Inhabited V] (m : Map K V) (k : K) (g : V → V) : Map K V := m.insert k (g (valueAt m k))

/-- The sum of the weights of a map's values. -/
def sumOver (f : V → Nat) (m : Map K V) : Nat := (m.entries.map (fun e => f e.2)).sum

omit [DecidableEq K] in
theorem sumOver_empty (f : V → Nat) : sumOver f (∅ : Map K V) = 0 := rfl

/-- A new key adds the weight of its value. -/
theorem sumOver_insert_of_notMem (f : V → Nat) {m : Map K V} {k : K} {v : V} (h : k ∉ m) :
    sumOver f (m.insert k v) = f v + sumOver f m := by
  rw [sumOver, AList.entries_insert_of_notMem h]
  rfl

/-- The weight at a key, and the rest of the sum. -/
theorem sumOver_eq_add_erase (f : V → Nat) {m : Map K V} {k : K} {v : V}
    (h : m.lookup k = some v) : sumOver f m = f v + sumOver f (m.erase k) := by
  have hmem : k ∈ m.entries.keys := by
    rw [← AList.keys, ← AList.mem_keys, ← AList.lookup_isSome, h]; rfl
  obtain ⟨b, l₁, l₂, hk, hl, he⟩ := List.exists_of_kerase hmem
  have hb : b = v := by
    have hmem' : (⟨k, b⟩ : (_ : K) × V) ∈ m.entries := by rw [hl]; simp
    have := (List.mem_dlookup_iff m.nodupKeys).2 hmem'
    rw [Option.mem_def, ← AList.lookup, h] at this
    exact (Option.some.inj this).symm
  have herase : (m.erase k).entries = l₁ ++ l₂ := he
  subst hb
  simp only [sumOver, herase, hl, List.map_append, List.map_cons, List.sum_append, List.sum_cons]
  omega

/-- Replacing the value at a key moves the sum by the difference of the weights. -/
theorem sumOver_insert_of_lookup (f : V → Nat) {m : Map K V} {k : K} {v₀ v : V}
    (h : m.lookup k = some v₀) : sumOver f (m.insert k v) + f v₀ = f v + sumOver f m := by
  have hins : sumOver f (m.insert k v) = f v + sumOver f (m.erase k) := by
    rw [sumOver_eq_add_erase f (AList.lookup_insert m)]
    have hentries : ((m.insert k v).erase k).entries = (m.erase k).entries := by
      show List.kerase k (List.kinsert k v m.entries) = List.kerase k m.entries
      rw [List.kinsert_def]
      exact List.kerase_cons_eq rfl
    rw [sumOver, sumOver, hentries]
  have := sumOver_eq_add_erase f h
  omega

/-- Replacing a value adds no entry. -/
theorem length_insert_of_mem {m : Map K V} {k : K} {v : V} (h : k ∈ m) :
    (m.insert k v).entries.length = m.entries.length := by
  have hmem : k ∈ m.entries.keys := h
  have hkeys := congrArg List.length (List.keys_kerase (l := m.entries) (a := k))
  rw [List.length_erase_of_mem hmem] at hkeys
  simp only [List.keys, List.length_map] at hkeys
  have hpos : 0 < m.entries.length := by
    rw [← List.length_map (f := Sigma.fst)]
    exact List.length_pos_of_mem hmem
  rw [AList.entries_insert, List.length_cons, hkeys]
  omega

/-- Maps with the same values have as many entries. -/
theorem length_eq_of_lookup {m m' : Map K V} (h : ∀ k, m.lookup k = m'.lookup k) :
    m.entries.length = m'.entries.length := by
  refine (List.lookup_ext m.nodupKeys m'.nodupKeys fun k v => ?_).length_eq
  show v ∈ m.lookup k ↔ v ∈ m'.lookup k
  rw [h]

/-- The weight of one value is at most the sum. -/
theorem weight_le_sumOver (f : V → Nat) {m : Map K V} {k : K} {v : V} (h : m.lookup k = some v) :
    f v ≤ sumOver f m := by
  have := sumOver_eq_add_erase f h
  omega

section Default

variable [Inhabited V]

/-- The weight at a key that may be absent is at most the sum. -/
theorem weight_valueAt_le (f : V → Nat) (hf : f default = 0) (m : Map K V) (k : K) :
    f (valueAt m k) ≤ sumOver f m := by
  unfold valueAt
  rcases h : m.lookup k with _ | v
  · simp [hf]
  · exact weight_le_sumOver f h

/-- How a change at one key moves the sum. -/
theorem sumOver_bump (f : V → Nat) (hf : f default = 0) (m : Map K V) (k : K) (g : V → V) :
    sumOver f (bump m k g) + f (valueAt m k) = f (g (valueAt m k)) + sumOver f m := by
  unfold bump
  rcases h : m.lookup k with _ | v
  · have hnew : k ∉ m := AList.lookup_eq_none.1 h
    have hv : valueAt m k = default := by simp [valueAt, h]
    rw [sumOver_insert_of_notMem f hnew, hv, hf, Nat.add_zero]
  · have hv : valueAt m k = v := by simp [valueAt, h]
    rw [hv]
    exact sumOver_insert_of_lookup f h

theorem valueAt_bump_self (m : Map K V) (k : K) (g : V → V) :
    valueAt (bump m k g) k = g (valueAt m k) := by
  simp [valueAt, bump]

theorem valueAt_bump_ne (m : Map K V) {k k' : K} (g : V → V) (h : k' ≠ k) :
    valueAt (bump m k g) k' = valueAt m k' := by
  simp [valueAt, bump, AList.lookup_insert_ne h]

theorem valueAt_bump (m : Map K V) (k k' : K) (g : V → V) :
    valueAt (bump m k g) k' = if k' = k then g (valueAt m k') else valueAt m k' := by
  split_ifs with h
  · rw [h, valueAt_bump_self]
  · exact valueAt_bump_ne m g h

/-- Two changes at one key are one change. -/
theorem bump_bump (m : Map K V) (k : K) (g h : V → V) :
    bump (bump m k g) k h = bump m k (h ∘ g) := by
  unfold bump
  rw [AList.insert_insert, ← bump, valueAt_bump_self]
  rfl

theorem lookup_bump (m : Map K V) (k k' : K) (g : V → V) :
    (bump m k g).lookup k' = if k' = k then some (g (valueAt m k')) else m.lookup k' := by
  split_ifs with h
  · rw [h, bump, AList.lookup_insert]
  · rw [bump, AList.lookup_insert_ne h]

end Default

end Argos.Lib
