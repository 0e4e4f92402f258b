import Argos.Lib.Tally
import Mathlib.Data.List.MinMax

/-!
# Finite maps that are pruned

More on Mathlib's `AList`: `retain` changes every value of a map and drops some of them, as a cache
does that forgets what is too old, and `leastKey` is the key that goes first when the map is too
large. Two maps are compared key by key: `sumOver_le` says that a map with no more at any key has no
more in total.
-/

namespace Argos.Lib

variable {K V : Type} [DecidableEq K]

/-- An entry as `f` leaves it. -/
def keep (f : K → V → Option V) (e : (_ : K) × V) : Option ((_ : K) × V) :=
  (f e.1 e.2).map fun v => ⟨e.1, v⟩

/-- The map of the values that `f` keeps, each as `f` leaves it. -/
def retain (f : K → V → Option V) (m : Map K V) : Map K V where
  entries := m.entries.filterMap (keep f)
  nodupKeys := by
    have hsub : (m.entries.filterMap (keep f)).keys.Sublist m.entries.keys := by
      generalize m.entries = l
      induction l with
      | nil => exact List.Sublist.refl _
      | cons e l ih =>
        rw [List.filterMap_cons, keep]
        rcases hf : f e.1 e.2 with _ | v
        · exact ih.cons _
        · exact ih.cons_cons _
    exact List.Nodup.sublist hsub m.nodupKeys

theorem lookup_retain (f : K → V → Option V) (m : Map K V) (k : K) :
    (retain f m).lookup k = (m.lookup k).bind (f k) := by
  refine Option.ext fun v => ?_
  have hleft : v ∈ (retain f m).lookup k ↔ (⟨k, v⟩ : (_ : K) × V) ∈ (retain f m).entries :=
    List.mem_dlookup_iff (retain f m).nodupKeys
  have hright : ∀ u, u ∈ m.lookup k ↔ (⟨k, u⟩ : (_ : K) × V) ∈ m.entries := fun u =>
    List.mem_dlookup_iff m.nodupKeys
  rw [← Option.mem_def, hleft, Option.bind_eq_some_iff]
  unfold retain
  rw [List.mem_filterMap]
  constructor
  · rintro ⟨⟨k', u⟩, hmem, hf⟩
    obtain ⟨w, hw, heq⟩ := Option.map_eq_some_iff.1 hf
    obtain ⟨rfl, hv⟩ := Sigma.mk.inj heq
    obtain rfl := eq_of_heq hv
    exact ⟨u, (hright u).2 hmem, hw⟩
  · rintro ⟨u, hu, hf⟩
    exact ⟨⟨k, u⟩, (hright u).1 hu, by rw [keep, hf]; rfl⟩

theorem mem_iff_lookup {m : Map K V} {k : K} : k ∈ m ↔ ∃ v, m.lookup k = some v := by
  rw [← AList.lookup_isSome, Option.isSome_iff_exists]

/-- A map that has at every key no more than another has no more in total. -/
theorem sumOver_le (f g : V → Nat) {m m' : Map K V}
    (h : ∀ k v, m.lookup k = some v → ∃ v', m'.lookup k = some v' ∧ f v ≤ g v') :
    sumOver f m ≤ sumOver g m' := by
  induction m using AList.insertRec generalizing m' with
  | H0 => exact Nat.zero_le _
  | IH k v m hnew ih =>
    obtain ⟨v', hv', hle⟩ := h k v (AList.lookup_insert m)
    rw [sumOver_insert_of_notMem f hnew, sumOver_eq_add_erase g hv']
    have hrest : sumOver f m ≤ sumOver g (m'.erase k) := by
      refine ih fun k' u hu => ?_
      have hne : k' ≠ k := by
        rintro rfl
        exact hnew (mem_iff_lookup.2 ⟨u, hu⟩)
      rw [AList.lookup_erase_ne hne]
      exact h k' u (by rw [AList.lookup_insert_ne hne]; exact hu)
    omega

omit [DecidableEq K] in
/-- The number of keys. -/
theorem length_eq_sumOver (m : Map K V) : m.entries.length = sumOver (fun _ => 1) m := by
  unfold sumOver
  rw [List.map_const', List.sum_replicate, nsmul_one, Nat.cast_id]

/-- A map whose keys are among those of another has no more of them. -/
theorem length_le_of_keys {m m' : Map K V} (h : ∀ k ∈ m, k ∈ m') :
    m.entries.length ≤ m'.entries.length := by
  rw [length_eq_sumOver, length_eq_sumOver]
  refine sumOver_le _ _ fun k v hv => ?_
  obtain ⟨v', hv'⟩ := mem_iff_lookup.1 (h k (mem_iff_lookup.2 ⟨v, hv⟩))
  exact ⟨v', hv', le_rfl⟩

/-- A map that lacks a key of another has fewer keys. -/
theorem length_lt_of_keys {m m' : Map K V} (h : ∀ k ∈ m, k ∈ m') {k : K} (hk : k ∉ m) (hk' : k ∈ m') :
    m.entries.length < m'.entries.length := by
  obtain ⟨v', hv'⟩ := mem_iff_lookup.1 hk'
  have herase := sumOver_eq_add_erase (fun _ => 1) hv'
  rw [← length_eq_sumOver, ← length_eq_sumOver] at herase
  have hle : m.entries.length ≤ (m'.erase k).entries.length := by
    refine length_le_of_keys fun k' hmem => ?_
    have hne : k' ≠ k := by
      rintro rfl
      exact hk hmem
    rw [AList.mem_erase]
    exact ⟨hne, h k' hmem⟩
  omega

/-- The key whose entry has the least rank. -/
def leastKey {R : Type} [Preorder R] [DecidableLT R] (rank : K → V → R) (m : Map K V) : Option K :=
  (m.entries.argmin fun e => rank e.1 e.2).map Sigma.fst

omit [DecidableEq K] in
theorem leastKey_mem {R : Type} [Preorder R] [DecidableLT R] {rank : K → V → R} {m : Map K V} {k : K}
    (h : leastKey rank m = some k) : k ∈ m := by
  obtain ⟨e, he, rfl⟩ := Option.map_eq_some_iff.1 h
  exact List.mem_map_of_mem (List.argmin_mem he)

omit [DecidableEq K] in
theorem exists_leastKey {R : Type} [Preorder R] [DecidableLT R] (rank : K → V → R) {m : Map K V}
    (h : 0 < m.entries.length) : ∃ k, leastKey rank m = some k := by
  unfold leastKey
  rcases hleast : m.entries.argmin (fun e => rank e.1 e.2) with _ | e
  · rw [List.argmin_eq_none.1 hleast] at h
    cases h
  · exact ⟨e.1, congrArg (Option.map Sigma.fst) hleast⟩

/-- The weight of a value that is put into a map, and of the rest. -/
theorem sumOver_insert (f : V → Nat) (m : Map K V) (k : K) (v : V) :
    sumOver f (m.insert k v) = f v + sumOver f (m.erase k) := by
  unfold sumOver
  rw [AList.entries_insert, List.map_cons, List.sum_cons]
  rfl

theorem length_insert (m : Map K V) (k : K) (v : V) :
    (m.insert k v).entries.length = (m.erase k).entries.length + 1 := by
  rw [AList.entries_insert, List.length_cons]
  rfl

/-- The elements at a key, and those at the other keys. -/
theorem sumOver_length_eq (m : Map K (List V)) (k : K) : sumOver List.length m =
    ((m.lookup k).getD []).length + sumOver List.length (m.erase k) := by
  rcases hlookup : m.lookup k with _ | l
  · have hno : k ∉ m := AList.lookup_eq_none.1 hlookup
    have herase : (m.erase k).entries = m.entries := List.kerase_of_notMem_keys hno
    unfold sumOver
    rw [herase]
    exact (Nat.zero_add _).symm
  · exact sumOver_eq_add_erase _ hlookup

/-- A key that goes is one less. -/
theorem length_erase_of_mem {m : Map K V} {k : K} (h : k ∈ m) :
    (m.erase k).entries.length + 1 = m.entries.length := by
  obtain ⟨v, hv⟩ := mem_iff_lookup.1 h
  have hsum := sumOver_eq_add_erase (fun _ => 1) hv
  rw [← length_eq_sumOver, ← length_eq_sumOver] at hsum
  omega

end Argos.Lib
