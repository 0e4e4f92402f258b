import Argos.Lib.Trees
import Mathlib.Data.List.Sort
import Mathlib.Data.String.Basic

/-!
# A canonical form of JSON values

`canonical` sorts the fields of every object by their keys. Two objects with the same canonical form
have canonically equal fields (`canonical_object`), whatever the order in which the fields stand, so
that a value can be compared by comparing what it is read for.
-/

namespace Argos.Lib.Tree

/-- The fields of an object in the order of their keys. -/
def sortFields (fields : List (String × Tree)) : List (String × Tree) :=
  fields.insertionSort fun a b => a.1 ≤ b.1

mutual

/-- A value whose objects have their fields in the order of the keys. -/
def canonical : Tree → Tree
  | array items => array (canonicalItems items)
  | object fields => object (sortFields (canonicalFields fields))
  | null => null
  | bool b => bool b
  | int n => int n
  | float q => float q
  | text s => text s

/-- Every item in its canonical form. -/
def canonicalItems : List Tree → List Tree
  | [] => []
  | v :: rest => canonical v :: canonicalItems rest

/-- Every field in its canonical form. -/
def canonicalFields : List (String × Tree) → List (String × Tree)
  | [] => []
  | (k, v) :: rest => (k, canonical v) :: canonicalFields rest

end

/-- The field with a key is taken away. -/
def removeField (key : String) (fields : List (String × Tree)) : List (String × Tree) :=
  fields.filter fun f => f.1 ≠ key

/-- The field with a key has another value. -/
def setField (key : String) (value : Tree) (fields : List (String × Tree)) : List (String × Tree) :=
  fields.map fun f => if f.1 = key then (key, value) else f

/-! ## Fields -/

variable {fields fields' : List (String × Tree)}

theorem canonicalItems_eq_map (items : List Tree) : canonicalItems items = items.map canonical := by
  induction items with
  | nil => rfl
  | cons v rest ih => rw [canonicalItems, ih, List.map_cons]

theorem keys_canonicalFields (fields : List (String × Tree)) :
    (canonicalFields fields).map (·.1) = fields.map (·.1) := by
  induction fields with
  | nil => rfl
  | cons f rest ih =>
    obtain ⟨k, v⟩ := f
    rw [canonicalFields, List.map_cons, List.map_cons, ih]

theorem field_canonicalFields (key : String) (fields : List (String × Tree)) :
    field key (canonicalFields fields) = (field key fields).map canonical := by
  induction fields with
  | nil => rfl
  | cons f rest ih =>
    obtain ⟨k, v⟩ := f
    rw [canonicalFields, field, field]
    split_ifs
    · rfl
    · exact ih

/-- With distinct keys, a field is found wherever it stands. -/
theorem field_eq_some_iff (hkeys : (fields.map (·.1)).Nodup) {key : String} {v : Tree} :
    field key fields = some v ↔ (key, v) ∈ fields := by
  induction fields with
  | nil => simp [field]
  | cons f rest ih =>
    obtain ⟨k, u⟩ := f
    rw [List.map_cons, List.nodup_cons] at hkeys
    rw [field, List.mem_cons, Prod.mk.injEq]
    split_ifs with hk
    · subst hk
      constructor
      · intro h
        exact .inl ⟨rfl, (Option.some.inj h).symm⟩
      · rintro (⟨-, rfl⟩ | hmem)
        · rfl
        · exact absurd (List.mem_map_of_mem hmem) hkeys.1
    · rw [ih hkeys.2]
      exact ⟨.inr, fun h => h.resolve_left fun heq => hk heq.1.symm⟩

/-- The order of the fields does not matter, if their keys are distinct. -/
theorem field_sortFields (hkeys : (fields.map (·.1)).Nodup) (key : String) :
    field key (sortFields fields) = field key fields := by
  have hperm : (sortFields fields).Perm fields := List.perm_insertionSort _ fields
  have hsorted : ((sortFields fields).map (·.1)).Nodup := (hperm.map _).nodup_iff.2 hkeys
  ext v
  rw [field_eq_some_iff hsorted, field_eq_some_iff hkeys, hperm.mem_iff]

/-- Objects with one canonical form have canonically equal fields. -/
theorem canonical_object (hkeys : (fields.map (·.1)).Nodup) (hkeys' : (fields'.map (·.1)).Nodup)
    (h : canonical (object fields) = canonical (object fields')) (key : String) :
    (field key fields).map canonical = (field key fields').map canonical := by
  rw [canonical, canonical, object.injEq] at h
  rw [← field_canonicalFields, ← field_canonicalFields,
    ← field_sortFields (by rwa [keys_canonicalFields]), h, field_sortFields (by rwa [keys_canonicalFields])]

theorem canonicalFields_eq_zip (fields : List (String × Tree)) :
    canonicalFields fields = (fields.map (·.1)).zip (fields.map fun f => canonical f.2) := by
  induction fields with
  | nil => rfl
  | cons f rest ih =>
    obtain ⟨k, v⟩ := f
    rw [canonicalFields, ih, List.map_cons, List.map_cons, List.zip_cons_cons]

/-- Objects with the same keys have one canonical form exactly when their values have. -/
theorem canonical_object_iff (hsame : fields.map (·.1) = fields'.map (·.1))
    (hkeys : (fields.map (·.1)).Nodup) :
    canonical (object fields) = canonical (object fields') ↔
      fields.map (fun f => canonical f.2) = fields'.map fun f => canonical f.2 := by
  have hkeys' : (fields'.map (·.1)).Nodup := hsame ▸ hkeys
  constructor
  · intro h
    have hlength : fields.length = fields'.length := by
      rw [← List.length_map (fun f : String × Tree => f.1), hsame, List.length_map]
    refine List.ext_getElem (by simp [hlength]) fun n hn hn' => ?_
    rw [List.length_map] at hn hn'
    rw [List.getElem_map, List.getElem_map]
    -- the two values stand under one key
    have hkey : fields[n].1 = fields'[n].1 := by
      have := congrArg (fun l => l[n]?) hsame
      simpa [List.getElem?_map, List.getElem?_eq_getElem hn, List.getElem?_eq_getElem hn'] using this
    have hfield := canonical_object hkeys hkeys' h fields[n].1
    rw [(field_eq_some_iff hkeys).2 (show (fields[n].1, fields[n].2) ∈ fields from List.getElem_mem hn),
      hkey, (field_eq_some_iff hkeys').2
        (show (fields'[n].1, fields'[n].2) ∈ fields' from List.getElem_mem hn')] at hfield
    exact Option.some.inj hfield
  · intro h
    rw [canonical, canonical, canonicalFields_eq_zip, canonicalFields_eq_zip, h, hsame]

theorem canonical_array {items items' : List Tree}
    (h : canonical (array items) = canonical (array items')) :
    items.map canonical = items'.map canonical := by
  rw [canonical, canonical, array.injEq, canonicalItems_eq_map, canonicalItems_eq_map] at h
  exact h

end Argos.Lib.Tree
