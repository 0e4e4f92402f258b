import Mathlib.Data.Rat.Defs

/-!
# Trees of JSON and what is masked in them

`Tree` is a JSON value: the fields of an object are a list of keys and values. `mask` puts a cover in the
place of each field that a predicate hides, and goes into the others. Masking twice is masking once
(`mask_mask`), if the predicate still sees a field as hidden, or not, after masking.

A *figure* is a number or a truth value. If no hidden field holds one (`Shielded`), every figure of a tree
is where it was (`treeAt_mask`).
-/

namespace Argos.Lib

/-- A JSON value. -/
inductive Tree where
  | null
  | bool (b : Bool)
  | int (n : Int)
  | float (q : ℚ)
  | text (s : String)
  | array (items : List Tree)
  | object (fields : List (String × Tree))

namespace Tree

/-- A number or a truth value. -/
def isFigure : Tree → Bool
  | bool _ => true
  | int _ => true
  | float _ => true
  | _ => false

/-- A text. -/
def isText : Tree → Bool
  | text _ => true
  | _ => false

/-- The value of the first field with a key. -/
def field (key : String) : List (String × Tree) → Option Tree
  | [] => none
  | (k, v) :: rest => if k = key then some v else field key rest

/-- A step into an object or an array. -/
inductive Step where
  | key (k : String)
  | index (n : Nat)
deriving DecidableEq, Repr

/-- What is below a tree in one step. -/
def child : Step → Tree → Option Tree
  | .key k, object fields => field k fields
  | .index n, array items => items[n]?
  | _, _ => none

/-- What is at a path in a tree. -/
def treeAt : List Step → Tree → Option Tree
  | [], v => some v
  | step :: path, v => (child step v).bind (treeAt path)

/-! ## Masking -/

section Mask

variable (hidden : String → Tree → Bool) (cover : Tree)

mutual

/-- A tree with a cover in the place of each hidden field. -/
def mask : Tree → Tree
  | array items => array (maskItems items)
  | object fields => object (maskFields fields)
  | null => null
  | bool b => bool b
  | int n => int n
  | float q => float q
  | text s => text s

/-- Every item is masked. -/
def maskItems : List Tree → List Tree
  | [] => []
  | v :: rest => mask v :: maskItems rest

/-- Every field is covered or masked. -/
def maskFields : List (String × Tree) → List (String × Tree)
  | [] => []
  | (k, v) :: rest => (k, if hidden k v then cover else mask v) :: maskFields rest

end

mutual

/-- There is no figure in a tree. -/
def Textual : Tree → Prop
  | array items => TextualItems items
  | object fields => TextualFields fields
  | null => True
  | text _ => True
  | _ => False

/-- There is no figure in the items. -/
def TextualItems : List Tree → Prop
  | [] => True
  | v :: rest => Textual v ∧ TextualItems rest

/-- There is no figure in the fields. -/
def TextualFields : List (String × Tree) → Prop
  | [] => True
  | (_, v) :: rest => Textual v ∧ TextualFields rest

end

mutual

/-- There is no figure in a hidden field. -/
def Shielded : Tree → Prop
  | array items => ShieldedItems items
  | object fields => ShieldedFields fields
  | _ => True

/-- Every item is shielded. -/
def ShieldedItems : List Tree → Prop
  | [] => True
  | v :: rest => Shielded v ∧ ShieldedItems rest

/-- Every field that is not shielded is hidden and has no figure. -/
def ShieldedFields : List (String × Tree) → Prop
  | [] => True
  | (k, v) :: rest => (if hidden k v then Textual v else Shielded v) ∧ ShieldedFields rest

end

/-- The items are masked one by one. -/
theorem maskItems_eq_map (items : List Tree) :
    maskItems hidden cover items = items.map (mask hidden cover) := by
  induction items with
  | nil => rfl
  | cons v rest ih => rw [maskItems, ih, List.map_cons]

/-- Covers and masks leave a text a text, and make no other tree one. -/
theorem isText_mask (v : Tree) : (mask hidden cover v).isText = v.isText := by
  cases v <;> rfl

variable {hidden cover}

variable (hidden cover) in
/-- A cover is hidden wherever something is hidden, and what is not hidden is not so after masking. -/
structure Settled : Prop where
  covered : ∀ k v, hidden k v = true → hidden k cover = true
  visible : ∀ k v, hidden k v = false → hidden k (mask hidden cover v) = false

mutual

/-- Masking twice is masking once. -/
theorem mask_mask (h : Settled hidden cover) :
    ∀ v, mask hidden cover (mask hidden cover v) = mask hidden cover v
  | array items => by rw [mask, mask, maskItems_maskItems h items]
  | object fields => by rw [mask, mask, maskFields_maskFields h fields]
  | null => rfl
  | bool _ => rfl
  | int _ => rfl
  | float _ => rfl
  | text _ => rfl

theorem maskItems_maskItems (h : Settled hidden cover) :
    ∀ items, maskItems hidden cover (maskItems hidden cover items) = maskItems hidden cover items
  | [] => rfl
  | v :: rest => by rw [maskItems, maskItems, mask_mask h v, maskItems_maskItems h rest]

theorem maskFields_maskFields (h : Settled hidden cover) :
    ∀ fields, maskFields hidden cover (maskFields hidden cover fields) = maskFields hidden cover fields
  | [] => rfl
  | (k, v) :: rest => by
    rw [maskFields, maskFields, maskFields_maskFields h rest]
    by_cases hv : hidden k v = true
    · rw [if_pos hv, if_pos (h.covered k v hv)]
    · have hmasked := h.visible k v (Bool.not_eq_true _ ▸ hv)
      rw [if_neg hv, if_neg (by rw [hmasked]; exact Bool.false_ne_true), mask_mask h v]

end

/-! ## Figures -/

theorem shieldedItems_iff {items : List Tree} :
    ShieldedItems hidden items ↔ ∀ v ∈ items, Shielded hidden v := by
  induction items with
  | nil => simp [ShieldedItems]
  | cons v rest ih => simp [ShieldedItems, ih]

theorem textualItems_iff {items : List Tree} : TextualItems items ↔ ∀ v ∈ items, Textual v := by
  induction items with
  | nil => simp [TextualItems]
  | cons v rest ih => simp [TextualItems, ih]

theorem TextualFields.field {fields : List (String × Tree)} (h : TextualFields fields) {k : String}
    {v : Tree} (hv : field k fields = some v) : Textual v := by
  induction fields with
  | nil => cases hv
  | cons f rest ih =>
    unfold Tree.field at hv
    split_ifs at hv
    · obtain rfl := Option.some.inj hv
      exact h.1
    · exact ih h.2 hv

/-- A field that is found is found masked, and shielded; or it is found covered, and had no figure. -/
theorem ShieldedFields.field {fields : List (String × Tree)} (h : ShieldedFields hidden fields)
    {k : String} {v : Tree} (hv : field k fields = some v) :
    (Tree.field k (maskFields hidden cover fields) = some (mask hidden cover v) ∧ Shielded hidden v) ∨
      Textual v := by
  induction fields with
  | nil => cases hv
  | cons f rest ih =>
    obtain ⟨key, w⟩ := f
    unfold Tree.field at hv ⊢
    unfold maskFields
    dsimp only at hv ⊢
    by_cases hk : key = k
    · rw [if_pos hk] at hv ⊢
      obtain rfl := Option.some.inj hv
      have hfirst := h.1
      by_cases hhidden : hidden key w = true
      · rw [if_pos hhidden] at hfirst
        exact .inr hfirst
      · rw [if_neg hhidden] at hfirst ⊢
        exact .inl ⟨rfl, hfirst⟩
    · rw [if_neg hk] at hv ⊢
      exact ih h.2 hv

/-- There is no figure below a tree without figures. -/
theorem Textual.treeAt {path : List Step} {v w : Tree} (h : Textual v) (hw : treeAt path v = some w) :
    w.isFigure = false := by
  induction path generalizing v with
  | nil =>
    obtain rfl := Option.some.inj hw
    cases v <;> first | rfl | exact absurd h id
  | cons step path ih =>
    obtain ⟨u, hu, hbelow⟩ := Option.bind_eq_some_iff.1 hw
    cases v with
    | array items =>
      cases step with
      | key k => cases hu
      | index n => exact ih (textualItems_iff.1 h u (List.mem_of_getElem? hu)) hbelow
    | object fields =>
      cases step with
      | key k => exact ih (TextualFields.field h hu) hbelow
      | index n => cases hu
    | _ => cases step <;> cases hu

/-- Every figure of a shielded tree is where it was. -/
theorem treeAt_mask {path : List Step} {v w : Tree} (h : Shielded hidden v)
    (hw : treeAt path v = some w) (hfigure : w.isFigure = true) :
    treeAt path (mask hidden cover v) = some w := by
  induction path generalizing v with
  | nil =>
    obtain rfl := Option.some.inj hw
    cases v <;> first | rfl | cases hfigure
  | cons step path ih =>
    obtain ⟨u, hu, hbelow⟩ := Option.bind_eq_some_iff.1 hw
    refine Option.bind_eq_some_iff.2 ⟨mask hidden cover u, ?_⟩
    cases v with
    | array items =>
      cases step with
      | key k => cases hu
      | index n =>
        have hu' : items[n]? = some u := hu
        refine ⟨?_, ih (shieldedItems_iff.1 h u (List.mem_of_getElem? hu)) hbelow⟩
        change (maskItems hidden cover items)[n]? = _
        rw [maskItems_eq_map, List.getElem?_map, hu']
        rfl
    | object fields =>
      cases step with
      | key k =>
        obtain ⟨hfield, hshielded⟩ | htextual := ShieldedFields.field h hu
        · exact ⟨hfield, ih hshielded hbelow⟩
        · rw [Textual.treeAt htextual hbelow] at hfigure
          cases hfigure
      | index n => cases hu
    | _ => cases step <;> cases hu

end Mask

end Tree

end Argos.Lib
