import Mathlib.Data.List.Basic

/-!
# The deepest prefix

Each of a list of things stands at a point, and a thing covers the paths behind its point. `deepest`
is the thing at the longest point that covers a path, if just one stands there. `scope` of a path
keeps the things that cover it from deepest and those that stand behind it. It is all that a path
behind it needs: `deepest_scope` says that things out of the scope never change what is deepest
there.
-/

namespace Argos.Lib

/-- The only element of a list. -/
def only {β : Type*} : List β → Option β
  | [x] => some x
  | _ => none

section Prefixes

variable {α β : Type*} [DecidableEq α] (point : β → List α)

/-- The depths at which a path is covered, and the greatest of them. -/
def greatestDepth (path : List α) (things : List β) : Option ℕ :=
  ((things.filter fun m => point m <+: path).map fun m => (point m).length).max?

/-- The thing that covers a path from deepest, if it is alone there. -/
def deepest (path : List α) (things : List β) : Option β :=
  (greatestDepth point path things).bind fun depth =>
    only (things.filter fun m => point m <+: path ∧ (point m).length = depth)

/-- The things that cover a path from deepest, and those behind it. -/
def scope (path : List α) (things : List β) : List β :=
  things.filter fun m =>
    (point m <+: path ∧ some (point m).length = greatestDepth point path things) ∨ path <+: point m

variable {point} {path below : List α} {things : List β} {depth : ℕ}

theorem greatestDepth_eq_some_iff :
    greatestDepth point path things = some depth ↔
      (∃ m ∈ things, point m <+: path ∧ (point m).length = depth) ∧
        ∀ m ∈ things, point m <+: path → (point m).length ≤ depth := by
  rw [greatestDepth, List.max?_eq_some_iff]
  simp only [List.mem_map, List.mem_filter, decide_eq_true_eq, and_assoc, forall_exists_index, and_imp]
  constructor
  · rintro ⟨hmem, hle⟩
    exact ⟨hmem, fun m hm hcover => hle _ m hm hcover rfl⟩
  · rintro ⟨hmem, hle⟩
    refine ⟨hmem, ?_⟩
    rintro _ m hm hcover rfl
    exact hle m hm hcover

theorem greatestDepth_eq_none_iff :
    greatestDepth point path things = none ↔ ∀ m ∈ things, ¬ point m <+: path := by
  rw [greatestDepth, List.max?_eq_none_iff, List.map_eq_nil_iff, List.filter_eq_nil_iff]
  simp only [decide_eq_true_eq]

/-- A thing that covers a path from deepest is in the scope of every path before it. -/
theorem mem_scope_of_deepest (hbelow : path <+: below)
    (hdepth : greatestDepth point below things = some depth) {m : β} (hm : m ∈ things)
    (hcover : point m <+: below) (hlength : (point m).length = depth) :
    m ∈ scope point path things := by
  rw [scope, List.mem_filter, decide_eq_true_eq]
  refine ⟨hm, ?_⟩
  obtain hbefore | hbehind := List.prefix_or_prefix_of_prefix hcover hbelow
  · -- nothing before the path is deeper, since it would cover the path below as well
    refine .inl ⟨hbefore, (greatestDepth_eq_some_iff.2 ⟨⟨m, hm, hbefore, rfl⟩, ?_⟩).symm⟩
    intro m' hm' hcover'
    rw [hlength]
    exact (greatestDepth_eq_some_iff.1 hdepth).2 m' hm' (hcover'.trans hbelow)
  · exact .inr hbehind

theorem greatestDepth_scope (hbelow : path <+: below) :
    greatestDepth point below (scope point path things) = greatestDepth point below things := by
  have hsub : ∀ m ∈ scope point path things, m ∈ things := fun m hm => (List.mem_filter.1 hm).1
  rcases hdepth : greatestDepth point below things with _ | depth
  · rw [greatestDepth_eq_none_iff] at hdepth ⊢
    exact fun m hm => hdepth m (hsub m hm)
  · have hmax := greatestDepth_eq_some_iff.1 hdepth
    obtain ⟨⟨m, hm, hcover, hlength⟩, hle⟩ := hmax
    have hin := mem_scope_of_deepest hbelow hdepth hm hcover hlength
    exact greatestDepth_eq_some_iff.2 ⟨⟨m, hin, hcover, hlength⟩, fun m' hm' => hle m' (hsub m' hm')⟩

/-- The scope of a path decides what is deepest at every path behind it. -/
theorem deepest_scope (hbelow : path <+: below) :
    deepest point below (scope point path things) = deepest point below things := by
  unfold deepest
  rw [greatestDepth_scope hbelow]
  rcases hdepth : greatestDepth point below things with _ | depth
  · rfl
  have hfilter : ((scope point path things).filter fun m =>
      decide (point m <+: below ∧ (point m).length = depth)) =
        things.filter fun m => decide (point m <+: below ∧ (point m).length = depth) := by
    have hin := @mem_scope_of_deepest α β _ point path below things depth hbelow hdepth
    unfold scope at hin ⊢
    rw [List.filter_filter]
    refine List.filter_congr fun m hm => ?_
    by_cases hcover : point m <+: below ∧ (point m).length = depth
    · have hscope := (List.mem_filter.1 (hin hm hcover.1 hcover.2)).2
      rw [hscope, Bool.and_true]
    · rw [decide_eq_false hcover, Bool.false_and]
  rw [Option.bind_some, Option.bind_some, hfilter]

/-- Where the points are distinct, every covered path has a deepest thing. -/
theorem deepest_ne_none (hdistinct : (things.map point).Nodup)
    (hcovered : ∃ m ∈ things, point m <+: path) : deepest point path things ≠ none := by
  obtain ⟨depth, hdepth⟩ : ∃ depth, greatestDepth point path things = some depth := by
    rw [← Option.ne_none_iff_exists', Ne, greatestDepth_eq_none_iff]
    push Not
    exact hcovered
  obtain ⟨⟨m, hm, hcover, hlength⟩, -⟩ := greatestDepth_eq_some_iff.1 hdepth
  -- the candidates all stand at one point, so there is only one of them
  set candidates := things.filter fun m => decide (point m <+: path ∧ (point m).length = depth)
    with hcandidates
  have hmem : ∀ x ∈ candidates, point x = point m := by
    intro x hx
    have hx' := of_decide_eq_true (List.mem_filter.1 hx).2
    exact (List.prefix_of_prefix_length_le hx'.1 hcover (by omega)).eq_of_length (by omega)
  have hnodup : (candidates.map point).Nodup :=
    (List.filter_sublist.map point).nodup hdistinct
  have hm' : m ∈ candidates := List.mem_filter.2 ⟨hm, decide_eq_true ⟨hcover, hlength⟩⟩
  rw [deepest, hdepth, Option.bind_some, ← hcandidates]
  match candidates, hm', hmem, hnodup with
  | [x], _, _, _ => exact Option.some_ne_none x
  | x :: y :: _, _, hmem, hnodup =>
    have hne := (List.nodup_cons.1 hnodup).1
    rw [hmem x (by simp), ← hmem y (by simp)] at hne
    exact absurd (by simp) hne

/-- A path that is covered is covered in its scope. -/
theorem covered_scope (h : ∃ m ∈ things, point m <+: path) :
    ∃ m ∈ scope point path things, point m <+: path := by
  obtain ⟨depth, hdepth⟩ : ∃ depth, greatestDepth point path things = some depth := by
    rw [← Option.ne_none_iff_exists', Ne, greatestDepth_eq_none_iff]
    push Not
    exact h
  obtain ⟨⟨m, hm, hcover, hlength⟩, -⟩ := greatestDepth_eq_some_iff.1 hdepth
  exact ⟨m, mem_scope_of_deepest List.prefix_rfl hdepth hm hcover hlength, hcover⟩

end Prefixes

end Argos.Lib
