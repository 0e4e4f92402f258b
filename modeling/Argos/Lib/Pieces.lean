import Mathlib.Data.List.Basic
import Mathlib.Tactic.Ring

/-!
# Cutting a list into pieces of one size

`pieces n l` cuts `l` into pieces of `n` elements, of which the last may be shorter. Joined, they are
the list again (`flatten_pieces`). `sizes n m` are the lengths of the pieces of `m` elements: all `n`
but the last, which is not empty. A list of sizes of that form is the one of its sum (`sizes_eq`), and
that is how a list of sizes that was checked by other means is recognised.
-/

namespace Argos.Lib

variable {α : Type*}

/-- The list in pieces of `n` elements, the last of them possibly shorter. -/
def pieces (n : Nat) (l : List α) : List (List α) :=
  if _h : n = 0 ∨ l = [] then [] else l.take n :: pieces n (l.drop n)
termination_by l.length
decreasing_by
  obtain ⟨hn, hl⟩ := not_or.1 _h
  have hpos := List.length_pos_iff.2 hl
  rw [List.length_drop]
  omega

@[simp]
theorem pieces_nil (n : Nat) : pieces n ([] : List α) = [] := by
  rw [pieces, dif_pos (.inr rfl)]

theorem pieces_eq {n : Nat} (hn : 0 < n) {l : List α} (hl : l ≠ []) :
    pieces n l = l.take n :: pieces n (l.drop n) := by
  rw [pieces, dif_neg]
  rintro (h | h)
  · omega
  · exact hl h

/-- The induction that `pieces` follows: the empty list, and a list whose rest behind the first `n`
elements is known. -/
theorem pieces_induction {n : Nat} (hn : 0 < n) {motive : List α → Prop} (nil : motive [])
    (step : ∀ l, l ≠ [] → motive (l.drop n) → motive l) (l : List α) : motive l := by
  induction h : l.length using Nat.strong_induction_on generalizing l with
  | _ m ih =>
    by_cases hl : l = []
    · exact hl ▸ nil
    · have hpos := List.length_pos_iff.2 hl
      refine step l hl (ih (l.drop n).length ?_ _ rfl)
      rw [List.length_drop]
      omega

/-- The pieces make up the list. -/
theorem flatten_pieces {n : Nat} (hn : 0 < n) (l : List α) : (pieces n l).flatten = l := by
  induction l using pieces_induction hn with
  | nil => rw [pieces_nil]; rfl
  | step l hl ih => rw [pieces_eq hn hl, List.flatten_cons, ih, List.take_append_drop]

theorem length_le_of_mem_pieces {n : Nat} (hn : 0 < n) {l p : List α} (h : p ∈ pieces n l) :
    p.length ≤ n := by
  induction l using pieces_induction hn with
  | nil => simp at h
  | step l hl ih =>
    rw [pieces_eq hn hl] at h
    obtain rfl | h := List.mem_cons.1 h
    · exact List.length_take_le n l
    · exact ih h

/-! ## The sizes of the pieces -/

/-- The lengths of the pieces of a list of `m` elements. -/
def sizes (n m : Nat) : List Nat :=
  if m = 0 then [] else List.replicate ((m - 1) / n) n ++ [m - (m - 1) / n * n]

/-- Sizes that are full but for a last one that is not empty are the sizes of their sum. -/
theorem sizes_eq {n k last : Nat} (hpos : 0 < last) (hle : last ≤ n) :
    sizes n (k * n + last) = List.replicate k n ++ [last] := by
  have hk : (k * n + last - 1) / n = k := by
    have hsplit : k * n + last - 1 = last - 1 + n * k := by
      rw [Nat.mul_comm n k]
      omega
    rw [hsplit, Nat.add_mul_div_left _ _ (by omega), Nat.div_eq_of_lt (by omega), Nat.zero_add]
  rw [sizes, if_neg (by omega), hk, Nat.add_sub_cancel_left]

/-- There are as many pieces as the length divided by their size, rounded up. -/
theorem length_sizes {n : Nat} (hn : 0 < n) (m : Nat) : (sizes n m).length = (m + n - 1) / n := by
  unfold sizes
  split_ifs with hm
  · rw [hm, List.length_nil, Nat.zero_add, Nat.div_eq_of_lt (by omega)]
  · have hsplit : m + n - 1 = m - 1 + n := by omega
    rw [List.length_append, List.length_replicate, List.length_singleton, hsplit,
      Nat.add_div_right _ hn]

/-- The lengths of the pieces of a list that is not empty. -/
theorem map_length_pieces {n : Nat} (hn : 0 < n) (l : List α) :
    l ≠ [] → ∃ k last, (pieces n l).map List.length = List.replicate k n ++ [last] ∧ 0 < last ∧
      last ≤ n ∧ l.length = k * n + last := by
  induction l using pieces_induction hn with
  | nil => exact fun h => absurd rfl h
  | step l hl ih =>
    intro _
    have hpos := List.length_pos_iff.2 hl
    rw [pieces_eq hn hl, List.map_cons, List.length_take]
    by_cases hrest : l.drop n = []
    · -- the last piece
      rw [List.drop_eq_nil_iff] at hrest
      refine ⟨0, l.length, ?_, hpos, hrest, by omega⟩
      rw [List.drop_eq_nil_of_le hrest, pieces_nil, Nat.min_eq_right hrest]
      rfl
    · obtain ⟨k, last, hmap, hlast, hle, hlength⟩ := ih hrest
      have hlt : n < l.length := by
        by_contra h
        exact hrest (List.drop_eq_nil_of_le (by omega))
      rw [List.length_drop] at hlength
      refine ⟨k + 1, last, ?_, hlast, hle, ?_⟩
      · rw [hmap, Nat.min_eq_left hlt.le]
        rfl
      · calc l.length = (l.length - n) + n := by omega
          _ = k * n + last + n := by rw [hlength]
          _ = (k + 1) * n + last := by ring

/-- The sizes of the pieces are those of the length of the list. -/
theorem map_length_pieces_eq {n : Nat} (hn : 0 < n) (l : List α) :
    (pieces n l).map List.length = sizes n l.length := by
  by_cases hl : l = []
  · rw [hl, pieces_nil]
    rfl
  · obtain ⟨k, last, hmap, hpos, hle, hlength⟩ := map_length_pieces hn l hl
    rw [hmap, hlength, sizes_eq hpos hle]

end Argos.Lib
