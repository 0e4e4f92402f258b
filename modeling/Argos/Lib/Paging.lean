import Mathlib.Data.List.Sort
import Mathlib.Order.Basic

/-!
# Pages of an ordered list

A list in strictly increasing order is read in pages: a page is the first `limit` entries behind a
cursor, and the cursor of the next page is the last entry of this one, when a probe of one entry more
has found that there is another. `page_next` says that the next page goes on where this one ended.
-/

namespace Argos.Lib

variable {α : Type}

/-- The cursor behind a page of `limit` entries, from a probe of one entry more. -/
def cursor (rest : List α) (limit : Nat) : Option α :=
  if (rest.take (limit + 1)).length > limit then (rest.take (limit + 1))[limit - 1]? else none

/-- There is no cursor behind the last page. -/
theorem cursor_eq_none {rest : List α} {limit : Nat} (h : rest.length ≤ limit) :
    cursor rest limit = none := by
  unfold cursor
  rw [if_neg]
  rw [List.length_take]
  omega

/-- Behind a full page with more to come, the cursor is the last entry of the page. -/
theorem cursor_eq_getLast {rest : List α} {limit : Nat} (hlimit : 1 ≤ limit)
    (h : limit < rest.length) : cursor rest limit = (rest.take limit).getLast? ∧
      ∃ c, cursor rest limit = some c := by
  have hcursor : cursor rest limit = rest[limit - 1]? := by
    unfold cursor
    rw [if_pos (by rw [List.length_take]; omega), List.getElem?_take_of_lt (by omega)]
  have hlast : (rest.take limit).getLast? = rest[limit - 1]? := by
    rw [List.getLast?_eq_getElem?, List.length_take, min_eq_left h.le,
      List.getElem?_take_of_lt (by omega)]
  have hin : limit - 1 < rest.length := by omega
  exact ⟨hcursor.trans hlast.symm, rest[limit - 1], by rw [hcursor, List.getElem?_eq_getElem]⟩

variable [LinearOrder α]

/-- What is greater than the last entry of a prefix of an ordered list is the rest of the list. -/
theorem filter_lt_append {xs ys : List α} (h : (xs ++ ys).Pairwise (· < ·)) {c : α}
    (hc : xs.getLast? = some c) : (xs ++ ys).filter (fun x => c < x) = ys := by
  rw [List.pairwise_append] at h
  obtain ⟨hxs, -, hall⟩ := h
  have hmem : c ∈ xs := List.mem_of_getLast? hc
  have hbefore : xs.filter (fun x => c < x) = [] := by
    rw [List.filter_eq_nil_iff]
    intro x hx
    obtain ⟨front, rfl⟩ := List.getLast?_eq_some_iff.1 hc
    rw [List.pairwise_append] at hxs
    rcases List.mem_append.1 hx with hx | hx
    · simpa using (hxs.2.2 x hx c (by simp)).le
    · simp [List.mem_singleton.1 hx]
  have hafter : ys.filter (fun x => c < x) = ys := by
    rw [List.filter_eq_self]
    intro y hy
    simpa using hall c hmem y hy
  rw [List.filter_append, hbefore, hafter, List.nil_append]

/-- The next page goes on where this one ended. -/
theorem page_next {l rest : List α} (hsorted : l.Pairwise (· < ·)) {before : List α}
    (hsplit : l = before ++ rest) {limit : Nat} (hlimit : 1 ≤ limit) (hmore : limit < rest.length)
    {c : α} (hc : cursor rest limit = some c) :
    l.filter (fun x => c < x) = rest.drop limit := by
  have hlast : (rest.take limit).getLast? = some c :=
    (cursor_eq_getLast hlimit hmore).1.symm.trans hc
  have heq : l = (before ++ rest.take limit) ++ rest.drop limit := by
    rw [List.append_assoc, List.take_append_drop, hsplit]
  rw [heq] at hsorted ⊢
  refine filter_lt_append hsorted ?_
  rw [List.getLast?_append, hlast]
  rfl

end Argos.Lib
