import Mathlib.Data.List.Induction
import Mathlib.Data.List.Nodup

/-!
# Samples of a stream

A report that counts a stream shows only its first values, up to a limit, and says whether there
were more. Three ways of sampling, each as a step that takes the next value, and what is sampled
after a whole stream: all values (`foldl_push`), the distinct ones (`foldl_pushNew`), the distinct
ones with how often each of them came (`foldl_count`).
-/

namespace Argos.Lib

/-! ## The first of a list -/

/-- The first value with a property is changed. -/
def updateFirst {α : Type} (p : α → Bool) (f : α → α) (values : List α) : List α :=
  values.modify (values.findIdx p) f

/-- Where the keys are different, the first value with a key is the only one. -/
theorem updateFirst_key {α κ : Type} [DecidableEq κ] (key : α → κ) (k : κ) (f : α → α)
    {values : List α} (h : (values.map key).Nodup) :
    updateFirst (fun a => key a = k) f values = values.map fun a => if key a = k then f a else a := by
  unfold updateFirst
  induction values with
  | nil => rfl
  | cons a rest ih =>
    rw [List.map_cons, List.nodup_cons] at h
    rw [List.findIdx_cons, List.map_cons]
    by_cases hkey : key a = k
    · -- the others have other keys
      rw [decide_eq_true hkey, cond_true, List.modify_zero_cons, if_pos hkey]
      congr 1
      refine (List.map_id rest).symm.trans (List.map_congr_left fun b hb => ?_)
      rw [if_neg fun hb' => h.1 (List.mem_map.2 ⟨b, hb, hb'.trans hkey.symm⟩), id]
    · rw [decide_eq_false hkey, cond_false, List.modify_succ_cons, if_neg hkey, ih h.2]

/-- Where the values are different, a change at a place is a change of the value there. -/
theorem modify_map {α β : Type} [DecidableEq α] {values : List α} (h : values.Nodup) {a : α}
    {place : Nat} (hplace : values[place]? = some a) (f : α → β) (g : β → β) :
    (values.map f).modify place g = values.map fun b => if b = a then g (f b) else f b := by
  refine List.ext_getElem? fun i => ?_
  rw [List.getElem?_modify, List.getElem?_map, List.getElem?_map]
  rcases hi : values[i]? with _ | b
  · rfl
  · have hsame : place = i ↔ b = a := by
      constructor
      · intro heq
        rw [← heq, hplace] at hi
        exact (Option.some.inj hi).symm
      · intro heq
        obtain ⟨hlt, -⟩ := List.getElem?_eq_some_iff.1 hplace
        exact (List.getElem?_inj hlt h).1 (hplace.trans (heq ▸ hi).symm)
    simp [hsame]

/-! ## Sampling -/

/-- The sampled values, and whether values were left out. -/
abbrev Sample (α : Type) := List α × Bool

namespace Sample

section Push

variable {α : Type}

/-- The next value of a stream. -/
def push (limit : Nat) (s : Sample α) (a : α) : Sample α :=
  if s.1.length < limit then (s.1 ++ [a], s.2) else (s.1, true)

/-- The sample of a stream. -/
def of (limit : Nat) (values : List α) : Sample α := (values.take limit, decide (limit < values.length))

theorem push_of (limit : Nat) (values : List α) (a : α) :
    (of limit values).push limit a = of limit (values ++ [a]) := by
  unfold of push
  rw [List.length_take, List.length_append, List.length_singleton]
  by_cases hroom : values.length < limit
  · -- all of them are sampled still
    rw [if_pos (by omega), List.take_of_length_le (by omega), List.take_of_length_le (by simp; omega)]
    simp only [Prod.mk.injEq, decide_eq_decide, true_and]
    omega
  · rw [if_neg (by omega), List.take_append_of_le_length (by omega)]
    simp only [Prod.mk.injEq, true_and, true_eq_decide_iff]
    omega

theorem foldl_push (limit : Nat) (values : List α) :
    values.foldl (push limit) ([], false) = of limit values := by
  induction values using List.reverseRecOn with
  | nil => simp [of]
  | append_singleton values a ih => rw [List.foldl_append, List.foldl_cons, List.foldl_nil, ih, push_of]

end Push

section New

variable {α : Type} [DecidableEq α]

/-- The values of a stream, each where it comes first. -/
def firsts (values : List α) : List α := values.eraseDups

@[simp] theorem firsts_nil : firsts ([] : List α) = [] := rfl

theorem mem_firsts {a : α} {values : List α} : a ∈ firsts values ↔ a ∈ values := List.mem_eraseDups

theorem firsts_concat (values : List α) (a : α) :
    firsts (values ++ [a]) = if a ∈ values then firsts values else firsts values ++ [a] := by
  unfold firsts
  rw [List.eraseDups_append]
  by_cases hmem : a ∈ values
  · simp [hmem, List.removeAll]
  · simp [hmem, List.removeAll, List.eraseDups_cons]

theorem nodup_firsts (values : List α) : (firsts values).Nodup := by
  induction values using List.reverseRecOn with
  | nil => exact List.nodup_nil
  | append_singleton values a ih =>
    rw [firsts_concat]
    split
    · exact ih
    next hnew => exact List.concat_eq_append ▸ ih.concat (mem_firsts.not.2 hnew)

/-- A value of the stream that is not sampled was left out. -/
theorem lt_length_firsts {limit : Nat} {values : List α} {a : α} (hmem : a ∈ values)
    (hout : a ∉ (firsts values).take limit) : limit < (firsts values).length := by
  by_contra hle
  rw [List.take_of_length_le (by omega)] at hout
  exact hout (mem_firsts.2 hmem)

/-- The next value of a stream, if it is not sampled yet. -/
def pushNew (limit : Nat) (s : Sample α) (a : α) : Sample α := if a ∈ s.1 then s else s.push limit a

theorem foldl_pushNew (limit : Nat) (values : List α) :
    values.foldl (pushNew limit) ([], false) = of limit (firsts values) := by
  induction values using List.reverseRecOn with
  | nil => simp [of]
  | append_singleton values a ih =>
    rw [List.foldl_append, List.foldl_cons, List.foldl_nil, ih, firsts_concat, pushNew]
    by_cases hmem : a ∈ values
    · rw [if_pos hmem]
      split
      · rfl
      next hout =>
        have hmore := lt_length_firsts hmem hout
        rw [push, if_neg (by simp only [of, List.length_take]; omega), of, decide_eq_true hmore]
    · have hout : a ∉ (of limit (firsts values)).1 := fun hin =>
        hmem (mem_firsts.1 (List.mem_of_mem_take hin))
      rw [if_neg hmem, if_neg hout, push_of]

end New

section Count

/-- Entries have the keys they were made for. -/
theorem keys_entries {α β : Type} {key : β → α} {entry : α → Nat → β}
    (hkey : ∀ a n, key (entry a n) = a) (values : List α) (n : α → Nat) : (values.map fun a => entry a (n a)).map key = values := by
  rw [List.map_map]
  exact (List.map_congr_left fun a _ => hkey a (n a)).trans (List.map_id _)

variable {α β : Type} [DecidableEq α] (key : β → α) (fresh : α → β) (bump : β → β)

/-- The next value of a stream, which is counted if it is sampled already. -/
def count (limit : Nat) (s : Sample β) (a : α) : Sample β :=
  if s.1.any fun b => key b = a then (updateFirst (fun b => key b = a) bump s.1, s.2)
  else s.push limit (fresh a)

variable {key fresh bump}

theorem any_entries {entry : α → Nat → β} (hkey : ∀ a n, key (entry a n) = a) (values : List α)
    (n : α → Nat) (a : α) :
    ((values.map fun b => entry b (n b)).any fun b => key b = a) = decide (a ∈ values) := by
  rw [Bool.eq_iff_iff]
  simp [hkey]

/-- A value of a sample comes once more. -/
theorem entries_concat {entry : α → Nat → β} {part values : List α} {a : α} (hout : a ∉ part) :
    (part.map fun b => entry b ((values ++ [a]).count b)) =
      part.map fun b => entry b (values.count b) := by
  refine List.map_congr_left fun b hb => ?_
  have hne : a ≠ b := fun heq => hout (heq ▸ hb)
  rw [List.count_append, List.count_singleton, beq_eq_false_iff_ne.2 hne, if_neg Bool.false_ne_true,
    Nat.add_zero]

theorem foldl_count {entry : α → Nat → β} (hkey : ∀ a n, key (entry a n) = a)
    (hfresh : ∀ a, fresh a = entry a 1) (hbump : ∀ a n, bump (entry a n) = entry a (n + 1))
    (limit : Nat) (values : List α) :
    values.foldl (count key fresh bump limit) ([], false) =
      of limit ((firsts values).map fun a => entry a (values.count a)) := by
  induction values using List.reverseRecOn with
  | nil => simp [of]
  | append_singleton values a ih =>
    have hkeys := keys_entries hkey ((firsts values).take limit) fun b => values.count b
    rw [List.foldl_append, List.foldl_cons, List.foldl_nil, ih, count, of, ← List.map_take,
      any_entries hkey]
    by_cases hin : a ∈ (firsts values).take limit
    · -- it is counted where it is
      have hmem := mem_firsts.1 (List.mem_of_mem_take hin)
      rw [if_pos (decide_eq_true hin), updateFirst_key key a bump
        (hkeys.symm ▸ (nodup_firsts values).sublist (List.take_sublist _ _)), firsts_concat,
        if_pos hmem, of, List.map_map, ← List.map_take, List.length_map, List.length_map]
      congr 1
      refine List.map_congr_left fun b _ => ?_
      simp only [Function.comp, hkey, List.count_append, List.count_singleton]
      by_cases hb : b = a
      · rw [if_pos hb, hb, hbump, beq_self_eq_true, if_pos rfl]
      · rw [if_neg hb, beq_eq_false_iff_ne.2 (Ne.symm hb), if_neg Bool.false_ne_true, Nat.add_zero]
    · rw [if_neg (by simp [hin]), hfresh, List.map_take]
      by_cases hmem : a ∈ values
      · -- it was left out before, and is again
        have hmore := lt_length_firsts hmem hin
        rw [firsts_concat, if_pos hmem, push, if_neg (by simp; omega), of, ← List.map_take,
          ← List.map_take, entries_concat hin]
        simp [hmore]
      · rw [← of, push_of, firsts_concat, if_neg hmem, List.map_append, List.map_singleton,
          entries_concat fun h => hmem (mem_firsts.1 h), List.count_append, List.count_singleton_self,
          List.count_eq_zero_of_not_mem hmem, Nat.zero_add]

end Count

end Sample

end Argos.Lib
