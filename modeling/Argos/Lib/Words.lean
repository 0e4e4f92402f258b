import Mathlib.Data.List.Basic

/-!
# Words and lines of a text

A text is a list of characters. `words` cuts it at the characters that satisfy a predicate and drops
what is empty, as `str::split_whitespace` does; `textLines` cuts it at line feeds, as `str::lines`
does. Both are read off a text that is put together from its pieces: `words_append_cons` for a text
with a break in it, and `textLines_joined` for lines that each end with a line feed.
-/

namespace Argos.Lib

/-- A text. -/
abbrev Text := List Char

/-- The characters of a text are looked at one by one, and not every character that there is. -/
instance (priority := high) decidableForallMem {q : Char → Prop} [DecidablePred q] (t : Text) :
    Decidable (∀ c ∈ t, q c) := List.decidableBAll q t

section Words

variable {p : Char → Bool} {t u : Text}

/-- The words of a text, cut at the characters that satisfy a predicate. -/
def words (p : Char → Bool) (t : Text) : List Text := (t.splitOnP p).filter (· ≠ [])

/-- Words do not go across a break. -/
theorem words_append_cons {c : Char} (hc : p c = true) (t u : Text) :
    words p (t ++ c :: u) = words p t ++ words p u := by
  unfold words
  rw [List.splitOnP_append_cons _ _ hc, List.filter_append]

/-- A text without a break is one word. -/
theorem words_solid (hne : t ≠ []) (h : ∀ c ∈ t, p c = false) : words p t = [t] := by
  unfold words
  rw [List.splitOnP_eq_singleton h]
  simp [hne]

/-- There is no break in a piece between breaks. -/
theorem break_notMem_splitOnP {piece : Text} :
    ∀ {t : Text}, piece ∈ t.splitOnP p → ∀ c ∈ piece, p c = false := by
  intro t
  induction t generalizing piece with
  | nil =>
    intro h c hc
    rw [List.splitOnP_nil, List.mem_singleton] at h
    rw [h] at hc
    cases hc
  | cons x t ih =>
    intro h c hc
    rw [List.splitOnP_cons_eq_if_modifyHead] at h
    split_ifs at h with hx
    · obtain rfl | h := List.mem_cons.1 h
      · cases hc
      · exact ih h c hc
    · obtain ⟨first, rest, hcut⟩ := List.exists_cons_of_ne_nil (List.splitOnP_ne_nil p t)
      rw [hcut, List.modifyHead_cons] at h
      obtain rfl | h := List.mem_cons.1 h
      · obtain rfl | hc := List.mem_cons.1 hc
        · simpa using hx
        · exact ih (by rw [hcut]; exact List.mem_cons_self) c hc
      · exact ih (by rw [hcut]; exact List.mem_cons_of_mem _ h) c hc

/-- A word is not empty and has no break in it. -/
theorem solid_of_mem_words {word : Text} (h : word ∈ words p t) :
    word ≠ [] ∧ ∀ c ∈ word, p c = false := by
  unfold words at h
  rw [List.mem_filter] at h
  exact ⟨of_decide_eq_true h.2, break_notMem_splitOnP h.1⟩

/-- Breaks in front of a text do not count. -/
theorem words_breaks_append {breaks : Text} (h : ∀ c ∈ breaks, p c = true) (t : Text) :
    words p (breaks ++ t) = words p t := by
  induction breaks with
  | nil => rfl
  | cons b breaks ih =>
    have hrest := ih fun c hc => h c (List.mem_cons_of_mem _ hc)
    rw [List.cons_append, ← hrest]
    exact words_append_cons (h b List.mem_cons_self) [] (breaks ++ t)

/-- The words of words that are joined by breaks. -/
theorem words_intercalate {b : Char} {breaks : Text} (hb : ∀ c ∈ b :: breaks, p c = true)
    {l : List Text} (h : ∀ word ∈ l, word ≠ [] ∧ ∀ c ∈ word, p c = false) :
    words p ((b :: breaks).intercalate l) = l := by
  induction l with
  | nil => rfl
  | cons word rest ih =>
    obtain ⟨hne, hsolid⟩ := h word List.mem_cons_self
    have hrest := ih fun w hw => h w (List.mem_cons_of_mem _ hw)
    by_cases hnil : rest = []
    · rw [hnil, List.intercalate_singleton, words_solid hne hsolid]
    · rw [List.intercalate_cons_of_ne_nil hnil, List.append_assoc, List.cons_append,
        words_append_cons (hb b List.mem_cons_self), words_solid hne hsolid,
        words_breaks_append fun c hc => hb c (List.mem_cons_of_mem _ hc), hrest]
      rfl

end Words

section Lines

/-- A line without the carriage return at its end. -/
def stripReturn (line : Text) : Text :=
  if line.getLast? = some '\r' then line.dropLast else line

/-- `str::lines`. -/
def textLines (t : Text) : List Text :=
  let pieces := t.splitOn '\n'
  (if pieces.getLast? = some [] then pieces.dropLast else pieces).map stripReturn

/-- Lines that each end with a line feed. -/
def joined (lines : List Text) : Text := lines.flatMap fun line => line ++ ['\n']

theorem splitOn_joined {lines : List Text} (h : ∀ line ∈ lines, '\n' ∉ line) :
    (joined lines).splitOn '\n' = lines ++ [[]] := by
  induction lines with
  | nil => rfl
  | cons line rest ih =>
    have hrest := ih fun l hl => h l (List.mem_cons_of_mem _ hl)
    have hjoined : joined (line :: rest) = line ++ '\n' :: joined rest := by
      simp [joined]
    rw [hjoined, List.splitOn_append_cons_of_beq _ _ (beq_self_eq_true _), hrest,
      List.splitOn_eq_singleton (h line List.mem_cons_self)]
    rfl

/-- The lines of a text that was put together from them. -/
theorem textLines_joined {lines : List Text} (h : ∀ line ∈ lines, '\n' ∉ line)
    (hreturn : ∀ line ∈ lines, line.getLast? ≠ some '\r') : textLines (joined lines) = lines := by
  unfold textLines
  rw [splitOn_joined h]
  simp only [List.getLast?_append, List.getLast?_singleton, Option.some_or, if_true,
    List.dropLast_concat]
  refine (List.map_congr_left fun line hline => ?_).trans (List.map_id _)
  rw [stripReturn, if_neg (hreturn line hline)]
  rfl

end Lines

end Argos.Lib
