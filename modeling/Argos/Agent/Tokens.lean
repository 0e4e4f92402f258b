import Argos.Agent.Semantic

/-!
# The tokens of a line

`normalize` of `argos-agent/src/semantic.rs` against what it is for: a line is cut into tokens at
the white space that is neither between quotes nor behind a backslash, and the normal form is the
tokens with a blank between them. `pieces` cuts at every such character and keeps the empty pieces,
so that the loop of `normalize` can be followed character by character (`foldl_step`). A token of a
line that is accepted is `Whole`: it has no break in it and leaves no quote open, so that the normal
form is cut into the same tokens again.
-/

namespace Argos.Agent

open Argos.Lib
open Argos.Vault (isWhitespace)

/-! ## Tokens -/

/-- Where a character of a line stands: in which quotes, and whether behind a backslash. -/
structure Place where
  quote : Option Char := none
  escaped : Bool := false
deriving DecidableEq, Repr

namespace Place

/-- The place behind a character. -/
def next (p : Place) (c : Char) : Place :=
  if p.escaped then { p with escaped := false }
  else if c = '\\' then { p with escaped := true }
  else if p.quote = some c then { p with quote := none }
  else if p.quote = none ∧ (c = '\'' ∨ c = '"') then { p with quote := some c }
  else p

/-- The place behind a text. -/
def after (p : Place) (t : Text) : Place := t.foldl next p

/-- Tokens end at a character. -/
def breaks (p : Place) (c : Char) : Bool := !p.escaped && p.quote = none && isWhitespace c

end Place

/-- A text cut at its breaks. -/
def pieces : Place → Text → List Text
  | _, [] => [[]]
  | p, c :: rest =>
    if p.breaks c then [] :: pieces (p.next c) rest
    else (pieces (p.next c) rest).modifyHead (c :: ·)

/-- The tokens of a line, as they are written. -/
def tokens (line : Text) : List Text := (pieces {} line).filter (· ≠ [])

/-- A text that is one token wherever it stands, if it is not empty. -/
structure Whole (t : Text) : Prop where
  one : pieces {} t = [t]
  closed : Place.after {} t = {}

/-! ## Pieces -/

theorem breaks_quote {c : Char} (h : isWhitespace c = true) : c ≠ '\\' ∧ c ≠ '\'' ∧ c ≠ '"' := by
  refine ⟨?_, ?_, ?_⟩ <;> rintro rfl <;> revert h <;> decide

/-- There is a break only outside of quotes, and it changes nothing. -/
theorem place_of_breaks {p : Place} {c : Char} (h : p.breaks c = true) : p = {} ∧ p.next c = {} := by
  simp only [Place.breaks, Bool.and_eq_true, Bool.not_eq_true', decide_eq_true_eq] at h
  obtain ⟨⟨hescaped, hquote⟩, hspace⟩ := h
  obtain ⟨hback, hsingle, hdouble⟩ := breaks_quote hspace
  have hp : p = {} := by
    obtain ⟨quote, escaped⟩ := p
    simp_all
  refine ⟨hp, ?_⟩
  rw [hp, Place.next, if_neg Bool.false_ne_true, if_neg hback, if_neg (by simp), if_neg (by tauto)]

theorem pieces_of_breaks {p : Place} {c : Char} (h : p.breaks c = true) (rest : Text) :
    pieces p (c :: rest) = [] :: pieces {} rest := by
  rw [pieces, if_pos h, (place_of_breaks h).2]

theorem pieces_of_not_breaks {p : Place} {c : Char} (h : p.breaks c = false) (rest : Text) :
    pieces p (c :: rest) = (pieces (p.next c) rest).modifyHead (c :: ·) := by
  rw [pieces, if_neg (by rw [h]; exact Bool.false_ne_true)]

/-- The first piece goes on from where the text begins and has no break; the others are without
breaks as well. If the text leaves nothing open, no piece does. -/
theorem pieces_spec (p : Place) (t : Text) :
    ∃ first rest, pieces p t = first :: rest ∧ pieces p first = [first] ∧
      (∀ piece ∈ rest, pieces {} piece = [piece]) ∧
      (p.after t = {} → p.after first = {} ∧ ∀ piece ∈ rest, Place.after {} piece = {}) := by
  induction t generalizing p with
  | nil => exact ⟨[], [], rfl, rfl, by simp, fun h => ⟨h, by simp⟩⟩
  | cons c t ih =>
    obtain ⟨first, rest, hpieces, hfirst, hrest, hclosed⟩ := ih (p.next c)
    rcases hbreak : p.breaks c with _ | _
    · refine ⟨c :: first, rest, ?_, ?_, hrest, fun h => hclosed h⟩
      · rw [pieces_of_not_breaks hbreak, hpieces]
        rfl
      · rw [pieces_of_not_breaks hbreak, hfirst]
        rfl
    · obtain ⟨hp, hnext⟩ := place_of_breaks hbreak
      rw [hnext] at hpieces hfirst
      refine ⟨[], first :: rest, ?_, rfl, List.forall_mem_cons.2 ⟨hfirst, hrest⟩, fun h => ?_⟩
      · rw [pieces_of_breaks hbreak, hpieces]
      · have hall := hclosed h
        rw [hnext] at hall
        exact ⟨hp, List.forall_mem_cons.2 hall⟩

/-- The tokens of a line that leaves nothing open are whole. -/
theorem whole_of_mem_tokens {line t : Text} (hline : Place.after {} line = {}) (h : t ∈ tokens line) :
    t ≠ [] ∧ Whole t := by
  obtain ⟨hmem, hne⟩ := List.mem_filter.1 h
  obtain ⟨first, rest, hpieces, hfirst, hrest, hclosed⟩ := pieces_spec {} line
  have hclosed := hclosed hline
  rw [hpieces] at hmem
  refine ⟨of_decide_eq_true hne, ?_⟩
  obtain rfl | hmem := List.mem_cons.1 hmem
  · exact ⟨hfirst, hclosed.1⟩
  · exact ⟨hrest t hmem, hclosed.2 t hmem⟩

/-- A piece without a break ends at the first blank behind it. -/
theorem pieces_append_blank {p : Place} {t : Text} (hone : pieces p t = [t]) (hclosed : p.after t = {})
    (rest : Text) : pieces p (t ++ ' ' :: rest) = t :: pieces {} rest := by
  induction t generalizing p with
  | nil =>
    have hp : p = {} := hclosed
    rw [hp, List.nil_append, pieces_of_breaks (by decide)]
  | cons c t ih =>
    rcases hbreak : p.breaks c with _ | _
    · obtain ⟨first, others, hpieces, -⟩ := pieces_spec (p.next c) t
      rw [pieces_of_not_breaks hbreak, hpieces, List.modifyHead_cons, List.cons.injEq, List.cons.injEq] at hone
      obtain ⟨⟨-, rfl⟩, rfl⟩ := hone
      rw [List.cons_append, pieces_of_not_breaks hbreak, ih hpieces hclosed, List.modifyHead_cons]
    · rw [pieces_of_breaks hbreak] at hone
      cases (List.cons.inj hone).1

/-- Tokens with blanks between them are cut into these tokens, and leave nothing open. -/
theorem pieces_join {ts : List Text} (hne : ts ≠ []) (h : ∀ t ∈ ts, Whole t) :
    pieces {} (List.intercalate [' '] ts) = ts ∧ Place.after {} (List.intercalate [' '] ts) = {} := by
  induction ts with
  | nil => exact absurd rfl hne
  | cons t rest ih =>
    have hwhole := h t List.mem_cons_self
    by_cases hrest : rest = []
    · rw [hrest, List.intercalate_singleton]
      exact ⟨hwhole.one, hwhole.closed⟩
    · obtain ⟨hpieces, hafter⟩ := ih hrest fun u hu => h u (List.mem_cons_of_mem _ hu)
      rw [List.intercalate_cons_of_ne_nil hrest, List.append_assoc, List.singleton_append]
      constructor
      · rw [pieces_append_blank hwhole.one hwhole.closed, hpieces]
      · rw [Place.after, List.foldl_append]
        change Place.after ((Place.after {} t).next ' ') _ = _
        rw [hwhole.closed]
        exact hafter

theorem tokens_join {ts : List Text} (hne : ∀ t ∈ ts, t ≠ []) (h : ∀ t ∈ ts, Whole t) :
    tokens (List.intercalate [' '] ts) = ts ∧ Place.after {} (List.intercalate [' '] ts) = {} := by
  by_cases hnil : ts = []
  · rw [hnil]
    exact ⟨rfl, rfl⟩
  · obtain ⟨hpieces, hafter⟩ := pieces_join hnil h
    refine ⟨?_, hafter⟩
    rw [tokens, hpieces, List.filter_eq_self]
    exact fun t ht => decide_eq_true (hne t ht)

/-! ## The loop -/

/-- A piece is put behind a result. -/
def attach (result piece : Text) : Text :=
  if piece = [] then result else if result = [] then piece else result ++ ' ' :: piece

/-- What the loop makes of a result and the pieces of the rest of the line. The first piece goes on
with the token that has begun, unless there was white space. -/
def extend (result : Text) (space : Bool) : List Text → Text
  | [] => result
  | first :: rest => rest.foldl attach (if space then attach result first else result ++ first)

/-- The place of a state of the loop. -/
def Normalizing.place (s : Normalizing) : Place := ⟨s.quote, s.escaped⟩

/-- White space is never noted behind a backslash, and what is open is a quote. -/
structure Normalizing.Sound (s : Normalizing) : Prop where
  unspaced : s.escaped = true → s.space = false
  quotes : ∀ q, s.quote = some q → q = '\'' ∨ q = '"'

theorem place_step (s : Normalizing) (c : Char) : (s.step c).place = s.place.next c := by
  obtain ⟨result, quote, escaped, space⟩ := s
  rcases escaped with _ | _
  · by_cases hback : c = '\\'
    · simp [Normalizing.step, Normalizing.place, Place.next, hback]
    · -- either branch of the loop keeps the quote that is open behind the character
      have hstep : (Normalizing.step ⟨result, quote, false, space⟩ c).place =
          ⟨Normalizing.quoteAfter ⟨result, quote, false, space⟩ c, false⟩ := by
        rw [Normalizing.step, if_neg Bool.false_ne_true, if_neg hback]
        dsimp only
        split_ifs <;> rfl
      rw [hstep, Place.next, Normalizing.quoteAfter, Normalizing.place, if_neg Bool.false_ne_true,
        if_neg hback]
      dsimp only
      by_cases hopen : quote = some c
      · rw [if_pos hopen.symm, if_pos hopen]
      · rw [if_neg (Ne.symm hopen), if_neg hopen]
        split_ifs <;> rfl
  · simp [Normalizing.step, Normalizing.place, Place.next]

/-- A break is white space outside of quotes. -/
theorem breaks_place {s : Normalizing} (h : s.Sound) {c : Char} (hescaped : s.escaped = false) :
    s.place.breaks c = true ↔ isWhitespace c = true ∧ s.quoteAfter c = none := by
  simp only [Place.breaks, Normalizing.place, hescaped, Bool.not_false, Bool.true_and, Bool.and_eq_true,
    decide_eq_true_eq]
  constructor
  · rintro ⟨hquote, hspace⟩
    obtain ⟨-, hsingle, hdouble⟩ := breaks_quote hspace
    refine ⟨hspace, ?_⟩
    rw [Normalizing.quoteAfter, if_neg (by rw [hquote]; exact Option.some_ne_none c), if_neg (by tauto)]
    exact hquote
  · rintro ⟨hspace, hquote⟩
    obtain ⟨-, hsingle, hdouble⟩ := breaks_quote hspace
    refine ⟨?_, hspace⟩
    unfold Normalizing.quoteAfter at hquote
    split_ifs at hquote with hsame
    · rcases h.quotes c hsame.symm with hc | hc
      · exact absurd hc hsingle
      · exact absurd hc hdouble
    · exact hquote

/-- At a break, the white space is noted; any other character is put behind the result, with a blank
before it where there was white space. -/
theorem step_spec {s : Normalizing} (h : s.Sound) (c : Char) :
    (s.place.breaks c = true ∧ (s.step c).result = s.result ∧ (s.step c).space = true) ∨
      (s.place.breaks c = false ∧ (s.step c).result = s.spaced ++ [c] ∧ (s.step c).space = false) := by
  rcases hescaped : s.escaped with _ | _
  · by_cases hback : c = '\\'
    · refine .inr ⟨?_, ?_, ?_⟩
      · rw [hback]
        exact Bool.and_false _
      · simp [Normalizing.step, hescaped, hback]
      · simp [Normalizing.step, hescaped, hback]
    · have hbreaks := @breaks_place s h c hescaped
      have hstep : s.step c =
          if isWhitespace c ∧ s.quoteAfter c = none then
            { s with quote := s.quoteAfter c, space := true }
          else { s with quote := s.quoteAfter c, result := s.spaced ++ [c], space := false } := by
        unfold Normalizing.step
        rw [if_neg (by rw [hescaped]; exact Bool.false_ne_true), if_neg hback]
        rfl
      by_cases hbreak : isWhitespace c = true ∧ s.quoteAfter c = none
      · rw [hstep, if_pos hbreak]
        exact .inl ⟨hbreaks.2 hbreak, rfl, rfl⟩
      · rw [hstep, if_neg hbreak]
        exact .inr ⟨Bool.eq_false_iff.2 fun hb => hbreak (hbreaks.1 hb), rfl, rfl⟩
  · have hspace := h.unspaced hescaped
    refine .inr ⟨?_, ?_, ?_⟩
    · simp [Place.breaks, Normalizing.place, hescaped]
    · simp [Normalizing.step, Normalizing.spaced, hescaped, hspace]
    · simp [Normalizing.step, hescaped, hspace]

theorem sound_step {s : Normalizing} (h : s.Sound) (c : Char) : (s.step c).Sound := by
  have hplace := place_step s c
  have hescaped : (s.step c).escaped = (s.place.next c).escaped := congrArg Place.escaped hplace
  have hquote : (s.step c).quote = (s.place.next c).quote := congrArg Place.quote hplace
  constructor
  · intro hnext
    obtain ⟨hbreak, -, -⟩ | ⟨-, -, hspace⟩ := step_spec h c
    · rw [hescaped, (place_of_breaks hbreak).2] at hnext
      cases hnext
    · exact hspace
  · intro q hq
    rw [hquote] at hq
    unfold Place.next at hq
    split_ifs at hq with _ _ _ hopen
    · exact h.quotes q hq
    · exact h.quotes q hq
    · obtain rfl := Option.some.inj hq
      exact hopen.2
    · exact h.quotes q hq

/-- The loop from any state: the pieces of the line are put behind the result, and the place is that
behind the line. -/
theorem foldl_step {s : Normalizing} (h : s.Sound) (line : Text) :
    (line.foldl Normalizing.step s).result = extend s.result s.space (pieces s.place line) ∧
      (line.foldl Normalizing.step s).place = s.place.after line := by
  induction line generalizing s with
  | nil =>
    refine ⟨?_, rfl⟩
    simp [pieces, extend, attach]
  | cons c line ih =>
    obtain ⟨hresult, hplace⟩ := ih (sound_step h c)
    rw [place_step] at hresult hplace
    rw [List.foldl_cons, hresult, hplace]
    refine ⟨?_, rfl⟩
    obtain ⟨hbreak, hsame, hspace⟩ | ⟨hbreak, hput, hspace⟩ := step_spec h c
    · -- the next piece begins with nothing, and white space before it
      rw [pieces_of_breaks hbreak, (place_of_breaks hbreak).2, hsame, hspace]
      obtain ⟨first, rest, hpieces, -⟩ := pieces_spec {} line
      rw [hpieces]
      have hnone : (if s.space = true then attach s.result [] else s.result ++ []) = s.result := by
        simp [attach]
      simp only [extend, List.foldl_cons, if_true, hnone]
    · -- the piece that has begun is longer by one character
      rw [pieces_of_not_breaks hbreak, hput, hspace]
      obtain ⟨first, rest, hpieces, -⟩ := pieces_spec (s.place.next c) line
      rw [hpieces, List.modifyHead_cons]
      have hfirst : s.spaced ++ [c] ++ first =
          if s.space = true then attach s.result (c :: first) else s.result ++ c :: first := by
        unfold Normalizing.spaced attach
        by_cases hspaced : s.space = true <;> by_cases hempty : s.result = [] <;> simp [hspaced, hempty]
      simp only [extend, Bool.false_eq_true, if_false, hfirst]

/-- Pieces behind a result: all that are not empty, with blanks between them. -/
theorem foldl_attach (result : Text) (ps : List Text) :
    ps.foldl attach result = List.intercalate [' '] ((result :: ps).filter (· ≠ [])) := by
  induction ps generalizing result with
  | nil =>
    by_cases hresult : result = []
    · rw [hresult]
      rfl
    · rw [List.filter_cons_of_pos (by simp [hresult]), List.filter_nil, List.intercalate_singleton,
        List.foldl_nil]
  | cons piece rest ih =>
    rw [List.foldl_cons, ih]
    unfold attach
    by_cases hpiece : piece = []
    · rw [if_pos hpiece, hpiece, List.filter_cons, List.filter_cons, List.filter_cons_of_neg (by simp)]
    by_cases hresult : result = []
    · rw [if_neg hpiece, if_pos hresult, hresult, List.filter_cons_of_neg (a := []) (by simp)]
    rw [if_neg hpiece, if_neg hresult, List.filter_cons_of_pos (by simp),
      List.filter_cons_of_pos (a := result) (by simp [hresult]),
      List.filter_cons_of_pos (a := piece) (by simp [hpiece]),
      List.intercalate_cons_of_ne_nil (List.cons_ne_nil piece _)]
    -- the blank is before the piece or behind the result
    by_cases hlast : rest.filter (· ≠ []) = []
    · rw [hlast, List.intercalate_singleton, List.intercalate_singleton, List.append_assoc]
      rfl
    · rw [List.intercalate_cons_of_ne_nil hlast, List.intercalate_cons_of_ne_nil hlast]
      simp only [List.append_assoc, List.cons_append, List.nil_append]

/-- A line that is accepted leaves nothing open, and its normal form is its tokens with blanks
between them. -/
theorem normalize_ok_iff {line result : Text} :
    normalize line = .ok result ↔
      Place.after {} line = {} ∧ result = List.intercalate [' '] (tokens line) := by
  have hsound : Normalizing.Sound {} := ⟨fun h => (by cases h), fun q h => (by cases h)⟩
  obtain ⟨hresult, hplace⟩ := foldl_step hsound line
  have hextend : extend [] false (pieces {} line) = List.intercalate [' '] (tokens line) := by
    unfold tokens
    obtain ⟨first, rest, hpieces, -⟩ := pieces_spec {} line
    rw [hpieces, extend, if_neg Bool.false_ne_true, List.nil_append, foldl_attach]
  have hopen : ((line.foldl Normalizing.step {}).quote.isSome ||
      (line.foldl Normalizing.step {}).escaped) = true ↔ Place.after {} line ≠ {} := by
    change _ = Place.after {} line at hplace
    rw [← hplace, Normalizing.place]
    rcases (line.foldl Normalizing.step {}).quote with _ | q <;>
      rcases (line.foldl Normalizing.step {}).escaped with _ | _ <;> simp
  unfold normalize
  dsimp only
  by_cases hclosed : Place.after {} line = {}
  · rw [if_neg (fun h => hopen.1 h hclosed), hresult]
    change Except.ok (extend [] false (pieces {} line)) = _ ↔ _
    rw [hextend, Except.ok.injEq, eq_comm]
    exact (and_iff_right hclosed).symm
  · rw [if_pos (hopen.2 hclosed)]
    exact ⟨fun h => (by cases h), fun h => absurd h.1 hclosed⟩

/-- The normal form of a line is its own normal form and has the same tokens, so two lines have the
same normal form exactly when they are cut into the same tokens. -/
theorem normalize_canonical {a b normalA normalB : Text} (ha : normalize a = .ok normalA)
    (hb : normalize b = .ok normalB) :
    normalize normalA = .ok normalA ∧ normalA = List.intercalate [' '] (tokens a) ∧
      (normalA = normalB ↔ tokens a = tokens b) := by
  have hjoin : ∀ {line normal : Text}, normalize line = .ok normal →
      tokens normal = tokens line ∧ Place.after {} normal = {} := by
    intro line normal h
    obtain ⟨hclosed, rfl⟩ := normalize_ok_iff.1 h
    exact tokens_join (fun t ht => (whole_of_mem_tokens hclosed ht).1)
      fun t ht => (whole_of_mem_tokens hclosed ht).2
  obtain ⟨htokens, hclosed⟩ := hjoin ha
  have hnormal := (normalize_ok_iff.1 ha).2
  refine ⟨normalize_ok_iff.2 ⟨hclosed, by rw [htokens]; exact hnormal⟩, hnormal, fun h => ?_, fun h => ?_⟩
  · rw [← htokens, ← (hjoin hb).1, h]
  · rw [hnormal, h]
    exact (normalize_ok_iff.1 hb).2.symm

/-- Two lines that differ in the white space outside of quotes only. -/
theorem normalize_canonical_two :
    tokens " a  'b  c'\\ d\t".toList = tokens "a\u00a0'b  c'\\ d".toList ∧
      normalize " a  'b  c'\\ d\t".toList = normalize "a 'b  c'\\ d".toList :=
  have ha : normalize " a  'b  c'\\ d\t".toList = .ok "a 'b  c'\\ d".toList := by decide
  have hb : normalize "a\u00a0'b  c'\\ d".toList = .ok "a 'b  c'\\ d".toList := by decide
  ⟨(normalize_canonical ha hb).2.2.1 rfl, ha.trans (normalize_canonical ha hb).1.symm⟩

end Argos.Agent
