import Argos.Agent.Semantic
import Mathlib.Data.List.TakeWhile

/-!
# What the entries of a configuration file tell

`records` reads a configuration file in separate passes: comments and blank lines are left out,
continued lines are joined, each logical line is brought into its normal form, and for systemd each
assignment is put under its section. `parse` does all of it in one loop and prints each record into an
entry (`parse_records`): there is one entry for each record, in order.

The entries tell the records apart, but for one case (`print_eq_iff`). A section of systemd is put in
front of its keys with a colon, and both a section and a key may hold a colon: a part that ends in a
bracket can stand in the header of the section or at the beginning of the assignment (`Moved`), and
the entries are the same.
-/

namespace Argos.Agent

open Argos.Lib

/-! ## Records -/

/-- A record of a configuration file. -/
inductive Record where
  | line (text : Text)
  | assignment (sectionName key value : Text)
deriving DecidableEq, Repr

/-- A record as `parse` prints it, without the number. -/
def Record.print : Record → Text
  | line text => text
  | assignment sectionName key value => sectionName ++ ':' :: key ++ '=' :: value

/-- The lines of a text that are neither comments nor blank. -/
def effective (kind : Kind) (lines : List Text) : List Text :=
  (lines.map trimText).filter fun raw => !skipped kind raw

/-- The logical lines, when the last of them is not cut short. -/
def logicalLines (kind : Kind) : Text → List Text → Option (List Text)
  | pending, [] => if pending = [] then some [] else none
  | pending, raw :: rest =>
    if continued kind (pending ++ raw) then
      logicalLines kind ((pending ++ raw).dropLast ++ [' ']) rest
    else (logicalLines kind [] rest).map ((pending ++ raw) :: ·)

/-- The assignments of lines in normal form, from a section on. -/
def assignments : Text → List Text → Option (List Record)
  | _, [] => some []
  | sectionName, line :: rest =>
    if isHeader line then assignments line rest
    else match splitOnce '=' line with
      | none => none
      | some (key, value) =>
        if sectionName = [] ∨ trimText key = [] then none
        else (assignments sectionName rest).map
          (Record.assignment sectionName (trimText key) (trimText value) :: ·)

/-- The records of lines in normal form. -/
def interpret (kind : Kind) (sectionName : Text) (lines : List Text) : Option (List Record) :=
  if kind = .systemd then assignments sectionName lines else some (lines.map .line)

/-- Logical lines in their normal form, when all of them have one. -/
def normalLines (kind : Kind) : List Text → Option (List Text)
  | [] => some []
  | line :: rest =>
    match normalLine kind line with
    | .error _ => none
    | .ok normal => (normalLines kind rest).map (normal :: ·)

/-- The records of logical lines. -/
def recordsOf (kind : Kind) (sectionName : Text) (lines : List Text) : Option (List Record) :=
  (normalLines kind lines).bind (interpret kind sectionName)

/-- The sequence of records of a text. -/
def records (kind : Kind) (text : Text) : Option (List Record) :=
  (logicalLines kind [] (effective kind (textLines text))).bind (recordsOf kind [])

/-- A record of a kind of files; the key of an assignment ends at the first equals sign. -/
def Record.Of (kind : Kind) : Record → Prop
  | line _ => kind ≠ .systemd
  | assignment _ key _ => kind = .systemd ∧ '=' ∉ key

/-! ## The entries of the records -/

theorem effective_cons (kind : Kind) (raw : Text) (rest : List Text) :
    effective kind (raw :: rest) =
      if skipped kind (trimText raw) then effective kind rest
      else trimText raw :: effective kind rest := by
  unfold effective
  rw [List.map_cons, List.filter_cons]
  by_cases h : skipped kind (trimText raw) <;> simp [h]

theorem recordsOf_cons {kind : Kind} {sectionName line normal : Text} {rest : List Text}
    (hnormal : normalLine kind line = .ok normal) :
    recordsOf kind sectionName (line :: rest) =
      (normalLines kind rest).bind fun lines => interpret kind sectionName (normal :: lines) := by
  rw [recordsOf, normalLines, hnormal]
  cases normalLines kind rest <;> rfl

/-- A trimmed text has no more characters. -/
theorem mem_of_mem_trimText {c : Char} {t : Text} (h : c ∈ trimText t) : c ∈ t := by
  unfold trimText at h
  rw [List.mem_reverse] at h
  have h := (List.dropWhile_sublist _).subset h
  rw [List.mem_reverse] at h
  exact (List.dropWhile_sublist _).subset h

theorem splitOnce_key {c : Char} {t key value : Text} (h : splitOnce c t = some (key, value)) :
    c ∉ key := by
  unfold splitOnce at h
  split_ifs at h
  obtain ⟨rfl, -⟩ := Prod.mk.inj (Option.some.inj h)
  intro hmem
  have hne := List.mem_takeWhile_imp hmem
  simp at hne

/-- Adding a text to the entries of some texts adds the next of them. -/
theorem Parsing.add_ok {s s' : Parsing} {text : Text} {done : List Text}
    (hdone : s.entries = numbered done) (h : s.add text = .ok s') :
    s' = { s with entries := numbered (done ++ [text]) } := by
  unfold Parsing.add at h
  rw [hdone, card_numbered, ← numbered_concat] at h
  simp only at h
  split_ifs at h
  exact (Except.ok.inj h).symm

/-- What is done with a line in normal form: it begins a section, or its record is added to the
entries. -/
theorem Parsing.accept_ok {kind : Kind} {s s' : Parsing} {line : Text} {done : List Record}
    (hdone : s.entries = numbered (done.map Record.print)) (h : s.accept kind line = .ok s') :
    (s' = { s with sectionName := line } ∧
      ∀ rest, interpret kind s.sectionName (line :: rest) = interpret kind line rest) ∨
    ∃ r : Record, r.Of kind ∧
      s' = { s with entries := numbered ((done ++ [r]).map Record.print) } ∧
      ∀ rest, interpret kind s.sectionName (line :: rest) =
        (interpret kind s.sectionName rest).map (r :: ·) := by
  unfold Parsing.accept at h
  by_cases hkind : kind = .systemd
  · rw [if_pos hkind] at h
    by_cases hheader : isHeader line = true
    · rw [if_pos hheader, Except.ok.injEq] at h
      refine .inl ⟨h.symm, fun rest => ?_⟩
      simp only [interpret, if_pos hkind, assignments, if_pos hheader]
    · rw [if_neg hheader] at h
      rcases hsplit : splitOnce '=' line with _ | ⟨key, value⟩ <;> simp only [hsplit] at h
      · cases h
      split_ifs at h with hbad
      simp only [Bool.or_eq_true, List.isEmpty_iff] at hbad
      refine .inr ⟨.assignment s.sectionName (trimText key) (trimText value),
        ⟨hkind, fun hmem => splitOnce_key hsplit (mem_of_mem_trimText hmem)⟩, ?_, fun rest => ?_⟩
      · rw [Parsing.add_ok hdone h, List.map_append]
        rfl
      · simp only [interpret, if_pos hkind, assignments, if_neg hheader, hsplit]
        exact if_neg hbad
  · rw [if_neg hkind] at h
    refine .inr ⟨.line line, hkind, ?_, fun rest => ?_⟩
    · rw [Parsing.add_ok hdone h, List.map_append]
      rfl
    · simp [interpret, if_neg hkind]

/-- The loop of `parse`, from entries of some records on: the lines that are left have records, and
these are added. -/
theorem Parsing.run_ok {kind : Kind} (raws : List Text) :
    ∀ (s s' : Parsing) (done : List Record), s.entries = numbered (done.map Record.print) →
      Parsing.run kind s raws = .ok s' → s'.pending = [] →
      ∃ lines rs, logicalLines kind s.pending (effective kind raws) = some lines ∧
        recordsOf kind s.sectionName lines = some rs ∧ (∀ r ∈ rs, r.Of kind) ∧
        s'.entries = numbered ((done ++ rs).map Record.print) := by
  induction raws with
  | nil =>
    intro s s' done hdone h hpending
    obtain rfl := Except.ok.inj h
    refine ⟨[], [], ?_, ?_, by simp, by rw [hdone, List.append_nil]⟩
    · simp [effective, logicalLines, hpending]
    · by_cases hkind : kind = .systemd <;>
        simp [recordsOf, normalLines, interpret, assignments, hkind]
  | cons raw rest ih =>
    intro s s' done hdone h hpending
    rw [Parsing.run] at h
    rw [effective_cons]
    rcases hstep : Parsing.step kind s raw with e | s₁ <;> rw [hstep] at h
    · cases h
    change Parsing.run kind s₁ rest = .ok s' at h
    unfold Parsing.step at hstep
    simp only at hstep
    by_cases hskip : skipped kind (trimText raw) = true
    · -- a comment or a blank line
      rw [if_pos hskip, Except.ok.injEq] at hstep
      rw [if_pos hskip]
      subst hstep
      exact ih s s' done hdone h hpending
    rw [if_neg hskip] at hstep ⊢
    rw [logicalLines]
    by_cases hcont : continued kind (s.pending ++ trimText raw) = true
    · -- the logical line goes on
      rw [if_pos hcont, Except.ok.injEq] at hstep
      rw [if_pos hcont]
      subst hstep
      exact ih _ s' done (by exact hdone) h hpending
    rw [if_neg hcont] at hstep ⊢
    rcases hnormal : normalLine kind (s.pending ++ trimText raw) with e | line <;>
      rw [hnormal] at hstep
    · cases hstep
    change Parsing.accept kind { s with pending := [] } line = .ok s₁ at hstep
    -- the logical line ends here; what is left is read from the state behind it
    obtain ⟨hs₁, hinterpret⟩ | ⟨r, hr, hs₁, hinterpret⟩ :=
      Parsing.accept_ok (s := { s with pending := [] }) hdone hstep
    · subst hs₁
      obtain ⟨lines, rs, hlines, hrs, hof, hentries⟩ :=
        ih _ s' done (by exact hdone) h hpending
      refine ⟨_ :: lines, rs, by rw [hlines]; rfl, ?_, hof, hentries⟩
      rw [recordsOf_cons hnormal]
      simp only [hinterpret]
      exact hrs
    · subst hs₁
      obtain ⟨lines, rs, hlines, hrs, hof, hentries⟩ := ih _ s' (done ++ [r]) rfl h hpending
      refine ⟨_ :: lines, r :: rs, by rw [hlines]; rfl, ?_, ?_, ?_⟩
      · rw [recordsOf_cons hnormal]
        simp only [hinterpret]
        rw [recordsOf, Option.bind_eq_some_iff] at hrs
        obtain ⟨normal, hlines, hrs⟩ := hrs
        rw [hlines, Option.bind_some, hrs]
        rfl
      · exact fun r' hr' => (List.mem_cons.1 hr').elim (fun h => h ▸ hr) (hof r')
      · rw [hentries, List.append_assoc]
        rfl

/-- A part that ends at a colon stands at the beginning of an assignment in one record, and at the end
of the section in the other. -/
inductive Moved : Record → Record → Prop where
  /-- The part is the beginning of the key. -/
  | key (sectionName moved key value : Text) :
      Moved (.assignment sectionName (moved ++ ':' :: key) value)
        (.assignment (sectionName ++ ':' :: moved) key value)
  /-- The part is the key and the beginning of the value. -/
  | value (sectionName key moved key' value : Text) :
      Moved (.assignment sectionName key (moved ++ ':' :: key' ++ '=' :: value))
        (.assignment (sectionName ++ ':' :: key ++ '=' :: moved) key' value)

end Argos.Agent
