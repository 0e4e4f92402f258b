import Argos.Brain.Catalog
import Argos.Lib.Numbered

/-!
# What an answer shows

An answer that `validate_render` accepts is shown as lines of its own: the header, three sections,
and one line for each claim, with the citations of the claim at its end. The words of a claim are
chosen by the model. They cannot start a line, since the line is made of words with blanks between
them (`render_lines`, `claimLine_oneLine`). But they can end with what looks like a list of
citations; if the claim has none of its own, a reader takes it for one.

`answers_grounded` says exactly when this does not happen. A list of citations at the end of a line
is read in one way only (`listText_suffix_inj`), so behind a claim with citations it is the claim's
own.
-/

namespace Argos.Brain

open Argos.Lib
open Argos.Recovery (isControl)
open Argos.Vault (isWhitespace)

namespace Catalog

/-! ## References -/

/-- A character that neither ends a reference nor opens or closes a list. -/
def solid (c : Char) : Bool := c != '[' && c != ']' && c != ',' && !isWhitespace c

/-- The host of a reference does not end it. -/
def Ref.Clean (ref : Ref) : Prop := ∀ c ∈ ref.host, solid c = true

/-- The citations of a claim have a host that does not end them. -/
def CleanClaim (claim : Claim) : Prop := ∀ citation ∈ claim.evidence, (refOf citation).Clean

/-- What `validate_render` has checked of a claim. -/
structure Checked (bundle : EvidenceBundle) (responses : EvidencePage ResponseAuditRow)
    (claim : Claim) : Prop where
  controls : ∀ c ∈ claim.text, isControl c = true → c = '\n' ∨ c = '\t'
  hosts : ∀ citation ∈ claim.evidence, citation.host = localHost
  returned : ∀ citation ∈ claim.evidence, Returned bundle responses citation.kind citation.id

theorem Checked.clean {bundle : EvidenceBundle} {responses : EvidencePage ResponseAuditRow}
    {claim : Claim} (h : Checked bundle responses claim) : CleanClaim claim := by
  intro citation hmem c hc
  rw [refOf, h.hosts citation hmem] at hc
  exact (by decide : ∀ c ∈ localHost, solid c = true) c hc

theorem forM_ok {α : Type} {f : α → Except BrainError Unit} {l : List α} (h : l.forM f = .ok ()) :
    ∀ a ∈ l, f a = .ok () := by
  induction l with
  | nil => exact fun _ h => absurd h List.not_mem_nil
  | cons a l ih =>
    obtain ⟨u, hfirst, hrest⟩ := Prog.answer_bind_iff.1 h
    intro b hb
    obtain rfl | hb := List.mem_cons.1 hb
    · exact hfirst
    · exact ih hrest b hb

section Checks

variable {bundle : EvidenceBundle} {responses : EvidencePage ResponseAuditRow} {catalog : Catalog}

theorem checkCitation_ok (hsupplied : Supplied bundle responses catalog) {citation : Citation}
    (h : catalog.checkCitation citation = .ok ()) :
    citation.host = localHost ∧ Returned bundle responses citation.kind citation.id := by
  unfold checkCitation at h
  rcases hactual : catalog.entries.lookup (citation.kind, citation.id) with _ | actual
  · rw [hactual] at h
    cases h
  · rw [hactual] at h
    obtain ⟨hhost, hreturned⟩ := hsupplied.rows _ actual hactual
    rw [invalid_ok_iff, Bool.or_eq_false_iff, decide_eq_false_iff_not, not_not] at h
    exact ⟨h.1.trans hhost, hreturned⟩

/-- What is checked of a claim, and more of a fact. -/
theorem checkClaim_ok (hsupplied : Supplied bundle responses catalog) {index : Nat} {claim : Claim}
    (h : catalog.checkClaim index claim = .ok ()) :
    Checked bundle responses claim ∧
      (index = 0 → claim.evidence ≠ [] ∧ claim.absenceClaim = false) := by
  obtain ⟨_, htext, h⟩ := Prog.answer_bind_iff.1 h
  obtain ⟨_, hcited, h⟩ := Prog.answer_bind_iff.1 h
  obtain ⟨_, hfact, h⟩ := Prog.answer_bind_iff.1 h
  obtain ⟨_, -, h⟩ := Prog.answer_bind_iff.1 h
  have hcitations := fun citation hmem => checkCitation_ok hsupplied (forM_ok h citation hmem)
  rw [invalid_ok_iff, Bool.or_eq_false_iff, List.any_eq_false] at htext
  rw [invalid_ok_iff] at hcited hfact
  refine ⟨⟨fun c hc hcontrol => ?_, fun citation hmem => (hcitations citation hmem).1,
    fun citation hmem => (hcitations citation hmem).2⟩, ?_⟩
  · have hallowed := htext.2 c hc
    by_contra hne
    rw [not_or] at hne
    exact hallowed (by simp [hcontrol, hne.1, hne.2])
  · rintro rfl
    simp only [beq_self_eq_true, Bool.true_and, Bool.or_eq_false_iff] at hfact
    refine ⟨fun hnone => ?_, hfact.1⟩
    rw [hnone] at hcited
    cases hcited

theorem check_ok (hsupplied : Supplied bundle responses catalog) {answer : Answer}
    (h : catalog.check answer = .ok ()) :
    (∀ claim ∈ answer.claims, Checked bundle responses claim) ∧
      ∀ claim ∈ answer.facts, claim.evidence ≠ [] ∧ claim.absenceClaim = false := by
  obtain ⟨_, -, h⟩ := Prog.answer_bind_iff.1 h
  obtain ⟨_, hfacts, h⟩ := Prog.answer_bind_iff.1 h
  obtain ⟨_, hinferences, hunknowns⟩ := Prog.answer_bind_iff.1 h
  constructor
  · intro claim hmem
    unfold Answer.claims at hmem
    simp only [List.mem_append] at hmem
    obtain (hmem | hmem) | hmem := hmem
    · exact (checkClaim_ok hsupplied (forM_ok hfacts claim hmem)).1
    · exact (checkClaim_ok hsupplied (forM_ok hinferences claim hmem)).1
    · exact (checkClaim_ok hsupplied (forM_ok hunknowns claim hmem)).1
  · exact fun claim hmem => (checkClaim_ok hsupplied (forM_ok hfacts claim hmem)).2 rfl

end Checks

/-- The JSON of the event. -/
def sampleEventJson : String :=
  "\x7b\"timestamp_ms\":10,\"pid\":42,\"path\":\"/data/a\",\"action\":\"Modify\",\"size\":null," ++
    "\"entropy\":null,\"process\":null,\"content\":null\x7d"

/-- `serde_json` on the event. -/
def sampleJson : Json where
  writeDetection _ := "null"
  readDetection _ := none
  writePaths _ := "[]"
  writeFile _ := sampleEventJson
  readContext json := if json = sampleEventJson then some (none, none) else none
  writeProcess _ := "null"
  readProcess _ := none
  writeResponse _ := "null"
  readResponse _ := none
  readPaths _ := none

/-- The event. -/
def sampleEvent : Common.FileEvent := ⟨10, 42, "/data/a", .modify, none, none, none, none⟩

/-- The pages of the query. -/
def sampleBundle : EvidenceBundle :=
  ⟨0, 20, none, ⟨1, false, [⟨1, sampleEvent⟩]⟩, ⟨0, false, []⟩, ⟨0, false, []⟩⟩

/-- `serde_json` on the answer that is written in a text. -/
def reading (raw : Text) (answer : Answer) (text : Text) : Option Answer :=
  if text = raw then some answer else none

end Catalog

end Argos.Brain
