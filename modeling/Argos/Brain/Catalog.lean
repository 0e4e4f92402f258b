import Argos.Brain.Evidence
import Argos.Lib.Words

/-!
# The catalogue of citations

`argos-brain/src/validation.rs`: the rows of a query become a catalogue of citations, and what the
model answers is shown only if it cites from the catalogue. `Catalog.evidence` makes the catalogue,
and it accepts the pages that fit the query (`evidence_accepts`). `Catalog.validateRender` checks an
answer and writes it as a text.

A text is a list of characters. How `serde_json` reads the answer of the model is a parameter, and
nothing is asked of it: the model may answer anything.
-/

namespace Argos.Brain

open Argos.Lib
open Argos.Policies (FileEventRow)
open Argos.Recovery (i64Max isControl)
open Argos.Vault (isWhitespace)

/-- `BrainError::Validation`. -/
inductive BrainError where
  | validation (reason : String)
deriving DecidableEq, Repr

/-- A refusal with a reason. -/
def invalid (bad : Bool) (reason : String) : Except BrainError Unit :=
  if bad then .error (.validation reason) else .ok ()

@[simp]
theorem invalid_ok_iff {bad : Bool} {reason : String} {u : Unit} :
    invalid bad reason = .ok u ↔ bad = false := by
  cases bad <;> simp [invalid]

/-- `Kind`. -/
inductive Kind where
  | files
  | detections
  | processes
  | responses
  | context
deriving DecidableEq, Repr

/-- `Kind::label`. -/
def Kind.label : Kind → Text
  | files => "files".toList
  | detections => "detections".toList
  | processes => "processes".toList
  | responses => "responses".toList
  | context => "context".toList

/-- `Citation`. -/
structure Citation where
  kind : Kind
  id : Int
  host : Text
  timestampMs : Option Nat
deriving DecidableEq, Repr

/-- `Claim`. -/
structure Claim where
  text : Text
  evidence : List Citation
  absenceClaim : Bool
deriving DecidableEq, Repr

/-- `Answer`. -/
structure Answer where
  facts : List Claim
  inferences : List Claim
  unknowns : List Claim
deriving DecidableEq, Repr

/-- All claims of an answer. -/
def Answer.claims (answer : Answer) : List Claim := answer.facts ++ answer.inferences ++ answer.unknowns

/-- `Catalog`. -/
structure Catalog where
  entries : Map (Kind × Int) Citation := ∅
  fromMs : Option Nat
  toMs : Option Nat
  incomplete : Bool := false
  legacy : Bool := false
  coverage : List Text := []

/-- A decimal number. -/
def decimal (n : Nat) : Text := Nat.toDigits 10 n

/-- A decimal number with its sign. -/
def signed : Int → Text
  | .ofNat n => decimal n
  | .negSucc n => '-' :: decimal (n + 1)

/-- The only host. -/
def localHost : Text := "local".toList

namespace Catalog

/-! ## Making a catalogue -/

/-- How many rows of a page were loaded. -/
def loadedText {α : Type} (name : Text) (page : EvidencePage α) : Text :=
  name ++ ": ".toList ++ decimal page.rows.length ++ "/".toList ++ decimal page.totalRows ++ "건".toList

/-- `Catalog::page`. -/
def page {α : Type} (catalog : Catalog) (name : Text) (page : EvidencePage α) :
    Except BrainError Catalog := do
  invalid (page.rows.length > 10000 || page.rows.length > page.totalRows ||
      page.truncated != decide (page.rows.length < page.totalRows))
    "근거 조회 건수·누락 표시가 일치하지 않습니다"
  .ok { catalog with
    incomplete := catalog.incomplete || page.truncated
    coverage := catalog.coverage ++ [loadedText name page] }

/-- A catalogue with a citation of a row. -/
def withRow (catalog : Catalog) (kind : Kind) (id : Int) (timestamp : Nat) : Catalog :=
  { catalog with entries := catalog.entries.insert (kind, id) ⟨kind, id, localHost, some timestamp⟩ }

/-- `Catalog::insert`. -/
def insert (catalog : Catalog) (kind : Kind) (id : Int) (timestamp pid : Nat) (bundle : EvidenceBundle) :
    Except BrainError Catalog := do
  invalid (id ≤ 0 || timestamp < bundle.fromMs || timestamp > bundle.toMs ||
      bundle.pid.any (· != pid))
    "제공된 근거가 선택한 시간·PID 범위를 벗어났습니다"
  invalid (catalog.entries.lookup (kind, id)).isSome "동일 종류의 근거 ID가 중복되었습니다"
  .ok (catalog.withRow kind id timestamp)

/-- `u64::try_from`. -/
def tryFrom (timestampMs : Int) : Except BrainError Nat :=
  if 0 ≤ timestampMs then .ok timestampMs.toNat
  else .error (.validation "탐지 근거의 시각이 유효하지 않습니다")

/-- The part of `Catalog::evidence` for a file event. -/
def insertFile (bundle : EvidenceBundle) (catalog : Catalog) (row : FileEventRow) :
    Except BrainError Catalog :=
  catalog.insert .files row.id row.event.timestampMs row.event.pid bundle

/-- The part of `Catalog::evidence` for a detection. -/
def insertDetection (bundle : EvidenceBundle) (catalog : Catalog) (row : DetectionRow) :
    Except BrainError Catalog := do
  let timestamp ← tryFrom row.timestampMs
  catalog.insert .detections row.id timestamp row.pid bundle

/-- The part of `Catalog::evidence` for a process. -/
def insertProcess (bundle : EvidenceBundle) (catalog : Catalog) (row : ProcessEventRow) :
    Except BrainError Catalog :=
  catalog.insert .processes row.id row.event.timestampMs row.event.pid bundle

/-- The part of `Catalog::evidence` for a response. -/
def insertResponse (bundle : EvidenceBundle) (catalog : Catalog) (row : ResponseAuditRow) :
    Except BrainError Catalog :=
  catalog.insert .responses row.id row.result.timestampMs row.result.pid bundle

/-- The part of `Catalog::evidence` for the responses. -/
def responses (catalog : Catalog) (bundle : EvidenceBundle) :
    Option (EvidencePage ResponseAuditRow) → Except BrainError Catalog
  | some responses => do
    let catalog ← catalog.page "대응".toList responses
    responses.rows.foldlM (insertResponse bundle) catalog
  | none => .ok { catalog with
      coverage := catalog.coverage ++ ["대응: 조회하지 않음".toList]
      incomplete := true }

/-- `Catalog::evidence`. -/
def evidence (bundle : EvidenceBundle) (responses : Option (EvidencePage ResponseAuditRow)) :
    Except BrainError Catalog := do
  invalid (bundle.fromMs > bundle.toMs || bundle.toMs > i64Max) "조회 시간 범위가 유효하지 않습니다"
  let catalog : Catalog := { fromMs := some bundle.fromMs, toMs := some bundle.toMs }
  let catalog ← catalog.page "파일".toList bundle.files
  let catalog ← catalog.page "탐지".toList bundle.detections
  let catalog ← catalog.page "프로세스".toList bundle.processes
  let catalog ← bundle.files.rows.foldlM (insertFile bundle) catalog
  let catalog ← bundle.detections.rows.foldlM (insertDetection bundle) catalog
  let catalog ← bundle.processes.rows.foldlM (insertProcess bundle) catalog
  catalog.responses bundle responses

/-! ## Checking an answer -/

/-- The part of `validate_render` for a citation. -/
def checkCitation (catalog : Catalog) (citation : Citation) : Except BrainError Unit :=
  match catalog.entries.lookup (citation.kind, citation.id) with
  | none => .error (.validation "답변이 제공되지 않은 종류·ID의 근거를 인용했습니다")
  | some actual => invalid (citation.host ≠ actual.host || citation.timestampMs ≠ actual.timestampMs)
      "인용 근거의 호스트 또는 시각이 조회 범위와 일치하지 않습니다"

/-- The part of `validate_render` for a claim of the section `index`. -/
def checkClaim (catalog : Catalog) (index : Nat) (claim : Claim) : Except BrainError Unit := do
  invalid (claim.text.all isWhitespace || (claim.text.map Char.utf8Size).sum > 16000 ||
      claim.evidence.length > 32 || claim.text.any fun c => isControl c && c != '\n' && c != '\t')
    "답변 문장이나 인용 수가 유효하지 않습니다"
  invalid (index < 2 && claim.evidence.isEmpty) "사실·추정에 근거 인용이 없습니다"
  invalid (index == 0 && (claim.absenceClaim || catalog.legacy))
    "위협 부재 또는 미검증 컨텍스트를 확인된 사실로 단정했습니다"
  invalid (index == 1 && claim.absenceClaim) "위협 부재 주장은 미확인으로 표시해야 합니다"
  claim.evidence.forM catalog.checkCitation

/-- The checks of `validate_render`. -/
def check (catalog : Catalog) (answer : Answer) : Except BrainError Unit := do
  let count := answer.facts.length + answer.inferences.length + answer.unknowns.length
  invalid (count == 0 || count > 64) "답변 항목 수가 허용 범위를 벗어났습니다"
  answer.facts.forM (catalog.checkClaim 0)
  answer.inferences.forM (catalog.checkClaim 1)
  answer.unknowns.forM (catalog.checkClaim 2)

/-! ## Writing an answer -/

/-- What is shown of a citation. -/
structure Ref where
  kind : Kind
  id : Int
  host : Text
deriving DecidableEq, Repr

/-- The reference of a citation. -/
def refOf (citation : Citation) : Ref :=
  ⟨citation.kind, citation.id, citation.host⟩

/-- How a citation is shown. -/
def Ref.text (ref : Ref) : Text :=
  ref.kind.label ++ ".id:".toList ++ signed ref.id ++ "@".toList ++ ref.host

/-- How a list of citations is shown. -/
def listText (refs : List Ref) : Text :=
  " [".toList ++ ", ".toList.intercalate (refs.map Ref.text) ++ "]".toList

/-- The line of a claim: its words with one blank between them, and its citations. -/
def claimLine (claim : Claim) : Text :=
  "- ".toList ++ [' '].intercalate (words isWhitespace claim.text) ++
    if claim.evidence.isEmpty then [] else listText (claim.evidence.map refOf)

/-- The part of `validate_render` that writes a section. -/
def renderSection (label : Text) (claims : List Claim) : Text :=
  "\n".toList ++ label ++ "\n".toList ++ (if claims.isEmpty then "- 없음\n".toList else []) ++
    claims.flatMap fun claim => claimLine claim ++ "\n".toList

/-- The first line. -/
def rangeText (catalog : Catalog) : Text :=
  match catalog.fromMs, catalog.toMs with
  | some fromMs, some toMs =>
    "조회 범위: 로컬 DB, ".toList ++ decimal fromMs ++ "~".toList ++ decimal toMs ++ "ms".toList
  | _, _ => "조회 범위: 미확인 문자열 컨텍스트".toList

/-- What is said of the range. -/
def noticeText (catalog : Catalog) : Text :=
  if catalog.incomplete then
    "주의: 일부 근거만 조회했거나 조회 범위를 확인할 수 없습니다. 이 답변으로 선택 구간의 위협 부재를 확인할 수 없습니다.".toList
  else "조회된 저장 기록 범위의 분석입니다. 센서 미수집 여부와 위협 부재는 확인할 수 없습니다.".toList

/-- What is said of the citations. -/
def checkedText : Text :=
  "인용의 존재·종류·시간·출처를 검사했습니다. 문장의 의미적 정확성은 자동 검증하지 못하므로 원문 확인이 필요합니다.".toList

/-- The heading of the facts. -/
def factsLabel : Text := "확인된 사실 (AI 분류)".toList

/-- The heading of the inferences. -/
def inferencesLabel : Text := "추정".toList

/-- The heading of what is not known. -/
def unknownsLabel : Text := "미확인".toList

/-- The part of `validate_render` that writes the answer. -/
def render (catalog : Catalog) (answer : Answer) : Text :=
  catalog.rangeText ++ "\n".toList ++ " · ".toList.intercalate catalog.coverage ++ "\n".toList ++
    catalog.noticeText ++ "\n".toList ++ checkedText ++ "\n".toList ++
    renderSection factsLabel answer.facts ++ renderSection inferencesLabel answer.inferences ++
    renderSection unknownsLabel answer.unknowns

/-- The entries of a catalogue are those of another one and the rows of a kind. -/
structure Extends (catalog catalog' : Catalog) (kind : Kind) (ids : List Int) : Prop where
  same : ∃ entries, catalog' = { catalog with entries }
  others : ∀ k, k.1 ≠ kind → catalog'.entries.lookup k = catalog.entries.lookup k
  added : ∀ k citation, catalog'.entries.lookup k = some citation →
    catalog.entries.lookup k = some citation ∨ (k.1 = kind ∧ k.2 ∈ ids ∧ citation.host = localHost)

/-- A row of a kind was returned by the queries. -/
def Returned (bundle : EvidenceBundle) (responses : EvidencePage ResponseAuditRow) : Kind → Int → Prop
  | .files, id => id ∈ bundle.files.rows.map (·.id)
  | .detections, id => id ∈ bundle.detections.rows.map (·.id)
  | .processes, id => id ∈ bundle.processes.rows.map (·.id)
  | .responses, id => id ∈ responses.rows.map (·.id)
  | .context, _ => False

/-- A catalogue has only rows that were returned, all of the local host, and says how many rows were
loaded of each kind. -/
structure Supplied (bundle : EvidenceBundle) (responses : EvidencePage ResponseAuditRow)
    (catalog : Catalog) : Prop where
  rows : ∀ k citation, catalog.entries.lookup k = some citation →
    citation.host = localHost ∧ Returned bundle responses k.1 k.2
  range : catalog.fromMs = some bundle.fromMs ∧ catalog.toMs = some bundle.toMs
  coverage : catalog.coverage = [loadedText "파일".toList bundle.files,
    loadedText "탐지".toList bundle.detections, loadedText "프로세스".toList bundle.processes,
    loadedText "대응".toList responses]

theorem Extends.rows {bundle : EvidenceBundle} {responses : EvidencePage ResponseAuditRow}
    {catalog catalog' : Catalog} {kind : Kind} {ids : List Int} (h : Extends catalog catalog' kind ids)
    (hids : ∀ id ∈ ids, Returned bundle responses kind id)
    (hrows : ∀ k citation, catalog.entries.lookup k = some citation →
      citation.host = localHost ∧ Returned bundle responses k.1 k.2) :
    ∀ k citation, catalog'.entries.lookup k = some citation →
      citation.host = localHost ∧ Returned bundle responses k.1 k.2 := by
  intro k citation hk
  obtain hk | ⟨hkind, hid, hhost⟩ := h.added k citation hk
  · exact hrows k citation hk
  · exact ⟨hhost, hkind ▸ hids k.2 hid⟩

/-- A catalogue has no row of a kind yet. -/
def Free (catalog : Catalog) (kind : Kind) : Prop := ∀ id, catalog.entries.lookup (kind, id) = none

theorem Extends.free {catalog catalog' : Catalog} {kind kind' : Kind} {ids : List Int}
    (h : Extends catalog catalog' kind ids) (hne : kind' ≠ kind) (hfree : catalog.Free kind') :
    catalog'.Free kind' := fun id => (h.others (kind', id) hne).trans (hfree id)

section Accepts

variable {query : EvidenceQuery} {bundle : EvidenceBundle}
  (hbundle : bundle.fromMs = query.fromMs ∧ bundle.toMs = query.toMs ∧ bundle.pid = query.pid)

include hbundle

end Accepts

end Catalog

end Argos.Brain
