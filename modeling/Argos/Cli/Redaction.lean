import Argos.Cli.Package

/-!
# What a redacted package says

Two packages that differ only in texts which redaction promises to remove are the same, byte for byte.
The texts are taken out of the records by `bare`, which keeps everything else, among it the number of
paths and whether an optional text is there; two incidents agree if they are equal without these texts
(`Agree`). The tree of a record is redacted to the same as the tree of the record without them, one lemma
for each record, up to `redact_incident` and `redact_policy`.

Numbers and truth values are left where they are: none is under a key that is covered (`shielded_incident`,
`shielded_policy`). A package that was written is accepted by `snapshot` (`snapshot_written`).
-/

namespace Argos.Cli

open Argos.Brain
open Argos.Common
open Argos.Detect
open Argos.Lib
open Argos.Policies (FileEventRow Policy RollbackApproval AuditRow)
open Argos.Vault (bytesOf)

/-! ## Records without their texts -/

/-- Texts of which only the number is left. -/
def bareTexts (l : List String) : List String := l.map fun _ => ""

/-- A text of which only the presence is left. -/
def bareOption (o : Option String) : Option String := o.map fun _ => ""

def FileProcessContext.bare (p : FileProcessContext) : FileProcessContext := { p with exe := "" }

def FileEvent.bare (e : FileEvent) : FileEvent :=
  { e with path := "", process := e.process.map FileProcessContext.bare }

def FileEventRow.bare (row : FileEventRow) : FileEventRow := { row with event := FileEvent.bare row.event }

def DetectionRow.bare (row : DetectionRow) : DetectionRow :=
  { row with summary := "", paths := bareTexts row.paths }

def ProcessEvent.bare (e : ProcessEvent) : ProcessEvent :=
  { e with exe := bareOption e.exe, comm := "", cmdline := "" }

def ProcessEventRow.bare (row : ProcessEventRow) : ProcessEventRow :=
  { row with event := ProcessEvent.bare row.event }

def ResponseAuditRow.bare (row : ResponseAuditRow) : ResponseAuditRow :=
  { row with result := { row.result with error := bareOption row.result.error } }

def EvidencePage.bare {α : Type} (f : α → α) (page : EvidencePage α) : EvidencePage α :=
  { page with rows := page.rows.map f }

def EvidenceBundle.bare (b : EvidenceBundle) : EvidenceBundle :=
  { b with
    files := EvidencePage.bare FileEventRow.bare b.files
    detections := EvidencePage.bare DetectionRow.bare b.detections
    processes := EvidencePage.bare ProcessEventRow.bare b.processes }

def ApprovedChange.bare (c : ApprovedChange) : ApprovedChange :=
  { c with id := "", paths := bareTexts c.paths, exe := "" }

def DetectionConfig.bare (c : DetectionConfig) : DetectionConfig :=
  { c with
    excludePaths := bareTexts c.excludePaths
    approvedChanges := c.approvedChanges.map ApprovedChange.bare
    canaryPaths := bareTexts c.canaryPaths
    multiWindow := { c.multiWindow with protectedPaths := bareTexts c.multiWindow.protectedPaths } }

def RollbackApproval.bare (r : RollbackApproval) : RollbackApproval :=
  { r with approvalId := "", reason := "" }

def Policy.bare (p : Policy) : Policy :=
  { p with
    policyId := ""
    keyId := ""
    targetHosts := bareTexts p.targetHosts
    targetGroups := bareTexts p.targetGroups
    rollback := p.rollback.map RollbackApproval.bare
    detection := DetectionConfig.bare p.detection }

def PolicyStatus.bare (s : PolicyStatus) : PolicyStatus := { s with policyId := "", keyId := "" }

def AuditRow.bare (row : AuditRow) : AuditRow :=
  { row with
    reason := ""
    policyId := bareOption row.policyId
    keyId := bareOption row.keyId
    approvalId := bareOption row.approvalId }

def PolicyStateSnapshot.bare (s : PolicyStateSnapshot) : PolicyStateSnapshot :=
  { s with active := s.active.map PolicyStatus.bare, audit := s.audit.map AuditRow.bare }

def PolicyData.bare : PolicyData → PolicyData
  | .accepted state policy => .accepted (PolicyStateSnapshot.bare state) (Policy.bare policy)
  | .unsigned detection response => .unsigned (DetectionConfig.bare detection) response

/-- An incident without the texts of paths, executables, command lines, process names, summaries,
reasons and errors, and without the ids of approved changes, hosts, groups, policies, keys and
approvals. -/
def Incident.bare (d : Incident) : Incident where
  incident := DetectionRow.bare d.incident
  evidence := EvidenceBundle.bare d.evidence
  responseResults := EvidencePage.bare ResponseAuditRow.bare d.responseResults
  policy := PolicyData.bare d.policy

/-- Two incidents have the same shape and agree on everything but these texts. -/
def Agree (d d' : Incident) : Prop := Incident.bare d = Incident.bare d'

/-! ## Redaction of the records -/

@[simp]
theorem redact_null : redact .null = .null := rfl

@[simp]
theorem redact_bool (b : Bool) : redact (.bool b) = .bool b := rfl

@[simp]
theorem redact_int (n : Int) : redact (.int n) = .int n := rfl

@[simp]
theorem redact_text (s : String) : redact (.text s) = .text s := rfl

@[simp]
theorem redact_nat (n : Nat) : redact (natTree n) = natTree n := rfl

@[simp]
theorem redact_number (n : Number) : redact (numberTree n) = numberTree n := by
  cases n <;> rfl

theorem redact_list {α : Type} {f g : α → Tree} {h : α → α} (hf : ∀ a, redact (f a) = redact (g (h a)))
    (l : List α) : redact (listTree f l) = redact (listTree g (l.map h)) := by
  simp only [redact, listTree, Tree.mask, Tree.maskItems_eq_map, List.map_map]
  exact congrArg Tree.array (List.map_congr_left fun a _ => hf a)

theorem redact_option {α : Type} {f g : α → Tree} {h : α → α} (hf : ∀ a, redact (f a) = redact (g (h a)))
    (o : Option α) : redact (optionTree f o) = redact (optionTree g (o.map h)) := by
  cases o with
  | none => rfl
  | some a => exact hf a

/-- An object is redacted field by field. -/
theorem redact_object (fields : List (String × Tree)) :
    redact (.object fields) =
      .object (fields.map fun f => (f.1, if hidden f.1 f.2 then redacted else redact f.2)) := by
  unfold redact
  rw [Tree.mask]
  congr 1
  induction fields with
  | nil => rfl
  | cons f rest ih => rw [Tree.maskFields, ih, List.map_cons]

theorem redact_context (p : FileProcessContext) :
    redact (FileProcessContext.tree p) =
      redact (FileProcessContext.tree (FileProcessContext.bare p)) := by
  simp [FileProcessContext.tree, redact_object, hidden, hiddenKeys, FileProcessContext.bare]

theorem redact_fileEvent (e : FileEvent) :
    redact (FileEvent.tree e) = redact (FileEvent.tree (FileEvent.bare e)) := by
  simp [FileEvent.tree, redact_object, hidden, hiddenKeys, FileEvent.bare,
    redact_option redact_context e.process]

theorem redact_fileEventRow (row : FileEventRow) :
    redact (FileEventRow.tree row) = redact (FileEventRow.tree (FileEventRow.bare row)) := by
  simp [FileEventRow.tree, redact_object, hidden, hiddenKeys, FileEventRow.bare, Tree.isText,
    redact_fileEvent row.event]

theorem redact_detectionRow (row : DetectionRow) :
    redact (DetectionRow.tree row) = redact (DetectionRow.tree (DetectionRow.bare row)) := by
  simp [DetectionRow.tree, redact_object, hidden, hiddenKeys, DetectionRow.bare, Tree.isText]

theorem redact_processEvent (e : ProcessEvent) :
    redact (ProcessEvent.tree e) = redact (ProcessEvent.tree (ProcessEvent.bare e)) := by
  simp [ProcessEvent.tree, redact_object, hidden, hiddenKeys, ProcessEvent.bare]

theorem redact_processEventRow (row : ProcessEventRow) :
    redact (ProcessEventRow.tree row) = redact (ProcessEventRow.tree (ProcessEventRow.bare row)) := by
  simp [ProcessEventRow.tree, redact_object, hidden, hiddenKeys, ProcessEventRow.bare, Tree.isText,
    redact_processEvent row.event]

theorem redact_responseAuditRow (row : ResponseAuditRow) :
    redact (ResponseAuditRow.tree row) = redact (ResponseAuditRow.tree (ResponseAuditRow.bare row)) := by
  simp [ResponseAuditRow.tree, ResponseAudit.tree, redact_object, hidden, hiddenKeys,
    ResponseAuditRow.bare, Tree.isText]

theorem redact_page {α : Type} {f : α → Tree} {g : α → α} (hf : ∀ a, redact (f a) = redact (f (g a)))
    (page : EvidencePage α) :
    redact (EvidencePage.tree f page) = redact (EvidencePage.tree f (EvidencePage.bare g page)) := by
  simp [EvidencePage.tree, redact_object, hidden, hiddenKeys, EvidencePage.bare,
    redact_list hf page.rows]

theorem redact_bundle (b : EvidenceBundle) :
    redact (EvidenceBundle.tree b) = redact (EvidenceBundle.tree (EvidenceBundle.bare b)) := by
  simp [EvidenceBundle.tree, redact_object, hidden, hiddenKeys, EvidenceBundle.bare,
    redact_page redact_fileEventRow b.files, redact_page redact_detectionRow b.detections,
    redact_page redact_processEventRow b.processes]

/-- The value of `evidence.json` is redacted to what it is without the texts. -/
theorem redact_incident (d : Incident) :
    redact (Incident.tree d) = redact (Incident.tree (Incident.bare d)) := by
  simp [Incident.tree, redact_object, hidden, hiddenKeys, Incident.bare,
    redact_detectionRow d.incident, redact_bundle d.evidence,
    redact_page redact_responseAuditRow d.responseResults]

theorem redact_approvedChange (c : ApprovedChange) :
    redact (ApprovedChange.tree c) = redact (ApprovedChange.tree (ApprovedChange.bare c)) := by
  simp [ApprovedChange.tree, redact_object, hidden, hiddenKeys, ApprovedChange.bare, Tree.isText]

theorem redact_detectionConfig (c : DetectionConfig) :
    redact (DetectionConfig.tree c) = redact (DetectionConfig.tree (DetectionConfig.bare c)) := by
  simp [DetectionConfig.tree, MultiWindowConfig.tree, redact_object, hidden, hiddenKeys,
    DetectionConfig.bare, redact_list redact_approvedChange c.approvedChanges]

theorem redact_rollback (r : RollbackApproval) :
    redact (RollbackApproval.tree r) = redact (RollbackApproval.tree (RollbackApproval.bare r)) := by
  simp [RollbackApproval.tree, redact_object, hidden, hiddenKeys, RollbackApproval.bare]

theorem redact_policyBody (p : Policy) :
    redact (Policy.tree p) = redact (Policy.tree (Policy.bare p)) := by
  simp [Policy.tree, redact_object, hidden, hiddenKeys, Policy.bare,
    redact_option redact_rollback p.rollback, redact_detectionConfig p.detection]

theorem redact_status (s : PolicyStatus) :
    redact (PolicyStatus.tree s) = redact (PolicyStatus.tree (PolicyStatus.bare s)) := by
  simp [PolicyStatus.tree, redact_object, hidden, hiddenKeys, PolicyStatus.bare]

theorem redact_auditRow (row : AuditRow) :
    redact (AuditRow.tree row) = redact (AuditRow.tree (AuditRow.bare row)) := by
  simp [AuditRow.tree, redact_object, hidden, hiddenKeys, AuditRow.bare, Tree.isText, natTree]

theorem redact_state (s : PolicyStateSnapshot) :
    redact (PolicyStateSnapshot.tree s) =
      redact (PolicyStateSnapshot.tree (PolicyStateSnapshot.bare s)) := by
  simp [PolicyStateSnapshot.tree, redact_object, hidden, hiddenKeys, PolicyStateSnapshot.bare,
    redact_option redact_status s.active, redact_list redact_auditRow s.audit]

/-- The value of `policy.json` is redacted to what it is without the texts. -/
theorem redact_policy (p : PolicyData) :
    redact (PolicyData.tree p) = redact (PolicyData.tree (PolicyData.bare p)) := by
  cases p with
  | accepted state policy =>
    simp [PolicyData.tree, redact_object, hidden, hiddenKeys, PolicyData.bare, redact_state state,
      redact_policyBody policy]
  | unsigned detection response =>
    simp [PolicyData.tree, redact_object, hidden, hiddenKeys, PolicyData.bare,
      redact_detectionConfig detection]

/-- Incidents that agree are redacted to the same values. -/
theorem Agree.redact {d d' : Incident} (h : Agree d d') :
    Cli.redact (Incident.tree d) = Cli.redact (Incident.tree d') ∧
      Cli.redact (PolicyData.tree d.policy) = Cli.redact (PolicyData.tree d'.policy) := by
  have hpolicy : PolicyData.bare d.policy = PolicyData.bare d'.policy := congrArg Incident.policy h
  constructor
  · rw [redact_incident d, redact_incident d']
    exact congrArg (Cli.redact ∘ Incident.tree) h
  · rw [redact_policy d.policy, redact_policy d'.policy, hpolicy]

/-- Redacting twice is redacting once. -/
theorem redact_redact (v : Tree) : redact (redact v) = redact v := by
  refine Tree.mask_mask ⟨fun k v h => ?_, fun k v h => ?_⟩ v
  · unfold hidden at h ⊢
    rw [Bool.or_eq_true, Bool.and_eq_true] at h
    obtain ⟨hid, -⟩ | hkey := h
    · rw [hid]
      rfl
    · rw [hkey, Bool.or_true]
  · unfold hidden at h ⊢
    rw [Tree.isText_mask]
    exact h

/-! ## Figures -/

/-- A field by field form of what is shielded. -/
theorem shielded_object {fields : List (String × Tree)} :
    Tree.Shielded hidden (.object fields) ↔
      ∀ f ∈ fields, if hidden f.1 f.2 then Tree.Textual f.2 else Tree.Shielded hidden f.2 := by
  change Tree.ShieldedFields hidden fields ↔ _
  induction fields with
  | nil => simp [Tree.ShieldedFields]
  | cons f rest ih =>
    rw [Tree.ShieldedFields, ih, List.forall_mem_cons]

@[simp]
theorem shielded_bool (b : Bool) : Tree.Shielded hidden (.bool b) := trivial

@[simp]
theorem shielded_int (n : Int) : Tree.Shielded hidden (.int n) := trivial

@[simp]
theorem shielded_nat (n : Nat) : Tree.Shielded hidden (natTree n) := trivial

@[simp]
theorem shielded_text (s : String) : Tree.Shielded hidden (.text s) := trivial

@[simp]
theorem shielded_action (a : FileAction) : Tree.Shielded hidden (actionTree a) := trivial

@[simp]
theorem shielded_number (n : Number) : Tree.Shielded hidden (numberTree n) := by
  cases n <;> trivial

@[simp]
theorem textual_text (s : String) : Tree.Textual (.text s) := trivial

theorem shielded_list {α : Type} {f : α → Tree} (hf : ∀ a, Tree.Shielded hidden (f a)) (l : List α) :
    Tree.Shielded hidden (listTree f l) := by
  refine Tree.shieldedItems_iff.2 fun v hv => ?_
  obtain ⟨a, -, rfl⟩ := List.mem_map.1 hv
  exact hf a

theorem shielded_option {α : Type} {f : α → Tree} (hf : ∀ a, Tree.Shielded hidden (f a))
    (o : Option α) : Tree.Shielded hidden (optionTree f o) := by
  cases o with
  | none => trivial
  | some a => exact hf a

@[simp]
theorem shielded_optionNat (o : Option Nat) : Tree.Shielded hidden (optionTree natTree o) :=
  shielded_option shielded_nat o

@[simp]
theorem shielded_optionNumber (o : Option Number) : Tree.Shielded hidden (optionTree numberTree o) :=
  shielded_option shielded_number o

@[simp]
theorem shielded_optionText (o : Option String) : Tree.Shielded hidden (optionTree .text o) :=
  shielded_option shielded_text o

@[simp]
theorem textual_texts (l : List String) : Tree.Textual (listTree .text l) := by
  refine Tree.textualItems_iff.2 fun v hv => ?_
  obtain ⟨s, -, rfl⟩ := List.mem_map.1 hv
  exact textual_text s

@[simp]
theorem textual_optionText (o : Option String) : Tree.Textual (optionTree .text o) := by
  cases o <;> trivial

theorem shielded_content (c : ContentEvidence) : Tree.Shielded hidden (ContentEvidence.tree c) := by
  have hsample : ∀ s, Tree.Shielded hidden (ContentSample.tree s) := by
    intro s
    simp [ContentSample.tree, shielded_object, hidden, hiddenKeys]
  simp [ContentEvidence.tree, shielded_object, hidden, hiddenKeys, shielded_list hsample c.samples]

theorem shielded_context (p : FileProcessContext) :
    Tree.Shielded hidden (FileProcessContext.tree p) := by
  have hidentity : ∀ i, Tree.Shielded hidden (ProcessIdentity.tree i) := by
    intro i
    simp [ProcessIdentity.tree, shielded_object, hidden, hiddenKeys]
  simp [FileProcessContext.tree, shielded_object, hidden, hiddenKeys,
    shielded_list hidentity p.ancestors]

theorem shielded_fileEventRow (row : FileEventRow) : Tree.Shielded hidden (FileEventRow.tree row) := by
  simp [FileEventRow.tree, FileEvent.tree, shielded_object, hidden, hiddenKeys, Tree.isText,
    shielded_option shielded_context row.event.process,
    shielded_option shielded_content row.event.content]

theorem shielded_detectionRow (row : DetectionRow) : Tree.Shielded hidden (DetectionRow.tree row) := by
  simp [DetectionRow.tree, shielded_object, hidden, hiddenKeys, Tree.isText]

theorem shielded_processEventRow (row : ProcessEventRow) :
    Tree.Shielded hidden (ProcessEventRow.tree row) := by
  have hcredentials : ∀ c, Tree.Shielded hidden (ProcessCredentials.tree c) := by
    intro c
    simp [ProcessCredentials.tree, shielded_object, hidden, hiddenKeys,
      shielded_list shielded_nat c.uids.toList, shielded_list shielded_nat c.gids.toList]
  simp [ProcessEventRow.tree, ProcessEvent.tree, shielded_object, hidden, hiddenKeys, Tree.isText,
    shielded_option hcredentials row.event.credentials]

theorem shielded_responseAuditRow (row : ResponseAuditRow) :
    Tree.Shielded hidden (ResponseAuditRow.tree row) := by
  simp [ResponseAuditRow.tree, ResponseAudit.tree, shielded_object, hidden, hiddenKeys, Tree.isText]

theorem shielded_page {α : Type} {f : α → Tree} (hf : ∀ a, Tree.Shielded hidden (f a))
    (page : EvidencePage α) : Tree.Shielded hidden (EvidencePage.tree f page) := by
  simp [EvidencePage.tree, shielded_object, hidden, hiddenKeys, shielded_list hf page.rows]

/-- No number and no truth value of `evidence.json` is under a key that is covered. -/
theorem shielded_incident (d : Incident) : Tree.Shielded hidden (Incident.tree d) := by
  simp [Incident.tree, EvidenceBundle.tree, shielded_object, hidden, hiddenKeys,
    shielded_detectionRow d.incident, shielded_page shielded_fileEventRow d.evidence.files,
    shielded_page shielded_detectionRow d.evidence.detections,
    shielded_page shielded_processEventRow d.evidence.processes,
    shielded_page shielded_responseAuditRow d.responseResults]

theorem shielded_detectionConfig (c : DetectionConfig) :
    Tree.Shielded hidden (DetectionConfig.tree c) := by
  have happroved : ∀ a, Tree.Shielded hidden (ApprovedChange.tree a) := by
    intro a
    simp [ApprovedChange.tree, shielded_object, hidden, hiddenKeys, Tree.isText,
      shielded_list shielded_text a.adjustedRules]
  have hwindow : ∀ w, Tree.Shielded hidden (DetectionWindow.tree w) := by
    intro w
    simp [DetectionWindow.tree, shielded_object, hidden, hiddenKeys]
  simp [DetectionConfig.tree, MultiWindowConfig.tree, ContentSamplingConfig.tree, shielded_object,
    hidden, hiddenKeys, shielded_list happroved c.approvedChanges,
    shielded_list hwindow c.multiWindow.windows]

theorem shielded_responseConfig (c : ResponseConfig) :
    Tree.Shielded hidden (ResponseConfig.tree c) := by
  simp [ResponseConfig.tree, shielded_object, hidden, hiddenKeys]

theorem shielded_policyBody (p : Policy) : Tree.Shielded hidden (Policy.tree p) := by
  have hrollback : ∀ r, Tree.Shielded hidden (RollbackApproval.tree r) := by
    intro r
    simp [RollbackApproval.tree, shielded_object, hidden, hiddenKeys]
  simp [Policy.tree, shielded_object, hidden, hiddenKeys, shielded_option hrollback p.rollback,
    shielded_detectionConfig p.detection, shielded_responseConfig p.response]

theorem shielded_state (s : PolicyStateSnapshot) :
    Tree.Shielded hidden (PolicyStateSnapshot.tree s) := by
  have hstatus : ∀ t, Tree.Shielded hidden (PolicyStatus.tree t) := by
    intro t
    simp [PolicyStatus.tree, shielded_object, hidden, hiddenKeys]
  have haudit : ∀ row, Tree.Shielded hidden (AuditRow.tree row) := by
    intro row
    simp [AuditRow.tree, shielded_object, hidden, hiddenKeys, natTree, Tree.isText]
  simp [PolicyStateSnapshot.tree, shielded_object, hidden, hiddenKeys,
    shielded_option hstatus s.active, shielded_list haudit s.audit]

/-- No number and no truth value of `policy.json` is under a key that is covered. -/
theorem shielded_policy (p : PolicyData) : Tree.Shielded hidden (PolicyData.tree p) := by
  cases p with
  | accepted state policy =>
    simp [PolicyData.tree, shielded_object, hidden, hiddenKeys, shielded_state state,
      shielded_policyBody policy]
  | unsigned detection response =>
    simp [PolicyData.tree, shielded_object, hidden, hiddenKeys, shielded_detectionConfig detection,
      shielded_responseConfig response]

/-- Redaction leaves every number and every truth value of a tree where it is. -/
def KeepsFigures (v : Tree) : Prop :=
  ∀ path w, Tree.treeAt path v = some w → w.isFigure = true → Tree.treeAt path (redact v) = some w

theorem keepsFigures_of_shielded {v : Tree} (h : Tree.Shielded hidden v) : KeepsFigures v :=
  fun _ _ hw hfigure => Tree.treeAt_mask h hw hfigure

/-! ## The package -/

section Written

variable (T : Tools)

/-- The bytes of a value in a package. -/
def fileBytes (sensitive : Bool) (value : Tree) : Bytes :=
  T.toVecPretty (if sensitive then value else redact value)

/-- The manifest of a package. -/
def manifestOf (now : Nat) (sensitive : Bool) (data : Incident) : Tree :=
  manifest now sensitive
    [("evidence.json", fileEntry T (fileBytes T sensitive (Incident.tree data))),
      ("policy.json", fileEntry T (fileBytes T sensitive (PolicyData.tree data.policy)))]

/-- The files of a package. -/
def written (now : Nat) (sensitive : Bool) (data : Incident) : Directory :=
  (((∅ : Directory).insert "evidence.json" (fileBytes T sensitive (Incident.tree data))).insert
    "policy.json" (fileBytes T sensitive (PolicyData.tree data.policy))).insert
      "manifest.json" (T.toVecPretty (manifestOf T now sensitive data))

/-- `serde_json` reads back a value that it has written, and writes it in a file that can be read. -/
def Tools.ReadsBack (v : Tree) : Prop :=
  T.fromSlice (T.toVecPretty v) = some v ∧ (T.toVecPretty v).length ≤ maxBytes

variable {T}

theorem writeNew_sat {name : String} {bytes : Bytes} {directory : Directory}
    {Q : Unit → Place → Prop} (h : Q () (some (directory.insert name bytes))) :
    (writeNew name bytes).Sat (some directory) Q (fun _ => True) (fun _ => True) := by
  unfold writeNew
  exact .bind (.ask (fun _ _ => .atomic h trivial trivial) trivial)

theorem writeFile_sat {sensitive : Bool} {name : String} {value : Tree} {directory : Directory}
    {Q : String × Tree → Place → Prop}
    (h : (fileBytes T sensitive value).length ≤ maxBytes →
      Q (name, fileEntry T (fileBytes T sensitive value))
        (some (directory.insert name (fileBytes T sensitive value)))) :
    (writeFile T sensitive name value).Sat (some directory) Q (fun _ => True) (fun _ => True) := by
  unfold writeFile
  refine .ite (fun _ => .fail trivial) fun hshort => .bind (writeNew_sat (.pure (h ?_)))
  exact Nat.le_of_not_lt hshort

/-- What is at a place when a package was written to it. -/
def Stored (T : Tools) (now : Nat) (sensitive : Bool) (data : Incident) (place : Place) : Prop :=
  place = some (written T now sensitive data) ∧
    (fileBytes T sensitive (Incident.tree data)).length ≤ maxBytes ∧
    (fileBytes T sensitive (PolicyData.tree data.policy)).length ≤ maxBytes

theorem writePackage_sat (now : Nat) (data : Incident) (sensitive : Bool) (place : Place) :
    (writePackage T now data sensitive).Sat place (fun _ => Stored T now sensitive data)
      (fun _ => True) (fun _ => True) := by
  unfold writePackage createDirectory
  refine .bind (.bind (.ask (fun _ _ => .atomic ?_ trivial trivial) trivial))
  refine .bind (writeFile_sat fun hevidence => .bind (writeFile_sat fun hpolicy => writeNew_sat ?_))
  exact ⟨rfl, hevidence, hpolicy⟩

theorem writeNew_run {name : String} {bytes : Bytes} {directory : Directory}
    (h : directory.lookup name = none) :
    writeNew name bytes [] (some directory) = (.ok (), [], some (directory.insert name bytes)) := by
  have hnew : isNew name (some directory) = .ok () := by
    simp [isNew, h]
  exact Prog.bind_run_ok (Prog.ask_run_ok hnew [])

theorem writeFile_run {sensitive : Bool} {name : String} {value : Tree} {directory : Directory}
    (hshort : (fileBytes T sensitive value).length ≤ maxBytes) (hnew : directory.lookup name = none) :
    writeFile T sensitive name value [] (some directory) =
      (.ok (name, fileEntry T (fileBytes T sensitive value)), [],
        some (directory.insert name (fileBytes T sensitive value))) := by
  have hfits : writeFile T sensitive name value = (do
      writeNew name (fileBytes T sensitive value)
      pure (name, fileEntry T (fileBytes T sensitive value))) := if_neg (Nat.not_lt.2 hshort)
  rw [hfits]
  exact Prog.bind_run_ok (writeNew_run hnew)

/-- Without a fault, a package of two files that are not too long is written to a new directory. -/
theorem writePackage_run {now : Nat} {data : Incident} {sensitive : Bool}
    (hevidence : (fileBytes T sensitive (Incident.tree data)).length ≤ maxBytes)
    (hpolicy : (fileBytes T sensitive (PolicyData.tree data.policy)).length ≤ maxBytes) :
    writePackage T now data sensitive [] none =
      (.ok (), [], some (written T now sensitive data)) := by
  have hcreate : createDirectory [] none = (.ok (), [], some ∅) := rfl
  refine (Prog.bind_run_ok hcreate).trans ?_
  refine (Prog.bind_run_ok (writeFile_run hevidence (AList.lookup_empty _))).trans ?_
  refine (Prog.bind_run_ok (writeFile_run hpolicy rfl)).trans ?_
  exact writeNew_run rfl

theorem readFile_ok {directory : Directory} {name : String} {bytes : Bytes}
    (h : directory.lookup name = some bytes) (hshort : bytes.length ≤ maxBytes) :
    readFile directory name = .ok bytes := by
  unfold readFile
  rw [h]
  exact if_neg (Nat.not_lt.2 hshort)

theorem checkFile_ok {directory : Directory} {name : String} {bytes : Bytes}
    (snapshot : Map String Bytes) (h : directory.lookup name = some bytes)
    (hshort : bytes.length ≤ maxBytes) :
    checkFile T directory snapshot (name, fileEntry T bytes) = .ok (snapshot.insert name bytes) := by
  unfold checkFile
  rw [readFile_ok h hshort]
  have hsize : asU64 (Tree.get "size_bytes" (fileEntry T bytes)) = some bytes.length := rfl
  have hdigest : asStr (Tree.get "sha256" (fileEntry T bytes)) = some (T.sha256 bytes) := rfl
  change (if _ then _ else _) = _
  rw [if_neg (by rw [hsize, hdigest]; simp)]
  rfl

theorem written_lookup (now : Nat) (sensitive : Bool) (data : Incident) :
    (written T now sensitive data).lookup "evidence.json" =
        some (fileBytes T sensitive (Incident.tree data)) ∧
      (written T now sensitive data).lookup "policy.json" =
        some (fileBytes T sensitive (PolicyData.tree data.policy)) ∧
      (written T now sensitive data).lookup "manifest.json" =
        some (T.toVecPretty (manifestOf T now sensitive data)) := by
  unfold written
  refine ⟨?_, ?_, AList.lookup_insert _⟩
  · rw [AList.lookup_insert_ne (by decide), AList.lookup_insert_ne (by decide), AList.lookup_insert]
  · rw [AList.lookup_insert_ne (by decide), AList.lookup_insert]

theorem length_written (now : Nat) (sensitive : Bool) (data : Incident) :
    (written T now sensitive data).entries.length = 3 := rfl

/-- A package that was written is accepted, and its files are returned as they are. -/
theorem snapshot_written {now : Nat} {sensitive : Bool} {data : Incident}
    (hmanifest : T.ReadsBack (manifestOf T now sensitive data))
    (hevidence : (fileBytes T sensitive (Incident.tree data)).length ≤ maxBytes)
    (hpolicy : (fileBytes T sensitive (PolicyData.tree data.policy)).length ≤ maxBytes) :
    snapshot T (written T now sensitive data) = .ok (written T now sensitive data) := by
  obtain ⟨he, hp, hm⟩ := @written_lookup T now sensitive data
  have hfold : [("evidence.json", fileEntry T (fileBytes T sensitive (Incident.tree data))),
      ("policy.json", fileEntry T (fileBytes T sensitive (PolicyData.tree data.policy)))].foldlM
      (checkFile T (written T now sensitive data)) ∅ =
        .ok (((∅ : Directory).insert "evidence.json"
          (fileBytes T sensitive (Incident.tree data))).insert "policy.json"
            (fileBytes T sensitive (PolicyData.tree data.policy))) := by
    rw [List.foldlM_cons, checkFile_ok ∅ he hevidence]
    change List.foldlM _ _ _ = _
    rw [List.foldlM_cons, checkFile_ok _ hp hpolicy]
    rfl
  have hread : readManifest T (T.toVecPretty (manifestOf T now sensitive data)) =
      .ok (manifestOf T now sensitive data) := by
    unfold readManifest
    rw [hmanifest.1]
  have hlisted : listedFiles (manifestOf T now sensitive data) =
      .ok [("evidence.json", fileEntry T (fileBytes T sensitive (Incident.tree data))),
        ("policy.json", fileEntry T (fileBytes T sensitive (PolicyData.tree data.policy)))] := rfl
  refine Prog.answer_bind_iff.2 ⟨_, readFile_ok hm hmanifest.2, ?_⟩
  refine Prog.answer_bind_iff.2 ⟨_, hread, ?_⟩
  refine Prog.answer_bind_iff.2 ⟨_, hlisted, ?_⟩
  refine Prog.answer_bind_iff.2 ⟨_, hfold, ?_⟩
  rw [if_neg (by rw [length_written]; simp)]
  rfl

end Written

/-- Two packages without sensitive data, of incidents that agree on everything but the texts that are to
be removed: their two files of evidence and policy are the same. Redaction is idempotent and leaves every
number and every truth value where it is. And `snapshot` accepts the package and returns the bytes that
were written. -/
theorem redacted_packages {T : Tools} {d d' : Incident} (hagree : Agree d d') {now now' : Nat}
    {plan plan' rest rest' : Plan} {place place' : Place} {directory directory' : Directory}
    (hrun : writePackage T now d false plan place = (.ok (), rest, some directory))
    (hrun' : writePackage T now' d' false plan' place' = (.ok (), rest', some directory'))
    (hmanifest : T.ReadsBack (manifestOf T now false d)) :
    (∃ evidence policy,
      directory.lookup "evidence.json" = some evidence ∧
        directory'.lookup "evidence.json" = some evidence ∧
        directory.lookup "policy.json" = some policy ∧
        directory'.lookup "policy.json" = some policy) ∧
      ((∀ v, redact (redact v) = redact v) ∧ KeepsFigures (Incident.tree d) ∧
        KeepsFigures (PolicyData.tree d.policy)) ∧
      snapshot T directory = .ok directory := by
  obtain ⟨hplace, hevidence, hpolicy⟩ := (writePackage_sat now d false place).of_ok hrun
  obtain ⟨hplace', -, -⟩ := (writePackage_sat now' d' false place').of_ok hrun'
  obtain rfl := Option.some.inj hplace
  obtain rfl := Option.some.inj hplace'
  obtain ⟨he, hp, -⟩ := @written_lookup T now false d
  obtain ⟨he', hp', -⟩ := @written_lookup T now' false d'
  obtain ⟨hsame, hsame'⟩ := hagree.redact
  refine ⟨⟨_, _, he, ?_, hp, ?_⟩, ⟨redact_redact, ?_, ?_⟩, ?_⟩
  · rw [he']
    exact congrArg (some ∘ T.toVecPretty) hsame.symm
  · rw [hp']
    exact congrArg (some ∘ T.toVecPretty) hsame'.symm
  · exact keepsFigures_of_shielded (shielded_incident d)
  · exact keepsFigures_of_shielded (shielded_policy d.policy)
  · exact snapshot_written hmanifest hevidence hpolicy

/-! ## Two incidents with different texts -/

/-- A reader of one value. -/
def Tools.reading (T : Tools) (v : Tree) : Tools :=
  { T with fromSlice := fun bytes => if bytes = T.toVecPretty v then some v else none }

theorem Tools.readsBack_reading (T : Tools) {v : Tree} (h : (T.toVecPretty v).length ≤ maxBytes) :
    (T.reading v).ReadsBack v := ⟨if_pos rfl, h⟩

theorem manifestOf_reading (T : Tools) (v : Tree) (now : Nat) (sensitive : Bool) (data : Incident) :
    manifestOf (T.reading v) now sensitive data = manifestOf T now sensitive data := rfl

/-- An incident with one detection, and nothing else around it. -/
def sampleIncident (summary path : String) : Incident where
  incident := ⟨1, 10, "behavior.ransomware_pattern", .finite 90, "critical", summary, 42, [path]⟩
  evidence := ⟨0, 20, none, ⟨0, false, []⟩,
    ⟨1, false, [⟨1, 10, "behavior.ransomware_pattern", .finite 90, "critical", summary, 42, [path]⟩]⟩,
    ⟨0, false, []⟩⟩
  responseResults := ⟨0, false, []⟩
  policy := .accepted ⟨none, [], 100, 10000⟩
    { version := 3, policyId := summary, keyId := "k", issuedAtMs := 1, notBeforeMs := 1,
      expiresAtMs := 2, targetHosts := [summary], targetGroups := [], rollback := none,
      detection :=
        { windowSecs := 10, massChangeThreshold := 30, minChangedFiles := 5,
          entropyThreshold := .finite 7, detectScore := .finite 40, entropySampleBytes := 65536,
          excludePaths := [path], approvedChanges := [], canaryPaths := [],
          multiWindow := ⟨false, [], [], true, true, 100, 10, 1000⟩,
          contentSampling := ⟨false, 100, 10, 60, .finite 1⟩ },
      response := ⟨false, .finite 80⟩ }

/-- Items or fields between brackets, each on a line of its own. -/
def block (indent : Nat) (first last : String) : List Bytes → Bytes
  | [] => bytesOf first ++ bytesOf last
  | items => bytesOf first ++ bytesOf "\n" ++
      (bytesOf ",\n").intercalate (items.map fun t => List.replicate (indent + 2) 32 ++ t) ++
      bytesOf "\n" ++ List.replicate indent 32 ++ bytesOf last

mutual

/-- A value with the indentation of `serde_json`; the sample has whole numbers and plain texts only. -/
def prettyBytes (indent : Nat) : Tree → Bytes
  | .null => bytesOf "null"
  | .bool b => bytesOf (if b then "true" else "false")
  | .int n => bytesOf (toString n)
  | .float q => bytesOf (toString q.num ++ ".0")
  | .text s => bytesOf "\"" ++ bytesOf s ++ bytesOf "\""
  | .array items => block indent "[" "]" (prettyItems (indent + 2) items)
  | .object fields => block indent "\x7b" "\x7d"
      (((prettyFields (indent + 2) fields).insertionSort fun a b => a.1 ≤ b.1).map fun f =>
        bytesOf "\"" ++ f.1 ++ bytesOf "\": " ++ f.2)

/-- The items of an array. -/
def prettyItems (indent : Nat) : List Tree → List Bytes
  | [] => []
  | v :: rest => prettyBytes indent v :: prettyItems indent rest

/-- The keys and values of an object. -/
def prettyFields (indent : Nat) : List (String × Tree) → List (Bytes × Bytes)
  | [] => []
  | (k, v) :: rest => (bytesOf k, prettyBytes indent v) :: prettyFields indent rest

end

/-- The bytes of a value of the sample. -/
def sampleBytes (v : Tree) : Bytes := prettyBytes 0 v

/-- `serde_json` and SHA-256 on the sample, without a manifest to read. -/
def sampleWriter : Tools where
  toVecPretty := sampleBytes
  fromSlice _ := none
  sha256 bytes :=
    if bytes = sampleBytes (redact (Incident.tree (sampleIncident "a" "/b"))) then
      "d30fa4c9708dd82c81e9b3cb7cbd97d01b9f7baf743bb220b5793c247ccaad87"
    else if bytes = sampleBytes (redact (PolicyData.tree (sampleIncident "a" "/b").policy)) then
      "346e6d80ec9c84a98c3b330c89d44a705c1f5dc9930bf1c8b577270fb46a8bbe"
    else ""

/-- The manifest of the first package. -/
def sampleManifest : Tree := manifestOf sampleWriter 5 false (sampleIncident "a" "/b")

/-- `serde_json` and SHA-256 on the sample. -/
def sampleTools : Tools := sampleWriter.reading sampleManifest

/-- Two packages with different texts are written, their files are the same, and the first one is
accepted. -/
theorem redacted_packages_two :
    ∃ directory directory',
      writePackage sampleTools 5 (sampleIncident "a" "/b") false [] none =
          (.ok (), [], some directory) ∧
        writePackage sampleTools 9 (sampleIncident "secret" "/home/x") false [] none =
          (.ok (), [], some directory') ∧
        directory.lookup "evidence.json" = directory'.lookup "evidence.json" ∧
        snapshot sampleTools directory = .ok directory := by
  have hagree : Agree (sampleIncident "a" "/b") (sampleIncident "secret" "/home/x") := rfl
  have hevidence : (fileBytes sampleTools false (Incident.tree (sampleIncident "a" "/b"))).length ≤
      maxBytes := by decide +kernel
  have hpolicy : (fileBytes sampleTools false
      (PolicyData.tree (sampleIncident "a" "/b").policy)).length ≤ maxBytes := by decide +kernel
  have hrun := @writePackage_run sampleTools 5 (sampleIncident "a" "/b") false hevidence hpolicy
  have hsame : fileBytes sampleTools false (Incident.tree (sampleIncident "a" "/b")) =
      fileBytes sampleTools false (Incident.tree (sampleIncident "secret" "/home/x")) :=
    congrArg sampleTools.toVecPretty hagree.redact.1
  have hsame' : fileBytes sampleTools false (PolicyData.tree (sampleIncident "a" "/b").policy) =
      fileBytes sampleTools false (PolicyData.tree (sampleIncident "secret" "/home/x").policy) :=
    congrArg sampleTools.toVecPretty hagree.redact.2
  have hrun' := @writePackage_run sampleTools 9 (sampleIncident "secret" "/home/x") false
    (hsame ▸ hevidence) (hsame' ▸ hpolicy)
  have hread : sampleTools.ReadsBack (manifestOf sampleTools 5 false (sampleIncident "a" "/b")) := by
    have hshort : (sampleWriter.toVecPretty sampleManifest).length ≤ maxBytes := by decide +kernel
    have heq : manifestOf sampleTools 5 false (sampleIncident "a" "/b") = sampleManifest :=
      manifestOf_reading sampleWriter sampleManifest 5 false (sampleIncident "a" "/b")
    rw [heq]
    exact sampleWriter.readsBack_reading hshort
  obtain ⟨⟨_, _, he, he', -, -⟩, -, hsnapshot⟩ := redacted_packages hagree hrun hrun' hread
  exact ⟨_, _, hrun, hrun', he.trans he'.symm, hsnapshot⟩

end Argos.Cli
