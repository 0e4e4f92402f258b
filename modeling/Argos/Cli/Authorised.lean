import Argos.Cli.Trial
import Argos.Service.Vouching
import Argos.Vault.Bindings

/-!
# Restores that are authorised

The flags of a summary are set only when every step of a test went well (`testSteps_ok`), and that is the
chain of evidence: three accepted records of one bundle, the last of them reviewed as good, a backup with the
hash of the manifest, and a report that was accepted for the embedded plan and those bytes.
-/

namespace Argos.Cli

open Argos.Lib
open Argos.Lib.Recording
open Argos.Service (ServiceRecoveryPlan ServiceRecoveryReport ServiceReportVerification ReportReads Hashing
  validatePlan verifyReport verifyMetadata readStableFile)
open Argos.Vault (BundleRecord BundleManifest Primitives refuse_ok_iff verifyRecord)

variable {P : Primitives} {config : VaultConfig} {F : Formats} {agent id : String}

theorem orCode_ok_iff {ε α : Type} {code : String} {x : Except ε α} {a : α} :
    orCode code x = .ok a ↔ x = .ok a := by
  rcases x with e | b <;> simp [orCode]

theorem failWhen_bind_ok_iff {p : Prop} [Decidable p] {code : String} {β : Type} {f : Unit → Testing β} {b : β}
    {s s' : Summary} :
    (failWhen p code >>= f) s = (.ok b, s') ↔ ¬ p ∧ f () s = (.ok b, s') := by
  rw [failWhen, ask_bind_ok_iff]
  by_cases h : p
  · simp [h]
  · rw [if_neg h, and_iff_right h]
    exact ⟨fun ⟨_, _, hf⟩ => hf, fun hf => ⟨(), rfl, hf⟩⟩

/-! ## The client -/

/-- A record that `get` returns was answered, accepted, and is of the bundle that was asked for. -/
theorem get_ok {answer : Option BundleRecord} {record : BundleRecord}
    (h : get P config agent id answer = .ok record) :
    answer = some record ∧ verifyRecord P record config.pinnedPubkey config.keyId = .ok () ∧
      record.agentId = agent ∧ record.manifest.bundleId = id := by
  rw [get, Vault.Result.check_ok_iff, Vault.Result.bind_ok_iff] at h
  obtain ⟨-, answered, hanswer, h⟩ := h
  rw [Vault.Result.check_ok_iff, Vault.Result.check_ok_iff, refuse_ok_iff, Bool.or_eq_false_iff,
    bne_eq_false_iff_eq, bne_eq_false_iff_eq, Except.ok.injEq] at h
  obtain ⟨hverified, ⟨hagent, hid⟩, rfl⟩ := h
  refine ⟨?_, hverified, hagent, hid⟩
  rcases answer with _ | record
  · cases hanswer
  · exact congrArg some (Except.ok.inj hanswer)

/-- A record that `fetch` returns was answered last, and the published bytes are those of its manifest. -/
theorem fetch_ok {replies : FetchReplies} {evidenceOnly : Bool} {record : BundleRecord} {bytes : Vault.Bytes}
    (h : fetch P config agent id replies evidenceOnly = .ok (record, bytes)) :
    get P config agent id replies.last = .ok record ∧ bytes.length = record.manifest.sizeBytes ∧
      P.sha256 bytes = record.manifest.sha256 := by
  simp only [fetch, Vault.Result.bind_ok_iff, refuse_ok_iff, Bool.or_eq_false_iff, bne_eq_false_iff_eq,
    Except.ok.injEq, Prod.mk.injEq] at h
  obtain ⟨first, -, _, -, _, -, content, -, _, ⟨hsize, hhash⟩, latest, hlatest, _, ⟨⟨hmanifest, -⟩, -⟩, _, -,
    rfl, rfl⟩ := h
  rw [hmanifest]
  exact ⟨hlatest, hsize, hhash⟩

/-! ## The steps of a test -/

theorem parsePlan_ok {now : Nat} {text : String} {plan : ServiceRecoveryPlan}
    (h : parsePlan F now text = .ok plan) : F.plan text = some plan := by
  unfold parsePlan at h
  split_ifs at h
  rcases hplan : F.plan text with _ | parsed <;> rw [hplan] at h <;> dsimp only at h
  · cases h
  · rw [Service.check_ok_iff, Except.ok.injEq] at h
    rw [h.2]

/-- The plan of a trial is the embedded one with another backup file. -/
theorem relocatedPlan_ok {now : Nat} {text : Option String} {backupBytes : Nat} {destination : Text}
    {plan : ServiceRecoveryPlan} (h : relocatedPlan F now text backupBytes destination = .ok plan) :
    ∃ embeddedText embedded, text = some embeddedText ∧ F.plan embeddedText = some embedded ∧
      plan = { embedded with backupPath := destination } := by
  rcases text with _ | text
  · cases h
  · rw [relocatedPlan, Service.bind_ok_iff] at h
    obtain ⟨embedded, hembedded, h⟩ := h
    split_ifs at h
    rw [Service.check_ok_iff, Except.ok.injEq] at h
    exact ⟨text, embedded, rfl, parsePlan_ok (orCode_ok_iff.1 hembedded), h.2.symm⟩

/-- A record that may be restored is complete and was found good. -/
theorem eligible_good {record : BundleRecord} (h : eligible record false = .ok ()) :
    record.completion.isSome ∧ record.currentReview = "good" ∧ record.recommended := by
  unfold eligible eligibleReview at h
  by_cases hcomplete : record.completion.isSome
  · rw [hcomplete] at h
    by_cases hgood : record.currentReview ≠ "good" ∨ !record.recommended
    · rw [if_neg (by decide), if_neg (by decide), if_pos hgood] at h
      cases h
    · rw [not_or, not_not, Bool.not_eq_true, Bool.not_eq_false'] at hgood
      exact ⟨hcomplete, hgood⟩
  · rw [Bool.not_eq_true] at hcomplete
    rw [hcomplete] at h
    cases h

/-- A revoked bundle is never eligible. -/
theorem eligible_not_revoked {record : BundleRecord} {preapproval : Bool}
    (h : eligible record preapproval = .ok ()) : record.currentReview ≠ "revoked" := by
  intro hrevoked
  unfold eligible eligibleReview at h
  rw [hrevoked] at h
  -- both kinds of test end well on one verdict only
  split_ifs at h with _ _ hunknown hgood
  · exact hunknown (.inl (by decide))
  · exact hgood (.inl (by decide))

/-! ## The chain -/

/-- The evidence for a restore: the three records that were looked at, the embedded plan, and the bytes of
the local backup. -/
structure Evidence (P : Primitives) (config : VaultConfig) (F : Formats) (agent id : String) (out : Text)
    (replies : Replies) (before fetched latest : BundleRecord) (embedded : ServiceRecoveryPlan)
    (backup : Vault.Bytes) : Prop where
  answers : replies.before = some before ∧ replies.fetch.last = some fetched ∧
    replies.latest = some latest
  accepted : ∀ record ∈ [before, fetched, latest],
    verifyRecord P record config.pinnedPubkey config.keyId = .ok () ∧ record.agentId = agent ∧
      record.manifest.bundleId = id ∧ record.manifest = latest.manifest ∧
      record.completion = latest.completion
  complete : latest.completion.isSome
  good : ∃ event, latest.reviews.getLast? = some event ∧ event.value.request.decision = .good
  plan : ∃ text, latest.manifest.metadata.recoveryPlan = some text ∧ F.plan text = some embedded
  file : replies.reads.backup.first = .ok backup ∧ backup.length = latest.manifest.sizeBytes ∧
    P.sha256 backup = latest.manifest.sha256
  report : ∃ verification, verifyReport ⟨F.jsonText, P.sha256⟩ F.report
    { embedded with backupPath := joinPath out "backup.bin".toList } replies.reads
    (embedded.timeoutSecs + 60) = .ok verification ∧
      verification.backupSha256 = P.sha256 backup ∧ verification.backupBytes = backup.length

/-- The verdict of an accepted record is that of its last review. -/
theorem last_review_good {record : BundleRecord} {key keyId : String}
    (h : verifyRecord P record key keyId = .ok ()) (hgood : record.currentReview = "good") :
    ∃ event, record.reviews.getLast? = some event ∧ event.value.request.decision = .good := by
  rw [Vault.verifyRecord_ok_iff] at h
  obtain ⟨-, -, -, -, -, -, hcurrent, -⟩ := h
  rw [hgood, Vault.currentReview] at hcurrent
  rcases hlast : record.reviews.getLast? with _ | event <;> rw [hlast] at hcurrent <;> dsimp only at hcurrent
  · exact absurd hcurrent (by decide)
  · rcases hdecision : event.value.request.decision with _ | _
    · exact ⟨event, rfl, hdecision⟩
    · rw [hdecision] at hcurrent
      exact absurd hcurrent (by decide)

theorem tryBundle_ok {replies : Replies} {preapproval : Bool} {plan : ServiceRecoveryPlan}
    {manifest : BundleManifest} {summary summary' : Summary}
    (h : tryBundle P F replies preapproval plan manifest summary = (.ok (), summary')) :
    ∃ verification, verifyReport ⟨F.jsonText, P.sha256⟩ F.report plan replies.reads (plan.timeoutSecs + 60) =
      .ok verification ∧ verification.backupSha256 = manifest.sha256 ∧
        verification.backupBytes = manifest.sizeBytes := by
  simp only [tryBundle, ask_bind_ok_iff, orCode_ok_iff, record_bind_ok_iff, failWhen_bind_ok_iff, not_or,
    not_not] at h
  obtain ⟨_, -, -, verification, hverified, hsame, -⟩ := h
  exact ⟨verification, hverified, hsame⟩

/-- A test that went well has all the evidence, and its last record is eligible. -/
theorem testSteps_ok {out : Text} {preapproval : Bool} {replies : Replies} {summary summary' : Summary}
    (h : testSteps P config F agent id out preapproval replies summary = (.ok (), summary')) :
    ∃ latest, replies.latest = some latest ∧ eligible latest preapproval = .ok () ∧
      (preapproval = false → ∃ before fetched embedded backup,
        Evidence P config F agent id out replies before fetched latest embedded backup) := by
  simp only [testSteps, ask_bind_ok_iff, ask_ok_iff, orCode_ok_iff, record_bind_ok_iff, failWhen_bind_ok_iff,
    keep_bind_ok_iff, not_or, not_not] at h
  obtain ⟨before, hbefore, _, -, plan, hplan, ⟨fetched, _⟩, hfetch, _, -, ⟨hmanifest, hcompletion⟩, _, -, -, _,
    -, _, -, trialResult, _, htrial, latest, hlatest, _, heligible, ⟨hmanifest', hcompletion'⟩, _, -, hresult,
    -⟩ := h
  obtain ⟨hbeforeAnswer, hbeforeOk⟩ := get_ok hbefore
  obtain ⟨hfetched, -, -⟩ := fetch_ok hfetch
  obtain ⟨hfetchedAnswer, hfetchedOk⟩ := get_ok hfetched
  obtain ⟨hlatestAnswer, hlatestOk⟩ := get_ok hlatest
  refine ⟨latest, hlatestAnswer, heligible, ?_⟩
  rintro rfl
  dsimp only at hmanifest hcompletion
  rw [← hmanifest'] at hmanifest hplan
  rw [← hcompletion'] at hcompletion
  obtain ⟨hcomplete, hgood, -⟩ := eligible_good heligible
  obtain ⟨text, embedded, htext, hparsed, rfl⟩ := relocatedPlan_ok hplan
  rw [hresult] at htrial
  obtain ⟨verification, hverified, hhash, hsize⟩ := tryBundle_ok htrial
  obtain ⟨_, _, backup, -, -, hbackup, -, -, -, hbackupHash, hbackupSize⟩ := Service.verifyReport_ok hverified
  rw [← hmanifest'] at hhash hsize
  refine ⟨before, fetched, embedded, backup, ⟨hbeforeAnswer, hfetchedAnswer, hlatestAnswer⟩, ?_, hcomplete, ?_,
    ⟨text, htext, hparsed⟩, ⟨hbackup, hbackupSize.symm.trans hsize, hbackupHash.symm.trans hhash⟩,
    verification, hverified, hbackupHash, hbackupSize⟩
  · intro record hrecord
    simp only [List.mem_cons, List.not_mem_nil, or_false] at hrecord
    rcases hrecord with rfl | rfl | rfl
    · exact ⟨hbeforeOk.1, hbeforeOk.2.1, hbeforeOk.2.2, hmanifest'.symm, hcompletion'.symm⟩
    · exact ⟨hfetchedOk.1, hfetchedOk.2.1, hfetchedOk.2.2, hmanifest, hcompletion⟩
    · exact ⟨hlatestOk.1, hlatestOk.2.1, hlatestOk.2.2, rfl, rfl⟩
  · exact last_review_good hlatestOk.1 hgood

/-! ## The flags -/

/-- What a summary says of the outcome. -/
def Summary.outcome (summary : Summary) : String × Bool × Bool × Bool :=
  (summary.status, summary.trialPassed, summary.recommended, summary.operationalRestoreAuthorized)

/-- The steps of a test leave the outcome to the end. -/
theorem testSteps_keeps (out : Text) (preapproval : Bool) (replies : Replies) :
    Keeps Summary.outcome (testSteps P config F agent id out preapproval replies) := by
  have htry : ∀ plan manifest, Keeps Summary.outcome (tryBundle P F replies preapproval plan manifest) :=
    fun plan manifest => (keeps_ask _).bind fun _ => (keeps_record (by exact fun _ => rfl)).bind fun _ =>
      (keeps_ask _).bind fun _ => (keeps_ask _).bind fun _ => (keeps_ask _).bind fun _ =>
      keeps_record (by exact fun _ => rfl)
  unfold testSteps
  refine (keeps_ask _).bind fun before => (keeps_record (by exact fun _ => rfl)).bind fun _ => (keeps_ask _).bind fun _ =>
    (keeps_ask _).bind fun plan => (keeps_ask _).bind fun fetched => ?_
  refine (keeps_ask _).bind fun _ => (keeps_ask _).bind fun _ => (keeps_ask _).bind fun planText =>
    (keeps_ask _).bind fun _ => (keeps_ask _).bind fun _ => (keeps_ask _).bind fun _ => ?_
  refine (htry plan before.manifest).keep.bind fun trialResult => (keeps_ask _).bind fun latest =>
    (keeps_record (by exact fun _ => rfl)).bind fun _ => (keeps_ask _).bind fun _ => ?_
  exact (keeps_ask _).bind fun _ => (keeps_ask _).bind fun _ => (keeps_record (by exact fun _ => rfl)).bind fun _ =>
    keeps_ask _

/-- A test in a new directory comes to a summary. -/
theorem exists_summary {out : Text} {preapproval : Bool} {replies : Replies}
    (h : replies.created = .ok ()) :
    ∃ summary, (testBundle P config F agent id out preapproval replies).2 = some summary := by
  rw [testBundle, h]
  exact ⟨_, rfl⟩

/-- A summary says that a test passed when its steps went well, and says nothing of the kind otherwise. -/
theorem summary_outcome {out : Text} {preapproval : Bool} {replies : Replies} {summary : Summary}
    (h : (testBundle P config F agent id out preapproval replies).2 = some summary) :
    (∃ summary', testSteps P config F agent id out preapproval replies
        (newSummary preapproval replies.startedAtMs) = (.ok (), summary') ∧
      summary.outcome = ("passed", true, !preapproval, !preapproval)) ∨
    (∀ summary', testSteps P config F agent id out preapproval replies
        (newSummary preapproval replies.startedAtMs) ≠ (.ok (), summary')) ∧
      summary.outcome = ("rejected", false, false, false) := by
  have hkeeps : Summary.outcome (testSteps P config F agent id out preapproval replies
      (newSummary preapproval replies.startedAtMs)).2 = ("rejected", false, false, false) :=
    testSteps_keeps out preapproval replies _
  unfold testBundle bundleSummary at h
  rcases hcreated : replies.created with code | _ <;> rw [hcreated] at h <;> dsimp only at h
  · cases h
  · rw [Option.some.injEq] at h
    rcases hsteps : testSteps P config F agent id out preapproval replies
        (newSummary preapproval replies.startedAtMs) with ⟨code | _, summary'⟩ <;>
      rw [hsteps] at h hkeeps <;> subst h
    · exact .inr ⟨fun _ hok => by simp at hok, hkeeps⟩
    · exact .inl ⟨summary', rfl, rfl⟩

/-- What a summary may say. The flags are set only on the whole chain of evidence, never before an approval,
and a bundle that is revoked at the last look does not pass, whatever came of its trial. -/
theorem restore_authorised_only {out : Text} {preapproval : Bool} {replies : Replies} {summary : Summary}
    (h : (testBundle P config F agent id out preapproval replies).2 = some summary) :
    (summary.recommended = true ∨ summary.operationalRestoreAuthorized = true →
      preapproval = false ∧ ∃ before fetched latest embedded backup,
        Evidence P config F agent id out replies before fetched latest embedded backup) ∧
    (preapproval = true → summary.recommended = false ∧ summary.operationalRestoreAuthorized = false) ∧
    ∀ latest, replies.latest = some latest → latest.currentReview = "revoked" →
      summary.status = "rejected" ∧ summary.trialPassed = false ∧ summary.recommended = false ∧
        summary.operationalRestoreAuthorized = false := by
  rcases summary_outcome h with ⟨summary', hsteps, houtcome⟩ | ⟨-, houtcome⟩ <;>
    simp only [Summary.outcome, Prod.mk.injEq] at houtcome <;>
    obtain ⟨hstatus, htrial, hrecommended, hrestore⟩ := houtcome
  · obtain ⟨latest, hlatest, heligible, hevidence⟩ := testSteps_ok hsteps
    refine ⟨fun hflag => ?_, fun hpre => ?_, fun last hlast hrevoked => ?_⟩
    · rw [hrecommended, hrestore, or_self, Bool.not_eq_true'] at hflag
      obtain ⟨before, fetched, embedded, backup, hall⟩ := hevidence hflag
      exact ⟨hflag, before, fetched, latest, embedded, backup, hall⟩
    · rw [hrecommended, hrestore, hpre]
      exact ⟨rfl, rfl⟩
    · rw [hlatest, Option.some.injEq] at hlast
      exact absurd (hlast ▸ hrevoked) (eligible_not_revoked heligible)
  · rw [hrecommended, hrestore]
    exact ⟨fun hflag => by simp at hflag, fun _ => ⟨rfl, rfl⟩, fun _ _ _ => ⟨hstatus, htrial, rfl, rfl⟩⟩

/-! ## A test that goes well -/

/-- A plan with the defaults. -/
def shopPlan (backupPath : Text) : ServiceRecoveryPlan where
  serviceId := ['s']
  engine := .sqlite
  backupPath := backupPath
  timeoutSecs := 30
  maxBackupBytes := 128 * 1024 * 1024
  maxWorkspaceBytes := 512 * 1024 * 1024
  declaredRecoveryPointMs := none
  incidentAtMs := none
  expectedUserVersion := none
  tables := [⟨['t'], ['t'], [], 1⟩]
  postgresql := none

/-- The plan as a text. -/
def shopPlanText (backupPath : String) : String :=
  "service_id='s'\nengine='sqlite'\nbackup_path='" ++ backupPath ++
    "'\n[[tables]]\ncheck_id='t'\ntable='t'\n"

/-- A manifest with the plan in it. -/
def plannedManifest : BundleManifest :=
  { Vault.sampleManifest with metadata := ⟨"/a", none, "", some (shopPlanText "/b")⟩ }

/-- The completion of the bundle. -/
def plannedCompletion : Vault.Signed Vault.Completion :=
  Vault.signValue Vault.Wires.completion.write
    { format := "argos-bundle-completion-v1", keyId := "key", agentId := "agent"
      bundleId := plannedManifest.bundleId
      manifestSha256 := Vault.sample.sha256 (Vault.sample.manifest.encode plannedManifest)
      sha256 := plannedManifest.sha256, sizeBytes := 4, completedAtMs := 3 } Vault.sampleKey

/-- Its first review. -/
def plannedReview (decision : Vault.ReviewDecision) : Vault.Signed Vault.ReviewEvent :=
  Vault.signValue Vault.Wires.review.write
    { format := "argos-bundle-review-v1", keyId := "key", agentId := "agent"
      bundleId := plannedManifest.bundleId
      manifestSha256 := Vault.sample.sha256 (Vault.sample.manifest.encode plannedManifest)
      completionSha256 := Vault.sample.sha256 (Vault.sample.signedCompletion.encode plannedCompletion)
      sequence := 1, previousSha256 := none, reviewedAtMs := 4
      request := ⟨"request", decision, "admin", "checked"⟩ } Vault.sampleKey

/-- The record of the bundle. -/
def plannedRecord (decision : Vault.ReviewDecision) : BundleRecord :=
  let receipt : Vault.Receipt :=
    { format := Vault.receiptFormat, keyId := "key", agentId := "agent", kind := "bundle-manifest"
      sha256 := Vault.sample.sha256 (Vault.sample.manifest.encode plannedManifest)
      sizeBytes := (Vault.sample.manifest.encode plannedManifest).length
      receivedAtMs := 2, retentionUntilMs := 86400002 }
  { agentId := "agent", manifest := plannedManifest
    manifestReceipt := ⟨receipt, Vault.sampleKey.sign (Vault.sample.receipt receipt)⟩
    completion := some plannedCompletion, reviews := [plannedReview decision]
    currentReview := decision.text, recommended := decision == .good }

/-- The receipt of the only chunk. -/
def chunkReceipt : Vault.SignedReceipt :=
  let receipt : Vault.Receipt :=
    { format := Vault.receiptFormat, keyId := "key", agentId := "agent", kind := "backup"
      sha256 := Vault.sample.sha256 Vault.sampleBody, sizeBytes := 4, receivedAtMs := 1
      retentionUntilMs := 86400001 }
  ⟨receipt, Vault.sampleKey.sign (Vault.sample.receipt receipt)⟩

/-- The report of the trial. -/
def trialReport : ServiceRecoveryReport :=
  Service.passedReport ⟨Tree.write, Vault.sample.sha256⟩ (shopPlan "/out/backup.bin".toList)
    Service.sampleDrill (Vault.sample.sha256 Vault.sampleBody) 4
    [Service.passed "argos-integrity".toList none, Service.passed "argos-foreign-keys".toList none,
      Service.passed ['t'] (some 7), Service.passed "argos-write-read-rollback".toList none]

/-- Formats that read and write what the sample needs. -/
def sampleFormats : Formats where
  jsonText := Tree.write
  report bytes := if bytes = [1] then some trialReport else none
  planText plan := some (shopPlanText (String.ofList plan.backupPath))
  plan text := if text = shopPlanText "/b" then some (shopPlan "/b".toList) else none

/-- A file that stays as it is. -/
def stillFile (bytes : Vault.Bytes) : Service.FileReads :=
  let metadata := some ⟨true, false, bytes.length, 0⟩
  ⟨metadata, some (), metadata, .ok bytes, metadata, metadata, some (), .ok bytes, metadata, metadata, .ok ()⟩

/-- Nothing fails, and the last look finds the bundle with the given verdict. -/
def sampleReplies (decision : Vault.ReviewDecision) : Replies where
  created := .ok ()
  startedAtMs := 900
  before := some (plannedRecord .good)
  plannedAt := 950
  fetch := ⟨some (plannedRecord .good), .ok (), fun _ => some chunkReceipt, fun _ => some Vault.sampleBody,
    some (plannedRecord .good), .ok ()⟩
  planWritten := .ok ()
  manifestWritten := .ok ()
  trial := .ok trialReport
  reads := ⟨1600, stillFile [1], 1600, fun _ => false, stillFile Vault.sampleBody, fun _ => false, 1700⟩
  latest := some (plannedRecord decision)
  recordWritten := .ok ()
  finishedAtMs := 1800
  summaryWritten := .ok ()
  synced := .ok ()

/-- The sample's test. -/
def sampleTest (decision : Vault.ReviewDecision) : Except String Unit × Option Summary :=
  testBundle Vault.sample ⟨"sample", "key"⟩ sampleFormats "agent" plannedManifest.bundleId "/out".toList false
    (sampleReplies decision)

/-- The sample is authorised on evidence, and not when the last look finds it revoked. -/
theorem sample_authorised :
    (∃ before fetched latest embedded backup, Evidence Vault.sample ⟨"sample", "key"⟩ sampleFormats "agent"
      plannedManifest.bundleId "/out".toList (sampleReplies .good) before fetched latest embedded backup) ∧
      ∃ summary, (sampleTest .revoked).2 = some summary ∧ summary.trialPassed = false := by
  have hgood : (sampleTest .good).2.any (·.recommended) = true := by decide +kernel
  obtain ⟨summary, hsummary, hflag⟩ := (Option.any_eq_true _ _).1 hgood
  obtain ⟨withheld, hwithheld⟩ : ∃ summary, (sampleTest .revoked).2 = some summary :=
    exists_summary rfl
  exact ⟨((restore_authorised_only hsummary).1 (.inl hflag)).2, withheld, hwithheld,
    ((restore_authorised_only hwithheld).2.2 _ rfl rfl).2.1⟩

end Argos.Cli
