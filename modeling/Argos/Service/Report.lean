import Argos.Service.Verification

/-!
# The verification of a report file

`verify_report` of `service/verification.rs`: it reads the report and the backup, each twice, and takes the
time twice. What the system answers is in `FileReads` and `ReportReads`, so a file may change between any two
readings. An accepted report is one that `verify_metadata` accepted for the plan, about the bytes that were
read (`verifyReport_ok`).
-/

namespace Argos.Service

open Argos.Lib
open Argos.Vault (u64Max)

/-! ## Files -/

/-- `Metadata`, with all that tells one file from another or from its later self in `stamp`. -/
structure FileMetadata where
  isFile : Bool
  isSymlink : Bool
  len : Nat
  stamp : Nat
deriving DecidableEq, Repr

/-- `same_metadata`. -/
def sameMetadata (a b : FileMetadata) : Bool :=
  a.isFile && b.isFile && a.len == b.len && a.stamp == b.stamp

/-- What the system answers while a file is read twice; an error of a reading is that of the system or of the
deadline. -/
structure FileReads where
  pathBefore : Option FileMetadata
  opened : Option Unit
  before : Option FileMetadata
  first : Result (List UInt8)
  after : Option FileMetadata
  pathAfter : Option FileMetadata
  rewound : Option Unit
  second : Result (List UInt8)
  afterSecond : Option FileMetadata
  pathAfterSecond : Option FileMetadata
  inTime : Result Unit

/-- `ok_or_else(|| failure(code))`. -/
def orFail {α : Type} (value : Option α) (code : String) : Result α :=
  match value with
  | none => .error code
  | some a => .ok a

/-- A loop of `read_stable_file`. -/
def readWithin (maxBytes : Nat) (answer : Result (List UInt8)) : Result (List UInt8) := do
  let bytes ← answer
  failIf (bytes.length > maxBytes) "verification_input_size_limit"
  .ok bytes

section Reading

variable (H : Hashing)

/-- `read_stable_file`: the bytes that were consumed, and their hash. -/
def readStableFile (maxBytes : Nat) (f : FileReads) : Result (List UInt8 × String) := do
  let beforePath ← orFail f.pathBefore "verification_file_unreadable"
  failIf (!beforePath.isFile || beforePath.isSymlink) "verification_regular_file_required"
  failIf (beforePath.len > maxBytes) "verification_input_size_limit"
  orFail f.opened "verification_file_unreadable"
  let before ← orFail f.before "verification_metadata_failed"
  failIf (!sameMetadata beforePath before) "verification_file_changed"
  let bytes ← readWithin maxBytes f.first
  let after ← orFail f.after "verification_metadata_failed"
  let afterPath ← orFail f.pathAfter "verification_file_changed"
  failIf (bytes.length ≠ before.len ∨ !sameMetadata before after ∨ !sameMetadata before afterPath ∨
    afterPath.isSymlink) "verification_file_changed"
  orFail f.rewound "verification_read_failed"
  let again ← readWithin maxBytes f.second
  failIf (again.length ≠ bytes.length ∨ H.sha256 bytes ≠ H.sha256 again) "verification_file_changed"
  let after ← orFail f.afterSecond "verification_metadata_failed"
  let afterPath ← orFail f.pathAfterSecond "verification_file_changed"
  failIf (!sameMetadata before after ∨ !sameMetadata before afterPath ∨ afterPath.isSymlink)
    "verification_file_changed"
  f.inTime
  .ok (bytes, H.sha256 bytes)

/-- `require_offline_backup`; `found` says which paths exist. -/
def requireOfflineBackup (plan : ServiceRecoveryPlan) (found : Text → Bool) : Result Unit :=
  failIf (plan.engine = .sqlite ∧ ["-wal".toList, "-shm".toList, "-journal".toList].any fun suffix =>
    found (plan.backupPath ++ suffix)) "offline_native_backup_required"

/-! ## `verify_report` -/

/-- `ServiceReportVerification`. -/
structure ServiceReportVerification where
  format : String
  status : String
  verifiedAtMs : Nat
  reportFinishedAtMs : Nat
  reportAgeMs : Nat
  maxAgeSecs : Nat
  serviceId : Text
  engine : DatabaseEngine
  planSha256 : String
  expectationsSha256 : String
  backupSha256 : String
  reportSha256 : String
  backupBytes : Nat
  checkedIds : List Text
  reportAuthenticated : Bool
  limitations : List String
deriving DecidableEq, Repr

/-- `MAX_REPORT_BYTES`. -/
def maxReportBytes : Nat := 256 * 1024

/-- What the system answers during a verification. -/
structure ReportReads where
  validatedAt : Nat
  report : FileReads
  checkedAt : Nat
  sidecarsBefore : Text → Bool
  backup : FileReads
  sidecarsAfter : Text → Bool
  verifiedAt : Nat

/-- `verify_report`; `readReport` is `from_slice` at the type of a report. -/
def verifyReport (readReport : List UInt8 → Option ServiceRecoveryReport) (plan : ServiceRecoveryPlan)
    (reads : ReportReads) (maxAgeSecs : Nat) : Result ServiceReportVerification := do
  validatePlan reads.validatedAt plan
  failIf (maxAgeSecs = 0 ∨ maxAgeSecs * 1000 > u64Max) "invalid_report_max_age"
  let (reportBytes, _) ← readStableFile H maxReportBytes reads.report
  let report ← orFail (readReport reportBytes) "invalid_service_report_json"
  let _ ← verifyMetadata H plan report maxAgeSecs reads.checkedAt
  requireOfflineBackup plan reads.sidecarsBefore
  let (backup, backupSha256) ← readStableFile H plan.maxBackupBytes reads.backup
  requireOfflineBackup plan reads.sidecarsAfter
  failIf (report.backupSha256 ≠ some backupSha256 ∨ report.backupBytes ≠ some backup.length)
    "report_backup_mismatch"
  let binding ← verifyMetadata H plan report maxAgeSecs reads.verifiedAt
  .ok
    { format := "argos-service-report-verification-v1"
      status := "consistent"
      verifiedAtMs := reads.verifiedAt
      reportFinishedAtMs := report.finishedAtMs
      reportAgeMs := reads.verifiedAt - report.finishedAtMs
      maxAgeSecs := maxAgeSecs
      serviceId := plan.serviceId
      engine := plan.engine
      planSha256 := binding.planSha256
      expectationsSha256 := binding.expectationsSha256
      backupSha256 := backupSha256
      reportSha256 := H.sha256 reportBytes
      backupBytes := backup.length
      checkedIds := binding.requiredCheckIds
      reportAuthenticated := false
      limitations :=
        ["무서명 보고서의 일관성과 최신성만 확인하며 작성자와 실제 실행 여부는 인증하지 않습니다.",
          "복구 시험을 재실행하지 않으며 전체 서비스 복구·RPO·서비스 RTO를 보장하지 않습니다."] }

end Reading

/-! ## What was read -/

variable {H : Hashing}

theorem bind_ok_iff {α β : Type} {x : Result α} {f : α → Result β} {b : β} :
    (x >>= f) = .ok b ↔ ∃ a, x = .ok a ∧ f a = .ok b := by
  rcases x with code | a <;> simp [bind, Except.bind]

theorem orFail_ok_iff {α : Type} {value : Option α} {code : String} {a : α} :
    orFail value code = .ok a ↔ value = some a := by
  rcases value with _ | b <;> simp [orFail]

theorem readWithin_ok_iff {maxBytes : Nat} {answer : Result (List UInt8)} {bytes : List UInt8} :
    readWithin maxBytes answer = .ok bytes ↔ answer = .ok bytes ∧ bytes.length ≤ maxBytes := by
  rcases answer with code | read
  · simp [readWithin, bind, Except.bind]
  · rw [readWithin, bind_ok_iff]
    simp only [Except.ok.injEq, check_ok_iff, failIf_ok_iff, not_lt, exists_eq_left']
    constructor
    · rintro ⟨hle, rfl⟩
      exact ⟨rfl, hle⟩
    · rintro ⟨rfl, hle⟩
      exact ⟨hle, rfl⟩

/-- The bytes that were consumed are those of the first reading, and the hash is theirs. -/
theorem readStableFile_ok {maxBytes : Nat} {f : FileReads} {bytes : List UInt8} {hash : String}
    (h : readStableFile H maxBytes f = .ok (bytes, hash)) :
    f.first = .ok bytes ∧ bytes.length ≤ maxBytes ∧ hash = H.sha256 bytes := by
  simp only [readStableFile, bind_ok_iff, readWithin_ok_iff, Except.ok.injEq, Prod.mk.injEq] at h
  obtain ⟨_, -, _, -, _, -, _, -, _, -, _, -, read, ⟨hread, hle⟩, _, -, _, -, _, -, _, -, _, -, _, -, _, -, _,
    -, _, -, _, -, rfl, rfl⟩ := h
  exact ⟨hread, hle, rfl⟩

/-- What a verification that succeeds has read and accepted. -/
theorem verifyReport_ok {readReport : List UInt8 → Option ServiceRecoveryReport} {plan : ServiceRecoveryPlan}
    {reads : ReportReads} {age : Nat} {v : ServiceReportVerification}
    (h : verifyReport H readReport plan reads age = .ok v) :
    ∃ reportBytes report backup, reads.report.first = .ok reportBytes ∧
      readReport reportBytes = some report ∧ reads.backup.first = .ok backup ∧
      (∃ binding, verifyMetadata H plan report age reads.verifiedAt = .ok binding) ∧
      report.backupSha256 = some (H.sha256 backup) ∧ report.backupBytes = some backup.length ∧
      v.backupSha256 = H.sha256 backup ∧ v.backupBytes = backup.length := by
  simp only [verifyReport, bind_ok_iff, orFail_ok_iff, failIf_ok_iff, not_or, not_not,
    Except.ok.injEq, Prod.exists] at h
  obtain ⟨_, -, _, -, reportBytes, _, hreport, report, hread, _, -, _, -, backup, hash, hbackup, _, -, _,
    ⟨hhash, hbytes⟩, binding, haccepted, rfl⟩ := h
  obtain ⟨hfirst, -, rfl⟩ := readStableFile_ok hbackup
  exact ⟨reportBytes, report, backup, (readStableFile_ok hreport).1, hread, hfirst, ⟨binding, haccepted⟩,
    hhash, hbytes, rfl, rfl⟩

end Argos.Service
