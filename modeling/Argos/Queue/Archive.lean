import Argos.Lib.Tasks
import Argos.Queue.Tables

/-!
# The exported archive of receipts

`export_archive` and `verify_archive` of `queue/archive.rs`. The export fixes the last row to be
written, then reads the rows in pages while other processes go on archiving; each page is one read of
the database. The file is a header line, one line for each receipt and a trailer line with the hash of
everything before it. The reader takes the file line by line, and what it carries from one line to the
next is a `Scan`.
-/

namespace Argos.Queue

open Argos.Lib
open Argos.Vault (Bytes Result Error refuse saturatingAdd validId)

/-- `FORMAT`. -/
def archiveFormat : String := "argos-queue-receipt-archive-v1"

/-- `MAX_LINE`. -/
def maxLine : Nat := 8192

/-- `MAX_EXPORT`. -/
def maxExport : Nat := 256 * 1024 * 1024

/-- `b'\n'`. -/
def newline : UInt8 := 10

/-- `ArchiveExportReport`, without the path of the output. -/
structure ArchiveExportReport where
  format : String
  archivedItems : Nat
  sha256 : String
  sizeBytes : Nat
  sourcePreserved : Bool
deriving DecidableEq, Repr

/-- `ArchiveVerification`. -/
structure ArchiveVerification where
  format : String
  archivedItems : Nat
  sha256 : String
  sizeBytes : Nat
  archiveAuthenticated : Bool
deriving DecidableEq, Repr

/-! ## What the export reads -/

/-- The rows with state `sent` of the table that is exported, with their row numbers. -/
def Stored.sentRows (fromItems : Bool) (s : Stored) : List (Nat × ItemColumns) :=
  (((if fromItems then s.items else s.archive).zipIdx 1).map (fun p => (p.2, p.1))).filter
    (fun p => p.2.state = .sent)

section Export

variable (F : Formats)

/-- What the export fixes at its start: the target, whether `queue_items` is the table to read, the
last row number and the number of rows. -/
structure Bounds where
  target : QueueTarget
  fromItems : Bool
  watermark : Nat
  count : Nat

/-- The short transaction at the start of the export. -/
def exportBounds (s : Stored) : Result Bounds :=
  match s.meta? with
  | none => .error (.message "큐 대상 없음")
  | some queueMeta => do
    let (target, _) ← queueMeta.read F
    let rows := s.sentRows (s.version == 1)
    .ok ⟨target, s.version == 1, ((rows.map (·.1)).max?).getD 0, rows.length⟩

/-- `line`. -/
def line (record : Record) : Result Bytes := do
  let bytes := F.archive.encode record ++ [newline]
  refuse (bytes.length > maxLine) "수신증명 보관 행은 8KiB를 넘을 수 없습니다"
  .ok bytes

/-- `emit`: one more line behind what was written. -/
def emit (written : Bytes) (record : Record) : Result Bytes := do
  let bytes ← line F record
  refuse (saturatingAdd written.length bytes.length > maxExport)
    "수신증명 내보내기 256MiB 상한 초과"
  .ok (written ++ bytes)

/-- A row with its row number, read. -/
def decodeRow (row : Nat × ItemColumns) : Result (Nat × QueueItem) := do
  let item ← decode F row.2
  .ok (row.1, item)

/-- The next rows behind a row number, at most 100. -/
def exportPage (fromItems : Bool) (cursor watermark : Nat) (s : Stored) :
    Result (List (Nat × QueueItem)) :=
  (((s.sentRows fromItems).filter (fun p => cursor < p.1 ∧ p.1 ≤ watermark)).take 100).mapM
    (decodeRow F)

/-- The rows of one page are written: the last row number, the number of rows so far, and the file. -/
def emitRows (target : QueueTarget) : List (Nat × QueueItem) → Nat × Nat × Bytes →
    Result (Nat × Nat × Bytes)
  | [], progress => .ok progress
  | (rowid, item) :: rest, (_, count, written) => do
    verifiedItem F item target
    refuse (count + 1 > maxArchiveItems) "수신증명 기록 상한 초과"
    let written ← emit F written (.receipt item)
    emitRows target rest (rowid, count + 1, written)

/-- The loop over the pages. A page that is not empty moves the row number on, so there are no more
turns than row numbers. -/
def exportPages (target : QueueTarget) (fromItems : Bool) (watermark : Nat) :
    Nat → Nat × Nat × Bytes → Task Stored Error (Nat × Bytes)
  | 0, _ => Task.lift (.error .external)
  | turns + 1, (cursor, count, written) => do
    let rows ← Task.ask (exportPage F fromItems cursor watermark)
    if rows.isEmpty then pure (count, written)
    else do
      let progress ← Task.lift (emitRows F target rows (cursor, count, written))
      exportPages target fromItems watermark turns progress

/-- The part of `export_archive` that writes the file. -/
def exportRows (exportedAtMs : Nat) (bounds : Bounds) :
    Task Stored Error (Bytes × ArchiveExportReport) := do
  let header ← Task.lift
    (emit F [] (.header archiveFormat bounds.target bounds.count exportedAtMs))
  let (seen, content) ← exportPages F bounds.target bounds.fromItems bounds.watermark
    (bounds.watermark + 1) (0, 0, header)
  Task.lift (refuse (seen != bounds.count) "내보내기 중 수신증명 이력이 변경되었습니다")
  let trailer ← Task.lift (line F (.trailer seen (F.sha256 content)))
  Task.lift (refuse (content.length + trailer.length > maxExport)
    "수신증명 내보내기 크기 상한 초과")
  let file := content ++ trailer
  pure (file, ⟨archiveFormat, seen, F.sha256 file, file.length, true⟩)

/-- `export_archive`: the content of the file and the report. -/
def exportArchive (exportedAtMs : Nat) : Task Stored Error (Bytes × ArchiveExportReport) := do
  Task.ask (validateDatabase F)
  let bounds ← Task.ask (exportBounds F)
  exportRows F exportedAtMs bounds

/-! ## Verification -/

/-- `take(limit).read_until(b'\n', ..)`: the line, and what is left. -/
def readLine : Nat → Bytes → Bytes × Bytes
  | 0, rest => ([], rest)
  | _ + 1, [] => ([], [])
  | limit + 1, b :: rest =>
    if b = newline then ([b], rest)
    else (b :: (readLine limit rest).1, (readLine limit rest).2)

/-- What `verify_archive` carries from line to line. -/
structure Scan where
  content : Bytes := []
  full : Bytes := []
  seen : Nat := 0
  size : Nat := 0
  target : Option QueueTarget := none
  expected : Nat := 0
  trailer : Bool := false
  ids : List String := []
  objects : List (String × String) := []
deriving DecidableEq, Repr

/-- A header is taken. -/
def Scan.header (scan : Scan) (publicKey : String) (bytes : Bytes) (format : String)
    (target : QueueTarget) (archivedItems : Nat) : Result Scan := do
  refuse (format != archiveFormat || archivedItems > maxArchiveItems ||
    target.pinnedPubkey != publicKey || !validId target.agentId || !validId target.keyId)
    "수신증명 보관 헤더/신뢰 공개키 오류"
  .ok { scan with
    expected := archivedItems
    target := some target
    content := scan.content ++ bytes }

/-- A receipt is taken. -/
def Scan.receipt (scan : Scan) (bytes : Bytes) (item : QueueItem) : Result Scan :=
  match scan.target with
  | none => .error (.message "보관 헤더 없음")
  | some target => do
    verifiedItem F item target
    refuse (scan.seen + 1 > scan.expected || scan.ids.contains item.id ||
      scan.objects.contains (item.kind, item.sha256)) "보관 수신증명 수/중복 오류"
    .ok { scan with
      seen := scan.seen + 1
      ids := item.id :: scan.ids
      objects := (item.kind, item.sha256) :: scan.objects
      content := scan.content ++ bytes }

/-- A trailer is taken. -/
def Scan.end (scan : Scan) (archivedItems : Nat) (contentSha256 : String) : Result Scan := do
  refuse (archivedItems != scan.seen || scan.seen != scan.expected ||
    contentSha256 != F.sha256 scan.content) "보관 끝 기록 수/내용 해시 불일치"
  .ok { scan with trailer := true }

/-- One turn of the loop of `verify_archive`. -/
def Scan.step (publicKey : String) (scan : Scan) (bytes : Bytes) : Result Scan := do
  let size := scan.size + bytes.length
  refuse (bytes.length > maxLine || bytes.getLast? != some newline || size > maxExport ||
    scan.trailer) "수신증명 보관 파일 행/크기/끝 구조 오류"
  let scan := { scan with size := size, full := scan.full ++ bytes }
  match F.archive.decode bytes with
  | none => .error .external
  | some (.header format target archivedItems _) =>
    if scan.target.isNone && scan.seen == 0 then
      scan.header publicKey bytes format target archivedItems
    else .error (.message "수신증명 보관 기록 순서 오류")
  | some (.receipt item) => scan.receipt F bytes item
  | some (.trailer archivedItems contentSha256) =>
    if scan.target.isSome then scan.end F archivedItems contentSha256
    else .error (.message "수신증명 보관 기록 순서 오류")

/-- The loop of `verify_archive`. Every turn takes a byte or more. -/
def scanLines (publicKey : String) : Nat → Scan → Bytes → Result Scan
  | 0, _, _ => .error .external
  | turns + 1, scan, file =>
    match readLine (maxLine + 1) file with
    | ([], _) => .ok scan
    | (bytes, rest) => do
      let scan ← scan.step F publicKey bytes
      scanLines publicKey turns scan rest

/-- `verify_archive` of a file that stays as it is. -/
def verifyArchive (file : Bytes) (pubkey : String) : Result ArchiveVerification :=
  match F.publicKey pubkey with
  | none => .error .external
  | some publicKey => do
    refuse (file.length > maxExport) "수신증명 보관 파일 256MiB 상한 초과"
    let scan ← scanLines F publicKey (file.length + 1) {} file
    refuse (!scan.trailer) "완료 trailer가 없는 보관 파일입니다"
    refuse (scan.size != file.length) "검증 도중 수신증명 보관 파일이 변경되었습니다"
    .ok ⟨archiveFormat, scan.seen, F.sha256 scan.full, scan.size, false⟩

end Export

end Argos.Queue
