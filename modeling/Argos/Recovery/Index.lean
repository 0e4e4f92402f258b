import Argos.Lib.Tally
import Argos.Vault.Checks
import Mathlib.Data.List.Sort

/-!
# The index of a backup store

The records of `argos-recovery` (`lib.rs`, `retention.rs`) and the tables of its database. A table is
the list of its rows in the order of their numbers; `AUTOINCREMENT` is the last number that was given
away. A column that is read as an unsigned number is kept as the signed number that is stored, since a
negative one cannot be read back. SHA-256 is any function to 64 hexadecimal digits.

A path is a byte string. The index names it by its text (`to_string_lossy`), in which every part that
is not UTF-8 is replaced.
-/

namespace Argos.Recovery

open Argos.Lib
open Argos.Vault (Bytes isWhitespace blank bytesOf isDigit)

/-! ## Texts -/

/-- `i64::MAX`. -/
def i64Max : Nat := 2^63 - 1

/-- `as i64` of a `u64`. -/
def asI64 (n : Nat) : Int := if n % 2^64 ≤ i64Max then (n % 2^64 : Nat) else (n % 2^64 : Nat) - 2^64

/-- `u8::is_ascii_hexdigit`. -/
def isAsciiHexdigit (b : UInt8) : Bool := isDigit b || (97 ≤ b && b ≤ 102) || (65 ≤ b && b ≤ 70)

/-- `char::is_control`. -/
def isControl (c : Char) : Bool := c.toNat < 0x20 || (0x7F ≤ c.toNat && c.toNat < 0xA0)

/-- `str::trim`. -/
def trim (text : String) : String :=
  String.ofList ((text.toList.dropWhile isWhitespace).reverse.dropWhile isWhitespace).reverse

/-- A path as the system gives it. -/
abbrev Path := Bytes

/-- A continuation byte in a range. -/
def within (low high b : UInt8) : Bool := low ≤ b && b ≤ high

/-- The replacement character. -/
def replacement : Char := Char.ofNat 0xFFFD

/-- The first character of a text and what is left, with the replacement character for the longest
prefix of a character that is cut short. -/
def firstChar : Bytes → Option (Char × Bytes)
  | [] => none
  | a :: rest =>
    if a < 0x80 then some (Char.ofNat a.toNat, rest)
    else if within 0xC2 0xDF a then
      match rest with
      | b :: rest' =>
        if within 0x80 0xBF b then
          some (Char.ofNat ((a.toNat - 0xC0) * 64 + (b.toNat - 0x80)), rest')
        else some (replacement, rest)
      | [] => some (replacement, rest)
    else if within 0xE0 0xEF a then
      let low : UInt8 := if a = 0xE0 then 0xA0 else 0x80
      let high : UInt8 := if a = 0xED then 0x9F else 0xBF
      match rest with
      | b :: rest' =>
        if within low high b then
          match rest' with
          | c :: rest'' =>
            if within 0x80 0xBF c then
              some (Char.ofNat ((a.toNat - 0xE0) * 4096 + (b.toNat - 0x80) * 64 + (c.toNat - 0x80)),
                rest'')
            else some (replacement, rest')
          | [] => some (replacement, rest')
        else some (replacement, rest)
      | [] => some (replacement, rest)
    else if within 0xF0 0xF4 a then
      let low : UInt8 := if a = 0xF0 then 0x90 else 0x80
      let high : UInt8 := if a = 0xF4 then 0x8F else 0xBF
      match rest with
      | b :: rest' =>
        if within low high b then
          match rest' with
          | c :: rest'' =>
            if within 0x80 0xBF c then
              match rest'' with
              | d :: rest''' =>
                if within 0x80 0xBF d then
                  some (Char.ofNat ((a.toNat - 0xF0) * 262144 + (b.toNat - 0x80) * 4096 +
                    (c.toNat - 0x80) * 64 + (d.toNat - 0x80)), rest''')
                else some (replacement, rest'')
              | [] => some (replacement, rest'')
            else some (replacement, rest')
          | [] => some (replacement, rest')
        else some (replacement, rest)
      | [] => some (replacement, rest)
    else some (replacement, rest)

/-- The characters of a text; every one takes at least a byte. -/
def lossyChars : Nat → Bytes → List Char
  | 0, _ => []
  | fuel + 1, bytes =>
    match firstChar bytes with
    | none => []
    | some (c, rest) => c :: lossyChars fuel rest

namespace Path

/-- `Path::to_string_lossy`, and `Path::display`. -/
def text (path : Path) : String := String.ofList (lossyChars path.length path)

/-- `Path::to_str`: the text, when it is that of the path and not a replacement. -/
def toStr (path : Path) : Option String := if bytesOf path.text = path then some path.text else none

/-- The components of a path other than the root and `.`. -/
def components (path : Path) : List Bytes :=
  (path.splitOn 0x2F).filter fun part => part ≠ [] ∧ part ≠ [0x2E]

/-- `Component::ParentDir`. -/
def parentDir : Bytes := [0x2E, 0x2E]

/-- `Path::file_name`. -/
def fileName (path : Path) : Option Bytes := path.components.getLast?.filter (· ≠ parentDir)

end Path

/-! ## Records -/

/-- `RecoveryError`, as far as the index and the objects raise it. -/
inductive RecoveryError where
  | io (path : String)
  | db
  | notFound (text : String)
  | noTrustedVersion (text : String)
  | missingTrustNote
  | invalidMetadata (text : String)
  | integrityMismatch (expected actual : String)
  | tooLarge (size limit : Nat)
  | invalidRetention (text : String)
  | invalidReleaseApproval (text : String)
deriving DecidableEq, Repr

/-- The result of a function of the crate. -/
abbrev Result := Except RecoveryError

/-- `BackupVersion`, a row of `versions`. -/
structure BackupVersion where
  id : Int
  path : String
  hash : String
  size : Nat
  timestampMs : Int
  pid : Nat
  knownGood : Bool
  trustNote : Option String
deriving DecidableEq, Repr

/-- `RetentionPin`, a row of `retention_pins`. -/
structure RetentionPin where
  id : Int
  incidentId : String
  versionId : Int
  path : String
  hash : String
  actor : String
  reason : String
  pinnedAtMs : Nat
  releasedAtMs : Option Nat
  releaseApprovalId : Option String
  releasedBy : Option String
  releaseReason : Option String
deriving DecidableEq, Repr

/-- The reference is not released. -/
def RetentionPin.active (pin : RetentionPin) : Bool := pin.releasedAtMs.isNone

/-- `ReleaseApproval`. -/
structure ReleaseApproval where
  approvalId : String
  approver : String
  reason : String
deriving DecidableEq, Repr

/-- A row of `retention_approvals`. -/
structure ApprovalRow where
  approvalId : String
  approver : String
  reason : String
  timestampMs : Nat
deriving DecidableEq, Repr

/-- `action` of an entry of the audit. -/
inductive AuditAction where
  | pinned
  | released
deriving DecidableEq, Repr

/-- `RetentionAuditEntry`, a row of `retention_audit`. -/
structure RetentionAuditEntry where
  id : Int
  pinId : Int
  incidentId : String
  versionId : Int
  path : String
  hash : String
  action : AuditAction
  actor : String
  reason : String
  timestampMs : Nat
  approvalId : Option String
deriving DecidableEq, Repr

/-- The database: its tables, and the last number that each of them gave away. Of `recovery_status`
only the files that were too large to be backed up are counted here. -/
structure Index where
  versions : List BackupVersion := []
  lastVersion : Nat := 0
  pins : List RetentionPin := []
  lastPin : Nat := 0
  approvals : List ApprovalRow := []
  audit : List RetentionAuditEntry := []
  lastAudit : Nat := 0
  oversizedSkips : Map String Nat := ∅

/-- The next number of a table, while there is one. -/
def nextId (last : Nat) : Result Nat := if last < i64Max then .ok (last + 1) else .error .db

namespace Index

/-! ## Queries -/

/-- `map_version`: an unsigned column cannot be read from a negative number. -/
def mapVersion (row : BackupVersion) : Result BackupVersion :=
  if row.timestampMs < 0 then .error .db else .ok row

/-- `BackupStore::versions`, `ORDER BY timestamp_ms DESC, id DESC`. -/
def versionsOf (index : Index) (path : Path) : Result (List BackupVersion) :=
  ((index.versions.filter (·.path = path.text)).insertionSort fun a b =>
    b.timestampMs < a.timestampMs ∨ (b.timestampMs = a.timestampMs ∧ b.id ≤ a.id)).mapM mapVersion

/-- `BackupStore::version`. -/
def version (index : Index) (path : Path) (id : Int) : Result BackupVersion :=
  match index.versions.find? fun v => v.path = path.text ∧ v.id = id with
  | some row => mapVersion row
  | none => .error (.notFound (path.text ++ " (버전 " ++ toString id ++ ")"))

/-- The hash of the latest version of a path, `ORDER BY id DESC LIMIT 1`. -/
def latestHash (index : Index) (path : Path) : Option String :=
  ((index.versions.filter (·.path = path.text)).insertionSort fun a b => b.id ≤ a.id).head?.map
    (·.hash)

/-! ## Changes -/

/-- `INSERT INTO versions`. -/
def insertVersion (index : Index) (path hash : String) (size : Nat) (timestampMs : Int) (pid : Nat) :
    Result Index := do
  let id ← nextId index.lastVersion
  .ok { index with
    versions := index.versions ++ [⟨id, path, hash, size, timestampMs, pid, false, none⟩]
    lastVersion := id }

/-- `UPDATE versions SET known_good, trust_note WHERE id`. -/
def judge (index : Index) (id : Int) (good : Bool) (note : String) : Index :=
  { index with
    versions := index.versions.map fun v =>
      if v.id = id then { v with knownGood := good, trustNote := some note } else v }

/-- An active reference keeps a version. -/
def pinned (index : Index) (id : Int) : Bool :=
  index.pins.any fun pin => pin.versionId = id ∧ pin.active

/-- `ROW_NUMBER() OVER (PARTITION BY path ORDER BY id DESC)` among the versions that are not known to
be good. -/
def rowNumber (index : Index) (v : BackupVersion) : Nat :=
  (index.versions.filter fun w => w.knownGood = false ∧ w.path = v.path ∧ v.id ≤ w.id).length

/-- The `WHERE` of the deletion in `prune`. -/
def prunable (index : Index) (keep : Nat) (v : BackupVersion) : Bool :=
  !v.knownGood && !index.pinned v.id && !(index.rowNumber v ≤ min keep i64Max)

/-- The deletion in `prune`. The trigger on deletions does not fire: a version that is kept by an
active reference is not deleted. -/
def pruned (index : Index) (keep : Nat) : Index :=
  { index with versions := index.versions.filter fun v => !index.prunable keep v }

end Index

end Argos.Recovery
