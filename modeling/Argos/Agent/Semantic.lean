import Argos.Common.Event
import Argos.Lib.Maps
import Argos.Lib.Numbered
import Argos.Vault.Checks

/-!
# Configuration files by their meaning

`argos-agent/src/semantic.rs`: the files that grant access or start programs are read again at every
event on them, and compared by their entries. `parse` joins continued lines, leaves out comments and
blank lines, normalises the white space outside of quotes, and numbers what is left; for systemd an
entry has its section in front. Texts are lists of characters here.

`SemanticMonitor.observe` compares the entries, and the owner and mode, with those of the observation
before. What it finds at the path is an argument of it.
-/

namespace Argos.Agent

open Argos.Common
open Argos.Lib
open Argos.Vault (isWhitespace)

/-! ## Kinds of files -/

/-- `Kind`. -/
inductive Kind where
  | ssh
  | sudoers
  | cron
  | systemd
deriving DecidableEq, Repr

/-- The components of a path that have a name. -/
def pathNames (path : Text) : List Text := (path.splitOn '/').filter fun c => c ≠ [] && c ≠ ['.']

/-- `Path::file_name`. -/
def fileName (path : Text) : Option Text :=
  match (pathNames path).getLast? with
  | some name => if name = ['.', '.'] then none else some name
  | none => none

/-- `Path::extension`, of a file name. -/
def extension (name : Text) : Option Text :=
  let behind := (name.reverse.takeWhile (· ≠ '.')).reverse
  let before := name.take (name.length - behind.length - 1)
  if '.' ∈ name ∧ before ≠ [] then some behind else none

namespace Kind

/-- `Kind::of`. -/
def of (path : Text) : Option Kind := do
  let name ← fileName path
  let names := pathNames path
  if name = "authorized_keys".toList ∨ name = "authorized_keys2".toList then some ssh
  else if name = "sudoers".toList ∨ "sudoers.d".toList ∈ names then some sudoers
  else if name = "crontab".toList ∨ "cron.d".toList ∈ names ∨ "cron".toList ∈ names ∨
      "crontabs".toList ∈ names then some cron
  else if extension name ∈ [some "service".toList, some "timer".toList, some "socket".toList] ∨
      (".conf".toList.isSuffixOf name ∧ names.any fun c => ".service.d".toList.isSuffixOf c ||
        ".timer.d".toList.isSuffixOf c || ".socket.d".toList.isSuffixOf c) then some systemd
  else none

/-- `label`. -/
def label : Kind → String
  | ssh => "SSH 키/접속 제한"
  | sudoers => "관리자 권한 규칙"
  | cron => "cron 자동 실행 등록"
  | systemd => "systemd 서비스/자동 실행 설정"

/-- `rule`. -/
def rule : Kind → String
  | ssh => "linux.authorized_keys"
  | sudoers => "linux.sudoers"
  | cron => "linux.cron"
  | systemd => "linux.systemd"

end Kind

/-! ## Lines -/

/-- `str::trim`. -/
def trimText (t : Text) : Text := ((t.dropWhile isWhitespace).reverse.dropWhile isWhitespace).reverse

/-- The variables of the loop of `normalize`. -/
structure Normalizing where
  result : Text := []
  quote : Option Char := none
  escaped : Bool := false
  space : Bool := false
deriving DecidableEq, Repr

namespace Normalizing

/-- The blank that stands for the white space before a character. -/
def spaced (s : Normalizing) : Text :=
  if s.space && !s.result.isEmpty then s.result ++ [' '] else s.result

/-- The quote that is open behind a character. -/
def quoteAfter (s : Normalizing) (ch : Char) : Option Char :=
  if some ch = s.quote then none
  else if s.quote = none ∧ (ch = '\'' ∨ ch = '"') then some ch
  else s.quote

/-- One turn of the loop of `normalize`. -/
def step (s : Normalizing) (ch : Char) : Normalizing :=
  if s.escaped then { s with result := s.result ++ [ch], escaped := false }
  else if ch = '\\' then { s with result := s.spaced ++ [ch], escaped := true, space := false }
  else
    let s := { s with quote := s.quoteAfter ch }
    if isWhitespace ch ∧ s.quote = none then { s with space := true }
    else { s with result := s.spaced ++ [ch], space := false }

end Normalizing

/-- `normalize`. -/
def normalize (line : Text) : Except String Text :=
  let s := line.foldl Normalizing.step {}
  if s.quote.isSome || s.escaped then .error "닫히지 않은 인용/이스케이프" else .ok s.result

/-- A token that names the type of a key. -/
def isKeyType (token : Text) : Bool :=
  "ssh-".toList.isPrefixOf token || "ecdsa-sha2-".toList.isPrefixOf token ||
    "sk-ssh-".toList.isPrefixOf token || "sk-ecdsa-".toList.isPrefixOf token

/-- A character of an encoded key. -/
def isKeyChar (ch : Char) : Bool := ch.isAlphanum || ch = '+' || ch = '/' || ch = '='

/-- The loop of `ssh_record`: what is left of the line with a blank behind it, what went before, the
token that has begun, the open quote, and whether the last token was the type of a key. -/
def sshLoop : Text → Text → Option Text → Option Char → Bool → Bool → Except String Text
  | [], _, _, _, _, _ => .error "SSH 키 형식 미지원/불완전"
  | ch :: rest, before, token, quote, escaped, keySeen =>
    if token.isNone && isWhitespace ch then
      sshLoop rest (before ++ [ch]) none quote escaped keySeen
    else
      let token := token.getD []
      if escaped then sshLoop rest (before ++ [ch]) (some (token ++ [ch])) quote false keySeen
      else if ch = '\\' then sshLoop rest (before ++ [ch]) (some (token ++ [ch])) quote true keySeen
      else
        let quote := if some ch = quote then none
          else if quote = none ∧ ch = '"' then some ch else quote
        if isWhitespace ch ∧ quote = none then
          if keySeen then
            if !token.all isKeyChar then .error "SSH 키 인코딩 형식 오류" else normalize before
          else sshLoop rest (before ++ [ch]) none quote false (isKeyType token)
        else sshLoop rest (before ++ [ch]) (some (token ++ [ch])) quote false keySeen

/-- `ssh_record`. -/
def sshRecord (line : Text) : Except String Text := sshLoop (line ++ [' ']) [] none none false false

/-- The second byte of a line is a digit. -/
def digitSecond : Text → Bool
  | first :: second :: _ => first.utf8Size = 1 && second.isDigit
  | _ => false

/-- A trimmed line is a comment or blank. -/
def skipped (kind : Kind) (raw : Text) : Bool :=
  let sudoDirective := kind = .sudoers && ("#include".toList.isPrefixOf raw || digitSecond raw)
  raw.isEmpty || (raw.head? = some '#' && !sudoDirective) ||
    (kind = .systemd && raw.head? = some ';')

/-- A line goes on in the next one. -/
def continued (kind : Kind) (pending : Text) : Bool :=
  (kind = .sudoers || kind = .systemd) && pending.getLast? = some '\\'

/-- A logical line in its normal form. -/
def normalLine (kind : Kind) (line : Text) : Except String Text :=
  if kind = .ssh then sshRecord line else normalize line

/-- A line of systemd that begins a section. -/
def isHeader (line : Text) : Bool := line.head? = some '[' && line.getLast? = some ']'

/-- `str::split_once`. -/
def splitOnce (c : Char) (t : Text) : Option (Text × Text) :=
  if c ∈ t then some (t.takeWhile (· ≠ c), (t.dropWhile (· ≠ c)).tail) else none

/-! ## `parse` -/

/-- The variables of the loop of `parse`. -/
structure Parsing where
  entries : Finset Text := ∅
  sectionName : Text := []
  pending : Text := []

namespace Parsing

/-- An entry is numbered and added. -/
def add (s : Parsing) (text : Text) : Except String Parsing :=
  let entries := insert (entry s.entries.card text) s.entries
  if entries.card > 10000 then .error "설정 항목 상한 초과" else .ok { s with entries := entries }

/-- What is done with a logical line in its normal form. -/
def accept (kind : Kind) (s : Parsing) (line : Text) : Except String Parsing :=
  if kind = .systemd then
    if isHeader line then .ok { s with sectionName := line }
    else match splitOnce '=' line with
      | none => .error "systemd 대입 구문 아님"
      | some (key, value) =>
        if s.sectionName.isEmpty || (trimText key).isEmpty then .error "systemd 섹션/키 없음"
        else s.add (s.sectionName ++ ':' :: trimText key ++ '=' :: trimText value)
  else s.add line

/-- One turn of the loop of `parse`. -/
def step (kind : Kind) (s : Parsing) (raw : Text) : Except String Parsing :=
  let raw := trimText raw
  if skipped kind raw then .ok s
  else
    let pending := s.pending ++ raw
    if continued kind pending then .ok { s with pending := pending.dropLast ++ [' '] }
    else do
      let line ← normalLine kind pending
      accept kind { s with pending := [] } line

/-- The loop of `parse`. -/
def run (kind : Kind) : Parsing → List Text → Except String Parsing
  | s, [] => .ok s
  | s, raw :: rest => do
    let s ← step kind s raw
    run kind s rest

end Parsing

/-- `parse`. -/
def parse (kind : Kind) (text : Text) : Except String (Finset Text) := do
  let s ← Parsing.run kind {} (textLines text)
  if !s.pending.isEmpty then .error "미완성 연속 행" else .ok s.entries

/-! ## Observations -/

/-- `Snapshot`. -/
structure Snapshot where
  entries : Finset Text
  permissions : Option (Nat × Nat × Nat)
deriving DecidableEq

/-- What is found at a path: the file that was opened, with its metadata before and after the
reading, the number of bytes that were read, and their text if it is UTF-8. -/
structure Opened where
  isFile : Bool
  lengthBefore : Nat
  read : Nat
  lengthAfter : Nat
  sameTime : Bool
  text : Option Text
  uid : Nat
  gid : Nat
  mode : Nat

/-- The outcome of opening a path. -/
inductive Found where
  | missing
  | failed (error : String)
  | opened (file : Opened)

/-- `snapshot`. -/
def snapshot (path : Text) (limit : Nat) : Found → Except String Snapshot
  | .missing => .ok ⟨∅, none⟩
  | .failed error => .error error
  | .opened file =>
    if !file.isFile || file.lengthBefore > limit then .error "일반 파일/읽기 예산 조건 불충족"
    else if file.read > limit || file.lengthBefore ≠ file.lengthAfter || !file.sameTime then
      .error "관측 도중 변경/읽기 예산 초과"
    else match file.text with
      | none => .error "UTF-8 설정 아님"
      | some text =>
        match Kind.of path with
        | none => .error "지원하지 않는 설정"
        | some kind => do
          let entries ← parse kind text
          .ok ⟨entries, some (file.uid, file.gid, file.mode % 0o10000)⟩

namespace SemanticMonitor

/-- The detection that `observe` reports on a path. -/
def report (event : FileEvent) (rule : String) (score : ℚ) (severity : Severity) (summary : String) :
    Detection where
  timestampMs := event.timestampMs
  rule := rule
  score := .finite score
  severity := severity
  summary := summary
  pid := event.pid
  paths := [event.path]

end SemanticMonitor

end Argos.Agent
