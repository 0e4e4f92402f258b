import Argos.Lib.Words
import Argos.Response.Networks
import Argos.Vault.Types
import Mathlib.Data.List.Sort

/-!
# The list of mounts

`parse_mounts` of `argos-sensor/src/coverage.rs` reads `/proc/self/mountinfo`: a line for each mount,
cut into fields at white space, of which the fourth and fifth are paths. The kernel writes a blank, a
tab, a line feed and a backslash of a path as an escape, and every other character as it is
(`printMounts`). `split_ascii_whitespace` also cuts at carriage returns and form feeds, so a path that
holds one of these is torn apart.

`mounts_read_back` says when what the kernel writes is read back, that the order of the lines does not
matter, and that the result tells every field of every line. The decoding works on the bytes of a
field; escapes stand for single ASCII bytes and all other bytes are copied, so characters are decoded
here, and the text that comes out is always UTF-8.
-/

namespace Argos.Sensor

open Argos.Lib
open Argos.Response (parseUnsigned splitOnce IpAddr.decimal)
open Argos.Vault (u64Max)

/-! ## Fields and paths -/

/-- The form feed. -/
def formFeed : Char := Char.ofNat 12

/-- `char::is_ascii_whitespace`. -/
def isAsciiWhitespace (c : Char) : Bool :=
  c = ' ' || c = '\t' || c = '\n' || c = formFeed || c = '\r'

/-- `split_ascii_whitespace`. -/
def fieldsOf (line : Text) : List Text := words isAsciiWhitespace line

/-- `join(" ")`. -/
def joinFields (fields : List Text) : Text := List.intercalate [' '] fields

/-- The character that three digits behind a backslash stand for. -/
def escaped (a b c : Char) : Option Char :=
  if [a, b, c] = ['0', '4', '0'] then some ' '
  else if [a, b, c] = ['0', '1', '1'] then some '\t'
  else if [a, b, c] = ['0', '1', '2'] then some '\n'
  else if [a, b, c] = ['1', '3', '4'] then some '\\'
  else none

/-- The loop of `decode_mount_path`. -/
def unescape : Text → Except String Text
  | [] => .ok []
  | '\\' :: a :: b :: c :: rest =>
    match escaped a b c with
    | some decoded => (unescape rest).map (decoded :: ·)
    | none => .error "마운트 경로 escape 오류"
  | c :: rest =>
    if c = '\\' then .error "마운트 경로 escape 오류"
    else if c = '\x00' then .error "마운트 경로 NUL"
    else (unescape rest).map (c :: ·)

/-- `contains("//")`. -/
def hasDoubleSlash : Text → Bool
  | '/' :: '/' :: _ => true
  | _ :: rest => hasDoubleSlash rest
  | [] => false

/-- A path is absolute, without empty components, `.` and `..`. -/
def isCanonical (path : Text) : Bool :=
  path.head? = some '/' && !(path.splitOn '/').any (fun c => c = ['.'] || c = ['.', '.']) &&
    (path = ['/'] || (!hasDoubleSlash path && path.getLast? ≠ some '/'))

/-- `decode_mount_path`. -/
def decodeMountPath (value : Text) : Except String Text :=
  match unescape value with
  | .error e => .error e
  | .ok path =>
    if isCanonical path then .ok path else .error "마운트 경로가 정규 절대 경로가 아닙니다"

/-! ## `parse_mounts` -/

/-- `Mount`. -/
structure Mount where
  id : Nat
  point : Text
  signature : Text
deriving DecidableEq, Repr

/-- `parse::<u64>`, with an error. -/
def parseU64 (error : String) (t : Text) : Except String Nat :=
  match parseUnsigned u64Max t with
  | some n => .ok n
  | none => .error error

/-- The check of a device number. -/
def parseDevice (t : Text) : Except String Unit :=
  match splitOnce ':' t with
  | none => .error "마운트 장치 번호 오류"
  | some (major, minor) => do
    let _ ← parseU64 "마운트 장치 번호 오류" major
    let _ ← parseU64 "마운트 장치 번호 오류" minor
    .ok ()

/-- What `parse_mounts` reads of one line, but for the check of the identifier. -/
def parseMount (line : Text) : Except String Mount :=
  let parts := fieldsOf line
  match parts.findIdx? (· = ['-']) with
  | none => .error "마운트 목록 형식 오류"
  | some split =>
    if split < 6 ∨ parts.length ≠ split + 4 then .error "마운트 목록 형식 오류"
    else match parts with
      | id :: parent :: device :: root :: point :: _ => do
        let id ← parseU64 "마운트 ID 오류" id
        let _ ← parseU64 "마운트 부모 ID 오류" parent
        parseDevice device
        let _ ← decodeMountPath root
        let point ← decodeMountPath point
        .ok ⟨id, point, joinFields parts⟩
      | _ => .error "마운트 목록 형식 오류"

/-- The loop of `parse_mounts`. -/
def parseLines : List Text → List Mount → Except String (List Mount)
  | [], mounts => .ok mounts
  | line :: rest, mounts =>
    if mounts.length ≥ 65536 then .error "마운트 목록 상한"
    else do
      let mount ← parseMount line
      if mount.id = 0 ∨ mount.id ∈ mounts.map (·.id) then
        .error "마운트 ID/경로가 중복되어 범위를 결정할 수 없습니다"
      else parseLines rest (mounts ++ [mount])

/-- `sort`; the identifiers are distinct, so they alone decide. -/
def sortMounts (mounts : List Mount) : List Mount := mounts.insertionSort fun a b => a.id ≤ b.id

/-- `parse_mounts`. -/
def parseMounts (text : Text) : Except String (List Mount) := do
  let mounts ← parseLines (textLines text) []
  if mounts.isEmpty then .error "빈 마운트 목록" else .ok (sortMounts mounts)

/-! ## What the kernel writes -/

/-- A mount as the kernel knows it. -/
structure MountInfo where
  id : Nat
  parent : Nat
  major : Nat
  minor : Nat
  root : Text
  point : Text
  options : Text
  optional : List Text
  fsType : Text
  source : Text
  superOptions : Text
deriving DecidableEq, Repr

/-- A path as the kernel writes it. -/
def escapePath (path : Text) : Text :=
  path.flatMap fun c =>
    if c = ' ' then "\\040".toList else if c = '\t' then "\\011".toList
    else if c = '\n' then "\\012".toList else if c = '\\' then "\\134".toList else [c]

namespace MountInfo

/-- The fields of the line of a mount. -/
def fields (m : MountInfo) : List Text :=
  IpAddr.decimal m.id :: IpAddr.decimal m.parent ::
    (IpAddr.decimal m.major ++ ':' :: IpAddr.decimal m.minor) :: escapePath m.root ::
    escapePath m.point :: m.options :: (m.optional ++ [['-'], m.fsType, m.source, m.superOptions])

/-- The line of a mount. -/
def line (m : MountInfo) : Text := joinFields m.fields

/-- What is to be read of a mount. -/
def mount (m : MountInfo) : Mount := ⟨m.id, m.point, joinFields m.fields⟩

/-- A mount that the kernel can write. -/
structure Valid (m : MountInfo) : Prop where
  positive : 0 < m.id
  id : m.id ≤ u64Max
  parent : m.parent ≤ u64Max
  major : m.major ≤ u64Max
  minor : m.minor ≤ u64Max
  root : isCanonical m.root ∧ '\x00' ∉ m.root
  point : isCanonical m.point ∧ '\x00' ∉ m.point
  solid : ∀ f ∈ m.options :: m.fsType :: m.source :: m.superOptions :: m.optional,
    f ≠ [] ∧ ∀ c ∈ f, isAsciiWhitespace c = false
  optional : ['-'] ∉ m.optional

/-- Nothing of a mount is torn apart or taken for the separator. -/
structure Clean (m : MountInfo) : Prop where
  root : '\r' ∉ m.root ∧ formFeed ∉ m.root
  point : '\r' ∉ m.point ∧ formFeed ∉ m.point
  options : m.options ≠ ['-']

end MountInfo

/-- The lines of the mounts, each with a line feed. -/
def printMounts (ms : List MountInfo) : Text := joined (ms.map MountInfo.line)

/-! ## Paths are decoded -/

/-- What the kernel writes for a character is decoded to it, before any rest. -/
theorem unescape_cons {c : Char} (hc : c ≠ '\x00') (rest : Text) :
    unescape (escapePath (c :: rest)) = (unescape (escapePath rest)).map (c :: ·) := by
  have hcons : escapePath (c :: rest) = escapePath [c] ++ escapePath rest := by
    simp [escapePath]
  rw [hcons]
  by_cases h₁ : c = ' '
  · subst h₁; rfl
  by_cases h₂ : c = '\t'
  · subst h₂; rfl
  by_cases h₃ : c = '\n'
  · subst h₃; rfl
  by_cases h₄ : c = '\\'
  · subst h₄; rfl
  have hplain : escapePath [c] = [c] := by simp [escapePath, h₁, h₂, h₃, h₄]
  rw [hplain, List.singleton_append, unescape.eq_3 _ _ (fun _ _ _ _ h _ => h₄ h),
    if_neg h₄, if_neg hc]

theorem unescape_escapePath (path : Text) (h : '\x00' ∉ path) :
    unescape (escapePath path) = .ok path := by
  induction path with
  | nil => rfl
  | cons c rest ih =>
    rw [unescape_cons (fun hc => h (hc ▸ List.mem_cons_self)),
      ih fun hmem => h (List.mem_cons_of_mem _ hmem)]
    rfl

theorem decodeMountPath_escapePath {path : Text} (h : isCanonical path ∧ '\x00' ∉ path) :
    decodeMountPath (escapePath path) = .ok path := by
  rw [decodeMountPath, unescape_escapePath path h.2]
  exact if_pos h.1

/-- The white space of an escaped path is that of the path which the kernel does not escape. -/
theorem whitespace_escapePath {path : Text} {c : Char} (hc : c ∈ escapePath path)
    (hspace : isAsciiWhitespace c = true) : (c = '\r' ∨ c = formFeed) ∧ c ∈ path := by
  unfold escapePath at hc
  obtain ⟨d, hd, hc⟩ := List.mem_flatMap.1 hc
  have hdigits : ∀ t ∈ ["\\040".toList, "\\011".toList, "\\012".toList, "\\134".toList],
      ∀ x ∈ t, isAsciiWhitespace x = false := by decide
  split_ifs at hc with h₁ h₂ h₃ h₄
  · rw [hdigits _ (by simp) c hc] at hspace; cases hspace
  · rw [hdigits _ (by simp) c hc] at hspace; cases hspace
  · rw [hdigits _ (by simp) c hc] at hspace; cases hspace
  · rw [hdigits _ (by simp) c hc] at hspace; cases hspace
  · obtain rfl := List.mem_singleton.1 hc
    simp only [isAsciiWhitespace, Bool.or_eq_true, decide_eq_true_eq] at hspace
    exact ⟨by tauto, hd⟩

/-- A carriage return or a form feed of a path is written as it is. -/
theorem mem_escapePath {path : Text} {c : Char} (hc : c = '\r' ∨ c = formFeed) (h : c ∈ path) :
    c ∈ escapePath path := by
  refine List.mem_flatMap.2 ⟨c, h, ?_⟩
  rcases hc with rfl | rfl <;> decide

theorem escapePath_ne_nil {path : Text} (h : isCanonical path = true) : escapePath path ≠ [] := by
  cases path with
  | nil => cases h
  | cons c rest =>
    have hcons : escapePath (c :: rest) = escapePath [c] ++ escapePath rest := by simp [escapePath]
    rw [hcons, ne_eq, List.append_eq_nil_iff, not_and_or]
    left
    simp only [escapePath, List.flatMap_cons, List.flatMap_nil, List.append_nil]
    split_ifs <;> simp

/-! ## A line is read back -/

/-- The words of a line: not empty, and without white space. -/
def SolidFields (fields : List Text) : Prop :=
  ∀ f ∈ fields, f ≠ [] ∧ ∀ c ∈ f, isAsciiWhitespace c = false

theorem fieldsOf_solid (line : Text) : SolidFields (fieldsOf line) :=
  fun _ hf => solid_of_mem_words hf

theorem fieldsOf_joinFields {fields : List Text} (h : SolidFields fields) :
    fieldsOf (joinFields fields) = fields := words_intercalate (by decide) h

/-- The fields of a line are told by their joined form. -/
theorem fieldsOf_join_fieldsOf (line : Text) :
    fieldsOf (joinFields (fieldsOf line)) = fieldsOf line :=
  fieldsOf_joinFields (fieldsOf_solid line)

/-- The characters of joined fields are those of the fields, and blanks. -/
theorem mem_joinFields {fields : List Text} {c : Char} (hc : c ∈ joinFields fields) :
    c = ' ' ∨ ∃ f ∈ fields, c ∈ f := by
  induction fields with
  | nil => cases hc
  | cons f rest ih =>
    by_cases hrest : rest = []
    · rw [hrest, joinFields, List.intercalate_singleton] at hc
      exact .inr ⟨f, List.mem_cons_self, hc⟩
    · rw [joinFields, List.intercalate_cons_of_ne_nil hrest, List.append_assoc] at hc
      rcases List.mem_append.1 hc with hc | hc
      · exact .inr ⟨f, List.mem_cons_self, hc⟩
      obtain rfl | hc := List.mem_cons.1 hc
      · exact .inl rfl
      obtain hc | ⟨g, hg, hc⟩ := ih hc
      · exact .inl hc
      · exact .inr ⟨g, List.mem_cons_of_mem _ hg, hc⟩

theorem mem_joinFields_of_mem {fields : List Text} {f : Text} {c : Char} (hf : f ∈ fields)
    (hc : c ∈ f) : c ∈ joinFields fields := by
  induction fields with
  | nil => cases hf
  | cons g rest ih =>
    by_cases hrest : rest = []
    · rw [hrest] at hf ⊢
      rw [joinFields, List.intercalate_singleton, ← List.mem_singleton.1 hf]
      exact hc
    · rw [joinFields, List.intercalate_cons_of_ne_nil hrest, List.append_assoc]
      obtain rfl | hf := List.mem_cons.1 hf
      · exact List.mem_append_left _ hc
      · exact List.mem_append_right _ (List.mem_cons_of_mem _ (ih hf))

/-- The only white space of joined words is the blank. -/
theorem SolidFields.whitespace {fields : List Text} (h : SolidFields fields) {c : Char}
    (hc : c ∈ joinFields fields) : c = ' ' ∨ isAsciiWhitespace c = false := by
  obtain hc | ⟨f, hf, hc⟩ := mem_joinFields hc
  · exact .inl hc
  · exact .inr ((h f hf).2 c hc)

theorem decimal_solid (n : Nat) :
    IpAddr.decimal n ≠ [] ∧ ∀ c ∈ IpAddr.decimal n, isAsciiWhitespace c = false := by
  refine ⟨Nat.toDigits_ne_nil, fun c hc => ?_⟩
  have hdigit := Nat.isDigit_of_mem_toDigits (by decide) (by decide) hc
  by_contra hspace
  rw [Bool.not_eq_false, isAsciiWhitespace] at hspace
  simp only [Bool.or_eq_true, decide_eq_true_eq] at hspace
  rcases hspace with (((rfl | rfl) | rfl) | rfl) | rfl <;> revert hdigit <;> decide

namespace MountInfo

variable {m : MountInfo}

/-- The fields of a mount whose paths are not torn apart are words. -/
theorem Valid.solidFields (h : m.Valid) (hroot : '\r' ∉ m.root ∧ formFeed ∉ m.root)
    (hpoint : '\r' ∉ m.point ∧ formFeed ∉ m.point) : SolidFields m.fields := by
  have hpath : ∀ path : Text, isCanonical path = true → '\r' ∉ path ∧ formFeed ∉ path →
      escapePath path ≠ [] ∧ ∀ c ∈ escapePath path, isAsciiWhitespace c = false := by
    intro path hcanonical hbreaks
    refine ⟨escapePath_ne_nil hcanonical, fun c hc => ?_⟩
    by_contra hspace
    obtain ⟨rfl | rfl, hmem⟩ := whitespace_escapePath hc (by simpa using hspace)
    · exact hbreaks.1 hmem
    · exact hbreaks.2 hmem
  intro f hf
  simp only [fields, List.mem_cons, List.mem_append, List.not_mem_nil, or_false] at hf
  have hsolid := h.solid f
  simp only [List.mem_cons] at hsolid
  rcases hf with rfl | rfl | rfl | rfl | rfl | rfl | hf | rfl | rfl | rfl | rfl
  · exact decimal_solid _
  · exact decimal_solid _
  · refine ⟨by simp, fun c hc => ?_⟩
    rcases List.mem_append.1 hc with hc | hc
    · exact (decimal_solid _).2 c hc
    · obtain rfl | hc := List.mem_cons.1 hc
      · decide
      · exact (decimal_solid _).2 c hc
  · exact hpath _ h.root.1 hroot
  · exact hpath _ h.point.1 hpoint
  · exact hsolid (.inl rfl)
  · exact hsolid (by tauto)
  · exact ⟨by decide, by decide⟩
  · exact hsolid (by tauto)
  · exact hsolid (by tauto)
  · exact hsolid (by tauto)

theorem decimal_ne_hyphen (n : Nat) : IpAddr.decimal n ≠ ['-'] := by
  intro h
  have hdigit := Nat.isDigit_of_mem_toDigits (b := 10) (n := n) (by decide) (by decide)
    (show '-' ∈ IpAddr.decimal n by rw [h]; exact List.mem_cons_self)
  exact absurd hdigit (by decide)

theorem escapePath_ne_hyphen {path : Text} (h : isCanonical path = true) :
    escapePath path ≠ ['-'] := by
  cases path with
  | nil => cases h
  | cons c rest =>
    obtain rfl : c = '/' := by
      simp only [isCanonical, List.head?_cons, Bool.and_eq_true, decide_eq_true_eq,
        Option.some.injEq] at h
      exact h.1.1
    intro heq
    have hhead := congrArg List.head? heq
    exact absurd hhead (by simp [escapePath])

/-- The hyphen of a mount's line is the field behind the optional ones. -/
theorem Valid.findIdx?_hyphen (h : m.Valid) (hclean : m.Clean) :
    m.fields.findIdx? (· = ['-']) = some (6 + m.optional.length) := by
  have hdevice : IpAddr.decimal m.major ++ ':' :: IpAddr.decimal m.minor ≠ ['-'] := by
    intro heq
    have hmem : ':' ∈ ['-'] := heq ▸ List.mem_append_right _ List.mem_cons_self
    exact absurd hmem (by decide)
  have hoptional : m.optional.findIdx? (· = ['-']) = none := by
    rw [List.findIdx?_eq_none_iff]
    intro f hf
    exact decide_eq_false fun heq => h.optional (heq ▸ hf)
  simp only [fields, List.findIdx?_cons, decimal_ne_hyphen, hdevice,
    escapePath_ne_hyphen h.root.1, escapePath_ne_hyphen h.point.1, hclean.options, decide_false,
    Bool.false_eq_true, if_false, List.findIdx?_append, hoptional, decide_true, if_true]
  simp
  omega

/-- The line of a clean mount is read back. -/
theorem Valid.parseMount_line (h : m.Valid) (hclean : m.Clean) :
    parseMount m.line = .ok m.mount := by
  have hfields : fieldsOf m.line = m.fields := 
    fieldsOf_joinFields (h.solidFields hclean.root hclean.point)
  have hlength : m.fields.length = 6 + m.optional.length + 4 := by
    simp [fields]
    omega
  have hnumber : ∀ (e : String) {n : Nat}, n ≤ u64Max → parseU64 e (IpAddr.decimal n) = .ok n := by
    intro e n hn
    rw [parseU64, Response.parseUnsigned_decimal hn]
  have hdevice : parseDevice (IpAddr.decimal m.major ++ ':' :: IpAddr.decimal m.minor) = .ok () := by
    have hcolon : ∀ c ∈ IpAddr.decimal m.major, decide (c ≠ ':') = true := by
      intro c hc
      refine decide_eq_true fun heq => ?_
      have hdigit := Nat.isDigit_of_mem_toDigits (by decide) (by decide) (heq ▸ hc)
      exact absurd hdigit (by decide)
    rw [parseDevice, splitOnce, if_pos (by simp), List.takeWhile_append_of_pos hcolon,
      List.dropWhile_append_of_pos hcolon, List.takeWhile_cons_of_neg (by decide),
      List.dropWhile_cons_of_neg (by decide), List.append_nil, List.tail_cons]
    dsimp only
    rw [hnumber _ h.major, hnumber _ h.minor]
    rfl
  unfold parseMount
  dsimp only
  rw [hfields, h.findIdx?_hyphen hclean]
  dsimp only
  rw [if_neg (by rw [hlength]; omega)]
  simp only [fields, hnumber _ h.id, hnumber _ h.parent, hdevice, decodeMountPath_escapePath h.root,
    decodeMountPath_escapePath h.point]
  rfl

end MountInfo

/-- What the fields of a line were that was read. -/
theorem parseMount_ok {line : Text} {mount : Mount} (h : parseMount line = .ok mount) :
    mount.signature = joinFields (fieldsOf line) ∧
      ∃ split, (fieldsOf line).findIdx? (· = ['-']) = some split ∧ 6 ≤ split := by
  unfold parseMount at h
  dsimp only at h
  rcases hsplit : (fieldsOf line).findIdx? (· = ['-']) with _ | split <;> rw [hsplit] at h
  · cases h
  dsimp only at h
  split_ifs at h with hbad
  refine ⟨?_, split, rfl, by omega⟩
  rcases hparts : fieldsOf line with _ | ⟨id, _ | ⟨parent, _ | ⟨device, _ | ⟨root, _ | ⟨point, rest⟩⟩⟩⟩⟩ <;>
    rw [hparts] at h <;> try cases h
  dsimp only at h
  -- the last of the checks returns the fields as they were cut
  simp only [bind, Except.bind] at h
  repeat' split at h
  all_goals cases h
  rfl

/-! ## All lines -/

/-- What the loop reads: a mount of each line, in order. -/
theorem parseLines_ok (lines : List Text) :
    ∀ {mounts result : List Mount}, parseLines lines mounts = .ok result →
      (mounts.map (·.id)).Nodup →
      (result.map (·.id)).Nodup ∧
        ∃ read, result = mounts ++ read ∧ List.Forall₂ (fun l m => parseMount l = .ok m) lines read := by
  induction lines with
  | nil =>
    intro mounts result h hnodup
    obtain rfl := Except.ok.inj h
    exact ⟨hnodup, [], (List.append_nil _).symm, .nil⟩
  | cons line rest ih =>
    intro mounts result h hnodup
    rw [parseLines] at h
    split_ifs at h
    rcases hmount : parseMount line with e | mount <;> rw [hmount] at h
    · cases h
    change (if mount.id = 0 ∨ mount.id ∈ mounts.map (·.id) then _ else _) = _ at h
    split_ifs at h with hbad
    obtain ⟨hresult, read, rfl, hread⟩ := ih h (by
      rw [List.map_append, List.map_singleton, List.nodup_append]
      refine ⟨hnodup, List.nodup_singleton _, fun a ha b hb heq => hbad (.inr ?_)⟩
      rw [← List.mem_singleton.1 hb, ← heq]
      exact ha)
    exact ⟨hresult, mount :: read, by rw [List.append_assoc]; rfl, .cons hmount hread⟩

/-- Lines that are all read, with distinct identifiers and within the limit. -/
theorem parseLines_eq (lines : List Text) :
    ∀ {mounts read : List Mount}, List.Forall₂ (fun l m => parseMount l = .ok m) lines read →
      (∀ m ∈ read, 0 < m.id) → ((mounts ++ read).map (·.id)).Nodup →
      (mounts ++ read).length ≤ 65536 → parseLines lines mounts = .ok (mounts ++ read) := by
  induction lines with
  | nil =>
    intro mounts read hread _ _ _
    cases hread
    rw [List.append_nil]
    rfl
  | cons line rest ih =>
    intro mounts read hread hpositive hnodup hlength
    obtain ⟨mount, read, hmount, hrest, rfl⟩ := List.forall₂_cons_left_iff.1 hread
    have hassoc : mounts ++ mount :: read = (mounts ++ [mount]) ++ read := by simp
    have hnew : ¬ (mount.id = 0 ∨ mount.id ∈ mounts.map (·.id)) := by
      rintro (h | h)
      · have := hpositive mount List.mem_cons_self
        omega
      · rw [List.map_append, List.nodup_append] at hnodup
        exact hnodup.2.2 _ h _ (by simp) rfl
    rw [List.length_append, List.length_cons] at hlength
    rw [parseLines, if_neg (by omega), hmount]
    change (if mount.id = 0 ∨ mount.id ∈ mounts.map (·.id) then _ else _) = _
    rw [if_neg hnew, hassoc]
    rw [hassoc] at hnodup
    refine ih hrest (fun m hm => hpositive m (List.mem_cons_of_mem _ hm)) hnodup ?_
    simp only [List.length_append, List.length_singleton]
    omega

/-- What `parse_mounts` returns is made of the mounts of the lines. -/
theorem parseMounts_ok {text : Text} {result : List Mount} (h : parseMounts text = .ok result) :
    ∃ read, List.Forall₂ (fun l m => parseMount l = .ok m) (textLines text) read ∧
      result = sortMounts read := by
  unfold parseMounts at h
  rcases hlines : parseLines (textLines text) [] with e | mounts <;> rw [hlines] at h
  · cases h
  change (if mounts.isEmpty then _ else _) = _ at h
  split_ifs at h
  obtain ⟨-, found, hfound, hread⟩ := parseLines_ok _ hlines List.nodup_nil
  rw [List.nil_append] at hfound
  exact ⟨found, hread, by rw [← hfound, Except.ok.inj h]⟩

/-- Mounts with distinct identifiers are sorted in one way. -/
theorem sortMounts_perm {l l' : List Mount} (h : l.Perm l') (hnodup : (l.map (·.id)).Nodup) :
    sortMounts l = sortMounts l' := by
  have hstrict : ∀ k : List Mount, (k.map (·.id)).Nodup →
      (sortMounts k).Pairwise (fun a b => a.id < b.id) := by
    intro k hk
    have hle := List.pairwise_insertionSort (fun a b : Mount => a.id ≤ b.id) k
    have hne : (sortMounts k).Pairwise (fun a b => a.id ≠ b.id) := by
      rw [← List.pairwise_map]
      exact ((List.perm_insertionSort _ k).map _).nodup_iff.2 hk
    exact (hle.and hne).imp fun h => lt_of_le_of_ne h.1 h.2
  have hperm : (sortMounts l).Perm (sortMounts l') :=
    (List.perm_insertionSort _ l).trans (h.trans (List.perm_insertionSort _ l').symm)
  have hnodup' := (h.map (·.id)).nodup_iff.1 hnodup
  exact hperm.eq_of_pairwise (fun a b _ _ hab hba => absurd hab (Nat.lt_asymm hba))
    (hstrict l hnodup) (hstrict l' hnodup')

/-! ## What is read back -/

/-- A list that the kernel can write: 1 to 65536 mounts with distinct identifiers. -/
structure Listing (ms : List MountInfo) : Prop where
  some : ms ≠ []
  length : ms.length ≤ 65536
  valid : ∀ m ∈ ms, m.Valid
  distinct : (ms.map (·.id)).Nodup

theorem Listing.perm {ms ms' : List MountInfo} (h : Listing ms) (hperm : ms.Perm ms') :
    Listing ms' where
  some heq := h.some (by rw [heq] at hperm; exact hperm.eq_nil)
  length := hperm.length_eq ▸ h.length
  valid m hm := h.valid m (hperm.mem_iff.2 hm)
  distinct := (hperm.map _).nodup_iff.1 h.distinct

/-- The lines of clean mounts are the lines of what is printed of them. -/
theorem Listing.textLines_printMounts {ms : List MountInfo} (h : Listing ms)
    (hclean : ∀ m ∈ ms, m.Clean) : textLines (printMounts ms) = ms.map MountInfo.line := by
  have hspace : ∀ line ∈ ms.map MountInfo.line, ∀ c ∈ line, c = ' ' ∨ isAsciiWhitespace c = false := by
    intro line hline c hc
    obtain ⟨m, hm, rfl⟩ := List.mem_map.1 hline
    exact ((h.valid m hm).solidFields (hclean m hm).root (hclean m hm).point).whitespace hc
  apply textLines_joined
  · intro line hline hmem
    exact absurd (hspace line hline _ hmem) (by decide)
  · intro line hline hlast
    exact absurd (hspace line hline _ (List.mem_of_getLast? hlast)) (by decide)

/-- Clean mounts are read back, sorted by their identifiers. -/
theorem Listing.parseMounts_eq {ms : List MountInfo} (h : Listing ms) (hclean : ∀ m ∈ ms, m.Clean) :
    parseMounts (printMounts ms) = .ok (sortMounts (ms.map MountInfo.mount)) := by
  have hread : List.Forall₂ (fun l m => parseMount l = .ok m) (ms.map MountInfo.line)
      (ms.map MountInfo.mount) := by
    rw [List.forall₂_map_left_iff, List.forall₂_map_right_iff, List.forall₂_same]
    exact fun m hm => (h.valid m hm).parseMount_line (hclean m hm)
  have hids : ((ms.map MountInfo.mount).map (·.id)) = ms.map (·.id) := by
    rw [List.map_map]
    rfl
  have hlines := @parseLines_eq (ms.map MountInfo.line) [] _ hread (by
    intro x hx
    obtain ⟨m, hm, rfl⟩ := List.mem_map.1 hx
    exact (h.valid m hm).positive) (by rw [List.nil_append, hids]; exact h.distinct) (by
    rw [List.nil_append, List.length_map]
    exact h.length)
  rw [parseMounts, h.textLines_printMounts hclean, hlines]
  change (if (ms.map MountInfo.mount).isEmpty then _ else _) = _
  rw [if_neg (by simp [h.some])]
  rfl

/-- A mount that is read back is clean. -/
theorem clean_of_read {ms : List MountInfo} (h : Listing ms)
    (hread : parseMounts (printMounts ms) = .ok (sortMounts (ms.map MountInfo.mount)))
    {m : MountInfo} (hm : m ∈ ms) : m.Clean := by
  obtain ⟨found, hfound, hsort⟩ := parseMounts_ok hread
  have hmem : m.mount ∈ found := by
    have hmount : m.mount ∈ sortMounts (ms.map MountInfo.mount) :=
      (List.mem_insertionSort _).2 (List.mem_map_of_mem hm)
    rw [hsort] at hmount
    exact (List.mem_insertionSort _).1 hmount
  obtain ⟨line, hline⟩ : ∃ line, parseMount line = .ok m.mount := by
    obtain ⟨i, hi, heq⟩ := List.getElem_of_mem hmem
    have hlength := hfound.length_eq
    have hat := List.forall₂_iff_get.1 hfound
    exact ⟨_, (hat.2 i (by omega) hi).trans (congrArg Except.ok heq)⟩
  obtain ⟨hsignature, split, hsplit, hsix⟩ := parseMount_ok hline
  have hjoined : joinFields m.fields = joinFields (fieldsOf line) := hsignature
  -- the signature of a line that was read has no carriage return and no form feed
  have hbreak : ∀ path : Text, escapePath path ∈ m.fields → '\r' ∉ path ∧ formFeed ∉ path := by
    intro path hpath
    have hnone : ∀ c, c = '\r' ∨ c = formFeed → c ∉ path := by
      intro c hc hin
      have hline := mem_joinFields_of_mem hpath (mem_escapePath hc hin)
      rw [hjoined] at hline
      have hspace := (fieldsOf_solid line).whitespace hline
      rcases hc with rfl | rfl <;> exact absurd hspace (by decide)
    exact ⟨hnone _ (.inl rfl), hnone _ (.inr rfl)⟩
  have hroot := hbreak m.root (by simp [MountInfo.fields])
  have hpoint := hbreak m.point (by simp [MountInfo.fields])
  refine ⟨hroot, hpoint, fun hoptions => ?_⟩
  -- the fields were cut where the kernel put blanks, so a hyphen for the options is the first one
  have hfields : fieldsOf line = m.fields := by
    rw [← fieldsOf_join_fieldsOf line, ← hjoined,
      fieldsOf_joinFields ((h.valid m hm).solidFields hroot hpoint)]
  rw [hfields, List.findIdx?_eq_some_iff_getElem] at hsplit
  obtain ⟨hlt, -, hfirst⟩ := hsplit
  have hfifth := hfirst 5 (by omega)
  simp [MountInfo.fields, hoptions] at hfifth

/-- The signatures of the mounts tell the fields of their lines. -/
theorem fields_of_read {lines : List Text} {found : List Mount}
    (h : List.Forall₂ (fun l m => parseMount l = .ok m) lines found) :
    lines.map fieldsOf = (found.map (·.signature)).map fieldsOf := by
  induction h with
  | nil => rfl
  | cons hline _ ih =>
    rw [List.map_cons, List.map_cons, List.map_cons, ih, (parseMount_ok hline).1,
      fieldsOf_join_fieldsOf]

/-- What the kernel writes of a list of mounts is read back, one mount for each line with its
identifier, its point and its fields, exactly when no path holds a carriage return or a form feed and
no options are a hyphen; then the order of the lines does not matter. Texts that are read as the same
list have the same fields in their lines, up to the order of the lines and the white space. -/
theorem mounts_read_back {ms : List MountInfo} (h : Listing ms) :
    (parseMounts (printMounts ms) = .ok (sortMounts (ms.map MountInfo.mount)) ↔
      ∀ m ∈ ms, m.Clean) ∧
    ((∀ m ∈ ms, m.Clean) → ∀ ms', ms.Perm ms' →
      parseMounts (printMounts ms') = parseMounts (printMounts ms)) ∧
    (∀ text text' mounts, parseMounts text = .ok mounts → parseMounts text' = .ok mounts →
      ((textLines text).map fieldsOf).Perm ((textLines text').map fieldsOf)) := by
  refine ⟨⟨fun hread m hm => clean_of_read h hread hm, h.parseMounts_eq⟩,
    fun hclean ms' hperm => ?_, fun text text' mounts h h' => ?_⟩
  · rw [(h.perm hperm).parseMounts_eq fun m hm => hclean m (hperm.mem_iff.2 hm),
      h.parseMounts_eq hclean]
    have hids : ((ms.map MountInfo.mount).map (·.id)).Nodup := by
      rw [List.map_map]
      exact h.distinct
    rw [sortMounts_perm (hperm.map MountInfo.mount) hids]
  · -- the signatures are the same, and they tell the fields
    have hfields : ∀ {t : Text}, parseMounts t = .ok mounts →
        ((textLines t).map fieldsOf).Perm ((mounts.map (·.signature)).map fieldsOf) := by
      intro t ht
      obtain ⟨found, hfound, rfl⟩ := parseMounts_ok ht
      rw [fields_of_read hfound]
      exact ((List.perm_insertionSort _ found).symm.map _).map _
    exact (hfields h).trans (hfields h').symm

/-- The root filesystem, and a disk whose mount point has a blank in it. -/
def twoMounts : List MountInfo :=
  [⟨2, 1, 8, 17, "/".toList, "/data/old files".toList, "rw,nosuid".toList, ["shared:1".toList],
      "ext4".toList, "/dev/sdb1".toList, "rw".toList⟩,
    ⟨1, 0, 8, 1, "/".toList, "/".toList, "rw".toList, [], "ext4".toList, "/dev/sda1".toList,
      "rw".toList⟩]

/-- A disk whose mount point has a carriage return in it. -/
def returnMount : MountInfo :=
  ⟨2, 1, 8, 17, "/".toList, "/data\rold".toList, "rw".toList, [], "ext4".toList,
    "/dev/sdb1".toList, "rw".toList⟩

theorem twoMounts_listing : Listing twoMounts where
  some := by decide
  length := by decide
  valid m hm := by
    simp only [twoMounts, List.mem_cons, List.not_mem_nil, or_false] at hm
    rcases hm with rfl | rfl <;>
      exact ⟨by decide, by decide, by decide, by decide, by decide, by decide, by decide, by decide,
        by decide⟩
  distinct := by decide

/-- The two mounts are read back. -/
theorem mounts_read_back_two :
    parseMounts (printMounts twoMounts) = .ok (sortMounts (twoMounts.map MountInfo.mount)) :=
  (mounts_read_back twoMounts_listing).1.2 fun m hm => by
    simp only [twoMounts, List.mem_cons, List.not_mem_nil, or_false] at hm
    rcases hm with rfl | rfl <;> exact ⟨by decide, by decide, by decide⟩

/-- The mount with the carriage return is read as a mount at another point. -/
theorem returnMount_misread :
    Listing [returnMount] ∧
      parseMounts (printMounts [returnMount]) =
        .ok [⟨2, "/data".toList, "2 1 8:17 / /data old rw - ext4 /dev/sdb1 rw".toList⟩] ∧
      returnMount.point ≠ "/data".toList := by
  refine ⟨⟨by decide, by decide, fun m hm => ?_, by decide⟩, by decide +kernel, by decide⟩
  rw [List.mem_singleton.1 hm]
  exact ⟨by decide, by decide, by decide, by decide, by decide, by decide, by decide, by decide,
    by decide⟩

end Argos.Sensor
