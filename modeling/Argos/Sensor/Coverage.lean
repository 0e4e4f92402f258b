import Argos.Lib.Paths
import Argos.Lib.Prefixes
import Argos.Sensor.Mounts

/-!
# What the coverage inspection has looked at

`CoverageInspector` of `argos-sensor/src/coverage.rs` compares the protected roots with what they
were when the sensor was registered, and walks every tree once, with one budget of entries for all
roots. A report says `no_observed_gap` if no root has an issue.

A file is modelled by the answers of the calls on its descriptor (`Facts`), a directory with what it
lists (`Node`), and the system by what it answers for a path (`World`). `inspect` takes two worlds,
since it looks at the roots and the mounts a second time when the walk is over, and the clock as a
function that tells for each reading whether the five seconds are over.

The mount of a path is the deepest one above it. The mounts that are kept for a root decide it for
all paths below the root (`containingMount_relevantMounts`).
-/

namespace Argos.Sensor

open Argos.Lib
open Argos.Vault (u64Max saturatingAdd)

/-! ## The mounts of a root -/

/-- `containing_mount`. -/
def containingMount (path : Text) (mounts : List Mount) : Option Mount :=
  ((mounts.filter fun m => StartsWith path m.point).map fun m => (components m.point).length).max?.bind
    fun depth => only (mounts.filter fun m =>
      StartsWith path m.point ∧ (components m.point).length = depth)

/-- `relevant_mounts`. -/
def relevantMounts (path : Text) (mounts : List Mount) : List Mount :=
  let depth := ((mounts.filter fun m => StartsWith path m.point).map
    fun m => (components m.point).length).max?
  mounts.filter fun m =>
    (StartsWith path m.point ∧ some (components m.point).length = depth) ∨ StartsWith m.point path

/-- The mount points, which are the same if their components are. -/
def mountPoints (mounts : List Mount) : List (List Text) := mounts.map fun m => components m.point

/-- `ambiguous_mount_scope`. -/
def ambiguousMountScope (mounts : List Mount) : Bool :=
  mounts.isEmpty || !decide (mountPoints mounts).Nodup

theorem containingMount_eq (path : Text) (mounts : List Mount) :
    containingMount path mounts =
      deepest (fun m : Mount => components m.point) (components path) mounts := rfl

theorem relevantMounts_eq (path : Text) (mounts : List Mount) :
    relevantMounts path mounts = scope (fun m : Mount => components m.point) (components path) mounts :=
  rfl

/-- The mount of a path below a root is told by the mounts that are kept for the root. -/
theorem containingMount_relevantMounts {root path : Text} (h : StartsWith path root)
    (mounts : List Mount) :
    containingMount path (relevantMounts root mounts) = containingMount path mounts := by
  rw [containingMount_eq, containingMount_eq, relevantMounts_eq]
  exact deepest_scope h

/-- Where the kept mounts have distinct points and one of them is above the root, every path below
the root has a mount. -/
theorem containingMount_ne_none {root path : Text} (h : StartsWith path root) {mounts : List Mount}
    (hdistinct : (mountPoints (relevantMounts root mounts)).Nodup)
    (hcovered : ∃ m ∈ mounts, StartsWith root m.point) : containingMount path mounts ≠ none := by
  rw [← containingMount_relevantMounts h, containingMount_eq]
  refine deepest_ne_none hdistinct ?_
  obtain ⟨m, hm, hcover⟩ : ∃ m ∈ relevantMounts root mounts, StartsWith root m.point := by
    rw [relevantMounts_eq]
    exact covered_scope hcovered
  exact ⟨m, hm, hcover.trans h⟩

/-! ## Files -/

/-- `FileType`. -/
inductive FileKind where
  | regular
  | directory
  | symlink
  | other
deriving DecidableEq, Repr

/-- `Identity`. -/
structure Identity where
  device : Nat
  inode : Nat
deriving DecidableEq, Repr

/-- What is read of the metadata of a file. -/
structure FileMetadata where
  kind : FileKind
  identity : Identity
deriving DecidableEq, Repr

/-- What the calls on the descriptor of a file answer: `metadata` and `readable`, and the lookup of
its path when it was visited. -/
structure Facts where
  metadata : Option FileMetadata
  readable : Bool
  lookup : Option FileMetadata
deriving DecidableEq, Repr

mutual

/-- A file that cannot be listed, or a file with what it lists. -/
inductive Node where
  | leaf (facts : Facts)
  | tree (facts : Facts) (entries : Entries)

/-- What `read_dir` lists: entries that cannot be read, names that are not UTF-8, names that cannot
be opened, and names of files. -/
inductive Entries where
  | nil
  | unreadable (rest : Entries)
  | unnamed (rest : Entries)
  | unopened (name : Text) (rest : Entries)
  | entry (name : Text) (child : Node) (rest : Entries)

end

/-- The answers for a file. -/
def Node.facts : Node → Facts
  | .leaf facts => facts
  | .tree facts _ => facts

/-- The bytes of a path that the system takes at most, with the terminating NUL. -/
def pathMax : Nat := 4096

/-- The length of a text in bytes. -/
def byteLength (t : Text) : Nat := (t.map Char.utf8Size).sum

/-- `symlink_metadata` of a path in a tree; a long path is refused. -/
def lookupMetadata (path : Text) (lookup : Option FileMetadata) : Option FileMetadata :=
  if byteLength path < pathMax then lookup else none

/-! ## Rows of the report -/

/-- `CoverageIssue`. -/
structure CoverageIssue where
  code : String
  path : Text
deriving DecidableEq, Repr

/-- `RootCoverage`. -/
structure RootCoverage where
  configuredPath : Text
  registeredPath : Text
  entriesChecked : Nat
  skippedSymlinks : Nat
  issues : List CoverageIssue
  omittedIssues : Nat
deriving DecidableEq, Repr

/-- `RootCoverage::issue`. -/
def RootCoverage.issue (row : RootCoverage) (code : String) (path : Text) : RootCoverage :=
  if row.issues.length < 32 then { row with issues := row.issues ++ [⟨code, path⟩] }
  else { row with omittedIssues := saturatingAdd row.omittedIssues 1 }

/-- A row without issues. -/
def RootCoverage.clean (row : RootCoverage) : Prop := row.issues = [] ∧ row.omittedIssues = 0

instance (row : RootCoverage) : Decidable row.clean := inferInstanceAs (Decidable (_ ∧ _))

/-- A row and the budget of the walk: the entries that are left, and the readings of the clock. -/
structure Walk where
  report : RootCoverage
  remaining : Nat
  readings : Nat

namespace Walk

/-- An issue of the row. -/
def issue (w : Walk) (code : String) (path : Text) : Walk :=
  { w with report := w.report.issue code path }

/-- The clock is read. -/
def tick (w : Walk) : Walk := { w with readings := w.readings + 1 }

/-- An entry is counted. -/
def count (w : Walk) : Walk :=
  { w with
    remaining := w.remaining - 1
    report := { w.report with entriesChecked := w.report.entriesChecked + 1 } }

/-- A link is counted. -/
def skip (w : Walk) : Walk :=
  { w with report := { w.report with skippedSymlinks := w.report.skippedSymlinks + 1 } }

/-- `Budget::take`. -/
def take (late : Nat → Bool) (path : Text) (w : Walk) : Bool × Walk :=
  if late w.readings then (false, w.tick.issue "scan_time_limit" path)
  else if w.remaining = 0 then (false, w.tick.issue "scan_limit" path)
  else (true, w.tick.count)

end Walk

/-- `MAX_DEPTH`. -/
def maxDepth : Nat := 64

/-- `visit_fd` up to the listing: the walk, and the metadata of the file if the visit goes on. -/
def enter (late : Nat → Bool) (facts : Facts) (path : Text) (depth : Nat) (w : Walk) :
    Walk × Option FileMetadata :=
  match w.take late path with
  | (false, w) => (w, none)
  | (true, w) =>
    match facts.metadata with
    | none => (w.issue "metadata_unavailable" path, none)
    | some found =>
      if found.kind = .symlink then (w.skip.issue "symlink_target_not_inspected" path, none)
      else if found.kind ≠ .regular ∧ found.kind ≠ .directory then
        (w.issue "nonregular_path_not_inspected" path, none)
      else if !facts.readable then (w.issue "read_access_denied" path, none)
      else if found.kind = .directory ∧ depth ≥ maxDepth then (w.issue "scan_depth_limit" path, none)
      else (w, some found)

/-- The end of `visit_fd`: a path that names another file now was replaced during the visit. -/
def settle (facts : Facts) (found : FileMetadata) (path : Text) (w : Walk) : Walk :=
  if (lookupMetadata path facts.lookup).map (·.identity) ≠ some found.identity then
    w.issue "path_changed_during_scan" path
  else w

/-- What the loop over the entries does before each of them: `true` if it goes on. -/
def nextEntry (late : Nat → Bool) (path : Text) (w : Walk) : Bool × Walk :=
  if w.remaining = 0 then (false, w.issue "scan_limit" path)
  else if late w.readings then (false, w.tick.issue "scan_time_limit" path)
  else (true, w.tick)

mutual

/-- `visit_fd`. -/
def visitFd (late : Nat → Bool) : Node → Text → Nat → Walk → Walk
  | .leaf facts, path, depth, w =>
    match enter late facts path depth w with
    | (w, none) => w
    | (w, some found) =>
      if found.kind = .directory then w.issue "directory_unreadable" path
      else settle facts found path w
  | .tree facts entries, path, depth, w =>
    match enter late facts path depth w with
    | (w, none) => w
    | (w, some found) =>
      if found.kind = .directory then settle facts found path (visitEntries late entries path depth w)
      else settle facts found path w

/-- The loop of `visit_fd` over the entries of a directory. -/
def visitEntries (late : Nat → Bool) : Entries → Text → Nat → Walk → Walk
  | .nil, _, _, w => w
  | .unreadable rest, path, depth, w =>
    match nextEntry late path w with
    | (false, w) => w
    | (true, w) =>
      visitEntries late rest path depth (w.count.issue "directory_entry_unreadable" path)
  | .unnamed rest, path, depth, w =>
    match nextEntry late path w with
    | (false, w) => w
    | (true, w) =>
      visitEntries late rest path depth (w.count.issue "non_utf8_path_not_inspected" path)
  | .unopened name rest, path, depth, w =>
    match nextEntry late path w with
    | (false, w) => w
    | (true, w) =>
      visitEntries late rest path depth (w.count.issue "metadata_unavailable" (joinPath path name))
  | .entry name child rest, path, depth, w =>
    match nextEntry late path w with
    | (false, w) => w
    | (true, w) =>
      visitEntries late rest path depth (visitFd late child (joinPath path name) (depth + 1) w)

end

/-! ## The inspection -/

/-- `SensorKind`. -/
inductive SensorKind where
  | notify
  | fanotify
deriving DecidableEq, Repr

/-- What the system answers: the resolved target and the metadata of a path, the file behind it when
it is opened, the list of mounts where it is read in full, and the name of the namespace. -/
structure World where
  canonicalize : Text → Option Text
  symlinkMetadata : Text → Option FileMetadata
  openTree : Text → Option Node
  mountinfo : Option Text
  mountNamespace : Option Text

/-- `read_mounts().ok()`. -/
def World.readMounts (w : World) : Option (List Mount) :=
  w.mountinfo.bind fun text => (parseMounts text).toOption

/-- `Registration`. -/
structure Registration where
  configured : Text
  canonical : Text
  identity : Identity
  mounts : Option (List Mount)
deriving DecidableEq

/-- `CoverageInspector`. -/
structure CoverageInspector where
  roots : List Registration
  sensor : SensorKind
  maxEntries : Nat
  markedMounts : List Nat
  mountNamespace : Option Text
deriving DecidableEq

/-- The registration of a path by `CoverageInspector::new`, whose current directory is `cwd`;
`later` is what the system answers a moment later. The errors of the system are named by the call.
-/
def register (cwd : Text) (w later : World) (path : Text) : Except String Registration :=
  let configured := if path.head? = some '/' then path else joinPath cwd path
  match w.canonicalize configured with
  | none => .error "canonicalize"
  | some canonical =>
    match w.symlinkMetadata canonical with
    | none => .error "symlink_metadata"
    | some found =>
      if found.kind = .symlink ∨ later.canonicalize configured ≠ some canonical then
        .error "coverage 기준 수집 중 경로가 변경되었습니다"
      else .ok ⟨configured, canonical, found.identity, w.readMounts.map (relevantMounts canonical)⟩

/-- `CoverageInspector::new`; `later` is what the system answers when the roots are registered. -/
def newInspector (cwd : Text) (w later : World) (paths : List Text) (sensor : SensorKind)
    (maxEntries : Nat) : Except String CoverageInspector :=
  if paths.isEmpty ∨ paths.length > 128 ∨ maxEntries < 1 ∨ maxEntries > 50000 then
    .error "coverage: 경로 1~128개, max_entries 1~50000 필요"
  else do
    let roots ← paths.mapM (register cwd w later)
    if w.mountNamespace ≠ later.mountNamespace ∨
        roots.any (fun r => decide (r.mounts ≠ later.readMounts.map (relevantMounts r.canonical))) then
      .error "coverage 기준 수집 중 마운트 정보가 변경되었습니다"
    else
      .ok {
        roots := roots
        sensor := sensor
        maxEntries := maxEntries
        markedMounts := roots.filterMap fun r =>
          (w.readMounts.bind (containingMount r.canonical)).map (·.id)
        mountNamespace := w.mountNamespace }

/-- The issues of a root that its mounts have. -/
def mountIssues (i : CoverageInspector) (w : World) (r : Registration) (row : RootCoverage) :
    RootCoverage :=
  match r.mounts, w.readMounts with
  | some before, some mounts =>
    let current := relevantMounts r.canonical mounts
    let row := if ambiguousMountScope current || ambiguousMountScope before then
      row.issue "mount_scope_ambiguous" r.canonical else row
    let row := if current ≠ before then row.issue "mount_topology_changed" r.canonical else row
    if i.sensor = .fanotify then
      (current.filter fun m => m.id ∉ i.markedMounts).foldl
        (fun row m => row.issue "fanotify_unmarked_mount" m.point) row
    else row
  | _, _ => row.issue "mount_topology_unknown" r.canonical

/-- The file behind a path is the one with an identity, and no link. -/
def sameFile (found : Option FileMetadata) (identity : Identity) : Bool :=
  match found with
  | some m => m.kind ≠ .symlink && m.identity = identity
  | none => false

/-- `scan_tree`. -/
def scanTree (late : Nat → Bool) (w : World) (r : Registration) (walk : Walk) : Walk :=
  match w.openTree r.canonical with
  | none => walk.issue "metadata_unavailable" r.canonical
  | some node =>
    if sameFile node.facts.metadata r.identity then visitFd late node r.canonical 0 walk
    else walk.issue "root_changed_during_scan" r.canonical

/-- The row of a root before its tree is walked. -/
def checkRoot (i : CoverageInspector) (w : World) (r : Registration) : RootCoverage :=
  let row : RootCoverage := ⟨r.configured, r.canonical, 0, 0, [], 0⟩
  let row := if w.canonicalize r.configured ≠ some r.canonical then
    row.issue "configured_target_changed_or_missing" r.configured else row
  let row := if !sameFile (w.symlinkMetadata r.canonical) r.identity then
    row.issue "registered_root_replaced_or_missing" r.canonical else row
  let row := if w.mountNamespace ≠ i.mountNamespace ∨ w.mountNamespace = none then
    row.issue "mount_namespace_changed_or_unknown" r.canonical else row
  mountIssues i w r row

/-- The body of the loop of `inspect` over the roots. -/
def inspectRoot (i : CoverageInspector) (late : Nat → Bool) (w later : World) (r : Registration)
    (remaining readings : Nat) : Walk :=
  let walk := scanTree late w r ⟨checkRoot i w r, remaining, readings⟩
  let walk := if !sameFile (later.symlinkMetadata r.canonical) r.identity then
    walk.issue "root_changed_during_scan" r.canonical else walk
  if later.canonicalize r.configured ≠ some r.canonical then
    walk.issue "configured_target_changed_during_scan" r.configured
  else walk

/-- The loop of `inspect` over the roots: their rows, and the readings of the clock. -/
def inspectRoots (i : CoverageInspector) (late : Nat → Bool) (w later : World) :
    List Registration → Nat → Nat → List RootCoverage × Nat
  | [], _, readings => ([], readings)
  | r :: rest, remaining, readings =>
    let walk := inspectRoot i late w later r remaining readings
    let (rows, readings) := inspectRoots i late w later rest walk.remaining walk.readings
    (walk.report :: rows, readings)

/-- The body of the loop of `inspect` over the rows. -/
def finishRow (late : Nat → Bool) (w later : World) (readings : Nat) (r : Registration)
    (row : RootCoverage) : RootCoverage :=
  let row := if late readings then row.issue "scan_time_limit" r.canonical else row
  if w.mountNamespace ≠ later.mountNamespace ∨
      w.readMounts.map (relevantMounts r.canonical) ≠
        later.readMounts.map (relevantMounts r.canonical) then
    row.issue "mounts_changed_during_scan" r.canonical
  else row

/-- The last loop of `inspect`, which reads the clock for each row. -/
def finishRows (late : Nat → Bool) (w later : World) :
    Nat → List (RootCoverage × Registration) → List RootCoverage
  | _, [] => []
  | readings, (row, r) :: rest =>
    finishRow late w later readings r row :: finishRows late w later (readings + 1) rest

/-- `CoverageReport`. -/
structure CoverageReport where
  checkedAtMs : Nat
  assessment : String
  mountNamespace : Option Text
  roots : List RootCoverage
  limitations : List String
deriving DecidableEq, Repr

/-- The limitations that every report states. -/
def limitations : List String :=
  ["등록 직후 기준과 현재 검사 결과의 비교입니다. 커널 watch 전체, 센서 등록과 기준 수집 사이 경합, 다른 컨테이너 감시를 증명하지 않습니다.",
    "읽기 전용 점검은 내용·쓰기 이벤트 전달을 확인하지 않습니다. 지정 경로의 이벤트 DB 도달은 별도 probe로 시험하세요.",
    "심볼릭 링크 대상은 탐색하지 않습니다. Linux 하위 순회는 FD와 O_NOFOLLOW를 사용하지만 전체 트리의 원자 스냅샷은 아니며 이동·교체·검사 사이 변화를 놓칠 수 있습니다.",
    "항목·깊이·검사 시간 예산을 제한합니다. 네트워크 파일시스템의 단일 커널 I/O가 멈추면 강제 중단할 수 없으므로 작업자의 결과 나이를 함께 확인하세요."]

/-- `CoverageReport::has_gap`. -/
def CoverageReport.hasGap (report : CoverageReport) : Bool :=
  report.assessment ≠ "no_observed_gap"

/-- `CoverageInspector::inspect`. -/
def inspect (i : CoverageInspector) (now : Nat) (late : Nat → Bool) (w later : World) :
    CoverageReport :=
  let (rows, readings) := inspectRoots i late w later i.roots i.maxEntries 0
  let rows := finishRows late w later readings (rows.zip i.roots)
  let gap := rows.any fun row => !row.issues.isEmpty || row.omittedIssues > 0
  { checkedAtMs := now
    assessment := if gap then "gap_or_incomplete" else "no_observed_gap"
    mountNamespace := w.mountNamespace
    roots := rows
    limitations := limitations }

end Argos.Sensor
