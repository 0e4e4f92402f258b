import Argos.Common.Event
import Argos.Vault.Checks

/-!
# The configuration of the detection

The detection and response sections of `argos-common/src/config.rs`, paths as `std::path` compares
them, and `validate_configuration` of `argos-detect/src/lib.rs`, which names everything that is wrong
in a configuration. Its warnings are left out.
-/

namespace Argos.Detect

open Argos.Common
open Argos.Vault (blank)

/-! ## Paths -/

/-- `Component`. -/
inductive Component where
  | rootDir
  | curDir
  | parentDir
  | normal (name : List Char)
deriving DecidableEq, Repr

/-- A part of a path between separators; a `.` counts at the start of a path only. -/
def component (first : Bool) (part : List Char) : Option Component :=
  if part = [] then none
  else if part = ['.'] then (if first then some .curDir else none)
  else if part = ['.', '.'] then some .parentDir
  else some (.normal part)

/-- `Path::is_absolute`. -/
def isAbsolute (path : String) : Bool := path.toList.head? = some '/'

/-- `Path::components`. -/
def components (path : String) : List Component :=
  match path.toList.splitOn '/' with
  | [] => []
  | part :: rest =>
    (if isAbsolute path then [.rootDir] else (component true part).toList) ++
      rest.filterMap (component false)

/-- `Path::starts_with`. -/
def startsWith (path base : String) : Bool := (components base).isPrefixOf (components path)

/-- `Path::eq`. -/
def samePath (path other : String) : Bool := components path = components other

/-- `path.file_name().is_some()`. -/
def hasFileName (path : String) : Bool :=
  match (components path).getLast? with
  | some (.normal _) => true
  | _ => false

/-- `absolute_clean_path`. -/
def absoluteCleanPath (path : String) : Bool :=
  isAbsolute path && (components path).all (· ≠ .parentDir)

example : startsWith "/data//deploy/./a" "/data/deploy/" = true ∧
    startsWith "/data/deploy-secret" "/data/deploy" = false ∧
    absoluteCleanPath "/data/../etc" = false := by decide

/-! ## Sections -/

/-- `SensorKind`. -/
inductive SensorKind where
  | notify
  | fanotify
deriving DecidableEq, Repr

/-- `DetectionWindow`. -/
structure DetectionWindow where
  windowSecs : Nat
  minChangedFiles : Nat
  massChangeThreshold : Nat
  detectScore : Number
deriving DecidableEq, Repr

/-- `MultiWindowConfig`. -/
structure MultiWindowConfig where
  enabled : Bool
  windows : List DetectionWindow
  protectedPaths : List String
  aggregateByUser : Bool
  aggregateByAncestry : Bool
  maxEvents : Nat
  maxGroups : Nat
  maxPathBytes : Nat
deriving DecidableEq, Repr

/-- `ContentSamplingConfig`. -/
structure ContentSamplingConfig where
  enabled : Bool
  totalBytes : Nat
  maxFiles : Nat
  historySecs : Nat
  minEntropyIncrease : Number
deriving DecidableEq, Repr

/-- `ApprovedChange`. -/
structure ApprovedChange where
  id : String
  validFromMs : Nat
  validUntilMs : Nat
  paths : List String
  exe : String
  uid : Nat
  adjustedRules : List String
deriving DecidableEq, Repr

/-- `DetectionConfig`. -/
structure DetectionConfig where
  windowSecs : Nat
  massChangeThreshold : Nat
  minChangedFiles : Nat
  entropyThreshold : Number
  detectScore : Number
  entropySampleBytes : Nat
  excludePaths : List String
  approvedChanges : List ApprovedChange
  canaryPaths : List String
  multiWindow : MultiWindowConfig
  contentSampling : ContentSamplingConfig
deriving DecidableEq, Repr

/-- `ResponseConfig`. -/
structure ResponseConfig where
  autoBlock : Bool
  blockScore : Number
deriving DecidableEq, Repr

/-- `MultiWindowConfig::default`. -/
def MultiWindowConfig.default : MultiWindowConfig where
  enabled := false
  windows := [⟨10, 5, 30, .finite 65⟩, ⟨60, 8, 40, .finite 65⟩, ⟨600, 12, 60, .finite 65⟩]
  protectedPaths := []
  aggregateByUser := true
  aggregateByAncestry := true
  maxEvents := 10000
  maxGroups := 2048
  maxPathBytes := 4096

/-- `ContentSamplingConfig::default`. -/
def ContentSamplingConfig.default : ContentSamplingConfig where
  enabled := false
  totalBytes := 64 * 1024
  maxFiles := 2048
  historySecs := 600
  minEntropyIncrease := .finite 1

/-- `DetectionConfig::default`. -/
def DetectionConfig.default : DetectionConfig where
  windowSecs := 10
  massChangeThreshold := 30
  minChangedFiles := 5
  entropyThreshold := .finite (36 / 5)
  detectScore := .finite 40
  entropySampleBytes := 64 * 1024
  excludePaths := []
  approvedChanges := []
  canaryPaths := []
  multiWindow := .default
  contentSampling := .default

/-- `ResponseConfig::default`. -/
def ResponseConfig.default : ResponseConfig where
  autoBlock := false
  blockScore := .finite 80

/-! ## Rules -/

/-- `BEHAVIOR_RULE`. -/
def behaviorRule : String := "behavior.ransomware_pattern"

/-- `CANARY_RULE`. -/
def canaryRule : String := "behavior.canary_tamper"

/-- `INSTANCE_RULE`. -/
def instanceRule : String := "behavior.multi_window.instance"

/-- `USER_RULE`. -/
def userRule : String := "behavior.multi_window.user_path"

/-- `PATH_RULE`. -/
def pathRule : String := "behavior.multi_window.protected_path"

/-- `ANCESTOR_RULE`. -/
def ancestorRule : String := "behavior.multi_window.ancestor"

/-- `multi_window::RULES`. -/
def multiWindowRules : List String := [instanceRule, userRule, pathRule, ancestorRule]

/-! ## Validation -/

/-- `u64::MAX`. -/
def u64Max : Nat := 2 ^ 64 - 1

/-- `entropy::MAX_SAMPLE_BYTES`. -/
def maxSampleBytes : Nat := 1024 * 1024

/-- An error, when something is wrong. -/
def complain (wrong : Bool) (text : String) : List String := if wrong then [text] else []

/-- What is wrong with an approved change, given the ids of those before it. -/
def changeErrors (seen : List String) (change : ApprovedChange) : List String :=
  complain (blank change.id || seen.contains change.id)
    "승인 작업 ID는 비어 있지 않고 중복되지 않아야 합니다" ++
  complain (change.validUntilMs ≤ change.validFromMs)
    "승인 작업의 종료 시각은 시작 시각보다 커야 합니다" ++
  complain (change.paths.isEmpty || change.paths.any (fun path => !absoluteCleanPath path) ||
      !absoluteCleanPath change.exe || !hasFileName change.exe)
    "승인 작업의 경로와 실행 파일은 .. 없는 절대 경로여야 합니다" ++
  complain (change.adjustedRules.isEmpty || change.adjustedRules.any (fun rule =>
      rule ≠ behaviorRule && !multiWindowRules.contains rule))
    "승인 작업은 지원하는 행위·다중 시간창 룰만 조정할 수 있습니다"

/-- What is wrong with the approved changes. -/
def approvalErrors (seen : List String) : List ApprovedChange → List String
  | [] => []
  | change :: rest => changeErrors seen change ++ approvalErrors (change.id :: seen) rest

/-- What is wrong with one of the windows alone. -/
def windowWrong (window : DetectionWindow) : Bool :=
  window.windowSecs = 0 || window.windowSecs > 86400 || window.minChangedFiles = 0 ||
    window.massChangeThreshold = 0 || !window.detectScore.isFinite ||
    !Number.inRange 0 100 window.detectScore

/-- What is wrong with the windows. -/
def multiWindowErrors (multi : MultiWindowConfig) : List String :=
  complain (multi.maxEvents = 0 || multi.maxEvents > 100000 || multi.maxGroups = 0 ||
      multi.maxGroups > 16384 || multi.maxPathBytes < 64 || multi.maxPathBytes > 4096)
    "탐지 메모리 한도는 events 1~100000, groups 1~16384, path bytes 64~4096 범위여야 합니다" ++
  if multi.enabled then
    complain (multi.windows.isEmpty || multi.windows.length > 8 || multi.windows.any windowWrong ||
        !decide (multi.windows.map (·.windowSecs)).Nodup)
      "다중 시간창은 중복 없는 1~86400초의 최대 8개 창과 양의 파일 수·유효 점수가 필요합니다" ++
    complain (multi.protectedPaths.length > 128 || multi.protectedPaths.any (fun path =>
        !absoluteCleanPath path || path.utf8ByteSize > multi.maxPathBytes))
      "집계 보호 경로는 최대 128개의 길이 제한 내 절대 경로여야 합니다"
  else []

/-- What is wrong with the sampling of contents. -/
def samplingErrors (sampling : ContentSamplingConfig) : List String :=
  complain (sampling.enabled && (sampling.totalBytes < 3 || sampling.totalBytes > maxSampleBytes ||
      sampling.maxFiles = 0 || sampling.maxFiles > 65536 || sampling.historySecs = 0 ||
      sampling.historySecs > 86400 || !sampling.minEntropyIncrease.isFinite ||
      !Number.inRange 0 8 sampling.minEntropyIncrease))
    "내용 관찰은 총 3바이트~1MiB, 1~65536개 이력, 1~86400초와 0~8의 엔트로피 증가 기준이 필요합니다"

/-- What is wrong with a configuration. -/
def configurationErrors (detection : DetectionConfig) (response : ResponseConfig) : List String :=
  approvalErrors [] detection.approvedChanges ++ multiWindowErrors detection.multiWindow ++
  samplingErrors detection.contentSampling ++
  complain (detection.canaryPaths.any fun path => !absoluteCleanPath path || !hasFileName path)
    "미끼 파일은 .. 없는 절대 파일 경로로 지정해야 합니다" ++
  complain (detection.windowSecs = 0 || detection.windowSecs * 1000 > u64Max)
    "detection.window_secs는 밀리초로 변환 가능한 양수여야 합니다" ++
  complain (detection.massChangeThreshold = 0 || detection.minChangedFiles = 0)
    "변경 파일 수 임계치는 1 이상이어야 합니다" ++
  complain (!detection.entropyThreshold.isFinite || !Number.inRange 0 8 detection.entropyThreshold)
    "detection.entropy_threshold는 0~8의 유한한 값이어야 합니다" ++
  complain (!detection.detectScore.isFinite || Number.le detection.detectScore (.finite 0))
    "detection.detect_score는 유한한 양수여야 합니다" ++
  complain (!response.blockScore.isFinite || Number.le response.blockScore (.finite 0))
    "response.block_score는 유한한 양수여야 합니다"

/-- `validate_configuration`. -/
def validateConfiguration (detection : DetectionConfig) (response : ResponseConfig) :
    Except String Unit :=
  if configurationErrors detection response = [] then .ok ()
  else .error ("; ".intercalate (configurationErrors detection response))

theorem complain_eq_nil {wrong : Bool} {text : String} : complain wrong text = [] ↔ wrong = false := by
  cases wrong
  · exact iff_of_true rfl rfl
  · exact iff_of_false (List.cons_ne_nil _ _) (by simp)

theorem validateConfiguration_ok {detection : DetectionConfig} {response : ResponseConfig} :
    validateConfiguration detection response = .ok () ↔ configurationErrors detection response = [] := by
  unfold validateConfiguration
  split <;> simp_all

/-- The defaults pass the validation. -/
theorem validateConfiguration_default :
    validateConfiguration .default .default = .ok () :=
  validateConfiguration_ok.2 (by decide +kernel)

end Argos.Detect
