import Argos.Agent.Semantic
import Argos.Response.Isolate
import Argos.Sensor.Mounts

/-!
# The identity of a process

Two parsers read `/proc/<pid>/stat`: `parse_stat` of `argos-sensor/src/procmon.rs` when a process is
seen, and `process_identity_matches` of `argos-response/src/lib.rs` before it is killed. The text
holds the name of the process as it is, between parentheses, and the name is chosen by the process.

Both cut behind the last closing parenthesis, so they take the same field for the start time
(`startTicks_of_parseStat`). The fields behind the name have no parentheses, so the last one is that
of the name whatever the name is (`KernelStat.parseStat_render`).
-/

namespace Argos.Sensor

open Argos.Lib
open Argos.Agent (trimText)
open Argos.Response (parseUnsigned rsplitOnce splitWhitespace IpAddr.decimal)
open Argos.Vault (u64Max isWhitespace)

/-! ## The parser of the sensor -/

/-- `u32::MAX`. -/
def u32Max : Nat := 2 ^ 32 - 1

/-- `str::find` of a character, as a count of characters. -/
def findChar (c : Char) (t : Text) : Option Nat := t.findIdx? (· = c)

/-- `str::rfind` of a character, as a count of characters. -/
def rfindChar (c : Char) (t : Text) : Option Nat :=
  (t.reverse.findIdx? (· = c)).map fun i => t.length - 1 - i

/-- `ProcessStat`. -/
structure ProcessStat where
  ppid : Nat
  comm : Text
  startTimeTicks : Nat
deriving DecidableEq, Repr

/-- The error of `parse_stat`. -/
def invalidStat : String := "잘못된 /proc stat 형식"

/-- A value that is there, or the error of `parse_stat`. -/
def orInvalid {α : Type} : Option α → Except String α
  | some a => .ok a
  | none => .error invalidStat

/-- `parse_stat`. -/
def parseStat (stat : Text) (expectedPid : Nat) : Except String ProcessStat := do
  let start ← orInvalid (findChar '(' stat)
  let close ← orInvalid ((rfindChar ')' stat).filter fun close => close > start)
  let pid ← orInvalid (parseUnsigned u32Max (trimText (stat.take start)))
  if pid ≠ expectedPid then .error invalidStat
  else do
    let fields := splitWhitespace (stat.drop (close + 1))
    let ppid ← orInvalid (fields[1]?.bind (parseUnsigned u32Max))
    let startTimeTicks ← orInvalid (fields[19]?.bind (parseUnsigned u64Max))
    .ok ⟨ppid, (stat.drop (start + 1)).take (close - (start + 1)), startTimeTicks⟩

/-! ## The parser of the responder -/

/-- The start time that `process_identity_matches` reads. -/
def startTicks (stat : Text) : Option Nat :=
  (rsplitOnce ')' stat).bind fun parts =>
    (splitWhitespace parts.2)[19]?.bind (parseUnsigned u64Max)

/-- `process_identity_matches`, with the texts of `boot_id` and of `stat`, empty if they cannot be
read. -/
def processIdentityMatches (currentBoot stat : Text) (startTimeTicks : Nat) (bootId : Text) : Bool :=
  if bootId.isEmpty || startTimeTicks = 0 then false
  else trimText currentBoot = bootId && startTicks stat = some startTimeTicks

/-- `ResponseError`, without the reasons of the system. -/
inductive ResponseError where
  | unknownPid
  | protectedPid (pid : Nat)
  | signal (pid : Nat)
  | identityChanged (pid : Nat)
  | unconfirmed (pid : Nat)
deriving DecidableEq, Repr

/-- What the system answers to a kill: whether the process can be opened, its texts, whether the
signal can be sent, and whether its end is seen. -/
structure KillAnswers where
  opened : Bool
  currentBoot : Text
  stat : Text
  sent : Bool
  ended : Bool
deriving DecidableEq, Repr

/-- `execute` of a `KillProcessInstance`: whether the opened process is to be sent the signal, and
the result. -/
def executeInstance (own : Nat) (answers : KillAnswers) (pid startTimeTicks : Nat) (bootId : Text) :
    Bool × Except ResponseError Unit :=
  if pid = 0 then (false, .error .unknownPid)
  else if pid = 1 ∨ pid > 2 ^ 31 - 1 ∨ pid = own then (false, .error (.protectedPid pid))
  else if !answers.opened then (false, .error (.signal pid))
  else if !processIdentityMatches answers.currentBoot answers.stat startTimeTicks bootId then
    (false, .error (.identityChanged pid))
  else if !answers.sent then (true, .error (.signal pid))
  else if !answers.ended then (true, .error (.unconfirmed pid))
  else (true, .ok ())

/-! ## What the kernel writes -/

/-- A process as the kernel shows it: the fields behind the name are its state, the parent, 17 more,
the start time and any others. -/
structure KernelStat where
  pid : Nat
  name : Text
  state : Text
  ppid : Nat
  before : List Text
  startTime : Nat
  behind : List Text
deriving DecidableEq, Repr

namespace KernelStat

/-- The fields behind the name. -/
def fields (k : KernelStat) : List Text :=
  k.state :: IpAddr.decimal k.ppid :: (k.before ++ IpAddr.decimal k.startTime :: k.behind)

/-- The text of a process, with a line feed in the end. -/
def render (k : KernelStat) : Text :=
  IpAddr.decimal k.pid ++ (" (".toList ++ (k.name ++ (") ".toList ++
    (List.intercalate [' '] k.fields ++ ['\n']))))

/-- A process that the kernel can show: its numbers fit, and the other fields are words without
closing parentheses. The name is any text. -/
structure Valid (k : KernelStat) : Prop where
  pid : k.pid ≤ u32Max
  ppid : k.ppid ≤ u32Max
  startTime : k.startTime ≤ u64Max
  before : k.before.length = 17
  solid : ∀ f ∈ k.state :: (k.before ++ k.behind), f ≠ [] ∧ ∀ c ∈ f, isWhitespace c = false ∧ c ≠ ')'

end KernelStat

/-! ## The last parenthesis -/

theorem rfindChar_append {c : Char} {behind : Text} (h : c ∉ behind) (before : Text) :
    rfindChar c (before ++ c :: behind) = some before.length := by
  have hreverse : (before ++ c :: behind).reverse = behind.reverse ++ c :: before.reverse := by simp
  have hnone : behind.reverse.findIdx? (· = c) = none := by
    rw [List.findIdx?_eq_none_iff]
    intro x hx
    exact decide_eq_false fun heq => h (heq ▸ List.mem_reverse.1 hx)
  rw [rfindChar, hreverse, List.findIdx?_append, hnone, List.findIdx?_cons, decide_eq_true rfl]
  simp only [Option.none_or, if_true, Option.map_some, List.length_append, List.length_cons,
    List.length_reverse, Option.some.injEq]
  omega

theorem rsplitOnce_append {c : Char} {behind : Text} (h : c ∉ behind) (before : Text) :
    rsplitOnce c (before ++ c :: behind) = some (before, behind) := by
  have hreverse : (before ++ c :: behind).reverse = behind.reverse ++ c :: before.reverse := by simp
  have hne : ∀ x ∈ behind.reverse, decide (x ≠ c) = true :=
    fun x hx => decide_eq_true fun heq => h (heq ▸ List.mem_reverse.1 hx)
  rw [rsplitOnce, hreverse, Response.splitOnce, if_pos (by simp), List.takeWhile_append_of_pos hne,
    List.dropWhile_append_of_pos hne, List.takeWhile_cons_of_neg (by simp),
    List.dropWhile_cons_of_neg (by simp)]
  simp

/-- A text with a character is cut at the last one. -/
theorem exists_last {c : Char} {t : Text} (h : c ∈ t) : ∃ before behind, t = before ++ c :: behind ∧ c ∉ behind := by
  obtain ⟨before, behind, heq, hnot⟩ := List.eq_append_cons_of_mem (List.mem_reverse.2 h)
  refine ⟨behind.reverse, before.reverse, ?_, by simpa using hnot⟩
  rw [← List.reverse_reverse t, heq]
  simp

/-- What the responder reads is what the sensor has read of the same text. -/
theorem startTicks_of_parseStat {stat : Text} {pid : Nat} {found : ProcessStat}
    (h : parseStat stat pid = .ok found) : startTicks stat = some found.startTimeTicks := by
  unfold parseStat at h
  rcases hopen : findChar '(' stat with _ | start <;> rw [hopen] at h
  · cases h
  rcases hclose : (rfindChar ')' stat).filter (fun close => decide (close > start)) with _ | close <;>
    simp only [hclose, orInvalid, bind, Except.bind] at h
  · cases h
  have hlast := (Option.filter_eq_some_iff.1 hclose).1
  -- the text is cut at the same parenthesis by both
  obtain ⟨before, behind, rfl, hnot⟩ : ∃ before behind, stat = before ++ ')' :: behind ∧ ')' ∉ behind := by
    refine exists_last (by_contra fun hmem => ?_)
    have hnone : stat.reverse.findIdx? (· = ')') = none := by
      rw [List.findIdx?_eq_none_iff]
      intro x hx
      exact decide_eq_false fun heq => hmem (heq ▸ List.mem_reverse.1 hx)
    rw [rfindChar, hnone] at hlast
    cases hlast
  rw [rfindChar_append hnot, Option.some.injEq] at hlast
  have hdrop : (before ++ ')' :: behind).drop (close + 1) = behind := by
    rw [← hlast, ← List.drop_drop, List.drop_left]
    rfl
  rw [hdrop] at h
  rw [startTicks, rsplitOnce_append hnot, Option.bind_some]
  split at h
  · cases h
  split at h
  · cases h
  split at h
  · cases h
  split at h
  · cases h
  next hticks =>
    rw [← Except.ok.inj h]
    revert hticks
    rcases (splitWhitespace behind)[19]?.bind (parseUnsigned u64Max) with _ | ticks
    · intro hticks
      cases hticks
    · intro hticks
      rw [Except.ok.inj hticks]

/-! ## What the kernel writes is read back -/

theorem decimal_char {n : Nat} {c : Char} (h : c ∈ IpAddr.decimal n) :
    isWhitespace c = false ∧ c ≠ '(' ∧ c ≠ ')' := by
  have hdigit := Nat.isDigit_of_mem_toDigits (by decide) (by decide) h
  refine ⟨Response.solidChar_space (Response.IpAddr.digits_solid (by decide) (by decide) n c h), ?_, ?_⟩
  · rintro rfl
    exact absurd hdigit (by decide)
  · rintro rfl
    exact absurd hdigit (by decide)

namespace KernelStat

variable {k : KernelStat}

/-- The fields are words without closing parentheses. -/
theorem Valid.fields (h : k.Valid) :
    ∀ f ∈ k.fields, f ≠ [] ∧ ∀ c ∈ f, isWhitespace c = false ∧ c ≠ ')' := by
  have hdecimal : ∀ n, IpAddr.decimal n ≠ [] ∧ ∀ c ∈ IpAddr.decimal n, isWhitespace c = false ∧ c ≠ ')' :=
    fun n => ⟨Nat.toDigits_ne_nil, fun c hc => ⟨(decimal_char hc).1, (decimal_char hc).2.2⟩⟩
  intro f hf
  simp only [KernelStat.fields, List.mem_cons, List.mem_append] at hf
  rcases hf with rfl | rfl | hf | rfl | hf
  · exact h.solid _ List.mem_cons_self
  · exact hdecimal _
  · exact h.solid _ (List.mem_cons_of_mem _ (List.mem_append_left _ hf))
  · exact hdecimal _
  · exact h.solid _ (List.mem_cons_of_mem _ (List.mem_append_right _ hf))

/-- What is behind the name. -/
def rest (k : KernelStat) : Text := ' ' :: (List.intercalate [' '] k.fields ++ ['\n'])

theorem render_eq (k : KernelStat) :
    k.render = (IpAddr.decimal k.pid ++ (" (".toList ++ k.name)) ++ ')' :: k.rest := by
  simp [render, rest]

/-- The last closing parenthesis is that of the name. -/
theorem Valid.notMem_rest (h : k.Valid) : ')' ∉ k.rest := by
  intro hmem
  rcases List.mem_cons.1 hmem with heq | hmem
  · cases heq
  rcases List.mem_append.1 hmem with hmem | hmem
  · obtain heq | ⟨f, hf, hmem⟩ := mem_joinFields hmem
    · cases heq
    · exact ((h.fields f hf).2 _ hmem).2 rfl
  · exact absurd (List.mem_singleton.1 hmem) (by decide)

/-- The fields are the words behind the name. -/
theorem Valid.splitWhitespace_rest (h : k.Valid) : splitWhitespace k.rest = k.fields := by
  have hsolid : ∀ f ∈ k.fields, f ≠ [] ∧ ∀ c ∈ f, isWhitespace c = false :=
    fun f hf => ⟨(h.fields f hf).1, fun c hc => ((h.fields f hf).2 c hc).1⟩
  have hblank : ∀ c ∈ [' '], isWhitespace c = true := by decide
  unfold splitWhitespace rest
  rw [← List.singleton_append, words_breaks_append hblank, words_append_cons (by decide),
    words_intercalate hblank hsolid]
  exact List.append_nil _

theorem Valid.getElem?_fields (h : k.Valid) :
    k.fields[1]? = some (IpAddr.decimal k.ppid) ∧ k.fields[19]? = some (IpAddr.decimal k.startTime) := by
  refine ⟨rfl, ?_⟩
  change (k.before ++ IpAddr.decimal k.startTime :: k.behind)[17]? = _
  rw [List.getElem?_append_right h.before.le, h.before]
  rfl

/-- The first opening parenthesis is that of the name, and what is before it is the number. -/
theorem findChar_render (k : KernelStat) :
    findChar '(' k.render = some ((IpAddr.decimal k.pid).length + 1) ∧
      trimText (k.render.take ((IpAddr.decimal k.pid).length + 1)) = IpAddr.decimal k.pid := by
  have hform : k.render = (IpAddr.decimal k.pid ++ [' ']) ++ '(' :: (k.name ++ ')' :: k.rest) := by
    simp [render, rest]
  have hlength : (IpAddr.decimal k.pid ++ [' ']).length = (IpAddr.decimal k.pid).length + 1 := by simp
  constructor
  · have hnone : (IpAddr.decimal k.pid ++ [' ']).findIdx? (· = '(') = none := by
      rw [List.findIdx?_eq_none_iff]
      intro c hc
      refine decide_eq_false fun heq => ?_
      rcases List.mem_append.1 hc with hc | hc
      · exact (decimal_char hc).2.1 heq
      · rw [heq] at hc
        exact absurd hc (by decide)
    rw [findChar, hform, List.findIdx?_append, hnone, List.findIdx?_cons, decide_eq_true rfl, ← hlength]
    simp
  · have hsolid : ∀ c ∈ IpAddr.decimal k.pid, isWhitespace c = false := fun c hc => (decimal_char hc).1
    obtain ⟨first, others, hcons⟩ := List.exists_cons_of_ne_nil
      (show IpAddr.decimal k.pid ≠ [] from Nat.toDigits_ne_nil)
    obtain ⟨last, more, hlast⟩ := List.exists_cons_of_ne_nil
      (show (IpAddr.decimal k.pid).reverse ≠ [] from fun h => Nat.toDigits_ne_nil (List.reverse_eq_nil_iff.1 h))
    have hfirst : isWhitespace first = false := hsolid first (hcons ▸ List.mem_cons_self)
    have hend : isWhitespace last = false :=
      hsolid last (List.mem_reverse.1 (hlast ▸ List.mem_cons_self))
    rw [hform, ← hlength, List.take_left, trimText, hcons, List.cons_append,
      List.dropWhile_cons_of_neg (by rw [hfirst]; exact Bool.false_ne_true), ← List.cons_append, ← hcons,
      List.reverse_append, List.reverse_singleton, List.singleton_append,
      List.dropWhile_cons_of_pos (by decide), hlast,
      List.dropWhile_cons_of_neg (by rw [hend]; exact Bool.false_ne_true), ← hlast, List.reverse_reverse]

/-- Both parsers read what the kernel shows, whatever the name is. -/
theorem Valid.parseStat_render (h : k.Valid) :
    parseStat k.render k.pid = .ok ⟨k.ppid, k.name, k.startTime⟩ ∧
      startTicks k.render = some k.startTime := by
  obtain ⟨hopen, htrim⟩ := findChar_render k
  obtain ⟨hppid, hstart⟩ := h.getElem?_fields
  have hclose := rfindChar_append h.notMem_rest (IpAddr.decimal k.pid ++ (" (".toList ++ k.name))
  have hlength : (IpAddr.decimal k.pid ++ (" (".toList ++ k.name)).length =
      (IpAddr.decimal k.pid).length + 2 + k.name.length := by
    simp
    omega
  rw [← render_eq, hlength] at hclose
  have hdrop : k.render.drop ((IpAddr.decimal k.pid).length + 2 + k.name.length + 1) = k.rest := by
    rw [render_eq, ← hlength, ← List.drop_drop, List.drop_left]
    rfl
  have hname : (k.render.drop ((IpAddr.decimal k.pid).length + 1 + 1)).take
      ((IpAddr.decimal k.pid).length + 2 + k.name.length - ((IpAddr.decimal k.pid).length + 1 + 1)) =
        k.name := by
    have hform : k.render = (IpAddr.decimal k.pid ++ " (".toList) ++ (k.name ++ ')' :: k.rest) := by
      simp [render, rest]
    rw [hform, List.drop_left' (by simp), List.take_left' (by omega)]
  constructor
  · have hbehind : (some ((IpAddr.decimal k.pid).length + 2 + k.name.length)).filter
        (fun close => decide (close > (IpAddr.decimal k.pid).length + 1)) =
          some ((IpAddr.decimal k.pid).length + 2 + k.name.length) := by
      rw [Option.filter_some, if_pos (decide_eq_true (by omega))]
    unfold parseStat
    rw [hopen, hclose]
    simp only [orInvalid, bind, Except.bind, hbehind, htrim, Response.parseUnsigned_decimal h.pid, ne_eq,
      not_true_eq_false, if_false, hdrop, h.splitWhitespace_rest, hppid, hstart, Option.bind_some,
      Response.parseUnsigned_decimal h.ppid, Response.parseUnsigned_decimal h.startTime, hname]
  · rw [startTicks, render_eq, rsplitOnce_append h.notMem_rest, Option.bind_some, h.splitWhitespace_rest,
      hstart, Option.bind_some, Response.parseUnsigned_decimal h.startTime]

end KernelStat

/-- A process is sent the signal if it may be killed, can be opened and is the one that was asked
for. -/
theorem executeInstance_sends {own pid startTimeTicks : Nat} {answers : KillAnswers} {bootId : Text} :
    (executeInstance own answers pid startTimeTicks bootId).1 = true ↔
      1 < pid ∧ pid < 2 ^ 31 ∧ pid ≠ own ∧ answers.opened = true ∧
        processIdentityMatches answers.currentBoot answers.stat startTimeTicks bootId = true := by
  unfold executeInstance
  split_ifs with hzero hprotected hopened hmatches hsent hended
  · exact ⟨(fun h => by cases h), fun h => by omega⟩
  · exact ⟨(fun h => by cases h), fun h => by omega⟩
  · rw [Bool.not_eq_true'] at hopened
    simp [hopened]
  · rw [Bool.not_eq_true'] at hmatches
    simp [hmatches]
  all_goals
    simp only [Bool.not_eq_true', Bool.not_eq_false] at hopened hmatches
    exact ⟨fun _ => ⟨by omega, by omega, by omega, hopened, hmatches⟩, fun _ => rfl⟩

/-- The responder reads the start time that the sensor has read, of any text. Of what the kernel
shows of a process, both read its name, its parent and its start time, whatever the name is; and a
process that can be opened is sent the signal exactly when its start time and the boot are those
that were asked for. -/
theorem same_identity :
    (∀ stat pid found, parseStat stat pid = .ok found → startTicks stat = some found.startTimeTicks) ∧
    ∀ k : KernelStat, k.Valid →
      parseStat k.render k.pid = .ok ⟨k.ppid, k.name, k.startTime⟩ ∧
      startTicks k.render = some k.startTime ∧
      ∀ own (answers : KillAnswers) startTimeTicks bootId, answers.stat = k.render →
        ((executeInstance own answers k.pid startTimeTicks bootId).1 = true ↔
          1 < k.pid ∧ k.pid < 2 ^ 31 ∧ k.pid ≠ own ∧ answers.opened = true ∧ bootId ≠ [] ∧
            startTimeTicks ≠ 0 ∧ trimText answers.currentBoot = bootId ∧ startTimeTicks = k.startTime) := by
  refine ⟨fun stat pid found => startTicks_of_parseStat, fun k h => ?_⟩
  obtain ⟨hparse, hticks⟩ := h.parseStat_render
  refine ⟨hparse, hticks, fun own answers startTimeTicks bootId hstat => ?_⟩
  have hmatches : processIdentityMatches answers.currentBoot answers.stat startTimeTicks bootId = true ↔
      bootId ≠ [] ∧ startTimeTicks ≠ 0 ∧ trimText answers.currentBoot = bootId ∧
        startTimeTicks = k.startTime := by
    unfold processIdentityMatches
    rw [hstat, hticks]
    split_ifs with hempty
    · simp only [Bool.or_eq_true, List.isEmpty_iff, decide_eq_true_eq] at hempty
      exact ⟨(fun hfalse => by cases hfalse), fun hall => absurd hempty (by tauto)⟩
    · simp only [Bool.or_eq_true, List.isEmpty_iff, decide_eq_true_eq, not_or] at hempty
      simp only [Bool.and_eq_true, decide_eq_true_eq, Option.some.injEq]
      rw [eq_comm (a := k.startTime)]
      tauto
  rw [executeInstance_sends, hmatches]

/-- A name that looks like the end of a name and the fields behind it. -/
def forgedStat : KernelStat :=
  ⟨42, "job) S 1 (\n)".toList, "S".toList, 17, List.replicate 17 "0".toList, 987654, ["0".toList]⟩

theorem forgedStat_valid : forgedStat.Valid :=
  ⟨by decide, by decide, by decide, by decide, by decide⟩

/-- The forged name is read as a name. -/
theorem same_identity_forged :
    parseStat forgedStat.render 42 = .ok ⟨17, "job) S 1 (\n)".toList, 987654⟩ ∧
      startTicks forgedStat.render = some 987654 :=
  ⟨(same_identity.2 forgedStat forgedStat_valid).1, (same_identity.2 forgedStat forgedStat_valid).2.1⟩

end Argos.Sensor
