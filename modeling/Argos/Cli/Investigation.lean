import Argos.Lib.Words
import Argos.Response.Address
import Argos.Vault.Checks

/-!
# The period that a question asks about

`time_range` of `argos-cli/src/investigation.rs` finds the period of a question in free text, in Korean
or English, when no bounds are given. It looks for one of the words `지난`, `최근` and `last` and reads
the number and the unit behind it; without one of them it takes the last 24 hours. Some other texts
make it refuse.

A question may name a period elsewhere. `timeRange_covers` says exactly when the range goes back as far
as every period that the question names, and when a refusal asks for explicit bounds.

`str::to_lowercase` is taken with the lower case of the characters outside of ASCII as a parameter;
nothing depends on it.
-/

namespace Argos.Cli

open Argos.Lib
open Argos.Response (parseUnsigned)
open Argos.Vault (isWhitespace u64Max)

/-! ## Texts -/

/-- `split_once` at a text: what is before its first occurrence, and what is behind. -/
def splitOnceAt (word : Text) : Text → Option (Text × Text)
  | [] => none
  | c :: t =>
    if word.isPrefixOf (c :: t) then some ([], (c :: t).drop word.length)
    else (splitOnceAt word t).map fun parts => (c :: parts.1, parts.2)

/-- `contains`. -/
def containsText (word t : Text) : Bool := (splitOnceAt word t).isSome

/-- `matches(..).count()`: the occurrences that do not overlap, with the number of characters that
belong to the occurrence before. -/
def countMatches (word : Text) : Nat → Text → Nat
  | _, [] => 0
  | 0, c :: t =>
    if word.isPrefixOf (c :: t) then countMatches word (word.length - 1) t + 1
    else countMatches word 0 t
  | skip + 1, _ :: t => countMatches word skip t

/-- `is_ascii_digit`. -/
def isAsciiDigit (c : Char) : Bool := '0' ≤ c && c ≤ '9'

/-- The question without white space. -/
def compactText (question : Text) : Text := question.filter fun c => !isWhitespace c

section TimeRange

variable (foreign : Char → Text)

/-- `to_lowercase`. -/
def toLowercase (question : Text) : Text :=
  question.flatMap fun c => if c.toNat < 128 then [c.toLower] else foreign c

/-! ## `time_range` -/

/-- An hour, a minute and a day in milliseconds. -/
def hourMs : Nat := 3600000

def minuteMs : Nat := 60000

def dayMs : Nat := 86400000

/-- The unit at the beginning of a text, in Korean. -/
def koreanUnit (t : Text) : Option Nat :=
  if "시간".toList.isPrefixOf t then some hourMs
  else if "분".toList.isPrefixOf t then some minuteMs
  else if "일".toList.isPrefixOf t then some dayMs
  else none

/-- The unit at the beginning of a text, in English. -/
def englishUnit (t : Text) : Option Nat :=
  if "hour".toList.isPrefixOf t then some hourMs
  else if "minute".toList.isPrefixOf t then some minuteMs
  else if "day".toList.isPrefixOf t then some dayMs
  else none

/-- The product of a number and a unit, when it is positive and fits. -/
def checkedPeriod (n multiplier : Nat) : Except String Nat :=
  if n * multiplier ≤ u64Max ∧ 0 < n * multiplier then .ok (n * multiplier)
  else .error "조회 기간이 너무 크거나 0입니다"

/-- The period behind `지난` or `최근`. -/
def koreanPeriod (suffix : Text) : Except String Nat :=
  match parseUnsigned u64Max (suffix.takeWhile isAsciiDigit) with
  | none => .error "기간을 해석할 수 없습니다. --from-ms/--to-ms를 지정하세요"
  | some n =>
    match koreanUnit (suffix.dropWhile isAsciiDigit) with
    | none => .error "지원 기간: 지난 N시간/N분/N일; 또는 --from-ms/--to-ms"
    | some multiplier => checkedPeriod n multiplier

/-- The period behind `last`. -/
def englishPeriod (suffix : Text) : Except String Nat :=
  let found := words isWhitespace suffix
  match parseUnsigned u64Max (found[0]?.getD []) with
  | none => .error "기간은 last N hours/minutes/days 또는 명시적 시각을 사용하세요"
  | some n =>
    match englishUnit (found[1]?.getD []) with
    | none => .error "지원하지 않는 기간입니다. --from-ms/--to-ms를 지정하세요"
    | some multiplier => checkedPeriod n multiplier

/-- The text behind the first `지난`, or else the first `최근`, of a question without white space. -/
def koreanSuffix (compact : Text) : Option Text :=
  ((splitOnceAt "지난".toList compact).or (splitOnceAt "최근".toList compact)).map (·.2)

/-- The text behind the first `last` of a question in lower case. -/
def englishSuffix (lower : Text) : Option Text := (splitOnceAt "last ".toList lower).map (·.2)

/-- The period that is read from the question, if there is a word for it. -/
def duration (compact lower : Text) : Except String (Option Nat) :=
  match koreanSuffix compact with
  | some suffix => (koreanPeriod suffix).map some
  | none =>
    match englishSuffix lower with
    | some suffix => (englishPeriod suffix).map some
    | none => .ok none

/-- How often a question has one of the words for a period. -/
def temporalCount (compact lower : Text) : Nat :=
  countMatches "지난".toList 0 compact + countMatches "최근".toList 0 compact +
    countMatches "last ".toList 0 lower

/-- The words of the calendar that are refused. -/
def calendarWords : List Text :=
  ["어제".toList, "오늘".toList, "주간".toList, "주일".toList, "이번".toList, "yesterday".toList,
    "today".toList, "since".toList]

/-- The words that are refused when no period was read. -/
def looksTemporal (compact lower : Text) : Bool :=
  containsText "시간".toList compact || containsText "지난".toList compact ||
    containsText "최근".toList compact || containsText "hour".toList lower ||
    containsText "minute".toList lower || containsText "days".toList lower ||
    containsText "last".toList lower

/-- `time_range`. -/
def timeRange (question : Text) (fromMs toMs : Option Nat) (now : Nat) :
    Except String (Nat × Nat × String) :=
  if fromMs.isSome || toMs.isSome then
    match fromMs, toMs with
    | some fromMs, some toMs =>
      if fromMs > toMs || toMs > 2^63 - 1 then .error "잘못된 조회 구간입니다"
      else .ok (fromMs, toMs, "명시한 구간")
    | _, _ => .error "--from-ms와 --to-ms를 함께 지정하세요"
  else
    let compact := compactText question
    let lower := toLowercase foreign question
    if temporalCount compact lower > 1 then
      .error "여러 기간이 포함되어 있습니다. --from-ms/--to-ms로 조회 구간을 지정하세요"
    else match duration compact lower with
      | .error e => .error e
      | .ok found =>
        if calendarWords.any fun word => containsText word lower then
          .error "달력 기준 기간은 --from-ms/--to-ms로 지정하세요"
        else if found.isNone && looksTemporal compact lower then
          .error "기간을 안전하게 해석할 수 없습니다. --from-ms/--to-ms를 지정하세요"
        else .ok (now - found.getD dayMs, now,
          if found.isSome then "질문에서 해석한 구간" else "기본 최근 24시간")

/-! ## The periods that a question names -/

/-- The unit at the beginning of a text, in either language. -/
def unitAt (t : Text) : Option Nat := (koreanUnit t).or (englishUnit t)

/-- The value of decimal digits. -/
def numberOf (digits : Text) : Nat := Nat.ofDigitChars 10 digits 0

/-- The period at the beginning of a text: a decimal number, white space and a unit. -/
def mentionAt (t : Text) : Option Nat :=
  if t.takeWhile isAsciiDigit = [] then none
  else (unitAt ((t.dropWhile isAsciiDigit).dropWhile isWhitespace)).map
    (numberOf (t.takeWhile isAsciiDigit) * ·)

/-- The periods that are named anywhere in a text, in milliseconds. -/
def mentions : Text → List Nat
  | [] => []
  | c :: t => (mentionAt (c :: t)).toList ++ mentions t

/-- The periods that a question names; English units in either case. -/
def namedPeriods (question : Text) : List Nat := mentions (question.map Char.toLower)

/-- Right behind the first word for a period, a question has the number `n` and a unit of `u`
milliseconds. -/
inductive Asks (question : Text) (n u : Nat) : Prop where
  | korean {suffix : Text} (word : koreanSuffix (compactText question) = some suffix)
      (number : parseUnsigned u64Max (suffix.takeWhile isAsciiDigit) = some n)
      (unit : koreanUnit (suffix.dropWhile isAsciiDigit) = some u)
  | english {suffix : Text} (none : koreanSuffix (compactText question) = none)
      (word : englishSuffix (toLowercase foreign question) = some suffix)
      (number : parseUnsigned u64Max ((words isWhitespace suffix)[0]?.getD []) = some n)
      (unit : englishUnit ((words isWhitespace suffix)[1]?.getD []) = some u)

/-- A question has no word for a period. -/
def Plain (question : Text) : Prop :=
  koreanSuffix (compactText question) = none ∧ englishSuffix (toLowercase foreign question) = none

/-- No period that a question names is longer than the one behind the word for a period, or than a day
if there is no such word, unless that one reaches back to the beginning. -/
def Covered (question : Text) (now : Nat) : Prop :=
  (∀ n u, Asks foreign question n u → ∀ m ∈ namedPeriods question, m ≤ n * u ∨ now ≤ n * u) ∧
    (Plain foreign question → ∀ m ∈ namedPeriods question, m ≤ dayMs ∨ now ≤ dayMs)

/-- The one period that a question asks about is zero or does not fit. -/
def OutOfRange (question : Text) : Prop :=
  temporalCount (compactText question) (toLowercase foreign question) ≤ 1 ∧
    ∃ n u, Asks foreign question n u ∧ (n * u = 0 ∨ u64Max < n * u)

/-- A question has at most one word for a period and no word of the calendar, and what is behind the
word is a period; without such a word, nothing else in the question looks like one. -/
def Answered (question : Text) : Prop :=
  temporalCount (compactText question) (toLowercase foreign question) ≤ 1 ∧
    (calendarWords.any fun word => containsText word (toLowercase foreign question)) = false ∧
    ((∃ n u, Asks foreign question n u) ∨ Plain foreign question ∧
      looksTemporal (compactText question) (toLowercase foreign question) = false)

/-- An error names the options for explicit bounds, or asks for explicit times. -/
def asksForBounds (e : String) : Bool :=
  containsText "--from-ms".toList e.toList || containsText "명시적 시각".toList e.toList

/-- A range ends now and goes back as far as every period that the question names, and an error asks for
explicit bounds. -/
def NotNarrowed (question : Text) (now : Nat) : Except String (Nat × Nat × String) → Prop
  | .ok (fromMs, toMs, _) => toMs = now ∧ ∀ m ∈ namedPeriods question, fromMs ≤ now - m
  | .error e => asksForBounds e = true

/-! ## What is read -/

variable {foreign} {question : Text}

theorem checkedPeriod_ok {n u d : Nat} (h : checkedPeriod n u = .ok d) :
    d = n * u ∧ n * u ≠ 0 ∧ n * u ≤ u64Max := by
  unfold checkedPeriod at h
  split_ifs at h with hfits
  exact ⟨(Except.ok.inj h).symm, by omega, hfits.1⟩

/-- Nothing else stands behind the word for a period. -/
theorem Asks.unique {n u n' u' : Nat} (h : Asks foreign question n u)
    (h' : Asks foreign question n' u') : n = n' ∧ u = u' := by
  cases h with
  | korean word number unit =>
    cases h' with
    | korean word' number' unit' =>
      obtain rfl := Option.some.inj (word.symm.trans word')
      exact ⟨Option.some.inj (number.symm.trans number'), Option.some.inj (unit.symm.trans unit')⟩
    | english none' => rw [none'] at word; cases word
  | english none word number unit =>
    cases h' with
    | korean word' => rw [none] at word'; cases word'
    | english none' word' number' unit' =>
      obtain rfl := Option.some.inj (word.symm.trans word')
      exact ⟨Option.some.inj (number.symm.trans number'), Option.some.inj (unit.symm.trans unit')⟩

/-- The outcomes of the reading: no word for a period, a period, or an error; and the error of a period
that is zero or does not fit is the only one that does not ask for bounds. -/
theorem duration_cases (foreign : Char → Text) (question : Text) :
    (Plain foreign question ∧
      duration (compactText question) (toLowercase foreign question) = .ok none) ∨
    (∃ n u, Asks foreign question n u ∧
      duration (compactText question) (toLowercase foreign question) =
        (checkedPeriod n u).map some) ∨
    ∃ e, duration (compactText question) (toLowercase foreign question) = .error e ∧
      asksForBounds e = true ∧ (∀ n u, ¬ Asks foreign question n u) ∧ ¬ Plain foreign question := by
  unfold duration
  rcases hk : koreanSuffix (compactText question) with _ | suffix
  · rcases he : englishSuffix (toLowercase foreign question) with _ | suffix
    · exact .inl ⟨⟨hk, he⟩, rfl⟩
    right
    dsimp only [englishPeriod]
    have hword : ¬ Plain foreign question := fun h => by simpa [he] using h.2
    have honly : ∀ n u, Asks foreign question n u →
        parseUnsigned u64Max ((words isWhitespace suffix)[0]?.getD []) = some n ∧
          englishUnit ((words isWhitespace suffix)[1]?.getD []) = some u := by
      intro n u hasks
      cases hasks with
      | korean word => rw [hk] at word; cases word
      | english none word number unit =>
        obtain rfl := Option.some.inj (he.symm.trans word)
        exact ⟨number, unit⟩
    rcases hn : parseUnsigned u64Max ((words isWhitespace suffix)[0]?.getD []) with _ | n
    · exact .inr ⟨_, rfl, by decide +kernel, fun n u h => by simpa [hn] using (honly n u h).1,
        hword⟩
    rcases hu : englishUnit ((words isWhitespace suffix)[1]?.getD []) with _ | u
    · exact .inr ⟨_, rfl, by decide +kernel, fun n u h => by simpa [hu] using (honly n u h).2,
        hword⟩
    exact .inl ⟨n, u, .english hk he hn hu, rfl⟩
  · right
    dsimp only [koreanPeriod]
    have hword : ¬ Plain foreign question := fun h => by simpa [hk] using h.1
    have honly : ∀ n u, Asks foreign question n u →
        parseUnsigned u64Max (suffix.takeWhile isAsciiDigit) = some n ∧
          koreanUnit (suffix.dropWhile isAsciiDigit) = some u := by
      intro n u hasks
      cases hasks with
      | korean word number unit =>
        obtain rfl := Option.some.inj (hk.symm.trans word)
        exact ⟨number, unit⟩
      | english none => rw [hk] at none; cases none
    rcases hn : parseUnsigned u64Max (suffix.takeWhile isAsciiDigit) with _ | n
    · exact .inr ⟨_, rfl, by decide +kernel, fun n u h => by simpa [hn] using (honly n u h).1,
        hword⟩
    rcases hu : koreanUnit (suffix.dropWhile isAsciiDigit) with _ | u
    · exact .inr ⟨_, rfl, by decide +kernel, fun n u h => by simpa [hu] using (honly n u h).2,
        hword⟩
    exact .inl ⟨n, u, .korean hk hn hu, rfl⟩

/-- Going back by `d` is going back as far as all periods that are named. -/
theorem covers_iff {now d : Nat} {l : List Nat} :
    (∀ m ∈ l, now - d ≤ now - m) ↔ ∀ m ∈ l, m ≤ d ∨ now ≤ d := by
  refine forall₂_congr fun m _ => ?_
  omega

variable (foreign) in
/-- What `time_range` can answer without explicit bounds. -/
inductive Outcome (question : Text) (now : Nat) : Except String (Nat × Nat × String) → Prop where
  | refused {e : String} (asks : asksForBounds e = true) (inRange : ¬ OutOfRange foreign question)
      (unanswered : ¬ Answered foreign question) : Outcome question now (.error e)
  | outOfRange {e : String} (asks : asksForBounds e = false) (h : OutOfRange foreign question) :
      Outcome question now (.error e)
  | plain {label : String} (h : Plain foreign question) (inRange : ¬ OutOfRange foreign question)
      (answered : Answered foreign question) : Outcome question now (.ok (now - dayMs, now, label))
  | asked {n u : Nat} {label : String} (h : Asks foreign question n u)
      (inRange : ¬ OutOfRange foreign question) (answered : Answered foreign question) :
      Outcome question now (.ok (now - n * u, now, label))

theorem Asks.not_plain {n u : Nat} (h : Asks foreign question n u) : ¬ Plain foreign question := by
  rintro ⟨hk, he⟩
  cases h with
  | korean word => rw [hk] at word; cases word
  | english none word => rw [he] at word; cases word

theorem timeRange_outcome (foreign : Char → Text) (question : Text) (now : Nat) :
    Outcome foreign question now (timeRange foreign question none none now) := by
  have hbounds : (Option.isSome (none : Option Nat) || Option.isSome (none : Option Nat)) = false := rfl
  unfold timeRange
  rw [hbounds, if_neg Bool.false_ne_true]
  dsimp only
  by_cases hcount : temporalCount (compactText question) (toLowercase foreign question) > 1
  · rw [if_pos hcount]
    exact .refused (by decide +kernel) (fun h => absurd h.1 (by omega)) fun h => absurd h.1 (by omega)
  rw [if_neg hcount]
  obtain ⟨hplain, hd⟩ | ⟨n, u, hasks, hd⟩ | ⟨e, hd, hasksBounds, hnone, hword⟩ :=
    duration_cases foreign question <;> rw [hd]
  · -- no word for a period
    have hin : ¬ OutOfRange foreign question := fun ⟨_, _, _, h, _⟩ => h.not_plain hplain
    change Outcome foreign question now (if _ then _ else if _ then _ else .ok (_, _, _))
    split
    · rename_i hcal
      exact .refused (by decide +kernel) hin fun h => absurd hcal (by simp [h.2.1])
    rename_i hcal
    split <;> rename_i hlooks
    · refine .refused (by decide +kernel) hin fun h => ?_
      obtain ⟨n, u, hasks⟩ | ⟨-, hnot⟩ := h.2.2
      · exact hasks.not_plain hplain
      · exact absurd hlooks (by simp [hnot])
    · exact .plain hplain hin ⟨by omega, by simpa using hcal, .inr ⟨hplain, by simpa using hlooks⟩⟩
  · rcases hchecked : checkedPeriod n u with e | d
    · -- a period that is zero or does not fit
      unfold checkedPeriod at hchecked
      split_ifs at hchecked with hfits
      rw [← Except.error.inj hchecked]
      exact .outOfRange (by decide +kernel) ⟨by omega, n, u, hasks, by omega⟩
    · obtain ⟨rfl, hpos, hfits⟩ := checkedPeriod_ok hchecked
      have hin : ¬ OutOfRange foreign question := by
        rintro ⟨-, n', u', hasks', hbad⟩
        obtain ⟨rfl, rfl⟩ := hasks.unique hasks'
        omega
      change Outcome foreign question now (if _ then _ else .ok (_, _, _))
      split
      · rename_i hcal
        exact .refused (by decide +kernel) hin fun h => absurd hcal (by simp [h.2.1])
      · rename_i hcal
        exact .asked hasks hin ⟨by omega, by simpa using hcal, .inl ⟨n, u, hasks⟩⟩
  · -- the word is there and what is behind it is not a period
    refine .refused hasksBounds (fun ⟨_, n, u, h, _⟩ => hnone n u h) fun h => ?_
    obtain ⟨n, u, hasks⟩ | ⟨hplain, -⟩ := h.2.2
    · exact hnone n u hasks
    · exact hword hplain

variable (foreign)

/-- For every question without explicit bounds, no period that it names is narrowed silently exactly
when the period behind the word for one is not out of range, and, if an answer is given, that period
covers the others. -/
theorem timeRange_covers (question : Text) (now : Nat) :
    NotNarrowed question now (timeRange foreign question none none now) ↔
      ¬ OutOfRange foreign question ∧ (Answered foreign question → Covered foreign question now) := by
  have houtcome := timeRange_outcome foreign question now
  generalize timeRange foreign question none none now = r at houtcome ⊢
  cases houtcome with
  | refused asks inRange unanswered =>
    exact ⟨fun _ => ⟨inRange, fun h => absurd h unanswered⟩, fun _ => asks⟩
  | outOfRange asks hout =>
    exact ⟨fun h => absurd (asks.symm.trans h) Bool.false_ne_true, fun h => absurd hout h.1⟩
  | plain hplain inRange answered =>
    have hiff := @covers_iff now dayMs (namedPeriods question)
    constructor
    · intro hall
      exact ⟨inRange, fun _ =>
        ⟨fun n u hasks => absurd hplain hasks.not_plain, fun _ => hiff.1 hall.2⟩⟩
    · intro hcond
      exact ⟨rfl, hiff.2 ((hcond.2 answered).2 hplain)⟩
  | @asked n u _ hasks inRange answered =>
    have hiff := @covers_iff now (n * u) (namedPeriods question)
    constructor
    · intro hall
      refine ⟨inRange, fun _ =>
        ⟨fun n' u' hasks' => ?_, fun hplain => absurd hplain hasks.not_plain⟩⟩
      obtain ⟨rfl, rfl⟩ := hasks.unique hasks'
      exact hiff.1 hall.2
    · intro hcond
      exact ⟨rfl, hiff.2 ((hcond.2 answered).1 n u hasks)⟩

end TimeRange

/-- The lower case of Korean. -/
def unchanged (c : Char) : Text := [c]

/-- A question about three days is answered with the last 24 hours, and an error for a period of zero
does not ask for bounds. -/
theorem timeRange_narrows :
    (timeRange unchanged "3일 동안 위험했어?".toList none none 1000000000 =
        .ok (1000000000 - dayMs, 1000000000, "기본 최근 24시간") ∧
      ¬ NotNarrowed "3일 동안 위험했어?".toList 1000000000
        (timeRange unchanged "3일 동안 위험했어?".toList none none 1000000000)) ∧
      ¬ NotNarrowed "지난 0시간".toList 1000000000
        (timeRange unchanged "지난 0시간".toList none none 1000000000) := by
  have hdays : timeRange unchanged "3일 동안 위험했어?".toList none none 1000000000 =
      .ok (1000000000 - dayMs, 1000000000, "기본 최근 24시간") := by decide +kernel
  have hzero : timeRange unchanged "지난 0시간".toList none none 1000000000 =
      .error "조회 기간이 너무 크거나 0입니다" := by decide +kernel
  have hnamed : 3 * dayMs ∈ namedPeriods "3일 동안 위험했어?".toList := by decide +kernel
  refine ⟨⟨hdays, ?_⟩, ?_⟩
  · rw [hdays]
    exact fun h => absurd (h.2 _ hnamed) (by decide)
  · rw [hzero]
    have hno : asksForBounds "조회 기간이 너무 크거나 0입니다" = false := by decide +kernel
    exact fun h => absurd (hno.symm.trans h) Bool.false_ne_true

end Argos.Cli
