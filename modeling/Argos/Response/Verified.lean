import Argos.Response.Execute

/-!
# What is applied is found again

The check after an isolation reads the tables as text. Of the lines of a snapshot those of a chain are
found by what they begin with (`filter_saved`), and so are those of a script (`filter_script`); the first
rule, the number of the rules and the last one are as `verify` wants them, and `-C` finds every rule. So
an isolation whose commands are all carried out is reported as done (`execute_done`).
-/

namespace Argos.Response

open Argos.Lib

/-! ## Lines of a chain -/

section Lines

/-- What the lines of the rules of a chain begin with. -/
def lineStart (w : Word) : Text := "-A ".toList ++ w.text ++ " ".toList

theorem not_space_of_word (w : Word) : ' ' ∉ w.text := by
  intro hmem
  have hsolid := w.solidChars ' ' hmem
  revert hsolid
  decide

/-- Two texts without blanks that begin with the same up to a blank. -/
theorem isPrefixOf_blank {a b : Text} (ha : ' ' ∉ a) (hb : ' ' ∉ b) (rest : Text) :
    (a ++ [' ']).isPrefixOf (b ++ ' ' :: rest) = decide (a = b) := by
  induction a generalizing b with
  | nil =>
    rcases b with _ | ⟨c, b⟩
    · rfl
    · have hc : ' ' ≠ c := fun heq => hb (heq ▸ List.mem_cons_self)
      simp [List.isPrefixOf, hc]
  | cons d a ih =>
    rcases b with _ | ⟨c, b⟩
    · have hd : d ≠ ' ' := fun heq => ha (heq ▸ List.mem_cons_self)
      simp [List.isPrefixOf, hd]
    · have hrest := @ih b (fun h => ha (List.mem_cons_of_mem _ h)) (fun h => hb (List.mem_cons_of_mem _ h))
      rw [List.cons_append, List.cons_append, List.isPrefixOf, hrest]
      by_cases hdc : d = c
      · simp [hdc]
      · simp [hdc]

/-- A line of a rule belongs to its chain. -/
theorem lineStart_addition (w name : Word) (rule : Rule) :
    (lineStart w).isPrefixOf (printArgs (.plain (word "-A") :: .plain name :: rule)) =
      (decide (w = name) && !rule.isEmpty) := by
  have hstart : (lineStart w).isPrefixOf (printArgs (.plain (word "-A") :: .plain name :: rule)) =
      (w.text ++ [' ']).isPrefixOf (printArgs (.plain name :: rule)) := by
    show List.isPrefixOf ('-' :: 'A' :: ' ' :: (w.text ++ [' '])) ('-' :: 'A' :: ' ' :: _) = _
    simp [List.isPrefixOf]
  have hword : w.text = name.text ↔ w = name := ⟨Word.ext, congrArg Word.text⟩
  rw [hstart]
  rcases rule with _ | ⟨arg, rest⟩
  · -- A line without arguments has no blank after the name.
    rw [List.isEmpty_nil, Bool.not_true, Bool.and_false, Bool.eq_false_iff]
    intro hprefix
    have hsub := (List.isPrefixOf_iff_prefix.1 hprefix).subset
    exact not_space_of_word name (hsub (List.mem_append_right _ List.mem_cons_self))
  · show List.isPrefixOf _ (name.text ++ ' ' :: printArgs (arg :: rest)) = _
    rw [isPrefixOf_blank (not_space_of_word w) (not_space_of_word name)]
    simp [hword]

/-- Lines that do not begin with `-A`. -/
theorem lineStart_other (w : Word) {v : Word} (rest : List Arg)
    (hv : ∀ tail, "-A ".toList.isPrefixOf (v.text ++ tail) = false) :
    (lineStart w).isPrefixOf (printArgs (.plain v :: rest)) = false := by
  have hprint : ∃ tail, printArgs (.plain v :: rest) = v.text ++ tail := by
    rcases rest with _ | ⟨arg, rest⟩
    · exact ⟨[], (List.append_nil _).symm⟩
    · exact ⟨_, rfl⟩
  obtain ⟨tail, htail⟩ := hprint
  rw [htail, Bool.eq_false_iff]
  intro hprefix
  have hshort : "-A ".toList <+: v.text ++ tail := by
    refine List.IsPrefix.trans ?_ (List.isPrefixOf_iff_prefix.1 hprefix)
    exact ⟨w.text ++ " ".toList, by rw [lineStart, List.append_assoc]⟩
  have htrue := List.isPrefixOf_iff_prefix.2 hshort
  rw [hv tail] at htrue
  cases htrue

/-- The lines of some rules of a chain. -/
def ruleLines (w : Word) (rules : List Rule) : List Text :=
  rules.map fun rule => printArgs (.plain (word "-A") :: .plain w :: rule)

theorem filter_ruleLines (w name : Word) (rules : List Rule) :
    (ruleLines name rules).filter (lineStart w).isPrefixOf =
      if w = name then ruleLines w (rules.filter fun rule => !rule.isEmpty) else [] := by
  unfold ruleLines
  rw [List.filter_map]
  have hcomp : (lineStart w).isPrefixOf ∘ (fun rule => printArgs (.plain (word "-A") :: .plain name :: rule)) =
      fun rule : Rule => decide (w = name) && !rule.isEmpty := by
    funext rule
    exact lineStart_addition w name rule
  rw [hcomp]
  by_cases hname : w = name
  · rw [if_pos hname, hname]
    simp
  · rw [if_neg hname]
    simp [hname]

/-- The lines of a chain in a snapshot. -/
theorem filter_saved {table : Table} (hdistinct : table.names.Nodup) (w : Word) :
    (textLines table.save).filter (lineStart w).isPrefixOf =
      ruleLines w (((table.rulesOf w).getD []).filter fun rule => !rule.isEmpty) := by
  have hdeclarations : (List.map printArgs (List.map Chain.declaration table)).filter
      (lineStart w).isPrefixOf = [] := by
    rw [List.filter_eq_nil_iff]
    intro line hline
    rw [List.map_map] at hline
    obtain ⟨chain, -, rfl⟩ := List.mem_map.1 hline
    exact Bool.not_eq_true _ ▸ lineStart_other w _ fun tail => rfl
  have hadditions : (List.map printArgs (List.flatMap Chain.additions table)).filter
      (lineStart w).isPrefixOf =
      ruleLines w (((table.rulesOf w).getD []).filter fun rule => !rule.isEmpty) := by
    clear hdeclarations
    induction table with
    | nil => rfl
    | cons chain rest ih =>
      have hnames : chain.name ∉ Table.names rest ∧ (Table.names rest).Nodup := List.nodup_cons.1 hdistinct
      have hchain : List.map printArgs chain.additions = ruleLines chain.name chain.rules := by
        rw [Chain.additions, List.map_map]
        rfl
      rw [List.flatMap_cons, List.map_append, List.filter_append, ih hnames.2, hchain, filter_ruleLines]
      unfold Table.rulesOf
      rw [List.find?_cons]
      by_cases hname : w = chain.name
      · -- No other chain has the name.
        have hnone : Table.rulesOf rest w = none := by
          rcases hrules : Table.rulesOf rest w with _ | rules
          · rfl
          · exact absurd (hname ▸ rulesOf_isSome.1 (by rw [hrules]; rfl)) hnames.1
        unfold Table.rulesOf at hnone
        rw [if_pos hname, hnone, decide_eq_true hname.symm]
        exact List.append_nil _
      · rw [if_neg hname, decide_eq_false (Ne.symm hname), List.nil_append]
  have hfirst : (lineStart w).isPrefixOf (printArgs [.plain (word "*filter")]) = false :=
    lineStart_other w [] fun tail => rfl
  have hlast : (lineStart w).isPrefixOf (printArgs [.plain (word "COMMIT")]) = false :=
    lineStart_other w [] fun tail => rfl
  rw [textLines_save, Table.saved]
  simp only [List.map_append, List.map_cons, List.map_nil, List.cons_append, List.filter_append,
    List.filter_cons, List.filter_nil, hfirst, hlast, hdeclarations, hadditions, List.nil_append,
    Bool.false_eq_true, if_false, List.append_nil]

/-- Of the commands only those that append a rule have lines that begin with `-A`. -/
theorem lineStart_line (w : Word) (c : Command) : (lineStart w).isPrefixOf c.line =
    ((appended w c).any fun rule => !rule.isEmpty) := by
  cases c with
  | append chain rule =>
    rw [Command.line, Command.args, lineStart_addition, appended]
    by_cases hchain : chain = w
    · rw [if_pos hchain, hchain]
      simp
    · rw [if_neg hchain]
      simp [Ne.symm hchain]
  | table => exact lineStart_other w _ fun tail => rfl
  | declare chain => exact lineStart_other w _ fun tail => rfl
  | insertFirst chain rule => exact lineStart_other w _ fun tail => rfl
  | delete chain rule => exact lineStart_other w _ fun tail => rfl
  | flush chain => exact lineStart_other w _ fun tail => rfl
  | remove chain => exact lineStart_other w _ fun tail => rfl
  | commit => exact lineStart_other w _ fun tail => rfl

theorem count_lines (w : Word) (commands : List Command) :
    ((commands.map Command.line).filter (lineStart w).isPrefixOf).length =
      ((commands.filterMap (appended w)).filter fun rule => !rule.isEmpty).length := by
  induction commands with
  | nil => rfl
  | cons c rest ih =>
    rw [List.map_cons, List.filter_cons, lineStart_line, List.filterMap_cons]
    rcases appended w c with _ | rule
    · exact ih
    · rcases hempty : rule.isEmpty with _ | _
      · simp only [Option.any_some, hempty, Bool.not_false, if_true, List.filter_cons, List.length_cons, ih]
      · simp only [Option.any_some, hempty, Bool.not_true, Bool.false_eq_true, if_false, List.filter_cons, ih]

end Lines

/-! ## `verify` -/

section Verify

variable {table t : Table} {rules : List ManagementRule} {ipv6 : Bool}

/-- The rules that an isolation appends to a chain of Argos. -/
theorem appended_isolation {own : Word} (hown : own ∈ argosWords) :
    (isolationCommands rules ipv6 table).filterMap (appended own) =
      (allowCommands rules ipv6).filterMap (appended own) ++ [dropRule] := by
  have hdeclare : (argosWords.map Command.declare).filterMap (appended own) = [] := by
    rw [List.filterMap_map]
    rfl
  have hdelete : table.deleteCommands.filterMap (appended own) = [] := by
    rw [List.filterMap_eq_nil_iff]
    intro c hc
    obtain ⟨deletion, -, rfl⟩ := List.mem_map.1 hc
    rfl
  have hlegacy : (if legacyWord ∈ table.names then [Command.flush legacyWord, .remove legacyWord]
      else []).filterMap (appended own) = [] := by
    split <;> rfl
  have henforce : ∀ own ∈ argosWords, enforceCommands.filterMap (appended own) = [dropRule] := by
    decide +kernel
  have hcommands : isolationCommands rules ipv6 table =
      argosWords.map Command.declare ++ table.deleteCommands ++
        (if legacyWord ∈ table.names then [.flush legacyWord, .remove legacyWord] else []) ++
        allowCommands rules ipv6 ++ enforceCommands := rfl
  rw [hcommands]
  simp only [List.filterMap_append, hdeclare, hdelete, hlegacy, henforce own hown, List.nil_append]

/-- The rules that an isolation appends have arguments. -/
theorem allowed_nonempty (hparsed : ∀ rule ∈ rules, ∃ text, parseRule text = some rule) {own : Word}
    (hown : own ∈ argosWords) :
    (((allowCommands rules ipv6).filterMap (appended own) ++ [dropRule]).filter fun rule => !rule.isEmpty) =
      (allowCommands rules ipv6).filterMap (appended own) ++ [dropRule] := by
  have hnamed : ∀ own ∈ argosWords, (∃ inbound, own = ownOf inbound) ∨ own = word "ARGOS_FORWARD" := by
    decide
  rw [List.filter_eq_self]
  intro r hr
  rcases List.mem_append.1 hr with hr | hr
  · rcases hnamed own hown with ⟨inbound, rfl⟩ | rfl
    · -- What is read is not empty.
      have hread := (allow_accepts hparsed ipv6 inbound
        ⟨none, none, .tcp, linkLocal, linkLocal, 0, 0, 0, 0, .new, .original⟩).1 r hr
      rcases r with _ | ⟨arg, rest⟩
      · cases hread
      · rfl
    · rw [forward_nothing] at hr
      cases hr
  · rw [List.mem_singleton.1 hr]
    rfl

/-- What an isolation did to a chain is found again. -/
theorem verifyChain_isolated (h : isolate rules ipv6 table = some t) (hfilter : Filter t)
    (hparsed : ∀ rule ∈ rules, ∃ text, parseRule text = some rule) {base chain : String}
    (hpair : (base, chain) ∈ argosChains) :
    verifyChain t.save (isolationScript rules ipv6 table.save) base chain = .ok () := by
  -- The names of the chains as words.
  obtain ⟨baseWord, own, hwords, hown, hbaseStart, hownStart, hfirst, hlast⟩ : ∃ baseWord own : Word,
      (baseWord, own) ∈ bases ∧ own ∈ argosWords ∧
      ("-A " ++ base ++ " ").toList = lineStart baseWord ∧ ("-A " ++ chain ++ " ").toList = lineStart own ∧
      ("-A " ++ base ++ " -j " ++ chain).toList =
        printArgs (.plain (word "-A") :: .plain baseWord :: jumpTo own) ∧
      ("-A " ++ chain ++ " -j DROP").toList = printArgs (.plain (word "-A") :: .plain own :: dropRule) := by
    simp only [argosChains, List.mem_cons, List.not_mem_nil, or_false, Prod.mk.injEq] at hpair
    rcases hpair with ⟨rfl, rfl⟩ | ⟨rfl, rfl⟩ | ⟨rfl, rfl⟩
    · exact ⟨word "INPUT", word "ARGOS_INPUT", by decide, by decide, rfl, rfl, rfl, rfl⟩
    · exact ⟨word "OUTPUT", word "ARGOS_OUTPUT", by decide, by decide, rfl, rfl, rfl, rfl⟩
    · exact ⟨word "FORWARD", word "ARGOS_FORWARD", by decide, by decide, rfl, rfl, rfl, rfl⟩
  obtain ⟨rest, hbase⟩ := isolated_base h hfilter hwords
  have hbaseLines := filter_saved hfilter.distinct baseWord
  rw [show t.rulesOf baseWord = _ from hbase] at hbaseLines
  have hownLines := filter_saved hfilter.distinct own
  rw [isolated_own h hown, Option.getD_some, allowed_nonempty hparsed hown] at hownLines
  have hcount : ((textLines (isolationScript rules ipv6 table.save)).filter
      (lineStart own).isPrefixOf).length =
      ((allowCommands rules ipv6).filterMap (appended own) ++ [dropRule]).length := by
    have hends : ∀ commands : List Command, (Command.table :: commands ++ [Command.commit]).filterMap
        (appended own) = commands.filterMap (appended own) := by
      intro commands
      rw [List.filterMap_append]
      exact List.append_nil _
    rw [isolationScript_save, textLines_scriptOf, count_lines, hends, appended_isolation hown,
      allowed_nonempty hparsed hown]
  unfold verifyChain
  rw [hbaseStart, hownStart, hfirst, hlast]
  dsimp only
  rw [← List.head?_filter, hbaseLines, hownLines, hcount, if_neg, if_neg]
  · rintro (hne | hne)
    · exact hne (List.length_map _)
    · refine hne ?_
      rw [ruleLines, List.map_append, List.map_singleton, List.getLast?_append, List.getLast?_singleton]
      rfl
  · exact fun hne => hne rfl

theorem verify_isolated (h : isolate rules ipv6 table = some t) (hfilter : Filter t)
    (hparsed : ∀ rule ∈ rules, ∃ text, parseRule text = some rule) :
    verify t.save (isolationScript rules ipv6 table.save) false = .ok () := by
  have hall : ∀ pairs : List (String × String), (∀ pair ∈ pairs,
      verifyChain t.save (isolationScript rules ipv6 table.save) pair.1 pair.2 = .ok ()) →
      pairs.forM (fun pair => verifyChain t.save (isolationScript rules ipv6 table.save) pair.1 pair.2) =
        .ok () := by
    intro pairs hpairs
    induction pairs with
    | nil => rfl
    | cons pair rest ih =>
      rw [List.forM, hpairs pair List.mem_cons_self]
      exact ih fun q hq => hpairs q (List.mem_cons_of_mem _ hq)
  exact hall argosChains fun pair hpair => verifyChain_isolated h hfilter hparsed hpair

end Verify

/-! ## Rule by rule -/

section Rules

variable {table t : Table} {rules : List ManagementRule} {ipv6 : Bool}

/-- An argument without quotes. -/
def Arg.isPlain : Arg → Bool
  | .plain _ => true
  | .quoted _ _ => false

theorem words_of_plain {rule : Rule} (h : rule.all Arg.isPlain = true) :
    ∃ words : List Word, rule = words.map Arg.plain := by
  induction rule with
  | nil => exact ⟨[], rfl⟩
  | cons arg rest ih =>
    rw [List.all_cons, Bool.and_eq_true] at h
    obtain ⟨words, rfl⟩ := ih h.2
    cases arg with
    | plain w => exact ⟨w :: words, rfl⟩
    | quoted text oneLine => cases h.1

theorem asWord_text (w : Word) : asWord w.text = some w := dif_pos w.solid

theorem mapM_asWord (words : List Word) : (words.map Word.text).mapM asWord = some words := by
  induction words with
  | nil => rfl
  | cons w rest ih =>
    rw [List.map_cons, List.mapM_cons, asWord_text, ih]
    rfl

theorem tokens_words (words : List Word) : (words.map Arg.plain).flatMap Arg.tokens = words.map Word.text := by
  induction words with
  | nil => rfl
  | cons w rest ih =>
    rw [List.map_cons, List.flatMap_cons, ih, Arg.tokens_plain]
    rfl

/-- `-C` finds a rule that is there. -/
theorem checks_line {chain : Word} {rule : Rule} {found : List Rule} (hplain : rule.all Arg.isPlain = true)
    (hfound : t.rulesOf chain = some found) (hmem : rule ∈ found) :
    t.checks (checkCommand ipv6 (Command.append chain rule).line).args = true := by
  obtain ⟨words, rfl⟩ := words_of_plain hplain
  have hargs : (checkCommand ipv6 (Command.append chain (words.map Arg.plain)).line).args =
      (word "-C" :: chain :: (words ++ [word "--wait", word "5"])).map Word.text := by
    unfold checkCommand Command.line Command.args
    dsimp only
    rw [splitWhitespace_printArgs, List.flatMap_cons, List.flatMap_cons, tokens_words, Arg.tokens_plain,
      Arg.tokens_plain, List.map_cons, List.map_cons, List.map_append]
    rfl
  unfold Table.checks
  rw [hargs, mapM_asWord]
  dsimp only
  have hlength : (words ++ [word "--wait", word "5"]).length - 2 = words.length := by simp
  rw [hlength, List.drop_left, List.take_left, hfound]
  simp [hmem]

/-- A command that, if it appends a rule, appends one without quotes to a chain of Argos. -/
def Command.plainAllow : Command → Bool
  | .append chain rule => decide (chain ∈ argosWords) && rule.all Arg.isPlain
  | _ => true

theorem plainAllow_isolation : ∀ c ∈ isolationCommands rules ipv6 table, c.plainAllow = true := by
  have hfixed : ∀ ipv6, ∀ c ∈ fixedCommands ipv6 ++ enforceCommands, c.plainAllow = true := by
    decide +kernel
  have hown : ∀ inbound, decide (ownOf inbound ∈ argosWords) = true := by decide
  have hcommands : isolationCommands rules ipv6 table =
      argosWords.map Command.declare ++ table.deleteCommands ++
        (if legacyWord ∈ table.names then [.flush legacyWord, .remove legacyWord] else []) ++
        (fixedCommands ipv6 ++ (rules.filter fun rule => rule.ipv6 = ipv6).flatMap managementCommands) ++
        enforceCommands := rfl
  intro c hc
  rw [hcommands] at hc
  simp only [List.mem_append] at hc
  rcases hc with (((hc | hc) | hc) | (hc | hc)) | hc
  · obtain ⟨name, -, rfl⟩ := List.mem_map.1 hc
    rfl
  · obtain ⟨deletion, -, rfl⟩ := List.mem_map.1 hc
    rfl
  · split at hc
    · rcases List.mem_pair.1 hc with rfl | rfl <;> rfl
    · cases hc
  · exact hfixed ipv6 c (List.mem_append_left _ hc)
  · obtain ⟨rule, -, hc⟩ := List.mem_flatMap.1 hc
    rw [managementCommands_eq] at hc
    rcases List.mem_pair.1 hc with rfl | rfl
    · exact Bool.and_eq_true_iff.2 ⟨hown _, rfl⟩
    · exact Bool.and_eq_true_iff.2 ⟨hown _, rfl⟩
  · exact hfixed ipv6 c (List.mem_append_right _ hc)

/-- The lines of a script that begin with `-A` are those of the rules that it appends. -/
theorem append_of_line {c : Command} (h : "-A ".toList.isPrefixOf c.line = true) :
    ∃ chain rule, c = .append chain rule := by
  have hother : ∀ {v : Word} {rest : List Arg}, c.args = .plain v :: rest →
      (∀ tail, "-A ".toList.isPrefixOf (v.text ++ tail) = false) → False := by
    intro v rest hargs hv
    rw [Command.line, hargs] at h
    rcases rest with _ | ⟨arg, rest⟩
    · have hnone := hv []
      rw [List.append_nil] at hnone
      exact Bool.false_ne_true (hnone.symm.trans h)
    · exact Bool.false_ne_true ((hv _).symm.trans h)
  cases c with
  | append chain rule => exact ⟨chain, rule, rfl⟩
  | table => exact (hother rfl fun tail => rfl).elim
  | declare chain => exact (hother rfl fun tail => rfl).elim
  | insertFirst chain rule => exact (hother rfl fun tail => rfl).elim
  | delete chain rule => exact (hother rfl fun tail => rfl).elim
  | flush chain => exact (hother rfl fun tail => rfl).elim
  | remove chain => exact (hother rfl fun tail => rfl).elim
  | commit => exact (hother rfl fun tail => rfl).elim

/-- `-C` finds every rule of the script of an isolation. -/
theorem checks_isolated (h : isolate rules ipv6 table = some t) {line : Text}
    (hline : line ∈ (textLines (isolationScript rules ipv6 table.save)).filter "-A ".toList.isPrefixOf) :
    t.checks (checkCommand ipv6 line).args = true := by
  rw [isolationScript_save, textLines_scriptOf] at hline
  obtain ⟨hmem, hstart⟩ := List.mem_filter.1 hline
  obtain ⟨c, hc, rfl⟩ := List.mem_map.1 hmem
  obtain ⟨chain, rule, rfl⟩ := append_of_line hstart
  have hcommand : Command.append chain rule ∈ isolationCommands rules ipv6 table := by
    simpa using hc
  have hallow := plainAllow_isolation _ hcommand
  rw [Command.plainAllow, Bool.and_eq_true, decide_eq_true_eq] at hallow
  refine checks_line hallow.2 (isolated_own h hallow.1) ?_
  rw [← appended_isolation hallow.1]
  exact List.mem_filterMap.2 ⟨_, hcommand, if_pos rfl⟩

end Rules

/-! ## Commands that are all carried out -/

section Done

variable {replies : Nat → Reply} {wrap : CommandError → IsolationError} {host : Host} {α β : Type}

/-- A computation returns a value and leaves the tables as they are. -/
def Returns (m : Firewall α) (host : Host) (a : α) : Prop :=
  ∃ last, m host = .ok a last ∧ last.v4 = host.v4 ∧ last.v6 = host.v6

theorem Returns.bind {m : Firewall α} {f : α → Firewall β} {a : α} {b : β} (hm : Returns m host a)
    (hf : ∀ mid : Host, mid.v4 = host.v4 → mid.v6 = host.v6 → Returns (f a) mid b) :
    Returns (m >>= f) host b := by
  obtain ⟨mid, hrun, h4, h6⟩ := hm
  obtain ⟨last, hrest, hlast4, hlast6⟩ := hf mid h4 h6
  refine ⟨last, ?_, hlast4.trans h4, hlast6.trans h6⟩
  rw [bind_apply, hrun]
  exact hrest

theorem Returns.pure (a : α) : Returns (Pure.pure a) host a := ⟨host, rfl, rfl, rfl⟩

theorem Returns.discard {m : Firewall α} {a : α} (hm : Returns m host a) :
    Returns (discard m) host ⟨⟩ :=
  hm.bind fun _ _ _ => Returns.pure _

theorem Returns.forM {f : α → Firewall PUnit} {l : List α} (hf : ∀ a ∈ l, ∀ mid : Host, mid.v4 = host.v4 →
    mid.v6 = host.v6 → Returns (f a) mid ⟨⟩) : Returns (l.forM f) host ⟨⟩ := by
  induction l generalizing host with
  | nil => exact Returns.pure _
  | cons a rest ih =>
    refine (hf a List.mem_cons_self host rfl rfl).bind fun mid h4 h6 => ?_
    exact ih fun b hb mid' h4' h6' => hf b (List.mem_cons_of_mem _ hb) mid' (h4'.trans h4) (h6'.trans h6)

variable (hdone : ∀ n, (replies n).outcome = .done)
include hdone

theorem run_done {c : FirewallCommand} {output : Text} {t : Table}
    (hanswer : (host.table c.ipv6).answer c = some (output, t)) :
    run replies wrap c host = .ok output (Host.put { host with calls := host.calls + 1 } c.ipv6 t) := by
  unfold run
  dsimp only
  rw [hdone, show Host.table { host with calls := host.calls + 1 } c.ipv6 = host.table c.ipv6 from rfl, hanswer]

theorem run_returns {c : FirewallCommand} {output : Text}
    (hanswer : (host.table c.ipv6).answer c = some (output, host.table c.ipv6)) :
    Returns (run replies wrap c) host output :=
  ⟨_, run_done hdone hanswer, put_table { host with calls := host.calls + 1 } c.ipv6⟩

theorem read_returns (ipv6 : Bool) : Returns (run replies wrap (readCommand ipv6)) host (host.table ipv6).save :=
  run_returns hdone rfl

theorem test_returns {ipv6 : Bool} {script : Text} {t : Table} (h : (host.table ipv6).restore script = some t) :
    Returns (run replies wrap (restoreCommand ipv6 script).testing) host [] := by
  refine run_returns hdone ?_
  show ((host.table ipv6).restore script).map (fun _ => (([] : Text), host.table ipv6)) = _
  rw [h]
  rfl

theorem apply_done {ipv6 : Bool} {script : Text} {t : Table} (h : (host.table ipv6).restore script = some t) :
    discard (run replies wrap (restoreCommand ipv6 script)) host =
      .ok ⟨⟩ (Host.put { host with calls := host.calls + 1 } ipv6 t) := by
  have hanswer : (host.table ipv6).answer (restoreCommand ipv6 script) = some ([], t) := by
    show ((host.table ipv6).restore script).map (fun t => (([] : Text), t)) = _
    rw [h]
    rfl
  have hrun := @run_done replies wrap host hdone (restoreCommand ipv6 script) [] t hanswer
  show ((run replies wrap (restoreCommand ipv6 script)) >>= fun _ => Pure.pure PUnit.unit) host = _
  rw [bind_apply, hrun]
  rfl

omit hdone in
theorem parseRules_done {allow : List Text} {rules : List ManagementRule}
    (h : allow.mapM parseRule = some rules) : parseRules allow = .ok rules := by
  unfold parseRules
  induction allow generalizing rules with
  | nil =>
    cases h
    rfl
  | cons text rest ih =>
    rw [List.mapM_cons] at h ⊢
    obtain ⟨rule, htext, hrest⟩ := Option.bind_eq_some_iff.1 h
    obtain ⟨others, hothers, hcons⟩ := Option.bind_eq_some_iff.1 hrest
    cases hcons
    rw [htext, ih hothers]
    rfl

/-- Both families are read and their scripts are tested. -/
theorem prepare_done {allow : List Text} {rules : List ManagementRule} {t4 t6 : Table}
    (hrules : allow.mapM parseRule = some rules) (h4 : isolate rules false host.v4 = some t4)
    (h6 : isolate rules true host.v6 = some t6) :
    Returns (prepare replies allow false) host
      [restoreCommand false (isolationScript rules false host.v4.save),
        restoreCommand true (isolationScript rules true host.v6.save)] := by
  unfold prepare
  refine Returns.bind (a := rules) ⟨host, ?_, rfl, rfl⟩ fun h1 h14 h16 => ?_
  · rw [parseRules_done hrules]
    rfl
  have hread : ∀ (ipv6 : Bool) (mid : Host), Returns (do
      let snapshot ← run replies .command (readCommand ipv6)
      return restoreCommand ipv6 (scriptFor rules false ipv6 snapshot)) mid
      (restoreCommand ipv6 (isolationScript rules ipv6 (mid.table ipv6).save)) := fun ipv6 mid =>
    (read_returns hdone ipv6).bind fun _ _ _ => Returns.pure _
  refine Returns.bind (a := [restoreCommand false (isolationScript rules false host.v4.save),
    restoreCommand true (isolationScript rules true host.v6.save)]) ?_ fun h2 h24 h26 => ?_
  · rw [List.mapM_cons, ← h14, ← h16]
    refine (hread false h1).bind fun m1 m14 m16 => ?_
    rw [List.mapM_cons, ← m16]
    refine Returns.bind ((hread true m1).bind fun m2 m24 m26 => ?_) fun m3 m34 m36 => Returns.pure _
    exact Returns.bind (Returns.pure _) fun _ _ _ => Returns.pure _
  · refine Returns.bind (Returns.forM fun plan hplan mid hmid4 hmid6 => ?_) fun _ _ _ => Returns.pure _
    have hv4 : mid.table false = host.v4 := (hmid4.trans h24).trans h14
    have hv6 : mid.table true = host.v6 := (hmid6.trans h26).trans h16
    rcases List.mem_pair.1 hplan with rfl | rfl
    · refine (test_returns hdone (t := t4) ?_).discard
      rw [hv4]
      exact h4
    · refine (test_returns hdone (t := t6) ?_).discard
      rw [hv6]
      exact h6

/-- What was applied to a family is found again. -/
theorem verifyPlan_done {table t : Table} {rules : List ManagementRule} {ipv6 : Bool}
    (h : isolate rules ipv6 table = some t) (hfilter : Filter t)
    (hparsed : ∀ rule ∈ rules, ∃ text, parseRule text = some rule) (hhost : host.table ipv6 = t) :
    Returns (verifyPlan replies false ipv6 (restoreCommand ipv6 (isolationScript rules ipv6 table.save)))
      host () := by
  have hsame : ∀ mid : Host, mid.v4 = host.v4 → mid.v6 = host.v6 → mid.table ipv6 = t := by
    intro mid h4 h6
    rw [← hhost]
    rcases ipv6 with _ | _
    · exact h4
    · exact h6
  unfold verifyPlan
  refine (read_returns hdone ipv6).bind fun m1 m14 m16 => Returns.bind (a := ()) ⟨m1, ?_, rfl, rfl⟩
    fun m2 m24 m26 => ?_
  · rw [hhost]
    show (liftExcept (verify t.save (isolationScript rules ipv6 table.save) false) : Firewall Unit) m1 = _
    rw [verify_isolated h hfilter hparsed]
    rfl
  · refine Returns.forM fun line hline m3 m34 m36 => Returns.discard (a := []) (run_returns hdone ?_)
    have htable := hsame m3 ((m34.trans m24).trans m14) ((m36.trans m26).trans m16)
    show (if (m3.table ipv6).checks _ then some (([] : Text), m3.table ipv6) else none) = _
    rw [htable, if_pos (checks_isolated h hline)]
    exact congrArg (fun t => some (([] : Text), t)) htable.symm

theorem applyPlans_done {script4 script6 : Text} {t4 t6 : Table} (h4 : host.v4.restore script4 = some t4)
    (h6 : host.v6.restore script6 = some t6) :
    ∃ last, applyPlans replies [restoreCommand false script4, restoreCommand true script6] host = .ok () last ∧
      last.v4 = t4 ∧ last.v6 = t6 := by
  refine ⟨Host.put { host with v4 := t4, calls := host.calls + 1 + 1 } true t6, ?_, rfl, rfl⟩
  unfold applyPlans
  show (discard _ >>= fun _ => discard _ >>= fun _ => Pure.pure PUnit.unit : Firewall PUnit) host = _
  rw [bind_apply, apply_done hdone (show (host.table false).restore script4 = some t4 from h4)]
  dsimp only
  rw [bind_apply, @apply_done replies _ (Host.put { host with calls := host.calls + 1 } false t4) hdone true
    script6 t6 h6]
  rfl

/-- An isolation whose commands are all carried out is reported as done. -/
theorem execute_done {allow : List Text} {rules : List ManagementRule} (h4 : Filter host.v4)
    (h6 : Filter host.v6) (hrules : allow.mapM parseRule = some rules) :
    ∃ last, execute replies allow false host = .ok () last := by
  have hparsed := parsed_of_mapM hrules
  obtain ⟨t4, hisolate4, hfilter4, -⟩ := isolate_spec h4 rules false
  obtain ⟨t6, hisolate6, hfilter6, -⟩ := isolate_spec h6 rules true
  obtain ⟨m1, hprepare, hm14, hm16⟩ := prepare_done hdone hrules hisolate4 hisolate6
  -- The scripts are applied to the tables that were read, and then the families are checked.
  obtain ⟨m2, happly, hm24, hm26⟩ := @applyPlans_done replies m1 hdone
    (isolationScript rules false host.v4.save) (isolationScript rules true host.v6.save) t4 t6
    (by rw [hm14]; exact hisolate4) (by rw [hm16]; exact hisolate6)
  have hverify : Returns (([false, true].zip [restoreCommand false (isolationScript rules false host.v4.save),
      restoreCommand true (isolationScript rules true host.v6.save)]).forM
      fun pair => verifyPlan replies false pair.1 pair.2) m2 () := by
    refine Returns.forM fun pair hpair m3 hm34 hm36 => ?_
    rcases List.mem_pair.1 hpair with rfl | rfl
    · exact verifyPlan_done hdone hisolate4 hfilter4 hparsed (hm34.trans hm24)
    · exact verifyPlan_done hdone hisolate6 hfilter6 hparsed (hm36.trans hm26)
  obtain ⟨last, hlast, -⟩ := hverify
  refine ⟨last, ?_⟩
  unfold execute enforce
  rw [bind_apply, hprepare]
  dsimp only
  rw [bind_apply, happly]
  exact hlast

end Done

/-! ## What is reported as done -/

section Outcome

variable {replies : Nat → Reply} {host : Host}

/-- An isolation that is reported as done has isolated both families, no text of an allow-list gets
another line into a script, and what fails before the scripts were tested has changed nothing. -/
theorem execute_isolates (replies : Nat → Reply) (h4 : Filter host.v4) (h6 : Filter host.v6) :
    (∀ allow last, execute replies allow false host = .ok () last →
      ∃ rules, allow.mapM parseRule = some rules ∧
        Isolates rules false last.v4 ∧ Isolates rules true last.v6) ∧
    (∀ ipv6, ∃ before after, ∀ allow plans last, prepare replies allow false host = .ok plans last →
      plans.map FirewallCommand.ipv6 = [false, true] ∧
      ∃ rules, allow.mapM parseRule = some rules ∧ ∀ plan ∈ plans, plan.ipv6 = ipv6 →
        textLines plan.input =
          before ++ (rules.filter fun rule => rule.ipv6 = ipv6).flatMap managementLines ++ after) ∧
    (∀ allow e last, prepare replies allow false host = .error e last →
      execute replies allow false host = .error e last ∧ last.v4 = host.v4 ∧ last.v6 = host.v6) := by
  refine ⟨fun allow last h => ?_, fun ipv6 => ?_, fun allow e last h => ?_⟩
  · unfold execute at h
    obtain ⟨plans, mid, hprepare, henforce⟩ := bind_ok h
    obtain ⟨rules, hrules, rfl⟩ := prepare_ok hprepare
    obtain ⟨hrestore4, hrestore6⟩ := enforce_ok henforce
    -- The tables are still those that were read.
    have hbefore := @keeps_prepare replies allow false host
    rw [hprepare] at hbefore
    rw [show mid.v4 = host.v4 from hbefore.1] at hrestore4
    rw [show mid.v6 = host.v6 from hbefore.2] at hrestore6
    exact ⟨rules, hrules, isolates_of_restore h4 hrules hrestore4, isolates_of_restore h6 hrules hrestore6⟩
  · obtain ⟨before, after, hlines⟩ := isolationScript_lines ipv6 (host.table ipv6)
    refine ⟨before, after, fun allow plans last h => ?_⟩
    obtain ⟨rules, hrules, rfl⟩ := prepare_ok h
    refine ⟨rfl, rules, hrules, fun plan hplan hfamily => ?_⟩
    rw [← hlines rules, ← hfamily]
    rcases List.mem_pair.1 hplan with rfl | rfl <;> rfl
  · have hkeeps := @keeps_prepare replies allow false host
    rw [h] at hkeeps
    refine ⟨?_, hkeeps⟩
    unfold execute
    rw [bind_apply, h]

/-- A host with a rule of its own, and with the chains of an isolation that was before. -/
def sampleHost : Host := ⟨tableWith [commentedRule, jumpTo (word "ARGOS_INPUT")], tableWith [], 0⟩

/-- One management rule in each family. -/
def sampleAllow : List Text := ["in:192.0.2.0/24:22".toList, "out:[2001:db8::10]:443".toList]

/-- An isolation of that host is reported as done, and it isolates both families. -/
theorem execute_isolates_sample : ∃ last rules,
    execute (fun _ => ⟨.done, ""⟩) sampleAllow false sampleHost = .ok () last ∧
    sampleAllow.mapM parseRule = some rules ∧ Isolates rules false last.v4 ∧ Isolates rules true last.v6 := by
  have h4 : Filter sampleHost.v4 := tableWith_filter _
  have h6 : Filter sampleHost.v6 := tableWith_filter _
  have hparse : (sampleAllow.mapM parseRule).isSome = true := by decide +kernel
  obtain ⟨rules, hrules⟩ := Option.isSome_iff_exists.1 hparse
  obtain ⟨last, hrun⟩ := @execute_done (fun _ => ⟨.done, ""⟩) sampleHost (fun _ => rfl) _ rules h4 h6 hrules
  obtain ⟨hisolates, -⟩ := execute_isolates (fun _ => ⟨.done, ""⟩) h4 h6
  obtain ⟨found, hfound, hv4, hv6⟩ := hisolates sampleAllow last hrun
  exact ⟨last, found, hrun, hfound, hv4, hv6⟩

end Outcome

end Argos.Response
