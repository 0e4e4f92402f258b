import Argos.Response.Isolate

/-!
# The scripts as commands

A script is a list of lines, and each of its lines is a list of arguments that is printed. Here the
scripts of an isolation and of a release are written as the commands that `iptables-restore` reads:
`isolate_eq` and `release_eq`. The deletions among them are those of the rules that mention a chain of
Argos, in the order of the table.
-/

namespace Argos.Response

open Argos.Lib
open Argos.Vault (isWhitespace)

/-! ## Lines -/

section Lines

theorem Arg.print_oneLine (arg : Arg) : '\n' ∉ arg.print := by
  cases arg with
  | plain w =>
    intro hmem
    have hsolid := w.solidChars _ hmem
    revert hsolid
    decide
  | quoted text oneLine =>
    intro hmem
    simp only [Arg.print, List.mem_cons, List.mem_append, List.mem_flatMap, List.not_mem_nil,
      or_false] at hmem
    rcases hmem with h | ⟨c, hc, hescaped⟩ | h
    · revert h
      decide
    · unfold escapeChar at hescaped
      split at hescaped
      next hspecial =>
        rcases List.mem_pair.1 hescaped with h | rfl
        · revert h
          decide
        · revert hspecial
          decide
      · rw [List.mem_singleton.1 hescaped] at oneLine
        exact oneLine hc
    · revert h
      decide

theorem printArgs_oneLine (args : List Arg) : '\n' ∉ printArgs args := by
  induction args with
  | nil => simp [printArgs]
  | cons arg rest ih =>
    rcases rest with _ | ⟨next, rest⟩
    · exact arg.print_oneLine
    · have hprint : printArgs (arg :: next :: rest) = arg.print ++ ' ' :: printArgs (next :: rest) := rfl
      rw [hprint, List.mem_append, List.mem_cons]
      rintro (h | h | h)
      · exact arg.print_oneLine h
      · revert h
        decide
      · exact ih h

theorem Arg.print_getLast (arg : Arg) : arg.print.getLast? ≠ some '\r' := by
  cases arg with
  | plain w =>
    intro hlast
    have hsolid := w.solidChars _ (List.mem_of_getLast? hlast)
    revert hsolid
    decide
  | quoted text oneLine =>
    have hprint : (Arg.quoted text oneLine).print = ('"' :: text.flatMap escapeChar) ++ ['"'] := rfl
    rw [hprint, List.getLast?_append, List.getLast?_singleton]
    simp

theorem printArgs_getLast (args : List Arg) : (printArgs args).getLast? ≠ some '\r' := by
  induction args with
  | nil => simp [printArgs]
  | cons arg rest ih =>
    rcases rest with _ | ⟨next, rest⟩
    · exact arg.print_getLast
    · have hprint : printArgs (arg :: next :: rest) = arg.print ++ ' ' :: printArgs (next :: rest) := rfl
      have hne : printArgs (next :: rest) ≠ [] := by
        intro hnil
        have := length_le_printArgs (next :: rest)
        rw [hnil] at this
        simp at this
      obtain ⟨c, t, hcons⟩ := List.exists_cons_of_ne_nil hne
      rw [hprint, hcons, List.getLast?_append, List.getLast?_cons_cons, ← hcons]
      rcases hlast : (printArgs (next :: rest)).getLast? with _ | d
      · rw [List.getLast?_eq_none_iff] at hlast
        exact absurd hlast hne
      · rw [hlast] at ih
        exact ih

/-- The lines of a text that is made of printed lines. -/
theorem textLines_printed (lines : List (List Arg)) :
    textLines (joined (lines.map printArgs)) = lines.map printArgs := by
  refine textLines_joined ?_ ?_
  · intro line hline
    obtain ⟨args, -, rfl⟩ := List.mem_map.1 hline
    exact printArgs_oneLine args
  · intro line hline
    obtain ⟨args, -, rfl⟩ := List.mem_map.1 hline
    exact printArgs_getLast args

theorem textLines_save (table : Table) : textLines table.save = table.saved.map printArgs :=
  textLines_printed _

end Lines

/-! ## What is found in a snapshot -/

section Snapshot

variable {table : Table} {chain : Chain} {rule : Rule}

theorem length_of_neighbours {r : Text → Text → Bool} {l : List Text} (h : neighbours r l = true) :
    2 ≤ l.length := by
  match l with
  | [] => cases h
  | [_] => cases h
  | _ :: _ :: _ => simp

/-- A line of a rule is taken for a jump when its chain is not of Argos and it mentions one. -/
theorem isJump_addition : isJump (printArgs (.plain (word "-A") :: .plain chain.name :: rule)) =
    (!ownChain chain.name.text && mentions rule) := by
  have htokens : splitWhitespace (printArgs (.plain (word "-A") :: .plain chain.name :: rule)) =
      "-A".toList :: chain.name.text :: rule.flatMap Arg.tokens := by
    rw [splitWhitespace_printArgs, List.flatMap_cons, List.flatMap_cons, Arg.tokens_plain,
      Arg.tokens_plain]
    rfl
  -- Neither `-A` nor the name of a chain is a flag of a jump.
  have hflag : ∀ name, jumps "-A".toList name = false := by
    intro name
    have hno : ("-A".toList = "-j".toList || "-A".toList = "-g".toList) = false := by decide
    rw [jumps]
    simp only [hno, Bool.false_and]
  have hname : ∀ name, jumps chain.name.text name = false := by
    intro name
    rw [jumps, Bool.and_eq_false_iff, Bool.or_eq_false_iff]
    refine .inl ⟨decide_eq_false fun heq => chain.undashed ?_,
      decide_eq_false fun heq => chain.undashed ?_⟩ <;> rw [heq] <;> decide
  have hneighbours : neighbours jumps ("-A".toList :: chain.name.text :: rule.flatMap Arg.tokens) =
      mentions rule := by
    rw [neighbours, hflag, Bool.false_or, mentions]
    rcases rule.flatMap Arg.tokens with _ | ⟨t, rest⟩
    · rfl
    · rw [neighbours, hname, Bool.false_or]
  unfold isJump
  rw [htokens]
  dsimp only
  rw [hneighbours]
  rcases hmentions : mentions rule with _ | _
  · simp
  · have hlength := length_of_neighbours (show neighbours jumps _ = true from hmentions)
    simp only [List.length_cons, List.getElem?_cons_zero, List.getElem?_cons_succ, Option.getD_some,
      Bool.and_true]
    have hfour : decide (4 ≤ (rule.flatMap Arg.tokens).length + 1 + 1) = true :=
      decide_eq_true (by omega)
    rw [hfour]
    simp

/-- The line of a chain is no jump. -/
theorem isJump_declaration : isJump (printArgs chain.declaration) = false := by
  have htokens : splitWhitespace (printArgs chain.declaration) =
      (':' :: chain.name.text) :: [(chain.policy.getD (word "-")).text, "[0:0]".toList] := by
    rw [splitWhitespace_printArgs, Chain.declaration, List.flatMap_cons, List.flatMap_cons,
      List.flatMap_cons, Arg.tokens_plain, Arg.tokens_plain, Arg.tokens_plain]
    rfl
  unfold isJump
  rw [htokens]
  simp

/-- The rules that `remove_jumps` deletes, in the order of the table. -/
def Table.deletions (table : Table) : List (Word × Rule) :=
  List.flatMap (fun chain => if ownChain chain.name.text then []
    else (chain.rules.filter mentions).map fun rule => (chain.name, rule)) table

/-- A deletion as a line. -/
def deletionArgs (deletion : Word × Rule) : List Arg :=
  .plain (word "-D") :: .plain deletion.1 :: deletion.2

theorem replaceFirst_addition (rest : List Arg) :
    replaceFirst "-A".toList "-D".toList (printArgs (.plain (word "-A") :: .plain chain.name :: rest)) =
      printArgs (.plain (word "-D") :: .plain chain.name :: rest) := by
  have hprint : ∀ w : Word, printArgs (.plain w :: .plain chain.name :: rest) =
      w.text ++ ' ' :: printArgs (.plain chain.name :: rest) := fun _ => rfl
  rw [hprint, hprint]
  show replaceFirst "-A".toList "-D".toList ('-' :: 'A' :: ' ' :: printArgs (.plain chain.name :: rest)) = _
  have hold : "-A".toList.isPrefixOf
      ('-' :: 'A' :: ' ' :: printArgs (.plain chain.name :: rest)) = true := by
    show List.isPrefixOf ['-', 'A'] _ = true
    simp [List.isPrefixOf]
  rw [replaceFirst, if_pos hold]
  rfl

/-- The lines of `remove_jumps` are the deletions. -/
theorem removeJumps_save (table : Table) :
    removeJumps table.save = (table.deletions.map deletionArgs).map printArgs := by
  have hchain : ∀ chain : Chain, ((chain.additions.map printArgs).filter isJump).map
      (replaceFirst "-A".toList "-D".toList) =
      ((if ownChain chain.name.text then [] else (chain.rules.filter mentions).map fun rule =>
        (chain.name, rule)).map deletionArgs).map printArgs := by
    intro chain
    rw [Chain.additions, List.map_map]
    induction chain.rules with
    | nil =>
      split <;> rfl
    | cons rule rest ih =>
      rw [List.map_cons, List.filter_cons]
      simp only [Function.comp_apply, isJump_addition]
      rcases hown : ownChain chain.name.text with _ | _
      · rw [hown] at ih
        rcases hmentions : mentions rule with _ | _
        · simp only [Bool.not_false, Bool.and_false, Bool.false_eq_true, if_false,
            List.filter_cons, hmentions] at ih ⊢
          exact ih
        · simp only [Bool.not_false, Bool.and_true, if_true, Bool.false_eq_true, if_false,
            List.filter_cons, hmentions, List.map_cons, replaceFirst_addition] at ih ⊢
          rw [ih]
          rfl
      · rw [hown] at ih
        simp only [Bool.not_true, Bool.false_and, Bool.false_eq_true, if_false, if_true] at ih ⊢
        exact ih
  have hfirst : isJump (printArgs [.plain (word "*filter")]) = false := by decide
  have hlast : isJump (printArgs [.plain (word "COMMIT")]) = false := by decide
  have hdeclarations : (List.map printArgs (List.map Chain.declaration table)).filter isJump = [] := by
    rw [List.filter_eq_nil_iff]
    intro line hline
    rw [List.map_map] at hline
    obtain ⟨chain, -, rfl⟩ := List.mem_map.1 hline
    simp [isJump_declaration]
  have hadditions : ((List.map printArgs (List.flatMap Chain.additions table)).filter isJump).map
      (replaceFirst "-A".toList "-D".toList) = (table.deletions.map deletionArgs).map printArgs := by
    rw [Table.deletions]
    clear hdeclarations
    induction table with
    | nil => rfl
    | cons chain rest ih =>
      rw [List.flatMap_cons, List.flatMap_cons, List.map_append, List.filter_append, List.map_append,
        List.map_append, List.map_append, hchain, ih]
  rw [removeJumps, textLines_save, Table.saved]
  simp only [List.map_append, List.map_cons, List.map_nil, List.cons_append, List.filter_append,
    List.filter_cons, List.filter_nil, hfirst, hlast, hdeclarations, List.nil_append,
    Bool.false_eq_true, if_false, List.append_nil]
  exact hadditions

/-- The chains of Argos that are found in a snapshot are those of the table. -/
theorem existingChains_save (table : Table) : existingChains table.save =
    (table.names.filter fun name => ownChain name.text).map Word.text := by
  have hdeclared : ∀ chain : Chain, declared (printArgs chain.declaration) =
      if ownChain chain.name.text then some chain.name.text else none := by
    intro chain
    have hprint : printArgs chain.declaration = ':' :: printArgs
        [.plain chain.name, .plain (chain.policy.getD (word "-")), .plain (word "[0:0]")] := rfl
    rw [hprint, declared, splitWhitespace_printArgs, List.flatMap_cons, Arg.tokens_plain,
      List.cons_append, List.head?_cons, Option.filter_some]
  have hadded : ∀ chain : Chain, ∀ rule,
      declared (printArgs (.plain (word "-A") :: .plain chain.name :: rule)) = none := by
    intro chain rule
    rfl
  have hadditions : (List.map printArgs (List.flatMap Chain.additions table)).filterMap declared =
      [] := by
    rw [List.filterMap_eq_nil_iff]
    intro line hline
    obtain ⟨args, hargs, rfl⟩ := List.mem_map.1 hline
    obtain ⟨chain, -, hargs⟩ := List.mem_flatMap.1 hargs
    obtain ⟨rule, -, rfl⟩ := List.mem_map.1 hargs
    exact hadded chain rule
  have hdeclarations : (List.map printArgs (List.map Chain.declaration table)).filterMap declared =
      (table.names.filter fun name => ownChain name.text).map Word.text := by
    rw [Table.names]
    clear hadditions
    induction table with
    | nil => rfl
    | cons chain rest ih =>
      rw [List.map_cons, List.map_cons, List.filterMap_cons, hdeclared, List.map_cons,
        List.filter_cons]
      rcases hown : ownChain chain.name.text with _ | _
      · exact ih
      · simp only [if_true, List.map_cons]
        rw [ih]
  have hfirst : declared (printArgs [.plain (word "*filter")]) = none := by decide
  have hlast : declared (printArgs [.plain (word "COMMIT")]) = none := by decide
  rw [existingChains, textLines_save, Table.saved]
  simp only [List.map_append, List.map_cons, List.map_nil, List.cons_append, List.filterMap_append,
    List.filterMap_cons, List.filterMap_nil, hfirst, hlast, hdeclarations, hadditions,
    List.append_nil]

end Snapshot

/-! ## The commands of the scripts -/

section Commands

/-- The arguments of a command. -/
def Command.args : Command → List Arg
  | .table => [.plain (word "*filter")]
  | .declare chain =>
    [.plain (chain.after ':' solidChar_colon), .plain (word "-"), .plain (word "[0:0]")]
  | .append chain rule => .plain (word "-A") :: .plain chain :: rule
  | .insertFirst chain rule => .plain (word "-I") :: .plain chain :: .plain (word "1") :: rule
  | .delete chain rule => .plain (word "-D") :: .plain chain :: rule
  | .flush chain => [.plain (word "-F"), .plain chain]
  | .remove chain => [.plain (word "-X"), .plain chain]
  | .commit => [.plain (word "COMMIT")]

/-- A command that is written as a line. -/
def Command.line (command : Command) : Text := printArgs command.args

theorem Command.args_ne_nil (command : Command) : command.args ≠ [] := by
  cases command <;> exact List.cons_ne_nil _ _

theorem commandOf_args (command : Command) : commandOf command.args = some command := by
  cases command with
  | declare chain =>
    have hne : ∀ text : String, ∀ h, text.toList.head? ≠ some ':' →
        chain.after ':' solidChar_colon ≠ word text h := by
      intro text h hhead heq
      have htext : ':' :: chain.text = text.toList := congrArg Word.text heq
      rw [← htext] at hhead
      exact hhead rfl
    have hdeclare : declareCommand (chain.after ':' solidChar_colon) = some (.declare chain) := by
      show (if h : solidText chain.text = true then some (Command.declare ⟨chain.text, h⟩) else none) = _
      rw [dif_pos chain.solid]
    rw [Command.args, commandOf]
    rw [if_neg (hne "-A" (by decide) (by decide)), if_neg (hne "-D" (by decide) (by decide)),
      if_neg (hne "-I" (by decide) (by decide)), if_neg (hne "-F" (by decide) (by decide)),
      if_neg (hne "-X" (by decide) (by decide))]
    exact hdeclare
  | table => rfl
  | append chain rule => rfl
  | insertFirst chain rule => rfl
  | delete chain rule => rfl
  | flush chain => rfl
  | remove chain => rfl
  | commit => rfl

theorem parseLine_line (command : Command) : parseLine command.line = some command := by
  rw [Command.line, parseLine_printArgs command.args_ne_nil, commandOf_args]

/-- A script with the lines of some commands. -/
def scriptOf (commands : List Command) : Text :=
  joined ((Command.table :: commands ++ [Command.commit]).map Command.line)

theorem textLines_scriptOf (commands : List Command) :
    textLines (scriptOf commands) = (Command.table :: commands ++ [Command.commit]).map Command.line := by
  have hprinted := textLines_printed ((Command.table :: commands ++ [Command.commit]).map Command.args)
  rw [List.map_map] at hprinted
  exact hprinted

/-- A script applies its commands. -/
theorem restore_scriptOf (table : Table) (commands : List Command) :
    table.restore (scriptOf commands) = table.applyAll commands := by
  have hparsed : ∀ cs : List Command, (cs.map Command.line).mapM parseLine = some cs := by
    intro cs
    induction cs with
    | nil => rfl
    | cons c cs ih => simp [List.mapM_cons, parseLine_line, ih]
  have hbody : Table.body (Command.table :: commands ++ [Command.commit]) = some commands := by
    show (if (commands ++ [Command.commit]).getLast? = some .commit then
      some (commands ++ [Command.commit]).dropLast else none) = _
    simp
  rw [Table.restore, textLines_scriptOf, hparsed, Option.bind_eq_bind, Option.bind_some, hbody]
  rfl

/-- Words that are written out, as arguments. -/
def plainArgs (texts : List String) : List Arg :=
  texts.filterMap fun text =>
    if h : solidText text.toList = true then some (.plain ⟨text.toList, h⟩) else none

/-- The chains that an isolation makes. -/
def argosWords : List Word := [word "ARGOS_INPUT", word "ARGOS_OUTPUT", word "ARGOS_FORWARD"]

/-- `LEGACY_CHAIN`. -/
def legacyWord : Word := word "ARGOS_ISOLATE"

/-- What an isolation allows in the chains of Argos before the management rules. -/
def fixedCommands (ipv6 : Bool) : List Command :=
  [.append (word "ARGOS_INPUT") (plainArgs ["-i", "lo", "-j", "ACCEPT"]),
    .append (word "ARGOS_OUTPUT") (plainArgs ["-o", "lo", "-j", "ACCEPT"])] ++
  if ipv6 then
    [.append (word "ARGOS_INPUT") (plainArgs
        ["-p", "ipv6-icmp", "--icmpv6-type", "135", "-m", "hl", "--hl-eq", "255", "-j", "ACCEPT"]),
      .append (word "ARGOS_INPUT") (plainArgs
        ["-p", "ipv6-icmp", "--icmpv6-type", "136", "-m", "hl", "--hl-eq", "255", "-j", "ACCEPT"]),
      .append (word "ARGOS_OUTPUT") (plainArgs
        ["-p", "ipv6-icmp", "--icmpv6-type", "135", "-m", "hl", "--hl-eq", "255", "-j", "ACCEPT"]),
      .append (word "ARGOS_OUTPUT") (plainArgs
        ["-p", "ipv6-icmp", "--icmpv6-type", "136", "-m", "hl", "--hl-eq", "255", "-j", "ACCEPT"]),
      .append (word "ARGOS_INPUT") (plainArgs ["-s", "fe80::/10", "-p", "ipv6-icmp",
        "--icmpv6-type", "134", "-m", "hl", "--hl-eq", "255", "-j", "ACCEPT"]),
      .append (word "ARGOS_OUTPUT") (plainArgs ["-d", "ff02::2", "-p", "ipv6-icmp",
        "--icmpv6-type", "133", "-m", "hl", "--hl-eq", "255", "-j", "ACCEPT"])]
  else []

/-- The network of a management rule as a word. -/
def ManagementRule.networkWord (rule : ManagementRule) : Word := ⟨rule.network, rule.network_solid⟩

/-- The port of a management rule as a word. -/
def ManagementRule.portWord (rule : ManagementRule) : Word :=
  ⟨IpAddr.decimal rule.port, by
    rw [solidText, Bool.and_eq_true, Bool.not_eq_true', List.isEmpty_eq_false_iff, List.all_eq_true]
    exact ⟨Nat.toDigits_ne_nil, IpAddr.digits_solid (by decide) (by decide) rule.port⟩⟩

/-- One of the two commands of a management rule. -/
def managementCommand (rule : ManagementRule) (chain peer : Word) (port state direction : String) :
    Command :=
  .append chain ([.plain peer, .plain rule.networkWord] ++ plainArgs ["-p", "tcp", port] ++
    [.plain rule.portWord] ++
    plainArgs ["-m", "conntrack", "--ctstate", state, "--ctdir", direction, "-j", "ACCEPT"])

/-- The commands of a management rule. -/
def managementCommands (rule : ManagementRule) : List Command :=
  if rule.inbound then
    [managementCommand rule (word "ARGOS_INPUT") (word "-s") "--dport" "NEW,ESTABLISHED" "ORIGINAL",
      managementCommand rule (word "ARGOS_OUTPUT") (word "-d") "--sport" "ESTABLISHED" "REPLY"]
  else
    [managementCommand rule (word "ARGOS_OUTPUT") (word "-d") "--dport" "NEW,ESTABLISHED" "ORIGINAL",
      managementCommand rule (word "ARGOS_INPUT") (word "-s") "--sport" "ESTABLISHED" "REPLY"]

/-- The jump to a chain. -/
def jumpTo (chain : Word) : Rule := [.plain (word "-j"), .plain chain]

/-- The last commands of an isolation. -/
def enforceCommands : List Command :=
  [.append (word "ARGOS_INPUT") (plainArgs ["-j", "DROP"]),
    .insertFirst (word "INPUT") (jumpTo (word "ARGOS_INPUT")),
    .append (word "ARGOS_OUTPUT") (plainArgs ["-j", "DROP"]),
    .insertFirst (word "OUTPUT") (jumpTo (word "ARGOS_OUTPUT")),
    .append (word "ARGOS_FORWARD") (plainArgs ["-j", "DROP"]),
    .insertFirst (word "FORWARD") (jumpTo (word "ARGOS_FORWARD"))]

/-- The deletions of a table. -/
def Table.deleteCommands (table : Table) : List Command :=
  table.deletions.map fun deletion => .delete deletion.1 deletion.2

/-- The commands of an isolation. -/
def isolationCommands (rules : List ManagementRule) (ipv6 : Bool) (table : Table) : List Command :=
  argosWords.map Command.declare ++ table.deleteCommands ++
    (if legacyWord ∈ table.names then [.flush legacyWord, .remove legacyWord] else []) ++
    (fixedCommands ipv6 ++ (rules.filter fun rule => rule.ipv6 = ipv6).flatMap managementCommands) ++
    enforceCommands

theorem managementLines_eq (rule : ManagementRule) :
    managementLines rule = (managementCommands rule).map Command.line := by
  have hline : ∀ (chain peer : String) (hchain hpeer), ∀ port ∈ ["--dport", "--sport"],
      ∀ state ∈ ["NEW,ESTABLISHED", "ESTABLISHED"], ∀ direction ∈ ["ORIGINAL", "REPLY"],
      (managementCommand rule (word chain hchain) (word peer hpeer) port state direction).line =
        "-A ".toList ++ (chain.toList ++ (" ".toList ++ (peer.toList ++ (" ".toList ++ (rule.network ++
          ((" -p tcp " ++ port ++ " ").toList ++ (IpAddr.decimal rule.port ++
          (" -m conntrack --ctstate " ++ state ++ " --ctdir " ++ direction ++ " -j ACCEPT").toList))))))) := by
    intro chain peer hchain hpeer port hport state hstate direction hdirection
    simp only [List.mem_cons, List.not_mem_nil, or_false] at hport hstate hdirection
    rcases hport with rfl | rfl <;> rcases hstate with rfl | rfl <;> rcases hdirection with rfl | rfl <;>
      rfl
  unfold managementLines managementCommands
  rcases rule.inbound with _ | _
  all_goals
    simp only [Bool.false_eq_true, if_false, if_true, List.map_cons, List.map_nil, List.cons.injEq, and_true]
    refine ⟨Eq.trans ?_ (hline _ _ _ _ _ (by decide) _ (by decide) _ (by decide)).symm,
      Eq.trans ?_ (hline _ _ _ _ _ (by decide) _ (by decide) _ (by decide)).symm⟩ <;>
    · simp only [List.append_assoc]
      rfl

theorem deleteCommands_line (table : Table) :
    removeJumps table.save = table.deleteCommands.map Command.line := by
  rw [removeJumps_save, Table.deleteCommands, List.map_map, List.map_map]
  rfl

theorem legacy_found (table : Table) :
    legacyChain.toList ∈ existingChains table.save ↔ legacyWord ∈ table.names := by
  rw [existingChains_save, List.mem_map]
  constructor
  · rintro ⟨name, hname, htext⟩
    -- A word is its text.
    have heq : name = legacyWord := by
      obtain ⟨text, solid⟩ := name
      obtain rfl : text = legacyChain.toList := htext
      rfl
    rw [← heq]
    exact (List.mem_filter.1 hname).1
  · intro hname
    exact ⟨legacyWord, List.mem_filter.2 ⟨hname, by decide⟩, rfl⟩

theorem table_line : Command.table.line = "*filter".toList := rfl

theorem commit_line : Command.commit.line = "COMMIT".toList := rfl

/-- The script of an isolation has the lines of its commands. -/
theorem isolationScript_save (rules : List ManagementRule) (ipv6 : Bool) (table : Table) :
    isolationScript rules ipv6 table.save = scriptOf (isolationCommands rules ipv6 table) := by
  have hdeclare : argosChains.map (fun pair => (":" ++ pair.2 ++ " - [0:0]").toList) =
      (argosWords.map Command.declare).map Command.line := rfl
  have hlegacy : (if (existingChains table.save).contains legacyChain.toList then
      [("-F " ++ legacyChain).toList, ("-X " ++ legacyChain).toList] else []) =
      (if legacyWord ∈ table.names then [Command.flush legacyWord, .remove legacyWord]
        else []).map Command.line := by
    simp only [List.contains_iff_mem, legacy_found]
    split <;> rfl
  have hfixed : ["-A ARGOS_INPUT -i lo -j ACCEPT".toList, "-A ARGOS_OUTPUT -o lo -j ACCEPT".toList] ++
      (if ipv6 then neighbourLines.map String.toList else []) =
      (fixedCommands ipv6).map Command.line := by
    rcases ipv6 with _ | _ <;> decide +kernel
  have hmanagement : (rules.filter fun rule => rule.ipv6 = ipv6).flatMap managementLines =
      ((rules.filter fun rule => rule.ipv6 = ipv6).flatMap managementCommands).map Command.line := by
    rw [List.map_flatMap]
    congr 1
    funext rule
    exact managementLines_eq rule
  have henforce : argosChains.flatMap (fun pair => (enforceLines pair).map String.toList) =
      enforceCommands.map Command.line := rfl
  unfold isolationScript scriptOf isolationCommands
  rw [hdeclare, deleteCommands_line, hlegacy, hmanagement, henforce]
  simp only [List.map_append, List.map_cons, List.append_assoc, List.cons_append, List.nil_append,
    List.map_nil, ← hfixed, table_line, commit_line]

/-- An isolation applies its commands. -/
theorem isolate_eq (rules : List ManagementRule) (ipv6 : Bool) (table : Table) :
    isolate rules ipv6 table = table.applyAll (isolationCommands rules ipv6 table) := by
  rw [isolate, isolationScript_save, restore_scriptOf]

end Commands

end Argos.Response
