import Argos.Lib.Words
import Argos.Vault.Checks

/-!
# A filter table and its text

What `argos-response/src/isolate.rs` relies on of `iptables`: a filter table with its chains,
`iptables-save`, which prints it one line for each chain and each rule, and `iptables-restore
--noflush`, which applies the lines of a script to it, all or none.

A rule is the list of its arguments. An argument is printed as it is when it is a word without
whitespace and quotes, and otherwise (as comments are) between quotes, with a backslash before every
quote and backslash. `parseArgs_printArgs` says that what was printed is read back.
-/

namespace Argos.Response

open Argos.Lib
open Argos.Vault (isWhitespace)

/-! ## Arguments -/

/-- A character that is printed without quotes. -/
def solidChar (c : Char) : Bool := !isWhitespace c && c ≠ '"' && c ≠ '\'' && c ≠ '\\'

/-- A text that is printed without quotes. -/
def solidText (t : Text) : Bool := !t.isEmpty && t.all solidChar

/-- A word: a text that is printed without quotes. -/
structure Word where
  text : Text
  solid : solidText text = true
deriving DecidableEq

/-- A word that is written out. -/
def word (text : String) (solid : solidText text.toList = true := by exact Eq.refl true) : Word :=
  ⟨text.toList, solid⟩

/-- An argument of a rule. -/
inductive Arg where
  | plain (word : Word)
  | quoted (text : Text) (oneLine : '\n' ∉ text)
deriving DecidableEq

/-- A character between quotes. -/
def escapeChar (c : Char) : Text := if c = '"' ∨ c = '\'' ∨ c = '\\' then ['\\', c] else [c]

/-- An argument as it is printed. -/
def Arg.print : Arg → Text
  | .plain word => word.text
  | .quoted text _ => '"' :: (text.flatMap escapeChar ++ ['"'])

/-- Arguments as they are printed, with a blank between them. -/
def printArgs : List Arg → Text
  | [] => []
  | [arg] => arg.print
  | arg :: rest => arg.print ++ ' ' :: printArgs rest

/-- The text up to the next quote that is not escaped, and what follows. -/
def readQuoted : Text → Option (Text × Text)
  | [] => none
  | c :: rest =>
    if c = '"' then some ([], rest)
    else if c = '\\' then
      match rest with
      | d :: rest' => (readQuoted rest').map fun r => (d :: r.1, r.2)
      | [] => none
    else (readQuoted rest).map fun r => (c :: r.1, r.2)

/-- A text between quotes is an argument if it is on one line. -/
def quotedArg (r : Text × Text) : Option (Arg × Text) :=
  if h : '\n' ∉ r.1 then some (.quoted r.1 h, r.2) else none

/-- A word and what follows it. -/
def plainArg (t : Text) : Option (Arg × Text) :=
  if h : solidText (t.takeWhile solidChar) = true then
    some (.plain ⟨t.takeWhile solidChar, h⟩, t.dropWhile solidChar)
  else none

/-- The first argument of a text and what follows it. -/
def parseArg (t : Text) : Option (Arg × Text) :=
  if t.head? = some '"' then (readQuoted t.tail).bind quotedArg else plainArg t

/-- The arguments of a line; every one takes a step. -/
def parseArgs : Nat → Text → Option (List Arg)
  | 0, _ => none
  | n + 1, t =>
    match parseArg t with
    | none => none
    | some (arg, []) => some [arg]
    | some (arg, c :: rest) =>
      if c = ' ' then (parseArgs n rest).map fun args => arg :: args else none

section RoundTrip

theorem readQuoted_escape (t rest : Text) :
    readQuoted (t.flatMap escapeChar ++ '"' :: rest) = some (t, rest) := by
  induction t with
  | nil =>
    show readQuoted ('"' :: rest) = some ([], rest)
    rw [readQuoted.eq_def]
    simp only [if_true]
  | cons c t ih =>
    rw [List.flatMap_cons, List.append_assoc]
    by_cases hescaped : c = '"' ∨ c = '\'' ∨ c = '\\'
    · -- An escaped character is read as it is.
      have hchar : escapeChar c = ['\\', c] := if_pos hescaped
      rw [hchar, List.cons_append, List.cons_append, readQuoted.eq_def]
      simp only [List.nil_append, if_true]
      rw [if_neg (by decide), ih]
      rfl
    · have hchar : escapeChar c = [c] := if_neg hescaped
      push Not at hescaped
      rw [hchar, List.cons_append, List.nil_append, readQuoted.eq_def]
      simp only [hescaped.1, hescaped.2.2, if_false]
      rw [ih]
      rfl

theorem Word.solidChars (w : Word) : ∀ c ∈ w.text, solidChar c = true := by
  have h := w.solid
  rw [solidText, Bool.and_eq_true] at h
  exact List.all_eq_true.1 h.2

theorem Word.ne_nil (w : Word) : w.text ≠ [] := by
  have h := w.solid
  rw [solidText, Bool.and_eq_true, Bool.not_eq_true', List.isEmpty_eq_false_iff] at h
  exact h.1

/-- An argument is read back, when a blank follows or nothing. -/
theorem parseArg_print (arg : Arg) {rest : Text} (hrest : ∀ c ∈ rest.head?, solidChar c = false) :
    parseArg (arg.print ++ rest) = some (arg, rest) := by
  cases arg with
  | plain w =>
    have htake : (w.text ++ rest).takeWhile solidChar = w.text := by
      rw [List.takeWhile_append_of_pos w.solidChars]
      cases rest with
      | nil => simp
      | cons c rest => simp [hrest c rfl]
    have hdrop : (w.text ++ rest).dropWhile solidChar = rest := by
      rw [List.dropWhile_append_of_pos w.solidChars]
      cases rest with
      | nil => rfl
      | cons c rest => simp [hrest c rfl]
    have hfirst : (w.text ++ rest).head? ≠ some '"' := by
      intro hquote
      obtain ⟨c, t, hcons⟩ := List.exists_cons_of_ne_nil w.ne_nil
      rw [hcons, List.cons_append, List.head?_cons, Option.some.injEq] at hquote
      have hsolid := w.solidChars c (hcons ▸ List.mem_cons_self)
      rw [hquote] at hsolid
      revert hsolid
      decide
    show parseArg (w.text ++ rest) = _
    rw [parseArg, if_neg hfirst, plainArg]
    simp only [htake, hdrop, w.solid, dite_true]
  | quoted text oneLine =>
    show parseArg ('"' :: (text.flatMap escapeChar ++ ['"']) ++ rest) = _
    rw [parseArg, if_pos (by simp)]
    simp only [List.cons_append, List.append_assoc, List.nil_append, List.tail_cons,
      readQuoted_escape, Option.bind_some, quotedArg]
    rw [dif_pos oneLine]

/-- What was printed is read back. -/
theorem parseArgs_printArgs {args : List Arg} (hne : args ≠ []) {n : Nat} (hn : args.length ≤ n) :
    parseArgs n (printArgs args) = some args := by
  induction args generalizing n with
  | nil => exact absurd rfl hne
  | cons arg rest ih =>
    obtain ⟨m, rfl⟩ : ∃ m, n = m + 1 := ⟨n - 1, by simp at hn; omega⟩
    rcases rest with _ | ⟨next, rest⟩
    · have hparse := @parseArg_print arg [] (by simp)
      rw [List.append_nil] at hparse
      rw [printArgs, parseArgs, hparse]
    · have hparse := @parseArg_print arg (' ' :: printArgs (next :: rest))
        (by rintro c ⟨⟩; decide)
      rw [printArgs, parseArgs, hparse]
      · dsimp only
        rw [if_pos rfl, ih (by simp) (by simp at hn ⊢; omega)]
        rfl
      · simp

theorem Arg.print_ne_nil (arg : Arg) : arg.print ≠ [] := by
  cases arg with
  | plain w => exact w.ne_nil
  | quoted text h => simp [Arg.print]

theorem length_le_printArgs (args : List Arg) : args.length ≤ (printArgs args).length := by
  induction args with
  | nil => simp [printArgs]
  | cons arg rest ih =>
    have hpos : 0 < arg.print.length := List.length_pos_iff.2 arg.print_ne_nil
    rcases rest with _ | ⟨next, rest⟩
    · exact hpos
    · have hprint : printArgs (arg :: next :: rest) = arg.print ++ ' ' :: printArgs (next :: rest) := rfl
      simp only [hprint, List.length_append, List.length_cons] at ih ⊢
      omega

end RoundTrip

/-! ## Chains and rules -/

/-- A rule: its arguments. -/
abbrev Rule := List Arg

/-- Where a rule jumps or goes to: the argument of its `-j` or `-g`. -/
def target : Rule → Option Word
  | .plain flag :: .plain chain :: rest =>
    if flag = word "-j" ∨ flag = word "-g" then some chain else target (.plain chain :: rest)
  | _ :: rest => target rest
  | [] => none

/-- A chain: its name, which is not an option, its policy if it is one of the built-in chains, and its
rules. -/
structure Chain where
  name : Word
  undashed : name.text.head? ≠ some '-'
  policy : Option Word
  rules : List Rule
deriving DecidableEq

/-- A filter table: its chains in the order of `iptables-save`. -/
abbrev Table := List Chain

/-- The names of the chains. -/
def Table.names (table : Table) : List Word := List.map Chain.name table

/-- The built-in chains of a filter table. -/
def builtin : List Word := [word "INPUT", word "FORWARD", word "OUTPUT"]

/-- A filter table as the kernel has it: one chain for a name, the three built-in chains with their
policies, and no other chain with a policy. -/
structure Filter (table : Table) : Prop where
  distinct : table.names.Nodup
  present : ∀ name ∈ builtin, name ∈ table.names
  policies : ∀ chain ∈ table, chain.policy.isSome ↔ chain.name ∈ builtin

/-! ## `iptables-save` -/

/-- A word with a character before it. -/
def Word.after (c : Char) (hc : solidChar c = true) (w : Word) : Word :=
  ⟨c :: w.text, by
    have h := w.solid
    rw [solidText, Bool.and_eq_true] at h
    simp [solidText, hc, h.2]⟩

theorem solidChar_colon : solidChar ':' = true := by decide

/-- The line of a chain, `:name policy [0:0]`. -/
def Chain.declaration (chain : Chain) : List Arg :=
  [.plain (chain.name.after ':' solidChar_colon), .plain (chain.policy.getD (word "-")),
    .plain (word "[0:0]")]

/-- The lines of the rules of a chain, `-A name ..`. -/
def Chain.additions (chain : Chain) : List (List Arg) :=
  chain.rules.map fun rule => .plain (word "-A") :: .plain chain.name :: rule

/-- The lines that `iptables-save -t filter` prints. -/
def Table.saved (table : Table) : List (List Arg) :=
  [.plain (word "*filter")] :: (List.map Chain.declaration table ++ List.flatMap Chain.additions table) ++
    [[.plain (word "COMMIT")]]

/-- `iptables-save -t filter`. -/
def Table.save (table : Table) : Text := joined (table.saved.map printArgs)

/-! ## `iptables-restore --noflush` -/

/-- A line of a script. -/
inductive Command where
  | table
  /-- `:chain`, which creates or empties a chain. -/
  | declare (chain : Word)
  /-- `-A`, which appends a rule. -/
  | append (chain : Word) (rule : Rule)
  /-- `-I .. 1`, which inserts a rule as the first. -/
  | insertFirst (chain : Word) (rule : Rule)
  /-- `-D`, which removes the first equal rule. -/
  | delete (chain : Word) (rule : Rule)
  /-- `-F`, which empties a chain. -/
  | flush (chain : Word)
  /-- `-X`, which removes an empty chain that nothing refers to. -/
  | remove (chain : Word)
  | commit
deriving DecidableEq

/-- The command that declares a chain. -/
def declareCommand (w : Word) : Option Command :=
  match w.text with
  | ':' :: name => if h : solidText name = true then some (.declare ⟨name, h⟩) else none
  | _ => none

/-- The command of a line. -/
def commandOf : List Arg → Option Command
  | [.plain w] =>
    if w = word "*filter" then some .table else if w = word "COMMIT" then some .commit
    else declareCommand w
  | .plain w :: .plain chain :: rest =>
    if w = word "-A" then some (.append chain rest)
    else if w = word "-D" then some (.delete chain rest)
    else if w = word "-F" then (if rest = [] then some (.flush chain) else none)
    else if w = word "-X" then (if rest = [] then some (.remove chain) else none)
    else if w = word "-I" then
      match rest with
      | .plain first :: rule => if first = word "1" then some (.insertFirst chain rule) else none
      | _ => none
    else declareCommand w
  | _ => none

/-- A line of a script is read. -/
def parseLine (line : Text) : Option Command := (parseArgs line.length line).bind commandOf

namespace Table

/-- The rules of a chain are changed. -/
def update (table : Table) (name : Word) (f : List Rule → List Rule) : Table :=
  List.map (fun chain => if chain.name = name then { chain with rules := f chain.rules } else chain)
    table

/-- The rules of a chain, if it is there. -/
def rulesOf (table : Table) (name : Word) : Option (List Rule) :=
  (List.find? (fun chain => chain.name = name) table).map Chain.rules

/-- A command is applied, if it can be. -/
def apply (table : Table) : Command → Option Table
  | .declare name =>
    if name ∈ builtin then none
    else if name ∈ table.names then some (table.update name fun _ => [])
    else if h : name.text.head? ≠ some '-' then some (table ++ [⟨name, h, none, []⟩])
    else none
  | .append name rule =>
    if name ∈ table.names then some (table.update name fun rules => rules ++ [rule]) else none
  | .insertFirst name rule =>
    if name ∈ table.names then some (table.update name fun rules => rule :: rules) else none
  | .delete name rule =>
    match table.rulesOf name with
    | some rules =>
      if rule ∈ rules then some (table.update name fun rules => rules.erase rule) else none
    | none => none
  | .flush name => if name ∈ table.names then some (table.update name fun _ => []) else none
  | .remove name =>
    if name ∈ table.names ∧ name ∉ builtin ∧ table.rulesOf name = some [] ∧
        ∀ chain ∈ table, ∀ rule ∈ chain.rules, target rule ≠ some name then
      some (List.filter (fun chain => chain.name ≠ name) table)
    else none
  | .table => none
  | .commit => none

/-- Commands are applied one after the other. -/
def applyAll (table : Table) (commands : List Command) : Option Table :=
  commands.foldlM apply table

/-- The commands of a script between its first and its last line. -/
def body (commands : List Command) : Option (List Command) :=
  match commands with
  | .table :: rest => if rest.getLast? = some .commit then some rest.dropLast else none
  | _ => none

/-- `iptables-restore --noflush`. -/
def restore (table : Table) (script : Text) : Option Table := do
  let commands ← (textLines script).mapM parseLine
  let commands ← body commands
  table.applyAll commands

end Table

end Argos.Response
