import Argos.Response.Address

/-!
# The scripts of an isolation

`argos-response/src/isolate.rs`: an isolation puts a jump to a chain of Argos before the rules of each
built-in chain, and a release takes the jumps and the chains away. Both are scripts for
`iptables-restore` that are made from what `iptables-save` prints. The jumps that are there are found
in the printed lines (`remove_jumps`): a line is cut at whitespace, and it is taken for a jump when
somewhere in it `-j` or `-g` stands before the name of a chain of Argos.
-/

namespace Argos.Response

open Argos.Lib
open Argos.Vault (isWhitespace)

/-- `str::split_whitespace`. -/
def splitWhitespace (t : Text) : List Text := words isWhitespace t

/-- `CHAINS`. -/
def argosChains : List (String × String) :=
  [("INPUT", "ARGOS_INPUT"), ("OUTPUT", "ARGOS_OUTPUT"), ("FORWARD", "ARGOS_FORWARD")]

/-- `LEGACY_CHAIN`. -/
def legacyChain : String := "ARGOS_ISOLATE"

/-- `own_chain`. -/
def ownChain (name : Text) : Bool :=
  argosChains.any (fun pair => pair.2.toList = name) || name = legacyChain.toList

/-- The name of a chain of Argos that a line declares. -/
def declared : Text → Option Text
  | ':' :: rest => (splitWhitespace rest).head?.filter ownChain
  | _ => none

/-- `existing_chains`. -/
def existingChains (snapshot : Text) : List Text := (textLines snapshot).filterMap declared

/-- Two neighbours in a list satisfy a relation, `windows(2).any(..)`. -/
def neighbours (r : Text → Text → Bool) : List Text → Bool
  | a :: b :: rest => r a b || neighbours r (b :: rest)
  | _ => false

/-- `-j` or `-g` before a chain of Argos. -/
def jumps (flag name : Text) : Bool := (flag = "-j".toList || flag = "-g".toList) && ownChain name

/-- The test of `remove_jumps` on a line. -/
def isJump (line : Text) : Bool :=
  let tokens := splitWhitespace line
  4 ≤ tokens.length && tokens[0]? = some "-A".toList && !ownChain (tokens[1]?.getD []) &&
    neighbours jumps tokens

/-- `replacen(.., .., 1)`. -/
def replaceFirst (old new : Text) : Text → Text
  | [] => []
  | c :: rest =>
    if old.isPrefixOf (c :: rest) then new ++ (c :: rest).drop old.length
    else c :: replaceFirst old new rest

/-- The lines of `remove_jumps`. -/
def removeJumps (snapshot : Text) : List Text :=
  ((textLines snapshot).filter isJump).map (replaceFirst "-A".toList "-D".toList)

/-- The lines that allow neighbour discovery within a link. -/
def neighbourLines : List String :=
  ["-A ARGOS_INPUT -p ipv6-icmp --icmpv6-type 135 -m hl --hl-eq 255 -j ACCEPT",
    "-A ARGOS_INPUT -p ipv6-icmp --icmpv6-type 136 -m hl --hl-eq 255 -j ACCEPT",
    "-A ARGOS_OUTPUT -p ipv6-icmp --icmpv6-type 135 -m hl --hl-eq 255 -j ACCEPT",
    "-A ARGOS_OUTPUT -p ipv6-icmp --icmpv6-type 136 -m hl --hl-eq 255 -j ACCEPT",
    "-A ARGOS_INPUT -s fe80::/10 -p ipv6-icmp --icmpv6-type 134 -m hl --hl-eq 255 -j ACCEPT",
    "-A ARGOS_OUTPUT -d ff02::2 -p ipv6-icmp --icmpv6-type 133 -m hl --hl-eq 255 -j ACCEPT"]

/-- The two lines of a management rule: what opens a connection, and what answers. -/
def managementLines (rule : ManagementRule) : List Text :=
  let (original, originalPeer, reply, replyPeer) :=
    if rule.inbound then ("ARGOS_INPUT", "-s", "ARGOS_OUTPUT", "-d")
    else ("ARGOS_OUTPUT", "-d", "ARGOS_INPUT", "-s")
  ["-A ".toList ++ original.toList ++ " ".toList ++ originalPeer.toList ++ " ".toList ++
      rule.network ++ " -p tcp --dport ".toList ++ IpAddr.decimal rule.port ++
      " -m conntrack --ctstate NEW,ESTABLISHED --ctdir ORIGINAL -j ACCEPT".toList,
    "-A ".toList ++ reply.toList ++ " ".toList ++ replyPeer.toList ++ " ".toList ++
      rule.network ++ " -p tcp --sport ".toList ++ IpAddr.decimal rule.port ++
      " -m conntrack --ctstate ESTABLISHED --ctdir REPLY -j ACCEPT".toList]

/-- The last lines for a chain: what is not allowed is dropped, and the chain is jumped to. -/
def enforceLines (pair : String × String) : List String :=
  ["-A " ++ pair.2 ++ " -j DROP", "-I " ++ pair.1 ++ " 1 -j " ++ pair.2]

/-- `isolation_script`. -/
def isolationScript (rules : List ManagementRule) (ipv6 : Bool) (snapshot : Text) : Text :=
  joined (
    ["*filter".toList] ++
    argosChains.map (fun pair => (":" ++ pair.2 ++ " - [0:0]").toList) ++
    removeJumps snapshot ++
    (if (existingChains snapshot).contains legacyChain.toList then
      [("-F " ++ legacyChain).toList, ("-X " ++ legacyChain).toList] else []) ++
    ["-A ARGOS_INPUT -i lo -j ACCEPT".toList, "-A ARGOS_OUTPUT -o lo -j ACCEPT".toList] ++
    (if ipv6 then neighbourLines.map String.toList else []) ++
    (rules.filter fun rule => rule.ipv6 = ipv6).flatMap managementLines ++
    argosChains.flatMap (fun pair => (enforceLines pair).map String.toList) ++
    ["COMMIT".toList])

/-- `release_script`. -/
def releaseScript (snapshot : Text) : Text :=
  joined (
    ["*filter".toList] ++
    removeJumps snapshot ++
    (existingChains snapshot).map (fun chain => "-F ".toList ++ chain) ++
    (existingChains snapshot).map (fun chain => "-X ".toList ++ chain) ++
    ["COMMIT".toList])

/-- The isolation of one family of addresses: the script that is made from the table is applied. -/
def isolate (rules : List ManagementRule) (ipv6 : Bool) (table : Table) : Option Table :=
  table.restore (isolationScript rules ipv6 table.save)

/-- The release of one family of addresses. -/
def release (table : Table) : Option Table := table.restore (releaseScript table.save)

/-! ## The scripts as commands -/

section Commands

/-- A line that is printed is read as a command. -/
theorem parseLine_printArgs {args : List Arg} (hne : args ≠ []) :
    parseLine (printArgs args) = commandOf args := by
  rw [parseLine, parseArgs_printArgs hne (length_le_printArgs args)]
  rfl

/-- The words of a printed argument. -/
def Arg.tokens (arg : Arg) : List Text := splitWhitespace arg.print

theorem solidChar_space {c : Char} (h : solidChar c = true) : isWhitespace c = false := by
  unfold solidChar at h
  simp only [Bool.and_eq_true, Bool.not_eq_true'] at h
  exact h.1.1.1

theorem Arg.tokens_plain (w : Word) : (Arg.plain w).tokens = [w.text] :=
  words_solid w.ne_nil fun c hc => solidChar_space (w.solidChars c hc)

/-- The words of a printed line are those of its arguments. -/
theorem splitWhitespace_printArgs (args : List Arg) :
    splitWhitespace (printArgs args) = args.flatMap Arg.tokens := by
  induction args with
  | nil => rfl
  | cons arg rest ih =>
    rcases rest with _ | ⟨next, rest⟩
    · simp [printArgs, Arg.tokens]
    · have hprint : printArgs (arg :: next :: rest) = arg.print ++ ' ' :: printArgs (next :: rest) := rfl
      have hspace : isWhitespace ' ' = true := by decide
      rw [hprint, splitWhitespace, words_append_cons hspace, List.flatMap_cons, ← ih]
      rfl

theorem neighbours_append {r : Text → Text → Bool} {a b : List Text} (h : neighbours r b = true) :
    neighbours r (a ++ b) = true := by
  induction a with
  | nil => exact h
  | cons x a ih =>
    rcases hab : a ++ b with _ | ⟨y, rest⟩
    · rw [hab] at ih
      cases ih
    · rw [List.cons_append, hab, neighbours, Bool.or_eq_true]
      rw [hab] at ih
      exact .inr ih

/-- A rule whose printed arguments show a jump to a chain of Argos. -/
def mentions (rule : Rule) : Bool := neighbours jumps (rule.flatMap Arg.tokens)

/-- A rule that jumps or goes to a chain of Argos. -/
def toArgos (rule : Rule) : Bool := (target rule).any fun name => ownChain name.text

/-- A rule that jumps to a chain of Argos shows it. -/
theorem mentions_of_toArgos {rule : Rule} (h : toArgos rule = true) : mentions rule = true := by
  unfold toArgos at h
  rw [Option.any_eq_true] at h
  obtain ⟨name, htarget, hown⟩ := h
  unfold mentions
  fun_induction target rule with
  | case1 flag chain rest hflag =>
    obtain rfl := Option.some.inj htarget
    rw [List.flatMap_cons, List.flatMap_cons, Arg.tokens_plain, Arg.tokens_plain]
    show (jumps flag.text chain.text || _) = true
    rw [Bool.or_eq_true, jumps, Bool.and_eq_true, Bool.or_eq_true]
    refine .inl ⟨?_, hown⟩
    rcases hflag with rfl | rfl
    · exact .inl (by decide)
    · exact .inr (by decide)
  | case2 flag chain rest hflag ih =>
    rw [List.flatMap_cons]
    exact neighbours_append (ih htarget)
  | case3 arg rest hno ih =>
    rw [List.flatMap_cons]
    exact neighbours_append (ih htarget)
  | case4 => cases htarget

end Commands

end Argos.Response
