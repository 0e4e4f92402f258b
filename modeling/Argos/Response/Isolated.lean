import Argos.Response.Packets

/-!
# What an isolation does to packets

The rules of the chains after an isolation are followed through its commands: each chain of Argos has
the rules that were allowed for it and then the rule that drops the rest (`isolated_own`), and each
built-in chain begins with the jump to its chain (`isolated_base`). So what the kernel does with a packet
is decided before it comes to a rule of others (`isolated_verdict`), and what is accepted is told by the
management rules as they were parsed, `Packet.admitted`.
-/

namespace Argos.Response

open Argos.Lib

/-! ## The rules of the chains -/

section Rules

variable {table t : Table} {name : Word}

/-- What some commands do to the rules of a chain. -/
def effects (name : Word) (commands : List Command) (rules : Option (List Rule)) : Option (List Rule) :=
  commands.foldl (fun rules c => effect name c rules) rules

theorem effects_append (a b : List Command) (rules : Option (List Rule)) :
    effects name (a ++ b) rules = effects name b (effects name a rules) := List.foldl_append

/-- Commands for other chains. -/
theorem effects_skip {commands : List Command} (h : ∀ c ∈ commands, ∀ rules, effect name c rules = rules)
    (rules : Option (List Rule)) : effects name commands rules = rules := by
  unfold effects
  induction commands generalizing rules with
  | nil => rfl
  | cons c rest ih =>
    rw [List.foldl_cons, h c List.mem_cons_self]
    exact ih (fun d hd => h d (List.mem_cons_of_mem _ hd)) rules

/-- The rule that a command appends to a chain. -/
def appended (name : Word) : Command → Option Rule
  | .append chain rule => if chain = name then some rule else none
  | _ => none

/-- Commands that only append rules. -/
theorem effects_appends {commands : List Command} (h : ∀ c ∈ commands, ∃ chain rule, c = .append chain rule)
    (rules : List Rule) :
    effects name commands (some rules) = some (rules ++ commands.filterMap (appended name)) := by
  unfold effects
  induction commands generalizing rules with
  | nil => rw [List.foldl_nil, List.filterMap_nil, List.append_nil]
  | cons c rest ih =>
    have hrest := @ih fun d hd => h d (List.mem_cons_of_mem _ hd)
    obtain ⟨chain, rule, rfl⟩ := h c List.mem_cons_self
    rw [List.foldl_cons, List.filterMap_cons]
    by_cases hchain : chain = name
    · have heffect : effect name (.append chain rule) (some rules) = some (rules ++ [rule]) := if_pos hchain
      have happended : appended name (.append chain rule) = some rule := if_pos hchain
      rw [heffect, happended, hrest, List.append_assoc]
      rfl
    · have heffect : effect name (.append chain rule) (some rules) = some rules := if_neg hchain
      have happended : appended name (.append chain rule) = none := if_neg hchain
      rw [heffect, happended, hrest]

/-- What an isolation appends to the chains of Argos before it drops the rest. -/
def allowCommands (rules : List ManagementRule) (ipv6 : Bool) : List Command :=
  fixedCommands ipv6 ++ (rules.filter fun rule => rule.ipv6 = ipv6).flatMap managementCommands

theorem allowCommands_append (rules : List ManagementRule) (ipv6 : Bool) :
    ∀ c ∈ allowCommands rules ipv6, ∃ chain rule, c = .append chain rule := by
  intro c hc
  rcases List.mem_append.1 hc with hc | hc
  · obtain ⟨chain, -, rule, rfl⟩ := fixedCommands_allow ipv6 c hc
    exact ⟨chain, rule, rfl⟩
  · obtain ⟨rule, -, hc⟩ := List.mem_flatMap.1 hc
    obtain ⟨chain, -, args, rfl⟩ := managementCommands_allow rule c hc
    exact ⟨chain, args, rfl⟩

/-- The deletions are for chains that are not of Argos. -/
theorem effect_deletion (hown : ownChain name.text = true) {c : Command} (hc : c ∈ table.deleteCommands)
    (rules : Option (List Rule)) : effect name c rules = rules := by
  obtain ⟨deletion, hdeletion, rfl⟩ := List.mem_map.1 hc
  obtain ⟨chain, -, hchain⟩ := List.mem_flatMap.1 hdeletion
  split at hchain
  · cases hchain
  next hforeign =>
    obtain ⟨rule, -, rfl⟩ := List.mem_map.1 hchain
    refine if_neg ?_
    rintro rfl
    exact hforeign hown

/-- A chain of Argos after an isolation: the rules that were allowed, and the rule that drops the
rest. -/
theorem isolated_own {rules : List ManagementRule} {ipv6 : Bool} (h : isolate rules ipv6 table = some t)
    (hname : name ∈ argosWords) :
    t.rulesOf name = some ((allowCommands rules ipv6).filterMap (appended name) ++ [dropRule]) := by
  have hdeclare : ∀ name ∈ argosWords, ∀ before,
      effects name (argosWords.map Command.declare) before = some [] := by
    intro name hname before
    simp only [argosWords, List.mem_cons, List.not_mem_nil, or_false] at hname
    rcases hname with rfl | rfl | rfl <;> rfl
  have henforce : ∀ name ∈ argosWords, ∀ before,
      effects name enforceCommands (some before) = some (before ++ [dropRule]) := by
    intro name hname before
    simp only [argosWords, List.mem_cons, List.not_mem_nil, or_false] at hname
    rcases hname with rfl | rfl | rfl <;> rfl
  have hlegacy : ∀ before, effects name (if legacyWord ∈ table.names then
      [Command.flush legacyWord, .remove legacyWord] else []) before = before := by
    have hne : legacyWord ≠ name := by
      rintro rfl
      revert hname
      decide
    intro before
    refine effects_skip (fun c hc rules => ?_) before
    split at hc
    · rcases List.mem_pair.1 hc with rfl | rfl
      · exact if_neg hne
      · exact if_neg hne
    · cases hc
  have hdelete : ∀ before, effects name table.deleteCommands before = before := fun before =>
    effects_skip (fun c hc rules => effect_deletion (own_of_argos hname) hc rules) before
  rw [isolate_eq] at h
  have hrules : t.rulesOf name = effects name (isolationCommands rules ipv6 table) (table.rulesOf name) :=
    rulesOf_applyAll h
  have hallow := @effects_appends name _ (allowCommands_append rules ipv6) []
  have hcommands : isolationCommands rules ipv6 table =
      argosWords.map Command.declare ++ table.deleteCommands ++
        (if legacyWord ∈ table.names then [.flush legacyWord, .remove legacyWord] else []) ++
        allowCommands rules ipv6 ++ enforceCommands := rfl
  rw [hrules, hcommands, effects_append, effects_append, effects_append, effects_append,
    hdeclare name hname, hdelete, hlegacy, hallow, henforce name hname]
  rfl

/-- The built-in chains and their chains of Argos. -/
def bases : List (Word × Word) :=
  [(word "INPUT", word "ARGOS_INPUT"), (word "OUTPUT", word "ARGOS_OUTPUT"),
    (word "FORWARD", word "ARGOS_FORWARD")]

/-- A built-in chain after an isolation begins with the jump to its chain of Argos. -/
theorem isolated_base {rules : List ManagementRule} {ipv6 : Bool} (h : isolate rules ipv6 table = some t)
    (hfilter : Filter t) {pair : Word × Word} (hpair : pair ∈ bases) :
    ∃ rest, t.rulesOf pair.1 = some (jumpTo pair.2 :: rest) := by
  have henforce : ∀ pair ∈ bases, ∀ before,
      effects pair.1 enforceCommands before = before.map fun rules => jumpTo pair.2 :: rules := by
    intro pair hpair before
    simp only [bases, List.mem_cons, List.not_mem_nil, or_false] at hpair
    rcases hpair with rfl | rfl | rfl <;> rfl
  have hbuiltin : ∀ pair ∈ bases, pair.1 ∈ builtin := by decide
  rw [isolate_eq] at h
  have hrules : t.rulesOf pair.1 =
      effects pair.1 (isolationCommands rules ipv6 table) (table.rulesOf pair.1) := rulesOf_applyAll h
  rw [isolationCommands, effects_append, henforce pair hpair] at hrules
  have hsome := rulesOf_isSome.2 (hfilter.present _ (hbuiltin pair hpair))
  rw [hrules, Option.isSome_map] at hsome
  obtain ⟨rest, hrest⟩ := Option.isSome_iff_exists.1 hsome
  rw [hrest] at hrules
  exact ⟨rest, hrules⟩

end Rules

/-! ## What is accepted -/

section Admitted

/-- `fe80::/10`. -/
def linkLocal : IpAddr := .v6 [0xFE80, 0, 0, 0, 0, 0, 0, 0] rfl

/-- `ff02::2`. -/
def allRouters : IpAddr := .v6 [0xFF02, 0, 0, 0, 0, 0, 0, 2] rfl

/-- A packet of the loopback interface. -/
def Packet.loopback (p : Packet) (inbound : Bool) : Bool :=
  (if inbound then p.input else p.output) = some "lo".toList

/-- A packet of the discovery of neighbours and routers within a link. -/
def Packet.discovery (p : Packet) (inbound : Bool) : Bool :=
  p.protocol = .icmpv6 && p.hopLimit = 255 &&
    (p.icmpType = 135 || p.icmpType = 136 ||
      if inbound then p.icmpType = 134 && p.source.inside linkLocal 10
      else p.icmpType = 133 && p.destination.inside allRouters 128)

/-- A packet of a management connection: the peer is inside the network, and the packet is of the
direction that opens the connection, or it is of an answer. -/
def Packet.managed (p : Packet) (inbound : Bool) (rule : ManagementRule) : Bool :=
  p.protocol = .tcp && (if inbound then p.source else p.destination).inside rule.ip rule.bits &&
    if rule.inbound = inbound then
      p.destinationPort = rule.port && (p.state = .new || p.state = .established) &&
        p.direction = .original
    else p.sourcePort = rule.port && p.state = .established && p.direction = .reply

/-- What an isolation accepts. -/
def Packet.admitted (rules : List ManagementRule) (ipv6 inbound : Bool) (p : Packet) : Bool :=
  p.loopback inbound || ipv6 && p.discovery inbound ||
    rules.any fun rule => rule.ipv6 = ipv6 && p.managed inbound rule

/-- The conditions of a rule. -/
def conditionsOf (rule : Rule) : List Condition := ((readRule rule).map Prod.fst).getD []

/-- The chain of Argos for a direction. -/
def ownOf (inbound : Bool) : Word := if inbound then word "ARGOS_INPUT" else word "ARGOS_OUTPUT"

/-- An option of a rule is read, and then the rest. -/
theorem readRule_option {flag value : Word} {rest : Rule} {conditions others : List Condition}
    {target : Word} (hflag : flag ≠ word "-j") (hread : readCondition flag.text value.text = some conditions)
    (hrest : readRule rest = some (others, target)) :
    readRule (.plain flag :: .plain value :: rest) = some (conditions ++ others, target) := by
  rw [readRule, if_neg hflag, hread, hrest]

/-- The option for the peer in a chain of Argos. -/
def peerFlag (inbound : Bool) : Word := if inbound then word "-s" else word "-d"

/-- The condition on the peer of a management rule. -/
def peerCondition (inbound : Bool) (rule : ManagementRule) : Condition :=
  if inbound then .source rule.ip rule.bits else .destination rule.ip rule.bits

/-- The arguments of a command of a management rule. -/
def managementArgs (rule : ManagementRule) (peer : Word) (port state direction : String) : Rule :=
  [.plain peer, .plain rule.networkWord] ++ plainArgs ["-p", "tcp", port] ++ [.plain rule.portWord] ++
    plainArgs ["-m", "conntrack", "--ctstate", state, "--ctdir", direction, "-j", "ACCEPT"]

/-- A management rule allows what opens a connection in one chain, and what answers in the other. -/
theorem managementCommands_eq (rule : ManagementRule) : managementCommands rule =
    [.append (ownOf rule.inbound)
        (managementArgs rule (peerFlag rule.inbound) "--dport" "NEW,ESTABLISHED" "ORIGINAL"),
      .append (ownOf !rule.inbound)
        (managementArgs rule (peerFlag !rule.inbound) "--sport" "ESTABLISHED" "REPLY")] := by
  unfold managementCommands
  rcases rule.inbound with _ | _ <;> rfl

variable {text : Text} {rule : ManagementRule}

/-- The option for the peer is read back as the network of the rule. -/
theorem readCondition_peer (hrule : parseRule text = some rule) (inbound : Bool) :
    readCondition (peerFlag inbound).text rule.networkWord.text = some [peerCondition inbound rule] := by
  obtain ⟨hvalid, -, -, hbits⟩ := parseRule_some hrule
  have hnetwork : readNetwork rule.networkWord.text = some (rule.ip, rule.bits) :=
    readNetwork_network hvalid hbits
  unfold readCondition
  rcases inbound with _ | _
  · show (readNetwork rule.networkWord.text).map _ = _
    rw [hnetwork]
    rfl
  · show (readNetwork rule.networkWord.text).map _ = _
    rw [hnetwork]
    rfl

theorem readPort (hrule : parseRule text = some rule) :
    parseUnsigned 65535 rule.portWord.text = some rule.port := by
  obtain ⟨-, -, hport, -⟩ := parseRule_some hrule
  exact parseUnsigned_decimal hport

theorem peerFlag_ne (inbound : Bool) : peerFlag inbound ≠ word "-j" := by
  rcases inbound with _ | _ <;> decide

/-- What opens a connection. -/
theorem readRule_original (hrule : parseRule text = some rule) (inbound : Bool) :
    readRule (managementArgs rule (peerFlag inbound) "--dport" "NEW,ESTABLISHED" "ORIGINAL") =
      some ([peerCondition inbound rule, .protocol .tcp, .destinationPort rule.port,
        .states [.new, .established], .direction .original], word "ACCEPT") := by
  have htail : readRule (plainArgs ["-m", "conntrack", "--ctstate", "NEW,ESTABLISHED", "--ctdir", "ORIGINAL",
      "-j", "ACCEPT"]) = some ([.states [.new, .established], .direction .original], word "ACCEPT") := by
    decide +kernel
  have hport : readCondition (word "--dport").text rule.portWord.text =
      some [.destinationPort rule.port] := by
    show (parseUnsigned 65535 rule.portWord.text).map _ = _
    rw [readPort hrule]
    rfl
  have htcp : readCondition (word "-p").text (word "tcp").text = some [.protocol .tcp] := by decide +kernel
  exact readRule_option (peerFlag_ne inbound) (readCondition_peer hrule inbound)
    (readRule_option (by decide) htcp (readRule_option (by decide) hport htail))

/-- What answers. -/
theorem readRule_reply (hrule : parseRule text = some rule) (inbound : Bool) :
    readRule (managementArgs rule (peerFlag inbound) "--sport" "ESTABLISHED" "REPLY") =
      some ([peerCondition inbound rule, .protocol .tcp, .sourcePort rule.port,
        .states [.established], .direction .reply], word "ACCEPT") := by
  have htail : readRule (plainArgs ["-m", "conntrack", "--ctstate", "ESTABLISHED", "--ctdir", "REPLY",
      "-j", "ACCEPT"]) = some ([.states [.established], .direction .reply], word "ACCEPT") := by
    decide +kernel
  have hport : readCondition (word "--sport").text rule.portWord.text =
      some [.sourcePort rule.port] := by
    show (parseUnsigned 65535 rule.portWord.text).map _ = _
    rw [readPort hrule]
    rfl
  have htcp : readCondition (word "-p").text (word "tcp").text = some [.protocol .tcp] := by decide +kernel
  exact readRule_option (peerFlag_ne inbound) (readCondition_peer hrule inbound)
    (readRule_option (by decide) htcp (readRule_option (by decide) hport htail))

theorem meets_peer (p : Packet) (inbound : Bool) : p.meets (peerCondition inbound rule) =
    (if inbound then p.source else p.destination).inside rule.ip rule.bits := by
  rcases inbound with _ | _ <;> rfl

/-- The rules of a management rule in the chain of a direction accept, and they accept what is
managed. -/
theorem management_accepts (hrule : parseRule text = some rule) (inbound : Bool) (p : Packet) :
    (∀ r ∈ (managementCommands rule).filterMap (appended (ownOf inbound)), Accepts r (conditionsOf r)) ∧
    ((managementCommands rule).filterMap (appended (ownOf inbound))).any
      (fun r => (conditionsOf r).all p.meets) = p.managed inbound rule := by
  have hne : ownOf (!inbound) ≠ ownOf inbound := by
    rcases inbound with _ | _ <;> decide
  -- In each direction one of the two rules is there.
  obtain ⟨args, conditions, hrules, hread, hmanaged⟩ : ∃ args conditions,
      (managementCommands rule).filterMap (appended (ownOf inbound)) = [args] ∧
      readRule args = some (conditions, word "ACCEPT") ∧
      conditions.all p.meets = p.managed inbound rule := by
    by_cases hdirection : rule.inbound = inbound
    · refine ⟨_, _, ?_, readRule_original hrule inbound, ?_⟩
      · rw [managementCommands_eq, hdirection]
        simp [appended, hne]
      · unfold Packet.managed
        rw [if_pos hdirection, List.all_cons, meets_peer]
        simp only [List.all_cons, List.all_nil, Packet.meets, List.mem_cons, List.not_mem_nil,
          or_false, Bool.decide_or, Bool.and_true]
        ac_rfl
    · obtain hother : rule.inbound = !inbound := by
        rcases hin : rule.inbound with _ | _ <;> rcases inbound with _ | _ <;> simp_all
      refine ⟨_, _, ?_, readRule_reply hrule inbound, ?_⟩
      · rw [managementCommands_eq, hother, Bool.not_not]
        simp [appended, hne]
      · unfold Packet.managed
        rw [if_neg hdirection, List.all_cons, meets_peer]
        simp only [List.all_cons, List.all_nil, Packet.meets, List.mem_cons, List.not_mem_nil,
          or_false, Bool.and_true]
        ac_rfl
  have hconditions : conditionsOf args = conditions := by
    unfold conditionsOf
    rw [hread]
    rfl
  rw [hrules]
  constructor
  · intro r hr
    rw [List.mem_singleton.1 hr, hconditions]
    exact hread
  · rw [List.any_cons, List.any_nil, Bool.or_false, hconditions, hmanaged]

/-- The rules that are always there accept the loopback interface and the discovery of neighbours. -/
theorem fixed_accepts (ipv6 inbound : Bool) (p : Packet) :
    (∀ r ∈ (fixedCommands ipv6).filterMap (appended (ownOf inbound)), Accepts r (conditionsOf r)) ∧
    ((fixedCommands ipv6).filterMap (appended (ownOf inbound))).any (fun r => (conditionsOf r).all p.meets) =
      (p.loopback inbound || ipv6 && p.discovery inbound) := by
  have haccepts : ∀ ipv6 inbound : Bool, ∀ r ∈ (fixedCommands ipv6).filterMap (appended (ownOf inbound)),
      readRule r = some (conditionsOf r, word "ACCEPT") := by decide +kernel
  refine ⟨haccepts ipv6 inbound, ?_⟩
  have hany : ∀ rules : List Rule, rules.any (fun r => (conditionsOf r).all p.meets) =
      (rules.map conditionsOf).any fun conditions => conditions.all p.meets := by
    intro rules
    rw [List.any_map]
    rfl
  rw [hany]
  -- The discovery of neighbours has the two types that are the same in both directions, and one more.
  let discovery (conditions : List Condition) (kind : Nat) : List Condition :=
    conditions ++ [.protocol .icmpv6, .icmpType kind, .hopLimit 255]
  have hv4 : ∀ inbound, ((fixedCommands false).filterMap (appended (ownOf inbound))).map conditionsOf =
      [[if inbound then .input "lo".toList else .output "lo".toList]] := by decide +kernel
  have hv6 : ∀ inbound, ((fixedCommands true).filterMap (appended (ownOf inbound))).map conditionsOf =
      [[if inbound then .input "lo".toList else .output "lo".toList], discovery [] 135, discovery [] 136,
        if inbound then discovery [.source linkLocal 10] 134 else discovery [.destination allRouters 128] 133] := by
    decide +kernel
  rcases ipv6 with _ | _
  · rw [hv4]
    rcases inbound with _ | _ <;> simp [Packet.meets, Packet.loopback]
  · rw [hv6]
    unfold discovery Packet.loopback Packet.discovery
    rcases inbound with _ | _
    · rw [Bool.eq_iff_iff]
      simp [Packet.meets]
      tauto
    · rw [Bool.eq_iff_iff]
      simp [Packet.meets]
      tauto

/-- The rules in the chain of a direction accept, and they accept what is admitted. -/
theorem allow_accepts {rules : List ManagementRule} (hparsed : ∀ rule ∈ rules, ∃ text, parseRule text = some rule)
    (ipv6 inbound : Bool) (p : Packet) :
    (∀ r ∈ (allowCommands rules ipv6).filterMap (appended (ownOf inbound)), Accepts r (conditionsOf r)) ∧
    ((allowCommands rules ipv6).filterMap (appended (ownOf inbound))).any
      (fun r => (conditionsOf r).all p.meets) = p.admitted rules ipv6 inbound := by
  obtain ⟨hfixed, hany⟩ := fixed_accepts ipv6 inbound p
  unfold allowCommands Packet.admitted
  rw [List.filterMap_append, List.filterMap_flatMap]
  constructor
  · intro r hr
    rcases List.mem_append.1 hr with hr | hr
    · exact hfixed r hr
    · obtain ⟨rule, hrule, hr⟩ := List.mem_flatMap.1 hr
      obtain ⟨text, htext⟩ := hparsed rule (List.mem_filter.1 hrule).1
      exact (management_accepts htext inbound p).1 r hr
  · rw [List.any_append, hany, List.any_flatMap]
    congr 1
    clear hfixed hany
    induction rules with
    | nil => rfl
    | cons rule rest ih =>
      obtain ⟨text, htext⟩ := hparsed rule List.mem_cons_self
      have hrest := ih fun r hr => hparsed r (List.mem_cons_of_mem _ hr)
      rw [List.filter_cons, List.any_cons, ← hrest]
      rcases hfamily : decide (rule.ipv6 = ipv6) with _ | _
      · rw [if_neg Bool.false_ne_true, Bool.false_and, Bool.false_or]
      · rw [if_pos rfl, List.any_cons, (management_accepts htext inbound p).2, Bool.true_and]

/-- Nothing is allowed to go through the host. -/
theorem forward_nothing (rules : List ManagementRule) (ipv6 : Bool) :
    (allowCommands rules ipv6).filterMap (appended (word "ARGOS_FORWARD")) = [] := by
  have hfixed : ∀ ipv6, ∀ c ∈ fixedCommands ipv6, appended (word "ARGOS_FORWARD") c = none := by
    decide +kernel
  have hown : ∀ inbound, ownOf inbound ≠ word "ARGOS_FORWARD" := by decide
  rw [List.filterMap_eq_nil_iff]
  intro c hc
  rcases List.mem_append.1 hc with hc | hc
  · exact hfixed ipv6 c hc
  · obtain ⟨rule, -, hc⟩ := List.mem_flatMap.1 hc
    rw [managementCommands_eq] at hc
    rcases List.mem_pair.1 hc with rfl | rfl
    · exact if_neg (hown _)
    · exact if_neg (hown _)

end Admitted

/-! ## The verdicts -/

section Isolated

variable (other : Rule → Packet → Option Verdict)

/-- What a table does to a packet that traverses a chain. -/
def Table.traverse (table : Table) (fuel : Nat) (chain : Word) (packet : Packet) : Option Verdict :=
  (table.rulesOf chain).bind fun rules => verdict other table fuel rules packet

/-- A chain that begins with a jump to rules that accept some packets and drop the rest: what comes
after the jump is not asked. -/
theorem traverse_closed {table : Table} {packet : Packet} {base own : Word} {rest rules : List Rule}
    (hbase : table.rulesOf base = some (jumpTo own :: rest))
    (hown : table.rulesOf own = some (rules ++ [dropRule])) (hname : own ∈ argosWords)
    (hrules : ∀ r ∈ rules, Accepts r (conditionsOf r)) {fuel : Nat} (hfuel : rules.length + 1 < fuel) :
    table.traverse other fuel base packet =
      some (if rules.any (fun r => (conditionsOf r).all packet.meets) then .accept else .drop) := by
  have hnone : ∀ own ∈ argosWords, own ≠ word "ACCEPT" ∧ own ≠ word "DROP" := by decide
  obtain ⟨fuel, rfl⟩ : ∃ k, fuel = k + 1 := ⟨fuel - 1, by omega⟩
  have hjump : readRule (jumpTo own) = some ([], own) := by
    unfold jumpTo
    rw [readRule, if_pos rfl, if_pos rfl]
  -- The rules with their conditions.
  have hclosed := @verdict_closed other table packet (rules.map fun r => (r, conditionsOf r)) (by
    intro r hr
    obtain ⟨rule, hrule, rfl⟩ := List.mem_map.1 hr
    exact hrules rule hrule) fuel (by rw [List.length_map]; omega)
  rw [List.map_map, List.any_map] at hclosed
  have hrulesMap : List.map (Prod.fst ∘ fun r => (r, conditionsOf r)) rules = rules := List.map_id _
  rw [hrulesMap] at hclosed
  unfold Table.traverse
  rw [hbase, Option.bind_some, verdict, hjump]
  dsimp only
  rw [if_pos (show ([] : List Condition).all packet.meets = true from rfl), if_neg (hnone own hname).1,
    if_neg (hnone own hname).2, hown]
  dsimp only
  rw [hclosed]
  rfl

/-- A table isolates: what comes in and goes out is dropped but for what is admitted, and everything
that goes through is dropped, whatever the rules of others would do. -/
def Isolates (rules : List ManagementRule) (ipv6 : Bool) (table : Table) : Prop :=
  ∃ enough, ∀ fuel > enough, ∀ (other : Rule → Packet → Option Verdict) (packet : Packet),
    table.traverse other fuel (word "INPUT") packet =
      some (if packet.admitted rules ipv6 true then .accept else .drop) ∧
    table.traverse other fuel (word "OUTPUT") packet =
      some (if packet.admitted rules ipv6 false then .accept else .drop) ∧
    table.traverse other fuel (word "FORWARD") packet = some .drop

theorem isolated_verdict {table t : Table} {rules : List ManagementRule} {ipv6 : Bool}
    (h : isolate rules ipv6 table = some t) (hfilter : Filter t)
    (hparsed : ∀ rule ∈ rules, ∃ text, parseRule text = some rule) : Isolates rules ipv6 t := by
  refine ⟨(allowCommands rules ipv6).length + 1, fun fuel hfuel other packet => ?_⟩
  have hdirection : ∀ inbound base, (base, ownOf inbound) ∈ bases → ownOf inbound ∈ argosWords →
      t.traverse other fuel base packet =
        some (if packet.admitted rules ipv6 inbound then .accept else .drop) := by
    intro inbound base hpair hown
    obtain ⟨rest, hbase⟩ := isolated_base h hfilter hpair
    obtain ⟨haccepts, hany⟩ := allow_accepts hparsed ipv6 inbound packet
    rw [← hany]
    refine traverse_closed other hbase (isolated_own h hown) hown haccepts ?_
    exact (Nat.succ_le_succ (List.length_filterMap_le _ (allowCommands rules ipv6))).trans_lt hfuel
  refine ⟨hdirection true _ (by decide) (by decide), hdirection false _ (by decide) (by decide), ?_⟩
  obtain ⟨rest, hbase⟩ := @isolated_base _ _ _ _ h hfilter (word "FORWARD", word "ARGOS_FORWARD") (by decide)
  have hown := @isolated_own _ _ (word "ARGOS_FORWARD") _ _ h (by decide)
  rw [forward_nothing] at hown
  exact traverse_closed other hbase hown (by decide) (fun _ hr => nomatch hr) (by simp only [List.length_nil]; omega)

end Isolated

end Argos.Response
