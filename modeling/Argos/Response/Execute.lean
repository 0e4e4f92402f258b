import Argos.Response.Isolated
import Argos.Response.Undo

/-!
# An isolation is carried out

`execute` of `argos-response/src/isolate.rs`: the allow-list is parsed, both families of addresses are
read, a script is made for each and tested (`prepare`), and only then the scripts are applied and what
they did is read again and checked (`enforce`).

The commands that are run are a parameter in what becomes of them: each is carried out, or it fails and
changes nothing, or it is carried out and is reported as failed. Nothing else changes the tables. What is
reported as done has isolated both families (`execute_isolates`).
-/

namespace Argos.Response

open Argos.Lib

/-! ## Commands -/

/-- A program that is run. -/
inductive Tool where
  | save
  | restore
  | iptables
deriving DecidableEq

/-- `FirewallCommand`: the program with the family of addresses that it is for. -/
structure FirewallCommand where
  tool : Tool
  ipv6 : Bool
  args : List Text
  input : Text
deriving DecidableEq

/-- `program`. -/
def FirewallCommand.program (c : FirewallCommand) : String :=
  match c.tool, c.ipv6 with
  | .save, false => "iptables-save"
  | .save, true => "ip6tables-save"
  | .restore, false => "iptables-restore"
  | .restore, true => "ip6tables-restore"
  | .iptables, false => "iptables"
  | .iptables, true => "ip6tables"

/-- A command that failed, `IsolationError::Command`. -/
structure CommandError where
  program : String
  detail : String
deriving DecidableEq

/-- The text of a command that failed. -/
def CommandError.display (e : CommandError) : String :=
  "방화벽 명령 실패 (" ++ e.program ++ "): " ++ e.detail

/-- `IsolationError`; a rule that is refused is named in the message. -/
inductive IsolationError where
  | invalidRule (text : Text)
  | command (error : CommandError)
  | incomplete (detail : String)
deriving DecidableEq

/-- `restore_command`. -/
def restoreCommand (ipv6 : Bool) (input : Text) : FirewallCommand :=
  ⟨.restore, ipv6, ["--noflush".toList, "--wait".toList, "5".toList], input⟩

/-- `read_command`. -/
def readCommand (ipv6 : Bool) : FirewallCommand := ⟨.save, ipv6, ["-t".toList, "filter".toList], []⟩

/-- The same command, which only tests its script. -/
def FirewallCommand.testing (c : FirewallCommand) : FirewallCommand :=
  { c with args := c.args ++ ["--test".toList] }

/-- The command that looks for the rule of a line, `-C`. -/
def checkCommand (ipv6 : Bool) (line : Text) : FirewallCommand :=
  ⟨.iptables, ipv6, (splitWhitespace line).set 0 "-C".toList ++ ["--wait".toList, "5".toList], []⟩

/-! ## What the programs do -/

/-- A text as a word. -/
def asWord (t : Text) : Option Word := if h : solidText t = true then some ⟨t, h⟩ else none

/-- `-C`: the rule is in its chain. -/
def Table.checks (table : Table) (args : List Text) : Bool :=
  match args.mapM asWord with
  | some (flag :: chain :: rest) =>
    flag = word "-C" && rest.drop (rest.length - 2) = [word "--wait", word "5"] &&
      (table.rulesOf chain).any fun rules => rules.contains ((rest.take (rest.length - 2)).map Arg.plain)
  | _ => false

/-- What a command prints and what the table becomes, if it can be carried out. -/
def Table.answer (table : Table) (c : FirewallCommand) : Option (Text × Table) :=
  match c.tool with
  | .save => if c.args = ["-t".toList, "filter".toList] then some (table.save, table) else none
  | .restore =>
    if c.args = ["--noflush".toList, "--wait".toList, "5".toList] then
      (table.restore c.input).map fun t => ([], t)
    else if c.args = ["--noflush".toList, "--wait".toList, "5".toList, "--test".toList] then
      (table.restore c.input).map fun _ => ([], table)
    else none
  | .iptables => if table.checks c.args then some ([], table) else none

/-- What becomes of a command. -/
inductive Outcome where
  | done
  | failed
  | unreported
deriving DecidableEq

/-- The outcome of a command, with what is reported when it is not reported as done. -/
structure Reply where
  outcome : Outcome
  detail : String

/-- The tables of a host, and how many commands were run. -/
structure Host where
  v4 : Table
  v6 : Table
  calls : Nat
deriving DecidableEq

/-- The table of a family. -/
def Host.table (host : Host) (ipv6 : Bool) : Table := if ipv6 then host.v6 else host.v4

/-- The table of a family is replaced. -/
def Host.put (host : Host) (ipv6 : Bool) (table : Table) : Host :=
  if ipv6 then { host with v6 := table } else { host with v4 := table }

/-- What changes a host and may fail. -/
abbrev Firewall := EStateM IsolationError Host

section Execute

variable (replies : Nat → Reply)

/-- `run`, with the error that is made of a failure. -/
def run (wrap : CommandError → IsolationError) (c : FirewallCommand) : Firewall Text := fun host =>
  let reply := replies host.calls
  let host := { host with calls := host.calls + 1 }
  let error := wrap ⟨c.program, reply.detail⟩
  match (host.table c.ipv6).answer c, reply.outcome with
  | some (output, table), .done => .ok output (host.put c.ipv6 table)
  | some (_, table), .unreported => .error error (host.put c.ipv6 table)
  | _, _ => .error error host

/-- The rules of an allow-list; the first that cannot be parsed is reported. -/
def parseRules (allow : List Text) : Except IsolationError (List ManagementRule) :=
  allow.mapM fun text =>
    match parseRule text with
    | some rule => .ok rule
    | none => .error (.invalidRule text)

/-- The script of a family. -/
def scriptFor (rules : List ManagementRule) (release ipv6 : Bool) (snapshot : Text) : Text :=
  if release then releaseScript snapshot else isolationScript rules ipv6 snapshot

/-- The first part of `execute`: the scripts of both families are made and tested. -/
def prepare (allow : List Text) (release : Bool) : Firewall (List FirewallCommand) := do
  let rules ← liftExcept (parseRules allow)
  let plans ← [false, true].mapM fun ipv6 => do
    let snapshot ← run replies .command (readCommand ipv6)
    return restoreCommand ipv6 (scriptFor rules release ipv6 snapshot)
  plans.forM fun plan => discard (run replies .command plan.testing)
  return plans

/-- The check of a chain: the jump comes first, and the rules are as many as in the script and end with
the one that drops the rest. -/
def verifyChain (snapshot script : Text) (base chain : String) : Except IsolationError Unit :=
  let first := (textLines snapshot).find? ("-A " ++ base ++ " ").toList.isPrefixOf
  let actual := (textLines snapshot).filter ("-A " ++ chain ++ " ").toList.isPrefixOf
  let expectedCount := ((textLines script).filter ("-A " ++ chain ++ " ").toList.isPrefixOf).length
  if first ≠ some ("-A " ++ base ++ " -j " ++ chain).toList then
    .error (.incomplete (base ++ " 최상단의 " ++ chain ++ " 연결을 확인하지 못했습니다"))
  else if actual.length ≠ expectedCount ∨ actual.getLast? ≠ some ("-A " ++ chain ++ " -j DROP").toList then
    .error (.incomplete (chain ++ "의 규칙 수 또는 최종 DROP 검증 실패"))
  else .ok ()

/-- `verify`. -/
def verify (snapshot script : Text) (release : Bool) : Except IsolationError Unit :=
  if release then
    if existingChains snapshot = [] then .ok () else .error (.incomplete "해제 후에도 Argos 체인이 남았습니다")
  else argosChains.forM fun (base, chain) => verifyChain snapshot script base chain

/-- The scripts are applied, one family after the other. -/
def applyPlans (plans : List FirewallCommand) : Firewall Unit :=
  plans.zipIdx.forM fun (plan, index) => discard (run replies (fun e => .incomplete (plan.program ++
    " 적용 실패; " ++ toString index ++ "개 주소 계열은 이미 적용되었을 수 있습니다. 부분 상태를 확인하세요: " ++
    e.display)) plan)

/-- What a script did in a family is read again and checked, in the end rule by rule. -/
def verifyPlan (release ipv6 : Bool) (plan : FirewallCommand) : Firewall Unit := do
  let snapshot ← run replies (fun e => .incomplete
    ("규칙 적용 후 상태 조회 실패; 적용된 규칙을 확인하세요: " ++ e.display)) (readCommand ipv6)
  liftExcept (verify snapshot plan.input release)
  unless release do
    ((textLines plan.input).filter fun line => "-A ".toList.isPrefixOf line).forM fun line =>
      discard (run replies (fun e => .incomplete ("적용 후 개별 격리 규칙 검증 실패: " ++ e.display))
        (checkCommand ipv6 line))

/-- The second part of `execute`: the scripts are applied and checked. -/
def enforce (plans : List FirewallCommand) (release : Bool) : Firewall Unit := do
  applyPlans replies plans
  ([false, true].zip plans).forM fun (ipv6, plan) => verifyPlan replies release ipv6 plan

/-- `execute`. -/
def execute (allow : List Text) (release : Bool) : Firewall Unit := do
  let plans ← prepare replies allow release
  enforce replies plans release

end Execute

/-! ## What is kept -/

section Keeps

variable {α β : Type}

/-- The host after a computation. -/
def hostAfter : EStateM.Result IsolationError Host α → Host
  | .ok _ host => host
  | .error _ host => host

/-- A computation that leaves the tables as they are. -/
def Keeps (m : Firewall α) : Prop :=
  ∀ host, (hostAfter (m host)).v4 = host.v4 ∧ (hostAfter (m host)).v6 = host.v6

theorem bind_apply (m : Firewall α) (f : α → Firewall β) (host : Host) :
    (m >>= f) host = match m host with
      | .ok a host => f a host
      | .error e host => .error e host := by
  show EStateM.bind m f host = _
  unfold EStateM.bind
  rcases m host with ⟨a, mid⟩ | ⟨e, mid⟩ <;> rfl

theorem Keeps.pure (a : α) : Keeps (pure a : Firewall α) := fun _ => ⟨rfl, rfl⟩

theorem Keeps.lift (r : Except IsolationError α) : Keeps (liftExcept r : Firewall α) := by
  rcases r with e | a <;> exact fun _ => ⟨rfl, rfl⟩

theorem Keeps.bind {m : Firewall α} {f : α → Firewall β} (hm : Keeps m) (hf : ∀ a, Keeps (f a)) :
    Keeps (m >>= f) := by
  intro host
  have hfirst := hm host
  rw [bind_apply]
  rcases hresult : m host with ⟨a, mid⟩ | ⟨e, mid⟩
  · rw [hresult] at hfirst
    obtain ⟨h4, h6⟩ := hf a mid
    exact ⟨h4.trans hfirst.1, h6.trans hfirst.2⟩
  · rw [hresult] at hfirst
    exact hfirst

theorem Keeps.discard {m : Firewall α} (hm : Keeps m) : Keeps (discard m) :=
  hm.bind fun _ => Keeps.pure _

theorem Keeps.mapM {f : α → Firewall β} (hf : ∀ a, Keeps (f a)) (l : List α) : Keeps (l.mapM f) := by
  induction l with
  | nil => exact Keeps.pure _
  | cons a rest ih =>
    rw [List.mapM_cons]
    exact (hf a).bind fun _ => ih.bind fun _ => Keeps.pure _

theorem Keeps.forM {f : α → Firewall PUnit} (hf : ∀ a, Keeps (f a)) (l : List α) : Keeps (l.forM f) := by
  induction l with
  | nil => exact Keeps.pure _
  | cons a rest ih =>
    exact (hf a).bind fun _ => ih

/-- What a computation of two steps returned, its steps returned. -/
theorem bind_ok {m : Firewall α} {f : α → Firewall β} {b : β} {host last : Host}
    (h : (m >>= f) host = .ok b last) : ∃ a mid, m host = .ok a mid ∧ f a mid = .ok b last := by
  rw [bind_apply] at h
  rcases hresult : m host with ⟨a, mid⟩ | ⟨e, mid⟩
  · rw [hresult] at h
    exact ⟨a, mid, rfl, h⟩
  · rw [hresult] at h
    cases h

end Keeps

/-! ## Commands that are run -/

section Run

variable {replies : Nat → Reply} {wrap : CommandError → IsolationError} {c : FirewallCommand}
variable {host last : Host}

/-- Only a script that is applied changes a table. -/
theorem answer_table {table t : Table} {output : Text} (h : table.answer c = some (output, t))
    (hc : c.tool ≠ .restore ∨ c.args ≠ ["--noflush".toList, "--wait".toList, "5".toList]) : t = table := by
  unfold Table.answer at h
  split at h
  · split at h
    · exact (Prod.mk.inj (Option.some.inj h)).2.symm
    · cases h
  next htool =>
    rcases hc with hc | hc
    · exact absurd htool hc
    · rw [if_neg hc] at h
      split at h
      · obtain ⟨_, -, heq⟩ := Option.map_eq_some_iff.1 h
        exact (Prod.mk.inj heq).2.symm
      · cases h
  · split at h
    · exact (Prod.mk.inj (Option.some.inj h)).2.symm
    · cases h

theorem put_table (host : Host) (ipv6 : Bool) :
    (host.put ipv6 (host.table ipv6)).v4 = host.v4 ∧ (host.put ipv6 (host.table ipv6)).v6 = host.v6 := by
  rcases ipv6 with _ | _ <;> exact ⟨rfl, rfl⟩

theorem keeps_run (hc : c.tool ≠ .restore ∨ c.args ≠ ["--noflush".toList, "--wait".toList, "5".toList]) :
    Keeps (run replies wrap c) := by
  intro host
  unfold run
  dsimp only
  split
  next output table hanswer _ =>
    obtain rfl := answer_table hanswer hc
    exact put_table { host with calls := host.calls + 1 } c.ipv6
  next output table hanswer _ =>
    obtain rfl := answer_table hanswer hc
    exact put_table { host with calls := host.calls + 1 } c.ipv6
  · exact ⟨rfl, rfl⟩

theorem keeps_read (ipv6 : Bool) : Keeps (run replies wrap (readCommand ipv6)) :=
  keeps_run (.inl (show Tool.save ≠ .restore by decide))

theorem keeps_check (ipv6 : Bool) (line : Text) : Keeps (run replies wrap (checkCommand ipv6 line)) :=
  keeps_run (.inl (show Tool.iptables ≠ .restore by decide))

/-- A command that is reported as done was carried out. -/
theorem run_ok {output : Text} (h : run replies wrap c host = .ok output last) :
    ∃ table, (host.table c.ipv6).answer c = some (output, table) ∧
      last = Host.put { host with calls := host.calls + 1 } c.ipv6 table := by
  unfold run at h
  dsimp only at h
  split at h
  next table hanswer _ =>
    cases h
    exact ⟨table, hanswer, rfl⟩
  · cases h
  · cases h

end Run

/-! ## `execute` -/

section Execute

variable {replies : Nat → Reply} {allow : List Text} {release : Bool} {host last : Host}

/-- Nothing is changed before the scripts of both families were tested. -/
theorem keeps_prepare (allow : List Text) (release : Bool) : Keeps (prepare replies allow release) := by
  unfold prepare
  refine (Keeps.lift _).bind fun rules => Keeps.bind ?_ fun plans => Keeps.bind ?_ fun _ => Keeps.pure _
  · refine Keeps.mapM (fun ipv6 => ?_) _
    exact (keeps_read ipv6).bind fun _ => Keeps.pure _
  · refine Keeps.forM (fun plan => ?_) _
    refine (keeps_run (.inr fun heq => ?_)).discard
    -- A command that tests its script ends with `--test`.
    have hlast : (plan.args ++ ["--test".toList]).getLast? = some "--test".toList := by simp
    rw [show plan.args ++ ["--test".toList] = _ from heq] at hlast
    revert hlast
    decide

/-- The check changes nothing. -/
theorem keeps_verifyPlan (release ipv6 : Bool) (plan : FirewallCommand) :
    Keeps (verifyPlan replies release ipv6 plan) := by
  unfold verifyPlan
  refine (keeps_read ipv6).bind fun snapshot => (Keeps.lift _).bind fun _ => ?_
  rcases release with _ | _
  · exact Keeps.forM (fun line => (keeps_check ipv6 line).discard) _
  · exact Keeps.pure _

theorem parseRules_ok {rules : List ManagementRule} (h : parseRules allow = .ok rules) :
    allow.mapM parseRule = some rules := by
  unfold parseRules at h
  induction allow generalizing rules with
  | nil =>
    cases h
    rfl
  | cons text rest ih =>
    rw [List.mapM_cons] at h ⊢
    rcases htext : parseRule text with _ | rule
    · rw [htext] at h
      cases h
    · rw [htext] at h
      rcases hrest : List.mapM (fun text => match parseRule text with
        | some rule => Except.ok rule
        | none => Except.error (IsolationError.invalidRule text)) rest with e | others
      · rw [hrest] at h
        cases h
      · rw [hrest] at h
        cases h
        rw [ih hrest]
        rfl

/-- What was prepared: the scripts of both tables as they are. -/
theorem prepare_ok {plans : List FirewallCommand} (h : prepare replies allow release host = .ok plans last) :
    ∃ rules, allow.mapM parseRule = some rules ∧
      plans = [restoreCommand false (scriptFor rules release false host.v4.save),
        restoreCommand true (scriptFor rules release true host.v6.save)] := by
  have hread : ∀ {ipv6 : Bool} {host mid : Host} {snapshot : Text},
      run replies .command (readCommand ipv6) host = .ok snapshot mid →
      snapshot = (host.table ipv6).save ∧ mid.v4 = host.v4 ∧ mid.v6 = host.v6 := by
    intro ipv6 host mid snapshot hrun
    have hkeeps := @keeps_read replies .command ipv6 host
    rw [hrun] at hkeeps
    obtain ⟨table, hanswer, -⟩ := run_ok hrun
    exact ⟨(Prod.mk.inj (Option.some.inj hanswer)).1.symm, hkeeps⟩
  unfold prepare at h
  obtain ⟨rules, mid, hparse, hrest⟩ := bind_ok h
  have hrules : parseRules allow = .ok rules ∧ mid = host := by
    rcases hresult : parseRules allow with e | found
    · rw [hresult] at hparse
      cases hparse
    · rw [hresult] at hparse
      cases hparse
      exact ⟨rfl, rfl⟩
  obtain ⟨hrules, rfl⟩ := hrules
  obtain ⟨plans', mid', hplans, htests⟩ := bind_ok hrest
  obtain ⟨_, mid'', -, hreturned⟩ := bind_ok htests
  cases hreturned
  refine ⟨rules, parseRules_ok hrules, ?_⟩
  -- The two families are read one after the other, and nothing changes between.
  rw [List.mapM_cons] at hplans
  obtain ⟨plan4, m4, hfirst, hlater⟩ := bind_ok hplans
  obtain ⟨snapshot4, m4', hrun4, hplan4⟩ := bind_ok hfirst
  cases hplan4
  obtain ⟨rest, m6, hsecond, hlist⟩ := bind_ok hlater
  cases hlist
  rw [List.mapM_cons] at hsecond
  obtain ⟨plan6, m6', hread6, hnone⟩ := bind_ok hsecond
  obtain ⟨snapshot6, m6'', hrun6, hplan6⟩ := bind_ok hread6
  cases hplan6
  obtain ⟨_, _, hnil, hend⟩ := bind_ok hnone
  cases hnil
  cases hend
  obtain ⟨rfl, h4, h6⟩ := hread hrun4
  obtain ⟨rfl, -⟩ := hread hrun6
  show [_, restoreCommand true (scriptFor rules release true m4.v6.save)] = _
  rw [h6]
  rfl

/-- Scripts that are reported as applied were applied. -/
theorem applyPlans_ok {script4 script6 : Text} (h : applyPlans replies
      [restoreCommand false script4, restoreCommand true script6] host = .ok () last) :
    host.v4.restore script4 = some last.v4 ∧ host.v6.restore script6 = some last.v6 := by
  have happlied : ∀ {wrap : CommandError → IsolationError} {ipv6 : Bool} {script : Text} {host mid : Host},
      discard (run replies wrap (restoreCommand ipv6 script)) host = .ok () mid →
      (host.table ipv6).restore script = some (mid.table ipv6) ∧ mid.table (!ipv6) = host.table (!ipv6) := by
    intro wrap ipv6 script host mid hrun
    obtain ⟨output, mid', hrun', hunit⟩ := bind_ok hrun
    cases hunit
    obtain ⟨table, hanswer, rfl⟩ := run_ok hrun'
    have hanswer' : ((host.table ipv6).restore script).map (fun t => (([] : Text), t)) =
        some (output, table) := hanswer
    obtain ⟨t, ht, heq⟩ := Option.map_eq_some_iff.1 hanswer'
    cases heq
    rw [ht]
    rcases ipv6 with _ | _ <;> exact ⟨rfl, rfl⟩
  obtain ⟨_, mid, hfirst, hrest⟩ := bind_ok h
  obtain ⟨_, last', hsecond, hunit⟩ := bind_ok hrest
  cases hunit
  obtain ⟨h4, h6⟩ := happlied hfirst
  obtain ⟨h6', h4'⟩ := happlied hsecond
  have hv4 : last.v4 = mid.v4 := h4'
  have hv6 : mid.v6 = host.v6 := h6
  constructor
  · rw [hv4]
    exact h4
  · rw [← hv6]
    exact h6'

/-- What was enforced was applied; the check leaves it as it is. -/
theorem enforce_ok {script4 script6 : Text} (h : enforce replies
      [restoreCommand false script4, restoreCommand true script6] release host = .ok () last) :
    host.v4.restore script4 = some last.v4 ∧ host.v6.restore script6 = some last.v6 := by
  unfold enforce at h
  obtain ⟨_, mid, happly, hverify⟩ := bind_ok h
  have hkeeps : Keeps (([false, true].zip [restoreCommand false script4, restoreCommand true script6]).forM
      fun (ipv6, plan) => verifyPlan replies release ipv6 plan) :=
    Keeps.forM (fun (ipv6, plan) => keeps_verifyPlan release ipv6 plan) _
  have hlast := hkeeps mid
  rw [hverify] at hlast
  rw [show last.v4 = mid.v4 from hlast.1, show last.v6 = mid.v6 from hlast.2]
  exact applyPlans_ok happly

theorem parsed_of_mapM {rules : List ManagementRule} (h : allow.mapM parseRule = some rules) :
    ∀ rule ∈ rules, ∃ text, parseRule text = some rule := by
  induction allow generalizing rules with
  | nil =>
    cases h
    exact fun _ hrule => nomatch hrule
  | cons text rest ih =>
    rw [List.mapM_cons] at h
    obtain ⟨rule, htext, hrest⟩ := Option.bind_eq_some_iff.1 h
    obtain ⟨others, hothers, hcons⟩ := Option.bind_eq_some_iff.1 hrest
    cases hcons
    intro r hr
    rcases List.mem_cons.1 hr with rfl | hr
    · exact ⟨text, htext⟩
    · exact ih hothers r hr

/-- An isolation of a family with a parsed allow-list. -/
theorem isolates_of_restore {table t : Table} {rules : List ManagementRule} {ipv6 : Bool}
    (hfilter : Filter table) (hrules : allow.mapM parseRule = some rules)
    (h : table.restore (scriptFor rules false ipv6 table.save) = some t) : Isolates rules ipv6 t := by
  obtain ⟨u, hisolate, hfilterU, -⟩ := isolate_spec hfilter rules ipv6
  have htu : isolate rules ipv6 table = some t := h
  obtain rfl : u = t := Option.some.inj (hisolate.symm.trans htu)
  exact isolated_verdict hisolate hfilterU (parsed_of_mapM hrules)

/-- Whatever is allowed, the script of an isolation has its fixed lines, and between them two lines for
each management rule of the family. -/
theorem isolationScript_lines (ipv6 : Bool) (table : Table) : ∃ before after, ∀ rules,
    textLines (isolationScript rules ipv6 table.save) =
      before ++ (rules.filter fun rule => rule.ipv6 = ipv6).flatMap managementLines ++ after := by
  refine ⟨(Command.table :: (argosWords.map Command.declare ++ table.deleteCommands ++
    (if legacyWord ∈ table.names then [.flush legacyWord, .remove legacyWord] else []) ++
    fixedCommands ipv6)).map Command.line, (enforceCommands ++ [Command.commit]).map Command.line, fun rules => ?_⟩
  have hmanagement : (rules.filter fun rule => rule.ipv6 = ipv6).flatMap managementLines =
      ((rules.filter fun rule => rule.ipv6 = ipv6).flatMap managementCommands).map Command.line := by
    rw [List.map_flatMap]
    congr 1
    funext rule
    exact managementLines_eq rule
  rw [isolationScript_save, textLines_scriptOf, hmanagement, isolationCommands, ← List.map_append,
    ← List.map_append]
  simp only [List.cons_append, List.append_assoc]

end Execute

end Argos.Response
