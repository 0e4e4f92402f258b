import Argos.Policies.Trust

/-!
# No policy is replayed

Calls of `activate_at` by any number of processes on one state database. A call verifies its files
first, without the database; its transaction is one step. What a transaction does is said once
(`Effect`), and the rest follows from it: the accepted policies are a list that grows at its end, by
versions, and the last of them is active.
-/

namespace Argos.Policies

open Argos.Lib
open Argos.Vault (Bytes)
open Argos.Recovery (i64Max)

/-! ## What a transaction does -/

section Effects

/-- A policy that is newer than the active one and, when it is a rollback, repeats the settings of
an older one by an approval that was not used. -/
structure Fresh (s : State) (v : Verified) (verdict : Verdict) : Prop where
  newer : ∀ row ∈ s.activeRow, row.policyId = v.policy.policyId ∧ row.version < v.policy.version
  verdict : verdict = if v.policy.rollback.isSome then .rollbackAccepted else .accepted
  rollback : ∀ r ∈ v.policy.rollback, ∃ row ∈ s.accepted, row.version = r.sourceVersion ∧
    row.policyId = v.policy.policyId ∧ row.sha256 = r.sourceSha256 ∧ row.settingsJson = v.settings ∧
    ∀ old ∈ s.accepted, old.approvalId ≠ some r.approvalId

/-- What the transaction of a call does when it is committed, and the value of the call. -/
inductive Effect (config : PolicyFileConfig) (verified : Except String Verified) (now : Nat)
    (s : State) : Except String Activated → State → Prop where
  | rejected {s' : State} (code : String) (v : Option Verified)
      (written : s.writeAudit now "rejected" code v = .ok s') : Effect config verified now s (.error code) s'
  | restarted {s' : State} (v : Verified) (row : AcceptedPolicy) (source : verified = .ok v)
      (valid : checkMetadata config v.policy now = .ok ()) (active : s.activeRow = some row)
      (series : row.policyId = v.policy.policyId) (version : v.policy.version = row.version)
      (hash : v.hash = row.sha256)
      (written : s.writeAudit now Verdict.restarted.text "validated" (some v) = .ok s') :
      Effect config verified now s (.ok ⟨v.policy, v.hash, .restarted⟩) s'
  | accepted {s' s'' : State} (v : Verified) (verdict : Verdict) (source : verified = .ok v)
      (valid : checkMetadata config v.policy now = .ok ()) (fresh : Fresh s v verdict)
      (inserted : s.insertAccepted now v = .ok s'')
      (written : s''.writeAudit now verdict.text "validated" (some v) = .ok s') :
      Effect config verified now s (.ok ⟨v.policy, v.hash, verdict⟩) s'

variable {s : State} {config : PolicyFileConfig} {now : Nat} {v : Verified}

theorem statement_sat {α : Type} {Q : α → State → Prop} {E K : State → Prop} {f : Unit → Op α}
    (hnext : (f ()).Sat s Q E K) (hE : E s) (hK : K s) : (statement >>= f).Sat s Q E K :=
  Prog.Sat.bind (Prog.Sat.durable hnext hE hE hK)

theorem query_sat {α β : Type} {g : State → α} {Q : β → State → Prop} {E K : State → Prop}
    {f : α → Prog State String β} (hnext : (f (g s)).Sat s Q E K) (hE : E s) (hK : K s) :
    (query g >>= f).Sat s Q E K := by
  refine Prog.Sat.bind (Prog.Sat.bind (Prog.Sat.durable (Prog.Sat.gets hnext) hE hE hK))

/-- What `check_acceptance` has found when it gives a verdict. -/
def Checked (config : PolicyFileConfig) (v : Verified) (now : Nat) (s : State) (verdict : Verdict) :
    Prop :=
  checkMetadata config v.policy now = .ok () ∧
    ((verdict = .restarted ∧ ∃ row, s.activeRow = some row ∧ row.policyId = v.policy.policyId ∧
      v.policy.version = row.version ∧ v.hash = row.sha256) ∨
    (verdict ≠ .restarted ∧ Fresh s v verdict))

theorem checkVersion_ok {active : Option AcceptedPolicy} {policy : Policy} {hash : String} {same : Bool}
    (h : checkVersion active policy hash = .ok same) :
    (same = true ∧ ∃ row, active = some row ∧ row.policyId = policy.policyId ∧
      policy.version = row.version ∧ hash = row.sha256) ∨
    (same = false ∧ ∀ row ∈ active, row.policyId = policy.policyId ∧ row.version < policy.version) := by
  cases active with
  | none =>
    obtain rfl := Except.ok.inj h
    exact .inr ⟨rfl, by simp⟩
  | some row =>
    unfold checkVersion at h
    by_cases hseries : row.policyId ≠ policy.policyId
    · simp [hseries] at h
    · rw [not_not] at hseries
      by_cases holder : policy.version < row.version
      · simp [hseries, holder] at h
      · by_cases hsame : policy.version = row.version
        · by_cases hhash : hash = row.sha256
          · simp [hseries, hsame, hhash] at h
            exact .inl ⟨h, row, rfl, hseries, hsame, hhash⟩
          · simp [hseries, hsame, hhash] at h
        · simp [hseries, holder, hsame] at h
          refine .inr ⟨h, ?_⟩
          rintro found ⟨⟩
          exact ⟨hseries, by omega⟩

theorem checkSource_ok {source : Option AcceptedPolicy} {rollback : RollbackApproval}
    {settings : String} (h : checkSource source rollback settings = .ok ()) :
    ∃ row, source = some row ∧ row.sha256 = rollback.sourceSha256 ∧ row.settingsJson = settings := by
  simp only [checkSource, Prog.answer_bind_iff, require_ok_iff, refuse_ok_iff, Vault.exists_unit_iff,
    ne_eq, decide_not, Bool.not_eq_false', decide_eq_true_eq] at h
  exact h

/-- The checks of a rollback. -/
theorem checkRollback_sat {rollback : RollbackApproval} (hrollback : v.policy.rollback = some rollback)
    (hnewer : ∀ row ∈ s.activeRow, row.policyId = v.policy.policyId ∧
      row.version < v.policy.version) :
    (checkRollback s.activeRow v.policy.policyId v.settings rollback).Sat s
      (fun verdict s' => s' = s ∧ verdict ≠ .restarted ∧ Fresh s v verdict) (· = s) (· = s) := by
  refine Prog.Sat.bind (Prog.Sat.ask (fun _ _ => ?_) rfl)
  refine query_sat ?_ rfl rfl
  refine Prog.Sat.bind (Prog.Sat.ask (fun _ hsource => ?_) rfl)
  refine query_sat ?_ rfl rfl
  refine Prog.Sat.bind (Prog.Sat.ask (fun _ hused => ?_) rfl)
  refine Prog.Sat.pure ⟨rfl, by simp, hnewer, by simp [hrollback], ?_⟩
  obtain ⟨row, hrow, hhash, hsettings⟩ := checkSource_ok hsource
  rw [refuse_ok_iff, List.any_eq_false] at hused
  intro r hr
  obtain rfl : rollback = r := by
    rw [hrollback] at hr
    exact Option.some.inj hr
  have hfound := List.find?_some hrow
  rw [decide_eq_true_eq] at hfound
  refine ⟨row, List.mem_of_find?_eq_some hrow, hfound.1, hfound.2, hhash, hsettings, ?_⟩
  intro old hold hsame
  exact hused old hold (decide_eq_true hsame)

theorem checkAcceptance_sat : (checkAcceptance config v now).Sat s
    (fun verdict s' => s' = s ∧ Checked config v now s verdict) (· = s) (· = s) := by
  refine Prog.Sat.bind (Prog.Sat.ask (fun _ hvalid => ?_) rfl)
  refine query_sat ?_ rfl rfl
  refine Prog.Sat.bind (Prog.Sat.ask (fun same hversion => ?_) rfl)
  rcases checkVersion_ok hversion with ⟨rfl, hrow⟩ | ⟨rfl, hnewer⟩
  · exact Prog.Sat.pure ⟨rfl, hvalid, .inl ⟨rfl, hrow⟩⟩
  · show (checkNew s.activeRow v).Sat s _ _ _
    unfold checkNew
    split
    next hnone =>
      refine Prog.Sat.pure ⟨rfl, hvalid, .inr ⟨by simp, hnewer, by simp [hnone], ?_⟩⟩
      rw [hnone]
      simp
    next rollback hsome =>
      exact (checkRollback_sat hsome hnewer).mono (fun _ _ h => ⟨h.1, hvalid, .inr h.2⟩)
        (fun _ h => h) (fun _ h => h)

/-- A transaction is committed or nothing is changed. One whose commit is reported as failed may
have been committed. -/
theorem activate_sat {verified : Except String Verified} : (activate config verified now).Sat s
    (Effect config verified now s) (fun s' => s' = s ∨ ∃ r, Effect config verified now s r s')
    (· = s) := by
  have hrejected : ∀ code v, (rejected now code v).Sat s (Effect config verified now s)
      (fun s' => s' = s ∨ ∃ r, Effect config verified now s r s') (· = s) := by
    intro code v
    refine statement_sat (Prog.Sat.bind (Prog.Sat.ask (fun s' hwritten => ?_) (.inl rfl))) (.inl rfl) rfl
    have heffect : Effect config verified now s (.error code) s' := .rejected code v hwritten
    exact Prog.Sat.bind (Prog.Sat.durable (Prog.Sat.pure heffect) (.inr ⟨_, heffect⟩) (.inl rfl) rfl)
  refine statement_sat ?_ (.inl rfl) rfl
  rcases verified with code | v
  · exact hrejected code none
  · refine Prog.Sat.bind (Prog.Sat.outcome (checkAcceptance_sat.mono ?_ ?_ fun _ h => h))
    · rintro verdict s' ⟨rfl, hvalid, hchecked⟩
      refine statement_sat (Prog.Sat.bind (Prog.Sat.ask (fun s'' hwritten => ?_) (.inl rfl)))
        (.inl rfl) rfl
      have heffect : Effect config (.ok v) now s' (.ok ⟨v.policy, v.hash, verdict⟩) s'' := by
        unfold acceptedState at hwritten
        rcases hchecked with ⟨rfl, row, hactive, hseries, hversion, hhash⟩ | ⟨hnew, hfresh⟩
        · exact .restarted v row rfl hvalid hactive hseries hversion hhash hwritten
        · rw [if_neg hnew] at hwritten
          obtain ⟨inserted, hinserted, hwritten⟩ := Prog.answer_bind_iff.1 hwritten
          exact .accepted v verdict rfl hvalid hfresh hinserted hwritten
      exact Prog.Sat.bind (Prog.Sat.durable (Prog.Sat.pure heffect) (.inr ⟨_, heffect⟩) (.inl rfl) rfl)
    · rintro s' rfl code
      exact hrejected code (some v)

end Effects

/-! ## The accepted policies -/

section Accepted

variable (T : Tools)

/-- The accepted policies are one series in the order of their versions, of which the last is
active; no approval stands twice, and every digest is that of the bytes beside it. -/
structure Valid (s : State) : Prop where
  ordered : s.accepted.Pairwise fun a b => a.version < b.version
  active : s.active = s.accepted.getLast?.map (·.version)
  series : ∀ a ∈ s.accepted, ∀ b ∈ s.accepted, a.policyId = b.policyId
  approvals : (s.accepted.filterMap (·.approvalId)).Nodup
  hashes : ∀ row ∈ s.accepted, row.sha256 = T.digest.hash row.policyBytes

variable {T} {s s' : State} {config : PolicyFileConfig} {now : Nat} {v : Verified}
  {verified : Except String Verified} {r : Except String Activated}

theorem Valid.le_last {last : AcceptedPolicy} (h : Valid T s) (hlast : s.accepted.getLast? = some last) :
    ∀ row ∈ s.accepted, row.version ≤ last.version := by
  intro row hrow
  obtain ⟨init, hinit⟩ := List.getLast?_eq_some_iff.1 hlast
  have hordered := h.ordered
  rw [hinit, List.pairwise_append] at hordered
  rw [hinit, List.mem_append, List.mem_singleton] at hrow
  rcases hrow with hrow | rfl
  · exact (hordered.2.2 row hrow last (List.mem_singleton_self _)).le
  · exact le_rfl

theorem Valid.version_inj (h : Valid T s) {a b : AcceptedPolicy} (ha : a ∈ s.accepted)
    (hb : b ∈ s.accepted) (hversion : a.version = b.version) : a = b := by
  have hnodup : (s.accepted.map (·.version)).Nodup := by
    unfold List.Nodup
    rw [List.pairwise_map]
    exact h.ordered.imp fun hlt => hlt.ne
  exact List.inj_on_of_nodup_map hnodup ha hb hversion

/-- The active policy is the last that was accepted. -/
theorem Valid.activeRow (h : Valid T s) : s.activeRow = s.accepted.getLast? := by
  unfold State.activeRow
  rw [h.active]
  rcases hlast : s.accepted.getLast? with _ | last
  · rfl
  · have hmem := List.mem_of_getLast? hlast
    show s.accepted.find? (fun row => row.version = last.version) = some last
    rcases hfound : s.accepted.find? (fun row => row.version = last.version) with _ | row
    · rw [List.find?_eq_none] at hfound
      exact absurd (decide_eq_true rfl) (hfound last hmem)
    · have hsame := List.find?_some hfound
      rw [decide_eq_true_eq] at hsame
      rw [hfound, h.version_inj (List.mem_of_find?_eq_some hfound) hmem hsame]

theorem writeAudit_ok {outcome reason : String} {v : Option Verified}
    (h : s.writeAudit now outcome reason v = .ok s') :
    s' = s.withRow (s.auditRow now outcome reason v) := by
  unfold State.writeAudit at h
  split at h
  · exact (Except.ok.inj h).symm
  · cases h

theorem insertAccepted_ok (h : s.insertAccepted now v = .ok s') :
    s' = { s with accepted := s.accepted ++ [v.row now], active := some v.policy.version } := by
  unfold State.insertAccepted at h
  split at h
  · cases h
  · exact (Except.ok.inj h).symm

/-- A policy that is fresh is added at the end. -/
theorem Valid.add {verdict : Verdict} (h : Valid T s) (hfresh : Fresh s v verdict)
    (hhash : v.hash = T.digest.hash v.bytes) {audit : List AuditRow} {seq : Nat} :
    Valid T ⟨s.accepted ++ [v.row now], some v.policy.version, audit, seq⟩ := by
  have hnewer : ∀ row ∈ s.accepted, row.policyId = v.policy.policyId ∧
      row.version < v.policy.version := by
    intro row hrow
    obtain ⟨last, hlast⟩ : ∃ last, s.accepted.getLast? = some last :=
      ⟨_, List.getLast?_eq_getLast_of_ne_nil (List.ne_nil_of_mem hrow)⟩
    have hlastNewer := hfresh.newer last (by rw [h.activeRow, hlast]; rfl)
    have hle := h.le_last hlast row hrow
    exact ⟨(h.series row hrow last (List.mem_of_getLast? hlast)).trans hlastNewer.1, by omega⟩
  constructor
  · show (s.accepted ++ [v.row now]).Pairwise _
    rw [List.pairwise_append]
    refine ⟨h.ordered, List.pairwise_singleton _ _, ?_⟩
    intro a ha b hb
    rw [List.mem_singleton.1 hb]
    exact (hnewer a ha).2
  · show some v.policy.version = ((s.accepted ++ [v.row now]).getLast?).map _
    rw [List.getLast?_append]
    rfl
  · intro a ha b hb
    rw [List.mem_append, List.mem_singleton] at ha hb
    rcases ha with ha | rfl <;> rcases hb with hb | rfl
    · exact h.series a ha b hb
    · exact (hnewer a ha).1
    · exact (hnewer b hb).1.symm
    · rfl
  · show ((s.accepted ++ [v.row now]).filterMap _).Nodup
    rw [List.filterMap_append, List.nodup_append]
    refine ⟨h.approvals, ?_, ?_⟩
    · rcases hid : (v.row now).approvalId with _ | id
      · simp [hid]
      · simp [hid]
    · intro a ha b hb hab
      obtain ⟨old, hold, hused⟩ := List.mem_filterMap.1 ha
      obtain ⟨new, hnew, hid⟩ := List.mem_filterMap.1 hb
      rw [List.mem_singleton.1 hnew] at hid
      obtain ⟨approval, happroval, rfl⟩ := Option.map_eq_some_iff.1 hid
      obtain ⟨-, -, -, -, -, -, hunused⟩ := hfresh.rollback approval happroval
      exact hunused old hold (hused.trans (congrArg some hab))
  · intro row hrow
    rw [List.mem_append, List.mem_singleton] at hrow
    rcases hrow with hrow | rfl
    · exact h.hashes row hrow
    · exact hhash

theorem Valid.withRow (h : Valid T s) (row : AuditRow) : Valid T (s.withRow row) :=
  ⟨h.ordered, h.active, h.series, h.approvals, h.hashes⟩

/-- A transaction keeps the accepted policies valid, and adds at their end. -/
theorem Effect.valid (heffect : Effect config verified now s r s') (h : Valid T s)
    (hhash : ∀ v, verified = .ok v → v.hash = T.digest.hash v.bytes) :
    Valid T s' ∧ (s'.accepted = s.accepted ∨
      ∃ v, verified = .ok v ∧ s'.accepted = s.accepted ++ [v.row now]) := by
  cases heffect with
  | rejected code v written =>
    rw [writeAudit_ok written]
    exact ⟨h.withRow _, .inl rfl⟩
  | restarted v row source valid active series version hash written =>
    rw [writeAudit_ok written]
    exact ⟨h.withRow _, .inl rfl⟩
  | accepted v verdict source valid fresh inserted written =>
    rw [writeAudit_ok written, insertAccepted_ok inserted]
    exact ⟨(h.add fresh (hhash v source)).withRow _, .inr ⟨v, source, rfl⟩⟩

end Accepted

/-! ## Calls of several processes -/

/-- A call that has verified its files and has not had its transaction. -/
structure Pending where
  config : PolicyFileConfig
  verified : Except String Verified

/-- A call that has ended: the state before and after its transaction, and its result. -/
structure Done where
  config : PolicyFileConfig
  verified : Except String Verified
  now : Nat
  before : State
  after : State
  result : Outcome StateError (Except String Activated)

/-- The state database with the calls on it. Every row of the audit that was ever written is kept
for the statements only. -/
structure Sys where
  db : State := {}
  waiting : List Pending := []
  log : List Done := []
  written : List AuditRow := []

/-- A step of one of the processes. -/
inductive Event where
  /-- A call begins and verifies what its files contain now. -/
  | begin (config : PolicyFileConfig) (files : Files)
  /-- The `i`-th call that waits has its transaction, at a reading of the clock. -/
  | transact (i : Nat) (now : Nat)

section Runs

variable (T : Tools)

/-- The rows that a transaction has written to the audit. -/
def newRows (before after : State) : List AuditRow :=
  if after.auditSeq = before.auditSeq then [] else after.audit.getLast?.toList

/-- The `i`-th call that waits has its transaction, which ended in a way. -/
def Sys.ended (sys : Sys) (i : Nat) (p : Pending) (now : Nat)
    (run : Outcome StateError (Except String Activated) × Plan × State) : Sys where
  db := run.2.2
  waiting := sys.waiting.eraseIdx i
  log := sys.log ++ [⟨p.config, p.verified, now, sys.db, run.2.2, run.1⟩]
  written := sys.written ++ newRows sys.db run.2.2

/-- A step under a plan for what goes wrong in it. -/
def Sys.next (sys : Sys) : Event → Plan → Sys
  | .begin config files, _ =>
    { sys with waiting := sys.waiting ++ [⟨config, readVerify T config files⟩] }
  | .transact i now, plan =>
    match sys.waiting[i]? with
    | none => sys
    | some p => sys.ended i p now (activate p.config p.verified now plan sys.db)

/-- A run. -/
def Sys.play (sys : Sys) (script : List (Event × Plan)) : Sys :=
  script.foldl (fun sys step => sys.next T step.1 step.2) sys

/-- The policy files of a script. -/
def contents (script : List (Event × Plan)) : List Bytes :=
  script.filterMap fun step => match step.1 with
    | .begin _ files => files.policy
    | .transact _ _ => none

end Runs

/-- The target of a policy matches a host: it lists hosts or groups, and of each that it lists the
host is one. -/
structure Targets (config : PolicyFileConfig) (policy : Policy) : Prop where
  some : policy.targetHosts ≠ [] ∨ policy.targetGroups ≠ []
  host : policy.targetHosts ≠ [] → config.hostId ∈ policy.targetHosts
  group : policy.targetGroups ≠ [] → ∃ group ∈ policy.targetGroups, group ∈ config.groups

/-- The file of the active policy again: nothing is accepted. -/
structure Done.Again (d : Done) (v : Verified) : Prop where
  accepted : d.after.accepted = d.before.accepted
  active : d.after.active = d.before.active
  same : ∃ row ∈ d.before.accepted, d.before.active = some row.version ∧
    row.version = v.policy.version ∧ row.policyBytes = v.bytes

/-- A policy is accepted: its version is greater than the active one, and a rollback names an older
policy with its settings and has an approval of its own. -/
structure Done.Added (d : Done) (v : Verified) : Prop where
  newer : ∀ version ∈ d.before.active, version < v.policy.version
  accepted : d.after.accepted = d.before.accepted ++ [v.row d.now]
  active : d.after.active = some v.policy.version
  rollback : ∀ r ∈ v.policy.rollback, ∃ row ∈ d.before.accepted, row.version = r.sourceVersion ∧
    row.version < v.policy.version ∧ row.sha256 = r.sourceSha256 ∧ row.settingsJson = v.settings ∧
    ∀ old ∈ d.before.accepted, old.approvalId ≠ some r.approvalId

/-- A call that returned a policy. -/
def Done.Activates (d : Done) (a : Activated) : Prop :=
  ∃ v, d.verified = .ok v ∧ a.policy = v.policy ∧ a.sha256 = v.hash ∧
    v.policy.policyId = d.config.policyId ∧ v.policy.notBeforeMs ≤ d.now ∧
    d.now < v.policy.expiresAtMs ∧ Targets d.config v.policy ∧
    ((a.outcome = .restarted ∧ d.Again v) ∨ (a.outcome ≠ .restarted ∧ d.Added v))

/-- A call that was rejected: it has added one row to the audit. -/
def Done.Rejects (d : Done) (code : String) : Prop :=
  ∃ row : AuditRow, d.after = d.before.withRow row ∧ row.id = d.before.auditSeq + 1 ∧
    row.outcome = "rejected" ∧ row.reason = code

/-- What a call that has ended did. -/
def Done.Sound (d : Done) : Prop :=
  match d.result with
  | .ok (.ok a) => d.Activates a
  | .ok (.error code) => d.Rejects code
  | .error _ => d.after = d.before ∨ ∃ r, Effect d.config d.verified d.now d.before r d.after
  | .killed => d.after = d.before

end Argos.Policies
