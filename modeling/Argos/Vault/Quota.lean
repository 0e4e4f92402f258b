import Argos.Vault.Checks
import Argos.Lib.Tally

/-!
# The capacity ledger

`CapacityState` of `quota.rs`: what the server has admitted, in total and per agent, and the part of
it that went through the budget for revocations. Counters are natural numbers; an addition that the
source checks is checked here, and one that it does not check is `wrappingAdd`. The reading of the
filesystem's free space is an argument of every reservation.

One reservation of either kind is `reserveFor`; `reserveFor_cases` says everything that it can do.
The start-up scan is in `Scan.lean`.
-/

namespace Argos.Vault

open Argos.Lib

/-- `METADATA_MARGIN`. -/
def metadataMargin : Nat := maxReceiptBytes + 65536

/-- `MAX_REASONS`. -/
def maxReasons : Nat := 32

/-- `AgentCapacityLimit`. -/
structure AgentCapacityLimit where
  maxBytes : Nat
  maxObjects : Nat
deriving DecidableEq, Repr

/-- `CapacityConfig`. -/
structure CapacityConfig where
  globalMaxBytes : Nat := 100 * 1024 * 1024 * 1024
  globalMaxObjects : Nat := 1000000
  agentMaxBytes : Nat := 10 * 1024 * 1024 * 1024
  agentMaxObjects : Nat := 100000
  minFreeBytes : Nat := 1024 * 1024 * 1024
  revocationMaxBytes : Nat := 8 * 1024 * 1024
  revocationMaxObjects : Nat := 1000
  revocationAgentMaxBytes : Nat := 1024 * 1024
  revocationAgentMaxObjects : Nat := 100
  revocationReservedFreeBytes : Nat := 128 * 1024 * 1024
  maxScanEntries : Nat := 2100000
  maxTrackedAgents : Nat := 4096
  agentOverrides : Map String AgentCapacityLimit := ∅

/-- `ObjectUsage`. -/
@[ext]
structure ObjectUsage where
  logicalBytes : Nat
  objects : Nat
  receiptedObjects : Nat
deriving DecidableEq, Repr

instance : Inhabited ObjectUsage := ⟨⟨0, 0, 0⟩⟩

/-- `CapacityState`, without the lock that the process holds. -/
structure CapacityState where
  limits : CapacityConfig
  total : ObjectUsage
  agents : Map String ObjectUsage
  reconstructionComplete : Bool
  storageConsistent : Bool
  reasons : List String
  admissionRejections : Nat
  bundleControlObjects : Nat
  bundleControlOwners : Map (String × String) Nat
  revocations : ObjectUsage
  agentRevocations : Map String ObjectUsage

/-- `subtract_usage`. -/
def subtractUsage (total reserved : ObjectUsage) : ObjectUsage :=
  ⟨total.logicalBytes - reserved.logicalBytes, total.objects - reserved.objects,
    total.receiptedObjects - reserved.receiptedObjects⟩

/-- The part of `CapacityConfig` that a reservation of one kind is held against. -/
structure Budget where
  total : ObjectUsage
  current : ObjectUsage
  globalBytes : Nat
  globalObjects : Nat
  agentLimit : AgentCapacityLimit

namespace CapacityState

/-- The state in which `CapacityState::open` starts, before it knows any agent. -/
def blank (limits : CapacityConfig) : CapacityState where
  limits := limits
  total := default
  agents := ∅
  reconstructionComplete := true
  storageConsistent := true
  reasons := []
  admissionRejections := 0
  bundleControlObjects := 0
  bundleControlOwners := ∅
  revocations := default
  agentRevocations := ∅

/-- The loop of `CapacityState::open` over the configured agents. -/
def addConfigured (st : CapacityState) : List String → Result CapacityState
  | [] => .ok st
  | agent :: rest =>
    if st.agents.entries.length ≥ st.limits.maxTrackedAgents then
      .error (.message "설정된 에이전트 수가 용량 계수 메모리 상한을 초과합니다")
    else addConfigured { st with agents := st.agents.insert agent default } rest

/-- The first half of `CapacityState::open`: the configuration's own check, then the configured
agents. The second half is the scan. -/
def prepare (limits : CapacityConfig) (agents : List String) : Result CapacityState := do
  refuse (!(1 ≤ limits.maxScanEntries && limits.maxScanEntries ≤ 2100000) ||
    !(1 ≤ limits.maxTrackedAgents && limits.maxTrackedAgents ≤ 16384) ||
    limits.agentOverrides.entries.length > limits.maxTrackedAgents ||
    limits.agentOverrides.keys.any (fun id => !validId id))
    "용량 설정의 스캔/에이전트 상한 또는 개별 ID가 유효하지 않습니다"
  addConfigured (blank limits) agents

/-- `inconsistent`. -/
def inconsistent (st : CapacityState) (code : String) : CapacityState :=
  { st with
    storageConsistent := false
    reasons := if st.reasons.length < maxReasons ∧ code ∉ st.reasons then st.reasons ++ [code]
      else st.reasons }

/-- `agent_limit`. -/
def agentLimit (st : CapacityState) (agent : String) : AgentCapacityLimit :=
  (st.limits.agentOverrides.lookup agent).getD ⟨st.limits.agentMaxBytes, st.limits.agentMaxObjects⟩

/-- `add_usage`. -/
def addUsage (st : CapacityState) (agent : String) (bytes : Nat) : Result Unit × CapacityState :=
  match st.agents.lookup agent with
  | none => (.error (.message "계수 에이전트 없음"), st)
  | some current =>
    match checkedAdd st.total.logicalBytes bytes with
    | none => (.error (.message "전역 바이트 초과"), st)
    | some totalBytes =>
      match checkedAdd st.total.objects 1 with
      | none => (.error (.message "전역 객체수 초과"), st)
      | some totalObjects =>
        match checkedAdd current.logicalBytes bytes with
        | none => (.error (.message "에이전트 바이트 초과"), st)
        | some agentBytes =>
          match checkedAdd current.objects 1 with
          | none => (.error (.message "에이전트 객체수 초과"), st)
          | some agentObjects =>
            (.ok (), { st with
              total := { st.total with logicalBytes := totalBytes, objects := totalObjects }
              agents := st.agents.insert agent
                { current with logicalBytes := agentBytes, objects := agentObjects } })

/-- `note_control`. -/
def noteControl (st : CapacityState) (agent bundle : String) : Result Unit × CapacityState :=
  if (agent, bundle) ∉ st.bundleControlOwners ∧ st.bundleControlOwners.entries.length ≥ 10000 then
    (.error (.message "번들 귀속 계수 상한"), st.inconsistent "bundle_owner_tracking_limit")
  else
    (.ok (), { st with
      bundleControlOwners := bump st.bundleControlOwners (agent, bundle) (wrappingAdd · 1)
      bundleControlObjects := wrappingAdd st.bundleControlObjects 1 })

/-- `revocation_enabled`. -/
def revocationEnabled (st : CapacityState) : Bool :=
  st.limits.revocationMaxBytes > 0 && st.limits.revocationMaxObjects > 0 &&
    st.limits.revocationAgentMaxBytes > 0 && st.limits.revocationAgentMaxObjects > 0

/-- The usage with one more object of `bytes` bytes, added without a check. -/
def charge (bytes : Nat) (usage : ObjectUsage) : ObjectUsage :=
  { usage with
    logicalBytes := wrappingAdd usage.logicalBytes bytes, objects := wrappingAdd usage.objects 1 }

/-- The usage with one more receipted object, added without a check. -/
def receipted (usage : ObjectUsage) : ObjectUsage :=
  { usage with receiptedObjects := wrappingAdd usage.receiptedObjects 1 }

/-- `add_revocation`. -/
def addRevocation (st : CapacityState) (agent : String) (bytes : Nat) : CapacityState :=
  { st with
    revocations := charge bytes st.revocations
    agentRevocations := bump st.agentRevocations agent (charge bytes) }

/-- `mark_revocation_receipted`. -/
def markRevocationReceipted (st : CapacityState) (agent : String) : CapacityState :=
  if st.revocationEnabled then
    { st with
      revocations := receipted st.revocations
      agentRevocations := bump st.agentRevocations agent receipted }
  else st

/-- `mark_receipted`. -/
def markReceipted (st : CapacityState) (agent : String) : CapacityState :=
  { st with
    total := { st.total with receiptedObjects := saturatingAdd st.total.receiptedObjects 1 }
    agents := match st.agents.lookup agent with
      | none => st.agents
      | some usage => st.agents.insert agent
          { usage with receiptedObjects := saturatingAdd usage.receiptedObjects 1 } }

/-- `write_failed`. -/
def writeFailed (st : CapacityState) : CapacityState :=
  st.inconsistent "publish_failed_restart_required"

/-- The usage and the limits that `admit` compares, for an agent whose usage is `current`. -/
def budget (st : CapacityState) (agent : String) (current : ObjectUsage) (revocation : Bool) :
    Budget :=
  if revocation then
    { total := st.revocations
      current := valueAt st.agentRevocations agent
      globalBytes := st.limits.revocationMaxBytes
      globalObjects := st.limits.revocationMaxObjects
      agentLimit := ⟨st.limits.revocationAgentMaxBytes, st.limits.revocationAgentMaxObjects⟩ }
  else
    { total := subtractUsage st.total st.revocations
      current := subtractUsage current (valueAt st.agentRevocations agent)
      globalBytes := st.limits.globalMaxBytes
      globalObjects := st.limits.globalMaxObjects
      agentLimit := st.agentLimit agent }

/-- The comparison that `admit` makes for the whole vault and again for the agent. -/
def exceeds (usage : ObjectUsage) (bytes maxBytes maxObjects : Nat) : Bool :=
  usage.logicalBytes ≥ maxBytes || (checkedAdd usage.logicalBytes bytes).all (· > maxBytes) ||
    (checkedAdd usage.objects 1).all (· > maxObjects)

/-- The free space that `admit` keeps for revocations. -/
def extraFree (st : CapacityState) (revocation : Bool) : Nat :=
  if !revocation && st.revocationEnabled then st.limits.revocationReservedFreeBytes else 0

/-- The free-space floor of `admit`: whether it is not met, or cannot be read. -/
def floorBlocked (st : CapacityState) (free : Option Nat) (bytes : Nat) (revocation : Bool) :
    Bool :=
  let extra := st.extraFree revocation
  if st.limits.minFreeBytes > 0 || extra > 0 then
    let required := (checkedAdd st.limits.minFreeBytes extra).bind fun v =>
      (checkedAdd v bytes).bind fun v => checkedAdd v metadataMargin
    match free, required with
    | some free, some needed => free < needed
    | _, _ => true
  else false

/-- `admit`, with the reading `free` of the free space. -/
def admits (st : CapacityState) (free : Option Nat) (agent : String) (bytes : Nat)
    (revocation : Bool) : Result Unit × CapacityState :=
  if !st.storageConsistent || !st.reconstructionComplete then
    (.error (.capacity "storage_accounting_incomplete"), st)
  else match st.agents.lookup agent with
    | none => (.error (.capacity "untracked_agent"), st)
    | some current =>
      let b := st.budget agent current revocation
      if exceeds b.total bytes b.globalBytes b.globalObjects then
        (.error (.capacity (if revocation then "revocation_global_limit" else "global_limit")), st)
      else if exceeds b.current bytes b.agentLimit.maxBytes b.agentLimit.maxObjects then
        (.error (.capacity (if revocation then "revocation_agent_limit" else "agent_limit")), st)
      else if st.floorBlocked free bytes revocation then
        (.error (.capacity "filesystem_free_floor_or_unavailable"), st)
      else match st.addUsage agent bytes with
        | (.error _, st') => (.error (.capacity "accounting_overflow"), st')
        | (.ok (), st') =>
          (.ok (), if revocation then st'.addRevocation agent bytes else st')

/-- `reserve_for`. -/
def reserveFor (st : CapacityState) (free : Option Nat) (agent : String) (bytes : Nat)
    (revocation : Bool) : Result Unit × CapacityState :=
  match st.admits free agent bytes (revocation && st.revocationEnabled) with
  | (.ok (), st') => (.ok (), st')
  | (.error e, st') =>
    (.error e, { st' with admissionRejections := saturatingAdd st'.admissionRejections 1 })

/-- `reserve`. -/
def reserve (st : CapacityState) (free : Option Nat) (agent : String) (bytes : Nat) :
    Result Unit × CapacityState := st.reserveFor free agent bytes false

/-- `reserve_revocation`. -/
def reserveRevocation (st : CapacityState) (free : Option Nat) (agent : String) (bytes : Nat) :
    Result Unit × CapacityState := st.reserveFor free agent bytes true

/-! ## What a reservation does -/

/-- The usage with one more object of `bytes` bytes. -/
def grown (bytes : Nat) (usage : ObjectUsage) : ObjectUsage :=
  { usage with logicalBytes := usage.logicalBytes + bytes, objects := usage.objects + 1 }

/-- The state after an admitted reservation. -/
def charged (st : CapacityState) (agent : String) (bytes : Nat) (revocation : Bool) :
    CapacityState :=
  let st' := { st with
    total := grown bytes st.total
    agents := bump st.agents agent (grown bytes) }
  if revocation then st'.addRevocation agent bytes else st'

/-- What `admit` has compared when it admits `bytes` bytes of an agent. -/
structure Admitted (st : CapacityState) (free : Option Nat) (agent : String) (bytes : Nat)
    (revocation : Bool) (current : ObjectUsage) : Prop where
  consistent : st.storageConsistent = true
  complete : st.reconstructionComplete = true
  tracked : st.agents.lookup agent = some current
  globalBytes : (st.budget agent current revocation).total.logicalBytes + bytes ≤
    (st.budget agent current revocation).globalBytes
  globalObjects : (st.budget agent current revocation).total.objects + 1 ≤
    (st.budget agent current revocation).globalObjects
  agentBytes : (st.budget agent current revocation).current.logicalBytes + bytes ≤
    (st.budget agent current revocation).agentLimit.maxBytes
  agentObjects : (st.budget agent current revocation).current.objects + 1 ≤
    (st.budget agent current revocation).agentLimit.maxObjects
  room : st.floorBlocked free bytes revocation = false
  totalBytes : st.total.logicalBytes + bytes ≤ u64Max
  totalObjects : st.total.objects + 1 ≤ u64Max

theorem checkedAdd_eq_some_iff {a b c : Nat} : checkedAdd a b = some c ↔ a + b ≤ u64Max ∧ c = a + b := by
  unfold checkedAdd
  split_ifs with h
  · simp [h, eq_comm]
  · simp [h]

/-- A comparison that does not fail leaves room for the object. -/
theorem fits_of_not_exceeds {usage : ObjectUsage} {bytes maxBytes maxObjects : Nat}
    (h : exceeds usage bytes maxBytes maxObjects = false) :
    usage.logicalBytes + bytes ≤ maxBytes ∧ usage.objects + 1 ≤ maxObjects := by
  simp only [exceeds, checkedAdd, Bool.or_eq_false_iff, decide_eq_false_iff_not] at h
  obtain ⟨⟨-, hb⟩, ho⟩ := h
  split_ifs at hb ho <;> simp_all

/-- `add_usage` either fails and changes nothing, or adds one object to the total and to the
agent. -/
theorem addUsage_cases (st : CapacityState) (agent : String) (bytes : Nat) :
    (∃ e, st.addUsage agent bytes = (.error e, st)) ∨
      ∃ current, st.agents.lookup agent = some current ∧
        st.total.logicalBytes + bytes ≤ u64Max ∧ st.total.objects + 1 ≤ u64Max ∧
        current.logicalBytes + bytes ≤ u64Max ∧ current.objects + 1 ≤ u64Max ∧
        st.addUsage agent bytes = (.ok (), st.charged agent bytes false) := by
  unfold addUsage
  rcases hl : st.agents.lookup agent with _ | current
  · exact .inl ⟨_, rfl⟩
  dsimp only
  rcases h1 : checkedAdd st.total.logicalBytes bytes with _ | tb
  · exact .inl ⟨_, rfl⟩
  rcases h2 : checkedAdd st.total.objects 1 with _ | tobj
  · exact .inl ⟨_, rfl⟩
  rcases h3 : checkedAdd current.logicalBytes bytes with _ | ab
  · exact .inl ⟨_, rfl⟩
  rcases h4 : checkedAdd current.objects 1 with _ | ao
  · exact .inl ⟨_, rfl⟩
  obtain ⟨hb, rfl⟩ := checkedAdd_eq_some_iff.1 h1
  obtain ⟨ho, rfl⟩ := checkedAdd_eq_some_iff.1 h2
  obtain ⟨hcb, rfl⟩ := checkedAdd_eq_some_iff.1 h3
  obtain ⟨hco, rfl⟩ := checkedAdd_eq_some_iff.1 h4
  refine .inr ⟨current, rfl, hb, ho, hcb, hco, ?_⟩
  simp [charged, bump, valueAt, hl, grown]

/-- `admit` either fails and changes nothing, or has found room and charges the object. -/
theorem admits_cases (st : CapacityState) (free : Option Nat) (agent : String) (bytes : Nat)
    (revocation : Bool) :
    (∃ e, st.admits free agent bytes revocation = (.error e, st)) ∨
      ∃ current, Admitted st free agent bytes revocation current ∧
        st.admits free agent bytes revocation = (.ok (), st.charged agent bytes revocation) := by
  unfold admits
  by_cases hflags : (!st.storageConsistent || !st.reconstructionComplete) = true
  · rw [if_pos hflags]; exact .inl ⟨_, rfl⟩
  rw [if_neg hflags]
  rcases hl : st.agents.lookup agent with _ | current
  · exact .inl ⟨_, rfl⟩
  simp only
  generalize hb : st.budget agent current revocation = b
  by_cases hglobal : exceeds b.total bytes b.globalBytes b.globalObjects = true
  · rw [if_pos hglobal]; exact .inl ⟨_, rfl⟩
  rw [if_neg hglobal]
  by_cases hagent : exceeds b.current bytes b.agentLimit.maxBytes b.agentLimit.maxObjects = true
  · rw [if_pos hagent]; exact .inl ⟨_, rfl⟩
  rw [if_neg hagent]
  by_cases hfloor : st.floorBlocked free bytes revocation = true
  · rw [if_pos hfloor]; exact .inl ⟨_, rfl⟩
  rw [if_neg hfloor]
  obtain ⟨e, he⟩ | ⟨current', hl', htb, hto, -, -, hok⟩ := st.addUsage_cases agent bytes
  · rw [he]; exact .inl ⟨_, rfl⟩
  simp only [Bool.not_eq_true] at hglobal hagent hfloor
  simp only [Bool.or_eq_true, Bool.not_eq_true', not_or, Bool.not_eq_false] at hflags
  obtain ⟨hgb, hgo⟩ := fits_of_not_exceeds hglobal
  obtain ⟨hab, hao⟩ := fits_of_not_exceeds hagent
  subst hb
  refine .inr ⟨current, ⟨hflags.1, hflags.2, hl, hgb, hgo, hab, hao, hfloor, htb, hto⟩, ?_⟩
  rw [hok]
  cases revocation <;> rfl

/-- A reservation that is turned away changes nothing but the count of rejections; one that is
admitted was found room for, and is charged. -/
theorem reserveFor_cases (st : CapacityState) (free : Option Nat) (agent : String) (bytes : Nat)
    (revocation : Bool) :
    (∃ e, st.reserveFor free agent bytes revocation =
        (.error e, { st with admissionRejections := saturatingAdd st.admissionRejections 1 })) ∨
      ∃ current, Admitted st free agent bytes (revocation && st.revocationEnabled) current ∧
        st.reserveFor free agent bytes revocation =
          (.ok (), st.charged agent bytes (revocation && st.revocationEnabled)) := by
  unfold reserveFor
  obtain ⟨e, he⟩ | ⟨current, hadm, hok⟩ :=
    st.admits_cases free agent bytes (revocation && st.revocationEnabled)
  · rw [he]; exact .inl ⟨e, rfl⟩
  · rw [hok]; exact .inr ⟨current, hadm, rfl⟩

/-- An admitted object is charged to an agent that was tracked. -/
theorem mem_charged {st : CapacityState} {agent : String} (hmem : agent ∈ st.agents) (bytes : Nat)
    (revocation : Bool) (a : String) :
    a ∈ (st.charged agent bytes revocation).agents ↔ a ∈ st.agents := by
  have hagents : (st.charged agent bytes revocation).agents = bump st.agents agent (grown bytes) := by
    cases revocation <;> rfl
  rw [hagents, bump, AList.mem_insert]
  exact ⟨fun h => h.elim (fun h => h ▸ hmem) id, .inr⟩

/-- Marking an object tracks nobody. -/
theorem mem_markReceipted (st : CapacityState) (agent a : String) :
    a ∈ (st.markReceipted agent).agents ↔ a ∈ st.agents := by
  unfold markReceipted
  rcases h : st.agents.lookup agent with _ | usage
  · exact Iff.rfl
  · have hmem : agent ∈ st.agents := by rw [← AList.lookup_isSome, h]; rfl
    rw [AList.mem_insert]
    exact ⟨fun h => h.elim (fun h => h ▸ hmem) id, .inr⟩

theorem markRevocationReceipted_agents (st : CapacityState) (agent : String) :
    (st.markRevocationReceipted agent).agents = st.agents := by
  unfold markRevocationReceipted
  split <;> rfl

theorem Admitted.mem {st : CapacityState} {free : Option Nat} {agent : String} {bytes : Nat}
    {revocation : Bool} {current : ObjectUsage}
    (h : Admitted st free agent bytes revocation current) : agent ∈ st.agents := by
  rw [← AList.lookup_isSome, h.tracked]
  rfl

/-- The state after a control object was noted. -/
def noted (st : CapacityState) (agent bundle : String) : CapacityState :=
  { st with
    bundleControlOwners := bump st.bundleControlOwners (agent, bundle) (wrappingAdd · 1)
    bundleControlObjects := wrappingAdd st.bundleControlObjects 1 }

/-- The table of owners has room for an object of a bundle. -/
def OwnerRoom (st : CapacityState) (key : String × String) : Prop :=
  key ∈ st.bundleControlOwners ∨ st.bundleControlOwners.entries.length < 10000

/-- `note_control` either finds the table of owners full and marks the storage inconsistent, or
counts the object for its bundle. -/
theorem noteControl_cases (st : CapacityState) (agent bundle : String) :
    (¬ st.OwnerRoom (agent, bundle) ∧ ∃ e, st.noteControl agent bundle =
        (.error e, st.inconsistent "bundle_owner_tracking_limit")) ∨
      (st.OwnerRoom (agent, bundle) ∧
        st.noteControl agent bundle = (.ok (), st.noted agent bundle)) := by
  unfold noteControl OwnerRoom
  split
  · next h => exact .inl ⟨by rw [not_or, not_lt]; exact h, _, rfl⟩
  · next h => exact .inr ⟨by rw [not_and_or, not_not, ge_iff_le, not_le] at h; exact h, rfl⟩

end CapacityState

end Argos.Vault
