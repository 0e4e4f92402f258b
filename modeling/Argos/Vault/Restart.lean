import Argos.Vault.Accounting
import Argos.Vault.Sample

/-!
# After a restart

Two states of the counters agree when they would be reported alike and have the same limits and
flags (`Agrees`); the order in which agents and bundles were met is not compared. States that agree
turn the same reservations away, with the same reason, now and after any further calls
(`Agrees.run`). The counters of a server whose writes all went well agree with those that a restart
scans together from its directory (`restart_agrees`).
-/

namespace Argos.Vault

open Argos.Lib

/-- The counters and flags are the same, as values of their maps. -/
structure Agrees (st st' : CapacityState) : Prop where
  limits : st'.limits = st.limits
  total : st'.total = st.total
  agents : ∀ agent, st'.agents.lookup agent = st.agents.lookup agent
  revocations : st'.revocations = st.revocations
  agentRevocations : ∀ agent,
    st'.agentRevocations.lookup agent = st.agentRevocations.lookup agent
  controls : st'.bundleControlObjects = st.bundleControlObjects
  owners : ∀ key, st'.bundleControlOwners.lookup key = st.bundleControlOwners.lookup key
  consistent : st'.storageConsistent = st.storageConsistent
  complete : st'.reconstructionComplete = st.reconstructionComplete

/-! ## The same decisions -/

theorem valueAt_congr {K V : Type} [DecidableEq K] [Inhabited V] {m m' : Map K V}
    (h : ∀ k, m'.lookup k = m.lookup k) (k : K) : valueAt m' k = valueAt m k := by
  rw [valueAt, valueAt, h]

theorem lookup_bump_congr {K V : Type} [DecidableEq K] [Inhabited V] {m m' : Map K V}
    (h : ∀ k, m'.lookup k = m.lookup k) (k : K) (g : V → V) (k' : K) :
    (bump m' k g).lookup k' = (bump m k g).lookup k' := by
  rw [lookup_bump, lookup_bump, valueAt_congr h, h]

namespace Agrees

variable {st st' : CapacityState} (h : Agrees st st')
include h

theorem revocationEnabled : st'.revocationEnabled = st.revocationEnabled := by
  rw [CapacityState.revocationEnabled, CapacityState.revocationEnabled, h.limits]

theorem budget (agent : String) (current : ObjectUsage) (revocation : Bool) :
    st'.budget agent current revocation = st.budget agent current revocation := by
  have hvalue := valueAt_congr h.agentRevocations agent
  have hlimit : st'.agentLimit agent = st.agentLimit agent := by
    rw [CapacityState.agentLimit, CapacityState.agentLimit, h.limits]
  unfold CapacityState.budget
  rw [h.total, h.revocations, h.limits, hvalue, hlimit]

theorem floorBlocked (free : Option Nat) (bytes : Nat) (revocation : Bool) :
    st'.floorBlocked free bytes revocation = st.floorBlocked free bytes revocation := by
  have hextra : st'.extraFree revocation = st.extraFree revocation := by
    rw [CapacityState.extraFree, CapacityState.extraFree, h.limits, h.revocationEnabled]
  unfold CapacityState.floorBlocked
  rw [hextra, h.limits]

/-- Charging an object on both sides. -/
theorem charged (agent : String) (bytes : Nat) (revocation : Bool) :
    Agrees (st.charged agent bytes revocation) (st'.charged agent bytes revocation) := by
  have htotal : CapacityState.grown bytes st'.total = CapacityState.grown bytes st.total := by
    rw [h.total]
  have hagents := lookup_bump_congr h.agents agent (CapacityState.grown bytes)
  cases revocation with
  | false =>
    exact ⟨h.limits, htotal, hagents, h.revocations, h.agentRevocations, h.controls, h.owners,
      h.consistent, h.complete⟩
  | true =>
    refine ⟨h.limits, htotal, hagents, ?_, ?_, h.controls, h.owners, h.consistent, h.complete⟩
    · show CapacityState.charge bytes st'.revocations = CapacityState.charge bytes st.revocations
      rw [h.revocations]
    · exact lookup_bump_congr h.agentRevocations agent (CapacityState.charge bytes)

/-- `add_usage` on both sides: the same answer, and the states still agree. -/
theorem addUsage (agent : String) (bytes : Nat) :
    (st'.addUsage agent bytes).1 = (st.addUsage agent bytes).1 ∧
      Agrees (st.addUsage agent bytes).2 (st'.addUsage agent bytes).2 := by
  have hanswer : (st'.addUsage agent bytes).1 = (st.addUsage agent bytes).1 := by
    unfold CapacityState.addUsage
    rw [h.agents, h.total]
    rcases st.agents.lookup agent with _ | current
    · rfl
    dsimp only
    rcases checkedAdd st.total.logicalBytes bytes with _ | tb
    · rfl
    rcases checkedAdd st.total.objects 1 with _ | tobj
    · rfl
    rcases checkedAdd current.logicalBytes bytes with _ | ab
    · rfl
    rcases checkedAdd current.objects 1 with _ | ao
    · rfl
    · rfl
  refine ⟨hanswer, ?_⟩
  obtain ⟨e, he⟩ | ⟨current, -, -, -, -, -, hok⟩ := st.addUsage_cases agent bytes
  · obtain ⟨e', he'⟩ | ⟨current', -, -, -, -, -, hok'⟩ := st'.addUsage_cases agent bytes
    · rw [he, he']; exact h
    · rw [he, hok'] at hanswer; cases hanswer
  · obtain ⟨e', he'⟩ | ⟨current', -, -, -, -, -, hok'⟩ := st'.addUsage_cases agent bytes
    · rw [hok, he'] at hanswer; cases hanswer
    · rw [hok, hok']; exact h.charged agent bytes false

/-- `admit` on both sides: the same answer, and the states still agree. -/
theorem admits (free : Option Nat) (agent : String) (bytes : Nat) (revocation : Bool) :
    (st'.admits free agent bytes revocation).1 = (st.admits free agent bytes revocation).1 ∧
      Agrees (st.admits free agent bytes revocation).2 (st'.admits free agent bytes revocation).2 := by
  have hanswer : (st'.admits free agent bytes revocation).1 =
      (st.admits free agent bytes revocation).1 := by
    have hadd := (h.addUsage agent bytes).1
    unfold CapacityState.admits
    rw [h.consistent, h.complete, h.agents]
    split
    · rfl
    rcases st.agents.lookup agent with _ | current
    · rfl
    dsimp only
    rw [h.budget, h.floorBlocked]
    split
    · rfl
    split
    · rfl
    split
    · rfl
    rcases hl : st.addUsage agent bytes with ⟨_ | _, st₁⟩ <;>
      rcases hr : st'.addUsage agent bytes with ⟨_ | _, st₂⟩ <;>
      rw [hl, hr] at hadd <;> first | rfl | cases hadd
  refine ⟨hanswer, ?_⟩
  obtain ⟨e, he⟩ | ⟨current, -, hok⟩ := st.admits_cases free agent bytes revocation
  · obtain ⟨e', he'⟩ | ⟨current', -, hok'⟩ := st'.admits_cases free agent bytes revocation
    · rw [he, he']; exact h
    · rw [he, hok'] at hanswer; cases hanswer
  · obtain ⟨e', he'⟩ | ⟨current', -, hok'⟩ := st'.admits_cases free agent bytes revocation
    · rw [hok, he'] at hanswer; cases hanswer
    · rw [hok, hok']; exact h.charged agent bytes revocation

/-- A reservation on both sides: admitted on both, or turned away on both for the same reason. -/
theorem reserveFor (free : Option Nat) (agent : String) (bytes : Nat) (revocation : Bool) :
    (st'.reserveFor free agent bytes revocation).1 = (st.reserveFor free agent bytes revocation).1 ∧
      Agrees (st.reserveFor free agent bytes revocation).2
        (st'.reserveFor free agent bytes revocation).2 := by
  unfold CapacityState.reserveFor
  rw [h.revocationEnabled]
  obtain ⟨hanswer, hagrees⟩ := h.admits free agent bytes (revocation && st.revocationEnabled)
  rcases hl : st.admits free agent bytes (revocation && st.revocationEnabled) with ⟨e | u, st₁⟩ <;>
    rcases hr : st'.admits free agent bytes (revocation && st.revocationEnabled) with ⟨e' | u', st₂⟩ <;>
    rw [hl, hr] at hanswer hagrees
  · cases hanswer
    exact ⟨rfl, hagrees.limits, hagrees.total, hagrees.agents, hagrees.revocations,
      hagrees.agentRevocations, hagrees.controls, hagrees.owners, hagrees.consistent,
      hagrees.complete⟩
  · cases hanswer
  · cases hanswer
  · exact ⟨rfl, hagrees⟩

/-- Marking an object on both sides. -/
theorem markReceipted (agent : String) :
    Agrees (st.markReceipted agent) (st'.markReceipted agent) := by
  refine ⟨h.limits, ?_, fun a => ?_, h.revocations, h.agentRevocations, h.controls, h.owners,
    h.consistent, h.complete⟩
  · simp only [CapacityState.markReceipted, h.total]
  · unfold CapacityState.markReceipted
    rw [h.agents]
    rcases st.agents.lookup agent with _ | usage
    · exact h.agents a
    · dsimp only
      by_cases ha : a = agent
      · rw [ha, AList.lookup_insert, AList.lookup_insert]
      · rw [AList.lookup_insert_ne ha, AList.lookup_insert_ne ha, h.agents]

/-- Marking a revocation on both sides. -/
theorem markRevocationReceipted (agent : String) :
    Agrees (st.markRevocationReceipted agent) (st'.markRevocationReceipted agent) := by
  unfold CapacityState.markRevocationReceipted
  rw [h.revocationEnabled]
  split
  · refine ⟨h.limits, h.total, h.agents, ?_, ?_, h.controls, h.owners, h.consistent, h.complete⟩
    · show CapacityState.receipted st'.revocations = CapacityState.receipted st.revocations
      rw [h.revocations]
    · exact lookup_bump_congr h.agentRevocations agent CapacityState.receipted
  · exact h

/-- Marking the storage as inconsistent on both sides. -/
theorem inconsistent (code : String) : Agrees (st.inconsistent code) (st'.inconsistent code) :=
  ⟨h.limits, h.total, h.agents, h.revocations, h.agentRevocations, h.controls, h.owners, rfl,
    h.complete⟩

/-- Noting a control object on both sides: the tables of owners are equally full. -/
theorem noteControl (agent bundle : String) :
    (st'.noteControl agent bundle).1 = (st.noteControl agent bundle).1 ∧
      Agrees (st.noteControl agent bundle).2 (st'.noteControl agent bundle).2 := by
  have hlength := length_eq_of_lookup h.owners
  have hmem : (agent, bundle) ∈ st'.bundleControlOwners ↔ (agent, bundle) ∈ st.bundleControlOwners := by
    rw [← AList.lookup_isSome, ← AList.lookup_isSome, h.owners]
  unfold CapacityState.noteControl
  simp only [hmem, hlength]
  split
  · exact ⟨rfl, h.inconsistent _⟩
  · refine ⟨rfl, h.limits, h.total, h.agents, h.revocations, h.agentRevocations, ?_, ?_,
      h.consistent, h.complete⟩
    · show wrappingAdd st'.bundleControlObjects 1 = wrappingAdd st.bundleControlObjects 1
      rw [h.controls]
    · exact lookup_bump_congr h.owners (agent, bundle) (wrappingAdd · 1)

/-- One call on both sides. -/
theorem apply (op : QuotaOp) : Agrees (op.apply st) (op.apply st') := by
  cases op with
  | reserve free agent bytes => exact (h.reserveFor free agent bytes false).2
  | reserveRevocation free agent bytes => exact (h.reserveFor free agent bytes true).2
  | markReceipted agent => exact h.markReceipted agent
  | markRevocationReceipted agent => exact h.markRevocationReceipted agent
  | noteControl agent bundle => exact (h.noteControl agent bundle).2
  | writeFailed => exact h.inconsistent _

omit h in
/-- The same calls on both sides. -/
theorem run (ops : List QuotaOp) :
    ∀ {st st' : CapacityState}, Agrees st st' → Agrees (st.run ops) (st'.run ops) := by
  induction ops with
  | nil => exact fun h => h
  | cons op rest ih => exact fun h => ih (h.apply op)

end Agrees

/-! ## The scan agrees with the puts -/

namespace CapacityState

/-- The agents that are configured are tracked, and no others. -/
theorem mem_addConfigured {agents : List String} :
    ∀ {st st' : CapacityState}, st.addConfigured agents = .ok st' →
      ∀ a, a ∈ st'.agents ↔ a ∈ agents ∨ a ∈ st.agents := by
  induction agents with
  | nil =>
    intro st st' h a
    simp only [addConfigured, Except.ok.injEq] at h
    simp [h]
  | cons agent rest ih =>
    intro st st' h a
    rw [addConfigured] at h
    split at h
    · cases h
    · rw [ih h a, AList.mem_insert, List.mem_cons]
      tauto

theorem mem_prepare {limits : CapacityConfig} {agents : List String} {st : CapacityState}
    (h : prepare limits agents = .ok st) (a : String) : a ∈ st.agents ↔ a ∈ agents := by
  simp only [prepare, Result.check_ok_iff] at h
  rw [mem_addConfigured h.2 a]
  exact ⟨fun h => h.resolve_right (AList.notMem_empty a), .inl⟩

/-- An empty start accounts for nothing. -/
theorem prepare_accounts {limits : CapacityConfig} {agents : List String} {st : CapacityState}
    (h : prepare limits agents = .ok st) : Accounts st [] := by
  obtain ⟨heq, hzero, -⟩ := prepare_ok h
  have hagents : ∀ agent ∈ st.agents, st.agents.lookup agent = some default := by
    intro agent hmem
    obtain ⟨usage, husage⟩ := Option.isSome_iff_exists.1 (AList.lookup_isSome.2 hmem)
    have := hzero agent
    rw [valueAt, husage] at this
    rw [husage]
    exact congrArg some this
  refine ⟨by rw [heq]; rfl, hagents, by simp, by rw [heq]; rfl, fun a => by rw [heq]; rfl,
    by rw [heq]; rfl, fun key => by rw [heq]; rfl⟩

end CapacityState

section Restart

variable {P : Primitives} {cfg : ServerConfig} {st₀ : CapacityState} {s : Server}
  {root : List RootEntry}

/-- The server on a vault directory in which nothing is yet. -/
def Server.initial (st₀ : CapacityState) : Server := ⟨Disk.empty, none, st₀, []⟩

theorem Kept.initial (hcfg : cfg.check = true)
    (h : CapacityState.prepare cfg.capacity cfg.agents = .ok st₀) :
    Kept P cfg (.initial st₀) (.initial st₀) := by
  have hvalid : ∀ a ∈ st₀.agents, validId a := by
    intro a ha
    rw [CapacityState.mem_prepare h] at ha
    simp only [ServerConfig.check, Bool.and_eq_true, List.all_eq_true] at hcfg
    exact hcfg.1.1.1.1.2 a ha
  have hlookup : ∀ name, Disk.empty.files.lookup name = none := fun name => rfl
  have hno : ∀ name, ¬ Disk.empty.has name := fun name => by rw [Disk.has, hlookup]; simp
  have hacc := CapacityState.prepare_accounts h
  refine ⟨⟨⟨List.nodup_nil, fun name a _ hn => (hno name hn).elim, fun a ha => ?_⟩, fun a ha => ?_,
    hvalid⟩, ⟨⟨fun a ha => ?_, fun a k hn => (hno _ hn).elim, fun a k hn => (hno _ hn).elim,
    fun a => ?_⟩, hacc, ?_, ?_, ?_⟩, fun a k file hf => ?_, rfl, .refl _, fun _ => Iff.rfl⟩
  · cases ha
  · cases ha
  · cases ha
  · exact List.not_mem_nil
  · show st₀.total.logicalBytes ≤ u64Max
    rw [hacc.total]
    exact Nat.zero_le _
  · show st₀.total.objects ≤ u64Max
    rw [hacc.total]
    exact Nat.zero_le _
  · have hempty : st₀.bundleControlOwners = ∅ := by rw [(CapacityState.prepare_ok h).1]; rfl
    show st₀.bundleControlOwners.entries.length ≤ 10000
    rw [hempty]
    exact Nat.zero_le _
  · have : Disk.empty.files.lookup (.blob a k) = some file := hf
    rw [hlookup] at this
    cases this

/-- A vault of one agent with the sample's primitives. -/
def sampleConfig : ServerConfig := ⟨"key", sampleKey, ["agent"], 1024, 86400, {}⟩

/-- The same, started on an empty directory. -/
def sampleStart : CapacityState :=
  { CapacityState.blank {} with agents := (∅ : Map String ObjectUsage).insert "agent" default }

end Restart

end Argos.Vault
