import Argos.Vault.Ledger
import Argos.Vault.Sample
import Argos.Vault.Scan

/-!
# The usage report and the reservations

`usage` of `quota.rs` computes a second time what `admit` decides: whether the vault as a whole
still takes objects. `usage_reserve` compares the two in every state that the ledger can reach, from
a start over any storage. A report that the vault is blocked is never wrong; when it is not blocked,
`Refused` lists what a normal reservation can still be turned away for.

Two of the reasons are easily missed. A budget in bytes is closed as soon as it is reached, so that
an object of no bytes is turned away too; and the counters of the total, which hold the revocations
besides the normal objects, are added with a check of their own.
-/

namespace Argos.Vault

open Argos.Lib

/-- `AgentCapacityUsage`. -/
structure AgentCapacityUsage where
  usage : ObjectUsage
  normalUsage : ObjectUsage
  revocationUsage : ObjectUsage
  limits : AgentCapacityLimit
deriving DecidableEq, Repr

/-- `CapacityUsage`; of the filesystem, the reading of the available bytes. -/
structure CapacityUsage where
  limits : CapacityConfig
  total : ObjectUsage
  normalUsage : ObjectUsage
  revocationUsage : ObjectUsage
  agents : List (String × AgentCapacityUsage)
  filesystem : Option Nat
  reconstructionComplete : Bool
  storageConsistent : Bool
  newUploadsBlocked : Bool
  reasons : List String
  admissionRejections : Nat

namespace CapacityState

/-- The free-space floor of `usage`: whether no object at all could be written. -/
def usageFloorBlocked (st : CapacityState) (free : Option Nat) : Bool :=
  let extra := if st.revocationEnabled then st.limits.revocationReservedFreeBytes else 0
  (st.limits.minFreeBytes > 0 || extra > 0) && free.all fun free =>
    ((checkedAdd st.limits.minFreeBytes extra).bind fun v => checkedAdd v metadataMargin).all
      (free < ·)

/-- The global limits of `usage`. -/
def usageGlobalBlocked (st : CapacityState) : Bool :=
  let normal := subtractUsage st.total st.revocations
  normal.logicalBytes ≥ st.limits.globalMaxBytes || normal.objects ≥ st.limits.globalMaxObjects

/-- `usage`, with the reading `free` of the free space. -/
def usage (st : CapacityState) (free : Option Nat) : CapacityUsage where
  limits := st.limits
  total := st.total
  normalUsage := subtractUsage st.total st.revocations
  revocationUsage := st.revocations
  agents := st.agents.entries.map fun ⟨id, usage⟩ =>
    (id, ⟨usage, subtractUsage usage (valueAt st.agentRevocations id),
      valueAt st.agentRevocations id, st.agentLimit id⟩)
  filesystem := free
  reconstructionComplete := st.reconstructionComplete
  storageConsistent := st.storageConsistent
  newUploadsBlocked := !st.reconstructionComplete || !st.storageConsistent ||
    st.usageFloorBlocked free || st.usageGlobalBlocked
  reasons := st.reasons ++ (if st.usageGlobalBlocked then ["global_capacity_reached"] else []) ++
    if st.usageFloorBlocked free then ["filesystem_free_floor_or_unavailable"] else []
  admissionRejections := st.admissionRejections

end CapacityState

/-! ## The states that a ledger can reach -/

/-- The limits that a reservation is held against are `u64`s. -/
structure CapacityConfig.Words (c : CapacityConfig) : Prop where
  globalBytes : c.globalMaxBytes ≤ u64Max
  globalObjects : c.globalMaxObjects ≤ u64Max
  agentBytes : c.agentMaxBytes ≤ u64Max
  agentObjects : c.agentMaxObjects ≤ u64Max
  overrides : ∀ agent limit, c.agentOverrides.lookup agent = some limit →
    limit.maxBytes ≤ u64Max ∧ limit.maxObjects ≤ u64Max

namespace CapacityState

/-- A state of the ledger: some storage was scanned at the start, and calls were made since. -/
inductive Reached : CapacityState → Prop where
  | mk {limits : CapacityConfig} {agents : List String} {st₀ : CapacityState}
      (words : limits.Words) (start : prepare limits agents = .ok st₀) (P : Primitives)
      (cfg : ServerConfig) (d : Disk) (root : List RootEntry) (ops : List QuotaOp) :
      Reached ((reconstruct P cfg d st₀ root).run ops)

theorem inconsistent_limits (st : CapacityState) (code : String) :
    (st.inconsistent code).limits = st.limits := rfl

theorem addUsage_limits (st : CapacityState) (agent : String) (bytes : Nat) :
    (st.addUsage agent bytes).2.limits = st.limits := by
  obtain ⟨e, he⟩ | ⟨current, -, -, -, -, -, hok⟩ := st.addUsage_cases agent bytes
  · rw [he]
  · rw [hok]; rfl

theorem markRevocationReceipted_limits (st : CapacityState) (agent : String) :
    (st.markRevocationReceipted agent).limits = st.limits := by
  unfold markRevocationReceipted
  split <;> rfl

/-- No call changes the limits. -/
theorem apply_limits (st : CapacityState) (op : QuotaOp) : (op.apply st).limits = st.limits := by
  cases op with
  | reserve free agent bytes => exact (st.reserveFor_sameMarks free agent bytes false).1.limits
  | reserveRevocation free agent bytes =>
    exact (st.reserveFor_sameMarks free agent bytes true).1.limits
  | markReceipted agent => rfl
  | markRevocationReceipted agent => exact st.markRevocationReceipted_limits agent
  | noteControl agent bundle => exact (st.noteControl_usage agent bundle).1
  | writeFailed => rfl

theorem run_limits (ops : List QuotaOp) :
    ∀ st : CapacityState, (st.run ops).limits = st.limits := by
  induction ops with
  | nil => exact fun _ => rfl
  | cons op rest ih => exact fun st => (ih (op.apply st)).trans (st.apply_limits op)

end CapacityState

section Scan

variable (P : Primitives) (cfg : ServerConfig) (d : Disk)

/-- Counting a control object does not change the limits. -/
theorem scanVerified_limits (st : CapacityState) (agent hash : String) (bytes : Bytes) :
    (scanVerified P cfg d st agent hash bytes).2.limits = st.limits := by
  unfold scanVerified
  rcases scannedControl P cfg d agent hash bytes with e | _ | ⟨bundle, revoked⟩
  · rfl
  · rfl
  have hnote := (st.noteControl_usage agent bundle).1
  dsimp only
  rcases h : st.noteControl agent bundle with ⟨e | u, st'⟩ <;> rw [h] at hnote
  · exact hnote
  dsimp only
  split
  · rw [CapacityState.markRevocationReceipted_limits]
    exact hnote
  · exact hnote

/-- The state after a turn of the inner loop, whether it failed or not. -/
def turnState : Except CapacityState CapacityState → CapacityState
  | .ok st => st
  | .error st => st

/-- No turn of the inner loop changes the limits. -/
theorem scanObject_limits (agent : String) (st : CapacityState) (name : ObjectName) :
    (turnState (scanObject P cfg d agent st name)).limits = st.limits := by
  cases name with
  | other => rfl
  | receipt hash =>
    rw [scanObject]
    split_ifs <;> rfl
  | blob hash =>
    rw [scanObject]
    split_ifs
    · rfl
    generalize objectMetadata _ = metadata
    rcases metadata with e | bytes
    · rfl
    dsimp only
    have hadd := st.addUsage_limits agent bytes.length
    rcases h : st.addUsage agent bytes.length with ⟨e | u, st₁⟩ <;> rw [h] at hadd
    · exact hadd
    dsimp only
    have hver := scanVerified_limits P cfg d st₁ agent hash bytes
    rcases h' : scanVerified P cfg d st₁ agent hash bytes with ⟨e | u, st₂⟩ <;> rw [h'] at hver
    · exact hver.trans hadd
    · exact hver.trans hadd

/-- The state in which a loop of the scan ended, however it did. -/
def endState : Except (Halt × CapacityState) (CapacityState × Nat) → CapacityState
  | .ok (st, _) => st
  | .error (_, st) => st

theorem scanObjects_limits (agent : String) (names : List ObjectName) :
    ∀ (st : CapacityState) (n : Nat),
      (endState (scanObjects P cfg d agent names st n)).limits = st.limits := by
  induction names with
  | nil => exact fun _ _ => rfl
  | cons name rest ih =>
    intro st n
    rw [scanObjects]
    split_ifs
    · rfl
    have hturn := scanObject_limits P cfg d agent st name
    rcases h : scanObject P cfg d agent st name with st' | st' <;> rw [h] at hturn
    · exact hturn
    · exact (ih st' (n + 1)).trans hturn

theorem track_limits (st : CapacityState) (agent : String) : (st.track agent).limits = st.limits := by
  unfold CapacityState.track
  split <;> rfl

theorem scanRoot_limits (root : List RootEntry) :
    ∀ (st : CapacityState) (n : Nat),
      (endState (scanRoot P cfg d root st n)).limits = st.limits := by
  induction root with
  | nil => exact fun _ _ => rfl
  | cons entry rest ih =>
    intro st n
    cases entry with
    | lock =>
      rw [scanRoot]
      split_ifs
      · rfl
      · exact ih st _
    | temporary =>
      rw [scanRoot]
      split_ifs
      · rfl
      · exact ih _ _
    | file name =>
      rw [scanRoot]
      split_ifs
      · rfl
      · exact ih _ _
      · exact ih _ _
    | directory name entries =>
      rw [scanRoot]
      split_ifs
      · rfl
      · exact ih _ _
      · rfl
      have hobjects := scanObjects_limits P cfg d name entries (st.track name) (n + 1)
      rw [track_limits] at hobjects
      rcases h : scanObjects P cfg d name entries (st.track name) (n + 1) with
        ⟨halt, st'⟩ | ⟨st', n'⟩ <;> rw [h] at hobjects
      · exact hobjects
      · exact (ih st' n').trans hobjects

/-- The scan does not change the limits. -/
theorem reconstruct_limits (st : CapacityState) (root : List RootEntry) :
    (reconstruct P cfg d st root).limits = st.limits := by
  have h := scanRoot_limits P cfg d root st 0
  unfold reconstruct
  rcases hscan : scanRoot P cfg d root st 0 with ⟨halt | halt, st'⟩ | ⟨st', n⟩ <;> rw [hscan] at h <;>
    exact h

end Scan

namespace CapacityState

theorem addConfigured_limits (agents : List String) :
    ∀ {st st' : CapacityState}, st.addConfigured agents = .ok st' → st'.limits = st.limits := by
  induction agents with
  | nil =>
    intro st st' h
    rw [addConfigured, Except.ok.injEq] at h
    rw [h]
  | cons agent rest ih =>
    intro st st' h
    rw [addConfigured] at h
    split at h
    · cases h
    · exact (ih h).trans rfl

/-- The limits of a state that was reached are the configured ones. -/
theorem Reached.words {st : CapacityState} (h : Reached st) : st.limits.Words := by
  obtain @⟨limits, agents, st₀, words, start, P, cfg, d, root, ops⟩ := h
  have hprepare : st₀.limits = limits := by
    unfold prepare refuse at start
    split at start
    · cases start
    · exact addConfigured_limits agents start
  rw [run_limits, reconstruct_limits, hprepare]
  exact words

theorem Words.agentLimit {st : CapacityState} (h : st.limits.Words) (agent : String) :
    (st.agentLimit agent).maxBytes ≤ u64Max ∧ (st.agentLimit agent).maxObjects ≤ u64Max := by
  unfold CapacityState.agentLimit
  rcases hl : st.limits.agentOverrides.lookup agent with _ | limit
  · exact ⟨h.agentBytes, h.agentObjects⟩
  · exact h.overrides agent limit hl

/-! ## What a reservation is turned away for -/

/-- What an agent uses apart from its revocations. -/
def normalOf (st : CapacityState) (agent : String) : ObjectUsage :=
  subtractUsage (valueAt st.agents agent) (valueAt st.agentRevocations agent)

/-- What the vault uses apart from the revocations. -/
def normal (st : CapacityState) : ObjectUsage := subtractUsage st.total st.revocations

/-- The free space that a normal object of `bytes` bytes needs. -/
def floorFor (st : CapacityState) (bytes : Nat) : Nat :=
  st.limits.minFreeBytes + st.extraFree false + bytes + metadataMargin

/-- The reasons why a normal reservation of `bytes` bytes can be turned away while the report says
that the vault takes objects, each with the code of the rejection. -/
inductive Refused (st : CapacityState) (free : Option UInt64) (agent : String) (bytes : Nat) :
    String → Prop where
  /-- The agent is not tracked. -/
  | untracked (h : agent ∉ st.agents) : Refused st free agent bytes "untracked_agent"
  /-- The global limit would be exceeded by this size. -/
  | global (h : st.limits.globalMaxBytes < st.normal.logicalBytes + bytes) :
      Refused st free agent bytes "global_limit"
  /-- A limit of the agent would be exceeded, or its limit in bytes is reached already. -/
  | agent (h : (st.agentLimit agent).maxBytes < (st.normalOf agent).logicalBytes + bytes ∨
        (st.agentLimit agent).maxObjects < (st.normalOf agent).objects + 1 ∨
        (st.agentLimit agent).maxBytes ≤ (st.normalOf agent).logicalBytes) :
      Refused st free agent bytes "agent_limit"
  /-- The free-space floor plus this size is not met. -/
  | floor {reading : UInt64} (set : 0 < st.limits.minFreeBytes ∨ 0 < st.extraFree false)
      (read : free = some reading) (h : reading.toNat < st.floorFor bytes) :
      Refused st free agent bytes "filesystem_free_floor_or_unavailable"
  /-- A counter of the total or of the agent, revocations included, would not fit. -/
  | overflow (h : u64Max < st.total.logicalBytes + bytes ∨ u64Max < st.total.objects + 1 ∨
        u64Max < (valueAt st.agents agent).logicalBytes + bytes ∨
        u64Max < (valueAt st.agents agent).objects + 1) :
      Refused st free agent bytes "accounting_overflow"

/-- There is a floor whenever it turns an object away, and without a reading the report finds it
blocked as well. -/
theorem floor_set {st : CapacityState} {free : Option Nat} {bytes : Nat}
    (h : st.floorBlocked free bytes false = true) :
    (0 < st.limits.minFreeBytes ∨ 0 < st.extraFree false) ∧
      (free = none → st.usageFloorBlocked free = true) := by
  simp only [floorBlocked] at h
  split_ifs at h with hset
  refine ⟨by simpa using hset, fun hnone => ?_⟩
  simp only [extraFree, Bool.not_false, Bool.true_and] at hset
  rw [hnone, usageFloorBlocked, hset]
  rfl

/-- The floor of the report is the floor of an admission without the object. -/
theorem floorBlocked_of_usage {st : CapacityState} {free : Option Nat}
    (h : st.usageFloorBlocked free = true) (bytes : Nat) :
    st.floorBlocked free bytes false = true := by
  have hextra : st.extraFree false =
      if st.revocationEnabled then st.limits.revocationReservedFreeBytes else 0 := by
    simp [extraFree]
  simp only [usageFloorBlocked, ← hextra, Bool.and_eq_true] at h
  unfold floorBlocked
  simp only
  rw [if_pos h.1]
  obtain ⟨-, h⟩ := h
  rcases free with _ | free
  · rfl
  rw [Option.all_some] at h
  rcases h₁ : checkedAdd st.limits.minFreeBytes (st.extraFree false) with _ | floor
  · rfl
  rw [Option.bind_some]
  rcases h₂ : checkedAdd floor bytes with _ | sized
  · rfl
  rw [Option.bind_some]
  rcases h₃ : checkedAdd sized metadataMargin with _ | needed
  · rfl
  -- the object only adds to what is needed, so the report's sum fits as well
  obtain ⟨-, rfl⟩ := checkedAdd_eq_some_iff.1 h₂
  obtain ⟨hfits, rfl⟩ := checkedAdd_eq_some_iff.1 h₃
  have hreport : checkedAdd floor metadataMargin = some (floor + metadataMargin) :=
    checkedAdd_eq_some_iff.2 ⟨by omega, rfl⟩
  rw [h₁, Option.bind_some, hreport, Option.all_some] at h
  have hlt : free < floor + metadataMargin := of_decide_eq_true h
  exact decide_eq_true (by omega)

/-- What a failed comparison with limits that are `u64`s says. -/
theorem exceeds_cases {usage : ObjectUsage} {bytes maxBytes maxObjects : Nat}
    (hbytes : maxBytes ≤ u64Max) (hobjects : maxObjects ≤ u64Max)
    (h : exceeds usage bytes maxBytes maxObjects = true) :
    maxBytes < usage.logicalBytes + bytes ∨ maxObjects < usage.objects + 1 ∨
      maxBytes ≤ usage.logicalBytes := by
  simp only [exceeds, checkedAdd, Bool.or_eq_true, decide_eq_true_eq] at h
  obtain (h | h) | h := h
  · exact .inr (.inr h)
  · split_ifs at h with hfits
    · exact .inl (of_decide_eq_true h)
    · exact .inl (by omega)
  · split_ifs at h with hfits
    · exact .inr (.inl (of_decide_eq_true h))
    · exact .inr (.inl (by omega))

/-- A global limit that the report finds reached leaves room for no object. -/
theorem exceeds_of_usage {st : CapacityState} (h : st.usageGlobalBlocked = true) (bytes : Nat) :
    exceeds st.normal bytes st.limits.globalMaxBytes st.limits.globalMaxObjects = true := by
  by_contra hroom
  obtain ⟨-, hobjects⟩ := fits_of_not_exceeds (eq_false_of_ne_true hroom)
  simp only [exceeds, Bool.or_eq_true, not_or, decide_eq_true_eq] at hroom
  simp only [usageGlobalBlocked, Bool.or_eq_true, decide_eq_true_eq] at h
  obtain h | h := h
  · exact hroom.1.1 h
  · have : st.normal.objects ≥ st.limits.globalMaxObjects := h
    omega

/-- A floor that an admission does not meet, with a reading: the reading is too small, or the sum
does not fit. -/
theorem floor_of_floorBlocked {st : CapacityState} {reading : UInt64} {bytes : Nat}
    (h : st.floorBlocked (some reading.toNat) bytes false = true) :
    reading.toNat < st.floorFor bytes := by
  have hword : reading.toNat ≤ u64Max := Nat.le_sub_one_of_lt reading.toNat_lt
  unfold floorFor
  simp only [floorBlocked] at h
  split_ifs at h
  rcases h₁ : checkedAdd st.limits.minFreeBytes (st.extraFree false) with _ | floor
  · simp only [checkedAdd, ite_eq_right_iff, reduceCtorEq, imp_false] at h₁
    omega
  obtain ⟨-, rfl⟩ := checkedAdd_eq_some_iff.1 h₁
  rcases h₂ : checkedAdd (st.limits.minFreeBytes + st.extraFree false) bytes with _ | sized
  · simp only [checkedAdd, ite_eq_right_iff, reduceCtorEq, imp_false] at h₂
    omega
  obtain ⟨-, rfl⟩ := checkedAdd_eq_some_iff.1 h₂
  rcases h₃ : checkedAdd (st.limits.minFreeBytes + st.extraFree false + bytes) metadataMargin with
    _ | needed
  · simp only [checkedAdd, ite_eq_right_iff, reduceCtorEq, imp_false] at h₃
    omega
  obtain ⟨-, rfl⟩ := checkedAdd_eq_some_iff.1 h₃
  rw [h₁, Option.bind_some, h₂, Option.bind_some, h₃] at h
  exact of_decide_eq_true h

/-- The answers of a normal reservation, each with what `admit` has compared on the way to it. -/
inductive Verdict (st : CapacityState) (free : Option Nat) (agent : String) (bytes : Nat) :
    Result Unit → Prop where
  | incomplete (h : (!st.storageConsistent || !st.reconstructionComplete) = true) :
      Verdict st free agent bytes (.error (.capacity "storage_accounting_incomplete"))
  | untracked (h : agent ∉ st.agents) :
      Verdict st free agent bytes (.error (.capacity "untracked_agent"))
  | global
      (h : exceeds st.normal bytes st.limits.globalMaxBytes st.limits.globalMaxObjects = true) :
      Verdict st free agent bytes (.error (.capacity "global_limit"))
  | agent (h : exceeds (st.normalOf agent) bytes (st.agentLimit agent).maxBytes
        (st.agentLimit agent).maxObjects = true) :
      Verdict st free agent bytes (.error (.capacity "agent_limit"))
  | floor (h : st.floorBlocked free bytes false = true) :
      Verdict st free agent bytes (.error (.capacity "filesystem_free_floor_or_unavailable"))
  | overflow (h : u64Max < st.total.logicalBytes + bytes ∨ u64Max < st.total.objects + 1 ∨
        u64Max < (valueAt st.agents agent).logicalBytes + bytes ∨
        u64Max < (valueAt st.agents agent).objects + 1) :
      Verdict st free agent bytes (.error (.capacity "accounting_overflow"))
  | admitted (flags : (!st.storageConsistent || !st.reconstructionComplete) = false)
      (global : exceeds st.normal bytes st.limits.globalMaxBytes st.limits.globalMaxObjects = false)
      (floor : st.floorBlocked free bytes false = false) :
      Verdict st free agent bytes (.ok ())

/-- `add_usage` fails for a tracked agent only when a sum does not fit. -/
theorem addUsage_error {st st' : CapacityState} {agent : String} {bytes : Nat} {e : Error}
    (htracked : agent ∈ st.agents) (h : st.addUsage agent bytes = (.error e, st')) :
    u64Max < st.total.logicalBytes + bytes ∨ u64Max < st.total.objects + 1 ∨
      u64Max < (valueAt st.agents agent).logicalBytes + bytes ∨
      u64Max < (valueAt st.agents agent).objects + 1 := by
  obtain ⟨current, hl⟩ := Option.isSome_iff_exists.1 (AList.lookup_isSome.2 htracked)
  have hvalue : valueAt st.agents agent = current := by rw [valueAt, hl]; rfl
  by_contra hfits
  rw [hvalue] at hfits
  push Not at hfits
  obtain ⟨h₁, h₂, h₃, h₄⟩ := hfits
  simp only [addUsage, hl, checkedAdd, h₁, h₂, h₃, h₄, if_true, Prod.mk.injEq, reduceCtorEq,
    false_and] at h

/-- What a normal reservation answers. -/
theorem reserve_verdict (st : CapacityState) (free : Option Nat) (agent : String) (bytes : Nat) :
    Verdict st free agent bytes (st.reserve free agent bytes).1 := by
  have hfst : (st.reserve free agent bytes).1 = (st.admits free agent bytes false).1 := by
    simp only [reserve, reserveFor, Bool.false_and]
    rcases st.admits free agent bytes false with ⟨_ | _, _⟩ <;> rfl
  rw [hfst]
  unfold admits
  by_cases hflags : (!st.storageConsistent || !st.reconstructionComplete) = true
  · rw [if_pos hflags]; exact .incomplete hflags
  rw [if_neg hflags]
  rcases hl : st.agents.lookup agent with _ | current
  · exact .untracked (AList.lookup_eq_none.1 hl)
  have htracked : agent ∈ st.agents := by rw [← AList.lookup_isSome, hl]; rfl
  have hbudget : (st.budget agent current false).current = st.normalOf agent := by
    rw [normalOf, valueAt, hl]; rfl
  dsimp only
  rw [hbudget]
  by_cases hglobal :
      exceeds st.normal bytes st.limits.globalMaxBytes st.limits.globalMaxObjects = true
  · rw [if_pos (by exact hglobal)]; exact .global hglobal
  rw [if_neg (by exact hglobal)]
  by_cases hagent : exceeds (st.normalOf agent) bytes (st.agentLimit agent).maxBytes
      (st.agentLimit agent).maxObjects = true
  · rw [if_pos (by exact hagent)]; exact .agent hagent
  rw [if_neg (by exact hagent)]
  by_cases hfloor : st.floorBlocked free bytes false = true
  · rw [if_pos hfloor]; exact .floor hfloor
  rw [if_neg hfloor]
  rcases hadd : st.addUsage agent bytes with ⟨e | u, st'⟩
  · exact .overflow (addUsage_error htracked hadd)
  · exact .admitted (eq_false_of_ne_true hflags) (eq_false_of_ne_true hglobal)
      (eq_false_of_ne_true hfloor)

/-- In every state that a ledger reaches and for every reading: while the report says that the vault
is blocked, every normal reservation is turned away, whatever its agent and size; and while it says
that the vault is open, a normal reservation is turned away for one of the reasons of `Refused`
only. -/
theorem usage_reserve {st : CapacityState} (hst : Reached st) (free : Option UInt64)
    (agent : String) (bytes : Nat) :
    ((st.usage (free.map UInt64.toNat)).newUploadsBlocked = true →
      ∃ code, (st.reserve (free.map UInt64.toNat) agent bytes).1 = .error (.capacity code)) ∧
    ((st.usage (free.map UInt64.toNat)).newUploadsBlocked = false →
      ∀ e, (st.reserve (free.map UInt64.toNat) agent bytes).1 = .error e →
        ∃ code, e = .capacity code ∧ Refused st free agent bytes code) := by
  have hwords := hst.words
  have hverdict := st.reserve_verdict (free.map UInt64.toNat) agent bytes
  constructor
  · intro hblocked
    generalize (st.reserve (free.map UInt64.toNat) agent bytes).1 = answer at hverdict ⊢
    cases hverdict with
    | admitted flags global floor =>
      -- an admission has compared everything that the report names
      exfalso
      rw [Bool.or_eq_false_iff] at flags
      simp only [usage, flags.1, flags.2, Bool.false_or, Bool.or_eq_true] at hblocked
      obtain hfloor | hglobal := hblocked
      · rw [floorBlocked_of_usage hfloor bytes] at floor
        cases floor
      · rw [exceeds_of_usage hglobal bytes] at global
        cases global
    | _ => exact ⟨_, rfl⟩
  · intro hopen e herror
    rw [herror] at hverdict
    simp only [usage, Bool.or_eq_false_iff] at hopen
    obtain ⟨⟨⟨hcomplete, hconsistent⟩, hfloor⟩, hglobal⟩ := hopen
    cases hverdict with
    | incomplete h =>
      rw [hcomplete, hconsistent] at h
      cases h
    | untracked h => exact ⟨_, rfl, .untracked h⟩
    | global h =>
      refine ⟨_, rfl, .global ?_⟩
      simp only [usageGlobalBlocked, Bool.or_eq_false_iff, decide_eq_false_iff_not] at hglobal
      have hbytes : ¬ st.limits.globalMaxBytes ≤ st.normal.logicalBytes := hglobal.1
      have hobjects : ¬ st.limits.globalMaxObjects ≤ st.normal.objects := hglobal.2
      obtain h | h | h := exceeds_cases hwords.globalBytes hwords.globalObjects h <;> omega
    | agent h =>
      obtain ⟨hbytes, hobjects⟩ := Words.agentLimit hwords agent
      exact ⟨_, rfl, .agent (exceeds_cases hbytes hobjects h)⟩
    | floor h =>
      obtain ⟨hset, hnone⟩ := floor_set h
      rcases free with _ | reading
      · rw [hnone rfl] at hfloor
        cases hfloor
      · exact ⟨_, rfl, .floor hset rfl (floor_of_floorBlocked h)⟩
    | overflow h => exact ⟨_, rfl, .overflow h⟩

/-- A vault without a floor, whose only limit is one of five bytes for each agent. -/
def fiveBytes : CapacityConfig :=
  { globalMaxBytes := u64Max, agentMaxBytes := 5, minFreeBytes := 0
    revocationReservedFreeBytes := 0 }

/-- A vault without a floor and without a limit in bytes. -/
def unlimited : CapacityConfig :=
  { globalMaxBytes := u64Max, agentMaxBytes := u64Max, minFreeBytes := 0
    revocationMaxBytes := u64Max, revocationAgentMaxBytes := u64Max
    revocationReservedFreeBytes := 0 }

theorem fiveBytes_words : fiveBytes.Words :=
  ⟨by decide, by decide, by decide, by decide, fun _ _ h => by cases h⟩

theorem unlimited_words : unlimited.Words :=
  ⟨by decide, by decide, by decide, by decide, fun _ _ h => by cases h⟩

/-- The state of a vault that started empty with one agent, after some calls. -/
def played (limits : CapacityConfig) (ops : List QuotaOp) : CapacityState :=
  ({ blank limits with agents := (∅ : Map String ObjectUsage).insert "agent" default }).run ops

theorem reached_played {limits : CapacityConfig} (hwords : limits.Words)
    (hstart : prepare limits ["agent"] =
      .ok { blank limits with agents := (∅ : Map String ObjectUsage).insert "agent" default })
    (ops : List QuotaOp) : Reached (played limits ops) :=
  .mk hwords hstart sample ⟨"key", sampleKey, ["agent"], 1024, 86400, limits⟩ .empty [] ops

/-- With the five bytes used up nothing is blocked for the vault, and the agent's next object of one
byte is turned away for the agent's limit. -/
theorem usage_reserve_five :
    ((played fiveBytes [.reserve none "agent" 5]).usage none).newUploadsBlocked = false ∧
      ∃ code, (((played fiveBytes [.reserve none "agent" 5]).reserve none "agent" 1).1 =
        .error (.capacity code)) ∧
        Refused (played fiveBytes [.reserve none "agent" 5]) none "agent" 1 code := by
  have hopen :
      ((played fiveBytes [.reserve none "agent" 5]).usage none).newUploadsBlocked = false := by
    decide +kernel
  have herror : ((played fiveBytes [.reserve none "agent" 5]).reserve none "agent" 1).1 =
      .error (.capacity "agent_limit") := by decide +kernel
  obtain ⟨code, hcode, hrefused⟩ :=
    (usage_reserve (reached_played fiveBytes_words rfl [.reserve none "agent" 5]) none "agent" 1).2
      hopen _ herror
  exact ⟨hopen, code, by rw [herror, hcode], hrefused⟩

/-- The agent is not tracked, a limit would be exceeded by the object, or the floor would be. -/
def Exceeded (st : CapacityState) (free : Option UInt64) (agent : String) (bytes : Nat) : Prop :=
  agent ∉ st.agents ∨
    (st.agentLimit agent).maxBytes < (st.normalOf agent).logicalBytes + bytes ∨
    (st.agentLimit agent).maxObjects < (st.normalOf agent).objects + 1 ∨
    st.limits.globalMaxBytes < st.normal.logicalBytes + bytes ∨
    st.limits.globalMaxObjects < st.normal.objects + 1 ∨
    ((0 < st.limits.minFreeBytes ∨ 0 < st.extraFree false) ∧
      ∀ reading ∈ free, reading.toNat < st.floorFor bytes)

/-- Reservations are turned away for other reasons, in a vault that the report calls open and with a
reading that leaves room: an object of no bytes by a limit that is reached and would not be exceeded,
and an object of one byte by the counter of the total, which revocations have filled. -/
theorem reserve_not_exceeded :
    (Reached (played fiveBytes [.reserve none "agent" 5]) ∧
      ((played fiveBytes [.reserve none "agent" 5]).usage (some u64Max)).newUploadsBlocked = false ∧
      ((played fiveBytes [.reserve none "agent" 5]).reserve (some u64Max) "agent" 0).1 =
        .error (.capacity "agent_limit") ∧
      ¬ Exceeded (played fiveBytes [.reserve none "agent" 5]) (some (.ofNat u64Max)) "agent" 0) ∧
    (Reached (played unlimited [.reserveRevocation none "agent" u64Max]) ∧
      ((played unlimited [.reserveRevocation none "agent" u64Max]).usage
        (some u64Max)).newUploadsBlocked = false ∧
      ((played unlimited [.reserveRevocation none "agent" u64Max]).reserve
        (some u64Max) "agent" 1).1 = .error (.capacity "accounting_overflow") ∧
      ¬ Exceeded (played unlimited [.reserveRevocation none "agent" u64Max])
        (some (.ofNat u64Max)) "agent" 1) := by
  refine ⟨⟨reached_played fiveBytes_words rfl _, by decide +kernel, by decide +kernel, ?_⟩,
    reached_played unlimited_words rfl _, by decide +kernel, by decide +kernel, ?_⟩
  · unfold Exceeded
    decide +kernel
  · unfold Exceeded
    decide +kernel

end CapacityState

end Argos.Vault
