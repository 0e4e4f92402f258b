import Argos.Vault.Quota
import Mathlib.Data.List.Induction

/-!
# The ledger over whole runs

`QuotaOp` is one call of the capacity interface, and `run` a sequence of them. `Ledger` is what every
such sequence keeps: the total is the sum over the agents, the revocations are a part of it, and what
is left is within the limits. `step_ledger` shows it for one call, `run_ledger` for any sequence.

The counters of receipts are not compared with any limit, and the interface leaves it to its caller
to mark an object before it marks it as a revocation. `Marked` says what they hold after a sequence:
how often each was marked.
-/

namespace Argos.Vault

open Argos.Lib

/-- One call of the capacity interface; a reservation carries the reading of the free space. -/
inductive QuotaOp where
  | reserve (free : Option Nat) (agent : String) (bytes : Nat)
  | reserveRevocation (free : Option Nat) (agent : String) (bytes : Nat)
  | markReceipted (agent : String)
  | markRevocationReceipted (agent : String)
  | noteControl (agent bundle : String)
  | writeFailed
deriving DecidableEq, Repr

/-- The state after a call. -/
def QuotaOp.apply (st : CapacityState) : QuotaOp → CapacityState
  | .reserve free agent bytes => (st.reserve free agent bytes).2
  | .reserveRevocation free agent bytes => (st.reserveRevocation free agent bytes).2
  | .markReceipted agent => st.markReceipted agent
  | .markRevocationReceipted agent => st.markRevocationReceipted agent
  | .noteControl agent bundle => (st.noteControl agent bundle).2
  | .writeFailed => st.writeFailed

/-- The call was a reservation, and it was turned away. -/
def QuotaOp.Rejected (st : CapacityState) : QuotaOp → Prop
  | .reserve free agent bytes => ∃ e, (st.reserve free agent bytes).1 = .error e
  | .reserveRevocation free agent bytes => ∃ e, (st.reserveRevocation free agent bytes).1 = .error e
  | _ => False

namespace CapacityState

/-- The state after a sequence of calls. -/
def run (st : CapacityState) (ops : List QuotaOp) : CapacityState := ops.foldl QuotaOp.apply st

/-- A usage that is part of another, in bytes and objects. -/
def Within (part whole : ObjectUsage) : Prop :=
  part.logicalBytes ≤ whole.logicalBytes ∧ part.objects ≤ whole.objects

/-- The bytes and objects of a usage are the sums over a map of usages. -/
def SumsTo (usages : Map String ObjectUsage) (total : ObjectUsage) : Prop :=
  total.logicalBytes = sumOver (·.logicalBytes) usages ∧ total.objects = sumOver (·.objects) usages

/-- The ledger is in step with itself and within its limits. -/
structure Ledger (st : CapacityState) : Prop where
  /-- The total is the sum over the agents. -/
  total : SumsTo st.agents st.total
  /-- The revocations are the sum over the agents' revocations. -/
  revocations : SumsTo st.agentRevocations st.revocations
  /-- The revocations are part of the total. -/
  within : Within st.revocations st.total
  /-- An agent's revocations are part of its usage. -/
  agentWithin : ∀ agent, Within (valueAt st.agentRevocations agent) (valueAt st.agents agent)
  /-- The rest of the total is within the global limits. -/
  normal : Within (subtractUsage st.total st.revocations)
    ⟨st.limits.globalMaxBytes, st.limits.globalMaxObjects, 0⟩
  /-- The rest of an agent's usage is within the agent's limits. -/
  agentNormal : ∀ agent,
    Within (subtractUsage (valueAt st.agents agent) (valueAt st.agentRevocations agent))
      ⟨(st.agentLimit agent).maxBytes, (st.agentLimit agent).maxObjects, 0⟩
  /-- The revocations are within their own limits. -/
  revoked : Within st.revocations ⟨st.limits.revocationMaxBytes, st.limits.revocationMaxObjects, 0⟩
  /-- An agent's revocations are within their own limits. -/
  agentRevoked : ∀ agent, Within (valueAt st.agentRevocations agent)
    ⟨st.limits.revocationAgentMaxBytes, st.limits.revocationAgentMaxObjects, 0⟩
  /-- The total is a pair of `u64`s. -/
  fits : Within st.total ⟨u64Max, u64Max, 0⟩

/-! ## The empty start -/

/-- Configuring agents adds agents that use nothing, and touches nothing else. -/
theorem addConfigured_ok {agents : List String} :
    ∀ {st st' : CapacityState}, st.addConfigured agents = .ok st' →
      (∀ agent, valueAt st.agents agent = default) →
        st' = { st with agents := st'.agents } ∧ (∀ agent, valueAt st'.agents agent = default) ∧
          ∀ f : ObjectUsage → Nat, f default = 0 → sumOver f st.agents = 0 →
            sumOver f st'.agents = 0 := by
  induction agents with
  | nil =>
    intro st st' h hzero
    simp only [addConfigured, Except.ok.injEq] at h
    subst h
    exact ⟨rfl, hzero, fun f _ hs => hs⟩
  | cons agent rest ih =>
    intro st st' h hzero
    rw [addConfigured] at h
    split at h
    · cases h
    · have hbump : st.agents.insert agent default = bump st.agents agent (fun _ => default) := rfl
      obtain ⟨heq, hz, hsum⟩ := ih h (by
        intro a
        show valueAt (bump st.agents agent (fun _ => default)) a = default
        rw [valueAt_bump, hzero]
        split <;> rfl)
      refine ⟨heq, hz, fun f hf hs => hsum f hf ?_⟩
      have hstep := sumOver_bump f hf st.agents agent (fun _ => default)
      rw [hzero, hf] at hstep
      show sumOver f (st.agents.insert agent default) = 0
      rw [hbump]
      omega

/-- What `CapacityState::open` starts from, before the scan: agents that use nothing. -/
theorem prepare_ok {limits : CapacityConfig} {agents : List String} {st : CapacityState}
    (h : prepare limits agents = .ok st) :
    st = { blank limits with agents := st.agents } ∧
      (∀ agent, valueAt st.agents agent = default) ∧
      ∀ f : ObjectUsage → Nat, f default = 0 → sumOver f st.agents = 0 := by
  simp only [prepare, Result.check_ok_iff] at h
  obtain ⟨heq, hz, hsum⟩ := addConfigured_ok h.2 (fun _ => rfl)
  exact ⟨heq, hz, fun f hf => hsum f hf rfl⟩

/-- The empty start is in step. -/
theorem prepare_ledger {limits : CapacityConfig} {agents : List String} {st : CapacityState}
    (h : prepare limits agents = .ok st) : Ledger st := by
  obtain ⟨heq, hz, hsum⟩ := prepare_ok h
  have htotal : st.total = default := by rw [heq]; rfl
  have hrev : st.revocations = default := by rw [heq]; rfl
  have hagents : st.agentRevocations = ∅ := by rw [heq]; rfl
  have hvalue : ∀ agent, valueAt st.agentRevocations agent = default := by
    intro agent; rw [hagents]; rfl
  have hzero : ∀ whole : ObjectUsage, Within default whole := fun _ => ⟨Nat.zero_le _, Nat.zero_le _⟩
  refine ⟨?_, ?_, ?_, ?_, ?_, ?_, ?_, ?_, ?_⟩
  · rw [htotal]; exact ⟨(hsum _ rfl).symm, (hsum _ rfl).symm⟩
  · rw [hrev, hagents]; exact ⟨rfl, rfl⟩
  · rw [hrev]; exact hzero _
  · intro agent; rw [hvalue]; exact hzero _
  · rw [htotal, hrev]; exact hzero _
  · intro agent; rw [hz, hvalue]; exact hzero _
  · rw [hrev]; exact hzero _
  · intro agent; rw [hvalue]; exact hzero _
  · rw [htotal]; exact hzero _

/-! ## One call -/

/-- An unchecked addition that stays within a `u64` is exact. -/
theorem charge_eq_grown {usage : ObjectUsage} {bytes : Nat}
    (hb : usage.logicalBytes + bytes ≤ u64Max) (ho : usage.objects + 1 ≤ u64Max) :
    charge bytes usage = grown bytes usage := by
  have hlt : u64Max < 2^64 := by decide
  have h1 : (usage.logicalBytes + bytes) % 2^64 = usage.logicalBytes + bytes :=
    Nat.mod_eq_of_lt (by omega)
  have h2 : (usage.objects + 1) % 2^64 = usage.objects + 1 := Nat.mod_eq_of_lt (by omega)
  simp only [charge, grown, wrappingAdd, h1, h2]

/-- One more object at one agent keeps a total and the sum over the agents in step. -/
theorem SumsTo.grow {usages : Map String ObjectUsage} {total : ObjectUsage} (h : SumsTo usages total)
    (agent : String) (bytes : Nat) : SumsTo (bump usages agent (grown bytes)) (grown bytes total) := by
  have hb := sumOver_bump (·.logicalBytes) rfl usages agent (grown bytes)
  have ho := sumOver_bump (·.objects) rfl usages agent (grown bytes)
  obtain ⟨htb, hto⟩ := h
  simp only [grown] at hb ho
  constructor
  · simp only [grown]; omega
  · simp only [grown]; omega

/-- A change of the receipts alone keeps a total and the sum over the agents in step. -/
theorem SumsTo.of_receipts {usages : Map String ObjectUsage} {total total' : ObjectUsage}
    (h : SumsTo usages total) (agent : String) (g : ObjectUsage → ObjectUsage)
    (hb : total'.logicalBytes = total.logicalBytes) (ho : total'.objects = total.objects)
    (hg : ∀ u, (g u).logicalBytes = u.logicalBytes ∧ (g u).objects = u.objects) :
    SumsTo (bump usages agent g) total' := by
  have h1 := sumOver_bump (·.logicalBytes) rfl usages agent g
  have h2 := sumOver_bump (·.objects) rfl usages agent g
  simp only [(hg _).1, (hg _).2] at h1 h2
  obtain ⟨htb, hto⟩ := h
  constructor
  · omega
  · omega

theorem Within.grow_both {part whole : ObjectUsage} (h : Within part whole) (bytes : Nat) :
    Within (grown bytes part) (grown bytes whole) :=
  ⟨Nat.add_le_add_right h.1 _, Nat.add_le_add_right h.2 _⟩

theorem Within.grow {part whole : ObjectUsage} (h : Within part whole) (bytes : Nat) :
    Within part (grown bytes whole) :=
  ⟨Nat.le_add_right_of_le h.1, Nat.le_add_right_of_le h.2⟩

/-- The bytes and objects of an agent are part of the total. -/
theorem Ledger.agent_within_total {st : CapacityState} (h : Ledger st) (agent : String) :
    Within (valueAt st.agents agent) st.total := by
  have hb := weight_valueAt_le (·.logicalBytes) rfl st.agents agent
  have ho := weight_valueAt_le (·.objects) rfl st.agents agent
  obtain ⟨htb, hto⟩ := h.total
  exact ⟨by omega, by omega⟩

/-- The unchecked additions of an admitted revocation are exact. -/
theorem Ledger.charge_exact {st : CapacityState} (h : Ledger st) {free : Option Nat}
    {agent : String} {bytes : Nat} {revocation : Bool} {current : ObjectUsage}
    (hadm : Admitted st free agent bytes revocation current) :
    charge bytes st.revocations = grown bytes st.revocations ∧
      charge bytes (valueAt st.agentRevocations agent) =
        grown bytes (valueAt st.agentRevocations agent) := by
  obtain ⟨hwb, hwo⟩ := h.within
  obtain ⟨hab, hao⟩ := h.agentWithin agent
  obtain ⟨htb, hto⟩ := h.agent_within_total agent
  have hb := hadm.totalBytes
  have ho := hadm.totalObjects
  exact ⟨charge_eq_grown (by omega) (by omega), charge_eq_grown (by omega) (by omega)⟩

/-- An admitted object of the normal budget keeps the ledger in step. -/
theorem Ledger.charged_normal {st : CapacityState} (h : Ledger st) {free : Option Nat}
    {agent : String} {bytes : Nat} {current : ObjectUsage}
    (hadm : Admitted st free agent bytes false current) : Ledger (st.charged agent bytes false) := by
  have hcur : valueAt st.agents agent = current := by simp [valueAt, hadm.tracked]
  have hgb := hadm.globalBytes
  have hgo := hadm.globalObjects
  have hab := hadm.agentBytes
  have hao := hadm.agentObjects
  simp only [budget, Bool.false_eq_true, if_false, subtractUsage] at hgb hgo hab hao
  obtain ⟨hwb, hwo⟩ := h.within
  refine ⟨h.total.grow agent bytes, h.revocations, h.within.grow bytes, ?_, ?_, ?_, h.revoked,
    h.agentRevoked, ⟨hadm.totalBytes, hadm.totalObjects⟩⟩
  · intro a
    show Within (valueAt st.agentRevocations a) (valueAt (bump st.agents agent (grown bytes)) a)
    rw [valueAt_bump]
    split
    · exact (h.agentWithin a).grow bytes
    · exact h.agentWithin a
  · constructor
    · show st.total.logicalBytes + bytes - st.revocations.logicalBytes ≤ st.limits.globalMaxBytes
      omega
    · show st.total.objects + 1 - st.revocations.objects ≤ st.limits.globalMaxObjects
      omega
  · intro a
    show Within (subtractUsage (valueAt (bump st.agents agent (grown bytes)) a)
      (valueAt st.agentRevocations a)) ⟨(st.agentLimit a).maxBytes, (st.agentLimit a).maxObjects, 0⟩
    rw [valueAt_bump]
    split
    · next heq =>
      subst heq
      obtain ⟨hrb, hro⟩ := h.agentWithin a
      rw [hcur] at hrb hro ⊢
      constructor
      · show current.logicalBytes + bytes - (valueAt st.agentRevocations a).logicalBytes ≤ _
        dsimp only
        omega
      · show current.objects + 1 - (valueAt st.agentRevocations a).objects ≤ _
        dsimp only
        omega
    · exact h.agentNormal a

/-- An admitted object of the budget for revocations keeps the ledger in step. -/
theorem Ledger.charged_revocation {st : CapacityState} (h : Ledger st) {free : Option Nat}
    {agent : String} {bytes : Nat} {current : ObjectUsage}
    (hadm : Admitted st free agent bytes true current) : Ledger (st.charged agent bytes true) := by
  have hgb := hadm.globalBytes
  have hgo := hadm.globalObjects
  have hab := hadm.agentBytes
  have hao := hadm.agentObjects
  simp only [budget, if_true] at hgb hgo hab hao
  obtain ⟨hexact, hexact'⟩ := h.charge_exact hadm
  have hbump : bump st.agentRevocations agent (charge bytes) =
      bump st.agentRevocations agent (grown bytes) := by
    unfold bump
    rw [hexact']
  have hst : st.charged agent bytes true = { st with
      total := grown bytes st.total
      agents := bump st.agents agent (grown bytes)
      revocations := grown bytes st.revocations
      agentRevocations := bump st.agentRevocations agent (grown bytes) } := by
    simp only [charged, addRevocation, if_true, hexact, hbump]
  rw [hst]
  refine ⟨h.total.grow agent bytes, h.revocations.grow agent bytes, h.within.grow_both bytes,
    ?_, ?_, ?_, ⟨hgb, hgo⟩, ?_, ⟨hadm.totalBytes, hadm.totalObjects⟩⟩
  · intro a
    dsimp only
    rw [valueAt_bump, valueAt_bump]
    split
    · exact (h.agentWithin a).grow_both bytes
    · exact h.agentWithin a
  · obtain ⟨hb, ho⟩ := h.normal
    simp only [subtractUsage] at hb ho
    constructor
    · simp only [subtractUsage, grown]; omega
    · simp only [subtractUsage, grown]; omega
  · intro a
    dsimp only
    rw [valueAt_bump, valueAt_bump]
    obtain ⟨hb, ho⟩ := h.agentNormal a
    simp only [subtractUsage] at hb ho
    split
    · constructor
      · simp only [subtractUsage, grown, agentLimit] at hb ⊢; omega
      · simp only [subtractUsage, grown, agentLimit] at ho ⊢; omega
    · exact ⟨hb, ho⟩
  · intro a
    dsimp only
    rw [valueAt_bump]
    split
    · next heq => subst heq; exact ⟨hab, hao⟩
    · exact h.agentRevoked a

/-- Two usages of the same bytes and objects. -/
def SameSize (u v : ObjectUsage) : Prop := u.logicalBytes = v.logicalBytes ∧ u.objects = v.objects

theorem SameSize.within {u v u' v' : ObjectUsage} (hu : SameSize u' u) (hv : SameSize v' v)
    (h : Within u v) : Within u' v' := by
  unfold Within at *
  rw [hu.1, hu.2, hv.1, hv.2]
  exact h

theorem SameSize.subtract {u v u' v' : ObjectUsage} (hu : SameSize u' u) (hv : SameSize v' v) :
    SameSize (subtractUsage u' v') (subtractUsage u v) := by
  unfold SameSize subtractUsage
  rw [hu.1, hu.2, hv.1, hv.2]
  exact ⟨rfl, rfl⟩

/-- A change that leaves every size as it is keeps the ledger in step. -/
theorem Ledger.of_sameSize {st st' : CapacityState} (h : Ledger st)
    (hlimits : st'.limits = st.limits) (htotal : SumsTo st'.agents st'.total)
    (hrevocations : SumsTo st'.agentRevocations st'.revocations)
    (ht : SameSize st'.total st.total) (hr : SameSize st'.revocations st.revocations)
    (ha : ∀ agent, SameSize (valueAt st'.agents agent) (valueAt st.agents agent))
    (har : ∀ agent, SameSize (valueAt st'.agentRevocations agent)
      (valueAt st.agentRevocations agent)) : Ledger st' := by
  have hself : ∀ u, SameSize u u := fun _ => ⟨rfl, rfl⟩
  have hlimit : ∀ agent, st'.agentLimit agent = st.agentLimit agent := by
    intro agent; simp only [agentLimit, hlimits]
  refine ⟨htotal, hrevocations, hr.within ht h.within, fun a => (har a).within (ha a) (h.agentWithin a),
    ?_, fun a => ?_, ?_, fun a => ?_, ht.within (hself _) h.fits⟩
  · rw [hlimits]; exact (ht.subtract hr).within (hself _) h.normal
  · rw [hlimit]; exact ((ha a).subtract (har a)).within (hself _) (h.agentNormal a)
  · rw [hlimits]; exact hr.within (hself _) h.revoked
  · rw [hlimits]; exact (har a).within (hself _) (h.agentRevoked a)

/-- Receipting one agent's usage changes no size. -/
theorem sameSize_bump (usages : Map String ObjectUsage) (agent : String)
    (g : ObjectUsage → ObjectUsage) (hg : ∀ u, SameSize (g u) u) (a : String) :
    SameSize (valueAt (bump usages agent g) a) (valueAt usages a) := by
  rw [valueAt_bump]
  split
  · exact hg _
  · exact ⟨rfl, rfl⟩

/-- `mark_receipted` at a tracked agent. -/
theorem markReceipted_eq (st : CapacityState) (agent : String) :
    st.markReceipted agent = { st with
      total := { st.total with receiptedObjects := saturatingAdd st.total.receiptedObjects 1 }
      agents := if agent ∈ st.agents then bump st.agents agent
          (fun u => { u with receiptedObjects := saturatingAdd u.receiptedObjects 1 })
        else st.agents } := by
  unfold markReceipted
  rcases h : st.agents.lookup agent with _ | usage
  · rw [if_neg (AList.lookup_eq_none.1 h)]
  · have hmem : agent ∈ st.agents := by rw [← AList.lookup_isSome, h]; rfl
    rw [if_pos hmem]
    simp only [bump, valueAt, h, Option.getD_some]

/-- `mark_receipted` keeps the ledger in step. -/
theorem Ledger.markReceipted {st : CapacityState} (h : Ledger st) (agent : String) :
    Ledger (st.markReceipted agent) := by
  rw [markReceipted_eq]
  refine h.of_sameSize rfl ?_ h.revocations ⟨rfl, rfl⟩ ⟨rfl, rfl⟩ (fun a => ?_)
    (fun _ => ⟨rfl, rfl⟩)
  · dsimp only
    split
    · exact h.total.of_receipts agent _ rfl rfl (fun _ => ⟨rfl, rfl⟩)
    · exact ⟨h.total.1, h.total.2⟩
  · dsimp only
    split
    · refine sameSize_bump _ _ _ ?_ a
      exact fun _ => ⟨rfl, rfl⟩
    · exact ⟨rfl, rfl⟩

/-- `mark_revocation_receipted` keeps the ledger in step. -/
theorem Ledger.markRevocationReceipted {st : CapacityState} (h : Ledger st) (agent : String) :
    Ledger (st.markRevocationReceipted agent) := by
  unfold CapacityState.markRevocationReceipted
  split
  · refine h.of_sameSize rfl h.total ?_ ⟨rfl, rfl⟩ ⟨rfl, rfl⟩ (fun _ => ⟨rfl, rfl⟩) (fun a => ?_)
    · exact h.revocations.of_receipts agent _ rfl rfl (fun _ => ⟨rfl, rfl⟩)
    · refine sameSize_bump _ _ _ ?_ a
      exact fun _ => ⟨rfl, rfl⟩
  · exact h

/-- A reservation of either kind keeps the ledger in step. -/
theorem Ledger.reserveFor {st : CapacityState} (h : Ledger st) (free : Option Nat) (agent : String)
    (bytes : Nat) (revocation : Bool) : Ledger (st.reserveFor free agent bytes revocation).2 := by
  obtain ⟨e, he⟩ | ⟨current, hadm, hok⟩ := st.reserveFor_cases free agent bytes revocation
  · rw [he]
    exact h.of_sameSize rfl h.total h.revocations ⟨rfl, rfl⟩ ⟨rfl, rfl⟩ (fun _ => ⟨rfl, rfl⟩)
      (fun _ => ⟨rfl, rfl⟩)
  · rw [hok]
    generalize (revocation && st.revocationEnabled) = budgeted at hadm
    cases budgeted with
    | false => exact h.charged_normal hadm
    | true => exact h.charged_revocation hadm

/-- `note_control` touches the owners and the flags only. -/
theorem noteControl_usage (st : CapacityState) (agent bundle : String) :
    (st.noteControl agent bundle).2.limits = st.limits ∧
      (st.noteControl agent bundle).2.total = st.total ∧
      (st.noteControl agent bundle).2.agents = st.agents ∧
      (st.noteControl agent bundle).2.revocations = st.revocations ∧
      (st.noteControl agent bundle).2.agentRevocations = st.agentRevocations := by
  obtain ⟨-, e, he⟩ | ⟨-, hok⟩ := st.noteControl_cases agent bundle
  · rw [he]; exact ⟨rfl, rfl, rfl, rfl, rfl⟩
  · rw [hok]; exact ⟨rfl, rfl, rfl, rfl, rfl⟩

/-- Every call keeps the ledger in step. -/
theorem step_ledger {st : CapacityState} (h : Ledger st) (op : QuotaOp) : Ledger (op.apply st) := by
  cases op with
  | reserve free agent bytes => exact h.reserveFor free agent bytes false
  | reserveRevocation free agent bytes => exact h.reserveFor free agent bytes true
  | markReceipted agent => exact h.markReceipted agent
  | markRevocationReceipted agent => exact h.markRevocationReceipted agent
  | noteControl agent bundle =>
    obtain ⟨hl, ht, ha, hr, har⟩ := st.noteControl_usage agent bundle
    refine h.of_sameSize hl ?_ ?_ ?_ ?_ (fun a => ?_) (fun a => ?_)
    · rw [QuotaOp.apply, ht, ha]; exact h.total
    · rw [QuotaOp.apply, hr, har]; exact h.revocations
    · rw [QuotaOp.apply, ht]; exact ⟨rfl, rfl⟩
    · rw [QuotaOp.apply, hr]; exact ⟨rfl, rfl⟩
    · rw [QuotaOp.apply, ha]; exact ⟨rfl, rfl⟩
    · rw [QuotaOp.apply, har]; exact ⟨rfl, rfl⟩
  | writeFailed =>
    exact h.of_sameSize rfl h.total h.revocations ⟨rfl, rfl⟩ ⟨rfl, rfl⟩ (fun _ => ⟨rfl, rfl⟩)
      (fun _ => ⟨rfl, rfl⟩)

/-- Every sequence of calls keeps the ledger in step. -/
theorem run_ledger (ops : List QuotaOp) :
    ∀ {st : CapacityState}, Ledger st → Ledger (st.run ops) := by
  induction ops with
  | nil => exact fun h => h
  | cons op rest ih => exact fun h => ih (step_ledger h op)

/-! ## Receipts and control objects -/

/-- A call that marks an object of any agent. -/
def marksObject : QuotaOp → Bool
  | .markReceipted _ => true
  | _ => false

/-- A call that marks a revocation of any agent. -/
def marksRevocation : QuotaOp → Bool
  | .markRevocationReceipted _ => true
  | _ => false

/-- What the counters that nothing limits hold after the calls `ops`. -/
structure Marked (ops : List QuotaOp) (st : CapacityState) : Prop where
  /-- The total of the receipts counts the marks. -/
  total : st.total.receiptedObjects = ops.countP marksObject
  /-- The receipts of a tracked agent count its marks. -/
  agents : ∀ agent ∈ st.agents,
    (valueAt st.agents agent).receiptedObjects = ops.count (.markReceipted agent)
  /-- The receipts of revocations count their marks, while their budget is enabled. -/
  revocations : st.revocations.receiptedObjects =
    if st.revocationEnabled then ops.countP marksRevocation else 0
  /-- The same, for one agent. -/
  agentRevocations : ∀ agent, (valueAt st.agentRevocations agent).receiptedObjects =
    if st.revocationEnabled then ops.count (.markRevocationReceipted agent) else 0
  /-- The receipts of revocations are the sum over the agents. -/
  sum : st.revocations.receiptedObjects = sumOver (·.receiptedObjects) st.agentRevocations
  /-- There are at most as many control objects as calls. -/
  controls : st.bundleControlObjects ≤ ops.length
  /-- The same, for one bundle. -/
  owners : ∀ key, valueAt st.bundleControlOwners key ≤ ops.length

/-- A change that touches no receipt. -/
structure SameMarks (st st' : CapacityState) : Prop where
  limits : st'.limits = st.limits
  total : st'.total.receiptedObjects = st.total.receiptedObjects
  tracked : ∀ agent, agent ∈ st'.agents ↔ agent ∈ st.agents
  agents : ∀ agent, (valueAt st'.agents agent).receiptedObjects =
    (valueAt st.agents agent).receiptedObjects
  revocations : st'.revocations.receiptedObjects = st.revocations.receiptedObjects
  agentRevocations : ∀ agent, (valueAt st'.agentRevocations agent).receiptedObjects =
    (valueAt st.agentRevocations agent).receiptedObjects
  sum : sumOver (·.receiptedObjects) st'.agentRevocations =
    sumOver (·.receiptedObjects) st.agentRevocations

/-- A change of one agent's usage that leaves its receipts as they are. -/
theorem receipts_bump (usages : Map String ObjectUsage) (agent : String)
    (g : ObjectUsage → ObjectUsage) (hg : ∀ u, (g u).receiptedObjects = u.receiptedObjects) :
    (∀ a, (valueAt (bump usages agent g) a).receiptedObjects = (valueAt usages a).receiptedObjects) ∧
      sumOver (·.receiptedObjects) (bump usages agent g) = sumOver (·.receiptedObjects) usages := by
  constructor
  · intro a
    rw [valueAt_bump]
    split
    · exact hg _
    · rfl
  · have h := sumOver_bump (·.receiptedObjects) rfl usages agent g
    simp only [hg] at h
    omega

/-- A reservation of either kind touches no receipt, no owner and no control object. -/
theorem reserveFor_sameMarks (st : CapacityState) (free : Option Nat) (agent : String) (bytes : Nat)
    (revocation : Bool) :
    SameMarks st (st.reserveFor free agent bytes revocation).2 ∧
      (st.reserveFor free agent bytes revocation).2.bundleControlObjects =
        st.bundleControlObjects ∧
      (st.reserveFor free agent bytes revocation).2.bundleControlOwners =
        st.bundleControlOwners := by
  obtain ⟨e, he⟩ | ⟨current, hadm, hok⟩ := st.reserveFor_cases free agent bytes revocation
  · rw [he]
    exact ⟨⟨rfl, rfl, fun _ => Iff.rfl, fun _ => rfl, rfl, fun _ => rfl, rfl⟩, rfl, rfl⟩
  · rw [hok]
    have hmem : agent ∈ st.agents := by rw [← AList.lookup_isSome, hadm.tracked]; rfl
    have htracked : ∀ a, a ∈ bump st.agents agent (grown bytes) ↔ a ∈ st.agents := by
      intro a
      rw [bump, AList.mem_insert]
      exact ⟨fun h => h.elim (fun h => h ▸ hmem) id, .inr⟩
    have hagents := (receipts_bump st.agents agent (grown bytes) (fun _ => rfl)).1
    generalize (revocation && st.revocationEnabled) = budgeted
    cases budgeted with
    | false => exact ⟨⟨rfl, rfl, htracked, hagents, rfl, fun _ => rfl, rfl⟩, rfl, rfl⟩
    | true =>
      obtain ⟨hrev, hsum⟩ := receipts_bump st.agentRevocations agent (charge bytes) (fun _ => rfl)
      exact ⟨⟨rfl, rfl, htracked, hagents, rfl, hrev, hsum⟩, rfl, rfl⟩

/-- A call that touches no receipt and marks none. -/
theorem Marked.of_sameMarks {ops : List QuotaOp} {op : QuotaOp} {st st' : CapacityState}
    (h : Marked ops st) (hs : SameMarks st st') (hobj : ∀ agent, op ≠ .markReceipted agent)
    (hrev : ∀ agent, op ≠ .markRevocationReceipted agent)
    (hcontrols : st'.bundleControlObjects ≤ ops.length + 1)
    (howners : ∀ key, valueAt st'.bundleControlOwners key ≤ ops.length + 1) :
    Marked (ops ++ [op]) st' := by
  have henabled : st'.revocationEnabled = st.revocationEnabled := by
    simp only [revocationEnabled, hs.limits]
  have h1 : marksObject op = false := by cases op <;> simp_all [marksObject]
  have h2 : marksRevocation op = false := by cases op <;> simp_all [marksRevocation]
  have h3 : ∀ agent, (ops ++ [op]).count (.markReceipted agent) =
      ops.count (.markReceipted agent) := by
    intro agent; simp [List.count_append, hobj agent]
  have h4 : ∀ agent, (ops ++ [op]).count (.markRevocationReceipted agent) =
      ops.count (.markRevocationReceipted agent) := by
    intro agent; simp [List.count_append, hrev agent]
  refine ⟨?_, fun agent hmem => ?_, ?_, fun agent => ?_, ?_, ?_, ?_⟩
  · rw [hs.total, h.total]; simp [List.countP_append, h1]
  · rw [hs.agents, h.agents agent ((hs.tracked agent).1 hmem), h3]
  · rw [hs.revocations, h.revocations, henabled]; simp [List.countP_append, h2]
  · rw [hs.agentRevocations, h.agentRevocations, henabled, h4]
  · rw [hs.revocations, hs.sum, h.sum]
  · simpa using hcontrols
  · simpa using howners

theorem saturatingAdd_one {a : Nat} (h : a < u64Max) : saturatingAdd a 1 = a + 1 :=
  Nat.min_eq_left (by omega)

theorem wrappingAdd_one {a : Nat} (h : a < u64Max) : wrappingAdd a 1 = a + 1 := by
  have hlt : u64Max < 2^64 := by decide
  exact Nat.mod_eq_of_lt (by omega)

/-- Marking an object counts one more mark. -/
theorem Marked.markReceipted {ops : List QuotaOp} {st : CapacityState} (h : Marked ops st)
    (hlen : ops.length < u64Max) (agent : String) :
    Marked (ops ++ [.markReceipted agent]) (st.markReceipted agent) := by
  have htotal : ops.countP marksObject ≤ ops.length := List.countP_le_length
  have hcount : ops.count (.markReceipted agent) ≤ ops.length := List.count_le_length
  rw [markReceipted_eq]
  refine ⟨?_, fun a hmem => ?_, ?_, fun a => ?_, h.sum, ?_, fun key => ?_⟩
  · show saturatingAdd st.total.receiptedObjects 1 = _
    rw [h.total, saturatingAdd_one (by omega)]
    simp [List.countP_append, marksObject]
  · dsimp only at hmem ⊢
    by_cases htracked : agent ∈ st.agents
    · rw [if_pos htracked] at hmem ⊢
      rw [valueAt_bump]
      split
      · next heq =>
        subst heq
        rw [h.agents a htracked, saturatingAdd_one (by omega)]
        simp [List.count_append]
      · next hne =>
        have hmem' : a ∈ st.agents := by
          rw [bump, AList.mem_insert] at hmem
          exact hmem.resolve_left hne
        have hop : QuotaOp.markReceipted agent ≠ .markReceipted a := by simpa using Ne.symm hne
        rw [h.agents a hmem']
        simp [List.count_append, hop]
    · rw [if_neg htracked] at hmem ⊢
      have hne : a ≠ agent := fun heq => htracked (heq ▸ hmem)
      have hop : QuotaOp.markReceipted agent ≠ .markReceipted a := by simpa using Ne.symm hne
      rw [h.agents a hmem]
      simp [List.count_append, hop]
  · show st.revocations.receiptedObjects = if st.revocationEnabled then _ else 0
    rw [h.revocations]
    simp [List.countP_append, marksRevocation]
  · show (valueAt st.agentRevocations a).receiptedObjects = if st.revocationEnabled then _ else 0
    rw [h.agentRevocations]
    simp [List.count_append]
  · have := h.controls
    simp only [List.length_append, List.length_singleton]
    omega
  · have := h.owners key
    simp only [List.length_append, List.length_singleton]
    omega

/-- Marking a revocation counts one more mark of it. -/
theorem Marked.markRevocationReceipted {ops : List QuotaOp} {st : CapacityState} (h : Marked ops st)
    (hlen : ops.length < u64Max) (agent : String) :
    Marked (ops ++ [.markRevocationReceipted agent]) (st.markRevocationReceipted agent) := by
  have htotal : ops.countP marksRevocation ≤ ops.length := List.countP_le_length
  have hcount : ops.count (.markRevocationReceipted agent) ≤ ops.length := List.count_le_length
  have hlimits : (st.markRevocationReceipted agent).revocationEnabled = st.revocationEnabled := by
    unfold CapacityState.markRevocationReceipted
    split <;> rfl
  have hcontrols : st.bundleControlObjects ≤ ops.length + 1 := by
    have := h.controls
    omega
  have howners : ∀ key, valueAt st.bundleControlOwners key ≤ ops.length + 1 := by
    intro key
    have := h.owners key
    omega
  by_cases henabled : st.revocationEnabled = true
  · have hrev := h.revocations
    have hagent := h.agentRevocations
    simp only [henabled, if_true] at hrev hagent
    have hst : st.markRevocationReceipted agent = { st with
        revocations := receipted st.revocations
        agentRevocations := bump st.agentRevocations agent receipted } := by
      unfold CapacityState.markRevocationReceipted
      rw [if_pos henabled]
    have hself : (receipted (valueAt st.agentRevocations agent)).receiptedObjects =
        (valueAt st.agentRevocations agent).receiptedObjects + 1 := by
      show wrappingAdd _ 1 = _
      rw [wrappingAdd_one (by rw [hagent]; omega)]
    have hall : (receipted st.revocations).receiptedObjects =
        st.revocations.receiptedObjects + 1 := by
      show wrappingAdd _ 1 = _
      rw [wrappingAdd_one (by rw [hrev]; omega)]
    refine ⟨?_, fun a hmem => ?_, ?_, fun a => ?_, ?_, ?_, ?_⟩
    · rw [hst, h.total]; simp [List.countP_append, marksObject]
    · rw [hst] at hmem ⊢; rw [h.agents a hmem]; simp [List.count_append]
    · rw [hlimits, if_pos henabled, hst]
      dsimp only
      rw [hall, hrev]
      simp [List.countP_append, marksRevocation]
    · rw [hlimits, if_pos henabled, hst]
      dsimp only
      rw [valueAt_bump]
      split
      · next heq =>
        subst heq
        rw [hself, hagent]
        simp [List.count_append]
      · next hne =>
        have hop : QuotaOp.markRevocationReceipted agent ≠ .markRevocationReceipted a := by
          simpa using Ne.symm hne
        rw [hagent]
        simp [List.count_append, hop]
    · rw [hst]
      dsimp only
      have hbump := sumOver_bump (·.receiptedObjects) rfl st.agentRevocations agent receipted
      have hsum := h.sum
      simp only [hself] at hbump
      rw [hall]
      omega
    · rw [hst]; simpa using hcontrols
    · rw [hst]; simpa using howners
  · have hst : st.markRevocationReceipted agent = st := by
      unfold CapacityState.markRevocationReceipted
      rw [if_neg henabled]
    rw [hst]
    refine ⟨?_, fun a hmem => ?_, ?_, fun a => ?_, h.sum, by simpa using hcontrols,
      by simpa using howners⟩
    · rw [h.total]; simp [List.countP_append, marksObject]
    · rw [h.agents a hmem]; simp [List.count_append]
    · rw [h.revocations]; simp [henabled]
    · rw [h.agentRevocations]; simp [henabled]

/-- Every call keeps count. -/
theorem step_marked {ops : List QuotaOp} {st : CapacityState} (h : Marked ops st)
    (hlen : ops.length < u64Max) (op : QuotaOp) : Marked (ops ++ [op]) (op.apply st) := by
  have hcontrols : st.bundleControlObjects ≤ ops.length + 1 := Nat.le_succ_of_le h.controls
  have howners : ∀ key, valueAt st.bundleControlOwners key ≤ ops.length + 1 :=
    fun key => Nat.le_succ_of_le (h.owners key)
  cases op with
  | reserve free agent bytes =>
    obtain ⟨hs, hc, ho⟩ := st.reserveFor_sameMarks free agent bytes false
    exact h.of_sameMarks hs (fun _ => by simp) (fun _ => by simp) (hc ▸ hcontrols) (ho ▸ howners)
  | reserveRevocation free agent bytes =>
    obtain ⟨hs, hc, ho⟩ := st.reserveFor_sameMarks free agent bytes true
    exact h.of_sameMarks hs (fun _ => by simp) (fun _ => by simp) (hc ▸ hcontrols) (ho ▸ howners)
  | markReceipted agent => exact h.markReceipted hlen agent
  | markRevocationReceipted agent => exact h.markRevocationReceipted hlen agent
  | noteControl agent bundle =>
    obtain ⟨hl, ht, ha, hr, har⟩ := st.noteControl_usage agent bundle
    have hs : SameMarks st (st.noteControl agent bundle).2 :=
      ⟨hl, by rw [ht], fun _ => by rw [ha], fun _ => by rw [ha], by rw [hr],
        fun _ => by rw [har], by rw [har]⟩
    have hcontrols' := h.controls
    have howners' := h.owners
    obtain ⟨-, e, he⟩ | ⟨-, hok⟩ := st.noteControl_cases agent bundle
    · rw [QuotaOp.apply, he]
      rw [he] at hs
      exact h.of_sameMarks hs (fun _ => by simp) (fun _ => by simp) hcontrols howners
    · rw [QuotaOp.apply, hok]
      rw [hok] at hs
      refine h.of_sameMarks hs (fun _ => by simp) (fun _ => by simp) ?_ (fun key => ?_)
      · show wrappingAdd st.bundleControlObjects 1 ≤ ops.length + 1
        rw [wrappingAdd_one (by omega)]
        omega
      · simp only [noted]
        rw [valueAt_bump]
        have := howners' key
        split
        · rw [wrappingAdd_one (by omega)]
          omega
        · omega
  | writeFailed =>
    exact h.of_sameMarks ⟨rfl, rfl, fun _ => Iff.rfl, fun _ => rfl, rfl, fun _ => rfl, rfl⟩
      (fun _ => by simp) (fun _ => by simp) hcontrols howners

/-- Every sequence of calls that is short enough to be counted keeps count. -/
theorem run_marked {limits : CapacityConfig} {agents : List String} {st : CapacityState}
    (h : prepare limits agents = .ok st) (ops : List QuotaOp) (hlen : ops.length ≤ u64Max) :
    Marked ops (st.run ops) := by
  induction ops using List.reverseRecOn with
  | nil =>
    obtain ⟨heq, hz, -⟩ := prepare_ok h
    refine ⟨?_, fun a _ => ?_, ?_, fun a => ?_, ?_, ?_, fun key => ?_⟩
    · rw [heq]; rfl
    · exact congrArg ObjectUsage.receiptedObjects (hz a)
    · rw [heq]; exact (ite_self 0).symm
    · rw [heq]; exact (ite_self 0).symm
    · rw [heq]; rfl
    · rw [heq]; exact Nat.le_refl 0
    · rw [heq]; exact Nat.le_refl 0
  | append_singleton ops op ih =>
    rw [List.length_append, List.length_singleton] at hlen
    have hstep := step_marked (ih (by omega)) (by omega) op
    rwa [run, List.foldl_append]

/-! ## The ledger in every reachable state -/

/-- The unchecked additions of bytes and objects that a call makes are exact. -/
def ExactCharge (st : CapacityState) : QuotaOp → Prop
  | .reserveRevocation free agent bytes =>
    (st.reserveRevocation free agent bytes).1 = .ok () → st.revocationEnabled →
      charge bytes st.revocations = grown bytes st.revocations ∧
        charge bytes (valueAt st.agentRevocations agent) =
          grown bytes (valueAt st.agentRevocations agent)
  | _ => True

/-- The additions to the counters that nothing limits are exact. -/
def ExactMark (st : CapacityState) : QuotaOp → Prop
  | .markReceipted agent =>
    saturatingAdd st.total.receiptedObjects 1 = st.total.receiptedObjects + 1 ∧
      (agent ∈ st.agents → saturatingAdd (valueAt st.agents agent).receiptedObjects 1 =
        (valueAt st.agents agent).receiptedObjects + 1)
  | .markRevocationReceipted agent =>
    wrappingAdd st.revocations.receiptedObjects 1 = st.revocations.receiptedObjects + 1 ∧
      wrappingAdd (valueAt st.agentRevocations agent).receiptedObjects 1 =
        (valueAt st.agentRevocations agent).receiptedObjects + 1
  | .noteControl agent bundle =>
    wrappingAdd st.bundleControlObjects 1 = st.bundleControlObjects + 1 ∧
      wrappingAdd (valueAt st.bundleControlOwners (agent, bundle)) 1 =
        valueAt st.bundleControlOwners (agent, bundle) + 1
  | _ => True

/-- A ledger that is in step makes its charges exactly. -/
theorem Ledger.exactCharge {st : CapacityState} (h : Ledger st) (op : QuotaOp) :
    ExactCharge st op := by
  cases op with
  | reserveRevocation free agent bytes =>
    intro hok henabled
    obtain ⟨e, he⟩ | ⟨current, hadm, -⟩ := st.reserveFor_cases free agent bytes true
    · rw [reserveRevocation, he] at hok
      cases hok
    · exact h.charge_exact hadm
  | _ => trivial

/-- Counters that have kept count of fewer calls than a `u64` holds are incremented exactly. -/
theorem Marked.exactMark {ops : List QuotaOp} {st : CapacityState} (h : Marked ops st)
    (hlen : ops.length < u64Max) (op : QuotaOp) : ExactMark st op := by
  cases op with
  | markReceipted agent =>
    have h1 : ops.countP marksObject ≤ ops.length := List.countP_le_length
    have h2 : ops.count (.markReceipted agent) ≤ ops.length := List.count_le_length
    refine ⟨saturatingAdd_one (by rw [h.total]; omega), fun hmem => saturatingAdd_one ?_⟩
    rw [h.agents agent hmem]
    omega
  | markRevocationReceipted agent =>
    have h1 : ops.countP marksRevocation ≤ ops.length := List.countP_le_length
    have h2 : ops.count (.markRevocationReceipted agent) ≤ ops.length := List.count_le_length
    constructor
    · refine wrappingAdd_one ?_
      rw [h.revocations]
      split <;> omega
    · refine wrappingAdd_one ?_
      rw [h.agentRevocations]
      split <;> omega
  | noteControl agent bundle =>
    have h1 := h.controls
    have h2 := h.owners (agent, bundle)
    exact ⟨wrappingAdd_one (by omega), wrappingAdd_one (by omega)⟩
  | _ => trivial

/-- A reservation that is turned away changes nothing but the count of rejections. -/
theorem rejected_apply {st : CapacityState} {op : QuotaOp} (h : op.Rejected st) :
    op.apply st = { st with admissionRejections := saturatingAdd st.admissionRejections 1 } := by
  have hcase : ∀ free agent bytes revocation,
      (∃ e, (st.reserveFor free agent bytes revocation).1 = .error e) →
        (st.reserveFor free agent bytes revocation).2 =
          { st with admissionRejections := saturatingAdd st.admissionRejections 1 } := by
    rintro free agent bytes revocation ⟨e, he⟩
    obtain ⟨e', he'⟩ | ⟨current, -, hok⟩ := st.reserveFor_cases free agent bytes revocation
    · rw [he']
    · rw [hok] at he
      cases he
  cases op with
  | reserve free agent bytes => exact hcase free agent bytes false h
  | reserveRevocation free agent bytes => exact hcase free agent bytes true h
  | _ => exact h.elim

/-- From an empty start, after any calls: the ledger is in step and within its limits, the next call
charges exactly, and if it is a reservation that is turned away it changes nothing but the count of
rejections. While fewer calls were made than a `u64` counts, the receipts are exact too, those of
revocations are the sum over the agents, and they are part of the total, and of an agent's, as soon
as no more revocations than objects were marked. -/
theorem quota_ledger {limits : CapacityConfig} {agents : List String} {st₀ : CapacityState}
    (h : prepare limits agents = .ok st₀) (ops : List QuotaOp) (op : QuotaOp) :
    Ledger (st₀.run ops) ∧ ExactCharge (st₀.run ops) op ∧
      (op.Rejected (st₀.run ops) → op.apply (st₀.run ops) =
        { st₀.run ops with
          admissionRejections := saturatingAdd (st₀.run ops).admissionRejections 1 }) ∧
      (ops.length < u64Max →
        ExactMark (st₀.run ops) op ∧
        (st₀.run ops).revocations.receiptedObjects =
          sumOver (·.receiptedObjects) (st₀.run ops).agentRevocations ∧
        (ops.countP marksRevocation ≤ ops.countP marksObject →
          (st₀.run ops).revocations.receiptedObjects ≤ (st₀.run ops).total.receiptedObjects) ∧
        ∀ agent ∈ (st₀.run ops).agents,
          ops.count (.markRevocationReceipted agent) ≤ ops.count (.markReceipted agent) →
            (valueAt (st₀.run ops).agentRevocations agent).receiptedObjects ≤
              (valueAt (st₀.run ops).agents agent).receiptedObjects) := by
  have hledger := run_ledger ops (prepare_ledger h)
  refine ⟨hledger, hledger.exactCharge op, rejected_apply, fun hlen => ?_⟩
  have hmarked := run_marked h ops (by omega)
  refine ⟨hmarked.exactMark hlen op, hmarked.sum, fun hle => ?_, fun agent hmem hle => ?_⟩
  · rw [hmarked.total, hmarked.revocations]
    split <;> omega
  · rw [hmarked.agents agent hmem, hmarked.agentRevocations]
    split <;> omega

/-- A vault of one agent, two reservations, and one mark of each kind. -/
theorem quota_ledger_one_agent :
    ∃ st₀, prepare {} ["a"] = .ok st₀ ∧
      Ledger (st₀.run [.reserve (some u64Max) "a" 5, .markReceipted "a",
        .reserveRevocation (some u64Max) "a" 7, .markReceipted "a", .markRevocationReceipted "a"]) :=
  ⟨_, rfl, (@quota_ledger {} ["a"] _ rfl _ .writeFailed).1⟩

/-- The receipts of revocations need not be part of the total: the interface lets a caller mark a
revocation before it marks the object. -/
theorem receipts_can_exceed_total :
    ¬ ∀ (limits : CapacityConfig) (agents : List String) (st₀ : CapacityState) (ops : List QuotaOp),
      prepare limits agents = .ok st₀ →
        (st₀.run ops).revocations.receiptedObjects ≤ (st₀.run ops).total.receiptedObjects := by
  intro h
  have := h {} ["a"] _ [.markRevocationReceipted "a"] rfl
  exact absurd this (by decide)

end CapacityState

end Argos.Vault
