import Argos.Vault.Ledger

/-!
# The two budgets are separate

Two runs over one ledger. The first makes a sequence of reservations; the second leaves out all those
of the other budget. While the totals do not overflow and the file system has space, the reservations
that both make have the same answers (`budget_separation`). The share of a budget in the counters
(`share`, `agentShare`) moves with the reservations of that budget only (`share_charged`), and
`Shadow` carries the comparison of the two states along the runs.
-/

namespace Argos.Vault

open Argos.Lib

/-- A reservation that is asked for: a normal one, or one for a revocation. -/
structure Reservation where
  agent : String
  bytes : Nat
  revocation : Bool
deriving DecidableEq, Repr

namespace CapacityState

/-- `reserve` or `reserve_revocation`, with the reading of the free space. -/
def attempt (st : CapacityState) (a : Reservation × Option Nat) : Result Unit × CapacityState :=
  st.reserveFor a.2 a.1.agent a.1.bytes a.1.revocation

/-- The answers to a sequence of reservations. -/
def outcomes (st : CapacityState) : List (Reservation × Option Nat) → List (Result Unit)
  | [] => []
  | a :: rest => (st.attempt a).1 :: (st.attempt a).2.outcomes rest

/-- The file system has space for a reservation. -/
def HasSpace (st : CapacityState) (a : Reservation × Option Nat) : Prop :=
  st.floorBlocked a.2 a.1.bytes a.1.revocation = false

/-- The answer to a reservation whose counters would overflow. -/
def overflow : Result Unit := .error (.capacity "accounting_overflow")

/-- The floor depends on the limits only. -/
theorem floorBlocked_congr {st st' : CapacityState} (h : st'.limits = st.limits) (free : Option Nat)
    (bytes : Nat) (revocation : Bool) :
    st'.floorBlocked free bytes revocation = st.floorBlocked free bytes revocation := by
  unfold floorBlocked extraFree revocationEnabled
  rw [h]

theorem attempt_limits (st : CapacityState) (a : Reservation × Option Nat) :
    (st.attempt a).2.limits = st.limits := by
  unfold attempt
  obtain ⟨e, he⟩ | ⟨current, -, hok⟩ := st.reserveFor_cases a.2 a.1.agent a.1.bytes a.1.revocation
  · rw [he]
  · rw [hok]
    cases a.1.revocation && st.revocationEnabled <;> rfl

/-! ## Shares -/

/-- The share of a budget in the total. -/
def share (st : CapacityState) (revocation : Bool) : ObjectUsage :=
  if revocation then st.revocations else subtractUsage st.total st.revocations

/-- The share of a budget in the usage of an agent. -/
def agentShare (st : CapacityState) (revocation : Bool) (agent : String) : ObjectUsage :=
  if revocation then valueAt st.agentRevocations agent
  else subtractUsage (valueAt st.agents agent) (valueAt st.agentRevocations agent)

/-- What `admit` compares are the shares of the budget. -/
theorem budget_eq (st : CapacityState) (agent : String) (revocation : Bool) :
    (st.budget agent (valueAt st.agents agent) revocation).total = st.share revocation ∧
      (st.budget agent (valueAt st.agents agent) revocation).current =
        st.agentShare revocation agent := by
  cases revocation <;> exact ⟨rfl, rfl⟩

/-- What an admitted revocation leaves, with its unchecked additions made exactly. -/
theorem Ledger.charged_eq {st : CapacityState} (h : Ledger st) {free : Option Nat}
    {agent : String} {bytes : Nat} {current : ObjectUsage}
    (hadm : Admitted st free agent bytes true current) :
    st.charged agent bytes true = { st with
      total := grown bytes st.total
      agents := bump st.agents agent (grown bytes)
      revocations := grown bytes st.revocations
      agentRevocations := bump st.agentRevocations agent (grown bytes) } := by
  obtain ⟨hexact, hexact'⟩ := h.charge_exact hadm
  have hbump : bump st.agentRevocations agent (charge bytes) =
      bump st.agentRevocations agent (grown bytes) := by
    unfold bump
    rw [hexact']
  simp only [charged, addRevocation, if_true, hexact, hbump]

theorem Ledger.charged {st : CapacityState} (h : Ledger st) {free : Option Nat} {agent : String}
    {bytes : Nat} {revocation : Bool} {current : ObjectUsage}
    (hadm : Admitted st free agent bytes revocation current) :
    Ledger (st.charged agent bytes revocation) := by
  cases revocation with
  | false => exact h.charged_normal hadm
  | true => exact h.charged_revocation hadm

/-- The difference of two usages that both grow stays. -/
theorem subtractUsage_grown_both (bytes : Nat) (u v : ObjectUsage) :
    SameSize (subtractUsage (grown bytes u) (grown bytes v)) (subtractUsage u v) := by
  constructor
  · simp only [subtractUsage, grown]; omega
  · simp only [subtractUsage, grown]; omega

/-- The difference grows with the whole. -/
theorem subtractUsage_grown {u v : ObjectUsage} (h : Within v u) (bytes : Nat) :
    SameSize (subtractUsage (grown bytes u) v) (grown bytes (subtractUsage u v)) := by
  obtain ⟨hb, ho⟩ := h
  constructor
  · simp only [subtractUsage, grown]; omega
  · simp only [subtractUsage, grown]; omega

theorem SameSize.refl (u : ObjectUsage) : SameSize u u := ⟨rfl, rfl⟩

theorem SameSize.symm {u v : ObjectUsage} (h : SameSize u v) : SameSize v u := ⟨h.1.symm, h.2.symm⟩

theorem SameSize.trans {u v w : ObjectUsage} (h : SameSize u v) (h' : SameSize v w) :
    SameSize u w := ⟨h.1.trans h'.1, h.2.trans h'.2⟩

/-- What an admitted object leaves alone, and what it does to the totals. -/
theorem charged_frame (st : CapacityState) (agent : String) (bytes : Nat) (revocation : Bool) :
    (st.charged agent bytes revocation).limits = st.limits ∧
      (st.charged agent bytes revocation).storageConsistent = st.storageConsistent ∧
      (st.charged agent bytes revocation).reconstructionComplete = st.reconstructionComplete ∧
      (st.charged agent bytes revocation).total = grown bytes st.total ∧
      (st.charged agent bytes revocation).agents = bump st.agents agent (grown bytes) := by
  cases revocation <;> exact ⟨rfl, rfl, rfl, rfl, rfl⟩

/-- The share of a budget grows with the objects of that budget only. -/
theorem Ledger.share_charged {st : CapacityState} (h : Ledger st) {free : Option Nat}
    {agent : String} {bytes : Nat} {revocation : Bool} {current : ObjectUsage}
    (hadm : Admitted st free agent bytes revocation current) (kind : Bool) :
    SameSize ((st.charged agent bytes revocation).share kind)
      (if revocation = kind then grown bytes (st.share kind) else st.share kind) := by
  cases revocation with
  | false =>
    cases kind with
    | false => exact subtractUsage_grown h.within bytes
    | true => exact .refl _
  | true =>
    rw [h.charged_eq hadm]
    cases kind with
    | false => exact subtractUsage_grown_both bytes _ _
    | true => exact .refl _

/-- The same for the share of an agent. -/
theorem Ledger.agentShare_charged {st : CapacityState} (h : Ledger st) {free : Option Nat}
    {agent : String} {bytes : Nat} {revocation : Bool} {current : ObjectUsage}
    (hadm : Admitted st free agent bytes revocation current) (kind : Bool) (a : String) :
    SameSize ((st.charged agent bytes revocation).agentShare kind a)
      (if revocation = kind ∧ a = agent then grown bytes (st.agentShare kind a)
        else st.agentShare kind a) := by
  cases revocation with
  | false =>
    cases kind with
    | false =>
      show SameSize (subtractUsage (valueAt (bump st.agents agent (grown bytes)) a)
        (valueAt st.agentRevocations a)) _
      rw [valueAt_bump]
      by_cases ha : a = agent
      · rw [if_pos ha, if_pos ⟨rfl, ha⟩]
        exact subtractUsage_grown (h.agentWithin a) bytes
      · rw [if_neg ha, if_neg fun h => ha h.2]
        exact .refl _
    | true => exact .refl _
  | true =>
    rw [h.charged_eq hadm]
    cases kind with
    | false =>
      show SameSize (subtractUsage (valueAt (bump st.agents agent (grown bytes)) a)
        (valueAt (bump st.agentRevocations agent (grown bytes)) a)) _
      rw [valueAt_bump, valueAt_bump]
      have hnot : ¬ (true = false ∧ a = agent) := fun h => Bool.noConfusion h.1
      by_cases ha : a = agent
      · rw [if_pos ha, if_pos ha, if_neg hnot]
        exact subtractUsage_grown_both bytes _ _
      · rw [if_neg ha, if_neg ha, if_neg hnot]
        exact .refl _
    | true =>
      show SameSize (valueAt (bump st.agentRevocations agent (grown bytes)) a) _
      rw [valueAt_bump]
      by_cases ha : a = agent
      · rw [if_pos ha, if_pos ⟨rfl, ha⟩]
        exact .refl _
      · rw [if_neg ha, if_neg fun h => ha h.2]
        exact .refl _

/-! ## The answer to a reservation -/

/-- A comparison reads the bytes and the objects of a usage only. -/
theorem SameSize.exceeds {u v : ObjectUsage} (h : SameSize u v) (bytes maxBytes maxObjects : Nat) :
    CapacityState.exceeds u bytes maxBytes maxObjects =
      CapacityState.exceeds v bytes maxBytes maxObjects := by
  unfold CapacityState.exceeds
  rw [h.1, h.2]

/-- `add_usage` adds where the totals stay within a `u64`. -/
theorem addUsage_fits {st : CapacityState} {agent : String} {bytes : Nat} {current : ObjectUsage}
    (hagent : st.agents.lookup agent = some current)
    (htb : st.total.logicalBytes + bytes ≤ u64Max) (hto : st.total.objects + 1 ≤ u64Max)
    (hcb : current.logicalBytes + bytes ≤ u64Max) (hco : current.objects + 1 ≤ u64Max) :
    (st.addUsage agent bytes).1 = .ok () := by
  unfold addUsage
  rw [hagent]
  simp only [checkedAdd, htb, hto, hcb, hco, if_true]

/-- What an answer of `admit` depends on, for an agent that is tracked. -/
theorem admits_answer {st : CapacityState} {free : Option Nat} {agent : String} {bytes : Nat}
    {revocation : Bool} (hconsistent : st.storageConsistent = true)
    (hcomplete : st.reconstructionComplete = true) {current : ObjectUsage}
    (hagent : st.agents.lookup agent = some current)
    (hspace : st.floorBlocked free bytes revocation = false) :
    (st.admits free agent bytes revocation).1 =
      if exceeds (st.share revocation) bytes (st.budget agent current revocation).globalBytes
          (st.budget agent current revocation).globalObjects then
        .error (.capacity (if revocation then "revocation_global_limit" else "global_limit"))
      else if exceeds (st.agentShare revocation agent) bytes
          (st.budget agent current revocation).agentLimit.maxBytes
          (st.budget agent current revocation).agentLimit.maxObjects then
        .error (.capacity (if revocation then "revocation_agent_limit" else "agent_limit"))
      else if (st.addUsage agent bytes).1 = .ok () then .ok () else overflow := by
  have hvalue : valueAt st.agents agent = current := by simp [valueAt, hagent]
  obtain ⟨htotal, hcurrent⟩ := st.budget_eq agent revocation
  rw [hvalue] at htotal hcurrent
  unfold admits
  rw [if_neg (by simp [hconsistent, hcomplete]), hagent]
  dsimp only
  rw [htotal, hcurrent, hspace]
  split
  · rfl
  split
  · rfl
  rw [if_neg (by simp)]
  rcases hadd : st.addUsage agent bytes with ⟨_ | _, st'⟩
  · rfl
  · rfl

theorem admits_untracked {st : CapacityState} {free : Option Nat} {agent : String} {bytes : Nat}
    {revocation : Bool} (hconsistent : st.storageConsistent = true)
    (hcomplete : st.reconstructionComplete = true) (hagent : st.agents.lookup agent = none) :
    (st.admits free agent bytes revocation).1 = .error (.capacity "untracked_agent") := by
  unfold admits
  rw [if_neg (by simp [hconsistent, hcomplete]), hagent]

theorem reserveFor_answer (st : CapacityState) (free : Option Nat) (agent : String) (bytes : Nat)
    (revocation : Bool) : (st.reserveFor free agent bytes revocation).1 =
      (st.admits free agent bytes (revocation && st.revocationEnabled)).1 := by
  unfold reserveFor
  rcases st.admits free agent bytes (revocation && st.revocationEnabled) with ⟨_ | _, st'⟩ <;> rfl

/-! ## Two runs -/

/-- `st'` is where a run is that has left out the reservations of the other budget than `kind`. -/
structure Shadow (kind : Bool) (st st' : CapacityState) : Prop where
  limits : st'.limits = st.limits
  consistent : st.storageConsistent = true ∧ st'.storageConsistent = true
  complete : st.reconstructionComplete = true ∧ st'.reconstructionComplete = true
  ledger : Ledger st
  ledger' : Ledger st'
  tracked : ∀ a, a ∈ st'.agents ↔ a ∈ st.agents
  share : SameSize (st'.share kind) (st.share kind)
  agentShare : ∀ a, SameSize (st'.agentShare kind a) (st.agentShare kind a)
  total : Within st'.total st.total
  agents : ∀ a, Within (valueAt st'.agents a) (valueAt st.agents a)

namespace Shadow

variable {kind : Bool} {st st' : CapacityState} {a : Reservation × Option Nat}

theorem enabled (h : Shadow kind st st') : st'.revocationEnabled = st.revocationEnabled := by
  rw [revocationEnabled, revocationEnabled, h.limits]

/-- A rejected reservation of the first run. -/
theorem rejected (h : Shadow kind st st') (n : Nat) :
    Shadow kind { st with admissionRejections := n } st' :=
  ⟨h.limits, h.consistent, h.complete, h.ledger.of_sameSize rfl h.ledger.total h.ledger.revocations
    (.refl _) (.refl _) (fun _ => .refl _) (fun _ => .refl _), h.ledger', h.tracked, h.share,
    h.agentShare, h.total, h.agents⟩

theorem rejected' (h : Shadow kind st st') (n : Nat) :
    Shadow kind st { st' with admissionRejections := n } :=
  ⟨h.limits, h.consistent, h.complete, h.ledger, h.ledger'.of_sameSize rfl h.ledger'.total
    h.ledger'.revocations (.refl _) (.refl _) (fun _ => .refl _) (fun _ => .refl _), h.tracked,
    h.share, h.agentShare, h.total, h.agents⟩

/-- An admitted object of the other budget. -/
theorem charged_other (h : Shadow kind st st') {free : Option Nat} {agent : String} {bytes : Nat}
    {revocation : Bool} {current : ObjectUsage}
    (hadm : Admitted st free agent bytes revocation current) (hother : revocation ≠ kind) :
    Shadow kind (st.charged agent bytes revocation) st' := by
  obtain ⟨hlimits, hconsistent, hcomplete, htotal, hagents⟩ := st.charged_frame agent bytes revocation
  have hshare := h.ledger.share_charged hadm kind
  rw [if_neg hother] at hshare
  refine ⟨h.limits.trans hlimits.symm, hconsistent ▸ h.consistent, hcomplete ▸ h.complete,
    h.ledger.charged hadm, h.ledger', fun a => ?_, h.share.trans hshare.symm, fun a => ?_, ?_,
    fun a => ?_⟩
  · rw [mem_charged hadm.mem]
    exact h.tracked a
  · have hagent := h.ledger.agentShare_charged hadm kind a
    rw [if_neg fun h => hother h.1] at hagent
    exact (h.agentShare a).trans hagent.symm
  · rw [htotal]
    exact h.total.grow bytes
  · rw [hagents, valueAt_bump]
    split
    · exact (h.agents a).grow bytes
    · exact h.agents a

/-- An admitted object of the budget, in both runs. -/
theorem charged_both (h : Shadow kind st st') {free free' : Option Nat} {agent : String}
    {bytes : Nat} {current current' : ObjectUsage} (hadm : Admitted st free agent bytes kind current)
    (hadm' : Admitted st' free' agent bytes kind current') :
    Shadow kind (st.charged agent bytes kind) (st'.charged agent bytes kind) := by
  obtain ⟨hlimits, hconsistent, hcomplete, htotal, hagents⟩ := st.charged_frame agent bytes kind
  obtain ⟨hlimits', hconsistent', hcomplete', htotal', hagents'⟩ :=
    st'.charged_frame agent bytes kind
  have hgrown : ∀ {u v : ObjectUsage}, SameSize u v → SameSize (grown bytes u) (grown bytes v) :=
    fun h => ⟨congrArg (· + bytes) h.1, congrArg (· + 1) h.2⟩
  refine ⟨hlimits'.trans (h.limits.trans hlimits.symm), ⟨hconsistent ▸ h.consistent.1,
    hconsistent' ▸ h.consistent.2⟩, ⟨hcomplete ▸ h.complete.1, hcomplete' ▸ h.complete.2⟩,
    h.ledger.charged hadm, h.ledger'.charged hadm', fun a => ?_, ?_, fun a => ?_, ?_, fun a => ?_⟩
  · rw [mem_charged hadm.mem, mem_charged hadm'.mem]
    exact h.tracked a
  · have h₁ := h.ledger.share_charged hadm kind
    have h₂ := h.ledger'.share_charged hadm' kind
    rw [if_pos rfl] at h₁ h₂
    exact (h₂.trans (hgrown h.share)).trans h₁.symm
  · have h₁ := h.ledger.agentShare_charged hadm kind a
    have h₂ := h.ledger'.agentShare_charged hadm' kind a
    by_cases ha : a = agent
    · rw [if_pos ⟨rfl, ha⟩] at h₁ h₂
      exact (h₂.trans (hgrown (h.agentShare a))).trans h₁.symm
    · rw [if_neg fun h => ha h.2] at h₁ h₂
      exact (h₂.trans (h.agentShare a)).trans h₁.symm
  · rw [htotal, htotal']
    exact h.total.grow_both bytes
  · rw [hagents, hagents', valueAt_bump, valueAt_bump]
    split
    · exact (h.agents a).grow_both bytes
    · exact h.agents a

/-- A reservation of the other budget, made by the first run only. -/
theorem step_other (h : Shadow kind st st') (henabled : st.revocationEnabled = true)
    (hother : a.1.revocation ≠ kind) : Shadow kind (st.attempt a).2 st' := by
  unfold attempt
  obtain ⟨e, he⟩ | ⟨current, hadm, hok⟩ :=
    st.reserveFor_cases a.2 a.1.agent a.1.bytes a.1.revocation
  · rw [he]
    exact h.rejected _
  · rw [hok]
    rw [henabled, Bool.and_true] at hadm ⊢
    exact h.charged_other hadm hother

/-- The answers to a reservation of the budget, whatever the readings of the free space are. -/
theorem answer (h : Shadow kind st st') (henabled : st.revocationEnabled = true)
    {free : Option Nat} (hkind : a.1.revocation = kind) (hspace : st.HasSpace a)
    (hspace' : st.HasSpace (a.1, free)) (hfits : (st.attempt a).1 ≠ overflow) :
    (st'.attempt (a.1, free)).1 = (st.attempt a).1 := by
  obtain ⟨⟨agent, bytes, revocation⟩, free₀⟩ := a
  dsimp only at hkind
  subst hkind
  simp only [HasSpace] at hspace hspace'
  have hspace'' : st'.floorBlocked free bytes revocation = false := by
    rw [floorBlocked_congr h.limits]
    exact hspace'
  simp only [attempt, reserveFor_answer, h.enabled, henabled, Bool.and_true] at hfits ⊢
  rcases hagent : st.agents.lookup agent with _ | current
  · -- Neither run knows the agent.
    have hagent' : st'.agents.lookup agent = none := by
      rw [AList.lookup_eq_none] at hagent ⊢
      rw [h.tracked]
      exact hagent
    rw [admits_untracked h.consistent.1 h.complete.1 hagent,
      admits_untracked h.consistent.2 h.complete.2 hagent']
  · have hmem : agent ∈ st'.agents := by
      rw [h.tracked, ← AList.lookup_isSome, hagent]
      rfl
    rw [← AList.lookup_isSome, Option.isSome_iff_exists] at hmem
    obtain ⟨current', hagent'⟩ := hmem
    have hlimits : (st'.budget agent current' revocation).globalBytes =
        (st.budget agent current revocation).globalBytes ∧
        (st'.budget agent current' revocation).globalObjects =
          (st.budget agent current revocation).globalObjects ∧
        (st'.budget agent current' revocation).agentLimit =
          (st.budget agent current revocation).agentLimit := by
      unfold budget agentLimit
      rw [h.limits]
      cases revocation <;> exact ⟨rfl, rfl, rfl⟩
    rw [admits_answer h.consistent.1 h.complete.1 hagent hspace] at hfits ⊢
    rw [admits_answer h.consistent.2 h.complete.2 hagent' hspace'', hlimits.1, hlimits.2.1,
      hlimits.2.2, h.share.exceeds, (h.agentShare agent).exceeds]
    split
    · rfl
    split
    · rfl
    -- The totals of the second run are smaller, so they overflow less.
    next hglobal hlocal =>
    rw [if_neg hglobal, if_neg hlocal] at hfits
    have hadd : (st.addUsage agent bytes).1 = .ok () := by
      by_contra hno
      exact hfits (if_neg hno)
    have hadd' : (st'.addUsage agent bytes).1 = .ok () := by
      obtain ⟨e, he⟩ | ⟨c, hc, htb, hto, hcb, hco, -⟩ := st.addUsage_cases agent bytes
      · rw [he] at hadd
        cases hadd
      rw [hagent, Option.some.injEq] at hc
      subst hc
      obtain ⟨hb, ho⟩ := h.total
      obtain ⟨hab, hao⟩ := h.agents agent
      simp only [valueAt, hagent, hagent', Option.getD_some] at hab hao
      exact addUsage_fits hagent' (by omega) (by omega) (by omega) (by omega)
    rw [if_pos hadd, if_pos hadd']

/-- A reservation of the budget, made by both runs. -/
theorem step_same (h : Shadow kind st st') (henabled : st.revocationEnabled = true)
    {free : Option Nat} (hkind : a.1.revocation = kind) (hspace : st.HasSpace a)
    (hspace' : st.HasSpace (a.1, free)) (hfits : (st.attempt a).1 ≠ overflow) :
    Shadow kind (st.attempt a).2 (st'.attempt (a.1, free)).2 := by
  have hanswer := h.answer henabled hkind hspace hspace' hfits
  have henabled' := h.enabled.trans henabled
  unfold attempt at hanswer ⊢
  obtain ⟨e, he⟩ | ⟨current, hadm, hok⟩ :=
    st.reserveFor_cases a.2 a.1.agent a.1.bytes a.1.revocation <;>
  obtain ⟨e', he'⟩ | ⟨current', hadm', hok'⟩ :=
    st'.reserveFor_cases free a.1.agent a.1.bytes a.1.revocation
  · rw [he, he']
    exact (h.rejected _).rejected' _
  · rw [he, hok'] at hanswer
    cases hanswer
  · rw [hok, he'] at hanswer
    cases hanswer
  · rw [henabled, Bool.and_true, hkind] at hadm
    rw [henabled', Bool.and_true, hkind] at hadm'
    rw [hok, hok', henabled, henabled', Bool.and_true, hkind]
    exact h.charged_both hadm hadm'

/-- The answers that both runs get. -/
theorem outcomes (h : Shadow kind st st') (henabled : st.revocationEnabled = true)
    {xs ys : List (Reservation × Option Nat)}
    (hys : ys.map Prod.fst = (xs.map Prod.fst).filter fun r => r.revocation = kind)
    (hspace : ∀ a ∈ xs ++ ys, st.HasSpace a)
    (hfits : overflow ∉ CapacityState.outcomes st xs) :
    CapacityState.outcomes st' ys =
      ((xs.zip (CapacityState.outcomes st xs)).filter fun p => p.1.1.revocation = kind).map
        Prod.snd := by
  induction xs generalizing st st' ys with
  | nil =>
    obtain rfl : ys = [] := by simpa using hys
    rfl
  | cons a xs ih =>
    rw [CapacityState.outcomes, List.mem_cons, not_or] at hfits
    have hlimits := st.attempt_limits a
    have henabled₁ : (st.attempt a).2.revocationEnabled = true := by
      rw [revocationEnabled, hlimits]
      exact henabled
    have hspace₁ : ∀ b, st.HasSpace b → (st.attempt a).2.HasSpace b := fun b hb =>
      (floorBlocked_congr hlimits b.2 b.1.bytes b.1.revocation).trans hb
    by_cases hkind : a.1.revocation = kind
    · -- Both runs make this reservation, with readings of their own.
      rw [List.map_cons, List.filter_cons_of_pos (by simpa using hkind)] at hys
      obtain ⟨⟨r, free⟩, ys, rfl, hr, hrest⟩ := List.map_eq_cons_iff.1 hys
      dsimp only at hr
      subst hr
      have hspace₀ := hspace a (by simp)
      have hspace₀' := hspace (a.1, free) (by simp)
      have hanswer := h.answer henabled hkind hspace₀ hspace₀' (Ne.symm hfits.1)
      have hstep := h.step_same henabled hkind hspace₀ hspace₀' (Ne.symm hfits.1)
      have htail := ih hstep henabled₁ hrest (fun b hb => hspace₁ b (hspace b (by
        rcases List.mem_append.1 hb with hb | hb <;> simp [hb]))) hfits.2
      rw [CapacityState.outcomes, CapacityState.outcomes, List.zip_cons_cons,
        List.filter_cons_of_pos (by simpa using hkind), List.map_cons, hanswer, htail]
    · rw [List.map_cons, List.filter_cons_of_neg (by simpa using hkind)] at hys
      have hrest := ih (h.step_other henabled hkind) henabled₁ hys (fun b hb => hspace₁ b (hspace b (by
        rcases List.mem_append.1 hb with hb | hb <;> simp [hb]))) hfits.2
      rw [CapacityState.outcomes, List.zip_cons_cons,
        List.filter_cons_of_neg (by simpa using hkind), hrest]

end Shadow

/-- A state is its own shadow. -/
theorem Ledger.shadow {st : CapacityState} (h : Ledger st) (kind : Bool)
    (hconsistent : st.storageConsistent = true) (hcomplete : st.reconstructionComplete = true) :
    Shadow kind st st :=
  ⟨rfl, ⟨hconsistent, hconsistent⟩, ⟨hcomplete, hcomplete⟩, h, h, fun _ => Iff.rfl, .refl _,
    fun _ => .refl _, ⟨le_rfl, le_rfl⟩, fun _ => ⟨le_rfl, le_rfl⟩⟩

/-- From any state that calls reach from an empty start, while the budget for revocations is enabled,
the storage is consistent and the file system has space: leaving out the reservations of the other
budget does not change the answers to those of the one, as long as no counter overflows. -/
theorem budget_separation {limits : CapacityConfig} {agents : List String} {st₀ : CapacityState}
    (h : prepare limits agents = .ok st₀) (ops : List QuotaOp)
    (henabled : (st₀.run ops).revocationEnabled = true)
    (hconsistent : (st₀.run ops).storageConsistent = true)
    (hcomplete : (st₀.run ops).reconstructionComplete = true) (kind : Bool)
    {xs ys : List (Reservation × Option Nat)}
    (hys : ys.map Prod.fst = (xs.map Prod.fst).filter fun r => r.revocation = kind)
    (hspace : ∀ a ∈ xs ++ ys, (st₀.run ops).HasSpace a)
    (hfits : overflow ∉ (st₀.run ops).outcomes xs) :
    (st₀.run ops).outcomes ys =
      ((xs.zip ((st₀.run ops).outcomes xs)).filter fun p => p.1.1.revocation = kind).map Prod.snd :=
  ((run_ledger ops (prepare_ledger h)).shadow kind hconsistent hcomplete).outcomes henabled hys hspace
    hfits

/-- One revocation between two uploads. -/
def sampleAttempts : List (Reservation × Option Nat) :=
  [(⟨"a", 5, false⟩, some u64Max), (⟨"a", 7, true⟩, some u64Max), (⟨"a", 2000, false⟩, some u64Max)]

/-- The default limits, with one agent. -/
def sampleLedger : CapacityState :=
  { blank {} with agents := (∅ : Map String ObjectUsage).insert "a" default }

theorem budget_separation_one_revocation :
    sampleLedger.outcomes [(⟨"a", 7, true⟩, some u64Max)] =
      ((sampleAttempts.zip (sampleLedger.outcomes sampleAttempts)).filter
        fun p => p.1.1.revocation = true).map Prod.snd :=
  budget_separation (rfl : prepare {} ["a"] = .ok sampleLedger) [] (by decide) (by decide)
    (by decide) true (by decide) (by simp only [HasSpace]; decide) (by decide)

end CapacityState

end Argos.Vault
