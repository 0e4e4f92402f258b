import Argos.Recovery.Runs

/-!
# The ledger of incident retention

`Booked` is what the tables of an index say of each other: an active reference has its version, there
is one active reference of an incident to a version, the audit has one entry for every reference that
was made and one for every reference that was released, and a release has an approval by another
person. Every statement that changes the tables keeps it, so it holds after every transaction.
-/

namespace Argos.Recovery

open Argos.Lib
open Argos.Vault (exists_unit_iff)

/-- Two indexes with the same tables, up to the count of files that were too large. -/
def SameTables (index index' : Index) : Prop :=
  index' = { index with oversizedSkips := index'.oversizedSkips }

theorem SameTables.refl (index : Index) : SameTables index index := rfl

/-- The entries of the audit for a reference and an action. -/
def Index.entries (index : Index) (pinId : Int) (action : AuditAction) : List RetentionAuditEntry :=
  index.audit.filter fun entry => entry.pinId = pinId ∧ entry.action = action

/-- An entry of the audit names the incident and the version of a reference. -/
structure RetentionAuditEntry.About (entry : RetentionAuditEntry) (pin : RetentionPin) : Prop where
  incident : entry.incidentId = pin.incidentId
  version : entry.versionId = pin.versionId
  path : entry.path = pin.path
  hash : entry.hash = pin.hash

/-- A reference is released with an approval of another person, and the audit says so once. -/
structure ReleasedOnce (index : Index) (pin : RetentionPin) (approvalId : String) : Prop where
  entry : ∃ entry, index.entries pin.id .released = [entry] ∧ entry.About pin ∧
    entry.approvalId = some approvalId ∧ entry.actor ≠ pin.actor ∧
    ∃ row ∈ index.approvals, row.approvalId = approvalId ∧ row.approver = entry.actor
  recorded : pin.releaseApprovalId = some approvalId

/-- What the audit says of a reference. -/
structure Audited (index : Index) (pin : RetentionPin) : Prop where
  pinned : ∃ entry, index.entries pin.id .pinned = [entry] ∧ entry.About pin
  active : pin.active → index.entries pin.id .released = [] ∧ pin.releaseApprovalId = none
  released : ¬ pin.active → ∃ approvalId, ReleasedOnce index pin approvalId

/-- The tables are in order. -/
structure Booked (index : Index) : Prop where
  versionIds : (index.versions.map (·.id)).Nodup
  versionBound : ∀ v ∈ index.versions, v.id ≤ index.lastVersion
  pinIds : (index.pins.map (·.id)).Nodup
  pinBound : ∀ pin ∈ index.pins, pin.id ≤ index.lastPin
  approvalIds : (index.approvals.map (·.approvalId)).Nodup
  kept : ∀ pin ∈ index.pins, pin.active →
    ∃ v ∈ index.versions, v.id = pin.versionId ∧ v.path = pin.path ∧ v.hash = pin.hash
  single : ∀ p ∈ index.pins, ∀ q ∈ index.pins, p.active → q.active →
    p.incidentId = q.incidentId → p.versionId = q.versionId → p = q
  owned : ∀ entry ∈ index.audit, ∃ pin ∈ index.pins, pin.id = entry.pinId
  audited : ∀ pin ∈ index.pins, Audited index pin

section Booked

variable {index index' : Index}

theorem Booked.of_sameTables (h : Booked index) (hsame : SameTables index index') : Booked index' := by
  rw [hsame]
  exact { h with audited := fun pin hpin => { h.audited pin hpin with
    released := fun hreleased => by
      obtain ⟨a, ha⟩ := (h.audited pin hpin).released hreleased
      exact ⟨a, ha.entry, ha.recorded⟩ } }

theorem nextId_ok {last id : Nat} (h : nextId last = .ok id) : id = last + 1 := by
  unfold nextId at h
  split at h
  · exact (Except.ok.inj h).symm
  · cases h

/-- Changes of the versions that keep every version with an active reference. -/
theorem Booked.of_versions {versions : List BackupVersion} {last : Nat} (h : Booked index)
    (hids : (versions.map (·.id)).Nodup) (hbound : ∀ v ∈ versions, v.id ≤ last)
    (hkept : ∀ pin ∈ index.pins, pin.active →
      ∃ v ∈ versions, v.id = pin.versionId ∧ v.path = pin.path ∧ v.hash = pin.hash) :
    Booked { index with versions := versions, lastVersion := last } :=
  { versionIds := hids
    versionBound := hbound
    pinIds := h.pinIds
    pinBound := h.pinBound
    approvalIds := h.approvalIds
    kept := hkept
    single := h.single
    owned := h.owned
    audited := fun pin hpin => by
      obtain ⟨hpinned, hactive, hreleased⟩ := h.audited pin hpin
      refine ⟨hpinned, hactive, fun hnot => ?_⟩
      obtain ⟨a, ha⟩ := hreleased hnot
      exact ⟨a, ha.entry, ha.recorded⟩ }

/-- A new version. -/
theorem Booked.insertVersion {path hash : String} {size pid : Nat} {timestampMs : Int}
    (h : Booked index) (hins : index.insertVersion path hash size timestampMs pid = .ok index') :
    Booked index' := by
  unfold Index.insertVersion at hins
  rw [Prog.answer_bind_iff] at hins
  obtain ⟨id, hid, hins⟩ := hins
  have hid := nextId_ok hid
  rw [← Except.ok.inj hins]
  refine h.of_versions ?_ ?_ ?_
  · -- The new number is beyond all others.
    rw [List.map_append, List.nodup_append]
    refine ⟨h.versionIds, by simp, fun a ha b hb => ?_⟩
    obtain ⟨v, hv, rfl⟩ := List.mem_map.1 ha
    have := h.versionBound v hv
    simp only [List.map_cons, List.map_nil, List.mem_singleton] at hb
    omega
  · intro v hv
    rcases List.mem_append.1 hv with hv | hv
    · have := h.versionBound v hv
      omega
    · rw [List.mem_singleton.1 hv]
  · intro pin hpin hactive
    obtain ⟨v, hv, hrest⟩ := h.kept pin hpin hactive
    exact ⟨v, List.mem_append_left _ hv, hrest⟩

/-- A version that an active reference keeps is not pruned. -/
theorem Index.not_prunable {keep : Nat} {pin : RetentionPin} {v : BackupVersion}
    (hpin : pin ∈ index.pins) (hactive : pin.active) (hv : v.id = pin.versionId) :
    index.prunable keep v = false := by
  have hpinned : index.pinned v.id = true := by
    rw [Index.pinned, List.any_eq_true]
    exact ⟨pin, hpin, by simp [hv, hactive]⟩
  simp [Index.prunable, hpinned]

theorem Booked.pruned (h : Booked index) (keep : Nat) : Booked (index.pruned keep) := by
  refine h.of_versions ?_ ?_ ?_
  · exact h.versionIds.sublist (List.filter_sublist.map _)
  · exact fun v hv => h.versionBound v (List.mem_of_mem_filter hv)
  · intro pin hpin hactive
    obtain ⟨v, hv, hid, hrest⟩ := h.kept pin hpin hactive
    exact ⟨v, List.mem_filter.2 ⟨hv, by simp [Index.not_prunable hpin hactive hid]⟩, hid, hrest⟩

/-- A verdict changes neither the number nor the content of a version. -/
theorem Booked.judge (h : Booked index) (id : Int) (good : Bool) (note : String) :
    Booked (index.judge id good note) := by
  refine h.of_versions ?_ ?_ ?_
  · have hsame : (index.versions.map fun v =>
        if v.id = id then { v with knownGood := good, trustNote := some note } else v).map (·.id) =
        index.versions.map (·.id) := by
      rw [List.map_map]
      refine List.map_congr_left fun v _ => ?_
      simp only [Function.comp_apply]
      split <;> rfl
    rw [hsame]
    exact h.versionIds
  · intro v hv
    obtain ⟨w, hw, rfl⟩ := List.mem_map.1 hv
    have := h.versionBound w hw
    split <;> exact this
  · intro pin hpin hactive
    obtain ⟨v, hv, hrest⟩ := h.kept pin hpin hactive
    refine ⟨_, List.mem_map_of_mem hv, ?_⟩
    split <;> exact hrest

/-- Entries of the audit that belong to another reference do not count. -/
theorem Index.entries_append {pinId : Int} {action : AuditAction} {entry : RetentionAuditEntry}
    (hother : entry.pinId ≠ pinId ∨ entry.action ≠ action) :
    (index.audit ++ [entry]).filter (fun e => e.pinId = pinId ∧ e.action = action) =
      index.entries pinId action := by
  rw [List.filter_append, List.filter_cons_of_neg]
  · simp [Index.entries]
  · rcases hother with hother | hother <;> simp [hother]

/-- The first entry for a reference and an action is the only one. -/
theorem Index.entries_append_self {pinId : Int} {action : AuditAction} {entry : RetentionAuditEntry}
    (hpin : entry.pinId = pinId) (haction : entry.action = action)
    (hempty : index.entries pinId action = []) :
    (index.audit ++ [entry]).filter (fun e => e.pinId = pinId ∧ e.action = action) = [entry] := by
  have hnone : index.audit.filter (fun e => e.pinId = pinId ∧ e.action = action) = [] := hempty
  rw [List.filter_append, hnone, List.nil_append, List.filter_cons_of_pos (by simp [hpin, haction])]
  rfl

/-- What the audit says of a reference stays when entries of others are added. -/
theorem Audited.append {pin : RetentionPin} {entry : RetentionAuditEntry}
    (h : Audited index pin) (hother : entry.pinId ≠ pin.id)
    (haudit : index'.audit = index.audit ++ [entry])
    (happrovals : index'.approvals = index.approvals) : Audited index' pin := by
  have hsame : ∀ action, index'.entries pin.id action = index.entries pin.id action := by
    intro action
    rw [Index.entries, haudit]
    exact Index.entries_append (.inl hother)
  refine ⟨?_, ?_, fun hnot => ?_⟩
  · rw [hsame]
    exact h.pinned
  · rw [hsame]
    exact h.active
  · obtain ⟨a, ha⟩ := h.released hnot
    refine ⟨a, ?_, ha.recorded⟩
    rw [hsame, happrovals]
    exact ha.entry

/-- References were made, and nothing else was changed but the audit. -/
structure Pinned (index index' : Index) : Prop where
  versions : index'.versions = index.versions
  lastVersion : index'.lastVersion = index.lastVersion
  approvals : index'.approvals = index.approvals
  origin : ∀ pin ∈ index'.pins, pin ∈ index.pins ∨ pin.releaseApprovalId = none

theorem Pinned.refl : Pinned index index := ⟨rfl, rfl, rfl, fun _ h => .inl h⟩

theorem Pinned.trans {index₁ : Index} (h : Pinned index index₁) (h' : Pinned index₁ index') :
    Pinned index index' := by
  refine ⟨h'.versions.trans h.versions, h'.lastVersion.trans h.lastVersion,
    h'.approvals.trans h.approvals, fun pin hpin => ?_⟩
  rcases h'.origin pin hpin with hpin | hpin
  · exact h.origin pin hpin
  · exact .inr hpin

/-- A new reference to a version that is there, with its entry in the audit. -/
theorem Booked.pin {version : BackupVersion} {incidentId actor reason : String} {reading : Nat}
    {pin : RetentionPin} (h : Booked index) (hv : version ∈ index.versions)
    (hpin : index.pinInTransaction version incidentId actor reason reading = .ok (pin, index')) :
    Booked index' ∧ Pinned index index' := by
  unfold Index.pinInTransaction at hpin
  split at hpin
  · -- The reference is there already.
    obtain ⟨-, rfl⟩ := Prod.mk.inj (Except.ok.inj hpin)
    exact ⟨h, .refl⟩
  next hnone =>
  simp only [Prog.answer_bind_iff, Index.insertPin, Index.appendAudit, Except.ok.injEq,
    Prod.mk.injEq] at hpin
  obtain ⟨⟨new, index₁⟩, ⟨id, hid, -, -, rfl, rfl⟩, index₂, ⟨entryId, -, rfl⟩, -, rfl⟩ := hpin
  have hid := nextId_ok hid
  have hfresh : ∀ old ∈ index.pins, old.id ≠ (id : Int) := by
    intro old hold
    have := h.pinBound old hold
    omega
  have hnoEntry : ∀ entry ∈ index.audit, entry.pinId ≠ (id : Int) := by
    intro entry hentry heq
    obtain ⟨old, hold, hid⟩ := h.owned entry hentry
    exact hfresh old hold (hid.trans heq)
  have hnoneActive : ∀ old ∈ index.pins, old.active → old.incidentId = incidentId →
      old.versionId ≠ version.id := by
    intro old hold hactive hincident hversion
    have := List.find?_eq_none.1 hnone old hold
    simp [hactive, hincident, hversion] at this
  refine ⟨⟨h.versionIds, h.versionBound, ?_, ?_, h.approvalIds, ?_, ?_, ?_, ?_⟩,
    ⟨rfl, rfl, rfl, ?_⟩⟩
  · rw [List.map_append, List.nodup_append]
    refine ⟨h.pinIds, by simp, fun a ha b hb => ?_⟩
    obtain ⟨old, hold, rfl⟩ := List.mem_map.1 ha
    simp only [List.map_cons, List.map_nil, List.mem_singleton] at hb
    rw [hb]
    exact hfresh old hold
  · intro old hold
    rcases List.mem_append.1 hold with hold | hold
    · have := h.pinBound old hold
      show old.id ≤ (id : Int)
      omega
    · rw [List.mem_singleton.1 hold]
  · intro old hold hactive
    rcases List.mem_append.1 hold with hold | hold
    · exact h.kept old hold hactive
    · rw [List.mem_singleton.1 hold]
      exact ⟨version, hv, rfl, rfl, rfl⟩
  · intro p hp q hq hpa hqa hincident hversion
    rcases List.mem_append.1 hp with hp | hp
    · rcases List.mem_append.1 hq with hq | hq
      · exact h.single p hp q hq hpa hqa hincident hversion
      · rw [List.mem_singleton.1 hq] at hincident hversion
        exact absurd hversion (hnoneActive p hp hpa hincident)
    · rcases List.mem_append.1 hq with hq | hq
      · rw [List.mem_singleton.1 hp] at hincident hversion
        exact absurd hversion.symm (hnoneActive q hq hqa hincident.symm)
      · rw [List.mem_singleton.1 hp, List.mem_singleton.1 hq]
  · intro entry hentry
    rcases List.mem_append.1 hentry with hentry | hentry
    · obtain ⟨old, hold, hid⟩ := h.owned entry hentry
      exact ⟨old, List.mem_append_left _ hold, hid⟩
    · rw [List.mem_singleton.1 hentry]
      exact ⟨_, List.mem_append_right _ (List.mem_singleton_self _), rfl⟩
  · intro old hold
    rcases List.mem_append.1 hold with hold | hold
    · exact (h.audited old hold).append (fun heq => hfresh old hold heq.symm) rfl rfl
    · rw [List.mem_singleton.1 hold]
      have hempty : ∀ action, index.entries id action = [] := by
        intro action
        rw [Index.entries, List.filter_eq_nil_iff]
        intro entry hentry
        simp [hnoEntry entry hentry]
      refine ⟨⟨_, Index.entries_append_self rfl rfl (hempty .pinned), ⟨rfl, rfl, rfl, rfl⟩⟩,
        fun _ => ⟨?_, rfl⟩, fun hnot => absurd rfl hnot⟩
      refine Eq.trans (Index.entries_append (.inr ?_)) (hempty .released)
      simp
  · intro old hold
    rcases List.mem_append.1 hold with hold | hold
    · exact .inl hold
    · rw [List.mem_singleton.1 hold]
      exact .inr rfl

theorem Booked.pinEach {incidentId actor reason : String} {clock : Nat → Nat}
    {versions : List BackupVersion} {i : Nat} {pins : List RetentionPin} (h : Booked index)
    (hversions : ∀ v ∈ versions, v ∈ index.versions)
    (hpins : Index.pinEach incidentId actor reason clock versions i index = .ok (pins, index')) :
    Booked index' ∧ Pinned index index' := by
  induction versions generalizing i index pins with
  | nil =>
    obtain ⟨-, rfl⟩ := Prod.mk.inj (Except.ok.inj hpins)
    exact ⟨h, .refl⟩
  | cons version rest ih =>
    simp only [Index.pinEach, Prog.answer_bind_iff, Except.ok.injEq, Prod.mk.injEq] at hpins
    obtain ⟨⟨pin, index₁⟩, hpin, ⟨pins', index₂⟩, hrest, -, rfl⟩ := hpins
    obtain ⟨hbooked, hpinned⟩ := h.pin (hversions version (by simp)) hpin
    have hrest' : ∀ v ∈ rest, v ∈ index₁.versions := by
      intro v hv
      rw [hpinned.versions]
      exact hversions v (List.mem_cons_of_mem _ hv)
    obtain ⟨hbooked', hpinned'⟩ := ih hbooked hrest' hrest
    exact ⟨hbooked', hpinned.trans hpinned'⟩

/-! ## Releases -/

/-- An approval that was not used before. -/
theorem Booked.approve {pins : List RetentionPin} {approval : ReleaseApproval} {reading : Nat}
    (h : Booked index) (hrec : index.recordApproval pins approval reading = .ok index') :
    Booked index' ∧ (∀ pin ∈ pins, pin.actor ≠ trim approval.approver) ∧
      approval.approvalId ∉ index.approvals.map (·.approvalId) ∧
      index' = { index with
        approvals := index.approvals ++
          [⟨approval.approvalId, trim approval.approver, trim approval.reason, nowMs reading⟩] } := by
  unfold Index.recordApproval at hrec
  rw [Prog.answer_bind_iff, exists_unit_iff] at hrec
  obtain ⟨hmapped, hrec⟩ := hrec
  have hcheck : index.checkApproval pins approval = .ok () := by
    rcases hc : index.checkApproval pins approval with e | u
    · rw [hc] at hmapped
      cases hmapped
    · rfl
  simp only [Index.checkApproval, Prog.answer_bind_iff, exists_unit_iff] at hcheck
  obtain ⟨-, -, -, hactor, hunused⟩ := hcheck
  simp only [refuse_ok_iff, List.any_eq_false, decide_eq_true_eq] at hactor hunused
  have hnew : approval.approvalId ∉ index.approvals.map (·.approvalId) := by
    intro hmem
    obtain ⟨row, hrow, heq⟩ := List.mem_map.1 hmem
    exact hunused row hrow heq
  have heq := (Except.ok.inj hrec).symm
  refine ⟨?_, hactor, hnew, heq⟩
  rw [heq]
  refine { h with approvalIds := ?_, audited := fun pin hpin => ?_ }
  · rw [List.map_append]
    exact h.approvalIds.append (by simp) (by simpa using hnew)
  · obtain ⟨hpinned, hactive, hreleased⟩ := h.audited pin hpin
    refine ⟨hpinned, hactive, fun hnot => ?_⟩
    obtain ⟨a, ⟨entry, hentry, habout, hid, hactor, row, hrow, hrest⟩, hrecorded⟩ := hreleased hnot
    exact ⟨a, ⟨entry, hentry, habout, hid, hactor, row, List.mem_append_left _ hrow, hrest⟩,
      hrecorded⟩

/-- The references of some numbers were released with an approval, and nothing else was changed but
the audit. -/
structure Released (index index' : Index) (ids : List Int) (approvalId : String) : Prop where
  versions : index'.versions = index.versions
  lastVersion : index'.lastVersion = index.lastVersion
  approvals : index'.approvals = index.approvals
  others : ∀ pin ∈ index.pins, pin.id ∉ ids → pin ∈ index'.pins
  origin : ∀ pin ∈ index'.pins, pin ∈ index.pins ∨
    (pin.id ∈ ids ∧ pin.releaseApprovalId = some approvalId)

/-- A reference has one row. -/
theorem Booked.pin_eq (h : Booked index) {p q : RetentionPin} (hp : p ∈ index.pins)
    (hq : q ∈ index.pins) (hid : p.id = q.id) : p = q := List.inj_on_of_nodup_map h.pinIds hp hq hid

/-- The release of one active reference, with an approval by another person that was recorded. -/
theorem Booked.release {pin pin' : RetentionPin} {approval : ReleaseApproval} {reading : Nat}
    (h : Booked index) (hpin : pin ∈ index.pins) (hactive : pin.active)
    (hactor : pin.actor ≠ trim approval.approver)
    (hrow : ∃ row ∈ index.approvals, row.approvalId = approval.approvalId ∧
      row.approver = trim approval.approver)
    (hrel : index.releaseInTransaction pin approval reading = .ok (pin', index')) :
    Booked index' ∧ Released index index' [pin.id] approval.approvalId ∧ pin'.id = pin.id := by
  simp only [Index.releaseInTransaction, Index.appendAudit, Prog.answer_bind_iff, Except.ok.injEq,
    Prod.mk.injEq] at hrel
  obtain ⟨index₁, ⟨entryId, -, rfl⟩, got, hgot, rfl, rfl⟩ := hrel
  set update : RetentionPin → RetentionPin := fun q =>
    if q.id = pin.id ∧ q.active then Index.released approval (nowMs reading) q else q with hupdate
  -- The update changes the one row and none of its columns that others refer to.
  have hother : ∀ q ∈ index.pins, q.id ≠ pin.id → update q = q := by
    intro q _ hne
    simp [hupdate, hne]
  have hself : update pin = Index.released approval (nowMs reading) pin := by simp [hupdate, hactive]
  have hid : ∀ q, (update q).id = q.id := by
    intro q
    simp only [hupdate]
    split <;> rfl
  have hmap : (index.updateReleased pin.id approval (nowMs reading)).pins = index.pins.map update :=
    rfl
  have hmem : ∀ q' ∈ index.pins.map update, (q' ∈ index.pins ∧ q'.id ≠ pin.id) ∨
      q' = Index.released approval (nowMs reading) pin := by
    intro q' hq'
    obtain ⟨q, hq, rfl⟩ := List.mem_map.1 hq'
    by_cases heq : q.id = pin.id
    · rw [h.pin_eq hq hpin heq, hself]
      exact .inr rfl
    · rw [hother q hq heq]
      exact .inl ⟨hq, heq⟩
  have hnotActive : (Index.released approval (nowMs reading) pin).active = false := rfl
  refine ⟨⟨h.versionIds, h.versionBound, ?_, ?_, h.approvalIds, ?_, ?_, ?_, ?_⟩,
    ⟨rfl, rfl, rfl, ?_, ?_⟩, ?_⟩
  · show ((index.pins.map update).map (·.id)).Nodup
    have hids : (index.pins.map update).map (·.id) = index.pins.map (·.id) := by
      rw [List.map_map]
      exact List.map_congr_left fun q _ => hid q
    rw [hids]
    exact h.pinIds
  · intro q' hq'
    obtain ⟨q, hq, rfl⟩ := List.mem_map.1 hq'
    rw [hid]
    exact h.pinBound q hq
  · intro q' hq' hact
    rcases hmem q' hq' with ⟨hq, -⟩ | rfl
    · exact h.kept q' hq hact
    · rw [hnotActive] at hact
      cases hact
  · intro p hp q hq hpa hqa
    rcases hmem p hp with ⟨hp, -⟩ | rfl
    · rcases hmem q hq with ⟨hq, -⟩ | rfl
      · exact h.single p hp q hq hpa hqa
      · rw [hnotActive] at hqa
        cases hqa
    · rw [hnotActive] at hpa
      cases hpa
  · intro entry hentry
    rcases List.mem_append.1 hentry with hentry | hentry
    · obtain ⟨q, hq, hqid⟩ := h.owned entry hentry
      exact ⟨update q, List.mem_map_of_mem hq, (hid q).trans hqid⟩
    · rw [List.mem_singleton.1 hentry]
      exact ⟨update pin, List.mem_map_of_mem hpin, hid pin⟩
  · intro q' hq'
    rcases hmem q' hq' with ⟨hq, hne⟩ | rfl
    · exact (h.audited q' hq).append (fun heq => hne heq.symm) rfl rfl
    · -- The audit had no release of the reference, and now has one.
      obtain ⟨hpinned, hnone, -⟩ := h.audited pin hpin
      obtain ⟨hempty, -⟩ := hnone hactive
      refine ⟨?_, fun hact => absurd hact (by simp [hnotActive]), fun _ =>
        ⟨approval.approvalId, ⟨⟨entryId, pin.id, pin.incidentId, pin.versionId, pin.path, pin.hash,
          .released, trim approval.approver, trim approval.reason, nowMs reading,
          some approval.approvalId⟩, ?_, ⟨rfl, rfl, rfl, rfl⟩, rfl, hactor.symm, hrow⟩, rfl⟩⟩
      · obtain ⟨entry, hentry, habout⟩ := hpinned
        refine ⟨entry, ?_, ⟨habout.incident, habout.version, habout.path, habout.hash⟩⟩
        rw [← hentry]
        exact Index.entries_append (.inr (by simp))
      · exact Index.entries_append_self rfl rfl hempty
  · intro q hq hne
    exact List.mem_map.2 ⟨q, hq, hother q hq (by simpa using hne)⟩
  · intro q' hq'
    rcases hmem q' hq' with ⟨hq, -⟩ | rfl
    · exact .inl hq
    · exact .inr ⟨by simp [Index.released], rfl⟩
  · unfold Index.getPin at hgot
    split at hgot
    next found hfound =>
      have := List.find?_some hfound
      rw [← Except.ok.inj hgot]
      simpa using this
    · cases hgot

/-- The releases of a list of active references under one approval. -/
theorem Booked.releaseEach {approval : ReleaseApproval} {clock : Nat → Nat}
    {pins pins' : List RetentionPin} {i : Nat} (h : Booked index)
    (hpins : ∀ pin ∈ pins, pin ∈ index.pins ∧ pin.active ∧ pin.actor ≠ trim approval.approver)
    (hnodup : (pins.map (·.id)).Nodup)
    (hrow : ∃ row ∈ index.approvals, row.approvalId = approval.approvalId ∧
      row.approver = trim approval.approver)
    (hrel : Index.releaseEach approval clock pins i index = .ok (pins', index')) :
    Booked index' ∧ Released index index' (pins.map (·.id)) approval.approvalId ∧
      pins'.map (·.id) = pins.map (·.id) := by
  induction pins generalizing i index pins' with
  | nil =>
    obtain ⟨rfl, rfl⟩ := Prod.mk.inj (Except.ok.inj hrel)
    exact ⟨h, ⟨rfl, rfl, rfl, fun pin hpin _ => hpin, fun pin hpin => .inl hpin⟩, rfl⟩
  | cons pin rest ih =>
    simp only [Index.releaseEach, Prog.answer_bind_iff, Except.ok.injEq, Prod.mk.injEq] at hrel
    obtain ⟨⟨pin', index₁⟩, hone, ⟨rest', index₂⟩, hrest, rfl, rfl⟩ := hrel
    obtain ⟨hpin, hactive, hactor⟩ := hpins pin (by simp)
    obtain ⟨hbooked, hfirst, hid⟩ := h.release hpin hactive hactor hrow hone
    rw [List.map_cons, List.nodup_cons] at hnodup
    -- The others are still there.
    have hpins₁ : ∀ q ∈ rest, q ∈ index₁.pins ∧ q.active ∧ q.actor ≠ trim approval.approver := by
      intro q hq
      obtain ⟨hmem, hrest⟩ := hpins q (List.mem_cons_of_mem _ hq)
      refine ⟨hfirst.others q hmem ?_, hrest⟩
      rw [List.mem_singleton]
      intro heq
      exact hnodup.1 (heq ▸ List.mem_map_of_mem hq)
    have hrow₁ : ∃ row ∈ index₁.approvals, row.approvalId = approval.approvalId ∧
        row.approver = trim approval.approver := by
      rw [hfirst.approvals]
      exact hrow
    obtain ⟨hbooked', hlater, hids⟩ := ih hbooked hpins₁ hnodup.2 hrow₁ hrest
    refine ⟨hbooked', ⟨hlater.versions.trans hfirst.versions, hlater.lastVersion.trans
      hfirst.lastVersion, hlater.approvals.trans hfirst.approvals, ?_, ?_⟩, ?_⟩
    · intro q hq hne
      rw [List.map_cons, List.mem_cons, not_or] at hne
      exact hlater.others q (hfirst.others q hq (by simpa using hne.1)) hne.2
    · intro q hq
      rcases hlater.origin q hq with hq | ⟨hmem, ha⟩
      · rcases hfirst.origin q hq with hq | ⟨hmem, ha⟩
        · exact .inl hq
        · exact .inr ⟨by simp [List.mem_singleton.1 hmem], ha⟩
      · exact .inr ⟨List.mem_cons_of_mem _ hmem, ha⟩
    · rw [List.map_cons, List.map_cons, hid, hids]

/-- References were released with an approval that was not used before. -/
structure Approved (index index' : Index) (approval : ReleaseApproval) (pins : List RetentionPin) :
    Prop where
  booked : Booked index'
  unused : approval.approvalId ∉ index.approvals.map (·.approvalId)
  approvals : ∃ row, row.approvalId = approval.approvalId ∧
    index'.approvals = index.approvals ++ [row]
  versions : index'.versions = index.versions
  lastVersion : index'.lastVersion = index.lastVersion
  origin : ∀ pin ∈ index'.pins, pin ∈ index.pins ∨
    (pin.id ∈ pins.map (·.id) ∧ pin.releaseApprovalId = some approval.approvalId)

/-- An approval is recorded, and a list of active references is released with it. -/
theorem Booked.releaseAll {approval : ReleaseApproval} {clock : Nat → Nat} {reading i : Nat}
    {old pins : List RetentionPin} {index₁ : Index} (h : Booked index)
    (hrows : ∀ pin ∈ old, pin ∈ index.pins ∧ pin.active) (hnodup : (old.map (·.id)).Nodup)
    (hrecorded : index.recordApproval old approval reading = .ok index₁)
    (hmade : Index.releaseEach approval clock old i index₁ = .ok (pins, index')) :
    Approved index index' approval pins := by
  obtain ⟨hbooked₁, hactors, hnew, heq⟩ := h.approve hrecorded
  have hrow : ∃ row ∈ index₁.approvals, row.approvalId = approval.approvalId ∧
      row.approver = trim approval.approver := by
    rw [heq]
    exact ⟨_, List.mem_append_right _ (List.mem_singleton_self _), rfl, rfl⟩
  have hold : ∀ pin ∈ old, pin ∈ index₁.pins ∧ pin.active ∧ pin.actor ≠ trim approval.approver := by
    intro pin hpin
    rw [heq]
    exact ⟨(hrows pin hpin).1, (hrows pin hpin).2, hactors pin hpin⟩
  obtain ⟨hbooked', hreleased, hids⟩ := hbooked₁.releaseEach hold hnodup hrow hmade
  refine ⟨hbooked', hnew, ⟨_, rfl, by rw [hreleased.approvals, heq]⟩, by rw [hreleased.versions, heq],
    by rw [hreleased.lastVersion, heq], fun pin hpin => ?_⟩
  have horigin := hreleased.origin pin hpin
  rw [← hids, heq] at horigin
  exact horigin

end Booked

/-! ## Calls -/

section Calls

variable {D : Digest} {s s' : Store}

/-- A version that is found is a row. -/
theorem Index.version_mem {index : Index} {path : Path} {id : Int} {v : BackupVersion}
    (h : index.version path id = .ok v) : v ∈ index.versions := by
  unfold Index.version at h
  split at h
  next row hrow =>
    have hmem := List.mem_of_find?_eq_some hrow
    unfold Index.mapVersion at h
    split at h
    · cases h
    · rwa [← Except.ok.inj h]
  · cases h

theorem mapVersion_all {rows versions : List BackupVersion}
    (h : rows.mapM Index.mapVersion = .ok versions) : versions = rows := by
  induction rows generalizing versions with
  | nil =>
    rw [List.mapM_nil] at h
    exact (Except.ok.inj h).symm
  | cons row rest ih =>
    rw [List.mapM_cons, Prog.answer_bind_iff] at h
    obtain ⟨first, hfirst, h⟩ := h
    rw [Prog.answer_bind_iff] at h
    obtain ⟨others, hothers, h⟩ := h
    unfold Index.mapVersion at hfirst
    split at hfirst
    · cases hfirst
    · rw [← Except.ok.inj h, ← Except.ok.inj hfirst, ih hothers]

theorem Index.versionsOf_mem {index : Index} {path : Path} {versions : List BackupVersion}
    (h : index.versionsOf path = .ok versions) : ∀ v ∈ versions, v ∈ index.versions := by
  intro v hv
  rw [mapVersion_all h] at hv
  exact List.mem_of_mem_filter ((List.perm_insertionSort _ _).mem_iff.1 hv)

/-- What a call that returned did to the tables. -/
inductive Effect (index index' : Index) : Call → Reply → Prop where
  /-- A backup of what was there, or of nothing. -/
  | same {limit : Nat} {path : Path} {source : Option Source} {timestampMs pid process counter : Nat}
      {reply : Reply} (tables : SameTables index index') :
      Effect index index' (.backup limit path source timestampMs pid process counter) reply
  /-- A backup of something new. -/
  | added {limit : Nat} {path : Path} {source : Option Source}
      {timestampMs pid process counter : Nat} {reply : Reply} {hash : String} {size : Nat}
      (inserted : index.insertVersion path.text hash size (asI64 timestampMs) pid = .ok index') :
      Effect index index' (.backup limit path source timestampMs pid process counter) reply
  | pruned {keep : Nat} {listing : List String} {reply : Reply} (tables : index' = index.pruned keep) :
      Effect index index' (.prune keep listing) reply
  | pinned {call : Call} {incidentId actor reason : String} {clock : Nat → Nat}
      {versions : List BackupVersion} {i : Nat} {pins : List RetentionPin}
      (other : call.approval = none) (rows : ∀ v ∈ versions, v ∈ index.versions)
      (made : Index.pinEach incidentId actor reason clock versions i index = .ok (pins, index')) :
      Effect index index' call (.pins pins)
  | released {call : Call} {approval : ReleaseApproval} {clock : Nat → Nat} {reading i : Nat}
      {old pins : List RetentionPin} {index₁ : Index} (approved : call.approval = some approval)
      (rows : ∀ pin ∈ old, pin ∈ index.pins ∧ pin.active) (nodup : (old.map (·.id)).Nodup)
      (recorded : index.recordApproval old approval reading = .ok index₁)
      (made : Index.releaseEach approval clock old i index₁ = .ok (pins, index')) :
      Effect index index' call (.pins pins)

/-- A backup changes the tables when it returns, and then by one version. -/
theorem backup_tables {limit : Nat} {path : Path} {source : Option Source}
    {timestampMs pid process counter : Nat} :
    (backup D limit path source timestampMs pid process counter).Sat s
      (fun _ s' => SameTables s.index s'.index ∨ ∃ hash size,
        s.index.insertVersion path.text hash size (asI64 timestampMs) pid = .ok s'.index)
      (fun s' => SameTables s.index s'.index) (fun s' => SameTables s.index s'.index) := by
  unfold backup
  have hskip : ∀ e, (do recordOversizedSkip path; Prog.fail e : Op (Option String)).Sat s
      (fun _ s' => SameTables s.index s'.index ∨ ∃ hash size,
        s.index.insertVersion path.text hash size (asI64 timestampMs) pid = .ok s'.index)
      (fun s' => SameTables s.index s'.index) (fun s' => SameTables s.index s'.index) :=
    fun e => Prog.Sat.bind (Prog.Sat.atomic (Prog.Sat.fail rfl) rfl rfl)
  cases source with
  | none => exact Prog.Sat.fail rfl
  | some file =>
    refine Prog.Sat.ite (fun _ => Prog.Sat.pure (.inl rfl)) (fun _ => ?_)
    refine Prog.Sat.ite (fun _ => hskip _) (fun _ => ?_)
    cases file.content with
    | none => exact Prog.Sat.fail rfl
    | some content =>
      refine Prog.Sat.ite (fun _ => hskip _) (fun _ => ?_)
      have hplaced : ∀ {s' : Store} {data : Argos.Vault.Bytes},
          Placed (D.hash data) data (s.hashing data) s' → SameTables s.index s'.index := by
        intro s' data h
        rw [h.index]
        rfl
      refine storeVersion_sat.mono (fun reply s' h => ?_) (fun _ h => hplaced h) (fun _ h => hplaced h)
      rcases h with ⟨-, rfl, -⟩ | ⟨-, h⟩
      · exact .inl rfl
      · exact .inr ⟨_, _, h.inserted⟩

/-- Removing object files changes no table. -/
theorem removeObjects_tables {names : List String} {s₀ : Store} (h : s.index = s₀.index) :
    (removeObjects names).Sat s (fun _ s' => s'.index = s₀.index) (fun s' => s'.index = s₀.index)
      (fun s' => s'.index = s₀.index) := by
  induction names generalizing s with
  | nil => exact Prog.Sat.pure h
  | cons name rest ih => exact Prog.Sat.bind (removeFile_sat (ih h) (ih h) h)

/-- A transaction that has answered commits the tables of its answer. -/
theorem commit_sat {α : Type} {index : Index} {a : α} {Q : α → Store → Prop} {E K : Store → Prop}
    (hdone : Q a { s with index := index }) (hfail : E s) (hkill : K s) :
    (do commit index; pure a : Op α).Sat s Q E K :=
  Prog.Sat.bind (Prog.Sat.atomic (Prog.Sat.pure hdone) hfail hkill)

theorem Index.getPin_mem {index : Index} {id : Int} {pin : RetentionPin}
    (h : index.getPin id = .ok pin) : pin ∈ index.pins := by
  unfold Index.getPin at h
  split at h
  next found hfound =>
    rw [← Except.ok.inj h]
    exact List.mem_of_find?_eq_some hfound
  · cases h

/-- What a call does to the tables: one of the effects when it returns, and nothing otherwise. -/
theorem Call.effect (call : Call) (hbooked : Booked s.index) :
    (call.prog D).Sat s (fun reply s' => Effect s.index s'.index call reply)
      (fun s' => SameTables s.index s'.index) (fun s' => SameTables s.index s'.index) := by
  cases call with
  | backup limit path source timestampMs pid process counter =>
    refine Prog.Sat.bind (backup_tables.mono (fun _ s' h => Prog.Sat.pure ?_) (fun _ h => h)
      (fun _ h => h))
    rcases h with h | ⟨hash, size, h⟩
    · exact .same h
    · exact .added h
  | prune keep listing =>
    have hsame : ∀ {s' : Store}, s'.index = s.index → SameTables s.index s'.index := by
      intro s' h
      rw [h]
      rfl
    refine Prog.Sat.bind (Prog.Sat.bind (Prog.Sat.gets (Prog.Sat.bind
      ((removeObjects_tables rfl).mono (fun _ s₁ h => ?_) (fun _ h => hsame h) (fun _ h => hsame h)))))
    exact commit_sat (Prog.Sat.pure (.pruned rfl)) (hsame h) (hsame h)
  | pinVersion path versionId incidentId actor reason reading =>
    refine Prog.Sat.bind (Prog.Sat.bind (Prog.Sat.ask (fun _ _ => ?_) rfl))
    refine Prog.Sat.bind (Prog.Sat.ask (fun _ _ => ?_) rfl)
    refine Prog.Sat.bind (Prog.Sat.ask (fun answer hanswer => ?_) rfl)
    obtain ⟨pin, index⟩ := answer
    rw [Prog.answer_bind_iff] at hanswer
    obtain ⟨version, hversion, hpin⟩ := hanswer
    have hmade : Index.pinEach incidentId (trim actor) (trim reason) (fun _ => reading) [version] 0
        s.index = .ok ([pin], index) := by
      simp only [Index.pinEach, Prog.answer_bind_iff]
      exact ⟨_, hpin, _, rfl, rfl⟩
    refine commit_sat (Prog.Sat.pure (.pinned rfl (fun v hv => ?_) hmade)) rfl rfl
    rw [List.mem_singleton.1 hv]
    exact Index.version_mem hversion
  | pinKnownGoodBefore path beforeMs incidentId actor reason clock =>
    refine Prog.Sat.bind (Prog.Sat.bind (Prog.Sat.ask (fun _ _ => ?_) rfl))
    refine Prog.Sat.bind (Prog.Sat.ask (fun _ _ => ?_) rfl)
    refine Prog.Sat.bind (Prog.Sat.ask (fun answer hanswer => ?_) rfl)
    obtain ⟨pins, index⟩ := answer
    simp only [Prog.answer_bind_iff, exists_unit_iff] at hanswer
    obtain ⟨versions, hversions, -, hpins⟩ := hanswer
    refine commit_sat (Prog.Sat.pure (.pinned rfl (fun v hv => ?_) hpins)) rfl rfl
    exact Index.versionsOf_mem hversions v (List.mem_of_mem_filter hv)
  | releasePin pinId approval clock =>
    refine Prog.Sat.bind (Prog.Sat.bind (Prog.Sat.ask (fun answer hanswer => ?_) rfl))
    obtain ⟨pin', index⟩ := answer
    simp only [Prog.answer_bind_iff, exists_unit_iff, refuse_ok_iff] at hanswer
    obtain ⟨pin, hpin, hactive, index₁, hrecorded, hreleased⟩ := hanswer
    have hmade : Index.releaseEach approval clock [pin] 1 index₁ = .ok ([pin'], index) := by
      simp only [Index.releaseEach, Prog.answer_bind_iff]
      exact ⟨_, hreleased, _, rfl, rfl⟩
    refine commit_sat (Prog.Sat.pure (.released rfl (fun p hp => ?_) (by simp) hrecorded hmade)) rfl
      rfl
    rw [List.mem_singleton.1 hp]
    exact ⟨Index.getPin_mem hpin, by simpa using hactive⟩
  | releaseIncident incidentId approval clock =>
    refine Prog.Sat.bind (Prog.Sat.bind (Prog.Sat.ask (fun _ _ => ?_) rfl))
    refine Prog.Sat.bind (Prog.Sat.ask (fun answer hanswer => ?_) rfl)
    obtain ⟨pins, index⟩ := answer
    simp only [Prog.answer_bind_iff, exists_unit_iff] at hanswer
    obtain ⟨-, index₁, hrecorded, hreleased⟩ := hanswer
    refine commit_sat (Prog.Sat.pure (.released rfl ?_ ?_ hrecorded hreleased)) rfl rfl
    · intro pin hpin
      obtain ⟨hmem, hcond⟩ := List.mem_filter.1 hpin
      exact ⟨hmem, (of_decide_eq_true hcond).2⟩
    · exact hbooked.pinIds.sublist (List.filter_sublist.map _)

/-- The calls on references. -/
def Call.retains : Call → Bool
  | .backup .. => false
  | .prune .. => false
  | _ => true

/-- The calls on references leave the versions alone. -/
theorem Effect.versions {index index' : Index} {call : Call} {reply : Reply}
    (h : Effect index index' call reply) (hbooked : Booked index) (hcall : call.retains) :
    index'.versions = index.versions := by
  cases h with
  | same tables => cases hcall
  | added inserted => cases hcall
  | pruned tables => cases hcall
  | pinned other rows made => exact (hbooked.pinEach rows made).2.versions
  | released approved rows nodup recorded made =>
    exact (hbooked.releaseAll rows nodup recorded made).versions

end Calls

/-! ## Runs -/

section Runs

variable {D : Digest} {index index' : Index} {sys : Sys}

/-- The number and the content of a version, without the verdict on it. -/
def BackupVersion.content (v : BackupVersion) : Int × String × String × Nat × Int × Nat :=
  (v.id, v.path, v.hash, v.size, v.timestampMs, v.pid)

/-- What an index has become: every version with an old number is an old version. -/
structure Descends (index index' : Index) : Prop where
  last : index.lastVersion ≤ index'.lastVersion
  rows : ∀ v' ∈ index'.versions, v'.id ≤ index.lastVersion →
    ∃ v ∈ index.versions, v.content = v'.content

theorem Descends.of_versions (hversions : index'.versions = index.versions)
    (hlast : index'.lastVersion = index.lastVersion) : Descends index index' := by
  refine ⟨hlast.ge, fun v hv _ => ?_⟩
  rw [hversions] at hv
  exact ⟨v, hv, rfl⟩

theorem Descends.trans {index₁ : Index} (h : Descends index index₁) (h' : Descends index₁ index') :
    Descends index index' := by
  refine ⟨h.last.trans h'.last, fun v' hv' hold => ?_⟩
  have := h.last
  obtain ⟨v₁, hv₁, hsame⟩ := h'.rows v' hv' (by omega)
  have hid : v₁.id = v'.id := (Prod.mk.inj hsame).1
  obtain ⟨v, hv, hsame'⟩ := h.rows v₁ hv₁ (by omega)
  exact ⟨v, hv, hsame'.trans hsame⟩

theorem Descends.judge (id : Int) (good : Bool) (note : String) :
    Descends index (index.judge id good note) := by
  refine ⟨le_rfl, fun v' hv' _ => ?_⟩
  obtain ⟨v, hv, rfl⟩ := List.mem_map.1 hv'
  refine ⟨v, hv, ?_⟩
  split <;> rfl

/-- What an approval has released, by the calls that have ended well. -/
def Done.released (approvalId : String) : Done → Option (List RetentionPin)
  | .call c (.ok (.pins pins)) =>
    if c.approval.any (·.approvalId = approvalId) then some pins else none
  | _ => none

/-- The tables are in order, and agree with the calls that have ended: every approval that is recorded
was recorded by the one call that released references with it. -/
structure Ledger (sys : Sys) : Prop where
  booked : Booked sys.store.index
  used : ∀ row ∈ sys.store.index.approvals, ∃ pins,
    sys.log.filterMap (Done.released row.approvalId) = [pins] ∧
      ∀ pin ∈ sys.store.index.pins, pin.releaseApprovalId = some row.approvalId →
        pin.id ∈ pins.map (·.id)
  unused : ∀ approvalId, approvalId ∉ sys.store.index.approvals.map (·.approvalId) →
    sys.log.filterMap (Done.released approvalId) = []

/-- A step that records no approval and releases nothing. -/
theorem Ledger.of_same {sys' : Sys} (h : Ledger sys) (hbooked : Booked sys'.store.index)
    (happrovals : sys'.store.index.approvals = sys.store.index.approvals)
    (horigin : ∀ pin ∈ sys'.store.index.pins, pin ∈ sys.store.index.pins ∨
      pin.releaseApprovalId = none)
    (hlog : ∀ approvalId, sys'.log.filterMap (Done.released approvalId) =
      sys.log.filterMap (Done.released approvalId)) : Ledger sys' := by
  refine ⟨hbooked, fun row hrow => ?_, fun approvalId hnew => ?_⟩
  · rw [happrovals] at hrow
    obtain ⟨pins, hpins, hall⟩ := h.used row hrow
    refine ⟨pins, (hlog _).trans hpins, fun pin hpin hid => ?_⟩
    rcases horigin pin hpin with hpin | hnone
    · exact hall pin hpin hid
    · rw [hnone] at hid
      cases hid
  · rw [happrovals] at hnew
    rw [hlog]
    exact h.unused approvalId hnew

/-- No reference was released with an approval that is not recorded. -/
theorem Booked.unused (h : Booked index) {approvalId : String}
    (hnew : approvalId ∉ index.approvals.map (·.approvalId)) {pin : RetentionPin}
    (hpin : pin ∈ index.pins) : pin.releaseApprovalId ≠ some approvalId := by
  intro hid
  have haudited := h.audited pin hpin
  by_cases hactive : pin.active
  · rw [(haudited.active hactive).2] at hid
    cases hid
  · obtain ⟨a, ⟨entry, -, -, -, -, row, hrow, hrowId, -⟩, hrec⟩ := haudited.released hactive
    rw [hrec, Option.some.injEq] at hid
    exact hnew (List.mem_map.2 ⟨row, hrow, hrowId.trans hid⟩)

/-- A call that released references with a new approval. -/
theorem Ledger.release {s' : Store} {call : Call} {approval : ReleaseApproval}
    {pins : List RetentionPin} (h : Ledger sys) (hcall : call.approval = some approval)
    (happroved : Approved sys.store.index s'.index approval pins) :
    Ledger { sys with store := s', log := sys.log ++ [.call call (.ok (.pins pins))] } := by
  have hlog : ∀ approvalId, (sys.log ++ [Done.call call (.ok (.pins pins))]).filterMap
      (Done.released approvalId) = sys.log.filterMap (Done.released approvalId) ++
        if approval.approvalId = approvalId then [pins] else [] := by
    intro approvalId
    have hdone : Done.released approvalId (.call call (.ok (.pins pins))) =
        if approval.approvalId = approvalId then some pins else none := by
      simp [Done.released, hcall]
    rw [List.filterMap_append]
    by_cases hsame : approval.approvalId = approvalId
    · rw [if_pos hsame] at hdone ⊢
      rw [List.filterMap_cons_some hdone, List.filterMap_nil]
    · rw [if_neg hsame] at hdone ⊢
      rw [List.filterMap_cons_none hdone, List.filterMap_nil]
  obtain ⟨new, hnewId, happrovals⟩ := happroved.approvals
  refine ⟨happroved.booked, fun row hrow => ?_, fun approvalId hunused => ?_⟩
  · have hrow : row ∈ s'.index.approvals := hrow
    rw [happrovals] at hrow
    show ∃ pins', (sys.log ++ _).filterMap _ = [pins'] ∧ _
    rw [hlog]
    rcases List.mem_append.1 hrow with hrow | hrow
    · -- An approval that was there before is another one.
      have hne : approval.approvalId ≠ row.approvalId :=
        fun hsame => happroved.unused (hsame ▸ List.mem_map_of_mem hrow)
      obtain ⟨pins', hpins', hall⟩ := h.used row hrow
      refine ⟨pins', by rw [if_neg hne, List.append_nil, hpins'], fun pin hpin hid => ?_⟩
      rcases happroved.origin pin hpin with hpin | ⟨-, ha⟩
      · exact hall pin hpin hid
      · rw [ha] at hid
        exact absurd (Option.some.inj hid) hne
    · rw [List.mem_singleton.1 hrow, hnewId]
      refine ⟨pins, by rw [if_pos rfl, h.unused _ happroved.unused, List.nil_append],
        fun pin hpin hid => ?_⟩
      rcases happroved.origin pin hpin with hpin | ⟨hmem, -⟩
      · exact absurd hid (h.booked.unused happroved.unused hpin)
      · exact hmem
  · have hunused : approvalId ∉ s'.index.approvals.map (·.approvalId) := hunused
    rw [happrovals, List.map_append, List.mem_append, not_or] at hunused
    have hne : approval.approvalId ≠ approvalId :=
      fun hsame => hunused.2 (by simp [hnewId, hsame])
    show (sys.log ++ _).filterMap _ = []
    rw [hlog, if_neg hne, h.unused _ hunused.1, List.nil_append]

/-- A call that returned. -/
theorem Ledger.effect {s' : Store} {call : Call} {reply : Reply} (h : Ledger sys)
    (heffect : Effect sys.store.index s'.index call reply) :
    Ledger { sys with store := s', log := sys.log ++ [.call call (.ok reply)] } ∧
      Descends sys.store.index s'.index := by
  -- A call without an approval adds nothing to what was released.
  have hlog : call.approval = none → ∀ approvalId,
      (sys.log ++ [Done.call call (.ok reply)]).filterMap (Done.released approvalId) =
        sys.log.filterMap (Done.released approvalId) := by
    intro hnone approvalId
    have hdone : Done.released approvalId (.call call (.ok reply)) = none := by
      cases reply <;> simp [Done.released, hnone]
    rw [List.filterMap_append, List.filterMap_cons_none hdone, List.filterMap_nil, List.append_nil]
  cases heffect with
  | same tables =>
    have hbooked := h.booked.of_sameTables tables
    rw [SameTables] at tables
    refine ⟨h.of_same hbooked (by rw [tables]) ?_ (hlog rfl),
      .of_versions (by rw [tables]) (by rw [tables])⟩
    rw [tables]
    exact fun pin hpin => .inl hpin
  | added inserted =>
    have hbooked := h.booked.insertVersion inserted
    simp only [Index.insertVersion, Prog.answer_bind_iff, Except.ok.injEq] at inserted
    obtain ⟨id, hid, heq⟩ := inserted
    have hid := nextId_ok hid
    refine ⟨h.of_same hbooked (by rw [← heq]) ?_ (hlog rfl), ?_⟩
    · rw [← heq]
      exact fun pin hpin => .inl hpin
    · rw [← heq]
      refine ⟨by simp only; omega, fun v' hv' hold => ?_⟩
      rcases List.mem_append.1 hv' with hv' | hv'
      · exact ⟨v', hv', rfl⟩
      · rw [List.mem_singleton.1 hv'] at hold
        simp only at hold
        omega
  | pruned tables =>
    refine ⟨h.of_same (tables ▸ h.booked.pruned _) (by rw [tables]; rfl) ?_ (hlog rfl), ?_⟩
    · rw [tables]
      exact fun pin hpin => .inl hpin
    · rw [tables]
      exact ⟨le_rfl, fun v' hv' _ => ⟨v', List.mem_of_mem_filter hv', rfl⟩⟩
  | pinned other rows made =>
    obtain ⟨hbooked, hpinned⟩ := h.booked.pinEach rows made
    exact ⟨h.of_same hbooked hpinned.approvals hpinned.origin (hlog other),
      .of_versions hpinned.versions hpinned.lastVersion⟩
  | released approved rows nodup recorded made =>
    have happroved := h.booked.releaseAll rows nodup recorded made
    exact ⟨h.release approved happroved, .of_versions happroved.versions happroved.lastVersion⟩

theorem VerdictLog.released {log log' : List Done} (h : VerdictLog log log') (approvalId : String) :
    log'.filterMap (Done.released approvalId) = log.filterMap (Done.released approvalId) := by
  rcases h with rfl | ⟨j, outcome, rfl⟩
  · rfl
  · rw [List.filterMap_append, List.filterMap_cons_none rfl, List.filterMap_nil, List.append_nil]

/-- One step keeps the ledger, and versions keep their content. -/
theorem Ledger.next (h : Ledger sys) (event : Event) (plan : Plan) :
    Ledger (sys.next D event plan) ∧
      Descends sys.store.index (sys.next D event plan).store.index := by
  cases event with
  | call call =>
    have hrun := (call.effect h.booked : (call.prog D).Sat _ _ _ _) plan
    rw [Sys.next_call]
    rcases hprog : call.prog D plan sys.store with ⟨outcome, plan', s'⟩
    rw [hprog] at hrun
    have hstopped : SameTables sys.store.index s'.index → ∀ {outcome : Outcome RecoveryError Reply},
        (∀ approvalId, Done.released approvalId (.call call outcome) = none) →
        Ledger { sys with store := s', log := sys.log ++ [.call call outcome] } ∧
          Descends sys.store.index s'.index := by
      intro hsame outcome hnone
      have hbooked := h.booked.of_sameTables hsame
      rw [SameTables] at hsame
      refine ⟨h.of_same hbooked (by rw [hsame]) ?_ fun approvalId => ?_,
        .of_versions (by rw [hsame]) (by rw [hsame])⟩
      · rw [hsame]
        exact fun pin hpin => .inl hpin
      · rw [List.filterMap_append, List.filterMap_cons_none (hnone approvalId), List.filterMap_nil,
          List.append_nil]
    cases outcome with
    | ok reply => exact h.effect hrun
    | error e => exact hstopped hrun fun _ => rfl
    | killed => exact hstopped hrun fun _ => rfl
  | begin j =>
    obtain ⟨hstore, hlog⟩ : (sys.next D (.begin j) plan).store = sys.store ∧
        VerdictLog sys.log (sys.next D (.begin j) plan).log := Sys.next_begin j
    refine ⟨h.of_same ?_ ?_ ?_ hlog.released, ?_⟩
    all_goals rw [hstore]
    · exact h.booked
    · exact fun pin hpin => .inl hpin
    · exact .of_versions rfl rfl
  | proceed i =>
    have hcases := @Sys.next_proceed D sys plan i
    rcases hcases with ⟨hstore, hlog⟩ | ⟨j, version, -, hstore, hlog⟩
    · refine ⟨h.of_same ?_ ?_ ?_ hlog.released, ?_⟩
      all_goals rw [hstore]
      · exact h.booked
      · exact fun pin hpin => .inl hpin
      · exact .of_versions rfl rfl
    · refine ⟨h.of_same ?_ ?_ ?_ fun _ => by rw [hlog], ?_⟩
      all_goals rw [hstore]
      · exact h.booked.judge _ _ _
      · rfl
      · exact fun pin hpin => .inl hpin
      · exact .judge _ _ _

theorem Ledger.initial : Ledger {} := by
  refine ⟨⟨?_, ?_, ?_, ?_, ?_, ?_, ?_, ?_, ?_⟩, ?_, ?_⟩ <;> simp

theorem Ledger.play (h : Ledger sys) (script : List (Event × Plan)) :
    Ledger (sys.play D script) ∧ Descends sys.store.index (sys.play D script).store.index := by
  induction script generalizing sys with
  | nil => exact ⟨h, .of_versions rfl rfl⟩
  | cons step rest ih =>
    obtain ⟨hnext, hdescends⟩ := h.next (D := D) step.1 step.2
    obtain ⟨hledger, hrest⟩ := ih hnext
    exact ⟨hledger, hdescends.trans hrest⟩

/-- What a step leaves alone. A step that ends a call with an error changes no table; the parts of a
verdict change nothing but the verdict, before the call ends. -/
structure LeavesAlone (D : Digest) (sys : Sys) (event : Event) (plan : Plan) : Prop where
  failed : ∀ call e, (sys.next D event plan).log = sys.log ++ [.call call (.error e)] →
    SameTables sys.store.index (sys.next D event plan).store.index
  ended : ∀ j outcome, (sys.next D event plan).log = sys.log ++ [.verdict j outcome] →
    (sys.next D event plan).store = sys.store
  verdict : (∀ call, event ≠ .call call) → (sys.next D event plan).store = sys.store ∨
    ∃ i j version, event = .proceed i ∧ sys.judging[i]? = some (j, .writing version) ∧
      (sys.next D event plan).store = sys.store.judged version j

theorem Ledger.leavesAlone (h : Ledger sys) (event : Event) (plan : Plan) :
    LeavesAlone D sys event plan := by
  cases event with
  | call call =>
    have hrun := (call.effect h.booked : (call.prog D).Sat _ _ _ _) plan
    refine ⟨fun call' e hlog => ?_, fun j outcome hlog => ?_, fun hno => absurd rfl (hno call)⟩
    all_goals rw [Sys.next_call] at hlog
    all_goals rw [List.append_cancel_left_eq, List.cons.injEq] at hlog
    · rw [Sys.next_call]
      rcases hprog : call.prog D plan sys.store with ⟨outcome, plan', s'⟩
      rw [hprog] at hrun hlog
      obtain ⟨rfl, rfl⟩ := Done.call.inj hlog.1
      exact hrun
    · cases hlog.1
  | begin j =>
    obtain ⟨hstore, hlog⟩ : (sys.next D (.begin j) plan).store = sys.store ∧
        VerdictLog sys.log (sys.next D (.begin j) plan).log := Sys.next_begin j
    refine ⟨fun call e _ => ?_, fun _ _ _ => hstore, fun _ => .inl hstore⟩
    rw [hstore]
    exact .refl _
  | proceed i =>
    have hcases := @Sys.next_proceed D sys plan i
    rcases hcases with ⟨hstore, hlog⟩ | ⟨j, version, hjudging, hstore, hlog⟩
    · refine ⟨fun call e _ => ?_, fun _ _ _ => hstore, fun _ => .inl hstore⟩
      rw [hstore]
      exact .refl _
    · -- The verdict is written, and nothing ends.
      refine ⟨fun call e hend => ?_, fun _ _ hend => ?_, fun _ =>
        .inr ⟨i, j, version, rfl, hjudging, hstore⟩⟩
      all_goals
        rw [hlog] at hend
        exact absurd hend (by simp)

/-- After every script: an active reference has its version; as long as some reference to a version is
active, the version stays, whatever else is released; there is one active reference of an incident to a
version; the audit has one entry for every reference that was made and one for every reference that was
released, with an approval that one call recorded and whose approver is not the actor of the reference;
and a step that ends a call with an error changes no table, nor does a verdict change more than its
version. -/
theorem retention_ledger (hrun : Reached D sys) :
    (∀ pin ∈ sys.store.index.pins, pin.active → ∃ v ∈ sys.store.index.versions,
      v.id = pin.versionId ∧ v.path = pin.path ∧ v.hash = pin.hash) ∧
    (∀ later, ∀ v ∈ sys.store.index.versions, ∀ pin ∈ (sys.play D later).store.index.pins,
      pin.active → pin.versionId = v.id →
        ∃ v' ∈ (sys.play D later).store.index.versions, v'.content = v.content) ∧
    (∀ p ∈ sys.store.index.pins, ∀ q ∈ sys.store.index.pins, p.active → q.active →
      p.incidentId = q.incidentId → p.versionId = q.versionId → p = q) ∧
    (∀ entry ∈ sys.store.index.audit, ∃ pin ∈ sys.store.index.pins, pin.id = entry.pinId) ∧
    (∀ pin ∈ sys.store.index.pins,
      (∃ entry, sys.store.index.entries pin.id .pinned = [entry] ∧ entry.About pin) ∧
      (pin.active → sys.store.index.entries pin.id .released = []) ∧
      (¬ pin.active → ∃ entry approvalId pins,
        sys.store.index.entries pin.id .released = [entry] ∧ entry.About pin ∧
        entry.approvalId = some approvalId ∧ entry.actor ≠ pin.actor ∧
        (∃ row ∈ sys.store.index.approvals, row.approvalId = approvalId ∧
          row.approver = entry.actor) ∧
        sys.log.filterMap (Done.released approvalId) = [pins] ∧ pin.id ∈ pins.map (·.id))) ∧
    ∀ event plan, LeavesAlone D sys event plan := by
  obtain ⟨script, rfl⟩ := hrun
  obtain ⟨hledger, -⟩ := Ledger.initial.play (D := D) script
  have hbooked := hledger.booked
  refine ⟨hbooked.kept, fun later v hv pin hpin hactive hid => ?_, hbooked.single, hbooked.owned,
    fun pin hpin => ⟨(hbooked.audited pin hpin).pinned,
      fun hactive => ((hbooked.audited pin hpin).active hactive).1, fun hreleased => ?_⟩,
    hledger.leavesAlone⟩
  · -- The version that the reference has now is the one it had then.
    obtain ⟨hlater, hdescends⟩ := hledger.play (D := D) later
    obtain ⟨v', hv', hid', -⟩ := hlater.booked.kept pin hpin hactive
    have hsameId : v'.id = v.id := hid'.trans hid
    have hold : v'.id ≤ (({} : Sys).play D script).store.index.lastVersion := by
      rw [hsameId]
      exact hbooked.versionBound v hv
    obtain ⟨v₀, hv₀, hcontent⟩ := hdescends.rows v' hv' hold
    have hid₀ : v₀.id = v.id := (Prod.mk.inj hcontent).1.trans hsameId
    have heq : v₀ = v := List.inj_on_of_nodup_map hbooked.versionIds hv₀ hv hid₀
    exact ⟨v', hv', heq ▸ hcontent.symm⟩
  · obtain ⟨approvalId, ⟨entry, hentry, habout, hid, hactor, row, hrow, hrowId, hrowBy⟩, hrec⟩ :=
      (hbooked.audited pin hpin).released hreleased
    obtain ⟨pins, hlog, hall⟩ := hledger.used row hrow
    rw [hrowId] at hlog hall
    exact ⟨entry, approvalId, pins, hentry, habout, hid, hactor, ⟨row, hrow, hrowId, hrowBy⟩, hlog,
      hall pin hpin hrec⟩

/-- A version is backed up, pinned for an incident, and released with an approval. -/
def sampleRetention : List (Event × Plan) :=
  [sampleBackup [1] 10,
    (.call (.pinVersion samplePath 1 "incident" "analyst" "evidence" 20), []),
    (.call (.releasePin 1 ⟨"approval", "reviewer", "closed"⟩ (fun _ => 30)), [])]

theorem retention_ledger_one_release :
    ∃ pin ∈ (samplePlay sampleRetention).store.index.pins, ∃ entry approvalId pins,
      (samplePlay sampleRetention).store.index.entries pin.id .released = [entry] ∧
      entry.approvalId = some approvalId ∧
      (samplePlay sampleRetention).log.filterMap (Done.released approvalId) = [pins] ∧
      pin.id ∈ pins.map (·.id) := by
  have hpins : ((samplePlay sampleRetention).store.index.pins.map (·.active)) = [false] := by
    decide +kernel
  obtain ⟨pin, hpin, hactive⟩ : ∃ pin ∈ (samplePlay sampleRetention).store.index.pins,
      pin.active = false := by
    have hmem : false ∈ (samplePlay sampleRetention).store.index.pins.map (·.active) := by
      rw [hpins]
      exact List.mem_singleton_self _
    exact List.mem_map.1 hmem
  have hreached : Reached sampleDigest (samplePlay sampleRetention) := ⟨sampleRetention, rfl⟩
  obtain ⟨-, -, -, -, haudited, -⟩ := retention_ledger hreached
  obtain ⟨entry, approvalId, pins, hentry, -, hid, -, -, hlog, hmem⟩ :=
    (haudited pin hpin).2.2 (by simp [hactive])
  exact ⟨pin, hpin, entry, approvalId, pins, hentry, hid, hlog, hmem⟩

/-- A version is backed up and marked as good. -/
def sampleGood : List (Event × Plan) :=
  [sampleBackup [1] 10, (.begin ⟨samplePath, 1, "checked", true⟩, []), (.proceed 0, []),
    (.proceed 0, []), (.proceed 0, [])]

/-- The verdict is revoked, up to the write. -/
def sampleRevoked : List (Event × Plan) :=
  sampleGood ++ [(.begin ⟨samplePath, 1, "suspect", false⟩, []), (.proceed 0, [])]

/-- A call that gave a verdict ended with an error. -/
def Done.failedVerdict : Done → Bool
  | .verdict _ (.error _) => true
  | _ => false

/-- A revocation writes its verdict, another process prunes the version, and the revocation ends with
an error: it has changed the version all the same. A prune without the revocation changes nothing. -/
theorem failed_revocation_changes_version :
    (samplePlay sampleGood).store.index.versions.map (·.knownGood) = [true] ∧
    (samplePlay (sampleGood ++ [(.call (.prune 0 []), [])])).store.index.versions =
      (samplePlay sampleGood).store.index.versions ∧
    (samplePlay sampleRevoked).store.index.versions.map (·.knownGood) = [false] ∧
    (samplePlay (sampleRevoked ++ [(.call (.prune 0 []), []), (.proceed 0, [])])).log.getLast?.any
      Done.failedVerdict = true ∧
    (samplePlay (sampleRevoked ++ [(.call (.prune 0 []), []), (.proceed 0, [])])).store.index.versions
      = [] := by
  decide +kernel

end Runs

end Argos.Recovery
