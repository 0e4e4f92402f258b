import Argos.Agent.Requests

/-!
# Releases and the retention loop

A reference that the loop has made may be released by an operator while the request of its detection
is still in the queue: another path of the detection may have no trusted version, and then the whole
request is tried again. The unique index on references looks at the active ones only, so the next
try makes a new reference to the released version (`released_reference_returns`).

A release stays when the loop has nothing left to pin for it (`Finished`): the detection was
recorded, and no request that is in the queue or in the hands of a loop names the path of the
version with a later time. `release_sticks` shows this for every run.
-/

namespace Argos.Agent

open Argos.Lib
open Argos.Common
open Argos.Vault (bytesOf)
open Argos.Recovery (Path Index BackupVersion RetentionPin Ledger Descends)

/-! ## Where references come from -/

/-- A reference of an index was there before, or is one of those before, released, or is a new
active reference that satisfies `P`. -/
def Traced (P : RetentionPin → Prop) (index index' : Index) : Prop :=
  ∀ pin' ∈ index'.pins, pin' ∈ index.pins ∨
    (pin'.active = false ∧ ∃ pin ∈ index.pins, pin.active = true ∧ pin.id = pin'.id ∧
      pin.incidentId = pin'.incidentId ∧ pin.versionId = pin'.versionId) ∨
    (pin'.active = true ∧ P pin')

section Traces

variable {P : RetentionPin → Prop} {index index₁ index' : Index}

theorem Traced.of_pins (h : index'.pins = index.pins) : Traced P index index' := by
  intro pin' hpin'
  rw [h] at hpin'
  exact .inl hpin'

theorem Traced.mono {Q : RetentionPin → Prop} (h : Traced P index index')
    (hPQ : ∀ pin, P pin → Q pin) : Traced Q index index' := by
  intro pin' hpin'
  rcases h pin' hpin' with hold | hreleased | ⟨hactive, hP⟩
  · exact .inl hold
  · exact .inr (.inl hreleased)
  · exact .inr (.inr ⟨hactive, hPQ pin' hP⟩)

/-- Releases after releases. -/
theorem Traced.trans (h : Traced (fun _ => False) index index₁)
    (h' : Traced (fun _ => False) index₁ index') : Traced (fun _ => False) index index' := by
  intro pin' hpin'
  rcases h' pin' hpin' with hold |
    ⟨hinactive, pin₁, hpin₁, hactive₁, hid, hincident, hversion⟩ | hnew
  · exact h pin' hold
  · rcases h pin₁ hpin₁ with hold | ⟨hinactive₁, -⟩ | hnew
    · exact .inr (.inl ⟨hinactive, pin₁, hold, hactive₁, hid, hincident, hversion⟩)
    · rw [hinactive₁] at hactive₁
      cases hactive₁
    · exact hnew.2.elim
  · exact hnew.2.elim

/-- A call that makes references adds active ones, for versions of its list. -/
theorem pinEach_origin {incidentId actor reason : String} {clock : Nat → Nat}
    {versions : List BackupVersion} {i : Nat} {pins : List RetentionPin}
    (h : Index.pinEach incidentId actor reason clock versions i index = .ok (pins, index')) :
    ∀ pin ∈ index'.pins, pin ∈ index.pins ∨ (pin.active = true ∧ pin.incidentId = incidentId ∧
      ∃ v ∈ versions, pin.versionId = v.id) := by
  induction versions generalizing i index pins with
  | nil =>
    obtain ⟨-, rfl⟩ := Prod.mk.inj (Except.ok.inj h)
    exact fun pin hpin => .inl hpin
  | cons version rest ih =>
    simp only [Index.pinEach, Prog.answer_bind_iff, Except.ok.injEq, Prod.mk.injEq] at h
    obtain ⟨⟨pin, index₁⟩, hpin, ⟨pins', index₂⟩, hrest, -, rfl⟩ := h
    -- The first version adds at most one reference.
    have hfirst : ∀ new ∈ index₁.pins, new ∈ index.pins ∨ (new.active = true ∧
        new.incidentId = incidentId ∧ new.versionId = version.id) := by
      unfold Index.pinInTransaction at hpin
      split at hpin
      · obtain ⟨-, rfl⟩ := Prod.mk.inj (Except.ok.inj hpin)
        exact fun new hnew => .inl hnew
      · simp only [Prog.answer_bind_iff, Index.insertPin, Index.appendAudit, Except.ok.injEq,
          Prod.mk.injEq] at hpin
        obtain ⟨⟨row, index₃⟩, ⟨id, -, -, -, rfl, rfl⟩, index₄, ⟨entryId, -, rfl⟩, -, rfl⟩ := hpin
        intro new hnew
        rcases List.mem_append.1 hnew with hnew | hnew
        · exact .inl hnew
        · rw [List.mem_singleton.1 hnew]
          exact .inr ⟨rfl, rfl, rfl⟩
    intro new hnew
    rcases ih hrest new hnew with hnew | ⟨hactive, hincident, v, hv, hversion⟩
    · rcases hfirst new hnew with hold | ⟨hactive, hincident, hversion⟩
      · exact .inl hold
      · exact .inr ⟨hactive, hincident, version, List.mem_cons_self, hversion⟩
    · exact .inr ⟨hactive, hincident, v, List.mem_cons_of_mem _ hv, hversion⟩

/-- A release makes active references inactive. -/
theorem Traced.of_released {id : Int} {approval : Recovery.ReleaseApproval} {timestampMs : Nat}
    (h : index'.pins = (index.updateReleased id approval timestampMs).pins) :
    Traced (fun _ => False) index index' := by
  intro pin' hpin'
  rw [h] at hpin'
  obtain ⟨pin, hpin, rfl⟩ := List.mem_map.1 hpin'
  split
  next hcond => exact .inr (.inl ⟨rfl, pin, hpin, hcond.2, rfl, rfl, rfl⟩)
  · exact .inl hpin

theorem releaseEach_traced {approval : Recovery.ReleaseApproval} {clock : Nat → Nat}
    {old pins : List RetentionPin} {i : Nat}
    (h : Index.releaseEach approval clock old i index = .ok (pins, index')) :
    Traced (fun _ => False) index index' := by
  induction old generalizing i index pins with
  | nil =>
    obtain ⟨-, rfl⟩ := Prod.mk.inj (Except.ok.inj h)
    exact .of_pins rfl
  | cons pin rest ih =>
    simp only [Index.releaseEach, Prog.answer_bind_iff, Except.ok.injEq, Prod.mk.injEq] at h
    obtain ⟨⟨pin', index₁⟩, hfirst, ⟨pins', index₂⟩, hrest, -, rfl⟩ := h
    simp only [Index.releaseInTransaction, Index.appendAudit, Prog.answer_bind_iff, Except.ok.injEq,
      Prod.mk.injEq] at hfirst
    obtain ⟨index₃, ⟨entryId, -, rfl⟩, found, -, -, rfl⟩ := hfirst
    have htail := ih hrest
    exact Traced.trans (.of_released rfl) htail

/-- What a step of another process does to the references: the new ones are for versions that are
there. -/
theorem recovery_traced {D : Recovery.Digest} {sys : Recovery.Sys} (hledger : Ledger sys)
    (event : Recovery.Event) (plan : Plan) :
    Traced (fun pin => ∃ v ∈ sys.store.index.versions, pin.versionId = v.id) sys.store.index
      (sys.next D event plan).store.index := by
  cases event with
  | call call =>
    have hrun := (call.effect hledger.booked : (call.prog D).Sat _ _ _ _) plan
    rw [Recovery.Sys.next_call]
    rcases hprog : call.prog D plan sys.store with ⟨outcome, plan', s'⟩
    rw [hprog] at hrun
    have hstopped : Recovery.SameTables sys.store.index s'.index →
        Traced (fun pin => ∃ v ∈ sys.store.index.versions, pin.versionId = v.id) sys.store.index
          s'.index := by
      intro hsame
      rw [Recovery.SameTables] at hsame
      exact .of_pins (by rw [hsame])
    cases outcome with
    | error e => exact hstopped hrun
    | killed => exact hstopped hrun
    | ok reply =>
      cases hrun with
      | same tables => exact hstopped tables
      | added inserted =>
        simp only [Index.insertVersion, Prog.answer_bind_iff, Except.ok.injEq] at inserted
        obtain ⟨id, -, hindex⟩ := inserted
        exact .of_pins (by rw [← hindex])
      | pruned tables => exact .of_pins (by rw [tables]; rfl)
      | pinned other rows made =>
        intro pin hpin
        rcases pinEach_origin made pin hpin with hold | ⟨hactive, -, v, hv, hversion⟩
        · exact .inl hold
        · exact .inr (.inr ⟨hactive, v, rows v hv, hversion⟩)
      | @released _ approval clock reading i old pins index₁ approved rows nodup recorded made =>
        have hpins := (hledger.booked.approve recorded).2.2.2
        have htraced := releaseEach_traced made
        rw [hpins] at htraced
        exact Traced.mono htraced fun _ h => h.elim
  | begin j =>
    obtain ⟨hstore, -⟩ : (sys.next D (.begin j) plan).store = sys.store ∧ _ :=
      Recovery.Sys.next_begin j
    exact .of_pins (by rw [hstore])
  | proceed i =>
    rcases @Recovery.Sys.next_proceed D sys plan i with ⟨hstore, -⟩ | ⟨j, version, -, hstore, -⟩
    · exact .of_pins (by rw [hstore])
    · exact .of_pins (by rw [hstore]; rfl)

end Traces

/-! ## What the loops have left to do -/

/-- Paths that a loop has still to pin for a detection. -/
structure Work where
  detectionId : Nat
  timestampMs : Nat
  paths : List String
deriving DecidableEq

/-- The work of a job that is not taken up. -/
def RetentionJob.work (job : RetentionJob) : Work :=
  ⟨job.detectionId, job.detection.timestampMs, job.detection.paths⟩

/-- The work of a loop. -/
def Loop.work : Loop → List Work
  | .batch jobs => jobs.map (·.work)
  | .working job paths _ rest =>
    ⟨job.detectionId, job.detection.timestampMs, paths⟩ :: rest.map (·.work)

/-- The work of the queue. -/
def EventDb.work (J : Json) (db : EventDb) : List Work :=
  db.retentionJobs.filterMap fun row => (row.job J).toOption.map (·.work)

/-- The index of the backup store. -/
def Sys.index (sys : Sys) : Index := sys.recovery.store.index

section Releases

variable (E : Env)

/-- All work, in the queue and in the hands of the loops. -/
def Sys.work (sys : Sys) : List Work := sys.events.work E.json ++ sys.loops.flatMap (·.work)

/-- No loop will pin the version of a reference for its incident: if the incident is that of a
detection, the detection was recorded, and nothing that is left to do for it names the path of the
version with a time after the version. -/
structure Finished (sys : Sys) (pin : RetentionPin) : Prop where
  recorded : ∀ id, pin.incidentId = incidentOf id → id ≤ sys.events.lastDetection
  worked : ∀ v ∈ sys.index.versions, v.id = pin.versionId → ∀ w ∈ sys.work E,
    pin.incidentId = incidentOf w.detectionId → v.timestampMs < (w.timestampMs : Int) →
    ∀ path ∈ w.paths, v.path ≠ Path.text (bytesOf path)

/-- Every reference that a step releases is finished. -/
def Prudent (sys : Sys) (event : Event) (plan : Plan) : Prop :=
  ∀ pin ∈ sys.index.pins, pin.active = true →
    (∃ pin' ∈ (sys.next E event plan).index.pins, pin'.id = pin.id ∧ pin'.active = false) →
    Finished E sys pin

/-- A run in which references are released when they are finished. -/
inductive PrudentRun : Sys → Prop where
  | start : PrudentRun {}
  | step {sys : Sys} (event : Event) (plan : Plan) (before : PrudentRun sys)
      (prudent : Prudent E sys event plan) : PrudentRun (sys.next E event plan)

/-- The steps of the retention loops. -/
def Event.ofLoop : Event → Bool
  | .start => true
  | .leave _ => true
  | .poll _ _ => true
  | .proceed _ _ _ => true
  | _ => false

/-- No step of a loop makes a reference for an incident to a version from which a reference of the
same incident was released. -/
def ReleasesStick (sys : Sys) : Prop :=
  ∀ event plan, event.ofLoop = true → ∀ pin ∈ (sys.next E event plan).index.pins,
    pin.active = true → pin ∉ sys.index.pins →
    ∀ old ∈ sys.index.pins, old.incidentId = pin.incidentId → old.versionId = pin.versionId →
      old.active = true

variable {E} {sys sys' : Sys}

/-- Less work of the same detection. -/
def Work.Narrows (w w' : Work) : Prop :=
  w'.detectionId = w.detectionId ∧ w'.timestampMs = w.timestampMs ∧
    ∀ path ∈ w'.paths, path ∈ w.paths

theorem Work.Narrows.refl (w : Work) : w.Narrows w := ⟨rfl, rfl, fun _ h => h⟩

variable (E) in
/-- The work after a step is a part of the work before, or that of a detection which was recorded by
the step. -/
def LessWork (sys sys' : Sys) : Prop :=
  ∀ w' ∈ sys'.work E, (∃ w ∈ sys.work E, w.Narrows w') ∨ sys.events.lastDetection < w'.detectionId

theorem LessWork.of_subset (h : ∀ w ∈ sys'.work E, w ∈ sys.work E) : LessWork E sys sys' :=
  fun w hw => .inl ⟨w, h w hw, .refl w⟩

theorem mem_work_iff {J : Json} {db : EventDb} {w : Work} :
    w ∈ db.work J ↔ ∃ row ∈ db.retentionJobs, ∃ job, row.job J = .ok job ∧ job.work = w := by
  rw [EventDb.work, List.mem_filterMap]
  constructor
  · rintro ⟨row, hrow, hw⟩
    obtain ⟨job, hjob, hwork⟩ := Option.map_eq_some_iff.1 hw
    rcases hread : row.job J with e | job'
    · rw [hread] at hjob
      cases hjob
    · rw [hread] at hjob
      rw [← Option.some.inj hjob] at hwork
      exact ⟨row, hrow, job', hread, hwork⟩
  · rintro ⟨row, hrow, job, hjob, hwork⟩
    exact ⟨row, hrow, by rw [hjob, ← hwork]; rfl⟩

/-- Rows of the same texts have the same work. -/
theorem work_subset {J : Json} {db db' : EventDb}
    (h : ∀ row' ∈ db'.retentionJobs, ∃ row ∈ db.retentionJobs, row.detectionId = row'.detectionId ∧
      row.detectionJson = row'.detectionJson) : ∀ w ∈ db'.work J, w ∈ db.work J := by
  intro w hw
  obtain ⟨row', hrow', job', hjob', rfl⟩ := mem_work_iff.1 hw
  obtain ⟨row, hrow, hid, hjson⟩ := h row' hrow'
  refine mem_work_iff.2 ⟨row, hrow, ?_⟩
  unfold RetentionRow.job at hjob' ⊢
  rw [hjson]
  split at hjob'
  · rw [← Except.ok.inj hjob']
    exact ⟨_, rfl, by simp only [RetentionJob.work, hid]⟩
  · cases hjob'

/-- The rows of a database have the numbers and texts of rows of another. -/
def SameTexts (db db' : EventDb) : Prop :=
  (∀ row' ∈ db'.retentionJobs, ∃ row ∈ db.retentionJobs, row.detectionId = row'.detectionId ∧
    row.detectionJson = row'.detectionJson) ∧ db'.lastDetection = db.lastDetection

theorem SameTexts.refl (db : EventDb) : SameTexts db db :=
  ⟨fun row hrow => ⟨row, hrow, rfl, rfl⟩, rfl⟩

/-- The rows that stay when a job is settled have the texts that they had. -/
theorem settle_sameTexts {db : EventDb} {job : RetentionJob} {failure : Option String}
    {nowMs : Nat} :
    (settle job failure nowMs).Sat db (fun _ => SameTexts db) (SameTexts db) (SameTexts db) := by
  refine settle_sat.mono (fun _ db' h => ?_) (fun db' h => h ▸ .refl db) (fun db' h => h ▸ .refl db)
  rcases h with ⟨-, rfl⟩ | ⟨error, -, rfl⟩
  · unfold EventDb.retentionAcknowledged
    split
    · exact ⟨fun row hrow => ⟨row, List.mem_of_mem_filter hrow, rfl, rfl⟩, rfl⟩
    · exact .refl db
  · unfold EventDb.retentionFailed
    split
    · refine ⟨fun row' hrow' => ?_, rfl⟩
      obtain ⟨row, hrow, rfl⟩ := List.mem_map.1 hrow'
      refine ⟨row, hrow, ?_⟩
      split
      · exact ⟨rfl, rfl⟩
      · exact ⟨rfl, rfl⟩
    · exact .refl db

theorem loops_work_iff {loops : List Loop} {w : Work} :
    w ∈ loops.flatMap (·.work) ↔ ∃ loop ∈ loops, w ∈ loop.work := List.mem_flatMap

/-- The loops were moved, and each does what it did before, or less. -/
theorem LessWork.of_loops {loops : List Loop} {events : EventDb}
    (hevents : ∀ w ∈ events.work E.json, w ∈ sys.events.work E.json)
    (hloops : ∀ loop ∈ loops, ∀ w' ∈ loop.work, ∃ w ∈ sys.work E, w.Narrows w')
    (hsys' : sys'.events = events ∧ sys'.loops = loops) : LessWork E sys sys' := by
  intro w' hw'
  rw [Sys.work, hsys'.1, hsys'.2, List.mem_append] at hw'
  rcases hw' with hw' | hw'
  · exact .inl ⟨w', List.mem_append_left _ (hevents w' hw'), .refl w'⟩
  · obtain ⟨loop, hloop, hw'⟩ := loops_work_iff.1 hw'
    exact .inl (hloops loop hloop w' hw')

/-- The work of a loop is work. -/
theorem Sys.work_of_loop {loop : Loop} (hloop : loop ∈ sys.loops) {w : Work} (hw : w ∈ loop.work) :
    w ∈ sys.work E := List.mem_append_right _ (loops_work_iff.2 ⟨loop, hloop, hw⟩)

/-- The loops after one has moved do less. -/
theorem moved_work {i : Nat} {next : Option Loop} {loop : Loop}
    (found : sys.loops[i]? = some loop)
    (hnext : ∀ loop', next = some loop' → ∀ w' ∈ loop'.work, ∃ w ∈ loop.work, w.Narrows w') :
    ∀ loop' ∈ sys.moved i next, ∀ w' ∈ loop'.work, ∃ w ∈ sys.work E, w.Narrows w' := by
  intro loop' hloop' w' hw'
  cases next with
  | none => exact ⟨w', Sys.work_of_loop (List.mem_of_mem_eraseIdx hloop') hw', .refl w'⟩
  | some next =>
    rcases List.mem_or_eq_of_mem_set hloop' with hold | rfl
    · exact ⟨w', Sys.work_of_loop hold hw', .refl w'⟩
    · obtain ⟨w, hw, hnarrows⟩ := hnext loop' rfl w' hw'
      exact ⟨w, Sys.work_of_loop (List.mem_of_getElem? found) hw, hnarrows⟩

/-- What a step does to the work. -/
theorem Step.lessWork (hstep : Step E sys sys') :
    LessWork E sys sys' ∧ sys.events.lastDetection ≤ sys'.events.lastDetection := by
  cases hstep with
  | same => exact ⟨.of_subset fun _ hw => hw, le_rfl⟩
  | @recorded id d agentId retain deliveryId events made =>
    have hlast := made.last
    have hnumber := made.number
    refine ⟨fun w' hw' => ?_, by dsimp only; omega⟩
    rcases List.mem_append.1 hw' with hw' | hw'
    · obtain ⟨row, hrow, job, hjob, rfl⟩ := mem_work_iff.1 hw'
      by_cases hnew : row.detectionId = id
      · -- The new row, or another with its number.
        right
        unfold RetentionRow.job at hjob
        split at hjob
        · rw [← Except.ok.inj hjob]
          show sys.events.lastDetection < row.detectionId
          omega
        · cases hjob
      · left
        refine ⟨job.work, List.mem_append_left _ (mem_work_iff.2 ⟨row, ?_, job, hjob, rfl⟩),
          .refl _⟩
        cases retain with
        | false => rwa [(made.quiet rfl).1] at hrow
        | true =>
          by_cases hroom : sys.events.retentionJobs.length < retentionCapacity
          · rw [(made.queued rfl hroom).1] at hrow
            rcases List.mem_append.1 hrow with hrow | hrow
            · exact hrow
            · rw [List.mem_singleton.1 hrow] at hnew
              exact absurd rfl hnew
          · rwa [(made.overflowed rfl hroom).1] at hrow
    · exact .inl ⟨w', List.mem_append_right _ hw', .refl w'⟩
  | recovery event plan => exact ⟨.of_subset fun _ hw => hw, le_rfl⟩
  | @loops loops moved =>
    refine ⟨.of_loops (fun _ hw => hw) (fun loop hloop w' hw' => ?_) ⟨rfl, rfl⟩, le_rfl⟩
    rcases moved loop hloop with hold | htaken
    · exact ⟨w', Sys.work_of_loop hold hw', .refl w'⟩
    cases loop with
    | batch jobs =>
      obtain ⟨job, hjob, rfl⟩ := List.mem_map.1 hw'
      obtain ⟨row, hrow, hread⟩ := htaken job hjob
      exact ⟨job.work, List.mem_append_left _ (mem_work_iff.2 ⟨row, hrow, job, hread, rfl⟩),
        .refl _⟩
    | working job paths failure rest =>
      obtain ⟨hbatch, rfl, -⟩ := htaken
      exact ⟨w', Sys.work_of_loop hbatch hw', .refl w'⟩
  | @tried i job path paths failure rest clock plan found =>
    refine ⟨.of_loops (fun _ hw => hw) (moved_work found fun loop' hloop' w' hw' => ?_) ⟨rfl, rfl⟩,
      le_rfl⟩
    have hshape : ∃ failure', loop' = .working job paths failure' rest := by
      rcases houtcome : ((pinCall job path clock).prog E.digest plan sys.recovery.store).1 with
        reply | e | _
      all_goals
        rw [houtcome] at hloop'
        cases hloop'
      · exact ⟨failure, rfl⟩
      · exact ⟨_, rfl⟩
    obtain ⟨failure', rfl⟩ := hshape
    rcases List.mem_cons.1 hw' with rfl | hw'
    · exact ⟨_, List.mem_cons_self, rfl, rfl, fun p hp => List.mem_cons_of_mem _ hp⟩
    · exact ⟨w', List.mem_cons_of_mem _ hw', .refl w'⟩
  | @settled i job failure rest nowMs plan found =>
    have hrows := (settle_sameTexts : (settle job failure nowMs).Sat sys.events _ _ _).stops plan
    rw [Sys.settleJob]
    rcases hcall : settle job failure nowMs plan sys.events with ⟨outcome, plan', events⟩
    rw [hcall] at hrows
    refine ⟨.of_loops (work_subset hrows.1) (moved_work found fun loop' hloop' w' hw' => ?_)
      ⟨rfl, rfl⟩, hrows.2.ge⟩
    have hbatch : loop' = .batch rest := by
      cases outcome <;> cases hloop' <;> rfl
    rw [hbatch] at hw'
    exact ⟨w', List.mem_cons_of_mem _ hw', .refl w'⟩

/-! ## Runs -/

/-- What is finished stays so, while versions only come with new numbers. -/
theorem Finished.mono {pin : RetentionPin} (h : Finished E sys pin) (hless : LessWork E sys sys')
    (hlast : sys.events.lastDetection ≤ sys'.events.lastDetection)
    (hdescends : Descends sys.index sys'.index) (hbound : pin.versionId ≤ sys.index.lastVersion) :
    Finished E sys' pin := by
  refine ⟨fun id hid => (h.recorded id hid).trans hlast, fun v' hv' hversion w' hw' hincident => ?_⟩
  obtain ⟨v, hv, hcontent⟩ := hdescends.rows v' hv' (by omega)
  simp only [Recovery.BackupVersion.content, Prod.mk.injEq] at hcontent
  obtain ⟨hid, hpath, -, -, htime, -⟩ := hcontent
  rcases hless w' hw' with ⟨w, hw, hsame, hbefore, hpaths⟩ | hnew
  · intro holder path hmem
    rw [← hpath]
    refine h.worked v hv (hid.trans hversion) w hw (hsame ▸ hincident) ?_ path (hpaths path hmem)
    rw [htime, ← hbefore]
    exact holder
  · have := h.recorded _ hincident
    omega

variable (E) in
/-- The tables are in order, and what was released is finished. -/
structure Upheld (sys : Sys) : Prop where
  ledger : Ledger sys.recovery
  versions : ∀ pin ∈ sys.index.pins, pin.versionId ≤ sys.index.lastVersion
  finished : ∀ pin ∈ sys.index.pins, pin.active = false → Finished E sys pin

/-- A step leaves the backup store alone, or is a step of it. -/
theorem Step.recovery_cases (hstep : Step E sys sys') : sys'.recovery = sys.recovery ∨
    ∃ event plan, sys'.recovery = sys.recovery.next E.digest event plan := by
  cases hstep with
  | same => exact .inl rfl
  | recorded made => exact .inl rfl
  | recovery event plan => exact .inr ⟨event, plan, rfl⟩
  | loops moved => exact .inl rfl
  | @tried i job path paths failure rest clock plan found =>
    exact .inr ⟨.call (pinCall job path clock), plan, rfl⟩
  | settled nowMs plan found => exact .inl rfl

theorem Upheld.step (h : Upheld E sys) (hstep : Step E sys sys')
    (hprudent : ∀ pin ∈ sys.index.pins, pin.active = true →
      (∃ pin' ∈ sys'.index.pins, pin'.id = pin.id ∧ pin'.active = false) → Finished E sys pin) :
    Upheld E sys' := by
  obtain ⟨hless, hlast⟩ := hstep.lessWork
  rcases hstep.recovery_cases with hsame | ⟨event, plan, hnext⟩
  · have hindex : sys'.index = sys.index := by rw [Sys.index, Sys.index, hsame]
    refine ⟨hsame ▸ h.ledger, ?_, ?_⟩
    · rw [hindex]
      exact h.versions
    · intro pin hpin hinactive
      rw [hindex] at hpin
      exact (h.finished pin hpin hinactive).mono hless hlast (hindex ▸ .of_versions rfl rfl)
        (h.versions pin hpin)
  · obtain ⟨hledger, hdescends⟩ := h.ledger.next (D := E.digest) event plan
    have htraced : Traced (fun pin => ∃ v ∈ sys.index.versions, pin.versionId = v.id) sys.index
        sys'.index := by
      rw [Sys.index, Sys.index, hnext]
      exact recovery_traced h.ledger event plan
    have hdescends : Descends sys.index sys'.index := by
      rw [Sys.index, Sys.index, hnext]
      exact hdescends
    have hgrown := hdescends.last
    refine ⟨hnext ▸ hledger, fun pin hpin => ?_, fun pin hpin hinactive => ?_⟩
    · rcases htraced pin hpin with hold | ⟨-, old, hold, -, -, -, hversion⟩ | ⟨-, v, hv, hversion⟩
      · have := h.versions pin hold
        omega
      · have := h.versions old hold
        omega
      · have := h.ledger.booked.versionBound v hv
        rw [Sys.index] at hgrown
        omega
    · rcases htraced pin hpin with hold | ⟨-, old, hold, hactive, hid, hincident, hversion⟩ |
        ⟨hactive, -⟩
      · exact (h.finished pin hold hinactive).mono hless hlast hdescends (h.versions pin hold)
      · -- The step has released the reference.
        have hold' := hprudent old hold hactive ⟨pin, hpin, hid.symm, hinactive⟩
        have hpin' : Finished E sys pin := by
          refine ⟨fun id => hincident ▸ hold'.recorded id, fun v hv hv' w hw hw' => ?_⟩
          exact hold'.worked v hv (hv'.trans hversion.symm) w hw (hincident.trans hw')
        exact hpin'.mono hless hlast hdescends (hversion ▸ h.versions old hold)
      · rw [hactive] at hinactive
        cases hinactive

theorem PrudentRun.upheld (hrun : PrudentRun E sys) : Upheld E sys := by
  induction hrun with
  | start => exact ⟨.initial, by simp [Sys.index], by simp [Sys.index]⟩
  | @step sys event plan before prudent ih => exact ih.step (sys.step event plan) prudent

/-- The references of a call of a loop are for its incident, and for versions of the path that are
older than the detection. -/
theorem pinCall_origin {D : Recovery.Digest} {s : Recovery.Store} {job : RetentionJob}
    {path : String} {clock : Nat → Nat} :
    ((pinCall job path clock).prog D).Sat s
      (fun _ s' => ∀ pin ∈ s'.index.pins, pin ∈ s.index.pins ∨
        (pin.incidentId = incidentOf job.detectionId ∧ ∃ v ∈ s.index.versions,
          pin.versionId = v.id ∧ v.path = Path.text (bytesOf path) ∧
          v.timestampMs < (job.detection.timestampMs : Int)))
      (fun s' => s' = s) (fun s' => s' = s) := by
  refine Prog.Sat.bind (Prog.Sat.bind (Prog.Sat.ask (fun _ _ => ?_) rfl))
  refine Prog.Sat.bind (Prog.Sat.ask (fun _ _ => ?_) rfl)
  refine Prog.Sat.bind (Prog.Sat.ask (fun answer hanswer => ?_) rfl)
  obtain ⟨pins, index⟩ := answer
  refine Recovery.commit_sat (Prog.Sat.pure ?_) rfl rfl
  simp only [Prog.answer_bind_iff, Vault.exists_unit_iff] at hanswer
  obtain ⟨versions, hversions, -, hpins⟩ := hanswer
  intro pin hpin
  rcases pinEach_origin hpins pin hpin with hold | ⟨-, hincident, v, hv, hversion⟩
  · exact .inl hold
  obtain ⟨hv, hcond⟩ := List.mem_filter.1 hv
  rw [Recovery.mapVersion_all hversions, (List.perm_insertionSort _ _).mem_iff, List.mem_filter]
    at hv
  simp only [Bool.and_eq_true, decide_eq_true_eq] at hcond hv
  exact .inr ⟨hincident, v, hv.1, hversion, hv.2, hcond.2⟩

/-- In every run in which references are released when the loops have nothing left to pin for them,
no step of a loop brings a released reference back. -/
theorem release_sticks (hrun : PrudentRun E sys) : ReleasesStick E sys := by
  intro event plan hloop pin hpin hactive hnew old hold hincident hversion
  by_contra hreleased
  have hfinished := hrun.upheld.finished old hold (by simpa using hreleased)
  -- Only a step that pins a path changes the index.
  have hindex : (sys.next E event plan).index ≠ sys.index := by
    intro heq
    rw [heq] at hpin
    exact hnew hpin
  cases event with
  | recordDetection => cases hloop
  | insertDetectionWithOutbox => cases hloop
  | recovery => cases hloop
  | start => exact hindex rfl
  | leave i => exact hindex rfl
  | poll i nowMs =>
    apply hindex
    rw [Sys.next]
    split
    · split <;> rfl
    · rfl
  | proceed i clock nowMs =>
    rw [Sys.next] at hpin hindex
    split at hpin
    · exact hnew hpin
    next job path paths failure rest hfound =>
      have horigin := (pinCall_origin : ((pinCall job path clock).prog E.digest).Sat
        sys.recovery.store _ _ _) plan
      rw [Sys.index, Sys.pinPath, Recovery.Sys.next_call] at hpin
      rcases hcall : (pinCall job path clock).prog E.digest plan sys.recovery.store with
        ⟨outcome, plan', store⟩
      rw [hcall] at horigin hpin
      cases outcome with
      | error e =>
        rw [horigin] at hpin
        exact hnew hpin
      | killed =>
        rw [horigin] at hpin
        exact hnew hpin
      | ok reply =>
        rcases horigin pin hpin with hpin | ⟨hpincident, v, hv, hpversion, hpath, holder⟩
        · exact hnew hpin
        · have hwork : (⟨job.detectionId, job.detection.timestampMs, path :: paths⟩ : Work) ∈
              sys.work E := Sys.work_of_loop (List.mem_of_getElem? hfound) List.mem_cons_self
          exact hfinished.worked v hv (hpversion.symm.trans hversion.symm) _ hwork
            (hincident.trans hpincident) holder path List.mem_cons_self hpath
    · exact hnew hpin
    · exact hnew hpin

end Releases

/-! ## Samples -/

/-- The text of the detection on two paths. -/
def sampleTextOfTwo : String :=
  "\x7b\"timestamp_ms\":10,\"rule\":\"test\",\"score\":90.0,\"severity\":\"Critical\"," ++
    "\"summary\":\"test\",\"pid\":42,\"paths\":[\"a\",\"b\"]\x7d"

/-- The environment of the sample with two paths. -/
def sampleEnvOfTwo : Env :=
  ⟨sampleJson (sampleDetection ["a", "b"]) sampleTextOfTwo, Recovery.sampleDigest, fun _ => "오류"⟩

/-- The next step of the loop. -/
def sampleProceed : Event × Plan := (.proceed 0 (fun _ => 2000) 2000, [])

/-- The first reference is released. -/
def sampleRelease : Event × Plan :=
  (.recovery (.call (.releasePin 1 ⟨"CHG-82", "reviewer", "사건 종료 확인"⟩ fun _ => 50)), [])

/-- One of two paths is pinned, the other has no trusted version, so that the request is noted as
failed; the reference is released; and the loop takes up the request again. -/
def sampleRetried : List (Event × Plan) :=
  sampleTrusted ++ samplePass ["a", "b"] ++
    [sampleProceed, sampleRelease, (.poll 0 4000, []), sampleProceed]

/-- The next step of the loop makes a new reference of the incident to the released version. -/
theorem released_reference_returns :
    ¬ ∀ script, ReleasesStick sampleEnvOfTwo (({} : Sys).play sampleEnvOfTwo script) := by
  intro h
  set sys := ({} : Sys).play sampleEnvOfTwo sampleRetried with hsys
  have hpins : (sys.index.pins.map fun pin => (pin.id, pin.incidentId, pin.versionId, pin.active)) =
      [(1, "detection-1", 1, false)] := by decide +kernel
  have hnext : ((sys.next sampleEnvOfTwo sampleProceed.1 []).index.pins.map fun pin =>
      (pin.id, pin.incidentId, pin.versionId, pin.active)) =
      [(1, "detection-1", 1, false), (2, "detection-1", 1, true)] := by decide +kernel
  obtain ⟨old, hold⟩ : ∃ old, sys.index.pins = [old] := by
    rw [← List.length_eq_one_iff, ← List.length_map, hpins]
    rfl
  have hmem : (2, "detection-1", 1, true) ∈
      (sys.next sampleEnvOfTwo sampleProceed.1 []).index.pins.map fun pin =>
        (pin.id, pin.incidentId, pin.versionId, pin.active) := by
    rw [hnext]
    simp
  obtain ⟨pin, hpin, heq⟩ := List.mem_map.1 hmem
  simp only [Prod.mk.injEq] at heq
  rw [hold, List.map_cons, List.map_nil, List.cons.injEq] at hpins
  simp only [Prod.mk.injEq] at hpins
  have hnew : pin ∉ sys.index.pins := by
    rw [hold, List.mem_singleton]
    rintro rfl
    omega
  have hactive := h sampleRetried sampleProceed.1 [] rfl pin hpin heq.2.2.2 hnew old
    (by rw [← hsys, hold]; exact List.mem_singleton_self _) (by rw [hpins.1.2.1, heq.2.1])
    (by rw [hpins.1.2.2.1, heq.2.2.1])
  rw [hpins.1.2.2.2] at hactive
  cases hactive

/-- Along a script every reference stays active. -/
def allActive (E : Env) : Sys → List (Event × Plan) → Bool
  | _, [] => true
  | sys, step :: rest =>
    (sys.next E step.1 step.2).index.pins.all (·.active) &&
      allActive E (sys.next E step.1 step.2) rest

theorem PrudentRun.extend {E : Env} {sys : Sys} (h : PrudentRun E sys)
    {script : List (Event × Plan)} (hactive : allActive E sys script = true) :
    PrudentRun E (sys.play E script) := by
  induction script generalizing sys with
  | nil => exact h
  | cons step rest ih =>
    rw [allActive, Bool.and_eq_true, List.all_eq_true] at hactive
    refine ih (.step step.1 step.2 h fun pin hpin _ hreleased => ?_) hactive.2
    obtain ⟨pin', hpin', -, hinactive⟩ := hreleased
    rw [hactive.1 pin' hpin'] at hinactive
    cases hinactive

theorem incidentOf_injective {a b : Nat} (h : incidentOf a = incidentOf b) : a = b := by
  have hrepr : Nat.repr a = Nat.repr b := (String.append_right_inj _).1 h
  have hdigits : Nat.toDigits 10 a = Nat.toDigits 10 b := by
    simpa using congrArg String.toList hrepr
  rw [← Nat.ofDigitChars_ten_toDigits (n := a), hdigits, Nat.ofDigitChars_ten_toDigits]

/-- The reference of a completed request is released. -/
theorem release_sticks_after_completion :
    let sys := (({} : Sys).play sampleEnv (sampleTrusted ++ samplePass ["a"])).next sampleEnv
      sampleRelease.1 sampleRelease.2
    (sys.index.pins.map (·.active)) = [false] ∧ ReleasesStick sampleEnv sys := by
  set before := ({} : Sys).play sampleEnv (sampleTrusted ++ samplePass ["a"]) with hbefore
  have hactive : allActive sampleEnv {} (sampleTrusted ++ samplePass ["a"]) = true := by
    decide +kernel
  have hrun : PrudentRun sampleEnv before := PrudentRun.start.extend hactive
  refine ⟨by decide +kernel,
    release_sticks (.step _ _ hrun fun pin hpin _ _ => ⟨fun id hid => ?_, ?_⟩)⟩
  · have hincident : ∀ pin ∈ before.index.pins, pin.incidentId = incidentOf 1 := by decide +kernel
    rw [← incidentOf_injective ((hincident pin hpin).symm.trans hid)]
    decide +kernel
  · have hwork : before.work sampleEnv = [] := by decide +kernel
    rw [hwork]
    simp

end Argos.Agent
