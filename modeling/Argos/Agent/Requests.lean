import Argos.Agent.Retention

/-!
# No request for retention is lost

Every call of `record_detection` that asks for retention and returns is pending, completed, or
counted as an overflow, and never two of these (`Accounted`). A job is removed by a loop that has
pinned every path of its detection in one pass without a failure. Such a pass may be repeated, cut,
or run by several loops at once, but the removal is one statement that finds the row at most once.
-/

namespace Argos.Agent

open Argos.Lib
open Argos.Common
open Argos.Vault (bytesOf)
open Argos.Recovery (Path Index BackupVersion RetentionPin)

/-! ## What a successful call keeps -/

/-- Every version of a path that is known to be good and older than a time is kept for an incident.
-/
def Keeps (index : Index) (path : Path) (beforeMs : Nat) (incidentId : String) : Prop :=
  ∀ v ∈ index.versions, v.path = path.text → v.knownGood = true → v.timestampMs < (beforeMs : Int) →
    ∃ pin ∈ index.pins, pin.active = true ∧ pin.incidentId = incidentId ∧ pin.versionId = v.id

section Pins

variable {index index' : Index}

/-- A version is kept after it was pinned, and what was kept stays. -/
theorem pinInTransaction_keeps {version : BackupVersion} {incidentId actor reason : String}
    {reading : Nat} {pin : RetentionPin}
    (h : index.pinInTransaction version incidentId actor reason reading = .ok (pin, index')) :
    index'.versions = index.versions ∧ (∀ old ∈ index.pins, old ∈ index'.pins) ∧
      ∃ new ∈ index'.pins, new.active = true ∧ new.incidentId = incidentId ∧
        new.versionId = version.id := by
  unfold Index.pinInTransaction at h
  split at h
  next found hfound =>
    obtain ⟨-, rfl⟩ := Prod.mk.inj (Except.ok.inj h)
    have hsame := List.find?_some hfound
    obtain ⟨hincident, hversion, hactive⟩ := of_decide_eq_true hsame
    exact ⟨rfl, fun _ hold => hold, found, List.mem_of_find?_eq_some hfound, hactive, hincident,
      hversion⟩
  · simp only [Prog.answer_bind_iff, Index.insertPin, Index.appendAudit, Except.ok.injEq,
      Prod.mk.injEq] at h
    obtain ⟨⟨new, index₁⟩, ⟨id, -, -, -, rfl, rfl⟩, index₂, ⟨entryId, -, rfl⟩, -, rfl⟩ := h
    refine ⟨rfl, fun old hold => List.mem_append_left _ hold, _, List.mem_append_right _
      (List.mem_singleton_self _), rfl, rfl, rfl⟩

theorem pinEach_keeps {incidentId actor reason : String} {clock : Nat → Nat}
    {versions : List BackupVersion} {i : Nat} {pins : List RetentionPin}
    (h : Index.pinEach incidentId actor reason clock versions i index = .ok (pins, index')) :
    index'.versions = index.versions ∧ (∀ old ∈ index.pins, old ∈ index'.pins) ∧
      ∀ v ∈ versions, ∃ new ∈ index'.pins, new.active = true ∧ new.incidentId = incidentId ∧
        new.versionId = v.id := by
  induction versions generalizing i index pins with
  | nil =>
    obtain ⟨-, rfl⟩ := Prod.mk.inj (Except.ok.inj h)
    exact ⟨rfl, fun _ hold => hold, by simp⟩
  | cons version rest ih =>
    simp only [Index.pinEach, Prog.answer_bind_iff, Except.ok.injEq, Prod.mk.injEq] at h
    obtain ⟨⟨pin, index₁⟩, hpin, ⟨pins', index₂⟩, hrest, -, rfl⟩ := h
    obtain ⟨hversions₁, hold₁, new, hnew, hactive, hincident, hversion⟩ :=
      pinInTransaction_keeps hpin
    obtain ⟨hversions₂, hold₂, hkept⟩ := ih hrest
    refine ⟨hversions₂.trans hversions₁, fun old hold => hold₂ old (hold₁ old hold), fun v hv => ?_⟩
    rcases List.mem_cons.1 hv with rfl | hv
    · exact ⟨new, hold₂ new hnew, hactive, hincident, hversion⟩
    · exact hkept v hv

/-- A call of `pin_known_good_before` that returns keeps what was good before. -/
theorem pinKnownGoodBefore_keeps {D : Recovery.Digest} {s : Recovery.Store} {path : Path}
    {beforeMs : Nat} {incidentId actor reason : String} {clock : Nat → Nat} :
    ((Recovery.Call.pinKnownGoodBefore path beforeMs incidentId actor reason clock).prog D).Sat s
      (fun _ s' => Keeps s'.index path beforeMs incidentId) (fun _ => True) (fun _ => True) := by
  refine Prog.Sat.bind (Prog.Sat.bind (Prog.Sat.ask (fun _ _ => ?_) trivial))
  refine Prog.Sat.bind (Prog.Sat.ask (fun _ _ => ?_) trivial)
  refine Prog.Sat.bind (Prog.Sat.ask (fun answer hanswer => ?_) trivial)
  obtain ⟨pins, index⟩ := answer
  refine Recovery.commit_sat (Prog.Sat.pure ?_) trivial trivial
  simp only [Prog.answer_bind_iff, Vault.exists_unit_iff] at hanswer
  obtain ⟨versions, hversions, -, hpins⟩ := hanswer
  obtain ⟨hsame, -, hkept⟩ := pinEach_keeps hpins
  intro v hv hpath hgood hold
  refine hkept v (List.mem_filter.2 ⟨?_, by simp [hgood, hold]⟩)
  -- The versions of a path are its rows.
  rw [Recovery.mapVersion_all hversions, (List.perm_insertionSort _ _).mem_iff, List.mem_filter]
  rw [hsame] at hv
  exact ⟨hv, by simpa using hpath⟩

end Pins

/-! ## The accounts -/

/-- What a call of `pin_known_good_before` has kept. -/
def Pinning.Covers (p : Pinning) : Prop :=
  Keeps p.index (bytesOf p.path) p.beforeMs (incidentOf p.detectionId)

/-- A path was pinned for a detection. -/
def Sys.PinnedFor (sys : Sys) (id : Nat) (d : Detection) (path : String) : Prop :=
  ∃ p ∈ sys.pinnings, p.detectionId = id ∧ p.path = path ∧ p.beforeMs = d.timestampMs

/-- A job stands for a request that was queued. -/
def Sys.Asked (sys : Sys) (job : RetentionJob) : Prop :=
  ∃ r ∈ sys.requests, r.queued = true ∧ r.id = job.detectionId ∧
    job.detection = { r.detection with score := job.detection.score }

/-- A loop works on requests, and has pinned the paths that it has left behind without a failure. -/
def Sys.LoopOk (sys : Sys) : Loop → Prop
  | .batch jobs => ∀ job ∈ jobs, sys.Asked job
  | .working job paths failure rest => (∀ job' ∈ job :: rest, sys.Asked job') ∧
    (failure = none → ∀ path ∈ job.detection.paths,
      path ∈ paths ∨ sys.PinnedFor job.detectionId job.detection path)

variable (E : Env) in
/-- The accounts of the queue. -/
structure Accounted (sys : Sys) : Prop where
  ids : ∀ r ∈ sys.requests, r.id ≤ sys.events.lastDetection
  distinct : (sys.requests.map (·.id)).Nodup
  queued : ((sys.requests.filter (·.queued)).map (·.id)).Perm
    (sys.events.retentionJobs.map (·.detectionId) ++ sys.completions)
  completed : sys.completions.length = sys.events.retentionCounters.completed
  overflow : (sys.requests.filter (!·.queued)).length = sys.events.retentionCounters.overflow
  bound : sys.events.retentionJobs.length ≤ retentionCapacity
  rows : ∀ row ∈ sys.events.retentionJobs, ∃ r ∈ sys.requests, r.queued = true ∧
    r.id = row.detectionId ∧ row.detectionJson = E.json.writeDetection r.detection
  loops : ∀ loop ∈ sys.loops, sys.LoopOk loop
  done : ∀ id ∈ sys.completions, ∃ r ∈ sys.requests, r.queued = true ∧ r.id = id ∧
    ∀ path ∈ r.detection.paths, sys.PinnedFor id r.detection path
  covers : ∀ p ∈ sys.pinnings, p.Covers

section Accounts

variable {E : Env} {sys sys' : Sys}

theorem Sys.Asked.mono (hrequests : ∀ r ∈ sys.requests, r ∈ sys'.requests) {job : RetentionJob}
    (h : sys.Asked job) : sys'.Asked job := by
  obtain ⟨r, hr, hrest⟩ := h
  exact ⟨r, hrequests r hr, hrest⟩

theorem Sys.PinnedFor.mono (hpinnings : ∀ p ∈ sys.pinnings, p ∈ sys'.pinnings) {id : Nat}
    {d : Detection} {path : String} (h : sys.PinnedFor id d path) : sys'.PinnedFor id d path := by
  obtain ⟨p, hp, hrest⟩ := h
  exact ⟨p, hpinnings p hp, hrest⟩

/-- A loop that stands where it stood is still in order, since the past only grows. -/
theorem Sys.LoopOk.mono {loop : Loop} (h : sys.LoopOk loop) (sys' : Sys)
    (hrequests : ∀ r ∈ sys.requests, r ∈ sys'.requests)
    (hpinnings : ∀ p ∈ sys.pinnings, p ∈ sys'.pinnings) : sys'.LoopOk loop := by
  cases loop with
  | batch jobs => exact fun job hjob => (h job hjob).mono hrequests
  | working job paths failure rest =>
    refine ⟨fun job hjob => (h.1 job hjob).mono hrequests, fun hnone path hpath => ?_⟩
    exact (h.2 hnone path hpath).imp_right fun hpinned => hpinned.mono hpinnings

theorem Accounted.done_mono (h : Accounted E sys) (sys' : Sys)
    (hrequests : ∀ r ∈ sys.requests, r ∈ sys'.requests)
    (hpinnings : ∀ p ∈ sys.pinnings, p ∈ sys'.pinnings) :
    ∀ id ∈ sys.completions, ∃ r ∈ sys'.requests, r.queued = true ∧ r.id = id ∧
      ∀ path ∈ r.detection.paths, sys'.PinnedFor id r.detection path := by
  intro id hid
  obtain ⟨r, hr, hqueued, heq, hpaths⟩ := h.done id hid
  exact ⟨r, hrequests r hr, hqueued, heq, fun path hpath => (hpaths path hpath).mono hpinnings⟩

theorem Accounted.rows_mono (h : Accounted E sys) (sys' : Sys)
    (hrequests : ∀ r ∈ sys.requests, r ∈ sys'.requests) :
    ∀ row ∈ sys.events.retentionJobs, ∃ r ∈ sys'.requests, r.queued = true ∧
      r.id = row.detectionId ∧ row.detectionJson = E.json.writeDetection r.detection := by
  intro row hrow
  obtain ⟨r, hr, hrest⟩ := h.rows row hrow
  exact ⟨r, hrequests r hr, hrest⟩

/-- A detection was recorded. -/
theorem Accounted.recorded (h : Accounted E sys) {id : Nat} {d : Detection}
    {agentId : Option String} {retain : Bool} {deliveryId : String} {events : EventDb}
    (made : Recorded E.json sys.events events id d agentId retain deliveryId) :
    Accounted E { sys with
      events := events
      requests := if retain then
          sys.requests ++ [⟨id, d, sys.events.retentionJobs.length < retentionCapacity⟩]
        else sys.requests } := by
  have hnew : ∀ r ∈ sys.requests, r.id < id := by
    intro r hr
    have := h.ids r hr
    have := made.number
    omega
  cases retain with
  | false =>
    obtain ⟨hjobs, hcounters⟩ := made.quiet rfl
    refine ⟨fun r hr => ?_, h.distinct, ?_, ?_, ?_, ?_, ?_, h.loops, h.done, h.covers⟩
    · rw [made.last]
      exact (hnew r hr).le
    · rw [hjobs]
      exact h.queued
    · rw [hcounters]
      exact h.completed
    · rw [hcounters]
      exact h.overflow
    · rw [hjobs]
      exact h.bound
    · rw [hjobs]
      exact h.rows
  | true =>
    simp only [if_true]
    set request : Request := ⟨id, d, sys.events.retentionJobs.length < retentionCapacity⟩
      with hrequest
    have hgrown : ∀ r ∈ sys.requests, r ∈ sys.requests ++ [request] := fun r hr =>
      List.mem_append_left _ hr
    have hids : ∀ r ∈ sys.requests ++ [request], r.id ≤ events.lastDetection := by
      intro r hr
      rw [made.last]
      rcases List.mem_append.1 hr with hr | hr
      · exact (hnew r hr).le
      · rw [List.mem_singleton.1 hr]
    have hdistinct : ((sys.requests ++ [request]).map (·.id)).Nodup := by
      rw [List.map_append]
      refine h.distinct.append (List.nodup_singleton _) ?_
      intro n hn hn'
      obtain ⟨r, hr, rfl⟩ := List.mem_map.1 hn
      have := hnew r hr
      simp only [List.map_cons, List.map_nil, List.mem_singleton, hrequest] at hn'
      omega
    set next : Sys := { sys with events := events, requests := sys.requests ++ [request] }
    have hloops : ∀ loop ∈ sys.loops, next.LoopOk loop := fun loop hloop =>
      (h.loops loop hloop).mono next hgrown fun _ hp => hp
    have hdone := h.done_mono next hgrown fun _ hp => hp
    have hrows := h.rows_mono next hgrown
    by_cases hroom : sys.events.retentionJobs.length < retentionCapacity
    · obtain ⟨hjobs, hcounters⟩ := made.queued rfl hroom
      have hqueued : request.queued = true := by simp [hrequest, hroom]
      refine ⟨hids, hdistinct, ?_, ?_, ?_, ?_, ?_, hloops, hdone, h.covers⟩
      · -- The new row takes the place of the new request.
        rw [hjobs, List.filter_append, List.map_append, List.map_append,
          List.filter_cons_of_pos hqueued, List.filter_nil]
        refine (h.queued.append_right _).trans ?_
        simp only [List.append_assoc, List.map_cons, List.map_nil]
        exact List.Perm.append_left _ List.perm_append_comm
      · rw [hcounters]
        exact h.completed
      · rw [hcounters, List.filter_append, List.filter_cons_of_neg (by simp [hqueued]),
          List.filter_nil, List.append_nil]
        exact h.overflow
      · rw [hjobs, List.length_append, List.length_singleton]
        exact hroom
      · intro row hrow
        rw [hjobs] at hrow
        rcases List.mem_append.1 hrow with hrow | hrow
        · exact hrows row hrow
        · rw [List.mem_singleton.1 hrow]
          exact ⟨request, List.mem_append_right _ (List.mem_singleton_self _), hqueued, rfl, rfl⟩
    · obtain ⟨hjobs, hcounters⟩ := made.overflowed rfl hroom
      have hqueued : request.queued = false := by simp [hrequest, hroom]
      refine ⟨hids, hdistinct, ?_, ?_, ?_, ?_, ?_, hloops, hdone, h.covers⟩
      · rw [hjobs, List.filter_append, List.filter_cons_of_neg (by simp [hqueued]), List.filter_nil,
          List.append_nil]
        exact h.queued
      · rw [hcounters]
        exact h.completed
      · rw [hcounters, List.filter_append, List.filter_cons_of_pos (by simp [hqueued]),
          List.filter_nil, List.length_append, List.length_singleton, h.overflow]
      · rw [hjobs]
        exact h.bound
      · rw [hjobs]
        exact hrows

/-- Loops are started, leave, read a batch, or take up a job. -/
theorem Accounted.movedLoops (hJ : E.json.Faithful) (h : Accounted E sys) {loops : List Loop}
    (moved : ∀ loop ∈ loops, loop ∈ sys.loops ∨ sys.Taken E loop) :
    Accounted E { sys with loops := loops } := by
  refine { h with loops := fun loop hloop => ?_ }
  rcases moved loop hloop with hloop | htaken
  · exact h.loops loop hloop
  cases loop with
  | batch jobs =>
    intro job hjob
    obtain ⟨row, hrow, hread⟩ := htaken job hjob
    obtain ⟨r, hr, hqueued, hid, hjson⟩ := h.rows row hrow
    unfold RetentionRow.job at hread
    split at hread
    next d hd =>
      rw [hjson] at hd
      rw [← Except.ok.inj hread]
      exact ⟨r, hr, hqueued, hid, hJ _ _ hd⟩
    · cases hread
  | working job paths failure rest =>
    obtain ⟨hbatch, rfl, rfl⟩ := htaken
    exact ⟨h.loops _ hbatch, fun _ path hpath => .inl hpath⟩

/-- A path was tried. -/
theorem Accounted.tried (h : Accounted E sys) {i : Nat} {job : RetentionJob} {path : String}
    {paths : List String} {failure : Option String} {rest : List RetentionJob}
    (clock : Nat → Nat) (plan : Plan)
    (found : sys.loops[i]? = some (.working job (path :: paths) failure rest)) :
    Accounted E (sys.pinPath E i job path paths failure rest clock plan) := by
  obtain ⟨hasked, hpinned⟩ := h.loops _ (List.mem_of_getElem? found)
  have hkeeps : ((pinCall job path clock).prog E.digest).Sat sys.recovery.store
      (fun _ s' => Keeps s'.index (bytesOf path) job.detection.timestampMs
        (incidentOf job.detectionId)) (fun _ => True) (fun _ => True) := pinKnownGoodBefore_keeps
  have hrun := hkeeps plan
  rw [Sys.pinPath, Recovery.Sys.next_call]
  rcases hcall : (pinCall job path clock).prog E.digest plan sys.recovery.store with
    ⟨outcome, plan', store⟩
  rw [hcall] at hrun
  dsimp only
  cases outcome with
  | ok reply =>
    simp only [Outcome.isOk, if_true]
    set new : Pinning := ⟨job.detectionId, path, job.detection.timestampMs, store.index⟩ with hnew
    have hgrown : ∀ p ∈ sys.pinnings, p ∈ sys.pinnings ++ [new] := fun p hp =>
      List.mem_append_left _ hp
    refine ⟨h.ids, h.distinct, h.queued, h.completed, h.overflow, h.bound, h.rows, ?_,
      h.done_mono _ (fun _ hr => hr) hgrown, ?_⟩
    · intro loop hloop
      rcases List.mem_or_eq_of_mem_set hloop with hloop | rfl
      · exact (h.loops loop hloop).mono _ (fun _ hr => hr) hgrown
      · refine ⟨hasked, fun hnone other hother => ?_⟩
        rcases hpinned hnone other hother with hmem | hpin
        · rcases List.mem_cons.1 hmem with rfl | hmem
          · exact .inr ⟨new, List.mem_append_right _ (List.mem_singleton_self _), rfl, rfl, rfl⟩
          · exact .inl hmem
        · exact .inr (hpin.mono hgrown)
    · intro p hp
      rcases List.mem_append.1 hp with hp | hp
      · exact h.covers p hp
      · rw [List.mem_singleton.1 hp]
        exact hrun
  | error e =>
    simp only [Outcome.isOk]
    refine { h with loops := fun loop hloop => ?_ }
    rcases List.mem_or_eq_of_mem_set hloop with hloop | rfl
    · exact h.loops loop hloop
    · exact ⟨hasked, by rintro ⟨⟩⟩
  | killed =>
    simp only [Outcome.isOk]
    exact { h with loops := fun loop hloop => h.loops loop (List.mem_of_mem_eraseIdx hloop) }

/-- The last step of a job: with a failure the row is updated, otherwise it is removed. -/
theorem settle_sat {db : EventDb} {job : RetentionJob} {failure : Option String} {nowMs : Nat} :
    (settle job failure nowMs).Sat db
      (fun _ db' => (failure = none ∧ db' = db.retentionAcknowledged job.detectionId) ∨
        ∃ error, failure = some error ∧
          db' = db.retentionFailed job.detectionId error (nextAttempt job nowMs))
      (fun db' => db' = db) (fun db' => db' = db) := by
  cases failure with
  | none => exact commitWith_sat.mono (fun _ _ h => .inl ⟨rfl, h⟩) (fun _ h => h) (fun _ h => h)
  | some error =>
    refine Prog.Sat.bind (Prog.Sat.ask (fun _ _ => ?_) rfl)
    exact commitWith_sat.mono (fun _ _ h => .inr ⟨error, rfl, h⟩) (fun _ h => h) (fun _ h => h)

/-- Of rows with different numbers, all but one number stay when a row is removed. -/
theorem perm_removed {rows : List RetentionRow} {id : Nat}
    (hdistinct : (rows.map (·.detectionId)).Nodup) (hmem : id ∈ rows.map (·.detectionId)) :
    (rows.map (·.detectionId)).Perm
      (id :: (rows.filter fun row => row.detectionId ≠ id).map (·.detectionId)) := by
  have herase : (rows.filter fun row => row.detectionId ≠ id).map (·.detectionId) =
      (rows.map (·.detectionId)).erase id := by
    rw [hdistinct.erase_eq_filter, List.filter_map]
    congr 1
    apply List.filter_congr
    intro row _
    by_cases heq : row.detectionId = id <;> simp [heq]
  rw [herase]
  exact List.perm_cons_erase hmem

/-- The numbers of the rows, and the completed ones, are different. -/
theorem Accounted.nodup (h : Accounted E sys) :
    (sys.events.retentionJobs.map (·.detectionId) ++ sys.completions).Nodup :=
  h.queued.nodup_iff.1 (h.distinct.sublist (List.filter_sublist.map _))

/-- A row was removed by a loop that had pinned every path. -/
theorem Accounted.acknowledged (h : Accounted E sys) {job : RetentionJob} {loops : List Loop}
    (hasked : sys.Asked job)
    (hpinned : ∀ path ∈ job.detection.paths, sys.PinnedFor job.detectionId job.detection path)
    (hrow : sys.events.retentionJobs.any (fun row => row.detectionId = job.detectionId) = true)
    (hloops : ∀ loop ∈ loops, sys.LoopOk loop) :
    Accounted E { sys with
      events := sys.events.retentionAcknowledged job.detectionId
      loops := loops
      completions := sys.completions ++ [job.detectionId] } := by
  have hmem : job.detectionId ∈ sys.events.retentionJobs.map (·.detectionId) := by
    obtain ⟨row, hrow, hid⟩ := List.any_eq_true.1 hrow
    exact List.mem_map.2 ⟨row, hrow, of_decide_eq_true hid⟩
  rw [EventDb.retentionAcknowledged, if_pos hrow]
  refine ⟨h.ids, h.distinct, ?_, ?_, h.overflow, ?_, ?_, hloops, ?_, h.covers⟩
  · have hremoved := perm_removed (List.nodup_append.1 h.nodup).1 hmem
    refine h.queued.trans ((hremoved.append_right _).trans ?_)
    rw [← List.append_assoc]
    exact (List.perm_append_singleton _ _).symm
  · rw [List.length_append, List.length_singleton, h.completed]
  · exact (List.length_filter_le _ _).trans h.bound
  · exact fun row hrow => h.rows row (List.mem_of_mem_filter hrow)
  · intro id hid
    rcases List.mem_append.1 hid with hid | hid
    · exact h.done id hid
    · obtain ⟨r, hr, hqueued, heq, hdetection⟩ := hasked
      rw [List.mem_singleton.1 hid]
      refine ⟨r, hr, hqueued, heq, ?_⟩
      -- Only the score of the job may differ, and neither its paths nor its time depend on that.
      rw [hdetection] at hpinned
      exact hpinned

/-- A failed attempt was noted. -/
theorem Accounted.failed (h : Accounted E sys) (id : Nat) (error : String) (nextAttemptMs : Nat)
    {loops : List Loop} (hloops : ∀ loop ∈ loops, sys.LoopOk loop) :
    Accounted E { sys with
      events := sys.events.retentionFailed id error nextAttemptMs
      loops := loops } := by
  unfold EventDb.retentionFailed
  split
  · have hids : (sys.events.retentionJobs.map fun row => if row.detectionId = id then
        EventDb.failedJob error nextAttemptMs row else row).map (·.detectionId) =
        sys.events.retentionJobs.map (·.detectionId) := by
      rw [List.map_map]
      apply List.map_congr_left
      intro row _
      show (if row.detectionId = id then EventDb.failedJob error nextAttemptMs row
        else row).detectionId = row.detectionId
      split <;> rfl
    refine ⟨h.ids, h.distinct, ?_, h.completed, h.overflow, ?_, ?_, hloops, h.done, h.covers⟩
    · dsimp only
      rw [hids]
      exact h.queued
    · dsimp only
      rw [List.length_map]
      exact h.bound
    · intro row hrow
      obtain ⟨old, hold, rfl⟩ := List.mem_map.1 hrow
      obtain ⟨r, hr, hrest⟩ := h.rows old hold
      refine ⟨r, hr, ?_⟩
      split
      · exact hrest
      · exact hrest
  · exact { h with loops := hloops }

/-- A job was settled. -/
theorem Accounted.settled (h : Accounted E sys) {i : Nat} {job : RetentionJob}
    {failure : Option String} {rest : List RetentionJob} (nowMs : Nat) (plan : Plan)
    (found : sys.loops[i]? = some (.working job [] failure rest)) :
    Accounted E (sys.settleJob i job failure rest nowMs plan) := by
  obtain ⟨hasked, hpinned⟩ := h.loops _ (List.mem_of_getElem? found)
  have hnext : ∀ loop ∈ sys.loops.set i (.batch rest), sys.LoopOk loop := by
    intro loop hloop
    rcases List.mem_or_eq_of_mem_set hloop with hloop | rfl
    · exact h.loops loop hloop
    · exact fun job' hjob' => hasked job' (List.mem_cons_of_mem _ hjob')
  have hrun := (settle_sat : (settle job failure nowMs).Sat sys.events _ _ _) plan
  rw [Sys.settleJob]
  rcases hcall : settle job failure nowMs plan sys.events with ⟨outcome, plan', events⟩
  rw [hcall] at hrun
  dsimp only
  cases outcome with
  | ok u =>
    rcases hrun with ⟨rfl, rfl⟩ | ⟨error, rfl, rfl⟩
    · by_cases hrow : sys.events.retentionJobs.any (fun row => row.detectionId = job.detectionId)
      · rw [if_pos ⟨rfl, rfl, hrow⟩]
        refine h.acknowledged (hasked job List.mem_cons_self) (fun path hpath => ?_) hrow hnext
        exact (hpinned rfl path hpath).resolve_left (by simp)
      · -- Another loop has removed the row.
        rw [if_neg (fun hcond => hrow hcond.2.2), EventDb.retentionAcknowledged, if_neg hrow]
        exact { h with loops := hnext }
    · rw [if_neg (by simp)]
      exact h.failed _ _ _ hnext
  | error e =>
    rw [hrun, if_neg (by simp [Outcome.isOk])]
    exact { h with loops := hnext }
  | killed =>
    rw [hrun, if_neg (by simp [Outcome.isOk])]
    exact { h with loops := fun loop hloop => h.loops loop (List.mem_of_mem_eraseIdx hloop) }

/-- One step keeps the accounts. -/
theorem Accounted.step (hJ : E.json.Faithful) (h : Accounted E sys) (hstep : Step E sys sys') :
    Accounted E sys' := by
  cases hstep with
  | same => exact h
  | recorded made => exact h.recorded made
  | recovery event plan => exact { h with }
  | loops moved => exact h.movedLoops hJ moved
  | tried clock plan found => exact h.tried clock plan found
  | settled nowMs plan found => exact h.settled nowMs plan found

theorem Accounted.play (hJ : E.json.Faithful) (h : Accounted E sys) (script : List (Event × Plan)) :
    Accounted E (sys.play E script) :=
  Sys.play_induction h (fun sys event plan h => h.step hJ (sys.step event plan)) script

theorem Accounted.initial (recovery : Recovery.Sys) : Accounted E { recovery := recovery } := by
  refine ⟨?_, ?_, ?_, rfl, rfl, Nat.zero_le _, ?_, ?_, ?_, ?_⟩ <;> simp

/-- The overflow is counted by a call that finds the queue full. -/
theorem Step.overflow (h : Accounted E sys) (hstep : Step E sys sys')
    (hgrown : sys'.events.retentionCounters.overflow ≠ sys.events.retentionCounters.overflow) :
    sys.events.retentionJobs.length = retentionCapacity := by
  have hbound := h.bound
  cases hstep with
  | same => exact (hgrown rfl).elim
  | @recorded id d agentId retain deliveryId events made =>
    cases retain with
    | false => exact (hgrown (by rw [(made.quiet rfl).2])).elim
    | true =>
      by_cases hroom : sys.events.retentionJobs.length < retentionCapacity
      · exact (hgrown (by rw [(made.queued rfl hroom).2])).elim
      · omega
  | recovery event plan => exact (hgrown rfl).elim
  | loops moved => exact (hgrown rfl).elim
  | tried clock plan found => exact (hgrown rfl).elim
  | @settled i job failure rest nowMs plan found =>
    exfalso
    apply hgrown
    have hrun := (settle_sat : (settle job failure nowMs).Sat sys.events _ _ _) plan
    rw [Sys.settleJob]
    rcases hcall : settle job failure nowMs plan sys.events with ⟨outcome, plan', events⟩
    rw [hcall] at hrun
    dsimp only
    cases outcome with
    | ok u =>
      rcases hrun with ⟨-, rfl⟩ | ⟨error, -, rfl⟩
      · unfold EventDb.retentionAcknowledged
        split <;> rfl
      · unfold EventDb.retentionFailed
        split <;> rfl
    | error e => rw [hrun]
    | killed => rw [hrun]

/-- After every script: the calls that asked for retention and returned are the pending jobs, the
completed ones and the overflow; at most `10000` are pending, and the overflow grows only when
`10000` are; no job is counted as completed twice; and for a job that has left the queue, every path
of its detection was pinned by a call that kept all versions then known to be good and older than
the detection. -/
theorem requests_accounted (hJ : E.json.Faithful) (recovery : Recovery.Sys)
    (script : List (Event × Plan)) :
    let sys := ({ recovery := recovery } : Sys).play E script
    let stats := retentionStats sys.events
    sys.requests.length = stats.pending + stats.completed + stats.overflow ∧
    stats.pending ≤ 10000 ∧
    (∀ event plan, (retentionStats (sys.next E event plan).events).overflow ≠ stats.overflow →
      stats.pending = 10000) ∧
    sys.completions.Nodup ∧ sys.completions.length = stats.completed ∧
    ∀ r ∈ sys.requests, r.queued = true →
      (∀ row ∈ sys.events.retentionJobs, row.detectionId ≠ r.id) →
      ∀ path ∈ r.detection.paths, ∃ p ∈ sys.pinnings, p.detectionId = r.id ∧ p.path = path ∧
        p.beforeMs = r.detection.timestampMs ∧
        Keeps p.index (bytesOf path) r.detection.timestampMs (incidentOf r.id) := by
  intro sys stats
  have h : Accounted E sys := (Accounted.initial recovery).play hJ script
  refine ⟨?_, h.bound, fun event plan hgrown => ?_, (List.nodup_append.1 h.nodup).2.1, h.completed,
    fun r hr hqueued hgone path hpath => ?_⟩
  · have hlength := h.queued.length_eq
    simp only [List.length_map, List.length_append] at hlength
    have hsplit := List.length_eq_length_filter_add (l := sys.requests) (·.queued)
    have hcompleted := h.completed
    have hoverflow := h.overflow
    simp only [stats, retentionStats]
    omega
  · exact Step.overflow h (sys.step event plan) hgrown
  · -- The request is queued and not pending, so it was completed.
    have hmem : r.id ∈ sys.events.retentionJobs.map (·.detectionId) ++ sys.completions :=
      h.queued.mem_iff.1 (List.mem_map.2 ⟨r, List.mem_filter.2 ⟨hr, hqueued⟩, rfl⟩)
    rcases List.mem_append.1 hmem with hmem | hmem
    · obtain ⟨row, hrow, hid⟩ := List.mem_map.1 hmem
      exact absurd hid (hgone row hrow)
    obtain ⟨r', hr', -, hid, hpinned⟩ := h.done r.id hmem
    have heq : r' = r := List.inj_on_of_nodup_map h.distinct hr' hr hid
    rw [heq] at hpinned
    obtain ⟨p, hp, hpid, hppath, hbefore⟩ := hpinned path hpath
    refine ⟨p, hp, hpid, hppath, hbefore, ?_⟩
    have hcovers := h.covers p hp
    rw [Pinning.Covers, hpid, hppath, hbefore] at hcovers
    exact hcovers

end Accounts

/-! ## A sample -/

/-- `serde_json` on one detection with its text; the texts of other detections are not modelled. -/
def sampleJson (known : Detection) (text : String) : Json where
  writeDetection d := if d = known then text else ""
  readDetection t := if t = text then some known else none
  writePaths _ := "[\"a\"]"

theorem sampleJson_read (known : Detection) {text : String} (htext : text ≠ "") {d d' : Detection}
    (h : (sampleJson known text).readDetection ((sampleJson known text).writeDetection d) = some d') :
    d' = d := by
  unfold sampleJson at h
  dsimp only at h
  by_cases heq : d = known
  · simp only [heq, if_true, Option.some.injEq] at h
    rw [← h, heq]
  · simp [heq, htext.symm] at h

/-- A detection on some paths. -/
def sampleDetection (paths : List String) : Detection :=
  ⟨10, "test", .finite 90, .critical, "test", 42, paths⟩

/-- The text of the detection on one path. -/
def sampleText : String :=
  "\x7b\"timestamp_ms\":10,\"rule\":\"test\",\"score\":90.0,\"severity\":\"Critical\"," ++
    "\"summary\":\"test\",\"pid\":42,\"paths\":[\"a\"]\x7d"

/-- The environment of the sample. -/
def sampleEnv : Env :=
  ⟨sampleJson (sampleDetection ["a"]) sampleText, Recovery.sampleDigest, fun _ => "오류"⟩

/-- A file is backed up and judged as good. -/
def sampleTrusted : List (Event × Plan) :=
  [(.recovery (Recovery.sampleBackup [1] 5).1, []),
    (.recovery (.begin ⟨Recovery.samplePath, 1, "검토 완료", true⟩), []),
    (.recovery (.proceed 0), []), (.recovery (.proceed 0), []), (.recovery (.proceed 0), [])]

/-- A detection is recorded, and a loop takes up its request. -/
def samplePass (paths : List String) : List (Event × Plan) :=
  [(.recordDetection (sampleDetection paths) none true "" 10, []), (.start, []), (.poll 0 20, []),
    (.proceed 0 (fun _ => 20) 20, []), (.proceed 0 (fun _ => 20) 20, []),
    (.proceed 0 (fun _ => 20) 20, [])]

/-- A request is recorded, its path is pinned, and it is completed. -/
theorem requests_accounted_one_job :
    let sys := ({ recovery := {} } : Sys).play sampleEnv (sampleTrusted ++ samplePass ["a"])
    sys.completions = [1] ∧ sys.requests.length = 0 + 1 + 0 := by
  have hJ : sampleEnv.json.Faithful := fun d d' h => by
    rw [sampleJson_read (sampleDetection ["a"]) (by decide) h]
  have h := requests_accounted hJ {} (sampleTrusted ++ samplePass ["a"])
  refine ⟨by decide +kernel, h.1.trans ?_⟩
  decide +kernel

end Argos.Agent
