import Argos.Agent.Requests
import Argos.Central.Reporter

/-!
# Every detection is reported once

A reporter removes an entry only after the server has answered its request with a success, and the
server answers with a success only after it has stored the row. So what was recorded is in the event
store or at the server, whatever the network loses, delays or delivers twice; and what arrives twice
is dropped by the unique index. `Exact` says all that of a system, one step keeps it, and
`reported_exactly_once` reads it off every run.

The texts of `serde_json` are read back as they were written, up to the score: it is built without
`float_roundtrip`, so a score that was written may be read as its neighbour. `Codec.Keeps` has the
number that is read as a function of the number that was written.
-/

namespace Argos.Central

open Argos.Lib
open Argos.Common
open Argos.Agent (EventDb OutboxEntry OutboxRow)
open Argos.Recovery (i64Max asI64)

/-- What is read is what was written, if it can be read, with the number that the text of the score
is taken for. -/
structure Codec.Keeps (C : Codec) (rounded : Number → Number) : Prop where
  detection : ∀ d d', C.json.readDetection (C.json.writeDetection d) = some d' →
    d' = { d with score := rounded d.score }
  report : ∀ r r', C.transmitted r = some r' → r' = { r with score := rounded r.score }

/-- A row of the server holds a detection that was recorded. -/
structure ReportRow.Holds (C : Codec) (rounded : Number → Number) (row : ReportRow) (r : Record) :
    Prop where
  agentId : row.agentId = r.agentId
  deliveryId : row.deliveryId = some r.deliveryId
  timestampMs : row.timestampMs = r.detection.timestampMs
  rule : row.rule = r.detection.rule
  score : row.score = rounded (rounded r.detection.score)
  severity : row.severity = r.detection.severity.asStr
  summary : row.summary = r.detection.summary
  pid : row.pid = r.detection.pid
  paths : row.pathsJson = C.json.writePaths r.detection.paths

/-- An event store has an entry for an agent and a delivery number. -/
def Pending (db : EventDb) (agentId deliveryId : String) : Prop :=
  ∃ row ∈ db.outbox, row.agentId = agentId ∧ row.deliveryId = deliveryId

/-! ## The event store of one host -/

section Outbox

variable {C : Codec} {db db' : EventDb} {agentId deliveryId : String}

/-- The entries of an agent that are pending, and those that were acknowledged. -/
def accounted (db : EventDb) (agentId : String) : Nat :=
  (Agent.outboxStats db agentId).pending + (Agent.outboxStats db agentId).acknowledged

/-- An acknowledged entry moves from the entries that are pending to the count of the others. -/
theorem accounted_acknowledged (hids : (db.outbox.map (·.deliveryId)).Nodup) (agent : String) :
    accounted (db.deliveryAcknowledged deliveryId agentId) agent = accounted db agent := by
  unfold EventDb.deliveryAcknowledged
  split
  next hany =>
    obtain ⟨row, hrow, hsame⟩ := List.any_eq_true.1 hany
    obtain ⟨hdelivery, hagent⟩ := of_decide_eq_true hsame
    obtain ⟨before, after, hsplit⟩ := List.append_of_mem hrow
    -- No other entry has the number.
    have hother : ∀ w ∈ before ++ after, w.deliveryId ≠ deliveryId := by
      rw [hsplit, List.map_append, List.map_cons, List.nodup_middle, List.nodup_cons] at hids
      intro w hw heq
      refine hids.1 ?_
      rw [← List.map_append, hdelivery, ← heq]
      exact List.mem_map_of_mem hw
    have hkeep : ∀ w ∈ before ++ after,
        decide (¬(w.deliveryId = deliveryId ∧ w.agentId = agentId)) = true := fun w hw =>
      decide_eq_true fun h => hother w hw h.1
    have hleft : db.outbox.filter (fun w => ¬(w.deliveryId = deliveryId ∧ w.agentId = agentId)) =
        before ++ after := by
      rw [hsplit, List.filter_append, List.filter_cons_of_neg (by simp [hdelivery, hagent])]
      rw [List.filter_eq_self.2 fun w hw => hkeep w (List.mem_append_left _ hw),
        List.filter_eq_self.2 fun w hw => hkeep w (List.mem_append_right _ hw)]
    simp only [accounted, Agent.outboxStats, hleft, valueAt_bump]
    rw [hsplit]
    by_cases heq : agent = agentId
    · subst heq
      simp only [List.filter_append, List.length_append, List.filter_cons, hagent, decide_true, if_true,
        List.length_cons]
      omega
    · have hne : row.agentId ≠ agent := fun h => heq (h.symm.trans hagent)
      simp only [List.filter_append, List.length_append, if_neg heq, List.filter_cons, hne,
        decide_false, Bool.false_eq_true, if_false]
  · rfl

/-- The entries after an acknowledgement are entries from before. -/
theorem mem_acknowledged {row : OutboxRow}
    (h : row ∈ (db.deliveryAcknowledged deliveryId agentId).outbox) : row ∈ db.outbox := by
  unfold EventDb.deliveryAcknowledged at h
  split at h
  · exact List.mem_of_mem_filter h
  · exact h

theorem acknowledged_sublist :
    List.Sublist (db.deliveryAcknowledged deliveryId agentId).outbox db.outbox := by
  unfold EventDb.deliveryAcknowledged
  split
  · exact List.filter_sublist
  · exact List.Sublist.refl _

/-- Only the acknowledged entry goes. -/
theorem acknowledged_kept {row : OutboxRow} (h : row ∈ db.outbox) :
    row ∈ (db.deliveryAcknowledged deliveryId agentId).outbox ∨
      (row.deliveryId = deliveryId ∧ row.agentId = agentId) := by
  unfold EventDb.deliveryAcknowledged
  split
  · by_cases hsame : row.deliveryId = deliveryId ∧ row.agentId = agentId
    · exact .inr hsame
    · exact .inl (List.mem_filter.2 ⟨h, decide_eq_true hsame⟩)
  · exact .inl h

/-- What is known of an entry besides its attempts. -/
def rowKey (row : OutboxRow) : String × String × String :=
  (row.agentId, row.deliveryId, row.detectionJson)

/-- A failure that is noted changes no entry but for its attempts. -/
theorem failed_keys (error : String) :
    (db.deliveryFailed deliveryId agentId error).outbox.map rowKey = db.outbox.map rowKey := by
  unfold EventDb.deliveryFailed
  split
  · rw [List.map_map]
    refine List.map_congr_left fun row _ => ?_
    simp only [Function.comp_apply]
    split <;> rfl
  · rfl

theorem accounted_failed (error agent : String) :
    accounted (db.deliveryFailed deliveryId agentId error) agent = accounted db agent := by
  have hcount : ∀ rows : List OutboxRow, (rows.filter fun row => row.agentId = agent).length =
      ((rows.map rowKey).filter fun key => key.1 = agent).length := by
    intro rows
    rw [List.filter_map, List.length_map]
    rfl
  have hpending : (Agent.outboxStats (db.deliveryFailed deliveryId agentId error) agent).pending =
      (Agent.outboxStats db agent).pending := by
    show (List.filter _ _).length = (List.filter _ _).length
    rw [hcount, hcount, failed_keys]
  have hcounters : (Agent.outboxStats (db.deliveryFailed deliveryId agentId error) agent).acknowledged =
      (Agent.outboxStats db agent).acknowledged := by
    unfold EventDb.deliveryFailed
    split
    · simp only [Agent.outboxStats, valueAt_bump]
      split
      next heq => rw [heq]
      · rfl
    · rfl
  rw [accounted, accounted, hpending, hcounters]

/-- A recorded detection is pending for its agent. -/
theorem accounted_recorded {id : Nat} {d : Detection} {target : Option String} {retain : Bool}
    (h : Agent.Recorded C.json db db' id d target retain deliveryId) (agent : String) :
    accounted db' agent = accounted db agent + if target = some agent then 1 else 0 := by
  simp only [accounted, Agent.outboxStats, h.counters]
  cases target with
  | none =>
    rw [h.silent rfl]
    simp
  | some a =>
    obtain ⟨row, -, hagent, -, hrows⟩ := h.sent a rfl
    rw [hrows, List.filter_append, List.length_append]
    by_cases heq : a = agent
    · subst heq
      simp only [List.filter_cons, hagent, decide_true, if_true, List.filter_nil, List.length_cons,
        List.length_nil]
      omega
    · have hne : row.agentId ≠ agent := fun h => heq (hagent.symm.trans h)
      simp [hne, heq]

/-- The first pending entry is that of a row. -/
theorem pendingDeliveries_row {rest : List OutboxEntry} {entry : OutboxEntry} {limit : Nat}
    (h : Agent.pendingDeliveries C.json db agentId limit = .ok (entry :: rest)) :
    ∃ row ∈ db.outbox, row.agentId = agentId ∧ entry.agentId = agentId ∧
      entry.deliveryId = row.deliveryId ∧
      C.json.readDetection row.detectionJson = some entry.detection := by
  unfold Agent.pendingDeliveries at h
  rw [Prog.answer_bind_iff] at h
  obtain ⟨-, -, h⟩ := h
  obtain ⟨row, hrow, hread⟩ := Prog.answer_mapM_mem h entry List.mem_cons_self
  obtain ⟨hmem, hagent⟩ := List.mem_filter.1 (List.mem_of_mem_take hrow)
  have hagent : row.agentId = agentId := of_decide_eq_true hagent
  unfold OutboxRow.entry at hread
  split at hread
  next d hd =>
    rw [← Except.ok.inj hread]
    exact ⟨row, hmem, hagent, hagent, rfl, hd⟩
  · cases hread

end Outbox

/-! ## The whole system -/

section Runs

variable {C : Codec} {rounded : Number → Number} {sys sys' : Sys}

/-- A report is made of a detection that was recorded. -/
def Sys.Reports (C : Codec) (sys : Sys) (report : DetectionReport) : Prop :=
  ∃ r ∈ sys.records, ∃ entry : OutboxEntry, entry.deliveryId = r.deliveryId ∧
    entry.agentId = r.agentId ∧
    C.json.readDetection (C.json.writeDetection r.detection) = some entry.detection ∧
    report = deliveryBody entry

/-- What is known of a reporter: the request of an entry that is under way, and that an entry which is
to be removed is stored. -/
def Sys.Backs (sys : Sys) (r : Reporter) : Prop :=
  match r.phase with
  | .delivering entry number => entry.agentId = r.agentId ∧
    ∃ request, sys.requests[number]? = some request ∧
      request.message = .detection (deliveryBody entry)
  | .delivered entry => sys.central.Stored r.agentId entry.deliveryId
  | _ => True

/-- Nothing that was recorded is lost or reported twice. -/
structure Exact (C : Codec) (rounded : Number → Number) (sys : Sys) : Prop where
  numbers : (sys.records.map (·.deliveryId)).Nodup
  outbox : ∀ host, ∀ row ∈ (sys.hosts host).db.outbox, ∃ d,
    ⟨host, row.agentId, row.deliveryId, d⟩ ∈ sys.records ∧
      row.detectionJson = C.json.writeDetection d
  outboxIds : ∀ host, ((sys.hosts host).db.outbox.map (·.deliveryId)).Nodup
  requests : ∀ request ∈ sys.requests, ∀ report, request.message = .detection report →
    sys.Reports C report
  responses : ∀ response ∈ sys.responses, response.2 = .ok → ∀ request,
    sys.requests[response.1]? = some request → ∀ sent, request.message = .detection sent →
    ∀ id, sent.deliveryId = some id → sys.central.Stored sent.agentId id
  answered : ∀ response ∈ sys.responses, response.1 < sys.requests.length
  reporters : ∀ host, ∀ r ∈ (sys.hosts host).reporters, sys.Backs r
  central : ∀ row ∈ sys.central.detections, ∃ r ∈ sys.records, row.Holds C rounded r
  unique : (sys.central.detections.map fun row => (row.agentId, row.deliveryId)).Nodup
  kept : ∀ r ∈ sys.records, Pending (sys.hosts r.host).db r.agentId r.deliveryId ∨
    sys.central.Stored r.agentId r.deliveryId
  counted : ∀ host agent, accounted (sys.hosts host).db agent =
    (sys.records.filter fun r => r.host = host ∧ r.agentId = agent).length

theorem Exact.initial : Exact C rounded {} where
  numbers := List.nodup_nil
  outbox := by
    intro host row hrow
    cases hrow
  outboxIds := fun _ => List.nodup_nil
  requests := by
    intro request hrequest
    cases hrequest
  responses := by
    intro response hresponse
    cases hresponse
  answered := by
    intro response hresponse
    cases hresponse
  reporters := by
    intro host r hr
    cases hr
  central := by
    intro row hrow
    cases hrow
  unique := List.nodup_nil
  kept := by
    intro r hr
    cases hr
  counted := fun _ _ => rfl

/-! ### One step -/

/-- What a reporter rests on stays. -/
theorem Sys.Backs.mono {r : Reporter} (h : sys.Backs r)
    (hrequests : ∀ (n : Nat) (q : Request), sys.requests[n]? = some q → sys'.requests[n]? = some q)
    (hcentral : ∀ a id, sys.central.Stored a id → sys'.central.Stored a id) : sys'.Backs r := by
  unfold Sys.Backs at *
  split
  next entry number hphase =>
    rw [hphase] at h
    obtain ⟨hagent, request, hfound, hmessage⟩ := h
    exact ⟨hagent, request, hrequests number request hfound, hmessage⟩
  next entry hphase =>
    rw [hphase] at h
    exact hcentral _ _ h
  · trivial

theorem Sys.Backs.quiet {r : Reporter} (h : r.phase.quiet = true) : sys.Backs r := by
  unfold Sys.Backs
  split
  next hphase =>
    rw [hphase] at h
    cases h
  next hphase =>
    rw [hphase] at h
    cases h
  · trivial

/-- A reporter that was answered with a success knows that its entry is stored. -/
theorem Exact.moved (h : Exact C rounded sys) {host : Nat} {reporters : List Reporter}
    (hmoved : sys.Moved host reporters) : ∀ r ∈ reporters, sys.Backs r := by
  intro r hr
  rcases hmoved r hr with hold | hquiet | ⟨old, hold, entry, number, hphase, hresponse, rfl⟩
  · exact h.reporters host r hold
  · exact .quiet hquiet
  · have hback := h.reporters host old hold
    unfold Sys.Backs at hback
    rw [hphase] at hback
    obtain ⟨hagent, request, hfound, hmessage⟩ := hback
    have hstored := h.responses _ hresponse rfl request hfound _ hmessage entry.deliveryId rfl
    show sys.central.Stored old.agentId entry.deliveryId
    rw [← hagent]
    exact hstored

@[simp]
theorem Sys.put_self (host : Nat) (h : Host) : (sys.put host h).hosts host = h := by
  simp [Sys.put]

theorem Sys.put_of_ne {host other : Nat} {h : Host} (hne : other ≠ host) :
    (sys.put host h).hosts other = sys.hosts other := by
  simp [Sys.put, hne]

/-- A step of a host that changes its entries as an acknowledgement or a failure does. -/
theorem Exact.put (h : Exact C rounded sys) {host : Nat} {db : EventDb} {reporters : List Reporter}
    (hmoved : sys.Moved host reporters)
    (hrows : ∀ row ∈ db.outbox, ∃ old ∈ (sys.hosts host).db.outbox, rowKey old = rowKey row)
    (hids : (db.outbox.map (·.deliveryId)).Nodup)
    (hkept : ∀ row ∈ (sys.hosts host).db.outbox, Pending db row.agentId row.deliveryId ∨
      sys.central.Stored row.agentId row.deliveryId)
    (hcounted : ∀ agent, accounted db agent = accounted (sys.hosts host).db agent) :
    Exact C rounded (sys.put host ⟨db, reporters⟩) := by
  have hcases : ∀ {P : Host → Prop} (other : Nat), P ⟨db, reporters⟩ → P (sys.hosts other) →
      P ((sys.put host ⟨db, reporters⟩).hosts other) := by
    intro P other hnew hold
    by_cases heq : other = host
    · subst heq
      rwa [Sys.put_self]
    · rwa [Sys.put_of_ne heq]
  refine { h with outbox := ?_, outboxIds := ?_, reporters := ?_, kept := ?_, counted := ?_ }
  · intro other
    by_cases heq : other = host
    · subst heq
      rw [Sys.put_self]
      intro row hrow
      obtain ⟨old, hold, hkey⟩ := hrows row hrow
      obtain ⟨d, hd, hjson⟩ := h.outbox other old hold
      simp only [rowKey, Prod.mk.injEq] at hkey
      rw [hkey.1, hkey.2.1] at hd
      exact ⟨d, hd, hkey.2.2 ▸ hjson⟩
    · rw [Sys.put_of_ne heq]
      exact h.outbox other
  · intro other
    exact hcases (P := fun x => (x.db.outbox.map (·.deliveryId)).Nodup) other hids
      (h.outboxIds other)
  · intro other
    by_cases heq : other = host
    · subst heq
      rw [Sys.put_self]
      exact fun r hr => h.moved hmoved r hr
    · rw [Sys.put_of_ne heq]
      exact fun r hr => h.reporters other r hr
  · intro r hr
    rcases h.kept r hr with ⟨row, hrow, hagent, hdelivery⟩ | hstored
    · by_cases heq : r.host = host
      · rw [heq] at hrow ⊢
        rw [Sys.put_self, ← hagent, ← hdelivery]
        exact hkept row hrow
      · rw [Sys.put_of_ne heq]
        exact .inl ⟨row, hrow, hagent, hdelivery⟩
    · exact .inr hstored
  · intro other agent
    by_cases heq : other = host
    · subst heq
      rw [Sys.put_self]
      exact (hcounted agent).trans (h.counted other agent)
    · rw [Sys.put_of_ne heq]
      exact h.counted other agent

/-- A recorded detection has a number of its own. -/
theorem Exact.recorded (h : Exact C rounded sys) {host id : Nat} {d : Detection}
    {agentId : Option String} {retain : Bool} {deliveryId : String} {db : EventDb}
    (hnew : deliveryId ∉ sys.records.map (·.deliveryId))
    (hmade : Agent.Recorded C.json (sys.hosts host).db db id d agentId retain deliveryId) :
    Exact C rounded (sys.record host db agentId deliveryId d) := by
  set record := (agentId.map fun agent => (⟨host, agent, deliveryId, d⟩ : Record)).toList with hrecord
  have hmore : ∀ r ∈ sys.records, r ∈ (sys.record host db agentId deliveryId d).records :=
    fun r hr => List.mem_append_left _ hr
  have hhost : (sys.record host db agentId deliveryId d).hosts host =
      { sys.hosts host with db := db } := by
    rw [Sys.record]
    exact Sys.put_self host _
  have hother : ∀ {other}, other ≠ host →
      (sys.record host db agentId deliveryId d).hosts other = sys.hosts other := Sys.put_of_ne
  -- The new entry, if any, is the only difference of the two outboxes.
  have hrows : db.outbox = (sys.hosts host).db.outbox ∧ agentId = none ∨
      ∃ agent row, agentId = some agent ∧ row.deliveryId = deliveryId ∧ row.agentId = agent ∧
        row.detectionJson = C.json.writeDetection d ∧ db.outbox = (sys.hosts host).db.outbox ++ [row] := by
    cases agentId with
    | none => exact .inl ⟨hmade.silent rfl, rfl⟩
    | some agent =>
      obtain ⟨row, hrow⟩ := hmade.sent agent rfl
      exact .inr ⟨agent, row, rfl, hrow⟩
  refine { h with
    numbers := ?_, outbox := ?_, outboxIds := ?_, requests := ?_, reporters := ?_, central := ?_
    kept := ?_, counted := ?_ }
  · show ((sys.records ++ record).map (·.deliveryId)).Nodup
    rw [List.map_append, List.nodup_append]
    refine ⟨h.numbers, ?_, ?_⟩
    · rw [hrecord]
      cases agentId <;> simp
    · rintro a ha b hb rfl
      rw [hrecord] at hb
      cases agentId with
      | none => cases hb
      | some agent =>
        obtain rfl : a = deliveryId := by simpa using hb
        exact hnew ha
  · intro other
    by_cases heq : other = host
    · subst heq
      rw [hhost]
      intro row hrow
      rcases hrows with ⟨hsame, -⟩ | ⟨agent, new, rfl, hdelivery, hagent, hjson, happend⟩
      · obtain ⟨d', hd', hjson⟩ := h.outbox other row (hsame ▸ hrow)
        exact ⟨d', hmore _ hd', hjson⟩
      · rw [show ({ sys.hosts other with db := db } : Host).db.outbox = _ from happend] at hrow
        rcases List.mem_append.1 hrow with hrow | hrow
        · obtain ⟨d', hd', hjson'⟩ := h.outbox other row hrow
          exact ⟨d', hmore _ hd', hjson'⟩
        · rw [List.mem_singleton.1 hrow]
          refine ⟨d, List.mem_append_right _ ?_, hjson⟩
          simp [hagent, hdelivery]
    · rw [hother heq]
      intro row hrow
      obtain ⟨d', hd', hjson⟩ := h.outbox other row hrow
      exact ⟨d', hmore _ hd', hjson⟩
  · intro other
    by_cases heq : other = host
    · subst heq
      rw [hhost]
      rcases hrows with ⟨hsame, -⟩ | ⟨agent, new, rfl, hdelivery, hagent, hjson, happend⟩
      · rw [show ({ sys.hosts other with db := db } : Host).db.outbox = _ from hsame]
        exact h.outboxIds other
      · rw [show ({ sys.hosts other with db := db } : Host).db.outbox = _ from happend, List.map_append,
          List.nodup_append]
        refine ⟨h.outboxIds other, by simp, ?_⟩
        rintro a ha b hb rfl
        obtain ⟨row, hrow, rfl⟩ := List.mem_map.1 ha
        obtain ⟨d', hd', -⟩ := h.outbox other row hrow
        have hb : row.deliveryId = deliveryId := by simpa [hdelivery] using hb
        exact hnew (hb ▸ List.mem_map_of_mem hd')
    · rw [hother heq]
      exact h.outboxIds other
  · intro request hrequest report hreport
    obtain ⟨r, hr, entry, hentry⟩ := h.requests request hrequest report hreport
    exact ⟨r, hmore r hr, entry, hentry⟩
  · intro other
    by_cases heq : other = host
    · subst heq
      rw [hhost]
      exact fun r hr => (h.reporters other r hr).mono (fun _ _ h => h) (fun _ _ h => h)
    · rw [hother heq]
      exact fun r hr => (h.reporters other r hr).mono (fun _ _ h => h) (fun _ _ h => h)
  · intro row hrow
    obtain ⟨r, hr, hholds⟩ := h.central row hrow
    exact ⟨r, hmore r hr, hholds⟩
  · have hpending : ∀ a i, Pending (sys.hosts host).db a i → Pending db a i := by
      rintro a i ⟨row, hrow, hrest⟩
      rcases hrows with ⟨hsame, -⟩ | ⟨agent, new, -, -, -, -, happend⟩
      · exact ⟨row, hsame ▸ hrow, hrest⟩
      · exact ⟨row, happend ▸ List.mem_append_left _ hrow, hrest⟩
    intro r hr
    rcases List.mem_append.1 hr with hr | hr
    · rcases h.kept r hr with hold | hstored
      · by_cases heq : r.host = host
        · rw [heq] at hold ⊢
          rw [hhost]
          exact .inl (hpending _ _ hold)
        · rw [hother heq]
          exact .inl hold
      · exact .inr hstored
    · rcases hrows with ⟨-, rfl⟩ | ⟨agent, new, rfl, hdelivery, hagent, -, happend⟩
      · cases hr
      · obtain rfl : r = ⟨host, agent, deliveryId, d⟩ := by simpa using hr
        rw [hhost]
        exact .inl ⟨new, happend ▸ List.mem_append_right _ (List.mem_singleton_self _), hagent,
          hdelivery⟩
  · intro other agent
    show _ = ((sys.records ++ record).filter _).length
    rw [List.filter_append, List.length_append, ← h.counted other agent]
    by_cases heq : other = host
    · subst heq
      rw [hhost, accounted_recorded hmade, hrecord]
      cases agentId with
      | none => simp
      | some a => by_cases ha : a = agent <;> simp [ha]
    · rw [hother heq, hrecord]
      cases agentId with
      | none => simp
      | some a => simp [Ne.symm heq]

theorem Sys.send_self {host i : Nat} {r : Reporter} {message : Message} {waiting : Nat → Phase} :
    (sys.send host i r message waiting).hosts host = { sys.hosts host with
      reporters := sys.turn host i r (some (waiting sys.requests.length)) } :=
  Function.update_self _ _ _

/-- Sending changes no event store. -/
theorem Sys.send_db {host i other : Nat} {r : Reporter} {message : Message} {waiting : Nat → Phase} :
    ((sys.send host i r message waiting).hosts other).db = (sys.hosts other).db := by
  by_cases heq : other = host
  · subst heq
    rw [Sys.send_self]
  · exact congrArg Host.db (Sys.put_of_ne heq)

/-- A request is sent: it is no report, or one of an entry that is pending. -/
theorem Exact.send (h : Exact C rounded sys) {host i : Nat} {r : Reporter} {message : Message}
    {waiting : Nat → Phase} (hreports : ∀ report, message = .detection report → sys.Reports C report)
    (hwaiting : (waiting sys.requests.length).quiet = true ∨ ∃ entry : OutboxEntry,
      waiting = .delivering entry ∧ entry.agentId = r.agentId ∧
        message = .detection (deliveryBody entry)) :
    Exact C rounded (sys.send host i r message waiting) := by
  have hold : ∀ (n : Nat) (q : Request), sys.requests[n]? = some q →
      (sys.requests ++ [⟨r.token, message⟩])[n]? = some q := fun n q hn =>
    (List.getElem?_append_left (List.getElem?_eq_some_iff.1 hn).1).trans hn
  refine { h with
    outbox := ?_, outboxIds := ?_, requests := ?_, responses := ?_, answered := ?_, reporters := ?_
    kept := ?_, counted := ?_ }
  · intro other
    rw [Sys.send_db]
    exact h.outbox other
  · intro other
    rw [Sys.send_db]
    exact h.outboxIds other
  · intro request hrequest report hreport
    rcases List.mem_append.1 hrequest with hrequest | hrequest
    · exact h.requests request hrequest report hreport
    · rw [List.mem_singleton.1 hrequest] at hreport
      exact hreports report hreport
  · intro response hresponse hok request hfound
    refine h.responses response hresponse hok request ?_
    rw [← hfound]
    exact (List.getElem?_append_left (h.answered response hresponse)).symm
  · intro response hresponse
    have := h.answered response hresponse
    show response.1 < (sys.requests ++ [_]).length
    rw [List.length_append]
    omega
  · intro other r' hr'
    by_cases heq : other = host
    · subst heq
      rw [Sys.send_self] at hr'
      rcases List.mem_or_eq_of_mem_set hr' with hr' | rfl
      · exact (h.reporters other r' hr').mono hold (fun _ _ h => h)
      · rcases hwaiting with hquiet | ⟨entry, rfl, hagent, rfl⟩
        · exact .quiet hquiet
        · refine ⟨hagent, ⟨r.token, .detection (deliveryBody entry)⟩, ?_, rfl⟩
          exact List.getElem?_concat_length
    · rw [show ((sys.send host i r message waiting).hosts other) = _ from Sys.put_of_ne heq] at hr'
      exact (h.reporters other r' hr').mono hold (fun _ _ h => h)
  · intro r' hr'
    rw [Sys.send_db]
    exact h.kept r' hr'
  · intro other agent
    rw [Sys.send_db]
    exact h.counted other agent

theorem asI64_of_le {n : Nat} (h : n ≤ i64Max) : asI64 n = n := by
  unfold asI64
  have hmod : n % 2 ^ 64 = n := Nat.mod_eq_of_lt (by unfold i64Max at h; omega)
  rw [hmod, if_pos h]

/-- The row of a report holds the detection that the report was made of. -/
theorem Sys.Reports.holds (hC : C.Keeps rounded) {sent report : DetectionReport}
    (h : sys.Reports C sent) (hread : C.transmitted sent = some report)
    (haccepted : acceptable report = true) (id : Nat) :
    ∃ r ∈ sys.records, (CentralDb.rowOf C report id).Holds C rounded r := by
  obtain ⟨r, hr, entry, hdelivery, hagent, hdetection, rfl⟩ := h
  have hreport := hC.report _ _ hread
  have hentry := hC.detection _ _ hdetection
  have htime : report.timestampMs ≤ i64Max := by
    simp only [acceptable, Bool.and_eq_true, decide_eq_true_eq] at haccepted
    exact haccepted.1.1.1
  have hrow : asI64 report.timestampMs = report.timestampMs := asI64_of_le htime
  refine ⟨r, hr, ?_⟩
  rw [hreport] at hrow ⊢
  simp only [deliveryBody, hentry] at hrow
  constructor <;> simp only [CentralDb.rowOf, deliveryBody, hrow, hdelivery, hagent, hentry]

/-- The server handles a request. -/
theorem Exact.handled (hC : C.Keeps rounded) (h : Exact C rounded sys) {k : Nat} {request : Request}
    {central : CentralDb} {responses : List (Nat × Status)}
    (hdone : Handled C sys k request central responses) :
    Exact C rounded { sys with central := central, responses := responses } := by
  obtain ⟨hfound, hingested, hresponded, -⟩ := hdone
  have hstored : ∀ a id, sys.central.Stored a id → central.Stored a id := by
    rintro a id ⟨row, hrow, hrest⟩
    cases hingested with
    | same rows => exact ⟨row, rows ▸ hrow, hrest⟩
    | added message_eq read accepted fresh rows =>
      exact ⟨row, rows ▸ List.mem_append_left _ hrow, hrest⟩
  refine { h with
    responses := ?_, answered := ?_, reporters := ?_, central := ?_, unique := ?_, kept := ?_ }
  · intro response hresponse hok q hq sent hsent id hid
    rcases hresponded response hresponse with hold | ⟨hk, hnew⟩
    · exact hstored _ _ (h.responses response hold hok q hq sent hsent id hid)
    · obtain rfl : request = q := by
        rw [hk] at hq
        exact Option.some.inj (hfound.symm.trans hq)
      obtain ⟨report, hread, hall⟩ := hnew hok sent hsent
      have hreport := hC.report _ _ hread
      have := hall id (by rw [hreport]; exact hid)
      rw [hreport] at this
      exact this
  · intro response hresponse
    rcases hresponded response hresponse with hold | ⟨hk, -⟩
    · exact h.answered response hold
    · rw [hk]
      exact (List.getElem?_eq_some_iff.1 hfound).1
  · exact fun host r hr => (h.reporters host r hr).mono (fun _ _ h => h) hstored
  · intro row hrow
    cases hingested with
    | same rows => exact h.central row (rows ▸ hrow)
    | @added sent report id message_eq read accepted fresh rows =>
      rcases List.mem_append.1 (rows ▸ hrow : row ∈ _ ++ _) with hrow | hrow
      · exact h.central row hrow
      · rw [List.mem_singleton.1 hrow]
        have hreports := h.requests request (List.mem_of_getElem? hfound) sent message_eq
        exact hreports.holds hC read accepted id
  · cases hingested with
    | same rows =>
      show (central.detections.map _).Nodup
      rw [rows]
      exact h.unique
    | @added sent report id message_eq read accepted fresh rows =>
      show (central.detections.map _).Nodup
      rw [rows, List.map_append, List.nodup_append]
      refine ⟨h.unique, by simp, ?_⟩
      -- A row with the same agent and number would have been a conflict.
      rintro a ha b hb rfl
      obtain ⟨row, hrow, rfl⟩ := List.mem_map.1 ha
      have hsame : row.agentId = report.agentId ∧ row.deliveryId = report.deliveryId := by
        simpa [CentralDb.rowOf] using hb
      obtain ⟨r, -, hholds⟩ := h.central row hrow
      have hconflict : sys.central.conflicts report = true := by
        rw [CentralDb.conflicts, Bool.and_eq_true, List.any_eq_true]
        refine ⟨?_, row, hrow, decide_eq_true hsame⟩
        rw [← hsame.2, hholds.deliveryId]
        rfl
      rw [fresh] at hconflict
      cases hconflict
  · intro r hr
    rcases h.kept r hr with hpending | hold
    · exact .inl hpending
    · exact .inr (hstored _ _ hold)

/-- What one step keeps, when the number that it draws is a new one. -/
theorem Exact.next (hC : C.Keeps rounded) (h : Exact C rounded sys) (event : Event) (plan : Plan)
    (hnew : ∀ id ∈ event.drawn, id ∉ sys.records.map (·.deliveryId)) :
    Exact C rounded (sys.next C event plan) := by
  have hstep := sys.step (C := C) event plan
  generalize sys.next C event plan = sys' at hstep ⊢
  cases hstep with
  | @turned host reporters moved =>
    exact h.put moved (fun row hrow => ⟨row, hrow, rfl⟩) (h.outboxIds host)
      (fun row hrow => .inl ⟨row, hrow, rfl, rfl⟩) fun _ => rfl
  | recorded number made => exact h.recorded (hnew _ number) made
  | asked other quiet =>
    exact h.send (fun report hreport => absurd hreport (other report)) (.inl (quiet _))
  | @sent host i r entry rest pending =>
    obtain ⟨row, hrow, hagent, hentry, hdelivery, hread⟩ := pendingDeliveries_row pending
    obtain ⟨d, hd, hjson⟩ := h.outbox host row hrow
    refine h.send ?_ (.inr ⟨entry, rfl, hentry, rfl⟩)
    rintro _ ⟨⟩
    exact ⟨_, hd, entry, hdelivery, hentry.trans hagent.symm, hjson ▸ hread, rfl⟩
  | @acknowledged host r entry reporters found phase moved =>
    have hstored : sys.central.Stored r.agentId entry.deliveryId := by
      have hback := h.reporters host r found
      unfold Sys.Backs at hback
      rwa [phase] at hback
    refine h.put moved (fun row hrow => ⟨row, mem_acknowledged hrow, rfl⟩)
      ((h.outboxIds host).sublist (acknowledged_sublist.map _)) (fun row hrow => ?_)
      (accounted_acknowledged (h.outboxIds host))
    rcases acknowledged_kept hrow with hleft | ⟨hdelivery, hagent⟩
    · exact .inl ⟨row, hleft, rfl, rfl⟩
    · rw [hdelivery, hagent]
      exact .inr hstored
  | @noted host agentId error entry reporters moved =>
    have hkeys := @failed_keys (sys.hosts host).db agentId entry.deliveryId error
    have hmem : ∀ {rows rows' : List OutboxRow}, rows.map rowKey = rows'.map rowKey →
        ∀ row ∈ rows, ∃ row' ∈ rows', rowKey row' = rowKey row := by
      intro rows rows' heq row hrow
      have hkey : rowKey row ∈ rows'.map rowKey := heq ▸ List.mem_map_of_mem hrow
      exact List.mem_map.1 hkey
    refine h.put moved (hmem hkeys) ?_ (fun row hrow => ?_) (accounted_failed error)
    · have hids : ∀ rows : List OutboxRow, rows.map (·.deliveryId) =
          (rows.map rowKey).map fun key => key.2.1 := by
        intro rows
        rw [List.map_map]
        rfl
      rw [hids, hkeys, ← hids]
      exact h.outboxIds host
    · obtain ⟨row', hrow', hkey⟩ := hmem hkeys.symm row hrow
      simp only [rowKey, Prod.mk.injEq] at hkey
      exact .inl ⟨row', hrow', hkey.1, hkey.2.1⟩
  | handled done => exact h.handled hC done

/-- The numbers that the events of a script draw. -/
def drawn (script : List (Event × Plan)) : List String := script.filterMap fun step => step.1.drawn

/-- What a step has recorded has the number that the step drew. -/
theorem Sys.next_records (event : Event) (plan : Plan) :
    ∀ r ∈ (sys.next C event plan).records, r ∈ sys.records ∨ r.deliveryId ∈ event.drawn := by
  have hstep := sys.step (C := C) event plan
  generalize sys.next C event plan = sys' at hstep ⊢
  intro r hr
  cases hstep with
  | @recorded host id d agentId retain deliveryId db number made =>
    rcases List.mem_append.1 hr with hr | hr
    · exact .inl hr
    · rw [Option.mem_toList, Option.map_eq_some_iff] at hr
      obtain ⟨agent, -, rfl⟩ := hr
      exact .inr number
  | _ => exact .inl hr

theorem Exact.play (hC : C.Keeps rounded) {script : List (Event × Plan)}
    (hdrawn : (drawn script).Nodup)
    (hnew : ∀ id ∈ drawn script, id ∉ sys.records.map (·.deliveryId)) (h : Exact C rounded sys) :
    Exact C rounded (sys.play C script) := by
  induction script generalizing sys with
  | nil => exact h
  | cons step rest ih =>
    have hsplit : drawn (step :: rest) = step.1.drawn.toList ++ drawn rest := by
      unfold drawn
      rw [List.filterMap_cons]
      cases step.1.drawn <;> rfl
    rw [hsplit, List.nodup_append] at hdrawn
    rw [hsplit] at hnew
    refine ih hdrawn.2.1 ?_ (h.next hC step.1 step.2 fun id hid =>
      hnew id (List.mem_append_left _ (Option.mem_toList.2 hid)))
    intro id hid hmem
    obtain ⟨r, hr, rfl⟩ := List.mem_map.1 hmem
    rcases Sys.next_records step.1 step.2 r hr with hold | hnow
    · exact hnew _ (List.mem_append_right _ hid) (List.mem_map_of_mem hold)
    · exact hdrawn.2.2 _ (Option.mem_toList.2 hnow) _ hid rfl

/-- An entry that a step removes is stored at the server before. -/
theorem Exact.removed (h : Exact C rounded sys) (event : Event) (plan : Plan) (host : Nat) :
    ∀ row ∈ (sys.hosts host).db.outbox,
      Pending ((sys.next C event plan).hosts host).db row.agentId row.deliveryId ∨
      sys.central.Stored row.agentId row.deliveryId := by
  have hstep := sys.step (C := C) event plan
  generalize sys.next C event plan = sys' at hstep ⊢
  intro row hrow
  have hsame : (sys'.hosts host).db.outbox = (sys.hosts host).db.outbox →
      Pending (sys'.hosts host).db row.agentId row.deliveryId := fun heq =>
    ⟨row, heq ▸ hrow, rfl, rfl⟩
  cases hstep with
  | @turned other reporters moved =>
    left
    apply hsame
    by_cases heq : host = other
    · subst heq
      rw [Sys.put_self]
    · rw [Sys.put_of_ne heq]
  | @recorded other id d agentId retain deliveryId db number made =>
    left
    by_cases heq : host = other
    · subst heq
      have hhost : (sys.record host db agentId deliveryId d).hosts host =
          { sys.hosts host with db := db } := Function.update_self _ _ _
      rw [hhost]
      cases agentId with
      | none => exact ⟨row, made.silent rfl ▸ hrow, rfl, rfl⟩
      | some agent =>
        obtain ⟨new, -, -, -, happend⟩ := made.sent agent rfl
        exact ⟨row, happend ▸ List.mem_append_left _ hrow, rfl, rfl⟩
    · exact hsame (congrArg (fun x : Host => x.db.outbox) (Function.update_of_ne heq _ _))
  | @asked other i r message waiting _ quiet =>
    exact .inl (hsame (by rw [Sys.send_db]))
  | @sent other i r entry rest pending =>
    exact .inl (hsame (by rw [Sys.send_db]))
  | @acknowledged other r entry reporters found phase moved =>
    by_cases heq : host = other
    · subst heq
      rw [Sys.put_self]
      rcases acknowledged_kept hrow with hleft | ⟨hdelivery, hagent⟩
      · exact .inl ⟨row, hleft, rfl, rfl⟩
      · have hback := h.reporters host r found
        unfold Sys.Backs at hback
        rw [phase] at hback
        rw [hdelivery, hagent]
        exact .inr hback
    · exact .inl (hsame (by rw [Sys.put_of_ne heq]))
  | @noted other agentId error entry reporters moved =>
    left
    by_cases heq : host = other
    · subst heq
      rw [Sys.put_self]
      have hkey : rowKey row ∈ ((sys.hosts host).db.deliveryFailed entry.deliveryId agentId
          error).outbox.map rowKey := by
        rw [failed_keys]
        exact List.mem_map_of_mem hrow
      obtain ⟨row', hrow', hsame'⟩ := List.mem_map.1 hkey
      simp only [rowKey, Prod.mk.injEq] at hsame'
      exact ⟨row', hrow', hsame'.1, hsame'.2.1⟩
    · exact hsame (by rw [Sys.put_of_ne heq])
  | handled done => exact .inl (hsame rfl)

end Runs

/-! ## A sample -/

/-- A server without tokens. -/
def sampleState : AppState := ⟨∅, true⟩

/-- A reporter registers and sends the first entry; the server handles both requests. -/
def sampleAttempt (request response : Nat) : List (Event × Plan) :=
  [(.step 0 0 true false, []), (.handle request sampleState 20, []), (.answer 0 0 response, []),
    (.step 0 0 true false, []), (.step 0 0 true false, []),
    (.handle (request + 1) sampleState 20, [])]

/-- The response to the first delivery is lost, and its request is handled once more after the entry
was sent again. -/
def sampleRun : List (Event × Plan) :=
  [(.recordDetection 0 (Agent.sampleDetection ["a"]) (some "agent") false "0a" 10, []),
    (.spawn 0 "agent" "" "host", [])] ++
  sampleAttempt 0 0 ++ [(.lose 0 0 "timeout", []), (.step 0 0 true false, [])] ++
  sampleAttempt 2 2 ++ [(.handle 1 sampleState 30, []), (.answer 0 0 3, []),
    (.step 0 0 true false, [])]

end Argos.Central
