import Argos.Central.Server
import Mathlib.Logic.Function.Basic

/-!
# The reporters of the agents

`run` of `argos-agent/src/reporter.rs`: a thread registers its agent, gives signs of life, and sends
what is pending in the event store to the central server, one entry at a time. An entry is removed
when the server has answered with a success; after every failure the agent registers again.

Any number of hosts with their own event stores report to one server, and several reporters may work
on one event store. Between agent and server is a network: every request that was sent may be lost,
handled late, and handled more than once, and so may every response be lost or arrive late. So a
request and a response stay where they are; an event says which of them arrives.
-/

namespace Argos.Central

open Argos.Lib
open Argos.Common
open Argos.Agent (EventDb OutboxEntry OutboxRow)

/-- `delivery_body`. -/
def deliveryBody (entry : OutboxEntry) : DetectionReport :=
  ⟨some entry.deliveryId, entry.agentId, entry.detection.timestampMs, entry.detection.rule,
    entry.detection.score, entry.detection.severity.asStr, entry.detection.summary,
    entry.detection.pid, entry.detection.paths⟩

/-- Where a reporter stands. A request is known by its number. -/
inductive Phase where
  /-- At the beginning of an attempt. -/
  | idle (registered : Bool)
  | registering (number : Nat)
  | registered
  | beating (number : Nat)
  | beaten
  | delivering (entry : OutboxEntry) (number : Nat)
  /-- The server has answered with a success; the entry is to be removed. -/
  | delivered (entry : OutboxEntry)
  /-- The delivery has failed, which is to be noted. -/
  | refused (entry : OutboxEntry) (error : String)
deriving DecidableEq

/-- A reporter with its agent, its token and the name of its host. -/
structure Reporter where
  agentId : String
  token : String
  hostname : String
  phase : Phase
deriving DecidableEq

/-- A host: its event store, and the reporters that work on it. -/
structure Host where
  db : EventDb := {}
  reporters : List Reporter := []

/-- A detection that was recorded for an agent, with its delivery number. -/
structure Record where
  host : Nat
  agentId : String
  deliveryId : String
  detection : Detection
deriving DecidableEq

/-- The hosts, the central server, and the network: the requests by their numbers, and the responses.
What was recorded is kept for the statements only. -/
structure Sys where
  hosts : Nat → Host := fun _ => {}
  central : CentralDb := {}
  requests : List Request := []
  responses : List (Nat × Status) := []
  records : List Record := []

/-- A step of a host, of the network or of the server. -/
inductive Event where
  | recordDetection (host : Nat) (d : Detection) (agentId : Option String) (retain : Bool)
      (deliveryId : String) (nowMs : Nat)
  | insertDetectionWithOutbox (host : Nat) (d : Detection) (agentId deliveryId : String) (nowMs : Nat)
  /-- An agent starts a reporter. -/
  | spawn (host : Nat) (agentId token hostname : String)
  /-- A reporter ends with its process. -/
  | stop (host i : Nat)
  /-- The `i`-th reporter of a host takes its next step; `beats` says whether a sign of life is due. -/
  | step (host i : Nat) (healthy beats : Bool)
  /-- The `k`-th response arrives at a reporter. -/
  | answer (host i k : Nat)
  /-- A reporter gets no answer in time, or cannot read its event store. -/
  | lose (host i : Nat) (error : String)
  /-- The `k`-th request is handled by the server. -/
  | handle (k : Nat) (state : AppState) (nowMs : Nat)

/-- The delivery number that an event draws. -/
def Event.drawn : Event → Option String
  | .recordDetection _ _ _ _ deliveryId _ => some deliveryId
  | .insertDetectionWithOutbox _ _ _ deliveryId _ => some deliveryId
  | _ => none

section Runs

variable (C : Codec)

/-- A host is changed. -/
def Sys.put (sys : Sys) (host : Nat) (h : Host) : Sys :=
  { sys with hosts := Function.update sys.hosts host h }

/-- A transaction that recorded a detection. -/
def Sys.record (sys : Sys) (host : Nat) (db : EventDb) (agentId : Option String) (deliveryId : String)
    (d : Detection) : Sys :=
  { sys.put host { sys.hosts host with db := db } with
    records := sys.records ++ (agentId.map fun agent => ⟨host, agent, deliveryId, d⟩).toList }

/-- The `i`-th reporter of a host goes on, or is gone. -/
def Sys.turn (sys : Sys) (host i : Nat) (r : Reporter) : Option Phase → List Reporter
  | some phase => (sys.hosts host).reporters.set i { r with phase := phase }
  | none => (sys.hosts host).reporters.eraseIdx i

/-- A reporter sends a request and waits. -/
def Sys.send (sys : Sys) (host i : Nat) (r : Reporter) (message : Message) (waiting : Nat → Phase) :
    Sys :=
  { sys.put host { sys.hosts host with
      reporters := sys.turn host i r (some (waiting sys.requests.length)) } with
    requests := sys.requests ++ [⟨r.token, message⟩] }

/-- A reporter goes on. -/
def Sys.goOn (sys : Sys) (host i : Nat) (r : Reporter) (phase : Phase) : Sys :=
  sys.put host { sys.hosts host with reporters := sys.turn host i r (some phase) }

/-- Where a reporter stands after it has settled an entry. -/
def settledPhase (registered : Bool) : Outcome Agent.StorageError Unit → Option Phase
  | .ok _ => some (.idle registered)
  | .error _ => some (.idle false)
  | .killed => none

/-- A reporter settles an entry in its event store. -/
def Sys.settle (sys : Sys) (host i : Nat) (r : Reporter) (op : Agent.Op Unit) (registered : Bool)
    (plan : Plan) : Sys :=
  match op plan (sys.hosts host).db with
  | (outcome, _, db) =>
    sys.put host ⟨db, sys.turn host i r (settledPhase registered outcome)⟩

/-- The next step of a reporter that waits for nothing. -/
def Sys.attempt (sys : Sys) (host i : Nat) (r : Reporter) (healthy beats : Bool) (plan : Plan) : Sys :=
  match r.phase with
  | .idle false => sys.send host i r (.register r.agentId r.hostname []) .registering
  | .idle true => sys.goOn host i r .registered
  | .registered =>
    if beats then
      let stats := Agent.outboxStats (sys.hosts host).db r.agentId
      sys.send host i r (.heartbeat r.agentId healthy stats.pending stats.failedAttempts) .beating
    else sys.goOn host i r .beaten
  | .beaten =>
    match Agent.pendingDeliveries C.json (sys.hosts host).db r.agentId 1 with
    | .ok (entry :: _) => sys.send host i r (.detection (deliveryBody entry)) (.delivering entry)
    | .ok [] => sys.goOn host i r (.idle true)
    | .error _ => sys.goOn host i r (.idle false)
  | .delivered entry =>
    sys.settle host i r (Agent.acknowledgeDelivery entry.deliveryId r.agentId) true plan
  | .refused entry error =>
    sys.settle host i r (Agent.recordDeliveryFailure entry.deliveryId r.agentId error) false plan
  | .registering _ => sys
  | .beating _ => sys
  | .delivering _ _ => sys

/-- Where a reporter stands after a response to the request of a number. -/
def Phase.answered (number : Nat) (status : Status) : Phase → Phase
  | .registering n =>
    if n = number then (if status.isSuccess then .registered else .idle false) else .registering n
  | .beating n =>
    if n = number then (if status.isSuccess then .beaten else .idle false) else .beating n
  | .delivering entry n =>
    if n = number then
      (if status.isSuccess then .delivered entry
        else .refused entry ("중앙 서버 응답 HTTP " ++ toString status.asU16))
    else .delivering entry n
  | phase => phase

/-- Where a reporter stands after a request or a reading has failed. -/
def Phase.lost (error : String) : Phase → Phase
  | .registering _ => .idle false
  | .registered => .idle false
  | .beating _ => .idle false
  | .beaten => .idle false
  | .delivering entry _ => .refused entry error
  | phase => phase

/-- One step. An event that is not possible changes nothing. -/
def Sys.next (sys : Sys) : Event → Plan → Sys
  | .recordDetection host d agentId retain deliveryId nowMs, plan =>
    match Agent.recordDetection C.json d agentId retain deliveryId nowMs plan (sys.hosts host).db with
    | (.ok _, _, db) => sys.record host db agentId deliveryId d
    | (_, _, db) => sys.put host { sys.hosts host with db := db }
  | .insertDetectionWithOutbox host d agentId deliveryId nowMs, plan =>
    match Agent.insertDetectionWithOutbox C.json d agentId deliveryId nowMs plan (sys.hosts host).db with
    | (.ok _, _, db) => sys.record host db (some agentId) deliveryId d
    | (_, _, db) => sys.put host { sys.hosts host with db := db }
  | .spawn host agentId token hostname, _ =>
    sys.put host { sys.hosts host with
      reporters := (sys.hosts host).reporters ++ [⟨agentId, token, hostname, .idle false⟩] }
  | .stop host i, _ =>
    sys.put host { sys.hosts host with reporters := (sys.hosts host).reporters.eraseIdx i }
  | .step host i healthy beats, plan =>
    match (sys.hosts host).reporters[i]? with
    | some r => sys.attempt C host i r healthy beats plan
    | none => sys
  | .answer host i k, _ =>
    match (sys.hosts host).reporters[i]?, sys.responses[k]? with
    | some r, some (number, status) => sys.goOn host i r (r.phase.answered number status)
    | _, _ => sys
  | .lose host i error, _ =>
    match (sys.hosts host).reporters[i]? with
    | some r => sys.goOn host i r (r.phase.lost error)
    | none => sys
  | .handle k state nowMs, plan =>
    match sys.requests[k]? with
    | some request =>
      match handle C state request nowMs plan sys.central with
      | (.ok _, _, central) =>
        { sys with central := central, responses := sys.responses ++ [(k, .ok)] }
      | (.error refusal, _, central) =>
        { sys with central := central, responses := sys.responses ++ [(k, .refused refusal)] }
      | (.killed, _, central) => { sys with central := central }
    | none => sys

/-- A script is played. -/
def Sys.play (sys : Sys) (script : List (Event × Plan)) : Sys :=
  script.foldl (fun sys step => sys.next C step.1 step.2) sys

/-! ## What a step does -/

variable {C}

/-- A reporter that neither has an entry under way nor is about to remove one. -/
def Phase.quiet : Phase → Bool
  | .delivering _ _ => false
  | .delivered _ => false
  | _ => true

/-- A reporter as it stands after it went on by itself or was answered. -/
def Sys.Turned (sys : Sys) (host : Nat) (r : Reporter) : Prop :=
  r.phase.quiet = true ∨ ∃ old ∈ (sys.hosts host).reporters, ∃ entry number,
    old.phase = .delivering entry number ∧ (number, Status.ok) ∈ sys.responses ∧
    r = { old with phase := .delivered entry }

/-- The reporters of a host after one of them has gone on. -/
def Sys.Moved (sys : Sys) (host : Nat) (reporters : List Reporter) : Prop :=
  ∀ r ∈ reporters, r ∈ (sys.hosts host).reporters ∨ sys.Turned host r

variable (C) in
/-- What a handled request has left: the database, and the responses. -/
structure Handled (sys : Sys) (k : Nat) (request : Request) (central : CentralDb)
    (responses : List (Nat × Status)) : Prop where
  found : sys.requests[k]? = some request
  ingested : Ingested C sys.central central request.message
  responded : ∀ response ∈ responses, response ∈ sys.responses ∨ (response.1 = k ∧
    (response.2 = .ok → ∀ sent, request.message = .detection sent →
      ∃ report, C.transmitted sent = some report ∧
        ∀ id, report.deliveryId = some id → central.Stored report.agentId id))
  kept : ∀ response ∈ sys.responses, response ∈ responses

variable (C) in
/-- What one step can do that draws a delivery number, or none. -/
inductive Step (sys : Sys) (drawn : Option String) : Sys → Prop where
  | turned {host : Nat} {reporters : List Reporter} (moved : sys.Moved host reporters) :
      Step sys drawn (sys.put host { sys.hosts host with reporters := reporters })
  | recorded {host id : Nat} {d : Detection} {agentId : Option String} {retain : Bool}
      {deliveryId : String} {db : EventDb} (number : drawn = some deliveryId)
      (made : Agent.Recorded C.json (sys.hosts host).db db id d agentId retain deliveryId) :
      Step sys drawn (sys.record host db agentId deliveryId d)
  | asked {host i : Nat} {r : Reporter} {message : Message} {waiting : Nat → Phase}
      (other : ∀ report, message ≠ .detection report) (quiet : ∀ n, (waiting n).quiet = true) :
      Step sys drawn (sys.send host i r message waiting)
  | sent {host i : Nat} {r : Reporter} {entry : OutboxEntry} {rest : List OutboxEntry}
      (pending : Agent.pendingDeliveries C.json (sys.hosts host).db r.agentId 1 =
        .ok (entry :: rest)) :
      Step sys drawn (sys.send host i r (.detection (deliveryBody entry)) (.delivering entry))
  | acknowledged {host : Nat} {r : Reporter} {entry : OutboxEntry} {reporters : List Reporter}
      (found : r ∈ (sys.hosts host).reporters) (phase : r.phase = .delivered entry)
      (moved : sys.Moved host reporters) :
      Step sys drawn (sys.put host
        ⟨(sys.hosts host).db.deliveryAcknowledged entry.deliveryId r.agentId, reporters⟩)
  | noted {host : Nat} {agentId error : String} {entry : OutboxEntry} {reporters : List Reporter}
      (moved : sys.Moved host reporters) :
      Step sys drawn (sys.put host
        ⟨(sys.hosts host).db.deliveryFailed entry.deliveryId agentId error, reporters⟩)
  | handled {k : Nat} {request : Request} {central : CentralDb} {responses : List (Nat × Status)}
      (done : Handled C sys k request central responses) :
      Step sys drawn { sys with central := central, responses := responses }

theorem Sys.Moved.refl {sys : Sys} {host : Nat} : sys.Moved host (sys.hosts host).reporters :=
  fun _ h => .inl h

theorem Step.same (sys : Sys) {drawn : Option String} : Step C sys drawn sys := by
  have hsame : sys.put 0 { sys.hosts 0 with reporters := (sys.hosts 0).reporters } = sys := by
    rw [Sys.put]
    have hupdate : Function.update sys.hosts 0 (sys.hosts 0) = sys.hosts := Function.update_eq_self _ _
    rw [hupdate]
  have hstep : Step C sys drawn (sys.put 0 { sys.hosts 0 with reporters := (sys.hosts 0).reporters }) :=
    .turned .refl
  rwa [hsame] at hstep

/-- A reporter that goes on, or ends, leaves the others where they are. -/
theorem Sys.moved_turn {sys : Sys} {host i : Nat} {r : Reporter} {phase : Option Phase}
    (h : ∀ p ∈ phase, sys.Turned host { r with phase := p }) :
    sys.Moved host (sys.turn host i r phase) := by
  intro r' hr'
  cases phase with
  | none => exact .inl (List.mem_of_mem_eraseIdx hr')
  | some p =>
    rcases List.mem_or_eq_of_mem_set hr' with hr' | rfl
    · exact .inl hr'
    · exact .inr (h p rfl)

theorem Step.goOn {sys : Sys} {host i : Nat} {r : Reporter} {phase : Phase} {drawn : Option String}
    (h : sys.Turned host { r with phase := phase }) :
    Step C sys drawn (sys.goOn host i r phase) := by
  refine .turned (Sys.moved_turn ?_)
  rintro p ⟨⟩
  exact h

/-- A response either is not for the reporter or is taken; only a success leads to a removal. -/
theorem Phase.answered_cases (phase : Phase) (number : Nat) (status : Status) :
    phase.answered number status = phase ∨ (phase.answered number status).quiet = true ∨
      ∃ entry, phase = .delivering entry number ∧ status = .ok ∧
        phase.answered number status = .delivered entry := by
  cases phase with
  | registering n =>
    simp only [Phase.answered]
    split
    · split <;> exact .inr (.inl rfl)
    · exact .inl rfl
  | beating n =>
    simp only [Phase.answered]
    split
    · split <;> exact .inr (.inl rfl)
    · exact .inl rfl
  | delivering entry n =>
    simp only [Phase.answered]
    split
    next hnumber =>
      split
      next hsuccess =>
        exact .inr (.inr ⟨entry, by rw [hnumber], Status.isSuccess_iff.1 hsuccess, rfl⟩)
      · exact .inr (.inl rfl)
    · exact .inl rfl
  | _ => exact .inl rfl

theorem Phase.lost_cases (phase : Phase) (error : String) :
    phase.lost error = phase ∨ (phase.lost error).quiet = true := by
  cases phase <;> first | exact .inl rfl | exact .inr rfl

/-- An entry is settled: its event store is as before, or the entry was settled in it. -/
theorem Step.settle {sys : Sys} {host i : Nat} {r : Reporter} {registered : Bool} {plan : Plan}
    {g : EventDb → EventDb} {drawn : Option String}
    (hdone : ∀ {reporters}, sys.Moved host reporters →
      Step C sys drawn (sys.put host ⟨g (sys.hosts host).db, reporters⟩)) :
    Step C sys drawn (sys.settle host i r (do let db ← Prog.gets g; Agent.commit db) registered plan) := by
  have hrun := (Agent.commitWith_sat : (do let db ← Prog.gets g; Agent.commit db : Agent.Op Unit).Sat
    (sys.hosts host).db _ _ _) plan
  unfold Sys.settle
  rcases hop : (do let db ← Prog.gets g; Agent.commit db : Agent.Op Unit) plan (sys.hosts host).db with
    ⟨outcome, plan', db⟩
  rw [hop] at hrun
  have hmoved : sys.Moved host (sys.turn host i r (settledPhase registered outcome)) := by
    refine Sys.moved_turn fun p hp => .inl ?_
    cases outcome <;> cases hp <;> rfl
  cases outcome with
  | ok u =>
    have hdb : db = g (sys.hosts host).db := hrun
    rw [hdb]
    exact hdone hmoved
  | error e =>
    have hdb : db = (sys.hosts host).db := hrun
    rw [hdb]
    exact .turned hmoved
  | killed =>
    have hdb : db = (sys.hosts host).db := hrun
    rw [hdb]
    exact .turned hmoved

theorem Step.attempt {sys : Sys} {host i : Nat} {r : Reporter} {healthy beats : Bool} {plan : Plan}
    {drawn : Option String} (hfound : (sys.hosts host).reporters[i]? = some r) :
    Step C sys drawn (sys.attempt C host i r healthy beats plan) := by
  have hmem := List.mem_of_getElem? hfound
  unfold Sys.attempt
  rcases hphase : r.phase with b | n | _ | n | _ | ⟨entry, n⟩ | entry | ⟨entry, error⟩
  · cases b with
    | false => exact .asked (by rintro _ ⟨⟩) fun _ => rfl
    | true => exact .goOn (.inl rfl)
  · exact .same sys
  · dsimp only
    split
    · exact .asked (by rintro _ ⟨⟩) fun _ => rfl
    · exact .goOn (.inl rfl)
  · exact .same sys
  · dsimp only
    split
    next entry rest hpending => exact .sent hpending
    · exact .goOn (.inl rfl)
    · exact .goOn (.inl rfl)
  · exact .same sys
  · exact .settle fun hmoved => .acknowledged hmem hphase hmoved
  · exact .settle fun hmoved => .noted hmoved

theorem Sys.step (sys : Sys) (event : Event) (plan : Plan) :
    Step C sys event.drawn (sys.next C event plan) := by
  cases event with
  | recordDetection host d agentId retain deliveryId nowMs =>
    have hrun := (Agent.recordDetection_sat : (Agent.recordDetection C.json d agentId retain deliveryId
      nowMs).Sat (sys.hosts host).db _ _ _) plan
    rw [Sys.next]
    rcases hcall : Agent.recordDetection C.json d agentId retain deliveryId nowMs plan
      (sys.hosts host).db with ⟨outcome, plan', db⟩
    rw [hcall] at hrun
    cases outcome with
    | ok id => exact .recorded rfl hrun
    | error e =>
      obtain rfl : db = (sys.hosts host).db := hrun
      exact .turned .refl
    | killed =>
      obtain rfl : db = (sys.hosts host).db := hrun
      exact .turned .refl
  | insertDetectionWithOutbox host d agentId deliveryId nowMs =>
    have hrun := (Agent.insertDetectionWithOutbox_sat : (Agent.insertDetectionWithOutbox C.json d
      agentId deliveryId nowMs).Sat (sys.hosts host).db _ _ _) plan
    rw [Sys.next]
    rcases hcall : Agent.insertDetectionWithOutbox C.json d agentId deliveryId nowMs plan
      (sys.hosts host).db with ⟨outcome, plan', db⟩
    rw [hcall] at hrun
    cases outcome with
    | ok u =>
      obtain ⟨id, hmade⟩ := hrun
      exact .recorded rfl hmade
    | error e =>
      obtain rfl : db = (sys.hosts host).db := hrun
      exact .turned .refl
    | killed =>
      obtain rfl : db = (sys.hosts host).db := hrun
      exact .turned .refl
  | spawn host agentId token hostname =>
    refine .turned fun r hr => ?_
    rcases List.mem_append.1 hr with hr | hr
    · exact .inl hr
    · rw [List.mem_singleton.1 hr]
      exact .inr (.inl rfl)
  | stop host i => exact .turned fun r hr => .inl (List.mem_of_mem_eraseIdx hr)
  | step host i healthy beats =>
    rw [Sys.next]
    split
    next r hfound => exact .attempt hfound
    · exact .same sys
  | answer host i k =>
    rw [Sys.next]
    split
    next r number status hfound hresponse =>
      have hmem := List.mem_of_getElem? hfound
      refine .turned fun r' hr' => ?_
      rcases List.mem_or_eq_of_mem_set hr' with hr' | rfl
      · exact .inl hr'
      · rcases r.phase.answered_cases number status with hsame | hquiet | ⟨entry, hphase, rfl, hnow⟩
        · rw [hsame]
          exact .inl hmem
        · exact .inr (.inl hquiet)
        · rw [hnow]
          exact .inr (.inr ⟨r, hmem, entry, number, hphase, List.mem_of_getElem? hresponse, rfl⟩)
    · exact .same sys
  | lose host i error =>
    rw [Sys.next]
    split
    next r hfound =>
      refine .turned fun r' hr' => ?_
      rcases List.mem_or_eq_of_mem_set hr' with hr' | rfl
      · exact .inl hr'
      · rcases r.phase.lost_cases error with hsame | hquiet
        · rw [hsame]
          exact .inl (List.mem_of_getElem? hfound)
        · exact .inr (.inl hquiet)
    · exact .same sys
  | handle k state nowMs =>
    rw [Sys.next]
    split
    next request hfound =>
      have hrun := (handle_sat : (handle C state request nowMs).Sat sys.central _ _ _) plan
      rcases hcall : handle C state request nowMs plan sys.central with ⟨outcome, plan', central⟩
      rw [hcall] at hrun
      cases outcome with
      | ok u =>
        have hdone : Handled C sys k request central (sys.responses ++ [(k, .ok)]) := by
          refine ⟨hfound, hrun.1, fun response hresponse => ?_, fun _ => List.mem_append_left _⟩
          rcases List.mem_append.1 hresponse with h | h
          · exact .inl h
          · rw [List.mem_singleton.1 h]
            exact .inr ⟨rfl, fun _ => hrun.2⟩
        exact .handled hdone
      | error refusal =>
        have hdone : Handled C sys k request central (sys.responses ++ [(k, .refused refusal)]) := by
          refine ⟨hfound, hrun, fun response hresponse => ?_, fun _ => List.mem_append_left _⟩
          rcases List.mem_append.1 hresponse with h | h
          · exact .inl h
          · rw [List.mem_singleton.1 h]
            exact .inr ⟨rfl, by rintro ⟨⟩⟩
        exact .handled hdone
      | killed => exact .handled ⟨hfound, hrun, fun _ => .inl, fun _ h => h⟩
    · exact .same sys

end Runs

end Argos.Central
