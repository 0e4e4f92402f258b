import Argos.Vault.Acts
import Argos.Vault.Restart

/-!
# The vault as a system

A `System` is the server and the completions that are reading their chunks without the lock. In one
`Step` a call runs from beginning to end while it holds the lock, under any plan of faults; or the
process is killed, in the middle of a call or between two, and starts again with its counters rebuilt
from the directory. Uploads, registrations, both sections of completions, reviews and restarts come
in any order.

`Step.moves` says what a step does to the server: acts in a row, or acts, a cut and a restart.
-/

namespace Argos.Vault

open Argos.Lib

/-! ## Calls -/

/-- A completion between its two sections. -/
structure Completer where
  agent : String
  id : String
  record : BundleRecord
deriving DecidableEq

/-- The server and the completions under way. -/
structure System where
  server : Server
  reading : List Completer

/-- A part of a request that holds the lock. -/
inductive Call where
  | upload (agent kind : String) (bytes : Bytes) (r : Readings)
  | register (agent : String) (manifest : BundleManifest) (r : Readings)
  | start (agent id : String)
  | finish (completer : Completer) (looks : Nat → Look) (r : Readings)
  | review (agent id : String) (request : ReviewRequest) (r : Readings)

/-- What a call returns. -/
inductive Answer where
  | receipt (receipt : SignedReceipt)
  | record (record : BundleRecord)
  | reading (record : BundleRecord)

section System

variable (P : Primitives) (cfg : ServerConfig)

/-- The program of a call. -/
def Call.prog : Call → Op Answer
  | .upload agent kind bytes r => do
    let receipt ← put P cfg agent (P.sha256 bytes) kind bytes r
    pure (.receipt receipt)
  | .register agent manifest r => do
    let record ← registerInner P cfg agent manifest r
    pure (.record record)
  | .start agent id => do
    let started ← completeStart P cfg agent id
    pure (match started with
      | .done record => .record record
      | .reading record => .reading record)
  | .finish completer looks r => do
    let stamps ← Prog.ask fun _ => verifyChunks P cfg looks completer.agent completer.record
    let record ← completeFinish P cfg completer.agent completer.id completer.record stamps r
    pure (.record record)
  | .review agent id request r => do
    let record ← reviewInner P cfg agent id request r
    pure (.record record)

/-- What the handlers check before a call: the agent is the owner of a token, an upload has one of the
three kinds and is within the limit, and the identifiers of a path are well formed. -/
def Call.Allowed (reading : List Completer) : Call → Prop
  | .upload agent kind bytes _ =>
    agent ∈ cfg.agents ∧ kind ∈ ["evidence", "backup", "audit"] ∧ bytes.length ≤ cfg.maxObjectBytes
  | .register agent _ _ => agent ∈ cfg.agents
  | .start agent id => agent ∈ cfg.agents ∧ validBundleId id
  | .finish completer _ _ => completer ∈ reading
  | .review agent id _ _ => validId agent ∧ validBundleId id

/-- The completions under way after a call. -/
def Call.after : Call → Outcome Error Answer → List Completer → List Completer
  | .start agent id, .ok (.reading record), reading => ⟨agent, id, record⟩ :: reading
  | .finish completer _ _, _, reading => reading.erase completer
  | _, _, reading => reading

/-- The process starts on a directory: the counters are those of a scan. -/
def Restarted (s s' : Server) : Prop :=
  ∃ st₀ root, CapacityState.prepare cfg.capacity cfg.agents = .ok st₀ ∧ s.disk.Lists root ∧
    s' = { s with capacity := reconstruct P cfg s.disk st₀ root }

/-- One step of the system. -/
inductive Step : System → System → Prop where
  /-- A call returns, with an answer or an error. -/
  | call {sys : System} {call : Call} {plan plan' : Plan} {o : Outcome Error Answer} {s' : Server}
      (allowed : call.Allowed cfg sys.reading)
      (run : call.prog P cfg plan sys.server = (o, plan', s')) (alive : o ≠ .killed) :
    Step sys ⟨s', call.after o sys.reading⟩
  /-- The process is killed in the middle of a call, and starts again. -/
  | killed {sys : System} {call : Call} {plan plan' : Plan} {s₁ s' : Server}
      (allowed : call.Allowed cfg sys.reading)
      (run : call.prog P cfg plan sys.server = (.killed, plan', s₁))
      (restarted : Restarted P cfg s₁ s') : Step sys ⟨s', []⟩
  /-- The process is killed between two calls, and starts again. -/
  | restart {sys : System} {s' : Server} (restarted : Restarted P cfg sys.server s') :
    Step sys ⟨s', []⟩

/-- Steps in a row. -/
def Run : System → System → Prop := Relation.ReflTransGen (Step P cfg)

/-- The system on a vault directory in which nothing is yet. -/
def System.initial (st₀ : CapacityState) : System := ⟨.initial st₀, []⟩

/-- What one step does to the server. -/
inductive Moves : Server → Server → Prop where
  | acts {s s' : Server} (h : Acts P cfg s s') : Moves s s'
  | restarted {s s₁ s' : Server} (h : Halts P cfg s s₁) (restarted : Restarted P cfg s₁ s') :
    Moves s s'

/-- Every completion under way began with the manifest of its bundle. -/
def AllBegun (sys : System) : Prop :=
  ∀ c ∈ sys.reading, Begun P cfg sys.server c.agent c.id c.record

variable {P cfg}

/-- A call makes acts only. -/
theorem Call.tame {call : Call} {sys : System} (hbegun : AllBegun P cfg sys)
    (hallowed : call.Allowed cfg sys.reading) :
    Tame P cfg (call.prog P cfg) sys.server (fun answer s' =>
      ∀ agent id record, call = .start agent id → answer = .reading record →
        s' = sys.server ∧ recordRaw P cfg sys.server agent id = .ok record ∧
          record.completion = none) := by
  cases call with
  | upload agent kind bytes r =>
    refine Tame.bind (putInner_tame (.upload hallowed.2.1)) fun _ _ _ _ => Tame.pure ?_
    rintro _ _ _ ⟨⟩
  | register agent manifest r =>
    refine Tame.bind registerInner_tame fun _ _ _ _ => Tame.pure ?_
    rintro _ _ _ ⟨⟩
  | start agent id =>
    refine Tame.bind completeStart_tame fun started s' _ ⟨hs', hstarted⟩ => Tame.pure ?_
    rintro _ _ record ⟨⟩ hanswer
    cases started with
    | done record' => cases hanswer
    | reading record' =>
      cases hanswer
      exact ⟨hs', hstarted record rfl⟩
  | finish completer looks r =>
    refine Tame.askThen fun stamps hverify => ?_
    refine Tame.bind (completeFinish_tame (hbegun completer hallowed) hverify) fun _ _ _ _ =>
      Tame.pure ?_
    rintro _ _ _ ⟨⟩
  | review agent id request r =>
    refine Tame.bind reviewInner_tame fun _ _ _ _ => Tame.pure ?_
    rintro _ _ _ ⟨⟩

/-- What a step does to the server. -/
theorem Step.moves {sys sys' : System} (h : Step P cfg sys sys') (hbegun : AllBegun P cfg sys) :
    Moves P cfg sys.server sys'.server := by
  cases h with
  | call allowed run alive =>
    obtain ⟨a, -, hacts, -⟩ | ⟨-, hacts⟩ := (Call.tame hbegun allowed).sat.of_alive run alive
    · exact .acts hacts
    · exact .acts hacts
  | killed allowed run restarted =>
    exact .restarted ((Call.tame hbegun allowed).sat.of_killed run) restarted
  | restart restarted => exact .restarted .refl restarted

end System

/-! ## Scripts -/

section Scripts

variable (P : Primitives) (cfg : ServerConfig)

instance (reading : List Completer) (call : Call) : Decidable (call.Allowed cfg reading) := by
  cases call <;> unfold Call.Allowed <;> infer_instance

/-- The server started again, with the directory listed in the order in which it is kept. -/
def Server.restart (s : Server) : Server :=
  match CapacityState.prepare cfg.capacity cfg.agents with
  | .ok st₀ => { s with capacity := reconstruct P cfg s.disk st₀ s.disk.rootEntries }
  | .error _ => s

/-- The system after a call under a plan; a call that is not allowed is left out. -/
def System.next (sys : System) (call : Call) (plan : Plan) : System :=
  if call.Allowed cfg sys.reading then
    match call.prog P cfg plan sys.server with
    | (.killed, _, s') => ⟨s'.restart P cfg, []⟩
    | (o, _, s') => ⟨s', call.after o sys.reading⟩
  else sys

/-- The system after the calls of a script; a call may depend on where the script has come. -/
def System.play (sys : System) : List ((System → Call) × Plan) → System
  | [] => sys
  | (call, plan) :: rest => (sys.next P cfg (call sys) plan).play rest

variable {P cfg}

theorem System.next_run (hcfg : ∃ st₀, CapacityState.prepare cfg.capacity cfg.agents = .ok st₀)
    (sys : System) (call : Call) (plan : Plan) : Run P cfg sys (sys.next P cfg call plan) := by
  unfold System.next
  split
  · next allowed =>
    rcases hrun : call.prog P cfg plan sys.server with ⟨o, plan', s'⟩
    cases o with
    | ok answer => exact .single (.call allowed hrun (by simp))
    | error e => exact .single (.call allowed hrun (by simp))
    | killed =>
      obtain ⟨st₀, hst₀⟩ := hcfg
      refine .single (.killed allowed hrun ⟨st₀, _, hst₀, Disk.lists_rootEntries _, ?_⟩)
      rw [Server.restart, hst₀]
  · exact .refl

/-- A script is a run. -/
theorem System.play_run (hcfg : ∃ st₀, CapacityState.prepare cfg.capacity cfg.agents = .ok st₀)
    (script : List ((System → Call) × Plan)) (sys : System) :
    Run P cfg sys (sys.play P cfg script) := by
  induction script generalizing sys with
  | nil => exact .refl
  | cons head rest ih => exact (sys.next_run hcfg (head.1 sys) head.2).trans (ih _)

/-- The content of the sample's one chunk. -/
def sampleBody : Bytes := [1, 2, 3, 4]

/-- A bundle of one chunk. -/
def sampleManifest : BundleManifest :=
  { format := "argos-recovery-bundle-v1"
    bundleId := "00000000000000000000000000000000"
    createdAtMs := 0
    metadata := ⟨"/a", none, "", none⟩
    sha256 := sample.sha256 sampleBody
    sizeBytes := 4
    chunks := [⟨sample.sha256 sampleBody, 4⟩] }

/-- What a call of the sample reads from outside. -/
def sampleReadings (now : Nat) : Readings := ⟨now, now, some u64Max⟩

/-- The chunk is uploaded, the bundle is registered and completed. -/
def sampleCompletion : List ((System → Call) × Plan) :=
  [(fun _ => .upload "agent" "backup" sampleBody (sampleReadings 1), []),
    (fun _ => .register "agent" sampleManifest (sampleReadings 2), []),
    (fun _ => .start "agent" sampleManifest.bundleId, []),
    (fun sys => match sys.reading with
      | completer :: _ => .finish completer (fun _ => .still sys.server.disk) (sampleReadings 3)
      | [] => .start "agent" sampleManifest.bundleId, [])]

/-- A review of the sample's bundle. -/
def sampleReview (request : String) (decision : ReviewDecision) (now : Nat) : System → Call :=
  fun _ => .review "agent" sampleManifest.bundleId ⟨request, decision, "admin", "checked"⟩
    (sampleReadings now)

/-- The sample vault after a script. -/
def samplePlay (script : List ((System → Call) × Plan)) : System :=
  (System.initial sampleStart).play sample sampleConfig script

theorem sample_run (script : List ((System → Call) × Plan)) :
    Run sample sampleConfig (.initial sampleStart) (samplePlay script) :=
  System.play_run ⟨sampleStart, rfl⟩ script _

theorem System.play_append (script script' : List ((System → Call) × Plan)) (sys : System) :
    sys.play P cfg (script ++ script') = (sys.play P cfg script).play P cfg script' := by
  induction script generalizing sys with
  | nil => rfl
  | cons head rest ih => exact ih _

theorem sample_run_append (script script' : List ((System → Call) × Plan)) :
    Run sample sampleConfig (samplePlay script) (samplePlay (script ++ script')) := by
  rw [samplePlay, samplePlay, System.play_append]
  exact System.play_run ⟨sampleStart, rfl⟩ script' _

end Scripts

/-! ## What is never lost -/

section Evolution

variable {P : Primitives} {cfg : ServerConfig} {s s' : Server}

/-- Files, hashed texts, manifests, completions and reviews stay. -/
structure Evolves (s s' : Server) : Prop where
  disk : s.disk.Extends s'.disk
  hashed : ∀ b ∈ s.hashed, b ∈ s'.hashed
  bundles : ∀ key row, s.tables.bundles.lookup key = some row →
    ∃ row', s'.tables.bundles.lookup key = some row' ∧ row'.manifestHash = row.manifestHash ∧
      ∀ hash, row.completionHash = some hash → row'.completionHash = some hash
  reviews : s.tables.reviews <+: s'.tables.reviews

theorem Evolves.refl (s : Server) : Evolves s s :=
  ⟨.refl _, fun _ h => h, fun _ row h => ⟨row, h, rfl, fun _ h => h⟩, List.prefix_refl _⟩

theorem Evolves.trans {s₁ s₂ s₃ : Server} (h : Evolves s₁ s₂) (h' : Evolves s₂ s₃) :
    Evolves s₁ s₃ := by
  refine ⟨h.disk.trans h'.disk, fun b hb => h'.hashed b (h.hashed b hb), fun key row hrow => ?_,
    h.reviews.trans h'.reviews⟩
  obtain ⟨row₂, hrow₂, hm₂, hc₂⟩ := h.bundles key row hrow
  obtain ⟨row₃, hrow₃, hm₃, hc₃⟩ := h'.bundles key row₂ hrow₂
  exact ⟨row₃, hrow₃, hm₃.trans hm₂, fun hash hh => hc₃ hash (hc₂ hash hh)⟩

/-- A change that leaves the tables alone. -/
theorem Evolves.of_catalog (hdisk : s.disk.Extends s'.disk) (hhashed : ∀ b ∈ s.hashed, b ∈ s'.hashed)
    (hcat : s'.catalog = s.catalog) : Evolves s s' := by
  have htables := tables_of_catalog hcat
  exact ⟨hdisk, hhashed, fun key row h => ⟨row, htables ▸ h, rfl, fun _ h => h⟩,
    htables ▸ List.prefix_refl _⟩

/-- A change of the tables alone. -/
theorem Evolves.of_tables (hdisk : s'.disk = s.disk) (hhashed : ∀ b ∈ s.hashed, b ∈ s'.hashed)
    (hbundles : s'.tables.bundles = s.tables.bundles)
    (hreviews : s.tables.reviews <+: s'.tables.reviews) : Evolves s s' :=
  ⟨hdisk ▸ .refl _, hhashed, fun _ row h => ⟨row, hbundles ▸ h, rfl, fun _ h => h⟩, hreviews⟩

end Evolution

end Argos.Vault
