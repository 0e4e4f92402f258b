import Argos.Queue.Acceptance
import Argos.Vault.Completions
import Argos.Vault.WriteOnce

/-!
# The queue and the vault together

A `World` is a queue with its processes, a vault, and everything that the vault has ever given out:
the contents of the receipts and completions in its answers. Requests come to the vault from
anywhere, in any order and any number of times, and answers are lost, repeated or held back. A
worker may bring any answer to `finish`, from anybody; only that nobody signs with the key of the
vault but the vault (`Genuine`).

What the queue stores as evidence is then evidence (`World.Ok`): the receipt of every archived item
and the completion of every job was given out by the vault, and what the vault has given out it
keeps.
-/

namespace Argos.Offsite

open Argos.Lib
open Argos.Vault (Bytes Error SignedReceipt Receipt Signed Completion BundleRecord BundleManifest
  Primitives ServerConfig CapacityState Server System Call Answer AllConfirmed ChunksStored Evolves
  verifyReceipt verifyValue recordRaw NoCollision)
open Argos.Queue (Formats Sys Event Database QueueTarget ItemRow JobRow)

/-- The queue with its processes, the vault, and the contents of what the vault has given out. -/
structure World where
  queue : Sys
  vault : System
  receipts : List Receipt
  completions : List Completion

/-- The vault gives out a record of a bundle. -/
def World.told (w : World) (record : BundleRecord) : World :=
  { w with
    receipts := record.manifestReceipt.receipt :: w.receipts
    completions := (record.completion.map (·.value)).toList ++ w.completions }

/-- The vault answers a call. What the first section of a completion returns stays inside. -/
def World.answered (w : World) : Answer → World
  | .receipt receipt => { w with receipts := receipt.receipt :: w.receipts }
  | .record record => w.told record
  | .reading _ => w

section Worlds

variable (F : Formats) (cfg : ServerConfig)

/-- An answer that a worker brings to the queue is signed with the key of the vault only if the
vault has given it out. -/
def Genuine (w : World) : Event → Prop
  | .finish _ _ (.ok receipt) _ _ =>
    verifyReceipt F.toPrimitives receipt cfg.key.publicHex = .ok () → receipt.receipt ∈ w.receipts
  | .finishJob _ _ (.ok record) _ _ => ∀ completion, record.completion = some completion →
    verifyValue F.toPrimitives F.completion completion cfg.key.publicHex = .ok () →
      completion.value ∈ w.completions
  | _ => True

/-- One step of the queue, or of the vault. -/
inductive Step (w : World) : World → Prop
  | queue {event : Event} {plan : Plan} (genuine : Genuine F cfg w event) :
    Step w { w with queue := w.queue.next F event plan }
  /-- A call of the vault returns, and its answer is given out. -/
  | answered {call : Call} {plan plan' : Plan} {answer : Answer} {s' : Server}
      (allowed : call.Allowed cfg w.vault.reading)
      (run : call.prog F.toPrimitives cfg plan w.vault.server = (.ok answer, plan', s')) :
    Step w ({ w with vault := ⟨s', call.after (.ok answer) w.vault.reading⟩ }.answered answer)
  /-- The vault takes a step of which nobody learns. -/
  | unanswered {vault : System} (step : Vault.Step F.toPrimitives cfg w.vault vault) :
    Step w { w with vault := vault }
  /-- The receipt of an object is read. -/
  | receipt {agent hash : String} {receipt : SignedReceipt} {bytes : Bytes}
      (stored : w.vault.server.disk.get F.toPrimitives cfg agent hash = .ok (receipt, bytes)) :
    Step w { w with receipts := receipt.receipt :: w.receipts }
  /-- The record of a bundle is read. -/
  | record {agent id : String} {record : BundleRecord}
      (stored : recordRaw F.toPrimitives cfg w.vault.server agent id = .ok record) :
    Step w (w.told record)

/-- Steps in a row. -/
def Run : World → World → Prop := Relation.ReflTransGen (Step F cfg)

/-- Nothing is enqueued, and nothing is stored. -/
def World.initial (st₀ : CapacityState) : World := ⟨{}, .initial st₀, [], []⟩

/-! ## What the vault has given out it keeps -/

/-- The vault reads back an object whose receipt has this content. -/
def Received (s : Server) (receipt : Receipt) : Prop :=
  ∃ given bytes, given.receipt = receipt ∧
    s.disk.get F.toPrimitives cfg receipt.agentId receipt.sha256 = .ok (given, bytes)

/-- The vault has completed the bundle of a completion, whose manifest promises the same content. -/
def Completed (s : Server) (completion : Completion) : Prop :=
  ∃ manifestHash hash receipt body manifest,
    s.tables.bundles.lookup (completion.agentId, completion.bundleId) = some ⟨manifestHash, some hash⟩ ∧
    s.disk.get F.toPrimitives cfg completion.agentId manifestHash = .ok (receipt, body) ∧
    F.manifest.decode body = some manifest ∧ manifest.bundleId = completion.bundleId ∧
    manifest.sha256 = completion.sha256 ∧ manifest.sizeBytes = completion.sizeBytes

variable {F cfg} {w w' : World} {s s' : Server}

theorem Received.evolves {receipt : Receipt} (h : Received F cfg s receipt) (hev : Evolves s s') :
    Received F cfg s' receipt := by
  obtain ⟨given, bytes, hgiven, hget⟩ := h
  exact ⟨given, bytes, hgiven, Vault.Disk.get_mono hev.disk hget⟩

theorem Completed.evolves {completion : Completion} (h : Completed F cfg s completion)
    (hev : Evolves s s') : Completed F cfg s' completion := by
  obtain ⟨manifestHash, hash, receipt, body, manifest, hrow, hget, hmanifest⟩ := h
  obtain ⟨⟨manifestHash', hash'⟩, hrow', hsame, hkept⟩ := hev.bundles _ _ hrow
  have hhash : hash' = some hash := hkept hash rfl
  dsimp only at hsame
  rw [hsame, hhash] at hrow'
  exact ⟨manifestHash, hash, receipt, body, manifest, hrow', Vault.Disk.get_mono hev.disk hget, hmanifest⟩

/-- An object that can be read was received. -/
theorem received_of_get {agent hash : String} {receipt : SignedReceipt} {bytes : Bytes}
    (h : s.disk.get F.toPrimitives cfg agent hash = .ok (receipt, bytes)) :
    Received F cfg s receipt.receipt := by
  have hstored := Vault.Disk.get_ok_iff.1 h
  refine ⟨receipt, bytes, rfl, ?_⟩
  rw [hstored.agentId, hstored.sha256]
  exact h

/-- What a record shows is kept. -/
theorem kept_of_recordRaw {agent id : String} {record : BundleRecord}
    (h : recordRaw F.toPrimitives cfg s agent id = .ok record) :
    Received F cfg s record.manifestReceipt.receipt ∧
      ∀ completion, record.completion = some completion → Completed F cfg s completion.value := by
  obtain ⟨⟨manifestHash, hash⟩, hrow, ⟨body, hget, hdecode⟩, hid, hread, -, hverified, heq⟩ :=
    Vault.recordRaw_ok_iff.1 h
  refine ⟨received_of_get hget, fun completion hcompletion => ?_⟩
  have hagent : record.agentId = agent := by
    rw [heq]
    rfl
  obtain ⟨-, -, -, -, -, hmatches, -⟩ := Vault.verifyRecord_ok_iff.1 hverified
  rw [hcompletion] at hmatches hread
  have hnames := hmatches.2.1
  simp only [Vault.completionMatches, Bool.and_eq_true, beq_iff_eq] at hnames
  obtain ⟨⟨⟨⟨⟨⟨-, -⟩, hnamed⟩, hbundle⟩, -⟩, hsha⟩, hsize⟩ := hnames
  have hnamed' : completion.value.agentId = agent := hnamed.trans hagent
  have hbundle' : completion.value.bundleId = id := hbundle.trans hid
  cases hash with
  | none => cases hread
  | some hash =>
    refine ⟨manifestHash, hash, record.manifestReceipt, body, record.manifest, ?_, ?_, hdecode,
      hbundle.symm, hsha.symm, hsize.symm⟩
    · rw [hnamed', hbundle']
      exact hrow
    · rw [hnamed']
      exact hget

/-- What a program returns is told by its last part. -/
theorem last_sat {α β : Type} {x : Vault.Op α} {f : α → Vault.Op β} {Q : β → Server → Prop}
    (h : ∀ a s', (f a).Sat s' Q (fun _ => True) fun _ => True) :
    (x >>= f).Sat s Q (fun _ => True) fun _ => True := by
  refine Prog.Sat.bind (Q := Q) fun plan => ?_
  rcases x plan s with ⟨o, plan', s'⟩
  cases o with
  | ok a => exact h a s'
  | error e => trivial
  | killed => trivial

variable (F cfg) in
/-- The vault reads a record of a bundle. -/
def Shown (record : BundleRecord) (s : Server) : Prop :=
  ∃ agent id, recordRaw F.toPrimitives cfg s agent id = .ok record

/-- A program that ends by reading a record. -/
theorem shown_sat {agent id : String} :
    (Prog.ask fun s => Vault.record F.toPrimitives cfg s agent id).Sat s (Shown F cfg)
      (fun _ => True) fun _ => True :=
  Prog.Sat.ask (fun _ h => ⟨agent, id, (Vault.record_ok h).1⟩) trivial

theorem registerInner_shows {agent : String} {manifest : BundleManifest} {r : Vault.Readings} :
    (Vault.registerInner F.toPrimitives cfg agent manifest r).Sat s (Shown F cfg)
      (fun _ => True) fun _ => True := by
  refine last_sat fun _ _ => last_sat fun _ _ => last_sat fun _ s' => ?_
  refine Prog.Sat.bind (Prog.Sat.ask (fun raw hraw => ?_) trivial)
  refine Prog.Sat.bind (Prog.Sat.ask (fun _ _ => ?_) trivial)
  exact Prog.Sat.ite (fun _ => Prog.Sat.pure ⟨agent, manifest.bundleId, hraw⟩) fun _ => shown_sat

theorem completeStart_shows {agent id : String} :
    (Vault.completeStart F.toPrimitives cfg agent id).Sat s
      (fun started s' => ∀ record, started = .done record → Shown F cfg record s')
      (fun _ => True) fun _ => True := by
  refine last_sat fun _ _ => last_sat fun raw _ => last_sat fun _ s' => ?_
  refine Prog.Sat.ite (fun _ => Prog.Sat.bind (shown_sat.mono ?_ (fun _ h => h) fun _ h => h))
    fun _ => Prog.Sat.pure nofun
  rintro record s' hshown
  refine Prog.Sat.pure ?_
  rintro _ ⟨⟩
  exact hshown

theorem completeFinish_shows {agent id : String} {record : BundleRecord} {stamps : List Vault.FileStamp}
    {r : Vault.Readings} :
    (Vault.completeFinish F.toPrimitives cfg agent id record stamps r).Sat s (Shown F cfg)
      (fun _ => True) fun _ => True := by
  refine last_sat fun _ _ => last_sat fun _ _ => last_sat fun _ s' => ?_
  refine Prog.Sat.ite (fun _ => shown_sat) fun _ => ?_
  exact last_sat fun _ _ => last_sat fun _ _ => last_sat fun _ _ => shown_sat

theorem reviewInner_shows {agent id : String} {request : Vault.ReviewRequest} {r : Vault.Readings} :
    (Vault.reviewInner F.toPrimitives cfg agent id request r).Sat s (Shown F cfg)
      (fun _ => True) fun _ => True := by
  refine last_sat fun _ _ => last_sat fun _ _ => last_sat fun raw _ => last_sat fun _ s' => ?_
  split
  · exact Prog.Sat.ite (fun _ => Prog.Sat.fail trivial) fun _ => shown_sat
  · exact last_sat fun _ _ => last_sat fun _ _ => last_sat fun _ _ => last_sat fun _ _ =>
      last_sat fun _ _ => shown_sat

/-- The record in an answer is one that the vault reads of a bundle. -/
theorem record_answer {call : Call} {plan plan' : Plan} {record : BundleRecord}
    (h : call.prog F.toPrimitives cfg plan s = (.ok (.record record), plan', s')) :
    Shown F cfg record s' := by
  have hsat : (call.prog F.toPrimitives cfg).Sat s
      (fun answer s' => ∀ record, answer = .record record → Shown F cfg record s')
      (fun _ => True) fun _ => True := by
    have hpure : ∀ {p : Vault.Op BundleRecord} {s₁ : Server},
        p.Sat s₁ (Shown F cfg) (fun _ => True) (fun _ => True) →
          (p >>= fun record => (pure (.record record) : Vault.Op Answer)).Sat s₁
            (fun answer s' => ∀ record, answer = .record record → Shown F cfg record s')
            (fun _ => True) fun _ => True := fun hp =>
      Prog.Sat.bind (hp.mono (fun _ _ hshown => Prog.Sat.pure fun _ heq => by cases heq; exact hshown)
        (fun _ h => h) fun _ h => h)
    cases call with
    | upload agent kind bytes r => exact last_sat fun _ _ => Prog.Sat.pure nofun
    | register agent manifest r => exact hpure registerInner_shows
    | start agent id =>
      refine Prog.Sat.bind (completeStart_shows.mono (fun started _ hstarted => ?_) (fun _ h => h)
        fun _ h => h)
      refine Prog.Sat.pure fun record' heq => ?_
      cases started with
      | done record =>
        cases heq
        exact hstarted record' rfl
      | reading record => cases heq
    | finish completer looks r => exact last_sat fun _ _ => hpure completeFinish_shows
    | review agent id request r => exact hpure reviewInner_shows
  exact hsat.of_ok h record rfl

theorem valid_agent (hcfg : cfg.check = true) {agent : String} (h : agent ∈ cfg.agents) :
    Vault.validId agent = true := by
  simp only [ServerConfig.check, Bool.and_eq_true] at hcfg
  exact List.all_eq_true.1 hcfg.1.1.1.1.2 agent h

theorem valid_upload {kind : String} (h : kind ∈ ["evidence", "backup", "audit"]) :
    Vault.validKind kind = true := by
  simp only [List.mem_cons, List.not_mem_nil, or_false] at h
  rcases h with rfl | rfl | rfl <;> decide

/-- The receipt in an answer is that of an object which the vault reads back. -/
theorem receipt_answer (hP : F.toPrimitives.Lawful cfg.key) (hcfg : cfg.check = true) {call : Call}
    {reading : List Vault.Completer} (hallowed : call.Allowed cfg reading) {plan plan' : Plan}
    {receipt : SignedReceipt}
    (h : call.prog F.toPrimitives cfg plan s = (.ok (.receipt receipt), plan', s')) :
    Received F cfg s' receipt.receipt := by
  cases call with
  | upload agent kind bytes r =>
    obtain ⟨receipt', plan₁, s₁, hput, hpure⟩ := Prog.bind_run_eq_ok h
    cases hpure
    obtain ⟨hagent, hkind, -⟩ := hallowed
    obtain hfound | hadded := Vault.putInner_sat.of_ok hput
    · obtain ⟨body, hbody⟩ := hfound.found
      have hget := received_of_get hbody
      rw [hfound.state]
      exact hget
    · exact received_of_get (hadded.get hP hcfg (valid_agent hcfg hagent) (valid_upload hkind))
  | register agent manifest r =>
    obtain ⟨_, _, _, -, hpure⟩ := Prog.bind_run_eq_ok h
    cases hpure
  | start agent id =>
    obtain ⟨started, _, _, -, hpure⟩ := Prog.bind_run_eq_ok h
    cases started with
    | done record => cases hpure
    | reading record => cases hpure
  | finish completer looks r =>
    obtain ⟨_, _, _, -, h⟩ := Prog.bind_run_eq_ok h
    obtain ⟨_, _, _, -, hpure⟩ := Prog.bind_run_eq_ok h
    cases hpure
  | review agent id request r =>
    obtain ⟨_, _, _, -, hpure⟩ := Prog.bind_run_eq_ok h
    cases hpure

/-! ## What the queue stores was given out -/

variable (F) in
/-- The receipts and completions in the tables of a queue were given out by the vault. -/
structure Given (w : World) (db : Database) : Prop where
  archive : ∀ a ∈ db.archive, ∀ receipt, a.receiptJson.bind F.signedReceipt.decode = some receipt →
    receipt.receipt ∈ w.receipts
  jobs : ∀ j ∈ db.jobs, ∀ completion, j.completionJson.bind F.signedCompletion.decode = some completion →
    completion.value ∈ w.completions

theorem Given.mono {db : Database} (h : Given F w db) (hreceipts : ∀ r ∈ w.receipts, r ∈ w'.receipts)
    (hcompletions : ∀ c ∈ w.completions, c ∈ w'.completions) : Given F w' db :=
  ⟨fun a ha receipt hreceipt => hreceipts _ (h.archive a ha receipt hreceipt),
    fun j hj completion hcompletion => hcompletions _ (h.jobs j hj completion hcompletion)⟩

variable {sys : Sys} {event : Event} {target : QueueTarget} {db db' : Database}

/-- A receipt of the archive was there before, or is the one that the step has brought. -/
theorem change_archive (h : sys.change F event target db db') {a : ItemRow} (ha : a ∈ db'.archive) :
    a ∈ db.archive ∨ ∃ i t receipt now clock, event = .finish i t (.ok receipt) now clock ∧
      verifyReceipt F.toPrimitives receipt target.pinnedPubkey = .ok () ∧
      a.receiptJson = some (F.signedReceipt.encode receipt) := by
  cases event with
  | enqueue _ _ _ _ r =>
    obtain ⟨id, -, -, -, hash, size, -, -, hins⟩ := h
    obtain ⟨-, rfl⟩ := Queue.insertItem_ok_iff.1 hins
    exact .inl ha
  | claim _ _ _ _ _ =>
    obtain ⟨row, token', -, -, -, rfl⟩ := h
    exact .inl ha
  | finish i t result now clock =>
    obtain ⟨lease, -, -, hresult⟩ := h
    cases result with
    | ok receipt =>
      obtain ⟨hverified, hmove⟩ := hresult
      obtain ⟨-, rfl⟩ := Queue.archiveItem_ok_iff.1 hmove
      rcases List.mem_append.1 ha with ha | ha
      · exact .inl ha
      · obtain ⟨r, -, rfl⟩ := List.mem_map.1 ha
        have hreceipt := (Vault.Result.check_ok_iff.1 hverified).1
        exact .inr ⟨i, t, receipt, now, clock, rfl, hreceipt, rfl⟩
    | error code =>
      obtain rfl := hresult
      exact .inl ha
  | claimJob _ _ _ _ _ =>
    obtain ⟨row, token', -, -, -, job, -, -, rfl⟩ := h
    exact .inl ha
  | finishJob i _ result _ _ =>
    obtain ⟨lease, -, -, hresult⟩ := h
    cases result with
    | ok record =>
      obtain ⟨-, -, -, -, rfl⟩ := hresult
      exact .inl ha
    | error code =>
      obtain rfl := hresult
      exact .inl ha
  | proceed i r =>
    obtain ⟨stage, -, -, -, -, refs, linked, job, -, hlinked, hins, -⟩ := h
    obtain ⟨-, -, rfl⟩ := Queue.insertJob_ok_iff.1 hins
    have hsame : linked.archive = db.archive := (Queue.linkRows_same hlinked).2.2.1
    exact .inl (hsame ▸ ha)
  | beginBundle _ _ => exact h.elim
  | abort _ _ => exact h.elim
  | reorder _ => exact h.elim

/-- A row of the jobs after an update is a row as it was, or an updated one. -/
theorem updated_job {keep : JobRow → Bool} {g : JobRow → JobRow} {j : JobRow}
    (hj : j ∈ (db.updateJob keep g).jobs) : ∃ j₀ ∈ db.jobs, j = j₀ ∨ j = g j₀ := by
  obtain ⟨j₀, hj₀, rfl⟩ := List.mem_map.1 hj
  refine ⟨j₀, hj₀, ?_⟩
  split
  · exact .inr rfl
  · exact .inl rfl

/-- A completion of the jobs was there before, or is the one that the step has brought. -/
theorem change_jobs (h : sys.change F event target db db') {j : JobRow} (hj : j ∈ db'.jobs) :
    (∃ j₀ ∈ db.jobs, j.completionJson = j₀.completionJson) ∨ j.completionJson = none ∨
      ∃ i t record now clock, event = .finishJob i t (.ok record) now clock ∧
        Vault.verifyRecord F.toPrimitives record target.pinnedPubkey target.keyId = .ok () ∧
        j.completionJson = record.completion.map F.signedCompletion.encode := by
  cases event with
  | enqueue _ _ _ _ r =>
    obtain ⟨id, -, -, -, hash, size, -, -, hins⟩ := h
    obtain ⟨-, rfl⟩ := Queue.insertItem_ok_iff.1 hins
    exact .inl ⟨j, hj, rfl⟩
  | claim _ _ _ _ _ =>
    obtain ⟨row, token', -, -, -, rfl⟩ := h
    exact .inl ⟨j, hj, rfl⟩
  | finish i t result now clock =>
    obtain ⟨lease, -, -, hresult⟩ := h
    cases result with
    | ok receipt =>
      obtain ⟨-, rfl⟩ := Queue.archiveItem_ok_iff.1 hresult.2
      exact .inl ⟨j, hj, rfl⟩
    | error code =>
      obtain rfl := hresult
      exact .inl ⟨j, hj, rfl⟩
  | claimJob _ _ _ _ _ =>
    obtain ⟨row, token', -, -, -, job, -, -, rfl⟩ := h
    obtain ⟨j₀, hj₀, hsame | hsame⟩ := updated_job hj
    · exact .inl ⟨j₀, hj₀, by rw [hsame]⟩
    · exact .inl ⟨j₀, hj₀, by rw [hsame]; rfl⟩
  | finishJob i t result now clock =>
    obtain ⟨lease, -, -, hresult⟩ := h
    cases result with
    | ok record =>
      obtain ⟨hverified, -, -, -, rfl⟩ := hresult
      obtain ⟨j₀, hj₀, hsame | hsame⟩ := updated_job hj
      · exact .inl ⟨j₀, hj₀, by rw [hsame]⟩
      · exact .inr (.inr ⟨i, t, record, now, clock, rfl, hverified, by rw [hsame]; rfl⟩)
    | error code =>
      obtain rfl := hresult
      obtain ⟨j₀, hj₀, hsame | hsame⟩ := updated_job hj
      · exact .inl ⟨j₀, hj₀, by rw [hsame]⟩
      · exact .inl ⟨j₀, hj₀, by rw [hsame]; rfl⟩
  | proceed i r =>
    obtain ⟨stage, -, -, -, -, refs, linked, job, -, hlinked, hins, -⟩ := h
    obtain ⟨-, -, rfl⟩ := Queue.insertJob_ok_iff.1 hins
    rcases List.mem_append.1 hj with hj | hj
    · exact .inl ⟨j, (Queue.linkRows_same hlinked).1 ▸ hj, rfl⟩
    · rw [List.mem_singleton.1 hj]
      exact .inr (.inl rfl)
  | beginBundle _ _ => exact h.elim
  | abort _ _ => exact h.elim
  | reorder _ => exact h.elim

/-! ## What holds of a world -/

/-- The queue is for this vault: receipts are verified with its key. -/
def Pinned (F : Formats) (cfg : ServerConfig) (db : Database) : Prop :=
  ∀ target, db.target? F = some target → target.pinnedPubkey = cfg.key.publicHex

variable (F cfg) in
/-- What holds after every step: the queue and the vault are in order, what was given out is kept,
and what a queue for this vault stores as evidence was given out. -/
structure World.Ok (w : World) : Prop where
  queue : w.queue.Ok F
  vault : Vault.Reached F.toPrimitives cfg w.vault
  confirmed : AllConfirmed F.toPrimitives cfg w.vault.server
  receipts : ∀ receipt ∈ w.receipts, Received F cfg w.vault.server receipt
  completions : ∀ completion ∈ w.completions, Completed F cfg w.vault.server completion
  given : ∀ db, w.queue.disk.db? = some db → Pinned F cfg db → Given F w db

theorem World.ok_initial (st₀ : CapacityState) : (World.initial st₀).Ok F cfg where
  queue := Queue.Sys.ok_initial
  vault := .initial st₀
  confirmed := Vault.Run.allConfirmed .refl
  receipts := nofun
  completions := nofun
  given := nofun

/-- A change of the tables brings only what was given out. -/
theorem Given.change (hF : F.ReadsBack) (h : Given F w db) (hgenuine : Genuine F cfg w event)
    (hpinned : target.pinnedPubkey = cfg.key.publicHex) (hchange : sys.change F event target db db') :
    Given F w db' := by
  refine ⟨fun a ha receipt hreceipt => ?_, fun j hj completion hcompletion => ?_⟩
  · rcases change_archive hchange ha with ha | ⟨i, t, given, now, clock, rfl, hverified, hjson⟩
    · exact h.archive a ha receipt hreceipt
    · rw [hjson, Option.bind_some, hF.signedReceipt] at hreceipt
      cases hreceipt
      exact hgenuine (hpinned ▸ hverified)
  · rcases change_jobs hchange hj with
      ⟨j₀, hj₀, hjson⟩ | hjson | ⟨i, t, record, now, clock, rfl, hverified, hjson⟩
    · exact h.jobs j₀ hj₀ completion (hjson ▸ hcompletion)
    · rw [hjson] at hcompletion
      cases hcompletion
    · rcases hrecord : record.completion with _ | given
      · rw [hjson, hrecord] at hcompletion
        cases hcompletion
      · rw [hjson, hrecord, Option.map_some, Option.bind_some, hF.signedCompletion] at hcompletion
        cases hcompletion
        obtain ⟨-, -, -, -, -, hmatches, -⟩ := Vault.verifyRecord_ok_iff.1 hverified
        rw [hrecord] at hmatches
        exact hgenuine _ hrecord (Vault.verifyValue_ok_iff.2 (hpinned ▸ hmatches.1))

/-- A step of the queue. -/
theorem World.Ok.queue_step (hF : F.ReadsBack) (h : w.Ok F cfg) {event : Event} (plan : Plan)
    (hgenuine : Genuine F cfg w event) :
    World.Ok F cfg { w with queue := w.queue.next F event plan } := by
  refine ⟨(h.queue.next hF event plan).1, h.vault, h.confirmed, h.receipts, h.completions,
    fun db₁ hdb₁ hpinned => ?_⟩
  -- the tables that the step finds, which are those of the queue or new and empty
  have hbegins : ∀ db, Queue.Begins F (event.makes F) w.queue.disk db → Pinned F cfg db →
      Given F w db := by
    intro db hdb hpinned
    rcases hdb with hdb | ⟨-, target, limits, -, rfl⟩
    · exact h.given db hdb hpinned
    · exact ⟨nofun, nofun⟩
  suffices hgiven : Given F w db₁ from ⟨hgiven.archive, hgiven.jobs⟩
  rcases h.queue.moved event plan with
    hsame | ⟨db, hdb, hsame | ⟨target, db', hvalid, htarget, hchange, hdb'⟩⟩
  · exact h.given db₁ (hsame.symm.trans hdb₁) hpinned
  · obtain rfl : db = db₁ := Option.some.inj (hsame.symm.trans hdb₁)
    exact hbegins db hdb hpinned
  · obtain rfl : db' = db₁ := Option.some.inj (hdb'.symm.trans hdb₁)
    have hknown : Queue.Known F w.queue.leases w.queue.jobLeases db := by
      rcases hdb with hdb | ⟨hnone, target, limits, -, rfl⟩
      · exact h.queue.known db hdb
      · obtain ⟨hleases, hjobLeases⟩ := h.queue.fresh hnone
        rw [hleases, hjobLeases]
        exact ⟨by simp, by simp⟩
    obtain ⟨-, hkeeps⟩ := Queue.Sys.change_sound hF (Queue.Begins.sound h.queue.disk hdb) hvalid
      hknown htarget hchange
    have hpinned' : Pinned F cfg db := fun t ht => hpinned t (hkeeps.target?.trans ht)
    exact (hbegins db hdb hpinned').change hF hgenuine (hpinned' target htarget) hchange

/-- What the vault has given out, and what it gives out now and keeps. -/
structure Gives (F : Formats) (cfg : ServerConfig) (w w' : World) : Prop where
  queue : w'.queue = w.queue
  receipts : ∀ r ∈ w'.receipts, r ∈ w.receipts ∨ Received F cfg w'.vault.server r
  completions : ∀ c ∈ w'.completions, c ∈ w.completions ∨ Completed F cfg w'.vault.server c
  receiptsKept : ∀ r ∈ w.receipts, r ∈ w'.receipts
  completionsKept : ∀ c ∈ w.completions, c ∈ w'.completions

theorem Gives.silent (w : World) (vault : System) : Gives F cfg w { w with vault := vault } :=
  ⟨rfl, fun _ h => .inl h, fun _ h => .inl h, fun _ h => h, fun _ h => h⟩

theorem Gives.received {vault : System} {receipt : Receipt} (h : Received F cfg vault.server receipt) :
    Gives F cfg w { w with vault := vault, receipts := receipt :: w.receipts } := by
  refine ⟨rfl, fun r hr => ?_, fun _ h => .inl h, fun _ h => List.mem_cons_of_mem _ h, fun _ h => h⟩
  rcases List.mem_cons.1 hr with rfl | hr
  · exact .inr h
  · exact .inl hr

theorem Gives.told {vault : System} {record : BundleRecord} (h : Shown F cfg record vault.server) :
    Gives F cfg w ({ w with vault := vault }.told record) := by
  obtain ⟨agent, id, hraw⟩ := h
  obtain ⟨hreceived, hcompleted⟩ := kept_of_recordRaw hraw
  refine ⟨rfl, fun r hr => ?_, fun c hc => ?_, fun _ h => List.mem_cons_of_mem _ h,
    fun _ h => List.mem_append_right _ h⟩
  · rcases List.mem_cons.1 hr with rfl | hr
    · exact .inr hreceived
    · exact .inl hr
  · rcases List.mem_append.1 hc with hc | hc
    · obtain ⟨completion, hcompletion, rfl⟩ := Option.map_eq_some_iff.1 (Option.mem_toList.1 hc)
      exact .inr (hcompleted completion hcompletion)
    · exact .inl hc

/-- The vault takes a step and gives out what it keeps. -/
theorem World.Ok.gives (h : w.Ok F cfg) (hgives : Gives F cfg w w')
    (hvault : w'.vault = w.vault ∨ Vault.Step F.toPrimitives cfg w.vault w'.vault) : w'.Ok F cfg := by
  have hmoves : Vault.Reached F.toPrimitives cfg w'.vault ∧
      AllConfirmed F.toPrimitives cfg w'.vault.server ∧ Evolves w.vault.server w'.vault.server := by
    rcases hvault with hsame | hstep
    · rw [hsame]
      exact ⟨h.vault, h.confirmed, .refl _⟩
    · have hmoves := hstep.moves h.vault.begun
      exact ⟨h.vault.step hstep, hmoves.allConfirmed h.confirmed, hmoves.evolves⟩
  obtain ⟨hreached, hconfirmed, hevolves⟩ := hmoves
  refine ⟨hgives.queue ▸ h.queue, hreached, hconfirmed, fun r hr => ?_, fun c hc => ?_,
    fun db hdb hpinned => ?_⟩
  · exact (hgives.receipts r hr).elim (fun hold => (h.receipts r hold).evolves hevolves) id
  · exact (hgives.completions c hc).elim (fun hold => (h.completions c hold).evolves hevolves) id
  · exact (h.given db (hgives.queue ▸ hdb) hpinned).mono hgives.receiptsKept hgives.completionsKept

/-- Every step keeps the world in order. -/
theorem Step.ok (hF : F.ReadsBack) (hP : F.toPrimitives.Lawful cfg.key) (hcfg : cfg.check = true)
    (h : w.Ok F cfg) (hstep : Step F cfg w w') : w'.Ok F cfg := by
  cases hstep with
  | @queue event plan genuine => exact h.queue_step hF plan genuine
  | @answered call plan plan' answer s' allowed run =>
    have hmove : Vault.Step F.toPrimitives cfg w.vault ⟨s', call.after (.ok answer) w.vault.reading⟩ :=
      .call allowed run (by simp)
    cases answer with
    | receipt receipt => exact h.gives (.received (receipt_answer hP hcfg allowed run)) (.inr hmove)
    | record record => exact h.gives (.told (record_answer run)) (.inr hmove)
    | reading record => exact h.gives (.silent w _) (.inr hmove)
  | @unanswered vault step => exact h.gives (.silent w vault) (.inr step)
  | receipt stored => exact h.gives (.received (received_of_get stored)) (.inl rfl)
  | @record agent id record stored => exact h.gives (.told ⟨agent, id, stored⟩) (.inl rfl)

/-- Every run from nothing leads to a world in order. -/
theorem Run.ok (hF : F.ReadsBack) (hP : F.toPrimitives.Lawful cfg.key) (hcfg : cfg.check = true)
    {st₀ : CapacityState} (h : Run F cfg (.initial st₀) w) : w.Ok F cfg := by
  induction h with
  | refl => exact World.ok_initial st₀
  | tail _ hstep ih => exact hstep.ok hF hP hcfg ih

/-! ## What is sent is stored -/

/-- What `verified_item` has checked of the receipt in a row. -/
theorem receipted_fields {row : Queue.ItemColumns} (h : Queue.Receipted F target row) :
    ∃ receipt, row.receiptJson.bind F.signedReceipt.decode = some receipt ∧
      receipt.receipt.agentId = target.agentId ∧ receipt.receipt.kind = row.kind ∧
      receipt.receipt.sha256 = row.sha256 ∧ receipt.receipt.sizeBytes = row.sizeBytes := by
  obtain ⟨item, hdecode, hverified⟩ := h
  obtain ⟨-, hkind, hhash, hsize, -, -⟩ := Queue.decode_ok hdecode
  obtain ⟨receipt, hjson, hitem⟩ := Vault.Result.bind_ok_iff.1 hdecode
  cases hitem
  rw [Queue.verifiedItem] at hverified
  cases receipt with
  | none => cases hverified
  | some receipt =>
    obtain ⟨-, hfields⟩ := Vault.Result.check_ok_iff.1 hverified
    simp only [Vault.refuse_ok_iff, Bool.or_eq_false_iff, bne_eq_false_iff_eq] at hfields
    obtain ⟨⟨⟨⟨⟨-, hagent⟩, -⟩, hkind⟩, hhash⟩, hsize⟩ := hfields
    refine ⟨receipt, ?_, hagent, hkind, hhash, hsize⟩
    rcases htext : row.receiptJson with _ | text
    · rw [htext] at hjson
      cases hjson
    · rw [htext, Queue.decodeOptional] at hjson
      rw [Option.bind_some]
      split at hjson
      · cases hjson
      · cases hjson
        assumption

/-- An archived item of a queue for this vault can be read back: the receipt in its row is that of
the stored object, which has the hash, the size and the kind of the row. -/
theorem World.Ok.archived (h : w.Ok F cfg) (hdb : w.queue.disk.db? = some db)
    (hpinned : Pinned F cfg db) (htarget : db.target? F = some target) {a : ItemRow}
    (ha : a ∈ db.archive) :
    ∃ receipt given bytes, a.receiptJson.bind F.signedReceipt.decode = some receipt ∧
      given.receipt = receipt.receipt ∧
      w.vault.server.disk.get F.toPrimitives cfg target.agentId a.sha256 = .ok (given, bytes) ∧
      F.sha256 bytes = a.sha256 ∧ bytes.length = a.sizeBytes ∧ given.receipt.kind = a.kind := by
  obtain ⟨receipt, hjson, hagent, hkind, hhash, hsize⟩ :=
    receipted_fields ((h.queue.disk.sound db hdb).archived a ha target htarget)
  obtain ⟨given, bytes, hgiven, hget⟩ :=
    h.receipts _ ((h.given db hdb hpinned).archive a ha receipt hjson)
  rw [hagent, hhash] at hget
  have hstored := Vault.Disk.get_ok_iff.1 hget
  refine ⟨receipt, given, bytes, hjson, hgiven, hget, hstored.hash.symm, ?_, by rw [hgiven, hkind]⟩
  rw [← hstored.size, hgiven, hsize]

end Worlds

end Argos.Offsite
