import Argos.Vault.Accounting
import Argos.Vault.Bundles

/-!
# What a call can do

Every call of the server, at whichever step it stops, is a sequence of a few kinds of changes. `Act`
lists them, each with everything that the call has checked when it makes the change. `Tame` is the
triple for programs that make acts only, and the theorems `registerInner_tame`, `completeStart_tame`,
`completeFinish_tame` and `reviewInner_tame` show it for the calls. What the catalog keeps is then
shown act by act, and the programs are not opened again.

A process that is killed may leave the last write half done: `Stop` is what a cut write leaves.
-/

namespace Argos.Vault

open Argos.Lib

section Acts

variable (P : Primitives) (cfg : ServerConfig)

/-- The content of a bundle's chunks, in the order of its manifest: every chunk is a backup of the
agent of the listed size, and the whole has the hash of the manifest. -/
def ChunksStored (d : Disk) (agent : String) (manifest : BundleManifest) : Prop :=
  ∃ bodies : List Bytes,
    List.Forall₂ (fun (chunk : Chunk) body => ∃ receipt,
      d.get P cfg agent chunk.sha256 = .ok (receipt, body) ∧ receipt.receipt.kind = "backup" ∧
        body.length = chunk.sizeBytes) manifest.chunks bodies ∧
    P.sha256 bodies.flatten = manifest.sha256

/-- An object with the hash of `bytes` is stored. -/
def BodyStored (d : Disk) (agent : String) (bytes : Bytes) : Prop :=
  ∃ file, d.files.lookup (.blob agent (P.sha256 bytes)) = some file ∧
    P.sha256 file.bytes = P.sha256 bytes

/-- A revocation is entered only while it is the retained one, a good review only while none is
retained. -/
def Held (s : Server) (agent id : String) (record : BundleRecord) (request : ReviewRequest) : Prop :=
  match request.decision with
  | .revoked => ∃ text, s.intentAt agent id .revoke = some text ∧
      checkRevocation P cfg agent id record request text = .ok ()
  | .good => s.intentAt agent id .revoke = none

/-- Where the content of a put comes from: an upload, the manifest of a bundle that has no row, or a
stored intent whose text was verified against the record. -/
inductive Origin (s : Server) (agent : String) : String → Bytes → Bool → Prop where
  | upload {kind : String} {bytes : Bytes} (known : kind ∈ ["evidence", "backup", "audit"]) :
    Origin s agent kind bytes false
  | manifest {manifest : BundleManifest} (valid : validate P manifest = .ok ())
      (free : s.tables.bundles.lookup (agent, manifest.bundleId) = none) :
    Origin s agent "bundle-manifest" (P.manifest.encode manifest) false
  | completion {id : String} {bytes : Bytes} {record : BundleRecord} {completion : Signed Completion}
      (raw : recordRaw P cfg s agent id = .ok record) (open_ : record.completion = none)
      (pending : s.intentAt agent id .complete = some bytes)
      (decoded : P.signedCompletion.decode bytes = some completion)
      (verified : verified P cfg { record with completion := some completion } = .ok ()) :
    Origin s agent "bundle-completion" bytes false
  | review {id : String} {bytes : Bytes} {record : BundleRecord} {event : Signed ReviewEvent}
      (raw : recordRaw P cfg s agent id = .ok record) (complete : record.completion.isSome)
      (pending : s.intentAt agent id .review = some bytes)
      (decoded : P.signedReview.decode bytes = some event)
      (verified : verified P cfg (record.push event) = .ok ()) :
    Origin s agent "bundle-review" bytes (event.value.request.decision == .revoked)

/-- A put that returned, with an answer or an error. -/
def PutEnds (agent kind : String) (bytes : Bytes) (revocation : Bool) (r : Readings)
    (s s' : Server) : Prop :=
  (∃ receipt, PutFound P cfg agent (P.sha256 bytes) kind bytes s receipt s' ∨
    PutAdded P cfg agent (P.sha256 bytes) kind bytes revocation r s receipt s') ∨
  PutRefused cfg agent (P.sha256 bytes) bytes s s'

/-- The server with an intent stored. -/
def Server.intending (agent id : String) (operation : Operation) (text : Bytes) (s : Server) :
    Server :=
  { s.onCatalog (Catalog.addIntent agent id operation text) with hashed := text :: s.hashed }

/-- One change of the server, with what was checked for it. -/
inductive Act : Server → Server → Prop where
  /-- An object is put, or the put is refused. -/
  | put {s s' : Server} {agent kind : String} {bytes : Bytes} {revocation : Bool} {r : Readings}
      (origin : Origin P cfg s agent kind bytes revocation)
      (ends : PutEnds P cfg agent kind bytes revocation r s s') : Act s s'
  /-- A file of the catalog is written, or the attempt ends with an error. -/
  | root {s s' : Server} {name : Name} {bytes : Bytes} (parent : name.parent = none)
      (free : s.disk.has name = false) (touched : Server.Touched name bytes s s') : Act s s'
  /-- The tables are created. -/
  | create {s : Server} (free : s.catalog = none) (written : s.disk.has .database) :
    Act s { s with catalog := some .empty }
  /-- A bundle is registered. -/
  | register {s : Server} {agent : String} {manifest : BundleManifest}
      (opened : s.catalog.isSome) (valid : validate P manifest = .ok ())
      (free : s.tables.bundles.lookup (agent, manifest.bundleId) = none)
      (limits : checkBundleLimits s agent = .ok ())
      (body : BodyStored P s.disk agent (P.manifest.encode manifest)) :
    Act s (s.onCatalog (Catalog.addBundle agent manifest.bundleId
      (P.sha256 (P.manifest.encode manifest))))
  /-- The text of a completion is stored. -/
  | intendComplete {s : Server} {agent id : String} {record : BundleRecord} {now : Nat}
      (raw : recordRaw P cfg s agent id = .ok record)
      (covered : bundleCoverage P cfg s agent id record true = .ok ())
      (open_ : record.completion = none) (free : s.intentAt agent id .complete = none) :
    Act s (s.intending agent id .complete (completionText P cfg agent id record now))
  /-- A bundle is completed. -/
  | complete {s : Server} {agent id : String} {record : BundleRecord} {bytes : Bytes}
      {completion : Signed Completion} {c : Catalog} (raw : recordRaw P cfg s agent id = .ok record)
      (open_ : record.completion = none) (pending : s.intentAt agent id .complete = some bytes)
      (decoded : P.signedCompletion.decode bytes = some completion)
      (verified : verified P cfg { record with completion := some completion } = .ok ())
      (chunks : ChunksStored P cfg s.disk agent record.manifest)
      (body : BodyStored P s.disk agent bytes) (hashed : bytes ∈ s.hashed)
      (commit : completed s.tables agent id (P.sha256 bytes) = .ok c) :
    Act s (s.onCatalog fun _ => c)
  /-- A revocation is retained. -/
  | retain {s : Server} {agent id : String} {record : BundleRecord} {request : ReviewRequest}
      (valid : validateReview request = .ok ()) (raw : recordRaw P cfg s agent id = .ok record)
      (covered : bundleCoverage P cfg s agent id record true = .ok ())
      (fresh : record.findRequest request = none)
      (apart : rejectSupersededRequest P s agent id request = .ok ())
      (complete : record.completion.isSome) (revoked : request.decision = .revoked)
      (free : s.intentAt agent id .revoke = none) :
    Act s (s.intending agent id .revoke (revocationText P cfg agent id record request))
  /-- A pending good review whose object is published is entered. -/
  | settle {s : Server} {agent id : String} {record : BundleRecord} {raw : Bytes}
      {event : Signed ReviewEvent} {c : Catalog} (held : s.hasRevocationIntent agent id)
      (current : recordRaw P cfg s agent id = .ok record)
      (pending : s.intentAt agent id .review = some raw)
      (decoded : P.signedReview.decode raw = some event)
      (good : event.value.request.decision = .good)
      (verified : verified P cfg (record.push event) = .ok ())
      (published : s.disk.hasObject agent (P.sha256 raw))
      (commit : settled P cfg s agent id raw event = .ok c) : Act s (s.onCatalog fun _ => c)
  /-- A pending good review without an object is set aside. -/
  | supersede {s : Server} {agent id : String} {record : BundleRecord} {raw : Bytes}
      {event : Signed ReviewEvent} {c : Catalog} (held : s.hasRevocationIntent agent id)
      (current : recordRaw P cfg s agent id = .ok record)
      (pending : s.intentAt agent id .review = some raw)
      (decoded : P.signedReview.decode raw = some event)
      (good : event.value.request.decision = .good)
      (verified : verified P cfg (record.push event) = .ok ())
      (unpublished : s.disk.hasObject agent (P.sha256 raw) = false)
      (commit : settled P cfg s agent id raw event = .ok c) : Act s (s.onCatalog fun _ => c)
  /-- The text of a review is stored. -/
  | intendReview {s : Server} {agent id : String} {record : BundleRecord}
      {completion : Signed Completion} {request : ReviewRequest} {now : Nat}
      (valid : validateReview request = .ok ()) (raw : recordRaw P cfg s agent id = .ok record)
      (covered : bundleCoverage P cfg s agent id record true = .ok ())
      (complete : record.completion = some completion) (fresh : record.findRequest request = none)
      (room : record.reviews.length < maxReviews)
      (last : record.reviews.length + 1 = maxReviews → request.decision = .revoked)
      (held : Held P cfg s agent id record request) (free : s.intentAt agent id .review = none) :
    Act s (s.intending agent id .review
      (P.signedReview.encode (newEvent P cfg agent id record completion request now)))
  /-- A review is entered. -/
  | review {s : Server} {agent id : String} {record : BundleRecord} {request : ReviewRequest}
      {bytes : Bytes} {event : Signed ReviewEvent} {c : Catalog}
      (raw : recordRaw P cfg s agent id = .ok record) (complete : record.completion.isSome)
      (fresh : record.findRequest request = none) (held : Held P cfg s agent id record request)
      (pending : s.intentAt agent id .review = some bytes)
      (decoded : P.signedReview.decode bytes = some event)
      (same : event.value.request = request)
      (verified : verified P cfg (record.push event) = .ok ())
      (body : BodyStored P s.disk agent bytes) (hashed : bytes ∈ s.hashed)
      (commit : reviewed s.tables agent id (record.reviews.length + 1) (P.sha256 bytes) request
        = .ok c) : Act s (s.onCatalog fun _ => c)

/-- Acts in a row. -/
def Acts : Server → Server → Prop := Relation.ReflTransGen (Act P cfg)

/-- What a cut leaves of the write that it meets. -/
inductive Stop : Server → Server → Prop where
  | here (s : Server) : Stop s s
  | put {s s' : Server} {agent kind : String} {bytes : Bytes} {revocation : Bool}
      (origin : Origin P cfg s agent kind bytes revocation)
      (stopped : PutStopped cfg agent (P.sha256 bytes) bytes s s') : Stop s s'
  | root {s s' : Server} {name : Name} {bytes : Bytes} (parent : name.parent = none)
      (free : s.disk.has name = false) (touched : Server.Touched name bytes s s') : Stop s s'

/-- Acts in a row, the next one cut. -/
def Halts (s s' : Server) : Prop := ∃ s₁, Acts P cfg s s₁ ∧ Stop P cfg s₁ s'

/-! ## Programs that make acts -/

/-- Under every plan the program makes acts only, and one that returns ends in `Q`. -/
structure Tame {α : Type} (p : Op α) (s : Server) (Q : α → Server → Prop) : Prop where
  sat : p.Sat s (fun a s' => Acts P cfg s s' ∧ Q a s') (Acts P cfg s) (Halts P cfg s)

variable {P cfg} {α β : Type} {s : Server} {Q : α → Server → Prop}

theorem Acts.refl : Acts P cfg s s := Relation.ReflTransGen.refl

theorem Acts.trans {s₁ s₂ s₃ : Server} (h : Acts P cfg s₁ s₂) (h' : Acts P cfg s₂ s₃) :
    Acts P cfg s₁ s₃ := Relation.ReflTransGen.trans h h'

theorem Acts.single {s s' : Server} (h : Act P cfg s s') : Acts P cfg s s' :=
  Relation.ReflTransGen.single h

theorem Acts.halts {s₁ s₂ s₃ : Server} (h : Acts P cfg s₁ s₂) (h' : Halts P cfg s₂ s₃) :
    Halts P cfg s₁ s₃ := by
  obtain ⟨s', hacts, hstop⟩ := h'
  exact ⟨s', h.trans hacts, hstop⟩

theorem Halts.refl : Halts P cfg s s := ⟨s, .refl, .here s⟩

namespace Tame

theorem mono {p : Op α} {Q' : α → Server → Prop} (h : Tame P cfg p s Q)
    (hQ : ∀ a s', Acts P cfg s s' → Q a s' → Q' a s') : Tame P cfg p s Q' :=
  ⟨h.sat.mono (fun a s' ⟨hacts, hq⟩ => ⟨hacts, hQ a s' hacts hq⟩) (fun _ h => h) (fun _ h => h)⟩

theorem pure {a : α} (h : Q a s) : Tame P cfg (pure a) s Q := ⟨Prog.Sat.pure ⟨.refl, h⟩⟩

theorem fail {e : Error} : Tame P cfg (Prog.fail e) s Q := ⟨Prog.Sat.fail .refl⟩

theorem gets {g : Server → α} (h : Q (g s) s) : Tame P cfg (Prog.gets g) s Q :=
  ⟨Prog.Sat.gets ⟨.refl, h⟩⟩

theorem ask {g : Server → Result α} (h : ∀ a, g s = .ok a → Q a s) : Tame P cfg (Prog.ask g) s Q :=
  ⟨Prog.Sat.ask (fun a ha => ⟨.refl, h a ha⟩) .refl⟩

/-- A durable step that is one act. -/
theorem durable {e : Error} {g : Server → Server} {Q : Unit → Server → Prop}
    (hact : Act P cfg s (g s)) (h : Q () (g s)) : Tame P cfg (Prog.durable e g) s Q :=
  ⟨Prog.Sat.durable ⟨.single hact, h⟩ (.single hact) .refl .refl⟩

theorem bind {x : Op α} {f : α → Op β} {Q : β → Server → Prop} {R : α → Server → Prop}
    (hx : Tame P cfg x s R) (hf : ∀ a s', Acts P cfg s s' → R a s' → Tame P cfg (f a) s' Q) :
    Tame P cfg (x >>= f) s Q := by
  refine ⟨Prog.Sat.bind (hx.sat.mono (fun a s' ⟨hacts, hr⟩ => ?_) (fun _ h => h) (fun _ h => h))⟩
  exact (hf a s' hacts hr).sat.mono (fun b s'' ⟨h, hq⟩ => ⟨hacts.trans h, hq⟩)
    (fun _ h => hacts.trans h) (fun _ h => hacts.halts h)

theorem ite {c : Prop} [Decidable c] {x y : Op α} (hx : c → Tame P cfg x s Q)
    (hy : ¬ c → Tame P cfg y s Q) : Tame P cfg (if c then x else y) s Q :=
  ⟨Prog.Sat.ite (fun h => (hx h).sat) (fun h => (hy h).sat)⟩

/-- A query, and the rest of the program with its answer. -/
theorem askThen {g : Server → Result α} {f : α → Op β} {Q : β → Server → Prop}
    (h : ∀ a, g s = .ok a → Tame P cfg (f a) s Q) : Tame P cfg (Prog.ask g >>= f) s Q := by
  refine bind (ask (Q := fun a s' => s' = s ∧ g s = .ok a) fun a ha => ⟨rfl, ha⟩) ?_
  rintro a s' - ⟨rfl, ha⟩
  exact h a ha

/-- A reading, and the rest of the program with it. -/
theorem getsThen {g : Server → α} {f : α → Op β} {Q : β → Server → Prop}
    (h : Tame P cfg (f (g s)) s Q) : Tame P cfg (Prog.gets g >>= f) s Q := by
  refine bind (gets (Q := fun a s' => s' = s ∧ a = g s) ⟨rfl, rfl⟩) ?_
  rintro a s' - ⟨rfl, rfl⟩
  exact h

end Tame

end Acts

/-! ## The parts of the calls -/

section Parts

variable {P : Primitives} {cfg : ServerConfig} {s : Server} {agent id kind : String} {bytes : Bytes}

/-- A put of a content that has an origin. -/
theorem putInner_tame {revocation : Bool} {r : Readings}
    (origin : Origin P cfg s agent kind bytes revocation) :
    Tame P cfg (putInner P cfg agent (P.sha256 bytes) kind bytes revocation r) s
      (fun receipt s' => PutFound P cfg agent (P.sha256 bytes) kind bytes s receipt s' ∨
        PutAdded P cfg agent (P.sha256 bytes) kind bytes revocation r s receipt s') := by
  refine ⟨Prog.Sat.mono putInner_sat (fun receipt s' h => ⟨?_, h⟩) (fun s' h => ?_) (fun s' h => ?_)⟩
  · exact .single (.put origin (.inl ⟨receipt, h⟩))
  · exact .single (.put (r := r) origin (.inr h))
  · exact ⟨s, .refl, .put origin h⟩

/-- What a put that returned leaves: the tables, the old files, and the body under its hash. -/
theorem put_leaves {revocation : Bool} {r : Readings} {receipt : SignedReceipt} {s' : Server}
    (h : PutFound P cfg agent (P.sha256 bytes) kind bytes s receipt s' ∨
      PutAdded P cfg agent (P.sha256 bytes) kind bytes revocation r s receipt s') :
    s'.catalog = s.catalog ∧ s'.hashed = bytes :: s.hashed ∧ s.disk.Extends s'.disk ∧
      BodyStored P s'.disk agent bytes := by
  obtain hfound | hadd := h
  · obtain ⟨body, hbody⟩ := hfound.found
    have hstored := Disk.get_ok_iff.1 hbody
    rw [hfound.state]
    exact ⟨rfl, rfl, .refl _, ⟨body, false⟩, hstored.blob, hstored.hash.symm⟩
  · have hblob := Disk.has_eq_false.1 hadd.noBlob
    have hreceipt := Disk.has_eq_false.1 hadd.noReceipt
    obtain ⟨control, -, -, -, rfl⟩ := hadd.state
    refine ⟨rfl, rfl, ⟨fun a ha => ?_, fun name file hfile => ?_⟩, ⟨bytes, false⟩, ?_, rfl⟩
    · exact Disk.mem_withDirectory.2 (.inr ha)
    · rw [Disk.lookup_published]
      split
      · next heq => rw [heq, hreceipt] at hfile; cases hfile
      split
      · next heq => rw [heq, hblob] at hfile; cases hfile
      · exact hfile
    · rw [Disk.lookup_published, if_neg (by simp), if_pos rfl]

/-- A file of the catalog is written. -/
theorem writeNew_tame {name : Name} (parent : name.parent = none)
    (free : s.disk.has name = false) :
    Tame P cfg (writeNew name bytes) s
      (fun _ s' => s' = s.onDisk (Disk.write name ⟨bytes, false⟩)) := by
  refine ⟨Prog.Sat.mono writeNew_sat (fun _ s' h => ⟨?_, h⟩) (fun s' h => ?_) (fun s' h => ?_)⟩
  · rw [h]
    exact .single (.root parent free (Server.Touched.refl.write false))
  · exact .single (.root parent free h)
  · exact ⟨s, .refl, .root parent free h⟩

/-- Opening the catalog: nothing changes, unless it is created. -/
theorem requireCatalog_tame {create : Bool} :
    Tame P cfg (requireCatalog create) s (fun _ s' => (create = false → s' = s) ∧
      s'.catalog.isSome) := by
  refine Tame.bind (R := fun found s' => (create = false → s' = s) ∧ (found → s'.catalog.isSome))
    ?_ fun found s' _ hs' => ?_
  rotate_left
  · refine Tame.ask fun _ h => ?_
    rw [refuse_ok_iff, Bool.not_eq_false'] at h
    exact ⟨hs'.1, hs'.2 h⟩
  refine Tame.getsThen (Tame.getsThen (Tame.ite (fun hfree => ?_) (fun _ => Tame.ite
    (fun _ => Tame.fail) (fun _ => ?_))))
  · refine Tame.askThen fun _ _ => ?_
    refine Tame.ite (fun _ => Tame.pure ⟨fun _ => rfl, by simp⟩) (fun hcreate => ?_)
    simp only [Bool.and_eq_true, Bool.not_eq_true'] at hfree
    have hnot : ¬ create = false := by simpa using hcreate
    refine Tame.bind (writeNew_tame rfl hfree.1) fun _ s₁ _ hs₁ => ?_
    refine Tame.askThen fun _ hnone => ?_
    have hcat : s₁.catalog = none := by
      rcases hc : s₁.catalog with _ | c
      · rfl
      · rw [hc] at hnone; cases hnone
    have hdatabase : s₁.disk.has .database := by
      rw [hs₁, Server.onDisk, Disk.has, Disk.lookup_write, if_pos rfl]
      rfl
    refine Tame.bind (Tame.durable (Q := fun _ s₂ => s₂ = { s₁ with catalog := some .empty })
      (.create hcat hdatabase) rfl) fun _ s₂ _ hs₂ => ?_
    have hmarker : s₂.disk.has .marker = false := by
      rw [hs₂, hs₁, Server.onDisk, Disk.has_eq_false, Disk.lookup_write, if_neg (by simp)]
      exact Disk.has_eq_false.1 hfree.2
    refine Tame.bind (writeNew_tame rfl hmarker) fun _ s₃ _ hs₃ => Tame.pure ⟨fun h => (hnot h).elim,
      fun _ => ?_⟩
    rw [hs₃, hs₂]
    rfl
  · refine Tame.ask fun found h => ⟨fun _ => rfl, fun _ => ?_⟩
    simp only [checkCatalog, Result.bind_ok_iff, exists_unit_iff, refuse_ok_iff] at h
    obtain ⟨-, -, -, -, h, -⟩ := h
    simpa [Option.isSome_iff_ne_none] using h

/-- An intent: the one that was stored, or the proposed one, stored now. -/
theorem intent_tame {operation : Operation} {proposed : Bytes}
    (hact : s.intentAt agent id operation = none →
      Act P cfg s (s.intending agent id operation proposed)) :
    Tame P cfg (intent agent id operation proposed) s (fun bytes s' =>
      (s' = s ∧ s.intentAt agent id operation = some bytes ∧ bytes.length ≤ maxManifestBytes) ∨
      (s.intentAt agent id operation = none ∧ bytes = proposed ∧
        s' = s.intending agent id operation proposed)) := by
  refine Tame.getsThen ?_
  rcases hold : s.intentAt agent id operation with _ | old
  · refine Tame.bind (Tame.durable (Q := fun _ s' => s' = s.intending agent id operation proposed)
      (hact hold) rfl) fun _ s' _ hs' => Tame.pure (.inr ⟨rfl, rfl, hs'⟩)
  · refine Tame.askThen fun _ hlen => Tame.pure (.inl ⟨rfl, rfl, ?_⟩)
    simpa using hlen

/-! ## The tables and the records -/

theorem tables_onCatalog {g : Catalog → Catalog} (h : s.catalog.isSome) :
    (s.onCatalog g).tables = g s.tables := by
  obtain ⟨c, hc⟩ := Option.isSome_iff_exists.1 h
  simp [Server.onCatalog, Server.tables, hc]

theorem tables_of_catalog {s' : Server} (h : s'.catalog = s.catalog) : s'.tables = s.tables := by
  rw [Server.tables, Server.tables, h]

theorem intentAt_of_catalog {s' : Server} {operation : Operation} (h : s'.catalog = s.catalog) :
    s'.intentAt agent id operation = s.intentAt agent id operation := by
  rw [Server.intentAt, Server.intentAt, tables_of_catalog h]

/-- A bundle with a record has a row. -/
theorem recordRaw_row {record : BundleRecord} (h : recordRaw P cfg s agent id = .ok record) :
    s.catalog.isSome ∧ ∃ row, s.tables.bundles.lookup (agent, id) = some row := by
  unfold recordRaw at h
  rcases hrow : s.tables.bundles.lookup (agent, id) with _ | row
  · rw [hrow] at h
    cases h
  · refine ⟨?_, row, rfl⟩
    rcases hc : s.catalog with _ | c
    · rw [Server.tables, hc] at hrow
      cases hrow
    · rfl

/-- What a record is made of. -/
theorem recordRaw_ok_iff {record : BundleRecord} :
    recordRaw P cfg s agent id = .ok record ↔
      ∃ row, s.tables.bundles.lookup (agent, id) = some row ∧
      (∃ body, s.disk.get P cfg agent row.manifestHash = .ok (record.manifestReceipt, body) ∧
        P.manifest.decode body = some record.manifest) ∧ record.manifest.bundleId = id ∧
      readCompletion P cfg s.disk agent row.completionHash = .ok record.completion ∧
      readReviews P cfg s.disk agent (s.tables.rows agent id) = .ok record.reviews ∧
      verified P cfg record = .ok () ∧
      record = assemble agent record.manifest record.manifestReceipt record.completion
        record.reviews := by
  unfold recordRaw
  rcases hrow : s.tables.bundles.lookup (agent, id) with _ | row
  · simp
  simp only [Result.bind_ok_iff, exists_unit_iff, fromSlice_ok_iff, refuse_ok_iff,
    bne_eq_false_iff_eq, Except.ok.injEq, Option.some.injEq, exists_eq_left']
  constructor
  · rintro ⟨⟨receipt, body⟩, hget, manifest, hdec, hid, completion, hc, reviews, hr, hv, rfl⟩
    exact ⟨⟨body, hget, hdec⟩, hid, hc, hr, hv, rfl⟩
  · rintro ⟨⟨body, hget, hdec⟩, hid, hc, hr, hv, heq⟩
    exact ⟨(_, body), hget, _, hdec, hid, _, hc, _, hr, heq ▸ hv, heq.symm⟩

theorem readCompletion_mono {d d' : Disk} (hext : d.Extends d') {hash : Option String}
    {c : Option (Signed Completion)} (h : readCompletion P cfg d agent hash = .ok c) :
    readCompletion P cfg d' agent hash = .ok c := by
  cases hash with
  | none => exact h
  | some hash =>
    simp only [readCompletion, Result.bind_ok_iff, exists_unit_iff] at h ⊢
    obtain ⟨x, hget, hrest⟩ := h
    exact ⟨x, Disk.get_mono hext hget, hrest⟩

theorem readReview_mono {d d' : Disk} (hext : d.Extends d') {row : ReviewRow}
    {e : Signed ReviewEvent} (h : readReview P cfg d agent row = .ok e) :
    readReview P cfg d' agent row = .ok e := by
  simp only [readReview, Result.bind_ok_iff, exists_unit_iff] at h ⊢
  obtain ⟨x, hget, hrest⟩ := h
  exact ⟨x, Disk.get_mono hext hget, hrest⟩

theorem readReviews_ok_iff {d : Disk} {rows : List ReviewRow} {events : List (Signed ReviewEvent)} :
    readReviews P cfg d agent rows = .ok events ↔
      List.Forall₂ (fun row e => readReview P cfg d agent row = .ok e) rows events := by
  induction rows generalizing events with
  | nil =>
    simp only [readReviews, Except.ok.injEq, List.forall₂_nil_left_iff]
    exact eq_comm
  | cons row rest ih =>
    simp only [readReviews, Result.bind_ok_iff, Except.ok.injEq]
    constructor
    · rintro ⟨e, he, es, hes, rfl⟩
      exact .cons he (ih.1 hes)
    · rintro (_ | ⟨he, hes⟩)
      exact ⟨_, he, _, ih.2 hes, rfl⟩

theorem readReviews_mono {d d' : Disk} (hext : d.Extends d') {rows : List ReviewRow}
    {events : List (Signed ReviewEvent)} (h : readReviews P cfg d agent rows = .ok events) :
    readReviews P cfg d' agent rows = .ok events :=
  readReviews_ok_iff.2 ((readReviews_ok_iff.1 h).imp fun _ _ => readReview_mono hext)

/-- A record is read again while its rows are the same and the directory has only grown. -/
theorem recordRaw_mono {s' : Server} {record : BundleRecord}
    (hbundle : s'.tables.bundles.lookup (agent, id) = s.tables.bundles.lookup (agent, id))
    (hrows : s'.tables.rows agent id = s.tables.rows agent id) (hext : s.disk.Extends s'.disk)
    (h : recordRaw P cfg s agent id = .ok record) : recordRaw P cfg s' agent id = .ok record := by
  obtain ⟨row, hrow, ⟨body, hget, hdec⟩, hid, hc, hr, hv, heq⟩ := recordRaw_ok_iff.1 h
  exact recordRaw_ok_iff.2 ⟨row, hbundle.trans hrow, ⟨body, Disk.get_mono hext hget, hdec⟩, hid,
    readCompletion_mono hext hc, by rw [hrows]; exact readReviews_mono hext hr, hv, heq⟩

/-- A record without a completion has no reviews. -/
theorem recordRaw_open {record : BundleRecord} (h : recordRaw P cfg s agent id = .ok record)
    (hopen : record.completion = none) : record.reviews = [] := by
  obtain ⟨-, -, -, -, -, -, hv, -⟩ := recordRaw_ok_iff.1 h
  have := (verifyRecord_ok_iff.1 hv).2.2.2.2.2.1
  rw [hopen] at this
  exact this

/-! ### Intents -/

/-- The other intents are not touched when one is stored. -/
theorem intentAt_intending {a b : String} {operation operation' : Operation} {text : Bytes}
    (h : s.catalog.isSome) :
    (s.intending agent id operation text).intentAt a b operation' =
      if (a, b, operation') = (agent, id, operation) then some text
      else s.intentAt a b operation' := by
  have htables : (s.intending agent id operation text).tables =
      s.tables.addIntent agent id operation text := tables_onCatalog h
  rw [Server.intentAt, htables, Catalog.addIntent]
  split
  · next heq => rw [heq, AList.lookup_insert]
  · next hne => rw [AList.lookup_insert_ne hne]; rfl

theorem intending_rows {operation : Operation} {text : Bytes} (h : s.catalog.isSome) :
    (s.intending agent id operation text).tables.bundles = s.tables.bundles ∧
      (s.intending agent id operation text).tables.reviews = s.tables.reviews := by
  have htables : (s.intending agent id operation text).tables =
      s.tables.addIntent agent id operation text := tables_onCatalog h
  rw [htables]
  exact ⟨rfl, rfl⟩

/-- A record does not depend on the intents. -/
theorem recordRaw_intending {operation : Operation} {text : Bytes} {record : BundleRecord}
    (h : recordRaw P cfg s agent id = .ok record) :
    recordRaw P cfg (s.intending agent id operation text) agent id = .ok record := by
  obtain ⟨hb, hr⟩ := @intending_rows s agent id operation text (recordRaw_row h).1
  have hext : s.disk.Extends (s.intending agent id operation text).disk := .refl _
  refine recordRaw_mono (by rw [hb]) ?_ hext h
  rw [Catalog.rows, Catalog.rows, hr]

/-! ## The calls -/

/-- `register_inner` makes acts only. -/
theorem registerInner_tame {manifest : BundleManifest} {r : Readings} :
    Tame P cfg (registerInner P cfg agent manifest r) s (fun _ _ => True) := by
  refine Tame.askThen fun _ hvalid => ?_
  refine Tame.bind requireCatalog_tame fun _ s₁ _ hs₁ => ?_
  refine Tame.bind (R := fun _ _ => True) ?_ fun _ s₂ _ _ => ?_
  · -- The row is there, or the manifest is put and then its row is inserted.
    refine Tame.getsThen ?_
    rcases hrow : s₁.tables.bundles.lookup (agent, manifest.bundleId) with _ | row
    · refine Tame.askThen fun _ hlimits => ?_
      refine Tame.bind (putInner_tame (.manifest hvalid hrow)) fun receipt s₂ _ hput => ?_
      obtain ⟨hcat, -, -, hbody⟩ := put_leaves hput
      have htables := tables_of_catalog hcat
      refine Tame.durable (.register (hcat ▸ hs₁.2) hvalid (htables ▸ hrow) ?_ hbody) trivial
      rw [checkBundleLimits, htables]
      exact hlimits
    · exact Tame.ask fun _ _ => trivial
  · refine Tame.askThen fun raw _ => Tame.askThen fun _ _ => Tame.ite (fun _ => Tame.pure trivial)
      (fun _ => Tame.ask fun _ _ => trivial)

/-- The first section of `complete_unlocked` changes nothing. -/
theorem completeStart_tame :
    Tame P cfg (completeStart P cfg agent id) s (fun started s' => s' = s ∧
      ∀ record, started = .reading record →
        recordRaw P cfg s agent id = .ok record ∧ record.completion = none) := by
  refine Tame.bind requireCatalog_tame fun _ s₁ _ hs₁ => ?_
  obtain rfl := hs₁.1 rfl
  refine Tame.askThen fun raw hraw => Tame.askThen fun _ _ => Tame.ite (fun _ => ?_) (fun hopen => ?_)
  · refine Tame.askThen fun done _ => Tame.pure ⟨rfl, ?_⟩
    rintro record ⟨⟩
  · refine Tame.pure ⟨rfl, ?_⟩
    rintro record ⟨⟩
    exact ⟨hraw, by simpa using hopen⟩

/-- The manifest of a bundle is the one of `record`, which was read while the bundle was open. -/
def Begun (P : Primitives) (cfg : ServerConfig) (s : Server) (agent id : String)
    (record : BundleRecord) : Prop :=
  ∃ row, s.tables.bundles.lookup (agent, id) = some row ∧
    (∃ body, s.disk.get P cfg agent row.manifestHash = .ok (record.manifestReceipt, body) ∧
      P.manifest.decode body = some record.manifest) ∧
    record = assemble agent record.manifest record.manifestReceipt none []

theorem Begun.of_recordRaw {record : BundleRecord} (h : recordRaw P cfg s agent id = .ok record)
    (hopen : record.completion = none) : Begun P cfg s agent id record := by
  have hreviews := recordRaw_open h hopen
  obtain ⟨row, hrow, hmanifest, -, -, -, -, heq⟩ := recordRaw_ok_iff.1 h
  refine ⟨row, hrow, hmanifest, ?_⟩
  rw [hopen, hreviews] at heq
  exact heq

/-- A bundle that is still open has the record with which its completion began. -/
theorem Begun.current {record current : BundleRecord} (h : Begun P cfg s agent id record)
    (hraw : recordRaw P cfg s agent id = .ok current) (hopen : current.completion = none) :
    current = record := by
  obtain ⟨row, hrow, ⟨body, hget, hdec⟩, heq⟩ := h
  obtain ⟨row', hrow', ⟨body', hget', hdec'⟩, heq'⟩ := Begun.of_recordRaw hraw hopen
  rw [hrow, Option.some.injEq] at hrow'
  subst hrow'
  rw [hget, Except.ok.injEq, Prod.mk.injEq] at hget'
  obtain ⟨hreceipt, rfl⟩ := hget'
  rw [hdec, Option.some.injEq] at hdec'
  rw [heq', heq, hdec', hreceipt]

/-! ### The chunks -/

theorem FileStamp.read_ok_iff {d : Disk} {name : Name} {stamp : FileStamp} :
    FileStamp.read d name = .ok stamp ↔
      d.files.lookup name = some stamp.file ∧ stamp.name = name := by
  obtain ⟨stampName, file⟩ := stamp
  unfold FileStamp.read
  rcases d.files.lookup name with _ | found
  · simp
  · simp only [Except.ok.injEq, FileStamp.mk.injEq, Option.some.injEq]
    exact ⟨fun h => ⟨h.2, h.1.symm⟩, fun h => ⟨h.2.symm, h.1⟩⟩

/-- Stamps that are unchanged are files of the directory. -/
theorem checkStamps_ok {d : Disk} {stamps : List FileStamp} (h : checkStamps d stamps = .ok ()) :
    ∀ stamp ∈ stamps, d.files.lookup stamp.name = some stamp.file := by
  induction stamps with
  | nil => simp
  | cons stamp rest ih =>
    rw [checkStamps, Result.check_ok_iff, FileStamp.unchanged, Result.bind_ok_iff] at h
    obtain ⟨⟨now, hnow, hsame⟩, hrest⟩ := h
    rw [refuse_ok_iff, bne_eq_false_iff_eq] at hsame
    subst hsame
    intro other hother
    rcases List.mem_cons.1 hother with rfl | hother
    · exact (FileStamp.read_ok_iff.1 hnow).1
    · exact ih hrest other hother

/-- The file that was read is the stamped one, and has no temporary link. -/
theorem Look.stamped (look : Look) {name : Name} {file : File} {body : Bytes}
    (hbefore : look.before.files.lookup name = some file)
    (hduring : look.during.files.lookup name = some ⟨body, false⟩)
    (hafter : look.after.files.lookup name = some file) : file = ⟨body, false⟩ := by
  obtain ⟨linked, hfile, -⟩ := look.read.files _ _ hbefore
  rw [hduring, Option.some.injEq, File.mk.injEq] at hfile
  obtain ⟨linked', hfile', hl⟩ := look.compared.files _ _ hduring
  rw [hafter, Option.some.injEq] at hfile'
  rw [hfile', hl rfl]

/-- A chunk whose stamps are still the same is stored. -/
theorem readChunk_stored {look : Look} {chunk : Chunk} {body : Bytes} {stamps : List FileStamp}
    {d : Disk} (hread : readChunk P cfg look agent chunk = .ok (body, stamps))
    (hdir : agent ∈ d.directories)
    (hsame : ∀ stamp ∈ stamps, d.files.lookup stamp.name = some stamp.file) :
    ∃ receipt, d.get P cfg agent chunk.sha256 = .ok (receipt, body) ∧
      receipt.receipt.kind = "backup" ∧ body.length = chunk.sizeBytes := by
  simp only [readChunk, Result.bind_ok_iff, exists_unit_iff, refuse_ok_iff, Bool.or_eq_false_iff,
    bne_eq_false_iff_eq, Except.ok.injEq, Prod.mk.injEq] at hread
  obtain ⟨blob, hblob, receipt, hreceipt, ⟨found, bytes⟩, hget, ⟨hkind, hsize⟩, hstamps, rfl, rfl⟩ :=
    hread
  rw [FileStamp.read_ok_iff] at hblob hreceipt
  have hafter := checkStamps_ok hstamps
  have hstored := Disk.getWithin_ok_iff.1 hget
  obtain ⟨raw, hraw, hrawlen, hdec⟩ := hstored.file
  -- The two files, as the stamps name them, are the two files that were read.
  have hfile : blob.file = ⟨bytes, false⟩ := by
    refine look.stamped hblob.1 hstored.blob ?_
    rw [← hblob.2]
    exact hafter blob (by simp)
  have hfile' : receipt.file = ⟨raw, false⟩ := by
    refine look.stamped hreceipt.1 hraw ?_
    rw [← hreceipt.2]
    exact hafter receipt (by simp)
  refine ⟨found, Disk.get_ok_iff.2 { hstored with
    directory := hdir
    file := ⟨raw, ?_, hrawlen, hdec⟩
    blob := ?_
    length := hstored.length.trans (min_le_left _ _) }, hkind, hsize⟩
  · rw [← hfile', ← hreceipt.2]
    exact hsame receipt (by simp)
  · rw [← hfile, ← hblob.2]
    exact hsame blob (by simp)

theorem readChunks_stored {looks : Nat → Look} {d : Disk} (hdir : agent ∈ d.directories) :
    ∀ {chunks : List Chunk} {i : Nat} {full : Bytes} {stamps : List FileStamp},
      readChunks P cfg looks agent chunks i = .ok (full, stamps) →
      (∀ stamp ∈ stamps, d.files.lookup stamp.name = some stamp.file) →
        ∃ bodies : List Bytes, full = bodies.flatten ∧
          List.Forall₂ (fun (chunk : Chunk) body => ∃ receipt,
            d.get P cfg agent chunk.sha256 = .ok (receipt, body) ∧
              receipt.receipt.kind = "backup" ∧ body.length = chunk.sizeBytes) chunks bodies
  | [], i, full, stamps, h, _ => by
    simp only [readChunks, Except.ok.injEq, Prod.mk.injEq] at h
    exact ⟨[], h.1.symm, .nil⟩
  | chunk :: rest, i, full, stamps, h, hsame => by
    simp only [readChunks, Result.bind_ok_iff, Except.ok.injEq, Prod.mk.injEq] at h
    obtain ⟨⟨body, mine⟩, hone, ⟨others, more⟩, hrest, rfl, rfl⟩ := h
    obtain ⟨bodies, rfl, hall⟩ := readChunks_stored hdir hrest
      fun stamp hs => hsame stamp (List.mem_append_right _ hs)
    exact ⟨body :: bodies, rfl, .cons (readChunk_stored hone hdir
      fun stamp hs => hsame stamp (List.mem_append_left _ hs)) hall⟩

/-- Chunks that were verified and whose stamps are the same under the lock are stored. -/
theorem verifyChunks_stored {looks : Nat → Look} {record : BundleRecord} {stamps : List FileStamp}
    {d : Disk} (hverify : verifyChunks P cfg looks agent record = .ok stamps)
    (hstamps : checkStamps d stamps = .ok ()) (hdir : agent ∈ d.directories) :
    ChunksStored P cfg d agent record.manifest := by
  simp only [verifyChunks, Result.bind_ok_iff, exists_unit_iff, refuse_ok_iff, bne_eq_false_iff_eq,
    Except.ok.injEq] at hverify
  obtain ⟨⟨full, stamps'⟩, hread, hhash, rfl⟩ := hverify
  obtain ⟨bodies, rfl, hall⟩ := readChunks_stored hdir hread (checkStamps_ok hstamps)
  exact ⟨bodies, hall, hhash⟩

theorem ChunksStored.mono {d d' : Disk} {manifest : BundleManifest}
    (h : ChunksStored P cfg d agent manifest) (hext : d.Extends d') :
    ChunksStored P cfg d' agent manifest := by
  obtain ⟨bodies, hall, hhash⟩ := h
  exact ⟨bodies, hall.imp fun _ _ ⟨receipt, hget, hrest⟩ =>
    ⟨receipt, Disk.get_mono hext hget, hrest⟩, hhash⟩

/-- After an intent, the record is the same and the intent is stored. -/
theorem intent_leaves {operation : Operation} {proposed : Bytes} {record : BundleRecord}
    {s' : Server} (hraw : recordRaw P cfg s agent id = .ok record)
    (h : (s' = s ∧ s.intentAt agent id operation = some bytes ∧ bytes.length ≤ maxManifestBytes) ∨
      (s.intentAt agent id operation = none ∧ bytes = proposed ∧
        s' = s.intending agent id operation proposed)) :
    recordRaw P cfg s' agent id = .ok record ∧ s'.intentAt agent id operation = some bytes ∧
      s'.disk = s.disk ∧ (∀ operation', operation' ≠ operation →
        s'.intentAt agent id operation' = s.intentAt agent id operation') := by
  obtain ⟨rfl, hold, -⟩ | ⟨-, rfl, rfl⟩ := h
  · exact ⟨hraw, hold, rfl, fun _ _ => rfl⟩
  · have hopened := (recordRaw_row hraw).1
    refine ⟨recordRaw_intending hraw, ?_, rfl, fun operation' hne => ?_⟩
    · rw [intentAt_intending hopened, if_pos rfl]
    · rw [intentAt_intending hopened, if_neg (by simpa using hne)]

/-- The record is the same after a put. -/
theorem recordRaw_put {record : BundleRecord} {s' : Server}
    (hraw : recordRaw P cfg s agent id = .ok record) (hcat : s'.catalog = s.catalog)
    (hext : s.disk.Extends s'.disk) : recordRaw P cfg s' agent id = .ok record := by
  have htables := tables_of_catalog hcat
  exact recordRaw_mono (by rw [htables]) (by rw [htables]) hext hraw

/-- The publication of a completion. -/
theorem publishCompletion_tame {record : BundleRecord} {r : Readings}
    (hraw : recordRaw P cfg s agent id = .ok record)
    (hcovered : bundleCoverage P cfg s agent id record true = .ok ())
    (hopen : record.completion = none) (hchunks : ChunksStored P cfg s.disk agent record.manifest) :
    Tame P cfg (publishCompletion P cfg agent id record r) s (fun _ _ => True) := by
  refine Tame.bind (intent_tame fun hfree => .intendComplete hraw hcovered hopen hfree)
    fun bytes s₁ _ hs₁ => ?_
  obtain ⟨hraw₁, hpending₁, hdisk₁, -⟩ := intent_leaves hraw hs₁
  refine Tame.askThen fun completion hdecode => ?_
  rw [fromSlice_ok_iff] at hdecode
  refine Tame.askThen fun _ hverified => ?_
  refine Tame.bind (putInner_tame (.completion hraw₁ hopen hpending₁ hdecode hverified))
    fun receipt s₂ _ hput => ?_
  obtain ⟨hcat, hhashed, hext, hbody⟩ := put_leaves hput
  refine Tame.askThen fun c hcommit => ?_
  have hraw₂ := recordRaw_put hraw₁ hcat hext
  have hpending₂ : s₂.intentAt agent id .complete = some bytes :=
    (intentAt_of_catalog hcat).trans hpending₁
  have hchunks₂ : ChunksStored P cfg s₂.disk agent record.manifest := by
    rw [hdisk₁] at hext
    exact hchunks.mono hext
  have hmem : bytes ∈ s₂.hashed := by
    rw [hhashed]
    exact List.mem_cons_self
  exact Tame.durable (.complete hraw₂ hopen hpending₂ hdecode hverified hchunks₂ hbody hmem hcommit)
    trivial

/-- The second section of `complete_unlocked` makes acts only. -/
theorem completeFinish_tame {record : BundleRecord} {looks : Nat → Look} {stamps : List FileStamp}
    {r : Readings} (hbegun : Begun P cfg s agent id record)
    (hverify : verifyChunks P cfg looks agent record = .ok stamps) :
    Tame P cfg (completeFinish P cfg agent id record stamps r) s (fun _ _ => True) := by
  refine Tame.bind requireCatalog_tame fun _ s₁ _ hs₁ => ?_
  obtain rfl := hs₁.1 rfl
  refine Tame.askThen fun current hraw => Tame.askThen fun _ hcovered => ?_
  refine Tame.ite (fun _ => Tame.ask fun _ _ => trivial) (fun hopen => ?_)
  have hopen : current.completion = none := by simpa using hopen
  obtain rfl := hbegun.current hraw hopen
  refine Tame.askThen fun _ _ => Tame.askThen fun _ hstamps => ?_
  obtain ⟨row, -, ⟨body, hget, -⟩, -⟩ := hbegun
  have hdir := (Disk.get_ok_iff.1 hget).directory
  refine Tame.bind (publishCompletion_tame hraw hcovered hopen
    (verifyChunks_stored hverify hstamps hdir)) fun _ s₂ _ _ => ?_
  exact Tame.ask fun _ _ => trivial

/-! ### Reviews -/

/-- What coverage with repair says of a pending review. -/
theorem bundleCoverage_pending {record : BundleRecord} {raw : Bytes} {event : Signed ReviewEvent}
    (h : bundleCoverage P cfg s agent id record true = .ok ())
    (hpending : s.intentAt agent id .review = some raw)
    (hdecode : P.signedReview.decode raw = some event) :
    verified P cfg (record.push event) = .ok () := by
  simp only [bundleCoverage, repairCount, if_true, Result.bind_ok_iff, exists_unit_iff] at h
  obtain ⟨-, n, ⟨completions, -, reviews, hreviews, -⟩, -⟩ := h
  simp only [pendingCount, hpending, Result.bind_ok_iff, exists_unit_iff, withPending,
    reduceCtorEq, if_false, fromSlice_ok_iff] at hreviews
  obtain ⟨-, check, ⟨event', hdecode', hcheck⟩, hverified, -⟩ := hreviews
  rw [hdecode, Option.some.injEq] at hdecode'
  cases hcheck
  rw [hdecode']
  exact hverified

/-- The revocation that is retained is the one that was asked for. -/
theorem retainRevocationIntent_tame {record : BundleRecord} {request : ReviewRequest}
    (hvalid : validateReview request = .ok ()) (hraw : recordRaw P cfg s agent id = .ok record)
    (hcovered : bundleCoverage P cfg s agent id record true = .ok ())
    (hfresh : record.findRequest request = none)
    (hapart : rejectSupersededRequest P s agent id request = .ok ())
    (hcomplete : record.completion.isSome) (hrevoked : request.decision = .revoked) :
    Tame P cfg (retainRevocationIntent P cfg agent id record request) s (fun _ s' =>
      recordRaw P cfg s' agent id = .ok record ∧ s'.disk = s.disk ∧
        s'.intentAt agent id .review = s.intentAt agent id .review ∧
        ∃ text, s'.intentAt agent id .revoke = some text ∧
          checkRevocation P cfg agent id record request text = .ok ()) := by
  refine Tame.bind (intent_tame fun hfree => .retain hvalid hraw hcovered hfresh hapart hcomplete
    hrevoked hfree) fun text s₁ _ hs₁ => ?_
  obtain ⟨hraw₁, hpending₁, hdisk₁, hothers⟩ := intent_leaves hraw hs₁
  exact Tame.ask fun _ hcheck => ⟨hraw₁, hdisk₁, hothers .review (by simp), text, hpending₁, hcheck⟩

/-- Settling keeps the bundles and the retained revocation. -/
theorem settled_keeps {raw : Bytes} {event : Signed ReviewEvent} {c : Catalog}
    (h : settled P cfg s agent id raw event = .ok c) :
    c.bundles = s.tables.bundles ∧
      c.intents.lookup (agent, id, .revoke) = s.intentAt agent id .revoke := by
  unfold settled at h
  split at h
  · simp only [Result.bind_ok_iff, exists_unit_iff, Except.ok.injEq] at h
    obtain ⟨x, -, -, c', hinsert, rfl⟩ := h
    unfold Catalog.insertReview at hinsert
    split at hinsert
    · cases hinsert
    · cases hinsert
      exact ⟨rfl, AList.lookup_erase_ne (by simp)⟩
  · simp only [Result.check_ok_iff] at h
    obtain ⟨-, h⟩ := h
    split at h
    · cases h
    · cases h
      refine ⟨rfl, (AList.lookup_erase_ne (by simp)).trans ?_⟩
      exact AList.lookup_insert_ne (by simp)

/-- Settling a pending good review. -/
theorem settlePendingGood_tame {record : BundleRecord} (held : s.hasRevocationIntent agent id)
    (hraw : recordRaw P cfg s agent id = .ok record)
    (hpending : ∀ raw event, s.intentAt agent id .review = some raw →
      P.signedReview.decode raw = some event → verified P cfg (record.push event) = .ok ()) :
    Tame P cfg (settlePendingGood P cfg agent id) s (fun _ s' =>
      s'.disk = s.disk ∧ s'.tables.bundles = s.tables.bundles ∧
        s'.intentAt agent id .revoke = s.intentAt agent id .revoke) := by
  refine Tame.getsThen ?_
  rcases hold : s.intentAt agent id .review with _ | raw
  · exact Tame.pure ⟨rfl, rfl, rfl⟩
  refine Tame.askThen fun event hdecode => ?_
  rw [fromSlice_ok_iff] at hdecode
  refine Tame.ite (fun _ => Tame.pure ⟨rfl, rfl, rfl⟩) (fun hgood => ?_)
  rw [not_not] at hgood
  refine Tame.askThen fun c hcommit => ?_
  have hverified := hpending raw event hold hdecode
  have hrevoke : (s.onCatalog fun _ => c).disk = s.disk ∧
      (s.onCatalog fun _ => c).tables.bundles = s.tables.bundles ∧
      (s.onCatalog fun _ => c).intentAt agent id .revoke = s.intentAt agent id .revoke := by
    obtain ⟨hbundles, hintent⟩ := settled_keeps hcommit
    rw [Server.intentAt, tables_onCatalog (recordRaw_row hraw).1]
    exact ⟨rfl, hbundles, hintent⟩
  by_cases hobject : s.disk.hasObject agent (P.sha256 raw) = true
  · exact Tame.durable (.settle held hraw hold hdecode hgood hverified hobject hcommit) hrevoke
  · rw [Bool.not_eq_true] at hobject
    exact Tame.durable (.supersede held hraw hold hdecode hgood hverified hobject hcommit) hrevoke

theorem checkRevocation_ok_iff {record : BundleRecord} {request : ReviewRequest} {text : Bytes} :
    checkRevocation P cfg agent id record request text = .ok () ↔
      ∃ intent, P.signedRevocation.decode text = some intent ∧
        P.verify cfg.key.publicHex (P.revocation intent.value) intent.signatureHex ∧
        intent.value.format = "argos-bundle-revocation-intent-v1" ∧ intent.value.keyId = cfg.keyId ∧
        intent.value.agentId = agent ∧ intent.value.bundleId = id ∧
        intent.value.manifestSha256 = record.manifestReceipt.receipt.sha256 ∧
        intent.value.request = request := by
  simp only [checkRevocation, Result.bind_ok_iff, exists_unit_iff, fromSlice_ok_iff,
    verifyValue_ok_iff, refuse_ok_iff, Bool.or_eq_false_iff, bne_eq_false_iff_eq, and_assoc]

/-- The records of one bundle have one manifest, at whatever time they are read. -/
theorem recordRaw_manifest {record record' : BundleRecord} {s' : Server}
    (h : recordRaw P cfg s agent id = .ok record) (h' : recordRaw P cfg s' agent id = .ok record')
    (hrow : ∀ row row', s.tables.bundles.lookup (agent, id) = some row →
      s'.tables.bundles.lookup (agent, id) = some row' → row'.manifestHash = row.manifestHash)
    (hext : s.disk.Extends s'.disk) :
    record'.manifest = record.manifest ∧ record'.manifestReceipt = record.manifestReceipt := by
  obtain ⟨row, hlook, ⟨body, hget, hdec⟩, -⟩ := recordRaw_ok_iff.1 h
  obtain ⟨row', hlook', ⟨body', hget', hdec'⟩, -⟩ := recordRaw_ok_iff.1 h'
  rw [hrow row row' hlook hlook', Disk.get_mono hext hget, Except.ok.injEq, Prod.mk.injEq] at hget'
  obtain ⟨hreceipt, rfl⟩ := hget'
  rw [hdec, Option.some.injEq] at hdec'
  exact ⟨hdec'.symm, hreceipt.symm⟩

/-- The preparation of a review: afterwards the record is current and covered, and the revocation is
the retained one or none is. -/
theorem prepareReview_tame {record : BundleRecord} {request : ReviewRequest}
    (hvalid : validateReview request = .ok ()) (hraw : recordRaw P cfg s agent id = .ok record)
    (hcovered : bundleCoverage P cfg s agent id record true = .ok ())
    (hfresh : record.findRequest request = none)
    (hapart : rejectSupersededRequest P s agent id request = .ok ())
    (hcomplete : record.completion.isSome) :
    Tame P cfg (prepareReview P cfg agent id record request) s (fun current s' =>
      recordRaw P cfg s' agent id = .ok current ∧
        bundleCoverage P cfg s' agent id current true = .ok () ∧
        Held P cfg s' agent id current request ∧
        (request.decision = .good → current = record)) := by
  refine Tame.ite (fun hrevoked => ?_) (fun hgood => ?_)
  · refine Tame.bind (retainRevocationIntent_tame hvalid hraw hcovered hfresh hapart hcomplete
      hrevoked) fun _ s₁ _ ⟨hraw₁, hdisk₁, hreview₁, text, htext₁, hcheck⟩ => ?_
    have hheld₁ : s₁.hasRevocationIntent agent id := by
      rw [Server.hasRevocationIntent, htext₁]
      rfl
    refine Tame.bind (settlePendingGood_tame hheld₁ hraw₁ fun raw event hpending hdecode =>
      bundleCoverage_pending hcovered (hreview₁ ▸ hpending) hdecode) fun _ s₂ _ hs₂ => ?_
    obtain ⟨hdisk₂, hbundles₂, hrevoke₂⟩ := hs₂
    refine Tame.askThen fun current hcurrent => Tame.askThen fun _ hcov => Tame.pure ?_
    refine ⟨hcurrent, hcov, ?_, fun hgood => ?_⟩
    · -- The manifest is the same, so the check of the retained text stands.
      have hsame := recordRaw_manifest hraw₁ hcurrent (fun row row' h h' => by
        rw [hbundles₂, h, Option.some.injEq] at h'
        rw [h']) (hdisk₂ ▸ .refl _)
      rw [Held, hrevoked]
      refine ⟨text, hrevoke₂.trans htext₁, ?_⟩
      rw [checkRevocation_ok_iff, hsame.2]
      exact checkRevocation_ok_iff.1 hcheck
    · rw [hrevoked] at hgood
      cases hgood
  · refine Tame.askThen fun _ hnone => Tame.pure ⟨hraw, hcovered, ?_, fun _ => rfl⟩
    have hdecision : request.decision = .good := by
      cases h : request.decision with
      | good => rfl
      | revoked => exact (hgood h).elim
    rw [Held, hdecision]
    rw [refuse_ok_iff] at hnone
    simpa [Server.hasRevocationIntent] using hnone

/-- The retained revocation does not depend on the other intents. -/
theorem Held.congr {record : BundleRecord} {request : ReviewRequest} {s' : Server}
    (h : Held P cfg s agent id record request)
    (hrevoke : s'.intentAt agent id .revoke = s.intentAt agent id .revoke) :
    Held P cfg s' agent id record request := by
  unfold Held at h ⊢
  rw [hrevoke]
  exact h

/-- Adding a review. -/
theorem addReview_tame {record : BundleRecord} {completion : Signed Completion}
    {request : ReviewRequest} {r : Readings} (hvalid : validateReview request = .ok ())
    (hraw : recordRaw P cfg s agent id = .ok record)
    (hcovered : bundleCoverage P cfg s agent id record true = .ok ())
    (hcomplete : record.completion = some completion) (hfresh : record.findRequest request = none)
    (hheld : Held P cfg s agent id record request) :
    Tame P cfg (addReview P cfg agent id record completion request r) s (fun _ _ => True) := by
  refine Tame.askThen fun _ hroom => ?_
  simp only [refuse_ok_iff, Bool.or_eq_false_iff, decide_eq_false_iff_not, not_le, ge_iff_le,
    Bool.and_eq_false_iff, beq_eq_false_iff_ne, bne_eq_false_iff_eq] at hroom
  refine Tame.bind (intent_tame fun hfree => .intendReview hvalid hraw hcovered hcomplete hfresh
    hroom.1 (fun hlast => hroom.2.resolve_left (absurd hlast)) hheld hfree) fun bytes s₁ _ hs₁ => ?_
  obtain ⟨hraw₁, hpending₁, hdisk₁, hothers₁⟩ := intent_leaves hraw hs₁
  have hheld₁ := hheld.congr (hothers₁ .revoke (by simp))
  refine Tame.askThen fun stored hdecode => ?_
  rw [fromSlice_ok_iff] at hdecode
  refine Tame.askThen fun _ hsame => ?_
  rw [refuse_ok_iff, bne_eq_false_iff_eq] at hsame
  refine Tame.askThen fun _ hverified => ?_
  have hsome : record.completion.isSome := by rw [hcomplete]; rfl
  have horigin : Origin P cfg s₁ agent "bundle-review" bytes (request.decision == .revoked) :=
    hsame ▸ .review hraw₁ hsome hpending₁ hdecode hverified
  -- The object goes through the budget of its decision.
  have hput : Tame P cfg (putReview P cfg agent bytes request.decision r) s₁ (fun _ s₂ =>
      s₂.catalog = s₁.catalog ∧ s₂.hashed = bytes :: s₁.hashed ∧ s₁.disk.Extends s₂.disk ∧
        BodyStored P s₂.disk agent bytes) := by
    unfold putReview
    refine Tame.ite (fun hrevoked => ?_) (fun hgood => ?_)
    · rw [hrevoked] at horigin
      exact (putInner_tame horigin).mono fun _ _ _ h => put_leaves h
    · have hfalse : (request.decision == .revoked) = false := by simpa using hgood
      rw [hfalse] at horigin
      exact (putInner_tame horigin).mono fun _ _ _ h => put_leaves h
  refine Tame.bind hput fun _ s₂ _ hleft => ?_
  obtain ⟨hcat, hhashed, hext, hbody⟩ := hleft
  refine Tame.askThen fun c hcommit => ?_
  have hmem : bytes ∈ s₂.hashed := by
    rw [hhashed]
    exact List.mem_cons_self
  exact Tame.durable (.review (recordRaw_put hraw₁ hcat hext) hsome hfresh
    (hheld₁.congr (intentAt_of_catalog hcat)) ((intentAt_of_catalog hcat).trans hpending₁) hdecode
    hsame hverified hbody hmem hcommit) trivial

/-- `review_inner` makes acts only. -/
theorem reviewInner_tame {request : ReviewRequest} {r : Readings} :
    Tame P cfg (reviewInner P cfg agent id request r) s (fun _ _ => True) := by
  refine Tame.askThen fun _ hvalid => ?_
  refine Tame.bind requireCatalog_tame fun _ s₁ _ hs₁ => ?_
  obtain rfl := hs₁.1 rfl
  refine Tame.askThen fun raw hraw => Tame.askThen fun _ hcovered => ?_
  rcases hfind : raw.findRequest request with _ | existing
  · refine Tame.askThen fun _ hapart => Tame.askThen fun _ hcomplete => ?_
    have hcomplete : raw.completion.isSome := by
      rw [refuse_ok_iff] at hcomplete
      simpa [Option.isSome_iff_ne_none] using hcomplete
    refine Tame.bind (prepareReview_tame hvalid hraw hcovered hfind hapart hcomplete)
      fun current s₂ _ ⟨hcurrent, hcov, hheld, _⟩ => ?_
    refine Tame.bind (R := fun _ _ => True) ?_ fun _ s₃ _ _ =>
      Tame.askThen fun _ _ => Tame.ask fun _ _ => trivial
    unfold applyReview
    rcases hc : current.completion with _ | completion
    · exact Tame.fail
    rcases hf : current.findRequest request with _ | other
    · exact addReview_tame hvalid hcurrent hcov hc hf hheld
    · exact Tame.ask fun _ _ => trivial
  · exact Tame.ite (fun _ => Tame.fail) (fun _ => Tame.ask fun _ _ => trivial)

end Parts

end Argos.Vault
