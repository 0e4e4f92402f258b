import Argos.Vault.Withheld

/-!
# What a completion stands for

A completion reads its chunks without the lock, so between its two sections other completions,
registrations, reviews and uploads may come. Still a bundle is completed at most once, and when it is,
its chunks are stored and make up the content that its manifest promises: the second section has the
record of the first before it (`Begun.current`), and the files under the chunks are those that were
read (`verifyChunks_stored`). Since stored files stay as they are, this holds ever after
(`completion_safety`).
-/

namespace Argos.Vault

open Argos.Lib

section Completions

variable {P : Primitives} {cfg : ServerConfig} {s s' : Server} {agent id : String}

/-- A completion is signed and names the manifest of its bundle. -/
structure Names (P : Primitives) (cfg : ServerConfig) (agent : String) (manifest : BundleManifest)
    (manifestHash : String) (completion : Signed Completion) : Prop where
  signed : P.verify cfg.key.publicHex (P.completion completion.value) completion.signatureHex
  keyId : completion.value.keyId = cfg.keyId
  agentId : completion.value.agentId = agent
  bundleId : completion.value.bundleId = manifest.bundleId
  manifestSha256 : completion.value.manifestSha256 = manifestHash
  sha256 : completion.value.sha256 = manifest.sha256
  sizeBytes : completion.value.sizeBytes = manifest.sizeBytes

/-- The manifest of a bundle is stored, and so are its chunks, and a completion that names it was
hashed and published. -/
def Confirmed (P : Primitives) (cfg : ServerConfig) (s : Server) (agent id manifestHash hash : String) :
    Prop :=
  ∃ receipt body manifest bytes completion,
    s.disk.get P cfg agent manifestHash = .ok (receipt, body) ∧
    P.manifest.decode body = some manifest ∧ manifest.bundleId = id ∧
    ChunksStored P cfg s.disk agent manifest ∧ hash = P.sha256 bytes ∧ bytes ∈ s.hashed ∧
    BodyStored P s.disk agent bytes ∧ P.signedCompletion.decode bytes = some completion ∧
    Names P cfg agent manifest manifestHash completion

/-- Every completed bundle is confirmed. -/
def AllConfirmed (P : Primitives) (cfg : ServerConfig) (s : Server) : Prop :=
  ∀ agent id manifestHash hash,
    s.tables.bundles.lookup (agent, id) = some ⟨manifestHash, some hash⟩ →
      Confirmed P cfg s agent id manifestHash hash

theorem Confirmed.evolves {manifestHash hash : String}
    (h : Confirmed P cfg s agent id manifestHash hash) (hev : Evolves s s') :
    Confirmed P cfg s' agent id manifestHash hash := by
  obtain ⟨receipt, body, manifest, bytes, completion, hget, hdecode, hid, hchunks, hhash, hmem,
    ⟨file, hfile, hsame⟩, hcompletion, hnames⟩ := h
  exact ⟨receipt, body, manifest, bytes, completion, Disk.get_mono hev.disk hget, hdecode, hid,
    hchunks.mono hev.disk, hhash, hev.hashed _ hmem, ⟨file, hev.disk.files _ _ hfile, hsame⟩,
    hcompletion, hnames⟩

/-- A change after which no other bundle is complete. -/
theorem AllConfirmed.evolves (h : AllConfirmed P cfg s) (hev : Evolves s s')
    (hrows : ∀ agent id manifestHash hash,
      s'.tables.bundles.lookup (agent, id) = some ⟨manifestHash, some hash⟩ →
        s.tables.bundles.lookup (agent, id) = some ⟨manifestHash, some hash⟩) :
    AllConfirmed P cfg s' :=
  fun agent id manifestHash hash hrow =>
    (h agent id manifestHash hash (hrows agent id manifestHash hash hrow)).evolves hev

/-- A completion that is accepted for an open record names its manifest. -/
theorem Names.of_verified {record : BundleRecord} {completion : Signed Completion}
    {manifestHash : String} (hreceipt : record.manifestReceipt.receipt.sha256 = manifestHash)
    (h : verified P cfg { record with completion := some completion } = .ok ()) :
    Names P cfg record.agentId record.manifest manifestHash completion := by
  obtain ⟨-, -, -, -, hmatches, ⟨hsigned, hcompletion, -⟩, -⟩ := verifyRecord_ok_iff.1 h
  have hhash : P.sha256 (P.manifest.encode record.manifest) = manifestHash :=
    hmatches.2.1.symm.trans hreceipt
  simp only [completionMatches, Bool.and_eq_true, beq_iff_eq, hhash] at hcompletion
  obtain ⟨⟨⟨⟨⟨⟨-, hkey⟩, hagent⟩, hid⟩, hmanifest⟩, hsha⟩, hsize⟩ := hcompletion
  exact ⟨hsigned, hkey, hagent, hid, hmanifest, hsha, hsize⟩

/-- Every act keeps the completed bundles confirmed. -/
theorem Act.allConfirmed (hact : Act P cfg s s') (h : AllConfirmed P cfg s) :
    AllConfirmed P cfg s' := by
  have hev := hact.evolves
  -- Most acts leave the rows of the bundles alone.
  have hsame : s'.tables.bundles = s.tables.bundles → AllConfirmed P cfg s' := fun hbundles =>
    h.evolves hev fun agent id manifestHash hash hrow => hbundles ▸ hrow
  cases hact with
  | put origin ends =>
    obtain ⟨receipt, hput⟩ | hput := ends
    · exact hsame (by rw [tables_of_catalog (put_leaves hput).1])
    · exact hsame (by rw [tables_of_catalog hput.catalog])
  | root parent free touched => exact hsame (by rw [tables_of_catalog touched.catalog])
  | create free written => exact hsame (by rw [Server.tables, Server.tables, free]; rfl)
  | @register a manifest opened valid free limits body =>
    refine h.evolves hev fun agent id manifestHash hash hrow => ?_
    rw [tables_onCatalog opened, Catalog.addBundle] at hrow
    by_cases hkey : (agent, id) = (a, manifest.bundleId)
    · -- The new row is not complete.
      rw [hkey, AList.lookup_insert] at hrow
      cases hrow
    · rwa [AList.lookup_insert_ne hkey] at hrow
  | intendComplete raw covered open_ free => exact hsame (intending_rows (recordRaw_row raw).1).1
  | @complete a b record bytes completion c raw open_ pending decoded verified chunks body hashed
      commit =>
    obtain ⟨manifestHash, hlookup, rfl⟩ := completed_ok_iff.1 commit
    intro agent id manifestHash' hash hrow
    rw [tables_onCatalog (recordRaw_row raw).1] at hrow
    by_cases hkey : (agent, id) = (a, b)
    · obtain ⟨rfl, rfl⟩ := Prod.mk.inj hkey
      have hnew : (⟨manifestHash, some (P.sha256 bytes)⟩ : BundleRow) =
          ⟨manifestHash', some hash⟩ := Option.some.inj ((AList.lookup_insert _).symm.trans hrow)
      cases hnew
      obtain ⟨row, hrow', ⟨content, hget, hdecode⟩, hid, -, -, -, heq⟩ := recordRaw_ok_iff.1 raw
      rw [hlookup, Option.some.injEq] at hrow'
      subst hrow'
      have hagent : record.agentId = agent := by rw [heq]; rfl
      have hnames := Names.of_verified (Disk.get_ok_iff.1 hget).sha256 verified
      rw [hagent] at hnames
      exact ⟨_, content, record.manifest, bytes, completion, hget, hdecode, hid, chunks, rfl, hashed,
        body, decoded, hnames⟩
    · exact (h agent id manifestHash' hash
        ((AList.lookup_insert_ne hkey).symm.trans hrow)).evolves hev
  | retain valid raw covered fresh apart complete revoked free =>
    exact hsame (intending_rows (recordRaw_row raw).1).1
  | settle held current pending decoded good verified published commit =>
    exact hsame (by rw [tables_onCatalog (recordRaw_row current).1]; exact (settled_keeps commit).1)
  | supersede held current pending decoded good verified unpublished commit =>
    exact hsame (by rw [tables_onCatalog (recordRaw_row current).1]; exact (settled_keeps commit).1)
  | intendReview valid raw covered complete fresh room last held free =>
    exact hsame (intending_rows (recordRaw_row raw).1).1
  | review raw complete fresh held pending decoded same verified body hashed commit =>
    obtain ⟨c₁, hinsert, rfl⟩ := reviewed_ok_iff.1 commit
    obtain ⟨-, rfl⟩ := insertReview_ok_iff.1 hinsert
    refine hsame ?_
    rw [tables_onCatalog (recordRaw_row raw).1]
    split <;> rfl

theorem Acts.allConfirmed (hacts : Acts P cfg s s') (h : AllConfirmed P cfg s) :
    AllConfirmed P cfg s' := by
  induction hacts with
  | refl => exact h
  | tail _ hact ih => exact hact.allConfirmed ih

theorem Moves.allConfirmed (hmoves : Moves P cfg s s') (h : AllConfirmed P cfg s) :
    AllConfirmed P cfg s' := by
  -- A cut and a restart leave the tables alone.
  have hcatalog : ∀ {s₁ s₂ : Server}, AllConfirmed P cfg s₁ → Evolves s₁ s₂ →
      s₂.catalog = s₁.catalog → AllConfirmed P cfg s₂ := fun h₁ hev hcat =>
    h₁.evolves hev fun _ _ _ _ hrow => tables_of_catalog hcat ▸ hrow
  cases hmoves with
  | acts hacts => exact hacts.allConfirmed h
  | restarted hhalts hr =>
    obtain ⟨s₁, hacts, hstop⟩ := hhalts
    exact hcatalog (hcatalog (hacts.allConfirmed h) hstop.evolves hstop.catalog) hr.evolves hr.catalog

/-- In every system that is reached, the completed bundles are confirmed. -/
theorem Run.allConfirmed {st₀ : CapacityState} {sys : System}
    (hrun : Run P cfg (.initial st₀) sys) : AllConfirmed P cfg sys.server := by
  induction hrun with
  | refl =>
    intro agent id manifestHash hash hrow
    have : (∅ : Map (String × String) BundleRow).lookup (agent, id) = _ := hrow
    cases this
  | tail hrun hstep ih =>
    have hreach := (Reached.initial st₀ : Reached P cfg _).run hrun
    exact (hstep.moves hreach.begun).allConfirmed ih

/-- Over every run from an empty vault, in any order of registrations, uploads, reviews, restarts and
both sections of any number of completions: a bundle that is complete keeps the hash of its
completion, and its manifest and chunks are stored with the listed sizes, as backups of its agent,
make up the content that the manifest promises, and the object under the hash is a signed completion
that names this manifest. -/
theorem completion_safety {st₀ : CapacityState} {sys₁ sys₂ : System}
    (hrun₁ : Run P cfg (.initial st₀) sys₁) (hrun₂ : Run P cfg sys₁ sys₂)
    (hinj : NoCollision P sys₂.server) :
    (∀ agent id manifestHash hash,
      sys₁.server.tables.bundles.lookup (agent, id) = some ⟨manifestHash, some hash⟩ →
        sys₂.server.tables.bundles.lookup (agent, id) = some ⟨manifestHash, some hash⟩) ∧
    ∀ agent id manifestHash hash,
      sys₂.server.tables.bundles.lookup (agent, id) = some ⟨manifestHash, some hash⟩ →
        ∃ receipt body manifest file completion,
          sys₂.server.disk.get P cfg agent manifestHash = .ok (receipt, body) ∧
          P.manifest.decode body = some manifest ∧ manifest.bundleId = id ∧
          ChunksStored P cfg sys₂.server.disk agent manifest ∧
          sys₂.server.disk.files.lookup (.blob agent hash) = some file ∧
          P.signedCompletion.decode file.bytes = some completion ∧
          Names P cfg agent manifest manifestHash completion := by
  have hreach₁ := (Reached.initial st₀ : Reached P cfg _).run hrun₁
  have hreach₂ := hreach₁.run hrun₂
  constructor
  · intro agent id manifestHash hash hrow
    obtain ⟨⟨manifestHash', hash'⟩, hrow', hmanifest, hkept⟩ :=
      (hreach₁.evolves hrun₂).bundles _ _ hrow
    have hhash := hkept hash rfl
    dsimp only at hmanifest hhash
    rw [hrow', hmanifest, hhash]
  · intro agent id manifestHash hash hrow
    obtain ⟨receipt, body, manifest, bytes, completion, hget, hdecode, hid, hchunks, rfl, hmem,
      ⟨file, hfile, hsame⟩, hcompletion, hnames⟩ :=
        Run.allConfirmed (hrun₁.trans hrun₂) agent id manifestHash hash hrow
    -- The published file and the completion were both hashed, so they are one text.
    have hbytes : file.bytes = bytes := hinj (hreach₂.sound.blobs _ _ _ hfile) hmem hsame
    exact ⟨receipt, body, manifest, file, completion, hget, hdecode, hid, hchunks, hfile,
      hbytes ▸ hcompletion, hnames⟩

/-- The sample's bundle, completed and then reviewed. -/
def sampleReviewed : List ((System → Call) × Plan) :=
  sampleCompletion ++ [(sampleReview "first" .good 4, [])]

theorem completion_safety_one_bundle :
    ∃ manifestHash hash,
      (samplePlay sampleReviewed).server.tables.bundles.lookup ("agent", sampleManifest.bundleId) =
        some ⟨manifestHash, some hash⟩ ∧
      ∃ receipt body manifest,
        (samplePlay sampleReviewed).server.disk.get sample sampleConfig "agent" manifestHash =
          .ok (receipt, body) ∧ sample.manifest.decode body = some manifest ∧
        ChunksStored sample sampleConfig (samplePlay sampleReviewed).server.disk "agent" manifest := by
  have hcomplete : ((samplePlay sampleCompletion).server.tables.bundles.lookup
      ("agent", sampleManifest.bundleId)).any (fun row => row.completionHash.isSome) = true := by
    decide +kernel
  have hnodup : ((samplePlay sampleReviewed).server.hashed.dedup.map sample.sha256).Nodup := by
    decide +kernel
  have hrun : Run sample sampleConfig (samplePlay sampleCompletion) (samplePlay sampleReviewed) :=
    sample_run_append sampleCompletion [(sampleReview "first" .good 4, [])]
  have hinj : NoCollision sample (samplePlay sampleReviewed).server := .of_nodup hnodup
  obtain ⟨hkept, hall⟩ := completion_safety (sample_run sampleCompletion) hrun hinj
  rcases hrow : (samplePlay sampleCompletion).server.tables.bundles.lookup
      ("agent", sampleManifest.bundleId) with _ | ⟨manifestHash, _ | hash⟩
  · rw [hrow] at hcomplete
    cases hcomplete
  · rw [hrow] at hcomplete
    cases hcomplete
  · have hrow' := hkept _ _ _ _ hrow
    obtain ⟨receipt, body, manifest, -, -, hget, hdecode, -, hchunks, -⟩ := hall _ _ _ _ hrow'
    exact ⟨manifestHash, hash, hrow', receipt, body, manifest, hget, hdecode, hchunks⟩

end Completions

end Argos.Vault
