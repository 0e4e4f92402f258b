import Argos.Vault.Quota
import Argos.Lib.Durable

/-!
# The vault directory and its writer

`Storage` of `server.rs` with the file operations of `lib.rs` that it uses. A `Disk` holds the files
that the server publishes, by name, and the temporary files that a cut call may have left behind.
Every file is published by `writeNew`: a temporary file is written, linked under its name, and its
own name removed. Between the last two steps the file has two links, and every reader refuses it.

`Server` is the whole of what a call works on: the directory, the bundle catalog inside it, and the
counters of the running process. The last field, `hashed`, is not in the source: it lists the bodies
that were ever stored or looked for, and is there to say that no two of them have the same hash.

`putInner_sat` is what a put can do, at whichever step it stops.
-/

namespace Argos.Vault

open Argos.Lib

/-! ## The directory -/

/-- The name of a published file. -/
inductive Name where
  /-- `<agent>/<hash>.blob` -/
  | blob (agent hash : String)
  /-- `<agent>/<hash>.receipt.json` -/
  | receipt (agent hash : String)
  /-- `.argos-bundles.sqlite3` -/
  | database
  /-- `.argos-bundles.ready` -/
  | marker
deriving DecidableEq, Repr

/-- The agent in whose directory a file lies, or none for the root. -/
def Name.parent : Name → Option String
  | .blob agent _ => some agent
  | .receipt agent _ => some agent
  | .database => none
  | .marker => none

/-- A published file: its content, and whether its temporary name is still linked to it. -/
structure File where
  bytes : Bytes
  linked : Bool
deriving DecidableEq, Repr

/-- The vault directory: the agents' directories, the published files, and for each temporary file
that was left behind the directory it lies in. -/
structure Disk where
  directories : List String
  files : Map Name File
  temporaries : List (Option String)

/-- The directory of a new vault. -/
def Disk.empty : Disk := ⟨[], ∅, []⟩

/-! ## The catalog's tables -/

/-- The `operation` of an intent. -/
inductive Operation where
  | complete
  | review
  | revoke
  /-- `superseded-review-<hash>` -/
  | superseded (hash : String)
deriving DecidableEq, Repr

/-- A row of `bundles`, without its key. -/
structure BundleRow where
  manifestHash : String
  completionHash : Option String
deriving DecidableEq, Repr

/-- A row of `reviews`. -/
structure ReviewRow where
  agent : String
  bundle : String
  sequence : Nat
  hash : String
  requestId : String
deriving DecidableEq, Repr

/-- The tables of the bundle catalog: `bundles` and `intents` by primary key, and `reviews` in the
order of insertion. -/
structure Catalog where
  bundles : Map (String × String) BundleRow
  reviews : List ReviewRow
  intents : Map (String × String × Operation) Bytes

/-- The catalog as its schema creates it. -/
def Catalog.empty : Catalog := ⟨∅, [], ∅⟩

/-! ## The server -/

/-- What the storage uses of `ServerConfig`, with the signing key. -/
structure ServerConfig where
  keyId : String
  key : SigningKey
  agents : List String
  maxObjectBytes : Nat
  retentionSecs : Nat
  capacity : CapacityConfig

/-- The checks of `router` that concern the storage. -/
def ServerConfig.check (cfg : ServerConfig) : Bool :=
  validId cfg.keyId && !cfg.agents.isEmpty && cfg.agents.all validId && 1 ≤ cfg.maxObjectBytes &&
    cfg.maxObjectBytes ≤ Argos.Vault.maxObjectBytes && 1 ≤ cfg.retentionSecs &&
    cfg.retentionSecs ≤ 10 * 366 * 86400

/-- The directory, the catalog's tables once their schema is committed, and the counters of the
process. -/
structure Server where
  disk : Disk
  catalog : Option Catalog
  capacity : CapacityState
  hashed : List Bytes

/-- What a call reads from outside: the clock for the signed records, the clock for the receipt, and
the free space. -/
structure Readings where
  now : Nat
  received : Nat
  free : Option Nat

/-- A call of the server, or a part of one. -/
abbrev Op (α : Type) := Prog Server Error α

namespace Server

/-- The server with another directory. -/
def onDisk (g : Disk → Disk) (s : Server) : Server := { s with disk := g s.disk }

/-- The server with other counters. -/
def onCapacity (g : CapacityState → CapacityState) (s : Server) : Server :=
  { s with capacity := g s.capacity }

end Server

/-! ## File operations -/

/-- A file with this content appears, or is replaced, under a name. -/
def Disk.write (name : Name) (file : File) (d : Disk) : Disk :=
  { d with files := d.files.insert name file }

/-- `symlink_metadata(path).is_ok()`, and `exists`. -/
def Disk.has (d : Disk) (name : Name) : Bool := (d.files.lookup name).isSome

/-- The temporary file of a `write_new` is gone, and what it was linked to has one link. -/
def Disk.unlink (name : Name) (bytes : Bytes) (before : List (Option String)) (d : Disk) : Disk :=
  if d.has name then { d.write name ⟨bytes, false⟩ with temporaries := before }
  else { d with temporaries := before }

/-- `write_new`. The callers have checked that the name is free. -/
def writeNew (name : Name) (bytes : Bytes) : Op Unit := do
  let before ← Prog.gets (fun s : Server => s.disk.temporaries)
  Prog.durable .external (Server.onDisk fun d => { d with temporaries := name.parent :: before })
  Prog.handle
    (do
      Prog.durable .external (Server.onDisk (Disk.write name ⟨bytes, true⟩))
      Prog.durable .external (Server.onDisk (Disk.unlink name bytes before))
      Prog.durable .external id)
    (fun e => do
      -- The removal of the temporary file may fail too; its result is dropped.
      Prog.handle (Prog.durable .external (Server.onDisk (Disk.unlink name bytes before)))
        (fun _ => pure ())
      Prog.fail e)

/-- `sync_directory`. -/
def syncDirectory : Op Unit := Prog.durable .external id

/-- `read_storage_file`. -/
def readStorageFile (file : Option File) (maximum : Nat) : Result Bytes :=
  match file with
  | none => .error .external
  | some file => do
    refuse file.linked "보관 파일은 현재 계정 소유 0600 단일 링크여야 합니다"
    refuse (file.bytes.length > maximum) "일반 파일과 크기 상한만 허용합니다"
    .ok file.bytes

section Reader

variable (P : Primitives) (cfg : ServerConfig)

/-- `serde_json::from_slice`. -/
def fromSlice {α : Type} (c : Codec α) (bytes : Bytes) : Result α :=
  match c.decode bytes with
  | none => .error .external
  | some a => .ok a

/-- `validate_private_directory` of an agent's directory, which only the server creates. -/
def Disk.validatePrivateDirectory (d : Disk) (agent : String) : Result Unit :=
  if agent ∈ d.directories then .ok () else .error .external

/-- `StorageReader::get`, with the reader's limit on objects. -/
def Disk.getWithin (d : Disk) (maximum : Nat) (agent hash : String) :
    Result (SignedReceipt × Bytes) := do
  d.validatePrivateDirectory agent
  let raw ← readStorageFile (d.files.lookup (.receipt agent hash)) maxReceiptBytes
  let receipt ← fromSlice P.signedReceipt raw
  verifyReceipt P receipt cfg.key.publicHex
  refuse (receipt.receipt.agentId != agent || receipt.receipt.sha256 != hash ||
    receipt.receipt.keyId != cfg.keyId) "저장된 증명의 신원이 다릅니다"
  let bytes ← readStorageFile (d.files.lookup (.blob agent hash)) maximum
  verifyBody P bytes receipt
  .ok (receipt, bytes)

/-- `Storage::get`. -/
def Disk.get (d : Disk) (agent hash : String) : Result (SignedReceipt × Bytes) :=
  d.getWithin P cfg cfg.maxObjectBytes agent hash

end Reader

/-! ## Putting an object -/

section Put

variable (P : Primitives) (cfg : ServerConfig)

/-- `Storage::directory`. -/
def directory (agent : String) : Op Unit := do
  let exists? ← Prog.gets (fun s : Server => decide (agent ∈ s.disk.directories))
  if exists? then pure ()
  else do
    Prog.durable .external
      (Server.onDisk fun d => { d with directories := agent :: d.directories })
    syncDirectory

/-- The receipt that a put signs. -/
def newReceipt (agent hash kind : String) (bytes : Bytes) (received until_ : Nat) : SignedReceipt :=
  sign P ⟨receiptFormat, cfg.keyId, agent, kind, hash, bytes.length, received, until_⟩ cfg.key

/-- The part of `put_inner` that publishes a new object and its receipt. -/
def publish (agent hash kind : String) (bytes : Bytes) (received : Nat) : Op SignedReceipt := do
  directory agent
  writeNew (.blob agent hash) bytes
  match checkedAdd received (cfg.retentionSecs * 1000) with
  | none => Prog.fail (.message "보존 시각 초과")
  | some until_ => do
    let receipt := newReceipt P cfg agent hash kind bytes received until_
    writeNew (.receipt agent hash) (P.signedReceipt.encode receipt)
    syncDirectory
    pure receipt

/-- `write_failed`, and then the error. -/
def failWrite {α : Type} (e : Error) : Op α := do
  Prog.modify (Server.onCapacity CapacityState.writeFailed)
  Prog.fail e

/-- The branch of `put_inner` for an object that has a receipt. -/
def putExisting (agent hash kind : String) (bytes : Bytes) : Op SignedReceipt := do
  let existing ← Prog.gets (fun s : Server => s.disk.get P cfg agent hash)
  match existing with
  | .error e => failWrite e
  | .ok (receipt, _) =>
    if receipt.receipt.kind ≠ kind ∨ receipt.receipt.sizeBytes ≠ bytes.length then
      Prog.fail (.message "기존 수신증명 메타데이터와 충돌합니다")
    else do
      Prog.handle syncDirectory failWrite
      pure receipt

/-- The reservation of `put_inner`. -/
def reserveObject (agent : String) (bytes : Bytes) (revocation : Bool) (free : Option Nat) :
    Op Unit :=
  Prog.attempt fun s =>
    let reserved := s.capacity.reserveFor free agent bytes.length revocation
    (reserved.1, { s with capacity := reserved.2 })

/-- The marks that `put_inner` makes for a published object. -/
def markPublished (agent : String) (revocation : Bool) (control : Option (String × Bool)) :
    Op Unit := do
  Prog.modify (Server.onCapacity (CapacityState.markReceipted · agent))
  if revocation then Prog.modify (Server.onCapacity (CapacityState.markRevocationReceipted · agent))
  else pure ()
  match control with
  | none => pure ()
  | some (bundle, _) => Prog.attempt fun s =>
    let noted := s.capacity.noteControl agent bundle
    (noted.1, { s with capacity := noted.2 })

/-- The branch of `put_inner` for an object that is not there yet. -/
def putNew (agent hash kind : String) (bytes : Bytes) (revocation : Bool)
    (control : Option (String × Bool)) (r : Readings) : Op SignedReceipt := do
  reserveObject agent bytes revocation r.free
  let receipt ← Prog.handle (publish P cfg agent hash kind bytes r.received) failWrite
  markPublished agent revocation control
  pure receipt

/-- The bundle that `put_inner` finds a control object to belong to. -/
def controlOf (agent kind : String) (bytes : Bytes) : Result (Option (String × Bool)) :=
  if isControlKind kind then
    (controlIdentity P kind bytes agent cfg.keyId cfg.key.publicHex).map some
  else .ok none

/-- `put_inner`. -/
def putInner (agent hash kind : String) (bytes : Bytes) (revocation : Bool) (r : Readings) :
    Op SignedReceipt := do
  Prog.modify fun s => { s with hashed := bytes :: s.hashed }
  let control ← Prog.ask fun _ => controlOf P cfg agent kind bytes
  Prog.ask fun _ => refuse (revocation && !control.any (·.2)) "취소 전용 예산에 허용되지 않은 객체"
  Prog.ask fun _ => refuse (bytes.length > cfg.maxObjectBytes) "객체 크기가 서버 상한을 초과합니다"
  let hasReceipt ← Prog.gets (fun s : Server => s.disk.has (.receipt agent hash))
  let hasBlob ← Prog.gets (fun s : Server => s.disk.has (.blob agent hash))
  if hasReceipt then putExisting P cfg agent hash kind bytes
  else if hasBlob then failWrite (.capacity "incomplete_existing_object")
  else putNew P cfg agent hash kind bytes revocation control r

/-- `Storage::put`. -/
def put (agent hash kind : String) (bytes : Bytes) (r : Readings) : Op SignedReceipt :=
  putInner P cfg agent hash kind bytes false r

/-- `Storage::put_revocation`. -/
def putRevocation (agent hash : String) (bytes : Bytes) (r : Readings) : Op SignedReceipt :=
  putInner P cfg agent hash "bundle-review" bytes true r

end Put

/-! ## What a directory can become -/

/-- Everything published in `d` is in `d'`, unchanged. -/
structure Disk.Extends (d d' : Disk) : Prop where
  directories : ∀ agent ∈ d.directories, agent ∈ d'.directories
  files : ∀ name file, d.files.lookup name = some file → d'.files.lookup name = some file

theorem Disk.Extends.refl (d : Disk) : d.Extends d := ⟨fun _ h => h, fun _ _ h => h⟩

theorem Disk.Extends.trans {d₁ d₂ d₃ : Disk} (h : d₁.Extends d₂) (h' : d₂.Extends d₃) :
    d₁.Extends d₃ :=
  ⟨fun a ha => h'.directories a (h.directories a ha), fun n f hf => h'.files n f (h.files n f hf)⟩

/-- Everything that is new in `d'` is the object `hash` of `agent`, with content `bytes`, or its
receipt, or a temporary file of theirs, all in the directory of `agent`. -/
structure Disk.Adds (agent hash : String) (bytes : Bytes) (d d' : Disk) : Prop extends
    d.Extends d' where
  nodup : d.directories.Nodup → d'.directories.Nodup
  fresh : ∀ a ∈ d'.directories, a ∈ d.directories ∨ a = agent
  temporaries : ∀ t ∈ d'.temporaries,
    t ∈ d.temporaries ∨ (t = some agent ∧ agent ∈ d'.directories)
  news : ∀ name file, d'.files.lookup name = some file →
    d.files.lookup name = some file ∨
      (agent ∈ d'.directories ∧
        ((name = .blob agent hash ∧ file.bytes = bytes) ∨ name = .receipt agent hash))

theorem Disk.Adds.refl {agent hash : String} {bytes : Bytes} (d : Disk) :
    Disk.Adds agent hash bytes d d :=
  ⟨.refl d, id, fun _ h => .inl h, fun _ h => .inl h, fun _ _ h => .inl h⟩

theorem Disk.Adds.trans {agent hash : String} {bytes : Bytes} {d₁ d₂ d₃ : Disk}
    (h : Disk.Adds agent hash bytes d₁ d₂) (h' : Disk.Adds agent hash bytes d₂ d₃) :
    Disk.Adds agent hash bytes d₁ d₃ := by
  refine ⟨h.toExtends.trans h'.toExtends, fun hnd => h'.nodup (h.nodup hnd), fun a ha => ?_,
    fun t ht => ?_, fun name file hf => ?_⟩
  · exact (h'.fresh a ha).elim (h.fresh a) .inr
  · obtain hold | hnew := h'.temporaries t ht
    · exact (h.temporaries t hold).imp id fun ⟨ht, ha⟩ => ⟨ht, h'.directories agent ha⟩
    · exact .inr hnew
  · obtain hold | hnew := h'.news name file hf
    · exact (h.news name file hold).imp id fun ⟨ha, hn⟩ => ⟨h'.directories agent ha, hn⟩
    · exact .inr hnew

/-- A file that appears under a free name extends the directory. -/
theorem Disk.lookup_write {d : Disk} {name : Name} {file : File} {other : Name} :
    (d.write name file).files.lookup other =
      if other = name then some file else d.files.lookup other := by
  rw [Disk.write]
  split_ifs with h
  · rw [h, AList.lookup_insert]
  · rw [AList.lookup_insert_ne h]

theorem Disk.has_eq_false {d : Disk} {name : Name} :
    d.has name = false ↔ d.files.lookup name = none := by
  simp [Disk.has]

/-- A `write_new` that stopped anywhere: its file may be there, with any number of links. -/
structure Server.Touched (name : Name) (bytes : Bytes) (s s' : Server) : Prop where
  catalog : s'.catalog = s.catalog
  capacity : s'.capacity = s.capacity
  hashed : s'.hashed = s.hashed
  directories : s'.disk.directories = s.disk.directories
  temporaries : ∀ t ∈ s'.disk.temporaries, t ∈ s.disk.temporaries ∨ t = name.parent
  files : s'.disk.files = s.disk.files ∨
    ∃ linked, s'.disk.files = s.disk.files.insert name ⟨bytes, linked⟩

namespace Server.Touched

variable {name : Name} {bytes : Bytes} {s s' : Server}

theorem refl : Server.Touched name bytes s s :=
  ⟨rfl, rfl, rfl, rfl, fun _ h => .inl h, .inl rfl⟩

theorem setTemporaries (h : Server.Touched name bytes s s') {l : List (Option String)}
    (hl : ∀ t ∈ l, t ∈ s.disk.temporaries ∨ t = name.parent) :
    Server.Touched name bytes s (s'.onDisk fun d => { d with temporaries := l }) :=
  ⟨h.catalog, h.capacity, h.hashed, h.directories, hl, h.files⟩

theorem write (h : Server.Touched name bytes s s') (linked : Bool) :
    Server.Touched name bytes s (s'.onDisk (Disk.write name ⟨bytes, linked⟩)) := by
  refine ⟨h.catalog, h.capacity, h.hashed, h.directories, h.temporaries, .inr ⟨linked, ?_⟩⟩
  show s'.disk.files.insert name ⟨bytes, linked⟩ = _
  obtain hsame | ⟨l, hnew⟩ := h.files
  · rw [hsame]
  · rw [hnew, AList.insert_insert]

theorem unlink (h : Server.Touched name bytes s s') :
    Server.Touched name bytes s (s'.onDisk (Disk.unlink name bytes s.disk.temporaries)) := by
  unfold Server.onDisk Disk.unlink
  split
  · exact (h.write false).setTemporaries fun _ ht => .inl ht
  · exact h.setTemporaries fun _ ht => .inl ht

theorem extends_ (h : Server.Touched name bytes s s') (hfree : s.disk.has name = false) :
    s.disk.Extends s'.disk := by
  refine ⟨fun a ha => h.directories ▸ ha, fun n f hf => ?_⟩
  obtain hsame | ⟨linked, hnew⟩ := h.files
  · rw [hsame]; exact hf
  · rw [hnew, AList.lookup_insert_ne]
    · exact hf
    · rintro rfl
      rw [Disk.has_eq_false.1 hfree] at hf
      cases hf

theorem news (h : Server.Touched name bytes s s') (n : Name) (f : File)
    (hf : s'.disk.files.lookup n = some f) :
    s.disk.files.lookup n = some f ∨ n = name ∧ f.bytes = bytes := by
  obtain hsame | ⟨linked, hnew⟩ := h.files
  · rw [hsame] at hf; exact .inl hf
  · rw [hnew] at hf
    by_cases hn : n = name
    · subst hn
      rw [AList.lookup_insert] at hf
      cases hf
      exact .inr ⟨rfl, rfl⟩
    · rw [AList.lookup_insert_ne hn] at hf
      exact .inl hf

end Server.Touched

/-- What `write_new` can do when the name is free. -/
theorem writeNew_sat {name : Name} {bytes : Bytes} {s : Server} :
    (writeNew name bytes).Sat s
      (fun _ s' => s' = s.onDisk (Disk.write name ⟨bytes, false⟩))
      (Server.Touched name bytes s) (Server.Touched name bytes s) := by
  -- The clean-up after an error keeps what was touched.
  have hclean : ∀ s₁, Server.Touched name bytes s s₁ → ∀ e, Prog.Sat (do
        Prog.handle (Prog.durable .external
          (Server.onDisk (Disk.unlink name bytes s.disk.temporaries))) (fun _ => pure ())
        Prog.fail e : Op Unit) s₁ (fun _ s' => s' = s.onDisk (Disk.write name ⟨bytes, false⟩))
      (Server.Touched name bytes s) (Server.Touched name bytes s) := by
    intro s₁ h e
    refine Prog.Sat.bind (Prog.Sat.handle ?_)
    exact Prog.Sat.durable (Prog.Sat.fail h.unlink)
      (fun _ => Prog.Sat.pure (Prog.Sat.fail h.unlink))
      (fun _ => Prog.Sat.pure (Prog.Sat.fail h)) h
  have h₀ : Server.Touched name bytes s s := .refl
  have h₁ : Server.Touched name bytes s (s.onDisk fun d =>
      { d with temporaries := name.parent :: s.disk.temporaries }) :=
    h₀.setTemporaries fun t ht => (List.mem_cons.1 ht).symm
  have h₂ := h₁.write true
  have h₃ := h₂.unlink
  refine Prog.Sat.bind (Prog.Sat.gets (Prog.Sat.bind (Prog.Sat.durable ?_ h₁ h₀ h₀)))
  refine Prog.Sat.handle ?_
  refine Prog.Sat.bind (Prog.Sat.durable ?_ (hclean _ h₂) (hclean _ h₁) h₁)
  refine Prog.Sat.bind (Prog.Sat.durable ?_ (hclean _ h₃) (hclean _ h₂) h₂)
  refine Prog.Sat.durable ?_ (hclean _ h₃) (hclean _ h₃) h₃
  -- The last state is the first with the file under its name.
  simp only [Server.onDisk, id_eq, Disk.unlink, Disk.has, Disk.write, AList.lookup_insert,
    Option.isSome_some, if_true, AList.insert_insert]

/-! ## What a reader finds -/

section Stored

variable {P : Primitives} {cfg : ServerConfig} {d d' : Disk} {maximum : Nat} {agent hash : String}
  {receipt : SignedReceipt} {bytes : Bytes}

/-- A reader finds the object `hash` of `agent`, with this receipt and content. -/
structure Stored (P : Primitives) (cfg : ServerConfig) (d : Disk) (maximum : Nat)
    (agent hash : String) (receipt : SignedReceipt) (bytes : Bytes) : Prop where
  directory : agent ∈ d.directories
  file : ∃ raw, d.files.lookup (.receipt agent hash) = some ⟨raw, false⟩ ∧
    raw.length ≤ maxReceiptBytes ∧ P.signedReceipt.decode raw = some receipt
  verified : verifyReceipt P receipt cfg.key.publicHex = .ok ()
  agentId : receipt.receipt.agentId = agent
  sha256 : receipt.receipt.sha256 = hash
  keyId : receipt.receipt.keyId = cfg.keyId
  blob : d.files.lookup (.blob agent hash) = some ⟨bytes, false⟩
  length : bytes.length ≤ maximum
  size : receipt.receipt.sizeBytes = bytes.length
  hash : hash = P.sha256 bytes

theorem readStorageFile_ok_iff {file : Option File} :
    readStorageFile file maximum = .ok bytes ↔
      file = some ⟨bytes, false⟩ ∧ bytes.length ≤ maximum := by
  rcases file with _ | ⟨raw, linked⟩
  · simp [readStorageFile]
  · simp only [readStorageFile, Result.check_ok_iff, refuse_ok_iff, Except.ok.injEq,
      decide_eq_false_iff_not, not_lt, Option.some.injEq, File.mk.injEq, gt_iff_lt]
    constructor
    · rintro ⟨hl, hlen, rfl⟩
      exact ⟨⟨rfl, hl⟩, hlen⟩
    · rintro ⟨⟨rfl, hl⟩, hlen⟩
      exact ⟨hl, hlen, rfl⟩

theorem fromSlice_ok_iff {α : Type} {c : Codec α} {a : α} :
    fromSlice c bytes = .ok a ↔ c.decode bytes = some a := by
  unfold fromSlice
  cases c.decode bytes <;> simp

theorem Disk.getWithin_ok_iff :
    d.getWithin P cfg maximum agent hash = .ok (receipt, bytes) ↔
      Stored P cfg d maximum agent hash receipt bytes := by
  have hdir : d.validatePrivateDirectory agent = .ok () ↔ agent ∈ d.directories := by
    unfold Disk.validatePrivateDirectory
    split <;> simp_all
  simp only [Disk.getWithin, Result.bind_ok_iff, exists_unit_iff, hdir, readStorageFile_ok_iff,
    fromSlice_ok_iff, refuse_ok_iff, verifyBody_ok_iff, Bool.or_eq_false_iff, bne_eq_false_iff_eq,
    Except.ok.injEq, Prod.mk.injEq]
  constructor
  · rintro ⟨h1, raw, ⟨h2, h3⟩, r, h4, h5, ⟨⟨h6, h7⟩, h8⟩, b, ⟨h9, h10⟩, ⟨h11, h12⟩, rfl, rfl⟩
    exact ⟨h1, ⟨raw, h2, h3, h4⟩, h5, h6, h7, h8, h9, h10, h11, h7.symm.trans h12⟩
  · rintro ⟨h1, ⟨raw, h2, h3, h4⟩, h5, h6, h7, h8, h9, h10, h11, h12⟩
    exact ⟨h1, raw, ⟨h2, h3⟩, receipt, h4, h5, ⟨⟨h6, h7⟩, h8⟩, bytes, ⟨h9, h10⟩,
      ⟨h11, h7.trans h12⟩, rfl, rfl⟩

theorem Disk.get_ok_iff :
    d.get P cfg agent hash = .ok (receipt, bytes) ↔
      Stored P cfg d cfg.maxObjectBytes agent hash receipt bytes := Disk.getWithin_ok_iff

/-- What a reader found it finds again in every extension of the directory. -/
theorem Stored.mono (h : Stored P cfg d maximum agent hash receipt bytes) (hext : d.Extends d') :
    Stored P cfg d' maximum agent hash receipt bytes := by
  obtain ⟨raw, hraw, hlen, hdec⟩ := h.file
  exact { h with
    directory := hext.directories agent h.directory
    file := ⟨raw, hext.files _ _ hraw, hlen, hdec⟩
    blob := hext.files _ _ h.blob }

theorem Disk.get_mono (hext : d.Extends d') {x : SignedReceipt × Bytes}
    (h : d.get P cfg agent hash = .ok x) : d'.get P cfg agent hash = .ok x := by
  obtain ⟨receipt, bytes⟩ := x
  exact Disk.get_ok_iff.2 ((Disk.get_ok_iff.1 h).mono hext)

end Stored

/-! ## What a put can do -/

/-- A publication that stopped anywhere: what is new in the directory belongs to the object, and
nothing else has changed. -/
structure Server.Adds (agent hash : String) (bytes : Bytes) (s s' : Server) : Prop where
  catalog : s'.catalog = s.catalog
  capacity : s'.capacity = s.capacity
  hashed : s'.hashed = s.hashed
  disk : Disk.Adds agent hash bytes s.disk s'.disk

theorem Server.Adds.refl {agent hash : String} {bytes : Bytes} (s : Server) :
    Server.Adds agent hash bytes s s := ⟨rfl, rfl, rfl, .refl _⟩

theorem Server.Adds.trans {agent hash : String} {bytes : Bytes} {s₁ s₂ s₃ : Server}
    (h : Server.Adds agent hash bytes s₁ s₂) (h' : Server.Adds agent hash bytes s₂ s₃) :
    Server.Adds agent hash bytes s₁ s₃ :=
  ⟨h'.catalog.trans h.catalog, h'.capacity.trans h.capacity, h'.hashed.trans h.hashed,
    h.disk.trans h'.disk⟩

/-- Writing the object itself. -/
theorem Server.Touched.adds_blob {agent hash : String} {bytes : Bytes} {s s' : Server}
    (h : Server.Touched (.blob agent hash) bytes s s')
    (hfree : s.disk.has (.blob agent hash) = false) (hdir : agent ∈ s.disk.directories) :
    Server.Adds agent hash bytes s s' := by
  have hdir' : agent ∈ s'.disk.directories := by rw [h.directories]; exact hdir
  refine ⟨h.catalog, h.capacity, h.hashed, h.extends_ hfree, fun hnd => h.directories ▸ hnd,
    fun a ha => .inl (h.directories ▸ ha), fun t ht => ?_, fun n f hf => ?_⟩
  · exact (h.temporaries t ht).imp id fun heq => ⟨heq, hdir'⟩
  · exact (h.news n f hf).imp id fun hnew => ⟨hdir', .inl hnew⟩

/-- Writing the object's receipt. -/
theorem Server.Touched.adds_receipt {agent hash : String} {bytes raw : Bytes} {s s' : Server}
    (h : Server.Touched (.receipt agent hash) raw s s')
    (hfree : s.disk.has (.receipt agent hash) = false) (hdir : agent ∈ s.disk.directories) :
    Server.Adds agent hash bytes s s' := by
  have hdir' : agent ∈ s'.disk.directories := by rw [h.directories]; exact hdir
  refine ⟨h.catalog, h.capacity, h.hashed, h.extends_ hfree, fun hnd => h.directories ▸ hnd,
    fun a ha => .inl (h.directories ▸ ha), fun t ht => ?_, fun n f hf => ?_⟩
  · exact (h.temporaries t ht).imp id fun heq => ⟨heq, hdir'⟩
  · exact (h.news n f hf).imp id fun hnew => ⟨hdir', .inr hnew.1⟩

/-- The directory with a directory for the agent. -/
def Disk.withDirectory (agent : String) (d : Disk) : Disk :=
  if agent ∈ d.directories then d else { d with directories := agent :: d.directories }

/-- The directory with an object and its receipt published. -/
def Disk.published (agent hash : String) (bytes raw : Bytes) (d : Disk) : Disk :=
  ((d.withDirectory agent).write (.blob agent hash) ⟨bytes, false⟩).write (.receipt agent hash)
    ⟨raw, false⟩

theorem Disk.withDirectory_files (agent : String) (d : Disk) :
    (d.withDirectory agent).files = d.files := by
  unfold Disk.withDirectory
  split <;> rfl

theorem Disk.mem_withDirectory {agent a : String} {d : Disk} :
    a ∈ (d.withDirectory agent).directories ↔ a = agent ∨ a ∈ d.directories := by
  unfold Disk.withDirectory
  split
  · next h => exact ⟨.inr, fun h' => h'.elim (fun h' => h' ▸ h) id⟩
  · exact List.mem_cons

theorem Disk.withDirectory_temporaries (agent : String) (d : Disk) :
    (d.withDirectory agent).temporaries = d.temporaries := by
  unfold Disk.withDirectory
  split <;> rfl

theorem Disk.withDirectory_nodup {agent : String} {d : Disk} (h : d.directories.Nodup) :
    (d.withDirectory agent).directories.Nodup := by
  unfold Disk.withDirectory
  split
  · exact h
  · next hnew => exact List.nodup_cons.2 ⟨hnew, h⟩

theorem Disk.withDirectory_adds (agent hash : String) (bytes : Bytes) (d : Disk) :
    Disk.Adds agent hash bytes d (d.withDirectory agent) := by
  refine ⟨⟨fun a ha => Disk.mem_withDirectory.2 (.inr ha), fun n f hf => ?_⟩,
    Disk.withDirectory_nodup, fun a ha => (Disk.mem_withDirectory.1 ha).symm, fun t ht => .inl ?_,
    fun n f hf => .inl ?_⟩
  · rw [Disk.withDirectory_files]; exact hf
  · rw [Disk.withDirectory_temporaries] at ht; exact ht
  · rw [Disk.withDirectory_files] at hf; exact hf

/-- `Storage::directory` makes the directory, or has left it as it was. -/
theorem directory_sat {agent hash : String} {bytes : Bytes} {s : Server} :
    (directory agent).Sat s (fun _ s' => s' = s.onDisk (Disk.withDirectory agent))
      (Server.Adds agent hash bytes s) (Server.Adds agent hash bytes s) := by
  have hself : Server.Adds agent hash bytes s s := .refl s
  have hnew : Server.Adds agent hash bytes s (s.onDisk (Disk.withDirectory agent)) :=
    ⟨rfl, rfl, rfl, Disk.withDirectory_adds agent hash bytes s.disk⟩
  refine Prog.Sat.bind (Prog.Sat.gets (Prog.Sat.ite (fun h => ?_) (fun h => ?_)))
  · refine Prog.Sat.pure ?_
    rw [Server.onDisk, Disk.withDirectory, if_pos (by simpa using h)]
  · have heq : (s.onDisk fun d => { d with directories := agent :: d.directories }) =
        s.onDisk (Disk.withDirectory agent) := by
      rw [Server.onDisk, Server.onDisk, Disk.withDirectory, if_neg (by simpa using h)]
    refine Prog.Sat.bind (Prog.Sat.durable ?_ (heq ▸ hnew) hself hself)
    rw [heq]
    exact Prog.Sat.durable rfl hnew hnew hnew

section PutSat

variable {P : Primitives} {cfg : ServerConfig} {agent hash kind : String} {bytes : Bytes}

/-- The receipt that a publication at a given time signs, when the retention ends in time. -/
def Published (P : Primitives) (cfg : ServerConfig) (agent hash kind : String) (bytes : Bytes)
    (received : Nat) (receipt : SignedReceipt) : Prop :=
  ∃ until_, checkedAdd received (cfg.retentionSecs * 1000) = some until_ ∧
    receipt = newReceipt P cfg agent hash kind bytes received until_

/-- A publication of an object of which nothing is there yet. -/
theorem publish_sat {received : Nat} {s : Server} (hblob : s.disk.has (.blob agent hash) = false)
    (hreceipt : s.disk.has (.receipt agent hash) = false) :
    (publish P cfg agent hash kind bytes received).Sat s
      (fun receipt s' => Published P cfg agent hash kind bytes received receipt ∧
        s' = s.onDisk (Disk.published agent hash bytes (P.signedReceipt.encode receipt)) ∧
        Server.Adds agent hash bytes s s')
      (Server.Adds agent hash bytes s) (Server.Adds agent hash bytes s) := by
  -- The states between the three parts.
  set s₁ := s.onDisk (Disk.withDirectory agent) with hs₁
  set s₂ := s₁.onDisk (Disk.write (.blob agent hash) ⟨bytes, false⟩) with hs₂
  have h₁ : Server.Adds agent hash bytes s s₁ :=
    ⟨rfl, rfl, rfl, Disk.withDirectory_adds agent hash bytes s.disk⟩
  have hdir₁ : agent ∈ s₁.disk.directories := Disk.mem_withDirectory.2 (.inl rfl)
  have hblob₁ : s₁.disk.has (.blob agent hash) = false := by
    rw [hs₁, Server.onDisk, Disk.has, Disk.withDirectory_files]; exact hblob
  have h₁₂ : Server.Touched (.blob agent hash) bytes s₁ s₂ :=
    Server.Touched.refl.write false
  have h₂ : Server.Adds agent hash bytes s s₂ := h₁.trans (h₁₂.adds_blob hblob₁ hdir₁)
  have hreceipt₂ : s₂.disk.has (.receipt agent hash) = false := by
    rw [Disk.has_eq_false, hs₂, Server.onDisk, Disk.lookup_write, if_neg (by simp), hs₁,
      Server.onDisk, Disk.withDirectory_files]
    exact Disk.has_eq_false.1 hreceipt
  refine Prog.Sat.bind (directory_sat.mono (fun _ s' hs' => ?_) (fun _ h => h) (fun _ h => h))
  subst hs'
  refine Prog.Sat.bind (writeNew_sat.mono (fun _ s' hs' => ?_)
    (fun _ h => h₁.trans (h.adds_blob hblob₁ hdir₁)) (fun _ h => h₁.trans (h.adds_blob hblob₁ hdir₁)))
  subst hs'
  rcases hadd : checkedAdd received (cfg.retentionSecs * 1000) with _ | until_
  · exact Prog.Sat.fail h₂
  · refine Prog.Sat.bind (writeNew_sat.mono (fun _ s' hs' => ?_)
      (fun _ h => h₂.trans (h.adds_receipt hreceipt₂ hdir₁))
      (fun _ h => h₂.trans (h.adds_receipt hreceipt₂ hdir₁)))
    have h₃ : Server.Adds agent hash bytes s s' := by
      subst hs'
      exact h₂.trans ((Server.Touched.refl.write false).adds_receipt hreceipt₂ hdir₁)
    refine Prog.Sat.bind (Prog.Sat.durable (Prog.Sat.pure ⟨⟨until_, hadd, rfl⟩, ?_, h₃⟩) h₃ h₃ h₃)
    subst hs'
    rfl

/-- A put that stopped anywhere without an answer: what is new in the directory belongs to the
object, whose agent is tracked and whose size is within the limit. -/
structure PutStopped (cfg : ServerConfig) (agent hash : String) (bytes : Bytes) (s s' : Server) :
    Prop where
  catalog : s'.catalog = s.catalog
  hashed : s'.hashed = bytes :: s.hashed
  disk : Disk.Adds agent hash bytes s.disk s'.disk
  home : s'.disk = s.disk ∨ (agent ∈ s.capacity.agents ∧ bytes.length ≤ cfg.maxObjectBytes)
  agents : ∀ a, a ∈ s'.capacity.agents ↔ a ∈ s.capacity.agents

/-- A put that was refused: it changed nothing but the count of rejections, or it has marked the
storage as inconsistent. -/
structure PutRefused (cfg : ServerConfig) (agent hash : String) (bytes : Bytes) (s s' : Server) :
    Prop extends PutStopped cfg agent hash bytes s s' where
  books : (s'.disk = s.disk ∧ s'.capacity = { s.capacity with
      admissionRejections := s'.capacity.admissionRejections }) ∨
    s'.capacity.storageConsistent = false

/-- The counters after a put of a new object. -/
def CapacityState.booked (st : CapacityState) (agent : String) (bytes : Nat) (revocation : Bool)
    (control : Option (String × Bool)) : CapacityState :=
  let charged := (st.charged agent bytes (revocation && st.revocationEnabled)).markReceipted agent
  let marked := if revocation then charged.markRevocationReceipted agent else charged
  match control with
  | none => marked
  | some (bundle, _) => marked.noted agent bundle

/-- A put of an object that was there, with the same kind and size: it changed nothing. -/
structure PutFound (P : Primitives) (cfg : ServerConfig) (agent hash kind : String) (bytes : Bytes)
    (s : Server) (receipt : SignedReceipt) (s' : Server) : Prop where
  state : s' = { s with hashed := bytes :: s.hashed }
  found : ∃ body, s.disk.get P cfg agent hash = .ok (receipt, body)
  kind : receipt.receipt.kind = kind
  size : receipt.receipt.sizeBytes = bytes.length

/-- A put of a new object: it was admitted, and is published and counted. -/
structure PutAdded (P : Primitives) (cfg : ServerConfig) (agent hash kind : String) (bytes : Bytes)
    (revocation : Bool) (r : Readings) (s : Server) (receipt : SignedReceipt) (s' : Server) :
    Prop where
  size : bytes.length ≤ cfg.maxObjectBytes
  noBlob : s.disk.has (.blob agent hash) = false
  noReceipt : s.disk.has (.receipt agent hash) = false
  admitted : ∃ current, s.capacity.Admitted r.free agent bytes.length
    (revocation && s.capacity.revocationEnabled) current
  signed : Published P cfg agent hash kind bytes r.received receipt
  state : ∃ control, controlOf P cfg agent kind bytes = .ok control ∧
    (revocation = true → control.any (·.2)) ∧
    (∀ c ∈ control, s.capacity.OwnerRoom (agent, c.1)) ∧
    s' = { s with
      disk := s.disk.published agent hash bytes (P.signedReceipt.encode receipt)
      capacity := s.capacity.booked agent bytes.length revocation control
      hashed := bytes :: s.hashed }

/-- `write_failed` ends in a refusal. -/
theorem failWrite_sat {α : Type} {e : Error} {s s₁ : Server} {Q : α → Server → Prop}
    {K : Server → Prop} (h : PutStopped cfg agent hash bytes s s₁) :
    (failWrite e : Op α).Sat s₁ Q (PutRefused cfg agent hash bytes s) K :=
  Prog.Sat.bind (Prog.Sat.modify (Prog.Sat.fail
    ⟨⟨h.catalog, h.hashed, h.disk, h.home, h.agents⟩, .inr rfl⟩))

/-- The marks of a published object, when the table of owners has room; else the storage is marked
as inconsistent. -/
theorem markPublished_sat {revocation : Bool} {control : Option (String × Bool)} {s : Server}
    {K : Server → Prop} :
    (markPublished agent revocation control).Sat s
      (fun _ s' => (∀ c ∈ control, s.capacity.OwnerRoom (agent, c.1)) ∧
        s' = s.onCapacity fun st =>
          let charged := st.markReceipted agent
          let marked := if revocation then charged.markRevocationReceipted agent else charged
          match control with
          | none => marked
          | some (bundle, _) => marked.noted agent bundle)
      (fun s' => ∃ st, s' = s.onCapacity (fun _ => st) ∧ st.storageConsistent = false ∧
        ∀ a, a ∈ st.agents ↔ a ∈ s.capacity.agents) K := by
  refine Prog.Sat.bind (Prog.Sat.modify ?_)
  -- The marks leave the owners as they are, and the last part counts one more.
  have hrest : ∀ st : CapacityState, st.bundleControlOwners = s.capacity.bundleControlOwners →
      (∀ a, a ∈ st.agents ↔ a ∈ s.capacity.agents) → (match control with
      | none => pure ()
      | some (bundle, _) => Prog.attempt fun s : Server =>
        ((s.capacity.noteControl agent bundle).1,
          { s with capacity := (s.capacity.noteControl agent bundle).2 }) : Op Unit).Sat
        (s.onCapacity fun _ => st)
        (fun _ s' => (∀ c ∈ control, s.capacity.OwnerRoom (agent, c.1)) ∧
          s' = s.onCapacity fun _ => match control with
          | none => st
          | some (bundle, _) => st.noted agent bundle)
        (fun s' => ∃ st, s' = s.onCapacity (fun _ => st) ∧ st.storageConsistent = false ∧
          ∀ a, a ∈ st.agents ↔ a ∈ s.capacity.agents) K := by
    intro st hst hagents
    rcases control with _ | ⟨bundle, revoked⟩
    · exact Prog.Sat.pure ⟨by simp, rfl⟩
    · obtain ⟨-, e, he⟩ | ⟨hroom, hok⟩ := st.noteControl_cases agent bundle
      · refine Prog.Sat.attempt (fun a ha => ?_) (fun e' _ => ⟨_, rfl, ?_⟩)
        · change (st.noteControl agent bundle).1 = _ at ha
          rw [he] at ha
          cases ha
        · show (st.noteControl agent bundle).2.storageConsistent = false ∧
            ∀ a, a ∈ (st.noteControl agent bundle).2.agents ↔ _
          rw [he]
          exact ⟨rfl, hagents⟩
      · refine Prog.Sat.attempt (fun a ha => ⟨fun c hc => ?_, ?_⟩) (fun e' he' => ?_)
        · cases hc
          unfold CapacityState.OwnerRoom at hroom ⊢
          rwa [hst] at hroom
        · show Server.onCapacity (fun _ => (st.noteControl agent bundle).2) s = _
          rw [hok]
        · change (st.noteControl agent bundle).1 = _ at he'
          rw [hok] at he'
          cases he'
  cases revocation with
  | false =>
    exact Prog.Sat.bind (Prog.Sat.pure (hrest (s.capacity.markReceipted agent) rfl
      (s.capacity.mem_markReceipted agent)))
  | true =>
    refine Prog.Sat.bind (Prog.Sat.modify
      (hrest ((s.capacity.markReceipted agent).markRevocationReceipted agent) ?_ fun a => ?_))
    · unfold CapacityState.markRevocationReceipted
      split <;> rfl
    · rw [CapacityState.markRevocationReceipted_agents, CapacityState.mem_markReceipted]

/-- A reservation charges the object, or counts one more rejection. -/
theorem reserveObject_sat {revocation : Bool} {free : Option Nat} {s : Server}
    {K : Server → Prop} :
    (reserveObject agent bytes revocation free).Sat s
      (fun _ s' => (∃ current, s.capacity.Admitted free agent bytes.length
          (revocation && s.capacity.revocationEnabled) current) ∧
        s' = s.onCapacity fun st =>
          st.charged agent bytes.length (revocation && st.revocationEnabled))
      (fun s' => s' = s.onCapacity fun st =>
        { st with admissionRejections := saturatingAdd st.admissionRejections 1 }) K := by
  obtain ⟨e, herr⟩ | ⟨current, hadm, heq⟩ :=
    s.capacity.reserveFor_cases free agent bytes.length revocation
  · refine Prog.Sat.attempt (fun _ hok => ?_) (fun e' _ => ?_)
    · simp only [herr, reduceCtorEq] at hok
    · simp only [herr]
      rfl
  · refine Prog.Sat.attempt (fun _ _ => ?_) (fun e' he => ?_)
    · refine ⟨⟨current, hadm⟩, ?_⟩
      simp only [heq]
      rfl
    · simp only [heq, reduceCtorEq] at he

/-- What a put can do. -/
theorem putInner_sat {revocation : Bool} {r : Readings} {s : Server} :
    (putInner P cfg agent hash kind bytes revocation r).Sat s
      (fun receipt s' => PutFound P cfg agent hash kind bytes s receipt s' ∨
        PutAdded P cfg agent hash kind bytes revocation r s receipt s')
      (PutRefused cfg agent hash bytes s) (PutStopped cfg agent hash bytes s) := by
  set s₀ : Server := { s with hashed := bytes :: s.hashed } with hs₀
  have hstop : PutStopped cfg agent hash bytes s s₀ :=
    ⟨rfl, rfl, .refl _, .inl rfl, fun _ => Iff.rfl⟩
  have href : PutRefused cfg agent hash bytes s s₀ := ⟨hstop, .inl ⟨rfl, rfl⟩⟩
  refine Prog.Sat.bind (Prog.Sat.modify (Prog.Sat.bind (Prog.Sat.ask (fun control hcontrol => ?_)
    href)))
  refine Prog.Sat.bind (Prog.Sat.ask (fun _ hallowed => ?_) href)
  rw [refuse_ok_iff] at hallowed
  refine Prog.Sat.bind (Prog.Sat.ask (fun _ hsize => ?_) href)
  rw [refuse_ok_iff, decide_eq_false_iff_not, not_lt] at hsize
  refine Prog.Sat.bind (Prog.Sat.gets (Prog.Sat.bind (Prog.Sat.gets (Prog.Sat.ite
    (fun hreceipt => ?_) (fun hreceipt => ?_)))))
  · -- A receipt is there: the object is read back and compared.
    refine Prog.Sat.bind (Prog.Sat.gets ?_)
    rcases hget : s₀.disk.get P cfg agent hash with e | ⟨existing, body⟩
    · exact failWrite_sat hstop
    · refine Prog.Sat.ite (fun _ => Prog.Sat.fail href) (fun hsame => ?_)
      rw [not_or, not_not, not_not] at hsame
      refine Prog.Sat.bind (Prog.Sat.handle (Prog.Sat.durable ?_ (fun _ => failWrite_sat hstop)
        (fun _ => failWrite_sat hstop) hstop))
      exact Prog.Sat.pure (.inl ⟨rfl, ⟨body, hget⟩, hsame.1, hsame.2⟩)
  · refine Prog.Sat.ite (fun _ => failWrite_sat hstop) (fun hblob => ?_)
    rw [Bool.not_eq_true] at hreceipt hblob
    -- Nothing is there: the object is admitted, published and counted.
    refine Prog.Sat.bind (reserveObject_sat.mono ?_ ?_ (fun _ h => h))
    · rintro - s₁ ⟨hadm, hs₁⟩
      have hdisk₁ : s₁.disk = s.disk := by rw [hs₁]; rfl
      have hstopped : ∀ s', Server.Adds agent hash bytes s₁ s' →
          PutStopped cfg agent hash bytes s s' := by
        intro s' h
        obtain ⟨current, hcurrent⟩ := hadm
        refine ⟨h.catalog.trans (by rw [hs₁]; rfl), h.hashed.trans (by rw [hs₁]; rfl), ?_,
          .inr ⟨hcurrent.mem, hsize⟩, fun a => ?_⟩
        · rw [← hdisk₁]
          exact h.disk
        · rw [h.capacity, hs₁]
          exact CapacityState.mem_charged hcurrent.mem _ _ a
      refine Prog.Sat.bind (Prog.Sat.handle ((publish_sat (hdisk₁ ▸ hblob)
        (hdisk₁ ▸ hreceipt)).mono ?_ (fun s' h e => failWrite_sat (hstopped s' h)) hstopped))
      rintro receipt s₂ ⟨hpub, hs₂, hadds⟩
      refine Prog.Sat.bind (markPublished_sat.mono ?_ ?_ (fun _ h => h))
      · rintro - s₃ ⟨hroom, hs₃⟩
        have howners : s₂.capacity.bundleControlOwners = s.capacity.bundleControlOwners := by
          rw [hs₂, hs₁]
          simp only [Server.onDisk, Server.onCapacity, CapacityState.charged]
          split <;> rfl
        refine Prog.Sat.pure (.inr ⟨hsize, hblob, hreceipt, hadm, hpub, control, hcontrol, ?_, ?_, ?_⟩)
        · intro hrev
          simpa [hrev] using hallowed
        · intro c hc
          have := hroom c hc
          unfold CapacityState.OwnerRoom at this ⊢
          rwa [howners] at this
        · rw [hs₃, hs₂, hs₁]
          rfl
      · rintro s₃ ⟨st, rfl, hst, hagents⟩
        have h := hstopped s₂ hadds
        exact ⟨⟨h.catalog, h.hashed, h.disk, h.home, fun a => (hagents a).trans (h.agents a)⟩,
          .inr hst⟩
    · rintro s₁ rfl
      exact ⟨⟨rfl, rfl, .refl _, .inl rfl, fun _ => Iff.rfl⟩, .inl ⟨rfl, rfl⟩⟩

/-! ## Puts in which no write fails -/

/-- What a put asks of the server, of its content and of the quota to be accepted. -/
structure Acceptable (P : Primitives) (cfg : ServerConfig) (agent hash kind : String) (bytes : Bytes)
    (revocation : Bool) (r : Readings) (s : Server) : Prop where
  control : ∃ control, controlOf P cfg agent kind bytes = .ok control ∧
    (revocation = true → control.any (·.2))
  size : bytes.length ≤ cfg.maxObjectBytes
  same : ∀ receipt body, s.disk.get P cfg agent hash = .ok (receipt, body) →
    receipt.receipt.kind = kind ∧ receipt.receipt.sizeBytes = bytes.length
  admitted : s.disk.has (.receipt agent hash) = false →
    ∃ st, s.capacity.reserveFor r.free agent bytes.length revocation = (.ok (), st)

/-- A put for which no write fails and no limit on what is tracked is met: whatever is stored under
the name can be read, the retention ends within a `u64`, and the table of owners has room. -/
structure Quiet (P : Primitives) (cfg : ServerConfig) (agent hash kind : String) (bytes : Bytes)
    (r : Readings) (s : Server) : Prop where
  readable : s.disk.has (.receipt agent hash) → ∃ x, s.disk.get P cfg agent hash = .ok x
  whole : s.disk.has (.blob agent hash) → s.disk.has (.receipt agent hash)
  retention : r.received + cfg.retentionSecs * 1000 ≤ u64Max
  room : ∀ c, controlOf P cfg agent kind bytes = .ok (some c) →
    s.capacity.OwnerRoom (agent, c.1)

theorem writeNew_calm {name : Name} {s : Server} :
    (writeNew name bytes).Calm s (fun _ _ => True) (fun _ => False) :=
  Prog.Calm.bind (Prog.Calm.gets (Prog.Calm.bind (Prog.Calm.durable (Prog.Calm.handle
    (Prog.Calm.bind (Prog.Calm.durable (Prog.Calm.bind (Prog.Calm.durable
      (Prog.Calm.durable trivial)))))))))

theorem directory_calm {s : Server} :
    (directory agent).Calm s (fun _ _ => True) (fun _ => False) :=
  Prog.Calm.bind (Prog.Calm.gets (Prog.Calm.ite (fun _ => Prog.Calm.pure trivial)
    (fun _ => Prog.Calm.bind (Prog.Calm.durable (Prog.Calm.durable trivial)))))

/-- A publication in which no write fails. -/
theorem publish_calm {received : Nat} {s : Server}
    (hretention : received + cfg.retentionSecs * 1000 ≤ u64Max) :
    (publish P cfg agent hash kind bytes received).Calm s (fun _ _ => True) (fun _ => False) := by
  have hadd : checkedAdd received (cfg.retentionSecs * 1000) =
      some (received + cfg.retentionSecs * 1000) := if_pos hretention
  refine Prog.Calm.bind (directory_calm.mono (fun _ s₁ _ => ?_) (fun _ h => h))
  refine Prog.Calm.bind (writeNew_calm.mono (fun _ s₂ _ => ?_) (fun _ h => h))
  rw [hadd]
  refine Prog.Calm.bind (writeNew_calm.mono (fun _ s₃ _ => ?_) (fun _ h => h))
  exact Prog.Calm.bind (Prog.Calm.durable (Prog.Calm.pure trivial))

/-- The marks of a published object, while there is room for its bundle. -/
theorem markPublished_calm {revocation : Bool} {control : Option (String × Bool)} {s : Server}
    (hroom : ∀ c ∈ control, s.capacity.OwnerRoom (agent, c.1)) :
    (markPublished agent revocation control).Calm s (fun _ _ => True) (fun _ => False) := by
  -- The marks leave the owners as they are, and the last part finds room.
  have hnote : ∀ (s₁ : Server) (c : String × Bool), c ∈ control →
      s₁.capacity.bundleControlOwners = s.capacity.bundleControlOwners →
        ∃ st, s₁.capacity.noteControl agent c.1 = (.ok (), st) := by
    intro s₁ c hc hs₁
    obtain ⟨hfull, -⟩ | ⟨-, hok⟩ := s₁.capacity.noteControl_cases agent c.1
    · have hone := hroom c hc
      unfold CapacityState.OwnerRoom at hone hfull
      rw [hs₁] at hfull
      exact (hfull hone).elim
    · exact ⟨_, hok⟩
  have howners : ((s.capacity.markReceipted agent).markRevocationReceipted agent).bundleControlOwners
      = s.capacity.bundleControlOwners := by
    unfold CapacityState.markRevocationReceipted
    split <;> rfl
  refine Prog.Calm.bind (Prog.Calm.modify ?_)
  cases revocation with
  | false =>
    refine Prog.Calm.bind (Prog.Calm.pure ?_)
    cases control with
    | none => exact Prog.Calm.pure trivial
    | some c =>
      refine Prog.Calm.attempt (fun _ _ => trivial) (fun e he => ?_)
      obtain ⟨st, hst⟩ := hnote (s.onCapacity (·.markReceipted agent)) c rfl rfl
      dsimp only at he
      rw [hst] at he
      cases he
  | true =>
    refine Prog.Calm.bind (Prog.Calm.modify ?_)
    cases control with
    | none => exact Prog.Calm.pure trivial
    | some c =>
      refine Prog.Calm.attempt (fun _ _ => trivial) (fun e he => ?_)
      obtain ⟨st, hst⟩ := hnote (Server.onCapacity (·.markRevocationReceipted agent)
        (s.onCapacity (·.markReceipted agent))) c rfl howners
      dsimp only at he
      rw [hst] at he
      cases he

theorem reserveObject_calm {revocation : Bool} {free : Option Nat} {s : Server} :
    (reserveObject agent bytes revocation free).Calm s
      (fun _ _ => True) (fun _ => ∀ st, s.capacity.reserveFor free agent bytes.length revocation ≠
        (.ok (), st)) := by
  refine Prog.Calm.attempt (fun _ _ => trivial) (fun e he st hst => ?_)
  dsimp only at he
  rw [hst] at he
  cases he

/-- A put in which no write fails is answered, or it was not acceptable and has changed nothing but
the count of rejections. -/
theorem putInner_calm {revocation : Bool} {r : Readings} {s : Server}
    (h : Quiet P cfg agent hash kind bytes r s) :
    (putInner P cfg agent hash kind bytes revocation r).Calm s
      (fun receipt s' => PutFound P cfg agent hash kind bytes s receipt s' ∨
        PutAdded P cfg agent hash kind bytes revocation r s receipt s')
      (fun s' => ¬ Acceptable P cfg agent hash kind bytes revocation r s ∧
        s'.disk = s.disk ∧ s'.catalog = s.catalog ∧ s'.hashed = bytes :: s.hashed ∧
        s'.capacity = { s.capacity with admissionRejections := s'.capacity.admissionRejections }) := by
  refine (putInner_sat.calm (?_ : Prog.Calm _ s (fun _ _ => True) (fun s' =>
    ¬ Acceptable P cfg agent hash kind bytes revocation r s ∧ s'.disk = s.disk ∧
      s'.capacity = { s.capacity with
        admissionRejections := s'.capacity.admissionRejections }))).mono (fun _ _ h => h.1)
    (fun s' h => ⟨h.2.1, h.2.2.1, h.1.catalog, h.1.hashed, h.2.2.2⟩)
  refine Prog.Calm.bind (Prog.Calm.modify (Prog.Calm.bind (Prog.Calm.ask (fun control hcontrol => ?_)
    fun e he => ⟨fun ha => ?_, rfl, rfl⟩)))
  rotate_left
  · obtain ⟨c, hc, -⟩ := ha.control
    rw [hc] at he
    cases he
  refine Prog.Calm.bind (Prog.Calm.ask (fun _ hallowed => ?_) fun e he => ⟨fun ha => ?_, rfl, rfl⟩)
  rotate_left
  · obtain ⟨c, hc, hrev⟩ := ha.control
    rw [hcontrol] at hc
    cases hc
    rw [refuse, if_neg] at he
    · cases he
    · simp only [Bool.and_eq_true, Bool.not_eq_true', not_and, Bool.not_eq_false]
      exact hrev
  refine Prog.Calm.bind (Prog.Calm.ask (fun _ hsize => ?_) fun e he => ⟨fun ha => ?_, rfl, rfl⟩)
  rotate_left
  · rw [refuse, if_neg (by simpa using ha.size)] at he
    cases he
  refine Prog.Calm.bind (Prog.Calm.gets (Prog.Calm.bind (Prog.Calm.gets (Prog.Calm.ite
    (fun hreceipt => ?_) (fun hreceipt => Prog.Calm.ite (fun hblob => ?_) (fun hblob => ?_))))))
  · -- A receipt is there, and the object can be read.
    obtain ⟨⟨receipt, body⟩, hget⟩ := h.readable hreceipt
    refine Prog.Calm.bind (Prog.Calm.gets ?_)
    dsimp only
    rw [hget]
    refine Prog.Calm.ite (fun hne => Prog.Calm.fail ⟨fun ha => ?_, rfl, rfl⟩) (fun _ => ?_)
    · obtain ⟨h1, h2⟩ := ha.same receipt body hget
      exact hne.elim (· h1) (· h2)
    · exact Prog.Calm.bind (Prog.Calm.handle (Prog.Calm.durable (Prog.Calm.pure trivial)))
  · exact (hreceipt (h.whole hblob)).elim
  · -- The object is new: only the reservation can turn it away.
    rw [Bool.not_eq_true] at hreceipt
    rw [Bool.not_eq_true] at hblob
    refine Prog.Calm.bind (((reserveObject_sat (K := fun _ => False)).calm
      reserveObject_calm).mono ?_ ?_)
    · rintro - s₁ ⟨⟨-, hs₁⟩, -⟩
      have hdisk : s₁.disk = s.disk := by rw [hs₁]; rfl
      refine Prog.Calm.bind (Prog.Calm.handle (((publish_sat (hdisk ▸ hblob)
        (hdisk ▸ hreceipt)).calm (publish_calm h.retention)).mono ?_ (fun _ h => h.2.elim)))
      rintro receipt s₂ ⟨⟨-, hs₂, -⟩, -⟩
      have howners : s₂.capacity.bundleControlOwners = s.capacity.bundleControlOwners := by
        rw [hs₂, hs₁]
        simp only [Server.onDisk, Server.onCapacity, CapacityState.charged]
        split <;> rfl
      refine Prog.Calm.bind ((markPublished_calm fun c hc => ?_).mono
        (fun _ _ _ => Prog.Calm.pure trivial) (fun _ h => h.elim))
      have hone := h.room c (hc ▸ hcontrol)
      unfold CapacityState.OwnerRoom at hone ⊢
      rwa [howners]
    · rintro s₁ ⟨rfl, hturned⟩
      refine ⟨fun ha => ?_, rfl, rfl⟩
      obtain ⟨st, hst⟩ := ha.admitted hreceipt
      exact hturned st hst

end PutSat

end Argos.Vault
