import Argos.Lib.Durable
import Argos.Recovery.Index

/-!
# The backup store

`BackupStore` of `argos-recovery/src/lib.rs`: the index and the object files. A call that opens a
transaction (`BEGIN IMMEDIATE`) holds the only write lock of the database until it commits or is
rolled back, so no other writer comes between its steps; what it has changed in the tables is stored
by its commit, all at once, and is gone when it stops before. The object files are outside of the
transaction: each step on them is durable by itself. A call can be cut at every durable step.

The verdicts of an operator (`mark_known_good`, `revoke_known_good`) are not transactions. They read,
read again, write and read back, and other calls may come between (`Stage`).
-/

namespace Argos.Recovery

open Argos.Lib
open Argos.Vault (Bytes blank bytesOf saturatingAdd)

/-- `hex::encode(Sha256::digest(..))`: any function to 64 hexadecimal digits. -/
structure Digest where
  hash : Bytes → String
  named : ∀ data, ((hash data).utf8ByteSize == 64 && (bytesOf (hash data)).all isAsciiHexdigit) = true

/-- The backup store on disk: the database, and the files under `objects` by their names. The contents
whose digest was taken are kept for the statements only. -/
structure Store where
  index : Index := {}
  objects : Map String Bytes := ∅
  hashed : List Bytes := []

/-- An operation on the store. -/
abbrev Op := Prog Store RecoveryError

/-- A transaction is committed. -/
def commit (index : Index) : Op Unit := Prog.atomic .db fun s => { s with index := index }

/-- A refusal with an error. -/
def refuse (bad : Bool) (error : RecoveryError) : Result Unit := if bad then .error error else .ok ()

@[simp]
theorem refuse_ok_iff {bad : Bool} {error : RecoveryError} {u : Unit} :
    refuse bad error = .ok u ↔ bad = false := by
  cases bad <;> simp [refuse]

section Backup

variable (D : Digest)

/-! ## Backing up -/

/-- What the system shows of a file: its metadata, and its content when it is opened. -/
structure Source where
  isFile : Bool
  length : Nat
  content : Option Bytes

/-- `record_oversized_skip`. -/
def recordOversizedSkip (path : Path) : Op Unit :=
  Prog.atomic .db fun s =>
    { s with index := { s.index with
      oversizedSkips := bump s.index.oversizedSkips path.text (· + 1) } }

/-- A name that `create_restore_temp` tries. -/
def temporaryName (hash : String) (process sequence : Nat) : String :=
  hash ++ ".argos-restore-" ++ toString process ++ "-" ++ toString sequence ++ ".tmp"

/-- `fs::remove_file` whose result is not looked at. -/
def removeFile (name : String) : Op Unit :=
  Prog.handle (Prog.durable (.io name) fun s => { s with objects := s.objects.erase name })
    fun _ => pure ()

/-- An object is written to a temporary file, which is then renamed. What a cut write leaves in the
temporary file is never read. -/
def writeObject (hash : String) (data : Bytes) (process counter : Nat) : Op Unit := do
  Prog.durable (.io hash) id
  let s ← Prog.gets id
  match (List.range 100).find? fun i =>
      (s.objects.lookup (temporaryName hash process (counter + i))).isNone with
  | none => Prog.fail (.io hash)
  | some i =>
    let tmp := temporaryName hash process (counter + i)
    Prog.durable (.io tmp) fun s => { s with objects := s.objects.insert tmp [] }
    Prog.handle (Prog.durable (.io tmp) fun s => { s with objects := s.objects.insert tmp data })
      fun e => do removeFile tmp; Prog.fail e
    Prog.handle (Prog.durable (.io hash) fun s =>
        { s with objects := (s.objects.erase tmp).insert hash data })
      fun e => do removeFile tmp; Prog.fail e

/-- The part of `backup` that stores an object that is not there. -/
def storeObject (hash : String) (data : Bytes) (process counter : Nat) : Op Unit := do
  let s ← Prog.gets id
  if (s.objects.lookup hash).isNone then writeObject hash data process counter else pure ()

/-- The transaction of `backup`. -/
def storeVersion (path : Path) (data : Bytes) (timestampMs pid process counter : Nat) :
    Op (Option String) := do
  Prog.modify fun s => { s with hashed := data :: s.hashed }
  let s ← Prog.gets id
  if s.index.latestHash path = some (D.hash data) then pure none
  else do
    storeObject (D.hash data) data process counter
    let index ← Prog.ask fun _ =>
      s.index.insertVersion path.text (D.hash data) data.length (asI64 timestampMs) pid
    commit index
    pure (some (D.hash data))

/-- `BackupStore::backup`, with the limit of the store. -/
def backup (limit : Nat) (path : Path) (source : Option Source)
    (timestampMs pid process counter : Nat) : Op (Option String) :=
  match source with
  | none => Prog.fail (.io path.text)
  | some file =>
    if !file.isFile then pure none
    else if file.length > limit then do
      recordOversizedSkip path
      Prog.fail (.tooLarge file.length limit)
    else
      match file.content with
      | none => Prog.fail (.io path.text)
      | some content =>
        let data := content.take (saturatingAdd limit 1)
        if data.length > limit then do
          recordOversizedSkip path
          Prog.fail (.tooLarge data.length limit)
        else storeVersion D path data timestampMs pid process counter

/-! ## Reading back -/

/-- `read_verified`. -/
def readVerified (s : Store) (version : BackupVersion) : Result Bytes := do
  refuse (version.hash.utf8ByteSize != 64 || !(bytesOf version.hash).all isAsciiHexdigit)
    (.invalidMetadata "객체 해시는 64자리 SHA-256이어야 합니다")
  match s.objects.lookup version.hash with
  | none => .error (.io version.hash)
  | some content =>
    let data := content.take (saturatingAdd version.size 1)
    refuse (D.hash data != version.hash) (.integrityMismatch version.hash (D.hash data))
    .ok data

/-! ## Verdicts -/

/-- A call of `mark_known_good` or `revoke_known_good`. -/
structure Judgement where
  path : Path
  versionId : Int
  note : String
  good : Bool
deriving DecidableEq

/-- Where a call that gives a verdict stands. -/
inductive Stage where
  /-- The object of the version is to be read. -/
  | reading (version : BackupVersion)
  /-- The verdict is to be written. -/
  | writing (version : BackupVersion)
  /-- The version is to be read back. -/
  | confirming
deriving DecidableEq

/-- The first part of `mark_known_good` and `revoke_known_good`: the version is looked up. -/
def Judgement.start (j : Judgement) : Op Stage := do
  Prog.ask fun _ => refuse (blank j.note) .missingTrustNote
  let version ← Prog.ask fun s => s.index.version j.path j.versionId
  pure (if j.good then .reading version else .writing version)

/-- The next part of `mark_known_good` and `revoke_known_good`; only the first reads the object. -/
def Judgement.proceed (j : Judgement) : Stage → Op (Sum Stage BackupVersion)
  | .reading version => do
    let _ ← Prog.ask fun s => readVerified D s version
    pure (.inl (.writing version))
  | .writing version => do
    Prog.atomic .db fun s =>
      { s with index := s.index.judge version.id j.good (trim j.note) }
    pure (.inl .confirming)
  | .confirming => do
    let version ← Prog.ask fun s => s.index.version j.path j.versionId
    pure (.inr version)

/-! ## Pruning -/

/-- The loop of `prune` over the object files that nothing refers to. -/
def removeObjects : List String → Op Unit
  | [] => pure ()
  | name :: rest => do
    removeFile name
    removeObjects rest

/-- The object files of a listing that no version of an index refers to. -/
def Index.unreferenced (index : Index) (listing : List String) : List String :=
  listing.filter fun name => name ∉ index.versions.map (·.hash)

/-- `BackupStore::prune`, with the names that reading the directories has returned. -/
def prune (keep : Nat) (listing : List String) : Op Nat := do
  let s ← Prog.gets id
  removeObjects ((s.index.pruned keep).unreferenced listing)
  commit (s.index.pruned keep)
  pure (s.index.versions.length - (s.index.pruned keep).versions.length)

end Backup

/-! ## What the steps on the object files do -/

section Steps

variable {s : Store} {hash : String} {data : Bytes}

/-- Of the files with the name of an object only one may have changed, and then to a given content. -/
structure Placed (hash : String) (data : Bytes) (s s' : Store) : Prop where
  index : s'.index = s.index
  hashed : s'.hashed = s.hashed
  objects : ∀ name, name.utf8ByteSize = 64 → s'.objects.lookup name = s.objects.lookup name ∨
    (name = hash ∧ s'.objects.lookup name = some data)

theorem Placed.refl : Placed hash data s s := ⟨rfl, rfl, fun _ _ => .inl rfl⟩

theorem Placed.trans {s₁ s₂ : Store} (h₁ : Placed hash data s s₁) (h₂ : Placed hash data s₁ s₂) :
    Placed hash data s s₂ := by
  refine ⟨h₂.index.trans h₁.index, h₂.hashed.trans h₁.hashed, fun name hname => ?_⟩
  rcases h₂.objects name hname with h | h
  · rw [h]
    exact h₁.objects name hname
  · exact .inr h

theorem temporaryName_size (hhash : hash.utf8ByteSize = 64) (process sequence : Nat) :
    (temporaryName hash process sequence).utf8ByteSize ≠ 64 := by
  have hdot : (".argos-restore-" : String).utf8ByteSize = 15 := by decide
  simp only [temporaryName, String.utf8ByteSize_append, hdot]
  omega

/-- Nothing happens to the objects when a file with another name is written. -/
theorem Placed.insert {tmp : String} (htmp : tmp.utf8ByteSize ≠ 64) (content : Bytes) :
    Placed hash data s { s with objects := s.objects.insert tmp content } := by
  refine ⟨rfl, rfl, fun name hname => .inl ?_⟩
  exact AList.lookup_insert_ne (fun heq => htmp (heq ▸ hname))

theorem Placed.erase {tmp : String} (htmp : tmp.utf8ByteSize ≠ 64) :
    Placed hash data s { s with objects := s.objects.erase tmp } := by
  refine ⟨rfl, rfl, fun name hname => .inl ?_⟩
  exact AList.lookup_erase_ne (fun heq => htmp (heq ▸ hname))

theorem Placed.rename {tmp : String} (htmp : tmp.utf8ByteSize ≠ 64) :
    Placed hash data s { s with objects := (s.objects.erase tmp).insert hash data } := by
  refine ⟨rfl, rfl, fun name hname => ?_⟩
  by_cases heq : name = hash
  · subst heq
    exact .inr ⟨rfl, AList.lookup_insert _⟩
  · left
    rw [AList.lookup_insert_ne heq]
    exact AList.lookup_erase_ne (fun heq' => htmp (heq' ▸ hname))

/-- Removing a file never fails, but the process may be killed before. -/
theorem removeFile_sat {name : String} {Q : Unit → Store → Prop} {E K : Store → Prop}
    (hgone : Q () { s with objects := s.objects.erase name }) (hkept : Q () s) (hkill : K s) :
    (removeFile name).Sat s Q E K :=
  Prog.Sat.handle (Prog.Sat.durable hgone (fun _ => Prog.Sat.pure hgone)
    (fun _ => Prog.Sat.pure hkept) hkill)

/-- After a failure the temporary file is removed, if that works. -/
theorem cleanUp_sat {tmp : String} {s₁ : Store} {e : RecoveryError} {Q : Unit → Store → Prop}
    (htmp : tmp.utf8ByteSize ≠ 64) (h : Placed hash data s s₁) :
    (do removeFile tmp; Prog.fail e : Op Unit).Sat s₁ Q (Placed hash data s) (Placed hash data s) :=
  Prog.Sat.bind (removeFile_sat (Prog.Sat.fail (h.trans (.erase htmp))) (Prog.Sat.fail h) h)

/-- Writing an object touches no other object, wherever it stops. -/
theorem writeObject_sat {process counter : Nat} (hhash : hash.utf8ByteSize = 64) :
    (writeObject hash data process counter).Sat s
      (fun _ s' => Placed hash data s s' ∧ s'.objects.lookup hash = some data)
      (Placed hash data s) (Placed hash data s) := by
  refine Prog.Sat.bind (Prog.Sat.durable ?_ .refl .refl .refl)
  refine Prog.Sat.bind (Prog.Sat.gets ?_)
  split
  · exact Prog.Sat.fail .refl
  next i _ =>
  have htmp := temporaryName_size hhash process (counter + i)
  have hcreated : Placed hash data s
      { s with objects := s.objects.insert (temporaryName hash process (counter + i)) [] } :=
    .insert htmp []
  refine Prog.Sat.bind (Prog.Sat.durable ?_ hcreated .refl .refl)
  refine Prog.Sat.bind (Prog.Sat.handle (Prog.Sat.durable ?_ (fun e => cleanUp_sat htmp
    (hcreated.trans (.insert htmp data))) (fun e => cleanUp_sat htmp hcreated) hcreated))
  -- The temporary file has its content; only the rename gives it the name of the object.
  have hwritten := hcreated.trans (.insert htmp data)
  have hrenamed := hwritten.trans (.rename htmp)
  exact Prog.Sat.handle (Prog.Sat.durable ⟨hrenamed, AList.lookup_insert _⟩
    (fun e => cleanUp_sat htmp hrenamed) (fun e => cleanUp_sat htmp hwritten) hwritten)

variable {D : Digest}

theorem Digest.size (D : Digest) (data : Bytes) : (D.hash data).utf8ByteSize = 64 := by
  have := D.named data
  rw [Bool.and_eq_true, beq_iff_eq] at this
  exact this.1

/-- The store after the digest of a content was taken. -/
def Store.hashing (s : Store) (data : Bytes) : Store := { s with hashed := data :: s.hashed }

/-- A version was added, after its object was there. -/
structure Added (D : Digest) (path : Path) (data : Bytes) (timestampMs pid : Nat) (s s' : Store) :
    Prop where
  inserted : s.index.insertVersion path.text (D.hash data) data.length (asI64 timestampMs) pid =
    .ok s'.index
  placed : Placed (D.hash data) data (s.hashing data) { s' with index := s.index }
  present : ∃ content, s'.objects.lookup (D.hash data) = some content

/-- The transaction of `backup`: nothing is stored that is there, or an object and then a version. -/
theorem storeVersion_sat {path : Path} {timestampMs pid process counter : Nat} :
    (storeVersion D path data timestampMs pid process counter).Sat s
      (fun reply s' => (reply = none ∧ s' = s.hashing data ∧
          s.index.latestHash path = some (D.hash data)) ∨
        (reply = some (D.hash data) ∧ Added D path data timestampMs pid s s'))
      (Placed (D.hash data) data (s.hashing data)) (Placed (D.hash data) data (s.hashing data)) := by
  refine Prog.Sat.bind (Prog.Sat.modify (Prog.Sat.bind (Prog.Sat.gets ?_)))
  refine Prog.Sat.ite (fun hlatest => Prog.Sat.pure (.inl ⟨rfl, rfl, hlatest⟩)) (fun _ => ?_)
  -- Either way the object is there before the version is added.
  have hobject : (storeObject (D.hash data) data process counter).Sat (s.hashing data)
      (fun _ s₁ => Placed (D.hash data) data (s.hashing data) s₁ ∧
        ∃ content, s₁.objects.lookup (D.hash data) = some content)
      (Placed (D.hash data) data (s.hashing data)) (Placed (D.hash data) data (s.hashing data)) := by
    refine Prog.Sat.bind (Prog.Sat.gets ?_)
    refine Prog.Sat.ite (fun _ => ?_) (fun hthere => Prog.Sat.pure ⟨.refl, ?_⟩)
    · exact (writeObject_sat (D.size data)).mono (fun _ _ h => ⟨h.1, data, h.2⟩) (fun _ h => h)
        (fun _ h => h)
    · exact Option.ne_none_iff_exists'.1 (by simpa using hthere)
  refine Prog.Sat.bind (hobject.mono (fun _ s₁ h => ?_) (fun _ h => h) (fun _ h => h))
  obtain ⟨hplaced, hthere⟩ := h
  refine Prog.Sat.bind (Prog.Sat.ask (fun index hins => ?_) hplaced)
  refine Prog.Sat.bind (Prog.Sat.atomic (Prog.Sat.pure (.inr ⟨rfl, ?_⟩)) hplaced hplaced)
  exact ⟨hins, ⟨rfl, hplaced.hashed, hplaced.objects⟩, hthere⟩

end Steps

end Argos.Recovery
