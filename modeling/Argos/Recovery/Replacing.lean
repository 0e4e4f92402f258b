import Argos.Recovery.Restore

/-!
# A file is replaced

`BackupStore::restore` with its steps on the disk: the content that was read back is written to a new
file beside the path, which takes over the owner and the permissions of the file that is there, and is
then renamed. Every step may fail, and the process may be killed before each of them. A rename is done or
not done.

The path is a name in a directory; what is in the directory is a map from names to files. The name of the
temporary file is never that of the path (`tempName_ne`), and so until the rename the path shows what it
showed (`restore_replaces`).
-/

namespace Argos.Recovery

open Argos.Lib
open Argos.Vault (Bytes bytesOf)

/-! ## Files -/

/-- What stands at a name: a regular file with its content, its owner and its mode, or something else, as
a symbolic link or a directory. -/
inductive Node where
  | file (content : Bytes) (uid gid mode : Nat)
  | other
deriving DecidableEq

/-- The directory of the path with what is in it, if it is there. A path that ends with `..` has no name
in it; what it leads to is told apart. -/
structure Folder where
  entries : Option (Map Bytes Node)
  nameless : Option Node

/-- What is found at the path, by its name. -/
def Folder.look (f : Folder) : Option Bytes → Option Node
  | some name => f.entries.bind fun entries => entries.lookup name
  | none => f.nameless

/-- A name is set in a directory that is there. -/
def Folder.set (f : Folder) (name : Bytes) (node : Node) : Folder :=
  { f with entries := f.entries.map fun entries => entries.insert name node }

/-- A name is removed. -/
def Folder.unset (f : Folder) (name : Bytes) : Folder :=
  { f with entries := f.entries.map fun entries => entries.erase name }

/-- The owner of the process and its mask for new files. -/
structure Process where
  id : Nat
  uid : Nat
  gid : Nat
  umask : Nat

/-- The mode of a file that is created with `0o600`. -/
def Process.newMode (P : Process) : Nat := 0o600 &&& (0o777 ^^^ P.umask)

/-- The bits `0o777` of a mode. -/
def permissions (mode : Nat) : Nat := mode &&& 0o777

/-! ## Temporary names -/

/-- A name is cut at its last point, `rsplitn(2, '.')`. -/
def cutLast : Bytes → Option (Bytes × Bytes)
  | [] => none
  | b :: rest =>
    match cutLast rest with
    | some (before, after) => some (b :: before, after)
    | none => if b = 0x2E then some ([], rest) else none

/-- `Path::file_stem`: the name up to its last point, or all of it when nothing stands before a point. -/
def stemOf (name : Bytes) : Bytes :=
  match cutLast name with
  | some (before, _) => if before = [] then name else before
  | none => name

/-- The name that `create_restore_temp` tries, `with_extension(..)`. -/
def tempName (name : Bytes) (process sequence : Nat) : Bytes :=
  stemOf name ++ 0x2E ::
    (bytesOf ("argos-restore-" ++ toString process ++ "-" ++ toString sequence) ++ bytesOf ".tmp")

theorem cutLast_none {name : Bytes} (h : cutLast name = none) : 0x2E ∉ name := by
  induction name with
  | nil => simp
  | cons b rest ih =>
    unfold cutLast at h
    split at h
    · cases h
    next hrest =>
      split at h
      · cases h
      next hb =>
        rw [List.mem_cons]
        rintro (heq | hmem)
        · exact hb heq.symm
        · exact ih hrest hmem

theorem cutLast_some {name before after : Bytes} (h : cutLast name = some (before, after)) :
    name = before ++ 0x2E :: after ∧ 0x2E ∉ after := by
  induction name generalizing before with
  | nil => cases h
  | cons b rest ih =>
    unfold cutLast at h
    split at h
    next found tail hrest =>
      obtain ⟨rfl, rfl⟩ := Prod.mk.inj (Option.some.inj h)
      obtain ⟨hname, hnone⟩ := ih hrest
      exact ⟨by rw [hname, List.cons_append], hnone⟩
    next hrest =>
      split at h
      next hb =>
        obtain ⟨rfl, rfl⟩ := Prod.mk.inj (Option.some.inj h)
        exact ⟨by rw [hb, List.nil_append], cutLast_none hrest⟩
      · cases h

/-- The name of a temporary file has a point more than the name of the path. -/
theorem tempName_ne (name : Bytes) (process sequence : Nat) : tempName name process sequence ≠ name := by
  intro heq
  have hlonger : ∀ ext : Bytes, name ++ 0x2E :: ext ≠ name := by
    intro ext hsame
    have hlength := congrArg List.length hsame
    simp at hlength
  unfold tempName stemOf at heq
  split at heq
  next before after hcut =>
    split at heq
    · exact hlonger _ heq
    · obtain ⟨hname, hnone⟩ := cutLast_some hcut
      conv_rhs at heq => rw [hname]
      have hsame := List.append_cancel_left heq
      rw [List.cons.injEq] at hsame
      rw [← hsame.2] at hnone
      exact hnone (List.mem_append_right _ (by decide +kernel))
  · exact hlonger _ heq

/-! ## The steps -/

/-- A step of a restore. -/
abbrev Step := Prog Folder RestoreError

/-- The error of a step on a file. -/
def ioError (name : Bytes) : RestoreError := .recovery (.io (Path.text name))

/-- `create_restore_temp`, with the numbers that are still to be tried. -/
def createRestoreTemp (P : Process) (path : Path) (counter : Nat) : List Nat → Step Bytes
  | [] => Prog.fail (ioError path)
  | i :: rest => do
    let f ← Prog.gets id
    match path.fileName, f.entries with
    | some name, some entries =>
      let tmp := tempName name P.id ((counter + i) % 2 ^ 64)
      if (entries.lookup tmp).isSome then createRestoreTemp P path counter rest
      else do
        Prog.durable (ioError tmp) fun f => f.set tmp (.file [] P.uid P.gid P.newMode)
        pure tmp
    -- A path without a name cannot be created, and nothing can be where no directory is.
    | _, _ => Prog.fail (ioError path)

/-- A file is changed. -/
def Folder.change (f : Folder) (name : Bytes) (g : Node → Node) : Folder :=
  match f.look (some name) with
  | some node => f.set name (g node)
  | none => f

/-- `apply_restore_metadata`. -/
def applyRestoreMetadata (tmp : Bytes) : Option (Nat × Nat × Nat) → Step Unit
  | none => pure ()
  | some (uid, gid, mode) => do
    Prog.durable (ioError tmp) fun f => f.change tmp fun
      | .file content _ _ mode => .file content uid gid mode
      | .other => .other
    Prog.durable (ioError tmp) fun f => f.change tmp fun
      | .file content uid gid _ => .file content uid gid (permissions mode)
      | .other => .other

/-- A file takes the place of another. -/
def Folder.rename (f : Folder) (tmp name : Bytes) : Folder :=
  match f.look (some tmp) with
  | some node => (f.unset tmp).set name node
  | none => f

/-- The steps on the temporary file. -/
def writeTemp (path : Path) (tmp data : Bytes) (former : Option (Nat × Nat × Nat)) : Step Unit := do
  Prog.durable (ioError tmp) fun f => f.change tmp fun
    | .file _ uid gid mode => .file data uid gid mode
    | .other => .other
  applyRestoreMetadata tmp former
  Prog.durable (ioError tmp) id
  match path.fileName with
  | some name => Prog.atomic (ioError path) fun f => f.rename tmp name
  | none => Prog.fail (ioError path)

/-- The owner and the mode of what stands at the path, which has to be a regular file or nothing. -/
def formerOf (path : Path) (f : Folder) : Except RestoreError (Option (Nat × Nat × Nat)) :=
  match f.look path.fileName with
  | some (.file _ uid gid mode) => .ok (some (uid, gid, mode))
  | some .other => .error (.unsafeRestoreTarget path.text)
  | none => .ok none

/-- The path has a parent that is not empty. -/
def Path.hasParent (path : Path) : Bool :=
  path.head? = some 0x2F || path.take 2 = [0x2E, 0x2F] || 2 ≤ path.components.length

/-- `BackupStore::restore`, for a store and with the number of temporary files that were made before. -/
def BackupStore.restore (D : Digest) (s : Store) (P : Process) (counter : Nat) (path : Path)
    (beforeMs : Option Nat) : Step BackupVersion := do
  let version ← Prog.ask fun _ => (s.index.recommend path beforeMs).mapError .recovery
  let data ← Prog.ask fun _ => (readVerified D s version).mapError .recovery
  Prog.durable (ioError path) id
  let former ← Prog.ask (formerOf path)
  if path.hasParent then
    Prog.durable (ioError path) fun f => { f with entries := some (f.entries.getD ∅) }
  let tmp ← createRestoreTemp P path counter (List.range 100)
  Prog.handle (writeTemp path tmp data former) fun e => do
    Prog.handle (Prog.durable e fun f => f.unset tmp) fun _ => pure ()
    Prog.fail e
  pure version

/-! ## What the steps leave -/

section Steps

variable {f : Folder} {tmp name : Bytes} {n : Option Bytes}

theorem look_set_ne (node : Node) (hne : n ≠ some tmp) : (f.set tmp node).look n = f.look n := by
  rcases n with _ | b
  · rfl
  · have hb : b ≠ tmp := fun heq => hne (congrArg some heq)
    unfold Folder.look Folder.set
    rcases f.entries with _ | entries
    · rfl
    · exact AList.lookup_insert_ne hb

theorem look_unset_ne (hne : n ≠ some tmp) : (f.unset tmp).look n = f.look n := by
  rcases n with _ | b
  · rfl
  · have hb : b ≠ tmp := fun heq => hne (congrArg some heq)
    unfold Folder.look Folder.unset
    rcases f.entries with _ | entries
    · rfl
    · exact AList.lookup_erase_ne hb

theorem look_change_ne (g : Node → Node) (hne : n ≠ some tmp) : (f.change tmp g).look n = f.look n := by
  unfold Folder.change
  split
  · exact look_set_ne _ hne
  · rfl

/-- What is set where a directory is, is found. -/
theorem look_set {node : Node} (hthere : f.entries.isSome) : (f.set tmp node).look (some tmp) = some node := by
  obtain ⟨entries, hentries⟩ := Option.isSome_iff_exists.1 hthere
  unfold Folder.look Folder.set
  rw [hentries]
  exact AList.lookup_insert _

theorem there_of_look {node : Node} (h : f.look (some tmp) = some node) : f.entries.isSome := by
  unfold Folder.look at h
  rcases hentries : f.entries with _ | entries
  · rw [hentries] at h
    cases h
  · rfl

theorem look_change {node : Node} (g : Node → Node) (h : f.look (some tmp) = some node) :
    (f.change tmp g).look (some tmp) = some (g node) := by
  unfold Folder.change
  rw [h]
  exact look_set (there_of_look h)

theorem look_rename {node : Node} (h : f.look (some tmp) = some node) :
    (f.rename tmp name).look (some name) = some node := by
  unfold Folder.rename
  rw [h]
  refine look_set ?_
  show (f.entries.map _).isSome
  rw [Option.isSome_map]
  exact there_of_look h

/-- A directory that is made is empty. -/
theorem look_createDir : Folder.look { f with entries := some (f.entries.getD ∅) } n = f.look n := by
  rcases n with _ | b
  · rfl
  · unfold Folder.look
    rcases f.entries with _ | entries
    · exact AList.lookup_empty b
    · rfl

end Steps

/-! ## The path during a restore -/

section Restore

variable {D : Digest} {s : Store} {P : Process} {counter : Nat} {path : Path} {beforeMs : Option Nat}
variable {f : Folder}

/-- The path shows what it showed before, and the temporary file is as it is told. -/
structure Beside (path : Path) (f₀ : Folder) (tmp : Bytes) (node : Node) (f : Folder) : Prop where
  apart : path.fileName ≠ some tmp
  shown : f.look path.fileName = f₀.look path.fileName
  holds : f.look (some tmp) = some node

/-- A temporary file is made beside the path. -/
theorem createRestoreTemp_sat (tries : List Nat) : (createRestoreTemp P path counter tries).Sat f
    (fun tmp f' => Beside path f tmp (.file [] P.uid P.gid P.newMode) f')
    (fun f' => f'.look path.fileName = f.look path.fileName)
    (fun f' => f'.look path.fileName = f.look path.fileName) := by
  induction tries with
  | nil => exact Prog.Sat.fail rfl
  | cons i rest ih =>
    refine Prog.Sat.bind (Prog.Sat.gets ?_)
    dsimp only [id]
    split
    next name entries hname hentries =>
      have hne : path.fileName ≠ some (tempName name P.id ((counter + i) % 2 ^ 64)) := by
        rw [hname, Ne, Option.some.injEq]
        exact (tempName_ne name _ _).symm
      refine Prog.Sat.ite (fun _ => ih) fun _ => ?_
      refine Prog.Sat.bind (Prog.Sat.durable ?_ (look_set_ne _ hne) rfl rfl)
      refine Prog.Sat.pure ⟨hne, look_set_ne _ hne, look_set ?_⟩
      rw [hentries]
      rfl
    · exact Prog.Sat.fail rfl

/-- What stands at the path after a restore that is done: the content, with the owner and the permissions
of the former file, or of the process alone if there was none. -/
def Replaced (P : Process) (data : Bytes) (former found : Option Node) : Prop :=
  ∃ uid gid mode, found = some (.file data uid gid mode) ∧
    match former with
    | some (.file _ u g m) => uid = u ∧ gid = g ∧ mode = permissions m
    | _ => uid = P.uid ∧ gid = P.gid ∧ mode &&& 0o077 = 0

theorem newMode_private (P : Process) : P.newMode &&& 0o077 = 0 := by
  unfold Process.newMode
  rw [Nat.and_assoc, Nat.and_comm (0o777 ^^^ P.umask), ← Nat.and_assoc]
  simp

/-- A change of the temporary file. -/
theorem change_sat {f₀ : Folder} {tmp : Bytes} {node : Node} (h : Beside path f₀ tmp node f)
    (e : RestoreError) (g : Node → Node) :
    (Prog.durable e fun f => f.change tmp g).Sat f (fun _ f' => Beside path f₀ tmp (g node) f')
      (fun f' => f'.look path.fileName = f₀.look path.fileName)
      (fun f' => f'.look path.fileName = f₀.look path.fileName) := by
  have hshown : (f.change tmp g).look path.fileName = f₀.look path.fileName :=
    (look_change_ne g h.apart).trans h.shown
  exact Prog.Sat.durable ⟨h.apart, hshown, look_change g h.holds⟩ hshown h.shown h.shown

/-- The owner and the mode are taken over. -/
theorem applyRestoreMetadata_sat {f₀ : Folder} {tmp data : Bytes} {former : Option (Nat × Nat × Nat)}
    (h : Beside path f₀ tmp (.file data P.uid P.gid P.newMode) f) :
    (applyRestoreMetadata tmp former).Sat f
      (fun _ f' => Beside path f₀ tmp (match former with
        | some (uid, gid, mode) => .file data uid gid (permissions mode)
        | none => .file data P.uid P.gid P.newMode) f')
      (fun f' => f'.look path.fileName = f₀.look path.fileName)
      (fun f' => f'.look path.fileName = f₀.look path.fileName) := by
  rcases former with _ | ⟨uid, gid, mode⟩
  · exact Prog.Sat.pure h
  · refine Prog.Sat.bind ((change_sat h _ _).mono (fun _ f₁ h₁ => ?_) (fun _ h => h) fun _ h => h)
    exact change_sat h₁ _ _

/-- The steps on the temporary file: the path shows what it showed until the rename. -/
theorem writeTemp_sat {f₀ : Folder} {tmp data : Bytes} {former : Option (Nat × Nat × Nat)}
    (hprepared : Beside path f₀ tmp (.file [] P.uid P.gid P.newMode) f)
    (hformer : formerOf path f₀ = .ok former) :
    (writeTemp path tmp data former).Sat f
      (fun _ f' => Replaced P data (f₀.look path.fileName) (f'.look path.fileName))
      (fun f' => f'.look path.fileName = f₀.look path.fileName)
      (fun f' => f'.look path.fileName = f₀.look path.fileName) := by
  refine Prog.Sat.bind ((change_sat hprepared _ _).mono (fun _ f₁ h₁ => ?_) (fun _ h => h) fun _ h => h)
  refine Prog.Sat.bind ((applyRestoreMetadata_sat h₁).mono (fun _ f₂ h₂ => ?_) (fun _ h => h) fun _ h => h)
  refine Prog.Sat.bind (Prog.Sat.durable ?_ h₂.shown h₂.shown h₂.shown)
  show Prog.Sat (match path.fileName with
    | some name => Prog.atomic (ioError path) fun f => f.rename tmp name
    | none => Prog.fail (ioError path)) f₂ _ _ _
  split
  next name hname =>
    refine Prog.Sat.atomic ?_ h₂.shown h₂.shown
    rw [hname, look_rename h₂.holds]
    -- What the path showed says which owner and which mode it is.
    unfold formerOf at hformer
    rw [hname] at hformer
    split at hformer
    next content uid gid mode hfile =>
      obtain rfl := Except.ok.inj hformer
      rw [hfile]
      exact ⟨uid, gid, permissions mode, rfl, rfl, rfl, rfl⟩
    · cases hformer
    next hnone =>
      obtain rfl := Except.ok.inj hformer
      rw [hnone]
      exact ⟨P.uid, P.gid, P.newMode, rfl, rfl, rfl, newMode_private P⟩
  · exact Prog.Sat.fail h₂.shown

/-- The version that a restore takes: known to be good, from before a time, and the newest of these. -/
def Index.Best (index : Index) (path : Path) (beforeMs : Option Nat) (v : BackupVersion) : Prop :=
  v ∈ index.versions ∧ v.path = path.text ∧ v.knownGood = true ∧
    (∀ cutoff, beforeMs = some cutoff → v.timestampMs < (cutoff : Int)) ∧
    ∀ w ∈ index.versions, w.path = path.text → w.knownGood = true →
      (∀ cutoff, beforeMs = some cutoff → w.timestampMs < (cutoff : Int)) →
      w.timestampMs < v.timestampMs ∨ (w.timestampMs = v.timestampMs ∧ w.id ≤ v.id)

theorem trusted_iff {v : BackupVersion} : v.trusted beforeMs = true ↔ v.knownGood = true ∧
    ∀ cutoff, beforeMs = some cutoff → v.timestampMs < (cutoff : Int) := by
  unfold BackupVersion.trusted
  rcases beforeMs with _ | cutoff <;> simp

theorem Index.recommend_best {index : Index} {v : BackupVersion} (h : index.recommend path beforeMs = .ok v) :
    index.Best path beforeMs v := by
  obtain ⟨hmem, hpath, -⟩ := Index.recommend_mem h
  obtain ⟨-, hfind⟩ := Index.recommend_ok_iff.1 h
  obtain ⟨hgood, hbefore⟩ := trusted_iff.1 (List.find?_some hfind)
  refine ⟨hmem, hpath, hgood, hbefore, fun w hw hwpath hwgood hwbefore => ?_⟩
  have hwtrusted : w.trusted beforeMs = true := trusted_iff.2 ⟨hwgood, hwbefore⟩
  have hwmem : w ∈ index.history path :=
    (List.mem_insertionSort _).2 (List.mem_filter.2 ⟨hw, by simpa using hwpath⟩)
  -- Before the one that is found none is trusted, and after it they are older.
  obtain ⟨-, earlier, later, hsplit, hnone⟩ := List.find?_eq_some_iff_append.1 hfind
  have hsorted : (index.history path).Pairwise Newest := List.pairwise_insertionSort _ _
  rw [hsplit] at hwmem hsorted
  rcases List.mem_append.1 hwmem with hwmem | hwmem
  · have hno := hnone w hwmem
    rw [hwtrusted] at hno
    cases hno
  · rcases List.mem_cons.1 hwmem with rfl | hwmem
    · exact .inr ⟨rfl, le_rfl⟩
    · have hafter := (List.pairwise_append.1 hsorted).2.1
      exact (List.pairwise_cons.1 hafter).1 w hwmem

theorem readVerified_hash {v : BackupVersion} {data : Bytes} (h : readVerified D s v = .ok data) :
    D.hash data = v.hash := by
  unfold readVerified at h
  rw [Prog.answer_bind_iff] at h
  obtain ⟨_, _, h⟩ := h
  split at h
  · cases h
  · rw [Prog.answer_bind_iff] at h
    obtain ⟨_, hsame, h⟩ := h
    obtain rfl := Except.ok.inj h
    rw [refuse_ok_iff] at hsame
    simpa using hsame

theorem mapError_ok {α : Type} {r : Result α} {a : α}
    (h : r.mapError RestoreError.recovery = .ok a) : r = .ok a := by
  cases r with
  | error e => cases h
  | ok b => rw [Except.ok.inj h]

/-- What a restore leaves at the path when it is done. -/
def Restored (D : Digest) (s : Store) (P : Process) (path : Path) (beforeMs : Option Nat)
    (former found : Option Node) (v : BackupVersion) : Prop :=
  s.index.Best path beforeMs v ∧ ∃ data, D.hash data = v.hash ∧ Replaced P data former found

/-- The triple of a restore. -/
theorem restore_sat : (BackupStore.restore D s P counter path beforeMs).Sat f
    (fun v f' => Restored D s P path beforeMs (f.look path.fileName) (f'.look path.fileName) v ∧
      f.look path.fileName ≠ some .other)
    (fun f' => f'.look path.fileName = f.look path.fileName)
    (fun f' => f'.look path.fileName = f.look path.fileName) := by
  refine Prog.Sat.bind (Prog.Sat.ask (fun version hversion => ?_) rfl)
  refine Prog.Sat.bind (Prog.Sat.ask (fun data hdata => ?_) rfl)
  have hbest := Index.recommend_best (mapError_ok hversion)
  have hhash := readVerified_hash (mapError_ok hdata)
  refine Prog.Sat.bind (Prog.Sat.durable ?_ rfl rfl rfl)
  refine Prog.Sat.bind (Prog.Sat.ask (fun former hformer => ?_) rfl)
  have hplain : f.look path.fileName ≠ some .other := by
    intro hother
    unfold formerOf at hformer
    rw [show id f = f from rfl, hother] at hformer
    cases hformer
  -- The rest, from a directory in which the path shows the same.
  have hrest : ∀ f₁ : Folder, f₁.look path.fileName = f.look path.fileName →
      Prog.Sat (do
        let tmp ← createRestoreTemp P path counter (List.range 100)
        Prog.handle (writeTemp path tmp data former) fun e => do
          Prog.handle (Prog.durable e fun f => f.unset tmp) fun _ => pure ()
          Prog.fail e
        pure version) f₁
        (fun v f' => Restored D s P path beforeMs (f.look path.fileName) (f'.look path.fileName) v ∧
          f.look path.fileName ≠ some .other)
        (fun f' => f'.look path.fileName = f.look path.fileName)
        (fun f' => f'.look path.fileName = f.look path.fileName) := by
    intro f₁ hf₁
    refine Prog.Sat.bind ((createRestoreTemp_sat _).mono (fun tmp f₂ h₂ => ?_) (fun _ h => h.trans hf₁)
      fun _ h => h.trans hf₁)
    have hbeside : Beside path f tmp (.file [] P.uid P.gid P.newMode) f₂ :=
      ⟨h₂.apart, h₂.shown.trans hf₁, h₂.holds⟩
    refine Prog.Sat.bind (Prog.Sat.handle ((writeTemp_sat hbeside hformer).mono (fun _ f₃ h₃ => ?_)
      (fun f₃ h₃ e => ?_) fun _ h => h))
    · exact Prog.Sat.pure ⟨⟨hbest, data, hhash, h₃⟩, hplain⟩
    · have hgone : (f₃.unset tmp).look path.fileName = f.look path.fileName :=
        (look_unset_ne h₂.apart).trans h₃
      refine Prog.Sat.bind (Prog.Sat.handle (Prog.Sat.durable ?_ (fun _ => ?_) (fun _ => ?_) h₃))
      · exact Prog.Sat.fail hgone
      · exact Prog.Sat.pure (Prog.Sat.fail hgone)
      · exact Prog.Sat.pure (Prog.Sat.fail h₃)
  rcases hparent : path.hasParent with _ | _
  · exact hrest f rfl
  · exact Prog.Sat.bind (Prog.Sat.durable (hrest _ look_createDir) look_createDir rfl rfl)

/-- A restore writes the newest trusted version or nothing: when it returns, the path has the content of
that version with the owner and the permissions of the former file; when it fails, the path shows what it
showed; when it is stopped, one of the two; and what is not a regular file is not replaced. -/
theorem restore_replaces (D : Digest) (s : Store) (P : Process) (counter : Nat) (path : Path)
    (beforeMs : Option Nat) (f : Folder) (plan : Plan) :
    let run := BackupStore.restore D s P counter path beforeMs plan f
    (∀ v, run.1 = .ok v →
      Restored D s P path beforeMs (f.look path.fileName) (run.2.2.look path.fileName) v) ∧
    (∀ e, run.1 = .error e → run.2.2.look path.fileName = f.look path.fileName) ∧
    (run.1 = .killed → run.2.2.look path.fileName = f.look path.fileName ∨
      ∃ v, Restored D s P path beforeMs (f.look path.fileName) (run.2.2.look path.fileName) v) ∧
    (f.look path.fileName = some .other → run.2.2.look path.fileName = some .other ∧
      ∀ v, run.1 ≠ .ok v) := by
  dsimp only
  have hsat := @restore_sat D s P counter path beforeMs f plan
  rcases hrun : BackupStore.restore D s P counter path beforeMs plan f with ⟨o, plan', f'⟩
  rw [hrun] at hsat
  cases o with
  | ok v =>
    refine ⟨fun w hw => ?_, nofun, nofun, fun hother => absurd hother hsat.2⟩
    obtain rfl := Outcome.ok.inj hw
    exact hsat.1
  | error e => exact ⟨nofun, fun _ _ => hsat, nofun, fun hother => ⟨hsat.trans hother, nofun⟩⟩
  | killed => exact ⟨nofun, nofun, fun _ => .inl hsat, fun hother => ⟨hsat.trans hother, nofun⟩⟩

example : (BackupStore.restore sampleDigest
    { index := { versions := [⟨1, "a", sampleDigest.hash [7], 1, 5, 1, true, none⟩] }
      objects := AList.insert (sampleDigest.hash [7]) [7] ∅ }
    ⟨1, 0, 0, 0o022⟩ 0 samplePath none [] ⟨some (AList.insert samplePath (.file [8] 3 4 0o4755) ∅), none⟩).2.2.look
      (some samplePath) = some (.file [7] 3 4 0o755) := by decide +kernel

end Restore

end Argos.Recovery
