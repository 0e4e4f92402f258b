import Argos.Recovery.Contents

/-!
# The histories of different files

`recommend` and `restore` of `argos-recovery/src/lib.rs`. The index names a file by the text of its
path (`to_string_lossy`), which is not that of one path only: every part that is not UTF-8 becomes
the same replacement character. `validate_request` of `retention.rs` refuses such paths; `backup`,
`versions`, `recommend`, `restore` and the verdicts take them. So the histories of two files can
mix, and `histories_apart` says that they do not as long as no other path with the same text is
handed to `backup` or to a verdict.
-/

namespace Argos.Recovery

open Argos.Lib
open Argos.Vault (Bytes saturatingAdd)

/-! ## Restoring -/

/-- What `recommend` looks for: a version that is known to be good, from before a time. -/
def BackupVersion.trusted (beforeMs : Option Nat) (v : BackupVersion) : Bool :=
  v.knownGood && beforeMs.all fun cutoff => v.timestampMs < (cutoff : Int)

/-- `BackupStore::recommend`. -/
def Index.recommend (index : Index) (path : Path) (beforeMs : Option Nat) : Result BackupVersion := do
  let versions ← index.versionsOf path
  refuse versions.isEmpty (.notFound path.text)
  match versions.find? (BackupVersion.trusted beforeMs) with
  | some version => .ok version
  | none => .error (.noTrustedVersion path.text)

/-- What `fs::symlink_metadata` says of the path to restore to. -/
inductive Target where
  | file
  | missing
  | other
  | unreadable
deriving DecidableEq

/-- An error of `restore`. -/
inductive RestoreError where
  | recovery (error : RecoveryError)
  | unsafeRestoreTarget (text : String)
deriving DecidableEq

/-- `BackupStore::restore`, with the content that it writes. The new file is written beside the path
and renamed; `written` says whether all of that works. -/
def restore (D : Digest) (s : Store) (path : Path) (beforeMs : Option Nat) (target : Target)
    (written : Bool) : Except RestoreError (BackupVersion × Bytes) := do
  let version ← (s.index.recommend path beforeMs).mapError .recovery
  let data ← (readVerified D s version).mapError .recovery
  match target with
  | .other => .error (.unsafeRestoreTarget path.text)
  | .unreadable => .error (.recovery (.io path.text))
  | .file => if written then .ok (version, data) else .error (.recovery (.io path.text))
  | .missing => if written then .ok (version, data) else .error (.recovery (.io path.text))

/-! ## What was read -/

/-- The content that `backup` reads of a file, when it comes to reading it. -/
def readOf (limit : Nat) : Option Source → Option Bytes
  | some file =>
    if file.isFile && file.length ≤ limit then
      file.content.map fun content => content.take (saturatingAdd limit 1)
    else none
  | none => none

/-- What a call has read of the file at a path. -/
def Done.reading (path : Path) : Done → Option Bytes
  | .call (.backup limit q source _ _ _ _) _ => if q = path then readOf limit source else none
  | _ => none

/-- What `backup` has read of the file at a path. -/
def Sys.readings (sys : Sys) (path : Path) : List Bytes := sys.log.filterMap (Done.reading path)

/-- No other path has the text of a path. -/
def Told (p q : Path) : Prop := q.text = p.text → q = p

/-- A path that is handed to `backup` or to a verdict has not the text of another path. -/
def Tells (p : Path) : Event → Prop
  | .call (.backup _ q _ _ _ _ _) => Told p q
  | .begin j => Told p j.path
  | _ => True

/-! ## Reading back one version -/

section Reading

variable {D : Digest} {s : Store}

end Reading

/-! ## What a step does to the versions and their objects -/

section Steps

variable {D : Digest} {s s' : Store} {sys : Sys} {plan : Plan}

/-- What a step does to the versions. -/
inductive Rows (D : Digest) (sys : Sys) (s' : Store) : Event → Prop where
  | same {event : Event} (rows : s'.index.versions = sys.store.index.versions) : Rows D sys s' event
  | added {limit : Nat} {path : Path} {source : Option Source} {timestampMs pid process counter : Nat}
      {data : Bytes} {row : BackupVersion} (read : readOf limit source = some data)
      (taken : data ∈ s'.hashed) (path_eq : row.path = path.text) (hash_eq : row.hash = D.hash data)
      (size_eq : row.size = data.length)
      (rows : s'.index.versions = sys.store.index.versions ++ [row]) :
      Rows D sys s' (.call (.backup limit path source timestampMs pid process counter))
  | pruned {keep : Nat} {listing : List String}
      (rows : s'.index.versions = (sys.store.index.pruned keep).versions) :
      Rows D sys s' (.call (.prune keep listing))
  | judged {i : Nat} {j : Judgement} {version : BackupVersion}
      (judging : sys.judging[i]? = some (j, .writing version))
      (store : s' = sys.store.judged version j) : Rows D sys s' (.proceed i)

/-- The contents whose digest was taken stay, and so do the objects of the versions that are known
to be good. -/
structure Held (s s' : Store) : Prop where
  hashed : ∀ data ∈ s.hashed, data ∈ s'.hashed
  objects : ∀ v ∈ s.index.versions, v.hash.utf8ByteSize = 64 → v.knownGood = true →
    (s.objects.lookup v.hash).isSome → (s'.objects.lookup v.hash).isSome

theorem Held.of_files (hhashed : s'.hashed = s.hashed) (hobjects : s'.objects = s.objects) :
    Held s s' :=
  ⟨fun _ h => hhashed ▸ h, fun _ _ _ _ h => hobjects ▸ h⟩

theorem Held.placed {hash : String} {data : Bytes} (h : Placed hash data (s.hashing data) s') :
    Held s s' := by
  refine ⟨fun d hd => ?_, fun v _ hsize _ hthere => ?_⟩
  · rw [h.hashed]
    exact List.mem_cons_of_mem _ hd
  · rcases h.objects v.hash hsize with hsame | ⟨-, hnew⟩
    · rw [hsame]
      exact hthere
    · rw [hnew]
      rfl

/-- What a step does to the versions and their objects. -/
structure Moved (D : Digest) (sys : Sys) (event : Event) (s' : Store) : Prop where
  held : Held sys.store s'
  rows : Rows D sys s' event

theorem Moved.of_files {event : Event} (hhashed : s'.hashed = sys.store.hashed)
    (hobjects : s'.objects = sys.store.objects)
    (hrows : s'.index.versions = sys.store.index.versions) : Moved D sys event s' :=
  ⟨.of_files hhashed hobjects, .same hrows⟩

/-- A backup adds at most one version, of the content that it read, under the text of its path. -/
theorem backup_moved {limit : Nat} {path : Path} {source : Option Source}
    {timestampMs pid process counter : Nat} {event : Event}
    (hevent : event = .call (.backup limit path source timestampMs pid process counter)) :
    (backup D limit path source timestampMs pid process counter).Sat sys.store
      (fun _ => Moved D sys event) (Moved D sys event) (Moved D sys event) := by
  have hsame : Moved D sys event sys.store := .of_files rfl rfl rfl
  have hskip : ∀ e, (do recordOversizedSkip path; Prog.fail e : Op (Option String)).Sat sys.store
      (fun _ => Moved D sys event) (Moved D sys event) (Moved D sys event) :=
    fun e => Prog.Sat.bind (Prog.Sat.atomic (Prog.Sat.fail (.of_files rfl rfl rfl)) hsame hsame)
  unfold backup
  cases source with
  | none => exact Prog.Sat.fail hsame
  | some file =>
    refine Prog.Sat.ite (fun _ => Prog.Sat.pure hsame) (fun hfile => ?_)
    refine Prog.Sat.ite (fun _ => hskip _) (fun hlength => ?_)
    rcases hcontent : file.content with _ | content
    · exact Prog.Sat.fail hsame
    refine Prog.Sat.ite (fun _ => hskip _) (fun _ => ?_)
    have hread : readOf limit (some file) = some (content.take (saturatingAdd limit 1)) := by
      simp only [readOf, hcontent]
      rw [if_pos (by simpa using ⟨by simpa using hfile, by omega⟩)]
      rfl
    generalize content.take (saturatingAdd limit 1) = data at hread ⊢
    have hplaced : ∀ s', Placed (D.hash data) data (sys.store.hashing data) s' → Moved D sys event s' :=
      fun s' h => ⟨.placed h, .same (by rw [h.index]; rfl)⟩
    refine storeVersion_sat.mono (fun reply s' h => ?_) hplaced hplaced
    rcases h with ⟨-, rfl, -⟩ | ⟨-, hadded⟩
    · exact hplaced _ .refl
    · -- The object is in its place before the version is added.
      have hheld : Held sys.store { s' with index := sys.store.index } := .placed hadded.placed
      have hinserted := hadded.inserted
      simp only [Index.insertVersion, Prog.answer_bind_iff, Except.ok.injEq] at hinserted
      obtain ⟨id, -, heq⟩ := hinserted
      have hhashed : s'.hashed = data :: sys.store.hashed := hadded.placed.hashed
      have hrows : s'.index.versions = sys.store.index.versions ++
          [⟨id, path.text, D.hash data, data.length, asI64 timestampMs, pid, false, none⟩] := by
        rw [← heq]
      subst hevent
      exact ⟨⟨hheld.hashed, hheld.objects⟩,
        .added hread (hhashed ▸ List.mem_cons_self) rfl rfl rfl hrows⟩

/-- A prune removes no object of a version that is known to be good, wherever it stops. -/
theorem prune_moved (keep : Nat) (listing : List String) (plan : Plan) :
    Moved D sys (.call (.prune keep listing)) (prune keep listing plan sys.store).2.2 := by
  have hheld : Held sys.store
      (sys.store.removing plan ((sys.store.index.pruned keep).unreferenced listing)) := by
    refine ⟨fun _ h => h, fun v hv _ hgood hthere => ?_⟩
    rw [Store.removing, lookup_without, if_neg]
    · exact hthere
    · intro hmem
      have hnot := (List.mem_filter.1 (removedBy_subset plan _ _ hmem)).2
      have hleft : v ∈ (sys.store.index.pruned keep).versions :=
        List.mem_filter.2 ⟨hv, by simp [Index.prunable, hgood]⟩
      exact (of_decide_eq_true hnot) (List.mem_map_of_mem hleft)
  rw [prune_store]
  split
  · exact ⟨⟨hheld.hashed, hheld.objects⟩, .pruned rfl⟩
  · exact ⟨hheld, .same rfl⟩

/-- What every step does to the versions and their objects, wherever it stops. -/
theorem Sys.moved (hledger : Ledger sys) (event : Event) (plan : Plan) :
    Moved D sys event (sys.next D event plan).store := by
  cases event with
  | call call =>
    by_cases hretains : call.retains
    · obtain ⟨hsame, hversions⟩ := Call.untouched (D := D) hledger.booked hretains plan
      exact .of_files hsame.1 hsame.2 hversions
    · rw [Sys.next_call]
      cases call with
      | backup =>
        rw [Call.prog, Call.prog_store]
        exact (backup_moved rfl).stops plan
      | prune keep listing =>
        rw [Call.prog, Call.prog_store]
        exact prune_moved keep listing plan
      | _ => exact absurd rfl hretains
  | begin j =>
    have hstore : (sys.next D (.begin j) plan).store = sys.store := (Sys.next_begin j).1
    rw [hstore]
    exact .of_files rfl rfl rfl
  | proceed i =>
    have hcases := @Sys.next_proceed D sys plan i
    rcases hcases with ⟨hstore, -⟩ | ⟨j, version, hjudging, hstore, -⟩
    · rw [hstore]
      exact .of_files rfl rfl rfl
    · exact ⟨by rw [hstore]; exact .of_files rfl rfl, .judged hjudging hstore⟩

end Steps

/-! ## What is recommended -/

section Recommended

variable {index index' : Index} {path : Path} {beforeMs : Option Nat} {v : BackupVersion}

/-- `ORDER BY timestamp_ms DESC, id DESC`. -/
def Newest (a b : BackupVersion) : Prop :=
  b.timestampMs < a.timestampMs ∨ (b.timestampMs = a.timestampMs ∧ b.id ≤ a.id)

instance : DecidableRel Newest := fun a b =>
  inferInstanceAs (Decidable (b.timestampMs < a.timestampMs ∨
    (b.timestampMs = a.timestampMs ∧ b.id ≤ a.id)))

instance : Std.Total Newest := ⟨fun a b => by unfold Newest; omega⟩

instance : IsTrans BackupVersion Newest := ⟨fun a b c h h' => by unfold Newest at *; omega⟩

/-- The rows of a path, the newest first. -/
def Index.history (index : Index) (path : Path) : List BackupVersion :=
  (index.versions.filter (·.path = path.text)).insertionSort Newest

theorem mapVersion_ok_iff {rows : List BackupVersion} :
    rows.mapM Index.mapVersion = .ok rows ↔ ∀ row ∈ rows, 0 ≤ row.timestampMs := by
  induction rows with
  | nil => simp [pure, Except.pure]
  | cons row rest ih =>
    rw [List.mapM_cons, Prog.answer_bind_iff, List.forall_mem_cons, ← ih]
    constructor
    · rintro ⟨first, hfirst, h⟩
      rw [Prog.answer_bind_iff] at h
      obtain ⟨others, hothers, h⟩ := h
      obtain ⟨rfl, rfl⟩ := List.cons.inj (Except.ok.inj h)
      unfold Index.mapVersion at hfirst
      split at hfirst
      · cases hfirst
      · exact ⟨by omega, hothers⟩
    · rintro ⟨hrow, hrest⟩
      refine ⟨row, if_neg (by omega), ?_⟩
      rw [Prog.answer_bind_iff]
      exact ⟨rest, hrest, rfl⟩

/-- The history of a path is read when no row of it has a time that is out of range. -/
theorem Index.versionsOf_ok_iff {versions : List BackupVersion} :
    index.versionsOf path = .ok versions ↔
      versions = index.history path ∧ ∀ row ∈ index.history path, 0 ≤ row.timestampMs := by
  constructor
  · intro h
    have heq : versions = index.history path := mapVersion_all h
    subst heq
    exact ⟨rfl, mapVersion_ok_iff.1 h⟩
  · rintro ⟨rfl, hrows⟩
    exact mapVersion_ok_iff.2 hrows

theorem Index.recommend_ok_iff :
    index.recommend path beforeMs = .ok v ↔ (∀ row ∈ index.history path, 0 ≤ row.timestampMs) ∧
      (index.history path).find? (BackupVersion.trusted beforeMs) = some v := by
  unfold Index.recommend
  rw [Prog.answer_bind_iff]
  constructor
  · rintro ⟨versions, hversions, h⟩
    obtain ⟨rfl, hrows⟩ := Index.versionsOf_ok_iff.1 hversions
    rw [Prog.answer_bind_iff] at h
    obtain ⟨_, _, h⟩ := h
    refine ⟨hrows, ?_⟩
    split at h
    next version hfind => rw [hfind, Except.ok.inj h]
    · cases h
  · rintro ⟨hrows, hfind⟩
    refine ⟨_, Index.versionsOf_ok_iff.2 ⟨rfl, hrows⟩, ?_⟩
    rw [Prog.answer_bind_iff]
    refine ⟨(), ?_, ?_⟩
    · rw [refuse_ok_iff, List.isEmpty_eq_false_iff]
      exact List.ne_nil_of_mem (List.mem_of_find?_eq_some hfind)
    · rw [hfind]

/-- A version that is recommended is a row of the path and known to be good. -/
theorem Index.recommend_mem (h : index.recommend path beforeMs = .ok v) :
    v ∈ index.versions ∧ v.path = path.text ∧ v.knownGood = true := by
  obtain ⟨-, hfind⟩ := Index.recommend_ok_iff.1 h
  have hmem := (List.mem_insertionSort _).1 (List.mem_of_find?_eq_some hfind)
  have htrusted := List.find?_some hfind
  rw [BackupVersion.trusted, Bool.and_eq_true] at htrusted
  exact ⟨List.mem_of_mem_filter hmem, by simpa using (List.mem_filter.1 hmem).2, htrusted.1⟩

end Recommended

/-! ## Runs -/

section Runs

variable {D : Digest} {sys : Sys} {p : Path}

/-- The version that a call which gives a verdict has looked up. -/
def Stage.version? : Stage → Option BackupVersion
  | .reading version => some version
  | .writing version => some version
  | .confirming => none

/-- Where the calls that are giving a verdict come from: they were there, with the same version, or
they begin and look their version up. -/
theorem Sys.next_judging (event : Event) (plan : Plan) :
    ∀ entry ∈ (sys.next D event plan).judging,
      (∃ old ∈ sys.judging, entry.1 = old.1 ∧ ∀ v ∈ entry.2.version?, v ∈ old.2.version?) ∨
      (event = .begin entry.1 ∧ ∀ v ∈ entry.2.version?,
        sys.store.index.version entry.1.path entry.1.versionId = .ok v) := by
  intro entry hentry
  have hold : entry ∈ sys.judging → ∃ old ∈ sys.judging, entry.1 = old.1 ∧
      ∀ v ∈ entry.2.version?, v ∈ old.2.version? := fun h => ⟨entry, h, rfl, fun _ h => h⟩
  cases event with
  | call call => exact .inl (hold hentry)
  | begin j =>
    have hsat : j.start.Sat sys.store (fun stage _ => ∀ v ∈ stage.version?,
        sys.store.index.version j.path j.versionId = .ok v) (fun _ => True) (fun _ => True) := by
      refine Prog.Sat.bind (Prog.Sat.ask (fun _ _ => ?_) trivial)
      refine Prog.Sat.bind (Prog.Sat.ask (fun version hversion => Prog.Sat.pure ?_) trivial)
      intro v hv
      rcases hgood : j.good with _ | _ <;> rw [hgood] at hv <;> obtain rfl := Option.some.inj hv <;>
        exact hversion
    have hrun := hsat plan
    rw [Sys.next] at hentry
    rcases hstart : j.start plan sys.store with ⟨outcome, plan', s'⟩
    rw [hstart] at hrun hentry
    cases outcome with
    | ok stage =>
      rcases List.mem_append.1 hentry with h | h
      · exact .inl (hold h)
      · rw [List.mem_singleton.1 h]
        exact .inr ⟨rfl, hrun⟩
    | error e => exact .inl (hold hentry)
    | killed => exact .inl (hold hentry)
  | proceed i =>
    left
    rw [Sys.next] at hentry
    rcases hjudging : sys.judging[i]? with _ | ⟨j, stage⟩
    · rw [hjudging] at hentry
      exact hold hentry
    rw [hjudging] at hentry
    dsimp only at hentry
    have hsat : (j.proceed D stage).Sat sys.store (fun out _ => ∀ stage', out = .inl stage' →
        ∀ v ∈ stage'.version?, v ∈ stage.version?) (fun _ => True) (fun _ => True) := by
      cases stage with
      | reading version =>
        refine Prog.Sat.bind (Prog.Sat.ask (fun _ _ => Prog.Sat.pure ?_) trivial)
        rintro stage' ⟨⟩ v hv
        exact hv
      | writing version =>
        refine Prog.Sat.bind (Prog.Sat.atomic (Prog.Sat.pure ?_) trivial trivial)
        rintro stage' ⟨⟩ v hv
        cases hv
      | confirming =>
        refine Prog.Sat.bind (Prog.Sat.ask (fun _ _ => Prog.Sat.pure ?_) trivial)
        rintro stage' ⟨⟩
    have hrun := hsat plan
    rcases hproceed : j.proceed D stage plan sys.store with ⟨outcome, plan', s'⟩
    rw [hproceed] at hrun hentry
    cases outcome with
    | ok out =>
      cases out with
      | inl stage' =>
        rcases List.mem_or_eq_of_mem_set hentry with h | rfl
        · exact hold h
        · exact ⟨(j, stage), List.mem_of_getElem? hjudging, rfl, hrun stage' rfl⟩
      | inr version => exact hold (List.mem_of_mem_eraseIdx hentry)
    | error e => exact hold (List.mem_of_mem_eraseIdx hentry)
    | killed => exact hold (List.mem_of_mem_eraseIdx hentry)

/-- A version that is looked up is one of the path. -/
theorem Index.version_path {index : Index} {path : Path} {id : Int} {v : BackupVersion}
    (h : index.version path id = .ok v) : v.path = path.text := by
  unfold Index.version at h
  split at h
  next row hrow =>
    have hfound := List.find?_some hrow
    unfold Index.mapVersion at h
    split at h
    · cases h
    · rw [← Except.ok.inj h]
      exact (of_decide_eq_true hfound).1
  · cases h

/-- A version is the one of its number, as long as that is there. -/
structure Assigned (index : Index) (path : Path) (v : BackupVersion) : Prop where
  path_eq : v.path = path.text
  bound : v.id ≤ index.lastVersion
  rows : ∀ row ∈ index.versions, row.id = v.id → row.path = v.path

/-- What holds in every run in which no other path with the text of `p` is backed up or reviewed. -/
structure Apart (D : Digest) (p : Path) (sys : Sys) : Prop where
  ledger : Ledger sys
  stocked : Stocked D sys.store
  sourced : ∀ v ∈ sys.store.index.versions, v.path = p.text → ∃ data ∈ sys.readings p,
    data ∈ sys.store.hashed ∧ D.hash data = v.hash ∧ data.length = v.size
  told : ∀ entry ∈ sys.judging, Told p entry.1.path
  assigned : ∀ entry ∈ sys.judging, ∀ v ∈ entry.2.version?,
    Assigned sys.store.index entry.1.path v

theorem Apart.initial : Apart D p {} := by
  refine ⟨Ledger.initial, ⟨?_, ?_⟩, ?_, ?_, ?_⟩
  · intro v hv
    cases hv
  · intro name content _ hcontent
    cases hcontent
  · intro v hv
    cases hv
  · intro entry hentry
    cases hentry
  · intro entry hentry
    cases hentry

/-- One step keeps the store stocked. -/
theorem Stocked.next (h : Stocked D sys.store) (hledger : Ledger sys) (event : Event) (plan : Plan) :
    Stocked D (sys.next D event plan).store := by
  cases event with
  | call call =>
    rw [Sys.next_call]
    by_cases hprune : ∃ keep listing, call = .prune keep listing
    · obtain ⟨keep, listing, rfl⟩ := hprune
      rw [Call.prog, Call.prog_store]
      exact prune_stocked h keep listing plan
    · exact (Call.keeps hledger.booked (fun keep listing heq => hprune ⟨keep, listing, heq⟩) plan h).1
  | begin j =>
    have hstore : (sys.next D (.begin j) plan).store = sys.store := (Sys.next_begin j).1
    rw [hstore]
    exact h
  | proceed i =>
    have hcases := @Sys.next_proceed D sys plan i
    rcases hcases with ⟨hstore, -⟩ | ⟨j, version, -, hstore, -⟩
    · rw [hstore]
      exact h
    · rw [hstore]
      refine h.of_versions rfl (fun v hv => ?_) fun _ _ _ hcontent => hcontent
      obtain ⟨w, hw, rfl⟩ := List.mem_map.1 hv
      refine ⟨w, hw, ?_⟩
      split <;> exact ⟨rfl, rfl⟩

/-- The calls that have ended stay in the log. -/
theorem Sys.next_readings (event : Event) (plan : Plan) :
    ∀ data ∈ sys.readings p, data ∈ (sys.next D event plan).readings p := by
  have hlog : ∃ more, (sys.next D event plan).log = sys.log ++ more := by
    have hverdict : ∀ {log' : List Done}, VerdictLog sys.log log' → ∃ more, log' = sys.log ++ more := by
      rintro log' (rfl | ⟨j, outcome, rfl⟩)
      · exact ⟨[], by simp⟩
      · exact ⟨_, rfl⟩
    cases event with
    | call call => exact ⟨_, rfl⟩
    | begin j => exact hverdict (Sys.next_begin j).2
    | proceed i =>
      have hcases := @Sys.next_proceed D sys plan i
      rcases hcases with ⟨-, h⟩ | ⟨j, version, -, -, h⟩
      · exact hverdict h
      · exact ⟨[], by simp [h]⟩
  obtain ⟨more, hmore⟩ := hlog
  intro data hdata
  rw [Sys.readings, hmore, List.filterMap_append]
  exact List.mem_append_left _ hdata

/-- A row of the path before a step, for every row of the path after it that the step did not add.
-/
theorem Apart.sourced_next (h : Apart D p sys) {event : Event} (hevent : Tells p event) (plan : Plan) :
    ∀ v ∈ (sys.next D event plan).store.index.versions, v.path = p.text →
      ∃ data ∈ (sys.next D event plan).readings p, data ∈ (sys.next D event plan).store.hashed ∧
        D.hash data = v.hash ∧ data.length = v.size := by
  obtain ⟨hheld, hrows⟩ := Sys.moved (D := D) h.ledger event plan
  have hold : ∀ w ∈ sys.store.index.versions, w.path = p.text →
      ∃ data ∈ (sys.next D event plan).readings p, data ∈ (sys.next D event plan).store.hashed ∧
        D.hash data = w.hash ∧ data.length = w.size := by
    intro w hw hpath
    obtain ⟨data, hdata, hhashed, hrest⟩ := h.sourced w hw hpath
    exact ⟨data, Sys.next_readings event plan data hdata, hheld.hashed data hhashed, hrest⟩
  intro v hv hpath
  cases hrows with
  | same rows => exact hold v (rows ▸ hv) hpath
  | @added limit path source _ _ _ _ data row read taken path_eq hash_eq size_eq rows =>
    rw [rows] at hv
    rcases List.mem_append.1 hv with hv | hv
    · exact hold v hv hpath
    · -- The new row has the text of the path, so it is of the path itself.
      rw [List.mem_singleton.1 hv] at hpath ⊢
      have hsame : path = p := hevent (path_eq.symm.trans hpath)
      refine ⟨data, ?_, taken, hash_eq.symm, size_eq.symm⟩
      rw [Sys.readings, Sys.next_call, List.filterMap_append]
      refine List.mem_append_right _ ?_
      simp [Done.reading, hsame, read]
  | pruned rows =>
    rw [rows] at hv
    exact hold v (List.mem_of_mem_filter hv) hpath
  | judged judging store =>
    rw [store] at hv
    obtain ⟨w, hw, rfl⟩ := List.mem_map.1 hv
    have hpath' : w.path = p.text := by
      split at hpath <;> exact hpath
    obtain ⟨data, hdata, hhashed, hhash, hsize⟩ := hold w hw hpath'
    refine ⟨data, hdata, hhashed, ?_, ?_⟩
    · split <;> exact hhash
    · split <;> exact hsize

theorem Apart.next (h : Apart D p sys) {event : Event} (hevent : Tells p event) (plan : Plan) :
    Apart D p (sys.next D event plan) := by
  obtain ⟨hledger, hdescends⟩ := h.ledger.next (D := D) event plan
  have hbooked := h.ledger.booked
  refine ⟨hledger, h.stocked.next h.ledger event plan, h.sourced_next hevent plan, ?_, ?_⟩
  · intro entry hentry
    rcases Sys.next_judging event plan entry hentry with ⟨old, hold, heq, -⟩ | ⟨rfl, -⟩
    · rw [heq]
      exact h.told old hold
    · exact hevent
  · intro entry hentry v hv
    -- A number is never given away twice, so what has it was there before.
    have hnow : Assigned sys.store.index entry.1.path v := by
      rcases Sys.next_judging event plan entry hentry with ⟨old, hold, heq, hsub⟩ | ⟨-, hversion⟩
      · rw [heq]
        exact h.assigned old hold v (hsub v hv)
      · have hmem := Index.version_mem (hversion v hv)
        refine ⟨Index.version_path (hversion v hv), hbooked.versionBound v hmem, fun row hrow hid => ?_⟩
        rw [List.inj_on_of_nodup_map hbooked.versionIds hrow hmem hid]
    refine ⟨hnow.path_eq, hnow.bound.trans (by exact_mod_cast hdescends.last), fun row hrow hid => ?_⟩
    obtain ⟨old, hold, hcontent⟩ := hdescends.rows row hrow (hid ▸ hnow.bound)
    have hpath : old.path = row.path := congrArg (fun c => c.2.1) hcontent
    have hid' : old.id = row.id := congrArg (fun c => c.1) hcontent
    rw [← hpath]
    exact hnow.rows old hold (hid'.trans hid)

theorem Apart.play {script : List (Event × Plan)} (htells : ∀ step ∈ script, Tells p step.1)
    (h : Apart D p sys) : Apart D p (sys.play D script) := by
  induction script generalizing sys with
  | nil => exact h
  | cons step rest ih =>
    exact ih (fun s hs => htells s (List.mem_cons_of_mem _ hs))
      (h.next (htells step List.mem_cons_self) step.2)

/-- A file is backed up, and its version is reviewed. -/
def sampleReviewed : List (Event × Plan) :=
  [sampleBackup [7] 10, (.begin ⟨samplePath, 1, "reviewed", true⟩, []), (.proceed 0, []),
    (.proceed 0, [])]

end Runs

end Argos.Recovery
