import Argos.Queue.Acceptance
import Argos.Queue.Fencing
import Mathlib.Data.Set.Lattice

/-!
# The queue never locks itself out

Every call opens the queue first, and opening refuses tables that do not pass `validate_database` and a
directory `objects` with a file that it does not know or with too many of them. Whatever is refused
once is refused for ever. So it is proved of every run, killed at any point and as often as you like,
that the tables it leaves are accepted (`Sys.Standing`) and that so are the files (`Disk.Tame`), and
with both that the next opening returns.
-/

namespace Argos.Queue

open Argos.Lib
open Argos.Vault (Bytes Result Error SignedReceipt BundleRecord refuse validKind sampleBody)
open Argos.Vault (refuse_ok_iff Result.bind_ok_iff Result.check_ok_iff exists_unit_iff)

section Openable

variable {F : Formats} {sys : Sys} {db db' : Database} {target : QueueTarget}

/-! ## The tables of every run -/

variable (F) in
/-- The tables are those that opening accepts, and every job can be read. -/
def Accepted (db : Database) : Prop := Valid F db ∧ Readable F db

/-- The identifiers of the items. -/
def Database.ids (db : Database) : Set String := {id | ∃ r ∈ db.items ++ db.archive, r.id = id}

/-- A target that was made from a configuration is one that opening accepts. -/
theorem fromConfig_ok (hkeys : ∀ text key, F.publicKey text = some key → F.publicKey key = some key)
    {config : VaultConfig} (h : QueueTarget.fromConfig F config = .ok target) :
    Vault.validId target.agentId ∧ Vault.validId target.keyId ∧
      (F.publicKey target.pinnedPubkey).isSome := by
  rw [QueueTarget.fromConfig] at h
  obtain ⟨url, hurl, h⟩ := Result.bind_ok_iff.1 h
  obtain ⟨hagent, h⟩ := Result.check_ok_iff.1 h
  have hkeyId : Vault.validId config.keyId := by
    rw [validatedEndpoint] at hurl
    rcases hendpoint : F.url config.endpoint with _ | url'
    · rw [hendpoint] at hurl
      cases hurl
    simp only [hendpoint, Result.check_ok_iff, refuse_ok_iff, Bool.or_eq_false_iff, Bool.not_eq_false'] at hurl
    exact hurl.2.2.2.2.2.1.1.1.1
  rcases hkey : F.publicKey config.pinnedPubkey with _ | key
  · rw [hkey] at h
    cases h
  rw [hkey] at h
  obtain ⟨-, h⟩ := Result.check_ok_iff.1 h
  cases h
  refine ⟨by simpa [refuse_ok_iff] using hagent, hkeyId, ?_⟩
  dsimp only
  rw [hkeys _ _ hkey]
  rfl

/-- What makes a queue is a target from a configuration, with limits that were checked. -/
theorem Event.makes_ok {event : Event} {limits : QueueLimits} (h : event.makes F target limits) :
    limits.validate = .ok () ∧ ∃ config, QueueTarget.fromConfig F config = .ok target := by
  cases event with
  | enqueue config _ _ _ _ =>
    obtain ⟨rfl, hlimits, htarget⟩ := h
    exact ⟨hlimits, config, htarget⟩
  | beginBundle request _ =>
    obtain ⟨b, hcheck, rfl, rfl⟩ := h
    rw [BundleRequest.check] at hcheck
    obtain ⟨hlimits, hcheck⟩ := Result.check_ok_iff.1 hcheck
    obtain ⟨target', htarget, hcheck⟩ := Result.bind_ok_iff.1 hcheck
    rcases hmanifest : request.manifest with _ | manifest
    · rw [hmanifest] at hcheck
      cases hcheck
    rw [hmanifest] at hcheck
    obtain ⟨-, hcheck⟩ := Result.check_ok_iff.1 hcheck
    obtain ⟨chunks, -, hcheck⟩ := Result.bind_ok_iff.1 hcheck
    obtain ⟨-, hcheck⟩ := Result.check_ok_iff.1 hcheck
    cases hcheck
    exact ⟨hlimits, request.config, htarget⟩
  | _ => exact h.elim

/-- The tables of a new queue are accepted. -/
theorem accepted_initial (hF : F.ReadsBack)
    (hkeys : ∀ text key, F.publicKey text = some key → F.publicKey key = some key) {event : Event}
    {limits : QueueLimits} (h : event.makes F target limits) :
    Accepted F (.initial F target limits) := by
  obtain ⟨hlimits, config, htarget⟩ := Event.makes_ok h
  have hread : (Database.initial F target limits).target? F = some target := hF.target _
  refine ⟨?_, fun j hj => by cases hj⟩
  refine ⟨⟨target, hread, fromConfig_ok hkeys htarget⟩, hlimits, ?_, ?_, ?_, ?_, ?_, ?_, ?_, ?_, ?_, ?_⟩
  all_goals simp [Database.initial]

/-- A transaction adds no identifier but those that its event draws. -/
theorem Sys.change_ids {event : Event} (h : sys.change F event target db db') :
    db'.ids ⊆ db.ids ∪ event.draws := by
  have hsame : db'.items.map (·.id) = db.items.map (·.id) → db'.archive = db.archive →
      db'.ids ⊆ db.ids ∪ event.draws := by
    rintro hitems harchive id ⟨r, hr, rfl⟩
    rcases List.mem_append.1 hr with hr | hr
    · obtain ⟨q, hq, hid⟩ := List.mem_map.1 (hitems ▸ List.mem_map.2 ⟨r, hr, rfl⟩)
      exact .inl ⟨q, List.mem_append_left _ hq, hid⟩
    · exact .inl ⟨r, List.mem_append_right _ (harchive ▸ hr), rfl⟩
  have hadded : ∀ rows : List ItemRow, (∀ r ∈ rows, r.id ∈ event.draws) →
      db'.items = db.items ++ rows → db'.archive = db.archive → db'.ids ⊆ db.ids ∪ event.draws := by
    rintro rows hrows hitems harchive id ⟨r, hr, rfl⟩
    rw [hitems, harchive, List.append_assoc] at hr
    rcases List.mem_append.1 hr with hr | hr
    · exact .inl ⟨r, List.mem_append_left _ hr, rfl⟩
    rcases List.mem_append.1 hr with hr | hr
    · exact .inr (hrows r hr)
    · exact .inl ⟨r, List.mem_append_right _ hr, rfl⟩
  cases event with
  | enqueue _ _ kind limits r =>
    obtain ⟨id, hid, -, -, hash, size, -, -, hins⟩ := h
    obtain ⟨-, rfl⟩ := insertItem_ok_iff.1 hins
    refine hadded _ (fun q hq => ?_) rfl rfl
    rw [List.mem_singleton.1 hq]
    exact ⟨id, hid, rfl⟩
  | claim _ timeoutSecs now clock token =>
    obtain ⟨row, token', -, -, -, rfl⟩ := h
    refine hsame ?_ rfl
    rw [Database.updateItem, List.map_map]
    refine List.map_congr_left fun r _ => ?_
    dsimp only [Function.comp_apply]
    split <;> rfl
  | finish i _ result now clock =>
    obtain ⟨lease, -, -, hresult⟩ := h
    cases result with
    | ok receipt =>
      have hmove := hresult.2
      rw [Database.archiveItem] at hmove
      split at hmove
      · cases hmove
      cases hmove
      rintro id ⟨r, hr, rfl⟩
      rcases List.mem_append.1 hr with hr | hr
      · exact .inl ⟨r, List.mem_append_left _ (List.mem_filter.1 hr).1, rfl⟩
      rcases List.mem_append.1 hr with hr | hr
      · exact .inl ⟨r, List.mem_append_right _ hr, rfl⟩
      · obtain ⟨q, hq, rfl⟩ := List.mem_map.1 hr
        exact .inl ⟨q, List.mem_append_left _ (List.mem_filter.1 hq).1, rfl⟩
    | error code =>
      obtain rfl := hresult
      refine hsame ?_ rfl
      rw [Database.retryItem, List.map_map]
      refine List.map_congr_left fun r _ => ?_
      dsimp only [Function.comp_apply]
      split <;> rfl
  | claimJob _ timeoutSecs now clock token =>
    obtain ⟨row, token', -, -, -, job, -, -, rfl⟩ := h
    exact hsame rfl rfl
  | finishJob i _ result now clock =>
    obtain ⟨lease, -, -, hresult⟩ := h
    cases result with
    | ok record =>
      obtain ⟨-, -, -, -, rfl⟩ := hresult
      exact hsame rfl rfl
    | error code =>
      obtain rfl := hresult
      exact hsame rfl rfl
  | proceed i r =>
    obtain ⟨stage, -, hlimits, -, hchunks, refs, linked, job, hrefs, hlinked, hins, -⟩ := h
    obtain ⟨hmap, -⟩ := admission_ok hlimits hrefs
    obtain ⟨hordered, -⟩ := uniqueChunks_spec hchunks
    have hhashes : refs.map (·.sha256) = stage.bundle.chunks.map (·.1) := by
      rw [← hmap, List.map_map]
      rfl
    have hrows := linkRows_ok (hhashes ▸ hordered.keys_nodup) hlinked
    obtain ⟨-, -, hdb'⟩ := insertJob_ok_iff.1 hins
    rw [hrows] at hdb'
    refine hadded _ (fun q hq => ?_) (by rw [hdb']) (by rw [hdb'])
    obtain ⟨ref, href, rfl⟩ := List.mem_map.1 hq
    obtain ⟨href, hlacks⟩ := List.mem_filter.1 href
    obtain ⟨id, hdraw, hid⟩ := admission_drawn hrefs ref href hlacks
    exact ⟨_, id, hdraw, hid⟩
  | beginBundle _ _ => exact h.elim
  | abort _ _ => exact h.elim
  | reorder _ => exact h.elim

/-- What a run keeps of the tables: they are accepted, and their identifiers were drawn. -/
def Sys.Standing (F : Formats) (sys : Sys) (drawn : Set String) : Prop :=
  ∀ db, sys.disk.db? = some db → Accepted F db ∧ db.ids ⊆ drawn

theorem Sys.Standing.next (hF : F.ReadsBack)
    (hkeys : ∀ text key, F.publicKey text = some key → F.publicKey key = some key) (hok : sys.Ok F)
    {drawn : Set String} (h : sys.Standing F drawn) (event : Event) (plan : Plan)
    (hfresh : ∀ id ∈ drawn, id ∉ event.draws) :
    (sys.next F event plan).Standing F (drawn ∪ event.draws) := by
  -- the tables that the step finds
  have hbegins : ∀ db, Begins F (event.makes F) sys.disk db →
      Accepted F db ∧ db.ids ⊆ drawn ∧ Known F sys.leases sys.jobLeases db := by
    intro db hdb
    rcases hdb with hdb | ⟨hnone, target, limits, hmakes, rfl⟩
    · exact ⟨(h db hdb).1, (h db hdb).2, hok.known db hdb⟩
    · obtain ⟨hleases, hjobLeases⟩ := hok.fresh hnone
      rw [hleases, hjobLeases]
      refine ⟨accepted_initial hF hkeys hmakes, ?_, by simp, by simp⟩
      rintro id ⟨r, hr, -⟩
      cases hr
  intro db₁ hdb₁
  rcases hok.moved event plan with hsame | ⟨db, hdb, hsame | ⟨target, db', -, hpinned, hchange, hdb'⟩⟩
  · obtain ⟨haccepted, hids⟩ := h db₁ (hsame.symm.trans hdb₁)
    exact ⟨haccepted, hids.trans Set.subset_union_left⟩
  · obtain rfl : db = db₁ := Option.some.inj (hsame.symm.trans hdb₁)
    obtain ⟨haccepted, hids, -⟩ := hbegins db hdb
    exact ⟨haccepted, hids.trans Set.subset_union_left⟩
  · obtain rfl : db' = db₁ := Option.some.inj (hdb'.symm.trans hdb₁)
    obtain ⟨⟨hvalid, hreadable⟩, hids, hknown⟩ := hbegins db hdb
    have hsound := hdb.sound hok.disk
    obtain ⟨hsound', hkeeps⟩ := Sys.change_sound hF hsound (validateCurrent_ok_iff.2 hvalid) hknown
      hpinned hchange
    have hnew : ∀ a ∈ db.archive, a.id ∉ event.draws := fun a ha hdrawn =>
      hfresh _ (hids ⟨a, List.mem_append_right _ ha, rfl⟩) hdrawn
    refine ⟨⟨Sys.change_valid hsound hvalid hkeeps hnew hchange,
      Sys.change_readable hF hsound hsound' hknown hpinned hreadable hchange⟩, ?_⟩
    exact (Sys.change_ids hchange).trans (Set.union_subset_union_left _ hids)

/-- A script draws no identifier twice. -/
def Fresh (script : List (Event × Plan)) : Prop :=
  script.Pairwise fun step step' => ∀ id ∈ step.1.draws, id ∉ step'.1.draws

theorem Sys.Standing.play (hF : F.ReadsBack)
    (hkeys : ∀ text key, F.publicKey text = some key → F.publicKey key = some key)
    {script : List (Event × Plan)} (hscript : Fresh script) : ∀ {sys : Sys} {drawn : Set String},
    sys.Ok F → sys.Standing F drawn → (∀ step ∈ script, ∀ id ∈ drawn, id ∉ step.1.draws) →
      ∃ drawn', (sys.play F script).Standing F drawn' := by
  induction script with
  | nil => exact fun _ h _ => ⟨_, h⟩
  | cons step rest ih =>
    intro sys drawn hok h hfresh
    obtain ⟨hstep, hrest⟩ := List.pairwise_cons.1 hscript
    refine ih hrest (hok.next hF step.1 step.2).1
      (h.next hF hkeys hok step.1 step.2 (hfresh step List.mem_cons_self)) fun step' hstep' => ?_
    rintro id (hid | hid)
    · exact hfresh step' (List.mem_cons_of_mem _ hstep') id hid
    · exact hstep step' hstep' id hid

/-! ## The files of every run -/

/-- A name that the calls write. -/
def EntryName.Known : EntryName → Prop
  | .snapshot id => idOk id = true
  | .temporary _ _ => True
  | .foreign _ => False

/-- The files are those that the calls write, at most `n`, and whoever has tables has a lock. -/
structure Disk.Tame (n : Nat) (d : Disk) : Prop where
  lock : d.stored.isSome → d.lock
  known : ∀ e ∈ d.files, e.1.Known
  few : d.files.length ≤ n

/-- The most files that any call leaves: one for each item, and what a call adds. -/
def mostFiles : Nat := maxItems + 64

variable {d d' : Disk} {n n' : Nat} {creating : Option (QueueTarget × QueueLimits)}

theorem Disk.Tame.mono (h : d.Tame n) (hle : n ≤ n') : d.Tame n' :=
  ⟨h.lock, h.known, h.few.trans hle⟩

theorem Disk.Tame.tidied (h : d.Tame n) (ht : Tidied d d') : d'.Tame n := by
  refine ⟨fun hs => ?_, fun e he => h.known e (ht.files.mem he), ht.files.length_le.trans h.few⟩
  rw [ht.lock]
  exact h.lock (ht.stored ▸ hs)

theorem Disk.Tame.add (h : d.Tame n) {name : EntryName} {file : File} (hname : name.Known) :
    (d.add name file).Tame (n + 1) := by
  rcases hobjects : d.objects with _ | objects
  · have hsame : d.add name file = d := by
      cases d
      simp only at hobjects
      simp [Disk.add, hobjects]
    rw [hsame]
    exact h.mono (Nat.le_succ n)
  have hfiles : (d.add name file).files = d.files ++ [(name, file)] :=
    Disk.files_add (by rw [hobjects]; rfl)
  refine ⟨h.lock, fun e he => ?_, ?_⟩
  · rw [hfiles] at he
    rcases List.mem_append.1 he with he | he
    · exact h.known e he
    · rw [List.mem_singleton.1 he]
      exact hname
  · rw [hfiles, List.length_append, List.length_singleton]
    exact Nat.succ_le_succ h.few

theorem Disk.Tame.remove (h : d.Tame n) (name : EntryName) : (d.remove name).Tame n := by
  refine ⟨h.lock, fun e he => ?_, ?_⟩
  · rw [Disk.files_remove] at he
    exact h.known e (List.mem_filter.1 he).1
  · rw [Disk.files_remove]
    exact (List.length_filter_le _ _).trans h.few

theorem Disk.Tame.release (h : d.Tame n) (id : String) (stat : Nat) : (d.release id stat).Tame n := by
  refine ⟨h.lock, fun e he => ?_, ?_⟩
  · rw [Disk.files_release] at he
    obtain ⟨e', he', rfl⟩ := List.mem_map.1 he
    have hknown := h.known e' he'
    split
    · exact hknown
    · exact hknown
  · rw [Disk.files_release, List.length_map]
    exact h.few

theorem Disk.Tame.commit (h : d.Tame n) (hlock : d.lock) (db : Database) : (d.commit db).Tame n :=
  ⟨fun _ => hlock, h.known, h.few⟩

/-! ### Opening -/

/-- A program leaves the files in order, wherever it stops. -/
def Orderly {α : Type} (p : Op α) (d : Disk) : Prop :=
  p.Sat d (fun _ d' => d'.Tame mostFiles) (·.Tame mostFiles) (·.Tame mostFiles)

variable {target : QueueTarget}

theorem Disk.Tame.most (h : d.Tame maxItems) : d.Tame mostFiles := h.mono (Nat.le_add_right _ _)

/-- A snapshot is written under a temporary name first: at most two files more. -/
theorem writeNew_tame (ht : d.Tame maxItems) (hlock : d.lock = true) {id : String} (hid : idOk id)
    (bytes : Bytes) (r : EnqueueReadings) : (writeNew id bytes r).Sat d
      (fun _ d' => d'.Tame mostFiles ∧ d'.lock = true) (·.Tame mostFiles) (·.Tame mostFiles) := by
  have hle : maxItems + 2 ≤ mostFiles := Nat.add_le_add_left (by decide) maxItems
  have htwo : ∀ d' : Disk, d'.Tame (maxItems + 2) → d'.Tame mostFiles := fun d' h => h.mono hle
  unfold writeNew
  refine Prog.Sat.bind (Prog.Sat.ask (fun _ _ => ?_) ht.most)
  have h1 : (d.add (.temporary r.pid r.sequence) ⟨bytes, r.stat, false⟩).Tame (maxItems + 1) :=
    ht.add trivial
  refine Prog.Sat.bind (Prog.Sat.durable ?_ (htwo _ (h1.mono (Nat.le_succ _))) ht.most ht.most)
  generalize hd₁ : d.add (.temporary r.pid r.sequence) ⟨bytes, r.stat, false⟩ = d₁ at h1 ⊢
  have hlock₁ : d₁.lock = true := hd₁ ▸ hlock
  -- the temporary file is removed, whatever fails
  have hfail : ∀ d₂ : Disk, d₂.Tame (maxItems + 2) → ∀ e,
      (do
        Prog.handle (Prog.durable .external fun d =>
          (d.remove (.temporary r.pid r.sequence)).release id r.stat) (fun _ => pure ())
        Prog.fail e : Op Unit).Sat d₂ (fun _ d' => d'.Tame mostFiles ∧ d'.lock = true)
        (·.Tame mostFiles) (·.Tame mostFiles) := by
    intro d₂ h e
    have hclean := htwo _ ((h.remove (.temporary r.pid r.sequence)).release id r.stat)
    refine Prog.Sat.bind (Prog.Sat.handle (Prog.Sat.durable (Prog.Sat.fail hclean) (fun _ => ?_)
      (fun _ => ?_) (htwo _ h)))
    · exact Prog.Sat.pure (Prog.Sat.fail hclean)
    · exact Prog.Sat.pure (Prog.Sat.fail (htwo _ h))
  have h1' : d₁.Tame (maxItems + 2) := h1.mono (Nat.le_succ _)
  have h2 : (d₁.add (.snapshot id) ⟨bytes, r.stat, true⟩).Tame (maxItems + 2) := h1.add hid
  refine Prog.Sat.handle ?_
  refine Prog.Sat.bind (Prog.Sat.ask (fun _ _ => ?_) (hfail _ h1'))
  refine Prog.Sat.bind (Prog.Sat.durable ?_ (hfail _ h2) (hfail _ h1') (htwo _ h1'))
  have h3 := (h2.remove (.temporary r.pid r.sequence)).release id r.stat
  refine Prog.Sat.bind (Prog.Sat.durable ?_ (hfail _ h3) (hfail _ h2) (htwo _ h2))
  exact touch_sat ⟨htwo _ h3, hlock₁⟩ (hfail _ h3) (htwo _ h3)

theorem Orderly.ends {α : Type} {p : Op α} (h : Orderly p d) {plan rest : Plan}
    {o : Outcome Error α} (hrun : p plan d = (o, rest, d')) : d'.Tame mostFiles :=
  ends_of_sat h (fun _ _ h => h) hrun

/-- The orphan of an archived item may be removed. -/
theorem verifyOrphan_ok (hsound : Sound F db) (hpinned : db.target? F = some target) (id : String) :
    verifyOrphan F db id = .ok () := by
  rw [verifyOrphan]
  split
  · rfl
  next row hfind =>
  obtain ⟨item, hdecode, hverified⟩ :=
    hsound.archived row (List.mem_of_find?_eq_some hfind) target hpinned
  have hread : db.queueMeta.read F = .ok (target, db.queueMeta.limits) := by
    rw [Database.target?] at hpinned
    rw [QueueMeta.read, hpinned]
  simp only [hdecode, hread]
  exact hverified

/-- The loop of `cleanup` goes through, when it knows the files and there are not too many. -/
theorem cleanupEntries_calm (hsound : Sound F db) (hpinned : db.target? F = some target)
    {entries : Objects} {count : Nat} (hknown : ∀ e ∈ entries, e.1.Known)
    (hfew : count + entries.length ≤ maxItems * 2 + 100) :
    (cleanupEntries F db entries count).Calm d (fun _ d' => d'.stored = d.stored)
      (fun _ => False) := by
  induction entries generalizing d count with
  | nil => exact Prog.Calm.pure rfl
  | cons e rest ih =>
    obtain ⟨name, file⟩ := e
    rw [List.length_cons] at hfew
    have hname : name.Known := hknown _ List.mem_cons_self
    have hrest : ∀ d' : Disk, (cleanupEntries F db rest (count + 1)).Calm d'
        (fun _ d'' => d''.stored = d'.stored) (fun _ => False) := fun d' =>
      ih (fun e he => hknown e (List.mem_cons_of_mem _ he)) (by omega)
    have hremoved : ((Prog.durable Error.external (Disk.remove name) : Op Unit) >>= fun _ =>
        cleanupEntries F db rest (count + 1) >>= fun _ => (pure true : Op Bool)).Calm d
          (fun _ d' => d'.stored = d.stored) (fun _ => False) := by
      refine Prog.Calm.bind (Prog.Calm.durable (Prog.Calm.bind ((hrest _).mono (fun _ d' h => ?_)
        (fun _ h => h))))
      exact Prog.Calm.pure h
    rw [cleanupEntries.eq_def]
    dsimp only
    have hcount : refuse (count ≥ maxItems * 2 + 100) "큐 스냅샷 디렉터리 항목 상한 초과" = .ok () := by
      simp only [refuse_ok_iff, decide_eq_false_iff_not, ge_iff_le, not_le]
      omega
    refine Prog.Calm.bind (Prog.Calm.answer hcount ?_)
    cases name with
    | temporary pid sequence => exact hremoved
    | snapshot id =>
      refine Prog.Calm.ite (fun hbad => ?_) fun _ => Prog.Calm.ite (fun _ => hrest d) fun _ => ?_
      · rw [show idOk id = true from hname] at hbad
        cases hbad
      · exact Prog.Calm.bind (Prog.Calm.answer (verifyOrphan_ok hsound hpinned id) hremoved)
    | foreign name => exact hname.elim

theorem mostFiles_le : mostFiles ≤ maxItems * 2 + 100 := by decide

/-- `cleanup` goes through. -/
theorem cleanup_calm (hd : Inv F d) (ht : d.Tame mostFiles) (hdb : d.db? = some db)
    (hvalid : Valid F db) (hpinned : db.target? F = some target) :
    (cleanup F).Calm d (fun _ d' => d'.stored = d.stored) (fun _ => False) := by
  have hsound := hd.sound db hdb
  have hmax : refuse (decide (db.items.length > maxItems)) "큐 기록의 절대 상한 초과" = .ok () := by
    simp [refuse_ok_iff, hvalid.active]
  have hids : refuse (db.items.any fun r => !idOk r.id)
      "큐 기록이 유효하지 않아 스냅샷 정리를 거부합니다" = .ok () := by
    simp only [refuse_ok_iff, List.any_eq_false, Bool.not_eq_true', Bool.not_eq_false]
    exact fun r hr => (hsound.active r hr).2.2.2
  unfold cleanup tables
  refine Prog.Calm.bind (Prog.Calm.answer (tables_ok_iff.2 hdb) ?_)
  refine Prog.Calm.bind (Prog.Calm.answer hmax ?_)
  refine Prog.Calm.bind (Prog.Calm.answer hids ?_)
  refine Prog.Calm.bind (Prog.Calm.gets ?_)
  have hfew : 0 + d.files.length ≤ maxItems * 2 + 100 := by
    rw [Nat.zero_add]
    exact ht.few.trans mostFiles_le
  refine Prog.Calm.bind ((cleanupEntries_calm hsound hpinned ht.known hfew).mono
    (fun removed d' h => ?_) (fun _ h => h))
  exact Prog.Calm.ite (fun _ => Prog.Calm.durable h) fun _ => Prog.Calm.pure h

/-- A queue in order opens. -/
theorem opens (hd : Inv F d) (ht : d.Tame mostFiles) (hdb : d.db? = some db)
    (haccepted : Accepted F db) (hpinned : db.target? F = some target)
    (creating : Option (QueueTarget × QueueLimits)) :
    (openFor F creating target [] d).1 = .ok db := by
  have hstored := Disk.db?_eq_some.1 hdb
  have hsome : d.stored.isSome := by rw [hstored]; rfl
  have hfresh : d.fresh = false := by simp [Disk.fresh, hstored]
  have hvalid : validateDatabase F (d.stored.getD .blank) = .ok () := by
    rw [hstored]
    exact validateCurrent_ok_iff.2 haccepted.1
  have hcalm : (openFor F creating target).Calm d (fun db' _ => db' = db) (fun _ => False) := by
    unfold openFor openMutating enterQueue
    refine Prog.Calm.bind (Prog.Calm.bind (Prog.Calm.bind (Prog.Calm.gets ?_)))
    refine Prog.Calm.ite (fun h => by rw [hfresh] at h; cases h) fun _ => ?_
    unfold findQueue
    refine Prog.Calm.bind (Prog.Calm.answer (if_pos (ht.lock hsome)) ?_)
    refine Prog.Calm.bind (Prog.Calm.durable ?_)
    refine Prog.Calm.bind (Prog.Calm.answer (if_pos (hd.objects db hdb)) ?_)
    refine Prog.Calm.answer (if_pos hsome) ?_
    refine Prog.Calm.bind (Prog.Calm.answer hvalid ?_)
    unfold migrate
    refine Prog.Calm.bind (Prog.Calm.bind (Prog.Calm.gets ?_))
    rw [show (id d) = d from rfl, hstored]
    refine Prog.Calm.ite (fun _ => Prog.Calm.pure ?_) fun h => (h rfl).elim
    refine (cleanup_calm hd ht hdb haccepted.1 hpinned).mono (fun _ d' h => ?_) (fun _ h => h)
    have hdb' : d'.db? = some db := Disk.db?_eq_some.2 (h.trans hstored)
    unfold tables
    refine Prog.Calm.bind (Prog.Calm.answer (tables_ok_iff.2 hdb') ?_)
    refine Prog.Calm.bind (Prog.Calm.answer (assertTarget_ok_iff.2 hpinned) ?_)
    exact Prog.Calm.pure rfl
  obtain ⟨db', d', hrun, rfl⟩ := hcalm.returns
  rw [hrun]

end Openable

end Argos.Queue
