import Argos.Queue.Opening

/-!
# The changes of the tables

`Change` lists what a transaction of the queue can do to its tables, with everything that the call has
checked before. From it follows, once for all calls, that the tables stay sound and that nothing is
lost (`Change.sound`). A lease is known when the item or job it is for is in the tables: the receipt
that a worker brings was verified against its lease, and is stored in the row.
-/

namespace Argos.Queue

open Argos.Lib
open Argos.Vault (Bytes Result Error SignedReceipt BundleManifest BundleRecord Chunk refuse validKind
  validHash validate verifyRecord)
open Argos.Vault (refuse_ok_iff Result.bind_ok_iff Result.check_ok_iff exists_unit_iff)

/-! ## Maps of chunks -/

theorem mem_insertChunk {hash : String} {size : Nat} {l : List (String × Nat)} {p : String × Nat}
    (h : p ∈ insertChunk hash size l) : p = (hash, size) ∨ p ∈ l := by
  induction l with
  | nil => exact .inl (List.mem_singleton.1 h)
  | cons q rest ih =>
    obtain ⟨k, n⟩ := q
    rw [insertChunk] at h
    split at h
    · rcases List.mem_cons.1 h with rfl | h
      · exact .inl rfl
      · exact .inr h
    · split at h
      · rcases List.mem_cons.1 h with rfl | h
        · exact .inl rfl
        · exact .inr (List.mem_cons_of_mem _ h)
      · rcases List.mem_cons.1 h with rfl | h
        · exact .inr List.mem_cons_self
        · exact (ih h).imp id (List.mem_cons_of_mem _)

theorem self_mem_insertChunk (hash : String) (size : Nat) (l : List (String × Nat)) :
    (hash, size) ∈ insertChunk hash size l := by
  induction l with
  | nil => exact List.mem_singleton.2 rfl
  | cons q rest ih =>
    rw [insertChunk]
    split
    · exact List.mem_cons_self
    · split
      · exact List.mem_cons_self
      · exact List.mem_cons_of_mem _ ih

/-- The map is ordered by its keys. -/
def Ordered (l : List (String × Nat)) : Prop := l.Pairwise (fun p q => p.1 < q.1)

theorem Ordered.insertChunk {l : List (String × Nat)} (h : Ordered l) (hash : String) (size : Nat) :
    Ordered (insertChunk hash size l) := by
  induction l with
  | nil => exact List.pairwise_singleton _ _
  | cons q rest ih =>
    obtain ⟨k, n⟩ := q
    obtain ⟨hhead, htail⟩ := List.pairwise_cons.1 h
    rw [Queue.insertChunk]
    split
    · next hlt =>
      refine List.pairwise_cons.2 ⟨fun p hp => ?_, h⟩
      rcases List.mem_cons.1 hp with rfl | hp
      · exact hlt
      · exact String.lt_trans hlt (hhead p hp)
    · next hnot =>
      split
      · next heq => exact List.pairwise_cons.2 ⟨fun p hp => heq ▸ hhead p hp, htail⟩
      · next hne =>
        refine List.pairwise_cons.2 ⟨fun p hp => ?_, ih htail⟩
        rcases mem_insertChunk hp with rfl | hp
        · by_contra hle
          exact hne (String.le_antisymm (String.not_lt.1 hle) (String.not_lt.1 hnot))
        · exact hhead p hp

/-- The other entries of a map stay. -/
theorem mem_insertChunk_of_ne {l : List (String × Nat)} {p : String × Nat} (hp : p ∈ l)
    {hash : String} (hne : p.1 ≠ hash) (size : Nat) : p ∈ insertChunk hash size l := by
  induction l with
  | nil => cases hp
  | cons q rest ih =>
    obtain ⟨k, n⟩ := q
    rw [insertChunk]
    split
    · exact List.mem_cons_of_mem _ hp
    · split
      · next heq =>
        rcases List.mem_cons.1 hp with rfl | hp
        · exact (hne heq.symm).elim
        · exact List.mem_cons_of_mem _ hp
      · rcases List.mem_cons.1 hp with rfl | hp
        · exact List.mem_cons_self
        · exact List.mem_cons_of_mem _ (ih hp)

/-- In an ordered map, an entry is found. -/
theorem Ordered.lookup {l : List (String × Nat)} (h : Ordered l) {p : String × Nat} (hp : p ∈ l) :
    l.lookup p.1 = some p.2 := by
  induction l with
  | nil => cases hp
  | cons q rest ih =>
    obtain ⟨hhead, htail⟩ := List.pairwise_cons.1 h
    rw [List.lookup_cons]
    rcases List.mem_cons.1 hp with rfl | hp
    · simp
    · have hne : (p.1 == q.1) = false := by
        refine beq_eq_false_iff_ne.2 fun heq => String.lt_irrefl q.1 ?_
        have hlt := hhead p hp
        rwa [heq] at hlt
      rw [hne]
      exact ih htail hp

theorem uniqueChunksLoop_spec {chunks : List Chunk} {refs out : List (String × Nat)}
    (hordered : Ordered refs) (h : uniqueChunksLoop chunks refs = .ok out) :
    Ordered out ∧ (∀ p ∈ refs, p ∈ out) ∧ (∀ c ∈ chunks, (c.sha256, c.sizeBytes) ∈ out) ∧
      ∀ p ∈ out, p ∈ refs ∨ ∃ c ∈ chunks, p = (c.sha256, c.sizeBytes) := by
  induction chunks generalizing refs with
  | nil =>
    cases h
    exact ⟨hordered, fun p hp => hp, by simp, fun p hp => .inl hp⟩
  | cons c rest ih =>
    rw [uniqueChunksLoop] at h
    obtain ⟨hsame, h⟩ := Result.check_ok_iff.1 h
    obtain ⟨hout, hrefs, hchunks, hfrom⟩ :=
      ih (hordered.insertChunk c.sha256 c.sizeBytes) h
    refine ⟨hout, fun p hp => hrefs p ?_, ?_, fun p hp => ?_⟩
    · by_cases hp' : p.1 = c.sha256
      · have hlookup := hordered.lookup hp
        rw [hp'] at hlookup
        rw [refuse_ok_iff, hlookup] at hsame
        have hsize : p.2 = c.sizeBytes := by simpa using hsame
        have hpair : p = (c.sha256, c.sizeBytes) := Prod.ext hp' hsize
        rw [hpair]
        exact self_mem_insertChunk _ _ _
      · exact mem_insertChunk_of_ne hp hp' _
    · exact List.forall_mem_cons.2 ⟨hrefs _ (self_mem_insertChunk _ _ _), hchunks⟩
    · rcases hfrom p hp with hp | ⟨c', hc', rfl⟩
      · rcases mem_insertChunk hp with rfl | hp
        · exact .inr ⟨c, List.mem_cons_self, rfl⟩
        · exact .inl hp
      · exact .inr ⟨c', List.mem_cons_of_mem _ hc', rfl⟩

/-- The distinct chunks of a manifest are its chunks. -/
theorem uniqueChunks_spec {F : Formats} {manifest : BundleManifest} {out : List (String × Nat)}
    (h : uniqueChunks F manifest = .ok out) : Ordered out ∧
      (∀ c ∈ manifest.chunks, (c.sha256, c.sizeBytes) ∈ out) ∧
      ∀ p ∈ out, ∃ c ∈ manifest.chunks, p = (c.sha256, c.sizeBytes) := by
  obtain ⟨-, h⟩ := Result.check_ok_iff.1 h
  obtain ⟨hordered, -, hchunks, hfrom⟩ := uniqueChunksLoop_spec List.Pairwise.nil h
  exact ⟨hordered, hchunks, fun p hp => (hfrom p hp).resolve_left (by simp)⟩

theorem mem_refMap {refs : List BundleChunkRef} {p : String × Nat} (h : p ∈ refMap refs) :
    ∃ r ∈ refs, p = (r.sha256, r.sizeBytes) := by
  have hfold : ∀ (refs : List BundleChunkRef) (found : List (String × Nat)),
      p ∈ refs.foldl (fun found r => insertChunk r.sha256 r.sizeBytes found) found →
        p ∈ found ∨ ∃ r ∈ refs, p = (r.sha256, r.sizeBytes) := by
    intro refs
    induction refs with
    | nil => exact fun found h => .inl h
    | cons r rest ih =>
      intro found h
      rcases ih _ h with h | ⟨r', hr', heq⟩
      · rcases mem_insertChunk h with h | h
        · exact .inr ⟨r, List.mem_cons_self, h⟩
        · exact .inl h
      · exact .inr ⟨r', List.mem_cons_of_mem _ hr', heq⟩
  exact (hfold refs [] h).resolve_left (by simp)

/-! ## Jobs that are ready -/

section Ready

variable {F : Formats} {db : Database}

variable (F) in
/-- What `validate_database` checks, as one list. -/
structure Valid (db : Database) : Prop where
  target : ∃ target, db.target? F = some target ∧ Vault.validId target.agentId ∧
    Vault.validId target.keyId ∧ (F.publicKey target.pinnedPubkey).isSome
  limits : db.queueMeta.limits.validate = .ok ()
  active : db.items.length ≤ maxItems
  total : db.archive.length + db.items.length ≤ maxArchiveItems
  items : ∀ q ∈ db.items, q.badActive = false
  disjoint : ∀ q ∈ db.items, ∀ a ∈ db.archive, q.toItemColumns.same a.toItemColumns = false
  archived : ∀ a ∈ db.archive, a.badArchived = false
  jobCount : db.jobs.length ≤ maxBundleJobs
  jobs : ∀ j ∈ db.jobs, j.bad = false
  refCount : db.refs.length ≤ maxBundleJobs * 64
  named : ∀ r ∈ db.refs, db.badRef r = false
  counted : ∀ j ∈ db.jobs, db.badCount j = false

theorem validateMeta_ok_iff {queueMeta : QueueMeta} {active : Nat} :
    validateMeta F queueMeta active = .ok () ↔
      (∃ target, F.target.decode queueMeta.targetJson = some target ∧
        Vault.validId target.agentId ∧ Vault.validId target.keyId ∧
        (F.publicKey target.pinnedPubkey).isSome) ∧
      queueMeta.limits.validate = .ok () ∧ active ≤ maxItems := by
  rw [validateMeta, QueueMeta.read]
  rcases F.target.decode queueMeta.targetJson with _ | target
  · simp [Result.bind_ok_iff]
  rcases hkey : F.publicKey target.pinnedPubkey with _ | key
  · simp [Result.bind_ok_iff, hkey]
  · simp [Result.bind_ok_iff, hkey, exists_unit_iff, refuse_ok_iff, and_assoc]

theorem validateArchive_ok_iff {items archive : List ItemRow} :
    validateArchive items archive = .ok () ↔
      archive.length + items.length ≤ maxArchiveItems ∧ (∀ q ∈ items, q.badActive = false) ∧
      (∀ q ∈ items, ∀ a ∈ archive, q.toItemColumns.same a.toItemColumns = false) ∧
      ∀ a ∈ archive, a.badArchived = false := by
  have hlt : maxArchiveItems < Vault.u64Max := by decide
  have hsum : Vault.saturatingAdd archive.length items.length ≤ maxArchiveItems ↔
      archive.length + items.length ≤ maxArchiveItems := by
    unfold Vault.saturatingAdd
    omega
  simp only [validateArchive, Result.check_ok_iff, refuse_ok_iff, decide_eq_false_iff_not, not_lt,
    gt_iff_lt, Bool.or_eq_false_iff, List.any_eq_false, Bool.not_eq_true, and_assoc, hsum]

theorem validateSchema_ok_iff : validateSchema db = .ok () ↔
    db.jobs.length ≤ maxBundleJobs ∧ (∀ j ∈ db.jobs, j.bad = false) ∧
      db.refs.length ≤ maxBundleJobs * 64 ∧ (∀ r ∈ db.refs, db.badRef r = false) ∧
      ∀ j ∈ db.jobs, db.badCount j = false := by
  simp only [validateSchema, Result.check_ok_iff, refuse_ok_iff, decide_eq_false_iff_not, not_lt,
    gt_iff_lt, Bool.or_eq_false_iff, List.any_eq_false, Bool.not_eq_true, and_assoc]

theorem validateCurrent_ok_iff : validateCurrent F db = .ok () ↔ Valid F db := by
  rw [validateCurrent, Result.check_ok_iff, Result.check_ok_iff, validateMeta_ok_iff,
    validateArchive_ok_iff, validateSchema_ok_iff]
  constructor
  · rintro ⟨⟨htarget, hlimits, hactive⟩, ⟨htotal, hitems, hdisjoint, harchived⟩, hjobCount, hjobs,
      hrefCount, hnamed, hcounted⟩
    exact ⟨htarget, hlimits, hactive, htotal, hitems, hdisjoint, harchived, hjobCount, hjobs,
      hrefCount, hnamed, hcounted⟩
  · intro h
    exact ⟨⟨h.target, h.limits, h.active⟩, ⟨h.total, h.items, h.disjoint, h.archived⟩, h.jobCount,
      h.jobs, h.refCount, h.named, h.counted⟩

theorem Valid.ids (h : Valid F db) {q a : ItemRow} (hq : q ∈ db.items) (ha : a ∈ db.archive) :
    q.id ≠ a.id := by
  intro heq
  have := h.disjoint q hq a ha
  simp [ItemColumns.same, heq] at this

/-- A reference names an item, active or archived. -/
theorem Valid.names (h : Valid F db) {r : RefRow} (hr : r ∈ db.refs) :
    ∃ q ∈ db.items ++ db.archive, r.names q.toItemColumns := by
  have hbad := h.named r hr
  simp only [Database.badRef, Bool.or_eq_false_iff, Bool.not_eq_false', Bool.or_eq_true,
    List.any_eq_true] at hbad
  rcases hbad.2 with ⟨q, hq, hn⟩ | ⟨a, ha, hn⟩
  · exact ⟨q, List.mem_append_left _ hq, hn⟩
  · exact ⟨a, List.mem_append_right _ ha, hn⟩

/-- A reference belongs to a job. -/
theorem Valid.hasJob (h : Valid F db) {r : RefRow} (hr : r ∈ db.refs) : db.hasJob r.bundleId := by
  have hbad := h.named r hr
  simp only [Database.badRef, Bool.or_eq_false_iff, Bool.not_eq_false'] at hbad
  exact hbad.1

theorem decodeJob_ok {row : JobRow} {job : BundleJob} (h : decodeJob F row = .ok job) :
    job.bundleId = row.bundleId ∧ F.manifest.decode row.manifestJson = some job.manifest ∧
      job.phase = row.phase ∧ job.state = row.state ∧ job.attempts = row.attempts ∧
      job.chunkItems = [] := by
  rw [decodeJob] at h
  rcases hdecode : F.manifest.decode row.manifestJson with _ | manifest
  · simp [hdecode, Result.bind_ok_iff] at h
  simp only [hdecode, Result.bind_ok_iff, Except.ok.injEq, exists_eq_left'] at h
  obtain ⟨_, _, _, _, rfl⟩ := h
  exact ⟨rfl, rfl, rfl, rfl, rfl, rfl⟩

theorem load_ok {id : String} {job : BundleJob} (h : load F db id = .ok job) :
    ∃ row target, db.jobs.find? (·.bundleId = id) = some row ∧ db.target? F = some target ∧
      decodeJob F row = .ok { job with chunkItems := [] } ∧ job.chunkItems = db.refsOf id ∧
      proof F job target = .ok () := by
  rw [load] at h
  rcases hrow : db.jobs.find? (·.bundleId = id) with _ | row
  · simp [hrow] at h
  simp only [hrow] at h
  obtain ⟨job₀, hjob₀, h⟩ := Result.bind_ok_iff.1 h
  rw [QueueMeta.read] at h
  rcases htarget : F.target.decode db.queueMeta.targetJson with _ | target
  · simp [htarget, Result.bind_ok_iff] at h
  simp only [htarget, Result.bind_ok_iff, Except.ok.injEq, exists_eq_left'] at h
  obtain ⟨u, hproof, rfl⟩ := h
  refine ⟨row, target, hrow, htarget, ?_, rfl, hproof⟩
  rw [hjob₀]
  congr 1
  have hnil : job₀.chunkItems = [] := (decodeJob_ok hjob₀).2.2.2.2.2
  cases job₀
  simp only at hnil
  rw [hnil]

theorem proof_ok {job : BundleJob} {target : QueueTarget} (h : proof F job target = .ok ()) :
    job.bundleId = job.manifest.bundleId ∧
      uniqueChunks F job.manifest = .ok (refMap job.chunkItems) := by
  obtain ⟨-, h⟩ := Result.check_ok_iff.1 h
  obtain ⟨hid, h⟩ := Result.check_ok_iff.1 h
  obtain ⟨expected, hexpected, h⟩ := Result.bind_ok_iff.1 h
  obtain ⟨hrefs, -⟩ := Result.check_ok_iff.1 h
  simp only [refuse_ok_iff, Bool.or_eq_false_iff, bne_eq_false_iff_eq] at hid hrefs
  exact ⟨hid.1, hrefs.1.1 ▸ hexpected⟩

theorem mem_refsOf {id : String} {r : BundleChunkRef} (h : r ∈ db.refsOf id) :
    ∃ row ∈ db.refs, row.bundleId = id ∧ row.toBundleChunkRef = r := by
  rw [Database.refsOf, List.mem_mergeSort] at h
  obtain ⟨row, hrow, rfl⟩ := List.mem_map.1 h
  obtain ⟨hmem, hid⟩ := List.mem_filter.1 hrow
  exact ⟨row, hmem, by simpa using hid, rfl⟩

/-- A job that is loaded and whose chunks are all archived has its evidence. -/
theorem evidence_of_ready (hvalid : validateCurrent F db = .ok ()) {id : String} {job : BundleJob}
    (hload : load F db id = .ok job) (hready : db.ready id) {j : JobRow}
    (hj : db.jobs.find? (·.bundleId = id) = some j) : Evidence F db j := by
  have hvalid := validateCurrent_ok_iff.1 hvalid
  obtain ⟨row, target, hrow, -, hdecode, hitems, hproof⟩ := load_ok hload
  rw [hj] at hrow
  cases hrow
  refine ⟨job.manifest, (decodeJob_ok hdecode).2.1, fun c hc => ?_⟩
  have hc := (uniqueChunks_spec (proof_ok hproof).2).2.1 c hc
  obtain ⟨r, hr, hpair⟩ := mem_refMap hc
  rw [hitems] at hr
  obtain ⟨ref, href, hid, rfl⟩ := mem_refsOf hr
  have hall := List.all_eq_true.1 hready ref href
  simp only [hid, bne_self_eq_false, Bool.false_or, List.any_eq_true, beq_iff_eq] at hall
  obtain ⟨a, ha, haid⟩ := hall
  obtain ⟨hhash, hsize⟩ := Prod.mk.inj hpair
  obtain ⟨b, hb, hn⟩ := hvalid.names href
  simp only [RefRow.names, Bool.and_eq_true, beq_iff_eq] at hn
  rcases List.mem_append.1 hb with hb | hb
  · exact (hvalid.ids hb ha (hn.1.1.1.trans haid.symm)).elim
  · exact ⟨b, hb, hn.1.1.2, hn.1.2.trans hhash.symm, hn.2.trans hsize.symm⟩

end Ready

/-! ## Leases that are known -/

section Known

variable (F : Formats)

/-- The item is in the tables, active or archived. -/
def Knows (db : Database) (item : QueueItem) : Prop :=
  ∃ r ∈ db.items ++ db.archive, r.id = item.id ∧ r.kind = item.kind ∧ r.sha256 = item.sha256 ∧
    r.sizeBytes = item.sizeBytes

/-- The job is in the tables, with the same manifest. -/
def KnowsJob (db : Database) (job : BundleJob) : Prop :=
  ∃ j ∈ db.jobs, j.bundleId = job.bundleId ∧ F.manifest.decode j.manifestJson = some job.manifest

/-- Every lease that was given out is for an item or a job of the tables. -/
structure Known (leases : List Lease) (jobLeases : List JobLease) (db : Database) : Prop where
  items : ∀ lease ∈ leases, Knows db lease.item
  jobs : ∀ lease ∈ jobLeases, KnowsJob F db lease.job

variable {F} {db db' : Database} {leases : List Lease} {jobLeases : List JobLease}

theorem Knows.kept {item : QueueItem} (h : Knows db item) (hkeeps : Keeps db db') :
    Knows db' item := by
  obtain ⟨r, hr, hid, hkind, hhash, hsize⟩ := h
  obtain ⟨r', hr', hid', hkind', hhash', hsize'⟩ := hkeeps.mem hr
  exact ⟨r', hr', hid'.trans hid, hkind'.trans hkind, hhash'.trans hhash, hsize'.trans hsize⟩

theorem KnowsJob.kept {job : BundleJob} (h : KnowsJob F db job) (hkeeps : Keeps db db') :
    KnowsJob F db' job := by
  obtain ⟨j, hj, hid, hdecode⟩ := h
  obtain ⟨j', hj', hkept⟩ := hkeeps.jobs j hj
  refine ⟨j', hj', hkept.bundleId.trans hid, ?_⟩
  rw [hkept.manifestJson]
  exact hdecode

theorem Known.kept (h : Known F leases jobLeases db) (hkeeps : Keeps db db') :
    Known F leases jobLeases db' :=
  ⟨fun lease hl => (h.items lease hl).kept hkeeps, fun lease hl => (h.jobs lease hl).kept hkeeps⟩

/-- An active row with the identifier of a known item is the row of that item. -/
theorem Knows.active {item : QueueItem} (h : Knows db item) (hdb : Sound F db)
    (hvalid : validateCurrent F db = .ok ()) {r : ItemRow} (hr : r ∈ db.items)
    (hid : r.id = item.id) :
    r.kind = item.kind ∧ r.sha256 = item.sha256 ∧ r.sizeBytes = item.sizeBytes := by
  obtain ⟨r₀, hr₀, hid₀, hrest⟩ := h
  rcases List.mem_append.1 hr₀ with hr₀ | hr₀
  · have : r = r₀ := List.inj_on_of_nodup_map hdb.itemIds hr hr₀ (hid.trans hid₀.symm)
    rw [this]
    exact hrest
  · exact ((validateCurrent_ok_iff.1 hvalid).ids hr hr₀ (hid.trans hid₀.symm)).elim

/-- The row of a known job. -/
theorem KnowsJob.row {job : BundleJob} (h : KnowsJob F db job) (hdb : Sound F db) {j : JobRow}
    (hj : j ∈ db.jobs) (hid : j.bundleId = job.bundleId) :
    F.manifest.decode j.manifestJson = some job.manifest := by
  obtain ⟨j₀, hj₀, hid₀, hdecode⟩ := h
  have : j = j₀ := List.inj_on_of_nodup_map hdb.jobIds hj hj₀ (hid.trans hid₀.symm)
  rw [this]
  exact hdecode

end Known

/-! ## Changes -/

/-- What was encoded is read back. -/
structure Formats.ReadsBack (F : Formats) : Prop where
  signedReceipt : F.signedReceipt.RoundTrips
  signedCompletion : F.signedCompletion.RoundTrips
  manifest : F.manifest.RoundTrips
  target : F.target.RoundTrips

/-- What `enqueue_bundle` inserts into the active items: the chunks that the queue does not have. -/
def linkRows (now : Nat) : List BundleChunkRef → Database → Result Database
  | [], db => .ok db
  | item :: rest, db =>
    if (db.lookup item.sha256).isSome then linkRows now rest db
    else do
      refuse (!idOk item.itemId) "큐 항목 ID 오류"
      let next ← db.insertItem (newRow item.itemId "backup" item.sha256 item.sizeBytes now)
      linkRows now rest next

section Changes

variable (F : Formats) (leases : List Lease) (jobLeases : List JobLease) (target : QueueTarget)

/-- What a transaction may do to the tables of a queue for `target`. -/
inductive Change (db : Database) : Database → Prop
  /-- `enqueue`. -/
  | enqueued {db' : Database} {id kind hash : String} {size now : Nat} {limits : QueueLimits}
      (hlimits : limits.validate = .ok ()) (hkind : validKind kind) (hid : idOk id)
      (hnew : db.findObject kind hash = none) (hroom : checkRoom db limits size = .ok ())
      (hins : { db with queueMeta := { db.queueMeta with limits := limits } }.insertItem
        (newRow id kind hash size now) = .ok db') : Change db db'
  /-- `claim`. -/
  | leased {row : ItemRow} {token : String} {timeoutSecs now : Nat} (hrow : row ∈ db.items)
      (hdue : row.due now) (htoken : idOk token) : Change db
        (db.updateItem row.id (ItemRow.leased token (leaseExpires now timeoutSecs)
          (nextAttempt row.attempts) (later now (retryDelay (nextAttempt row.attempts)))))
  /-- `finish` of an upload that succeeded. -/
  | archived {db' : Database} {lease : Lease} {receipt : SignedReceipt} {now : Nat}
      (hlease : lease ∈ leases) (howned : db.items.any (·.owned lease.item.id lease.token now))
      (hverified : verifiedItem F (lease.completed receipt now) target = .ok ())
      (hmove : db.archiveItem lease.item.id lease.token now (F.signedReceipt.encode receipt) =
        .ok db') : Change db db'
  /-- `finish` of an upload that failed. -/
  | retried {lease : Lease} {now retry : Nat} {code : String} (hlease : lease ∈ leases)
      (howned : db.items.any (·.owned lease.item.id lease.token now)) :
      Change db (db.retryItem lease.item.id lease.token retry code)
  /-- `enqueue_bundle`. -/
  | registered {linked db' : Database} {b : Bundle} {refs : List BundleChunkRef} {now : Nat}
      {draw : String → Option RandomId} {job : BundleJob} (hlimits : b.limits.validate = .ok ())
      (hnew : db.hasJob b.manifest.bundleId = false)
      (hchunks : uniqueChunks F b.manifest = .ok b.chunks)
      (hrefs : admission F db b.chunks b.limits target draw = .ok refs)
      (hlinked : linkRows now refs db = .ok linked)
      (hins : linked.insertJob (newJob F b.manifest now) refs b.limits = .ok db')
      (hload : load F db' b.manifest.bundleId = .ok job) : Change db db'
  /-- `claim_job`. -/
  | jobLeased {row : JobRow} {job : BundleJob} {token : String} {timeoutSecs now : Nat}
      (hrow : row ∈ db.jobs) (hdue : db.dueJob now row) (hload : load F db row.bundleId = .ok job)
      (hverified : verifyArchived F db target job.chunkItems = .ok ()) (htoken : idOk token) :
      Change db (db.updateJob (·.bundleId = row.bundleId) (JobRow.leased token
        (leaseExpires now timeoutSecs) (nextAttempt job.attempts)
        (later now (retryDelay (nextAttempt job.attempts)))))
  /-- `finish_job` of a step that succeeded. -/
  | advanced {lease : JobLease} {record : BundleRecord} {now : Nat} (hlease : lease ∈ jobLeases)
      (howned : db.jobs.any (·.owned lease.job.bundleId lease.token now))
      (hverified : verifyRecord F.toPrimitives record target.pinnedPubkey target.keyId = .ok ())
      (hmanifest : record.manifest = lease.job.manifest) (hagent : record.agentId = target.agentId)
      (hphase : lease.job.phase = .complete → record.completion.isSome) :
      Change db (db.updateJob (·.held lease.job.bundleId lease.token) (JobRow.advanced F record now))
  /-- `finish_job` of a step that failed. -/
  | jobRetried {lease : JobLease} {now retry : Nat} {code : String} (hlease : lease ∈ jobLeases)
      (howned : db.jobs.any (·.owned lease.job.bundleId lease.token now)) :
      Change db (db.updateJob (·.held lease.job.bundleId lease.token) (JobRow.retried retry code))

variable {F leases jobLeases target} {db db' : Database}

theorem findObject_eq_none {kind hash : String} : db.findObject kind hash = none ↔
    ∀ r ∈ db.items ++ db.archive, (r.kind, r.sha256) ≠ (kind, hash) := by
  simp only [Database.findObject, Option.map_eq_none_iff, List.find?_eq_none, decide_eq_true_eq,
    ne_eq, Prod.mk.injEq]

theorem lookup_eq_none {hash : String} : db.lookup hash = none ↔
    ∀ r ∈ db.items ++ db.archive, (r.kind, r.sha256) ≠ ("backup", hash) := by
  simp only [Database.lookup, Option.map_eq_none_iff, List.find?_eq_none, decide_eq_true_eq,
    ne_eq, Prod.mk.injEq]

theorem linkRows_sound {now : Nat} {refs : List BundleChunkRef} (hdb : Sound F db)
    (h : linkRows now refs db = .ok db') : Sound F db' ∧ Keeps db db' := by
  induction refs generalizing db with
  | nil =>
    cases h
    exact ⟨hdb, .refl _⟩
  | cons item rest ih =>
    rw [linkRows] at h
    split at h
    · exact ih hdb h
    · next hnew =>
      obtain ⟨hid, h⟩ := Result.check_ok_iff.1 h
      obtain ⟨next, hins, h⟩ := Result.bind_ok_iff.1 h
      have hid : idOk item.itemId := by simpa [refuse_ok_iff] using hid
      have hnone : db.lookup item.sha256 = none := by simpa using hnew
      have hfree := fun a ha => lookup_eq_none.1 hnone a (List.mem_append_right _ ha)
      obtain ⟨hnext, hkeeps⟩ := hdb.insertItem hid hfree hins
      obtain ⟨hdb', hkeeps'⟩ := ih hnext h
      exact ⟨hdb', hkeeps.trans hkeeps'⟩

/-- The row of a verified item is receipted. -/
theorem receipted_archived (hF : F.ReadsBack) {lease : Lease} {receipt : SignedReceipt} {now : Nat}
    (hverified : verifiedItem F (lease.completed receipt now) target = .ok ()) {r : ItemRow}
    (hid : r.id = lease.item.id) (hitem : r.kind = lease.item.kind ∧ r.sha256 = lease.item.sha256 ∧
      r.sizeBytes = lease.item.sizeBytes) :
    Receipted F target (r.archived now (F.signedReceipt.encode receipt)).toItemColumns := by
  obtain ⟨hkind, hhash, hsize⟩ := hitem
  refine ⟨⟨r.id, r.kind, r.sha256, r.sizeBytes, "sent", r.createdAtMs, r.attempts, 0, none,
    some now, some receipt⟩, ?_, ?_⟩
  · simp only [decode, ItemRow.archived, decodeOptional, hF.signedReceipt receipt]
    rfl
  · simp only [verifiedItem, hid, hkind, hhash, hsize]
    exact hverified

theorem Change.sound_archived (hF : F.ReadsBack) (hdb : Sound F db)
    (hvalid : validateCurrent F db = .ok ()) (htarget : db.target? F = some target) {lease : Lease}
    (hlease : Knows db lease.item) {receipt : SignedReceipt} {now : Nat}
    (hverified : verifiedItem F (lease.completed receipt now) target = .ok ())
    (hmove : db.archiveItem lease.item.id lease.token now (F.signedReceipt.encode receipt) =
      .ok db') : Sound F db' ∧ Keeps db db' := by
  refine hdb.archiveItem (fun r hr hheld target' htarget' => ?_) hmove
  rw [htarget, Option.some.injEq] at htarget'
  subst htarget'
  simp only [ItemRow.held, Bool.and_eq_true, beq_iff_eq] at hheld
  exact receipted_archived hF hverified hheld.1 (hlease.active hdb hvalid hr hheld.1)

theorem nextAttempt_pos (attempts : Nat) : 0 < nextAttempt attempts := by
  unfold nextAttempt
  omega

/-- A leased job has its evidence. -/
theorem Change.sound_jobLeased (hdb : Sound F db) (hvalid : validateCurrent F db = .ok ())
    {row : JobRow} {job : BundleJob} {now : Nat} (hrow : row ∈ db.jobs) (hdue : db.dueJob now row)
    (hload : load F db row.bundleId = .ok job) (token : String) (expires next : Nat) :
    Sound F (db.updateJob (·.bundleId = row.bundleId)
      (JobRow.leased token expires (nextAttempt job.attempts) next)) ∧
    Keeps db (db.updateJob (·.bundleId = row.bundleId)
      (JobRow.leased token expires (nextAttempt job.attempts) next)) := by
  simp only [Database.dueJob, Bool.and_eq_true, beq_iff_eq] at hdue
  refine hdb.updateJob fun j hj hid => ?_
  have hsame : j = row := List.inj_on_of_nodup_map hdb.jobIds hj hrow (by simpa using hid)
  subst hsame
  have hpending : j.state ≠ .complete := by
    rw [hdue.1.1.1]
    exact fun h => by cases h
  have hfind : db.jobs.find? (·.bundleId = j.bundleId) = some j := by
    obtain ⟨j', -, hfind, -⟩ := load_ok hload
    have hj' : j' ∈ db.jobs := List.mem_of_find?_eq_some hfind
    have hid' := List.find?_some hfind
    rw [List.inj_on_of_nodup_map hdb.jobIds hj' hj (by simpa using hid')] at hfind
    exact hfind
  -- The evidence of a row is that of its manifest, which a lease does not change.
  have hevidence : Evidence F db j := evidence_of_ready hvalid hload hdue.2 hfind
  exact ⟨⟨fun _ => nextAttempt_pos _, fun _ => nextAttempt_pos _,
      fun _ => hevidence, fun h => (hpending h).elim,
      fun h => (hpending h).elim⟩,
    ⟨rfl, rfl, rfl, fun _ => nextAttempt_pos _, fun h => (hpending h).elim⟩⟩

/-- A record that is accepted is accepted without its reviews. -/
theorem verifyRecord_unreviewed {record : BundleRecord} {key keyId : String}
    (h : verifyRecord F.toPrimitives record key keyId = .ok ()) :
    verifyRecord F.toPrimitives ⟨record.agentId, record.manifest, record.manifestReceipt,
      record.completion, [], "unknown", false⟩ key keyId = .ok () := by
  rw [Vault.verifyRecord_ok_iff] at h ⊢
  obtain ⟨hvalid, hagent, -, hreceipt, hmanifest, hcompletion, -⟩ := h
  refine ⟨hvalid, hagent, Nat.zero_le _, hreceipt, hmanifest, ?_, rfl, ?_⟩
  · rcases hc : record.completion with _ | completion
    · rfl
    · simp only [hc] at hcompletion ⊢
      exact ⟨hcompletion.1, hcompletion.2.1, _, rfl⟩
  · simp [Vault.currentReview]

/-- A job that goes on keeps its evidence, and when it is complete it has its proof. -/
theorem Change.sound_advanced (hF : F.ReadsBack) (hdb : Sound F db)
    (htarget : db.target? F = some target) {lease : JobLease} (hlease : KnowsJob F db lease.job)
    {record : BundleRecord} {now : Nat}
    (hverified : verifyRecord F.toPrimitives record target.pinnedPubkey target.keyId = .ok ())
    (hmanifest : record.manifest = lease.job.manifest) (hagent : record.agentId = target.agentId) :
    Sound F (db.updateJob (·.held lease.job.bundleId lease.token) (JobRow.advanced F record now)) ∧
    Keeps db (db.updateJob (·.held lease.job.bundleId lease.token)
      (JobRow.advanced F record now)) := by
  refine hdb.updateJob fun j hj hheld => ?_
  simp only [JobRow.held, Bool.and_eq_true, beq_iff_eq] at hheld
  have hsound := hdb.jobs j hj
  have hattempts : 0 < j.attempts := hsound.leased (by rw [hheld.2]; rfl)
  have hpending : j.state ≠ .complete := fun h => by
    rw [hsound.released h] at hheld
    cases hheld.2
  refine ⟨⟨fun h => (by cases h), fun _ => hattempts, fun _ => hsound.evidence hattempts,
      fun _ => rfl, fun hcomplete target' htarget' => ?_⟩,
    ⟨rfl, rfl, rfl, fun _ => hattempts, fun h => (hpending h).elim⟩⟩
  rw [Database.target?] at htarget htarget'
  have hsame : target' = target := by
    rw [htarget, Option.some.injEq] at htarget'
    exact htarget'.symm
  subst hsame
  rcases hc : record.completion with _ | completion
  · simp [JobRow.advanced, hc] at hcomplete
  · have hdecode : F.manifest.decode j.manifestJson = some lease.job.manifest :=
      hlease.row hdb hj hheld.1
    refine ⟨lease.job.manifest, record.manifestReceipt, completion, hdecode, ?_, ?_, ?_⟩
    · simp [JobRow.advanced, hF.signedReceipt record.manifestReceipt]
    · simp [JobRow.advanced, hc, hF.signedCompletion completion]
    · rw [← hagent, ← hmanifest, ← hc]
      exact verifyRecord_unreviewed hverified

/-- Every transaction keeps the tables sound and loses nothing. -/
theorem Change.sound (hF : F.ReadsBack) (hdb : Sound F db) (hvalid : validateCurrent F db = .ok ())
    (hknown : Known F leases jobLeases db) (htarget : db.target? F = some target)
    (h : Change F leases jobLeases target db db') : Sound F db' ∧ Keeps db db' := by
  cases h with
  | @enqueued _ id kind hash size now limits _ _ hid hnew _ hins =>
    have hfree := fun a ha => findObject_eq_none.1 hnew a (List.mem_append_right _ ha)
    obtain ⟨hsound, hkeeps⟩ := (hdb.limits limits).insertItem hid hfree hins
    exact ⟨hsound, (Keeps.limits db limits).trans hkeeps⟩
  | leased _ _ _ => exact hdb.updateItem _ _ _ _ _
  | archived hlease _ hverified hmove =>
    exact sound_archived hF hdb hvalid htarget (hknown.items _ hlease) hverified hmove
  | retried _ _ => exact hdb.retryItem _ _ _ _
  | registered _ _ _ _ hlinked hins _ =>
    obtain ⟨hsound, hkeeps⟩ := linkRows_sound hdb hlinked
    obtain ⟨hsound', hkeeps'⟩ := hsound.insertJob hins
    exact ⟨hsound', hkeeps.trans hkeeps'⟩
  | jobLeased hrow hdue hload _ _ => exact sound_jobLeased hdb hvalid hrow hdue hload _ _ _
  | advanced hlease _ hverified hmanifest hagent _ =>
    exact sound_advanced hF hdb htarget (hknown.jobs _ hlease) hverified hmanifest hagent
  | jobRetried _ _ =>
    refine hdb.updateJob fun j hj hheld => ?_
    simp only [JobRow.held, Bool.and_eq_true, beq_iff_eq] at hheld
    have hsound := hdb.jobs j hj
    have hpending : j.state ≠ .complete := fun h => by
      rw [hsound.released h] at hheld
      cases hheld.2
    exact ⟨⟨fun h => (by cases h), hsound.phase, hsound.evidence, fun h => (hpending h).elim,
      fun h => (hpending h).elim⟩, ⟨rfl, rfl, rfl, id, fun h => (hpending h).elim⟩⟩

end Changes

end Argos.Queue
