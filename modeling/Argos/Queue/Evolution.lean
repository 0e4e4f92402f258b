import Argos.Queue.Runs

/-!
# What the tables keep

Every transaction of the queue changes the tables in one of few ways: an item is added, the columns of
a lease are set, an item moves to the archive, a bundle is registered, a job is leased or goes on.
`Sound` is what holds of the tables in between, and `Keeps` is what none of them undoes. For each
change of the tables there is one lemma that says it preserves the first and does the second; the
calls are put together from them in the next module.
-/

namespace Argos.Queue

open Argos.Lib
open Argos.Vault (Bytes Result Error SignedReceipt BundleManifest BundleRecord Completion Signed refuse
  verifyRecord)
open Argos.Vault (refuse_ok_iff Result.bind_ok_iff Result.check_ok_iff exists_unit_iff)

/-- A row of the same item, perhaps in another state. -/
def SameItem (a b : ItemColumns) : Prop :=
  b.id = a.id ∧ b.kind = a.kind ∧ b.sha256 = a.sha256 ∧ b.sizeBytes = a.sizeBytes

theorem SameItem.refl (a : ItemColumns) : SameItem a a := ⟨rfl, rfl, rfl, rfl⟩

theorem SameItem.trans {a b c : ItemColumns} (h : SameItem a b) (h' : SameItem b c) : SameItem a c :=
  ⟨h'.1.trans h.1, h'.2.1.trans h.2.1, h'.2.2.1.trans h.2.2.1, h'.2.2.2.trans h.2.2.2⟩

/-- A later row of the same job: its manifest is the same, it was leased if it was before, and it is
the same row once it is complete. -/
structure JobKept (j j' : JobRow) : Prop where
  bundleId : j'.bundleId = j.bundleId
  manifestJson : j'.manifestJson = j.manifestJson
  manifestSha256 : j'.manifestSha256 = j.manifestSha256
  attempts : 0 < j.attempts → 0 < j'.attempts
  complete : j.state = .complete → j' = j

theorem JobKept.refl (j : JobRow) : JobKept j j := ⟨rfl, rfl, rfl, id, fun _ => rfl⟩

theorem JobKept.trans {j j' j'' : JobRow} (h : JobKept j j') (h' : JobKept j' j'') :
    JobKept j j'' := by
  refine ⟨h'.bundleId.trans h.bundleId, h'.manifestJson.trans h.manifestJson,
    h'.manifestSha256.trans h.manifestSha256, fun hj => h'.attempts (h.attempts hj), fun hj => ?_⟩
  have hj' := h.complete hj
  rw [← hj'] at hj
  exact (h'.complete hj).trans hj'

/-- What no transaction undoes. -/
structure Keeps (db db' : Database) : Prop where
  target : db'.queueMeta.targetJson = db.queueMeta.targetJson
  archive : db.archive <+: db'.archive
  items : ∀ r ∈ db.items, (∃ r' ∈ db'.items, SameItem r.toItemColumns r'.toItemColumns) ∨
    ∃ a ∈ db'.archive, SameItem r.toItemColumns a.toItemColumns
  refs : db.refs <+: db'.refs
  jobs : ∀ j ∈ db.jobs, ∃ j' ∈ db'.jobs, JobKept j j'

theorem Keeps.refl (db : Database) : Keeps db db :=
  ⟨rfl, List.prefix_rfl, fun r hr => .inl ⟨r, hr, .refl _⟩, List.prefix_rfl,
    fun j hj => ⟨j, hj, .refl j⟩⟩

theorem Keeps.trans {db db' db'' : Database} (h : Keeps db db') (h' : Keeps db' db'') :
    Keeps db db'' := by
  refine ⟨h'.target.trans h.target, h.archive.trans h'.archive, fun r hr => ?_,
    h.refs.trans h'.refs, fun j hj => ?_⟩
  · rcases h.items r hr with ⟨r', hr', hsame⟩ | ⟨a, ha, hsame⟩
    · rcases h'.items r' hr' with ⟨r'', hr'', hsame'⟩ | ⟨a, ha, hsame'⟩
      · exact .inl ⟨r'', hr'', hsame.trans hsame'⟩
      · exact .inr ⟨a, ha, hsame.trans hsame'⟩
    · exact .inr ⟨a, h'.archive.mem ha, hsame⟩
  · obtain ⟨j', hj', hkept⟩ := h.jobs j hj
    obtain ⟨j'', hj'', hkept'⟩ := h'.jobs j' hj'
    exact ⟨j'', hj'', hkept.trans hkept'⟩

/-- An item of the queue, active or archived, stays one. -/
theorem Keeps.mem {db db' : Database} (h : Keeps db db') {r : ItemRow}
    (hr : r ∈ db.items ++ db.archive) :
    ∃ r' ∈ db'.items ++ db'.archive, SameItem r.toItemColumns r'.toItemColumns := by
  rcases List.mem_append.1 hr with hr | hr
  · rcases h.items r hr with ⟨r', hr', hsame⟩ | ⟨a, ha, hsame⟩
    · exact ⟨r', List.mem_append_left _ hr', hsame⟩
    · exact ⟨a, List.mem_append_right _ ha, hsame⟩
  · exact ⟨r, List.mem_append_right _ (h.archive.mem hr), .refl _⟩

section Sound

variable (F : Formats)

/-- The target of a queue. -/
def Database.target? (db : Database) : Option QueueTarget := F.target.decode db.queueMeta.targetJson

/-- The row carries a receipt that `verified_item` accepts. -/
def Receipted (target : QueueTarget) (row : ItemColumns) : Prop :=
  ∃ item, decode F row = .ok item ∧ verifiedItem F item target = .ok ()

/-- Every chunk of the job's manifest is archived. -/
def Evidence (db : Database) (j : JobRow) : Prop :=
  ∃ manifest, F.manifest.decode j.manifestJson = some manifest ∧ ∀ c ∈ manifest.chunks,
    ∃ a ∈ db.archive, a.kind = "backup" ∧ a.sha256 = c.sha256 ∧ a.sizeBytes = c.sizeBytes

/-- The job carries the receipt of its manifest and a completion of it that `verify_record`
accepts. -/
def Proven (target : QueueTarget) (j : JobRow) : Prop :=
  ∃ manifest receipt completion, F.manifest.decode j.manifestJson = some manifest ∧
    j.manifestReceiptJson.bind F.signedReceipt.decode = some receipt ∧
    j.completionJson.bind F.signedCompletion.decode = some completion ∧
    verifyRecord F.toPrimitives
      ⟨target.agentId, manifest, receipt, some completion, [], "unknown", false⟩
      target.pinnedPubkey target.keyId = .ok ()

/-- What holds of a job between transactions. -/
structure JobSound (db : Database) (j : JobRow) : Prop where
  leased : j.leaseToken.isSome → 0 < j.attempts
  phase : j.phase ≠ .register → 0 < j.attempts
  evidence : 0 < j.attempts → Evidence F db j
  released : j.state = .complete → j.leaseToken = none
  proven : j.state = .complete → ∀ target, db.target? F = some target → Proven F target j

/-- What holds of the tables between transactions. -/
structure Sound (db : Database) : Prop where
  itemIds : (db.items.map (·.id)).Nodup
  archiveIds : (db.archive.map (·.id)).Nodup
  objects : ((db.items ++ db.archive).map (fun r => (r.kind, r.sha256))).Nodup
  active : ∀ r ∈ db.items, r.state = .pending ∧ r.receiptJson = none ∧ r.sentAtMs = none ∧ idOk r.id
  archived : ∀ a ∈ db.archive, ∀ target, db.target? F = some target →
    Receipted F target a.toItemColumns
  jobIds : (db.jobs.map (·.bundleId)).Nodup
  jobs : ∀ j ∈ db.jobs, JobSound F db j

variable {F} {db db' : Database}

theorem Keeps.target? (h : Keeps db db') : db'.target? F = db.target? F := by
  rw [Database.target?, Database.target?, h.target]

theorem Evidence.kept {j : JobRow} (h : Evidence F db j) (hkeeps : db.archive <+: db'.archive) :
    Evidence F db' j := by
  obtain ⟨manifest, hdecode, hchunks⟩ := h
  refine ⟨manifest, hdecode, fun c hc => ?_⟩
  obtain ⟨a, ha, hmatch⟩ := hchunks c hc
  exact ⟨a, hkeeps.mem ha, hmatch⟩

/-- A job that a transaction does not touch stays sound. -/
theorem JobSound.kept {j : JobRow} (h : JobSound F db j)
    (htarget : db'.queueMeta.targetJson = db.queueMeta.targetJson)
    (harchive : db.archive <+: db'.archive) : JobSound F db' j := by
  refine ⟨h.leased, h.phase, fun hj => (h.evidence hj).kept harchive, h.released,
    fun hj target ht => h.proven hj target ?_⟩
  rw [Database.target?, htarget] at ht
  exact ht

/-- The tables of a new queue are sound. -/
theorem sound_initial (target : QueueTarget) (limits : QueueLimits) :
    Sound F (.initial F target limits) := by
  constructor <;> simp [Database.initial]

/-! ## Changes of the tables -/

/-- The limits are set. -/
theorem Sound.limits (h : Sound F db) (limits : QueueLimits) :
    Sound F { db with queueMeta := { db.queueMeta with limits := limits } } :=
  ⟨h.itemIds, h.archiveIds, h.objects, h.active, h.archived, h.jobIds,
    fun j hj => (h.jobs j hj).kept rfl List.prefix_rfl⟩

theorem Keeps.limits (db : Database) (limits : QueueLimits) :
    Keeps db { db with queueMeta := { db.queueMeta with limits := limits } } :=
  ⟨rfl, List.prefix_rfl, fun r hr => .inl ⟨r, hr, .refl _⟩, List.prefix_rfl,
    fun j hj => ⟨j, hj, .refl j⟩⟩

theorem insertItem_ok_iff {row : ItemRow} :
    db.insertItem row = .ok db' ↔ (∀ r ∈ db.items, r.id ≠ row.id ∧
      (r.kind, r.sha256) ≠ (row.kind, row.sha256)) ∧ db' = { db with items := db.items ++ [row] } := by
  rw [Database.insertItem]
  split
  · next h =>
    refine ⟨fun h => (by cases h), fun hall => ?_⟩
    obtain ⟨r, hr, hsame⟩ := List.any_eq_true.1 h
    simp only [ItemColumns.same, Bool.or_eq_true, beq_iff_eq, Bool.and_eq_true] at hsame
    obtain ⟨hid, hobject⟩ := hall.1 r hr
    rcases hsame with hsame | hsame
    · exact (hid hsame).elim
    · exact (hobject (by rw [hsame.1, hsame.2])).elim
  · next h =>
    simp only [Except.ok.injEq]
    rw [eq_comm (b := db')]
    refine ⟨fun hdb => ⟨fun r hr => ?_, hdb⟩, fun hdb => hdb.2⟩
    have hsame : ¬r.toItemColumns.same row.toItemColumns = true := fun hs =>
      h (List.any_eq_true.2 ⟨r, hr, hs⟩)
    simp only [ItemColumns.same, Bool.or_eq_true, beq_iff_eq, Bool.and_eq_true, not_or] at hsame
    exact ⟨hsame.1, fun heq => hsame.2 ⟨(Prod.mk.inj heq).1, (Prod.mk.inj heq).2⟩⟩

/-- A new item is inserted, of an object that the archive does not have. -/
theorem Sound.insertItem (h : Sound F db) {id kind hash : String} {size now : Nat} (hid : idOk id)
    (hnew : ∀ a ∈ db.archive, (a.kind, a.sha256) ≠ (kind, hash))
    (hins : db.insertItem (newRow id kind hash size now) = .ok db') :
    Sound F db' ∧ Keeps db db' := by
  obtain ⟨hitems, rfl⟩ := insertItem_ok_iff.1 hins
  refine ⟨⟨?_, h.archiveIds, ?_, ?_, h.archived, h.jobIds,
    fun j hj => (h.jobs j hj).kept rfl List.prefix_rfl⟩,
    ⟨rfl, List.prefix_rfl, fun r hr => .inl ⟨r, List.mem_append_left _ hr, .refl _⟩,
      List.prefix_rfl, fun j hj => ⟨j, hj, .refl j⟩⟩⟩
  · rw [List.map_append, List.nodup_append]
    refine ⟨h.itemIds, by simp, fun x hx y hy => ?_⟩
    obtain ⟨r, hr, rfl⟩ := List.mem_map.1 hx
    rw [List.mem_map] at hy
    obtain ⟨r', hr', rfl⟩ := hy
    rw [List.mem_singleton.1 hr']
    exact (hitems r hr).1
  · have hperm : ((db.items ++ [newRow id kind hash size now] ++ db.archive).map
        (fun r => (r.kind, r.sha256))).Perm
        (((newRow id kind hash size now) :: (db.items ++ db.archive)).map
          (fun r => (r.kind, r.sha256))) := by
      refine List.Perm.map _ ?_
      rw [List.append_assoc]
      exact List.perm_middle
    rw [hperm.nodup_iff, List.map_cons, List.nodup_cons]
    refine ⟨fun hmem => ?_, h.objects⟩
    obtain ⟨r, hr, heq⟩ := List.mem_map.1 hmem
    rcases List.mem_append.1 hr with hr | hr
    · exact (hitems r hr).2 heq
    · exact hnew r hr heq
  · intro r hr
    rcases List.mem_append.1 hr with hr | hr
    · exact h.active r hr
    · rw [List.mem_singleton.1 hr]
      exact ⟨rfl, rfl, rfl, hid⟩

/-- A change of the columns of a lease. -/
structure LeaseOnly (g : ItemRow → ItemRow) : Prop where
  same : ∀ r, SameItem r.toItemColumns (g r).toItemColumns
  state : ∀ r, (g r).state = r.state
  receiptJson : ∀ r, (g r).receiptJson = r.receiptJson
  sentAtMs : ∀ r, (g r).sentAtMs = r.sentAtMs

/-- Leases are changed. -/
theorem Sound.mapItems (h : Sound F db) {g : ItemRow → ItemRow} (hg : LeaseOnly g) :
    Sound F { db with items := db.items.map g } ∧ Keeps db { db with items := db.items.map g } := by
  have hids : (db.items.map g).map (·.id) = db.items.map (·.id) := by
    rw [List.map_map]
    exact List.map_congr_left fun r _ => (hg.same r).1
  have hobjects : (db.items.map g).map (fun r => (r.kind, r.sha256)) =
      db.items.map (fun r => (r.kind, r.sha256)) := by
    rw [List.map_map]
    exact List.map_congr_left fun r _ => by
      show ((g r).kind, (g r).sha256) = _
      rw [(hg.same r).2.1, (hg.same r).2.2.1]
  refine ⟨⟨by rw [hids]; exact h.itemIds, h.archiveIds, ?_, ?_, h.archived, h.jobIds,
    fun j hj => (h.jobs j hj).kept rfl List.prefix_rfl⟩, ⟨rfl, List.prefix_rfl, ?_, List.prefix_rfl,
      fun j hj => ⟨j, hj, .refl j⟩⟩⟩
  · rw [List.map_append, hobjects, ← List.map_append]
    exact h.objects
  · intro r hr
    obtain ⟨r₀, hr₀, rfl⟩ := List.mem_map.1 hr
    obtain ⟨hstate, hreceipt, hsent, hid⟩ := h.active r₀ hr₀
    refine ⟨(hg.state r₀).trans hstate, (hg.receiptJson r₀).trans hreceipt,
      (hg.sentAtMs r₀).trans hsent, ?_⟩
    rw [(hg.same r₀).1]
    exact hid
  · exact fun r hr => .inl ⟨g r, List.mem_map_of_mem hr, hg.same r⟩

theorem LeaseOnly.ite {g : ItemRow → ItemRow} (hg : LeaseOnly g) (p : ItemRow → Bool) :
    LeaseOnly (fun r => if p r then g r else r) := by
  constructor
  · intro r; by_cases hp : p r = true
    · simp only [hp, if_true]; exact hg.same r
    · simp only [hp]; exact .refl _
  · intro r; by_cases hp : p r = true
    · simp only [hp, if_true]; exact hg.state r
    · simp [hp]
  · intro r; by_cases hp : p r = true
    · simp only [hp, if_true]; exact hg.receiptJson r
    · simp [hp]
  · intro r; by_cases hp : p r = true
    · simp only [hp, if_true]; exact hg.sentAtMs r
    · simp [hp]

theorem leaseOnly_leased (token : String) (expires attempts next : Nat) :
    LeaseOnly (ItemRow.leased token expires attempts next) :=
  ⟨fun _ => ⟨rfl, rfl, rfl, rfl⟩, fun _ => rfl, fun _ => rfl, fun _ => rfl⟩

theorem leaseOnly_retried (retry : Nat) (code : String) : LeaseOnly (ItemRow.retried retry code) :=
  ⟨fun _ => ⟨rfl, rfl, rfl, rfl⟩, fun _ => rfl, fun _ => rfl, fun _ => rfl⟩

/-- An item is leased. -/
theorem Sound.updateItem (h : Sound F db) (id token : String) (expires attempts next : Nat) :
    Sound F (db.updateItem id (ItemRow.leased token expires attempts next)) ∧
      Keeps db (db.updateItem id (ItemRow.leased token expires attempts next)) := by
  have := h.mapItems ((leaseOnly_leased token expires attempts next).ite (fun r => r.id = id))
  simp only [decide_eq_true_eq] at this
  exact this

/-- An item is released. -/
theorem Sound.retryItem (h : Sound F db) (id token : String) (retry : Nat) (code : String) :
    Sound F (db.retryItem id token retry code) ∧ Keeps db (db.retryItem id token retry code) :=
  h.mapItems ((leaseOnly_retried retry code).ite (fun r => r.held id token))

theorem archiveItem_ok_iff {id token : String} {now : Nat} {receipt : Bytes} :
    db.archiveItem id token now receipt = .ok db' ↔
      (∀ a ∈ db.archive, ∀ r ∈ db.items, r.held id token → a.id ≠ r.id ∧
        (a.kind, a.sha256) ≠ (r.kind, r.sha256)) ∧
      db' = { db with
        items := db.items.filter (fun r => !r.held id token)
        archive := db.archive ++
          (db.items.filter (·.held id token)).map (·.archived now receipt) } := by
  rw [Database.archiveItem]
  split
  · next h =>
    refine ⟨fun h => (by cases h), fun hall => ?_⟩
    obtain ⟨a, ha, hany⟩ := List.any_eq_true.1 h
    obtain ⟨r, hr, hsame⟩ := List.any_eq_true.1 hany
    obtain ⟨r₀, hr₀, rfl⟩ := List.mem_map.1 hr
    obtain ⟨hr₀, hheld⟩ := List.mem_filter.1 hr₀
    obtain ⟨hid, hobject⟩ := hall.1 a ha r₀ hr₀ hheld
    simp only [ItemColumns.same, ItemRow.archived, Bool.or_eq_true, beq_iff_eq,
      Bool.and_eq_true] at hsame
    rcases hsame with hsame | hsame
    · exact (hid hsame).elim
    · exact (hobject (by rw [hsame.1, hsame.2])).elim
  · next h =>
    simp only [Except.ok.injEq]
    rw [eq_comm (b := db')]
    refine ⟨fun hdb => ⟨fun a ha r hr hheld => ?_, hdb⟩, fun hdb => hdb.2⟩
    have hsame : ¬a.toItemColumns.same (r.archived now receipt).toItemColumns = true := fun hs =>
      h (List.any_eq_true.2 ⟨a, ha, List.any_eq_true.2
        ⟨_, List.mem_map_of_mem (List.mem_filter.2 ⟨hr, hheld⟩), hs⟩⟩)
    simp only [ItemColumns.same, ItemRow.archived, Bool.or_eq_true, beq_iff_eq, Bool.and_eq_true,
      not_or] at hsame
    exact ⟨hsame.1, fun heq => hsame.2 ⟨(Prod.mk.inj heq).1, (Prod.mk.inj heq).2⟩⟩

/-- An item moves to the archive, with a receipt that is accepted. -/
theorem Sound.archiveItem (h : Sound F db) {id token : String} {now : Nat} {receipt : Bytes}
    (hreceipt : ∀ r ∈ db.items, r.held id token → ∀ target, db.target? F = some target →
      Receipted F target (r.archived now receipt).toItemColumns)
    (hmove : db.archiveItem id token now receipt = .ok db') : Sound F db' ∧ Keeps db db' := by
  obtain ⟨hfree, rfl⟩ := archiveItem_ok_iff.1 hmove
  refine ⟨⟨?_, ?_, ?_, ?_, ?_, h.jobIds,
    fun j hj => (h.jobs j hj).kept rfl (List.prefix_append _ _)⟩,
    ⟨rfl, List.prefix_append _ _, fun r hr => ?_, List.prefix_rfl, fun j hj => ⟨j, hj, .refl j⟩⟩⟩
  · exact (List.Sublist.map _ List.filter_sublist).nodup h.itemIds
  · rw [List.map_append, List.nodup_append]
    refine ⟨h.archiveIds, ?_, fun x hx y hy => ?_⟩
    · rw [List.map_map]
      exact (List.Sublist.map (fun r : ItemRow => r.id) List.filter_sublist).nodup h.itemIds
    · obtain ⟨a, ha, rfl⟩ := List.mem_map.1 hx
      obtain ⟨r', hr', rfl⟩ := List.mem_map.1 hy
      obtain ⟨r, hr, rfl⟩ := List.mem_map.1 hr'
      obtain ⟨hr, hheld⟩ := List.mem_filter.1 hr
      exact (hfree a ha r hr hheld).1
  · -- The rows are the same ones, in another order and in other tables.
    have hobjects : ((db.items.filter (·.held id token)).map (·.archived now receipt)).map
        (fun r => (r.kind, r.sha256)) =
          (db.items.filter (·.held id token)).map (fun r => (r.kind, r.sha256)) := by
      rw [List.map_map]
      rfl
    have hperm : ((db.items.filter (fun r => !r.held id token) ++ (db.archive ++
        (db.items.filter (·.held id token)).map (·.archived now receipt))).map
          (fun r => (r.kind, r.sha256))).Perm
        ((db.items ++ db.archive).map (fun r => (r.kind, r.sha256))) := by
      rw [List.map_append, List.map_append, hobjects, ← List.map_append, ← List.map_append]
      refine List.Perm.map _ ?_
      rw [← List.append_assoc]
      refine List.perm_append_comm.trans ?_
      rw [← List.append_assoc]
      exact (List.filter_append_perm (·.held id token) db.items).append_right _
    exact hperm.nodup_iff.2 h.objects
  · exact fun r hr => h.active r (List.mem_filter.1 hr).1
  · intro a ha target ht
    rcases List.mem_append.1 ha with ha | ha
    · exact h.archived a ha target ht
    · obtain ⟨r, hr, rfl⟩ := List.mem_map.1 ha
      obtain ⟨hr, hheld⟩ := List.mem_filter.1 hr
      exact hreceipt r hr hheld target ht
  · by_cases hheld : r.held id token = true
    · exact .inr ⟨r.archived now receipt, List.mem_append_right _
        (List.mem_map_of_mem (List.mem_filter.2 ⟨hr, hheld⟩)), ⟨rfl, rfl, rfl, rfl⟩⟩
    · exact .inl ⟨r, List.mem_filter.2 ⟨hr, by simpa using hheld⟩, .refl _⟩

theorem insertJob_ok_iff {job : JobRow} {refs : List BundleChunkRef} {limits : QueueLimits} :
    db.insertJob job refs limits = .ok db' ↔ db.hasJob job.bundleId = false ∧
      (∀ r ∈ refs, ∀ old ∈ db.refs, ¬(old.bundleId = job.bundleId ∧ old.sha256 = r.sha256)) ∧
      db' = { db with
        queueMeta := { db.queueMeta with limits := limits }
        jobs := db.jobs ++ [job]
        refs := db.refs ++ refs.map (fun r => ⟨r, job.bundleId⟩) } := by
  rw [Database.insertJob]
  split
  · next h =>
    refine ⟨fun h => (by cases h), fun hall => ?_⟩
    simp only [Bool.or_eq_true, List.any_eq_true, decide_eq_true_eq] at h
    rcases h with h | ⟨r, hr, old, hold, hsame⟩
    · rw [hall.1] at h
      cases h
    · exact (hall.2.1 r hr old hold hsame).elim
  · next h =>
    simp only [Bool.or_eq_true, List.any_eq_true, decide_eq_true_eq, not_or, not_exists,
      not_and] at h
    simp only [Except.ok.injEq]
    rw [eq_comm (b := db')]
    refine ⟨fun hdb => ⟨by simpa using h.1, fun r hr old hold hsame => ?_, hdb⟩, fun hdb => hdb.2.2⟩
    exact h.2 r hr old hold hsame.1 hsame.2

/-- A bundle is registered. -/
theorem Sound.insertJob (h : Sound F db) {manifest : BundleManifest} {now : Nat}
    {refs : List BundleChunkRef} {limits : QueueLimits}
    (hins : db.insertJob (newJob F manifest now) refs limits = .ok db') :
    Sound F db' ∧ Keeps db db' := by
  obtain ⟨hnew, -, rfl⟩ := insertJob_ok_iff.1 hins
  refine ⟨⟨h.itemIds, h.archiveIds, h.objects, h.active, h.archived, ?_, fun j hj => ?_⟩,
    ⟨rfl, List.prefix_rfl, fun r hr => .inl ⟨r, hr, .refl _⟩, List.prefix_append _ _,
      fun j hj => ⟨j, List.mem_append_left _ hj, .refl j⟩⟩⟩
  · rw [List.map_append, List.nodup_append]
    refine ⟨h.jobIds, by simp, fun x hx y hy => ?_⟩
    obtain ⟨j, hj, rfl⟩ := List.mem_map.1 hx
    obtain ⟨j', hj', rfl⟩ := List.mem_map.1 hy
    rw [List.mem_singleton.1 hj']
    intro heq
    simp only [Database.hasJob, List.any_eq_false, beq_iff_eq] at hnew
    exact hnew j hj heq
  · rcases List.mem_append.1 hj with hj | hj
    · exact (h.jobs j hj).kept rfl List.prefix_rfl
    · rw [List.mem_singleton.1 hj]
      constructor <;> simp [newJob]

/-- The rows of a job are changed, each to one that is sound. -/
theorem Sound.updateJob (h : Sound F db) {keep : JobRow → Bool} {g : JobRow → JobRow}
    (hg : ∀ j ∈ db.jobs, keep j → JobSound F db (g j) ∧ JobKept j (g j)) :
    Sound F (db.updateJob keep g) ∧ Keeps db (db.updateJob keep g) := by
  have hkept : ∀ j ∈ db.jobs, JobKept j (if keep j then g j else j) := by
    intro j hj
    by_cases hk : keep j = true
    · simp only [hk, if_true]
      exact (hg j hj hk).2
    · simp only [hk]
      exact .refl j
  refine ⟨⟨h.itemIds, h.archiveIds, h.objects, h.active, h.archived, ?_, fun j hj => ?_⟩,
    ⟨rfl, List.prefix_rfl, fun r hr => .inl ⟨r, hr, .refl _⟩, List.prefix_rfl,
      fun j hj => ⟨_, List.mem_map_of_mem hj, hkept j hj⟩⟩⟩
  · rw [Database.updateJob]
    dsimp only
    rw [List.map_map]
    have : db.jobs.map ((·.bundleId) ∘ fun j => if keep j then g j else j) =
        db.jobs.map (·.bundleId) := List.map_congr_left fun j hj => (hkept j hj).bundleId
    rw [this]
    exact h.jobIds
  · obtain ⟨j₀, hj₀, rfl⟩ := List.mem_map.1 hj
    by_cases hk : keep j₀ = true
    · simp only [hk, if_true]
      exact (hg j₀ hj₀ hk).1.kept rfl List.prefix_rfl
    · simp only [hk]
      exact (h.jobs j₀ hj₀).kept rfl List.prefix_rfl

end Sound

end Argos.Queue
