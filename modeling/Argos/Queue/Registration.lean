import Argos.Queue.Calls

/-!
# Registering a bundle

What `enqueue_bundle` leaves. Its last part reads the chunks of the manifest against the tables
(`admission`), links the copies of the new ones, and inserts the new items, the references and the job
in one transaction; `Registered` says that all of them are there. A copy has the content that the
manifest names, since it was checked when it was made (`Spooled`).
-/

namespace Argos.Queue

open Argos.Lib
open Argos.Vault (Bytes Result Error BundleManifest Chunk refuse saturatingAdd u64Max validate)
open Argos.Vault (refuse_ok_iff Result.bind_ok_iff Result.check_ok_iff exists_unit_iff)

/-! ## Copies -/

section Copies

variable (F : Formats)

/-- The copies have the content of chunks of the manifest. -/
def Spooled (manifest : BundleManifest) (spool : List (String × Bytes)) : Prop :=
  ∀ p ∈ spool, F.sha256 p.2 = p.1 ∧ (p.1, p.2.length) ∈
    manifest.chunks.map fun c => (c.sha256, c.sizeBytes)

variable {F}

theorem copyChunk_ok {source : String → Option Bytes} {manifest : BundleManifest} {c : Chunk}
    (hc : c ∈ manifest.chunks) {spool : List (String × Bytes)} (hspool : Spooled F manifest spool)
    {out : List (String × Bytes) × Bytes} (h : copyChunk F source c spool = .ok out) :
    Spooled F manifest out.1 := by
  rw [copyChunk] at h
  rcases hlookup : spool.lookup c.sha256 with _ | old
  · simp only [hlookup] at h
    rcases hsource : source c.sha256 with _ | new
    · simp [hsource] at h
    · simp only [hsource] at h
      obtain ⟨-, h⟩ := Result.check_ok_iff.1 h
      obtain ⟨hcontent, h⟩ := Result.check_ok_iff.1 h
      simp only [refuse_ok_iff, Bool.or_eq_false_iff, bne_eq_false_iff_eq] at hcontent
      cases h
      intro p hp
      rcases List.mem_append.1 hp with hp | hp
      · exact hspool p hp
      · rw [List.mem_singleton.1 hp]
        refine ⟨hcontent.2, List.mem_map.2 ⟨c, hc, ?_⟩⟩
        rw [hcontent.1]
  · simp only [hlookup] at h
    cases h
    exact hspool

theorem spoolChunks_ok {source : String → Option Bytes} {manifest : BundleManifest}
    {chunks : List Chunk} (hchunks : ∀ c ∈ chunks, c ∈ manifest.chunks)
    {found out : List (String × Bytes) × Bytes} (hfound : Spooled F manifest found.1)
    (h : spoolChunks F source chunks found = .ok out) : Spooled F manifest out.1 := by
  induction chunks generalizing found with
  | nil =>
    cases h
    exact hfound
  | cons c rest ih =>
    obtain ⟨spool, full⟩ := found
    rw [spoolChunks] at h
    obtain ⟨copied, hcopy, h⟩ := Result.bind_ok_iff.1 h
    obtain ⟨-, h⟩ := Result.check_ok_iff.1 h
    have hcopied : Spooled F manifest copied.1 :=
      copyChunk_ok (hchunks c List.mem_cons_self) hfound hcopy
    refine ih (fun c' hc' => hchunks c' (List.mem_cons_of_mem _ hc')) ?_ h
    exact hcopied

theorem spoolBundle_ok {manifest : BundleManifest} {source : String → Option Bytes}
    {spool : List (String × Bytes)} (h : spoolBundle F manifest source = .ok spool) :
    Spooled F manifest spool := by
  obtain ⟨out, hout, h⟩ := Result.bind_ok_iff.1 h
  obtain ⟨-, h⟩ := Result.check_ok_iff.1 h
  cases h
  exact spoolChunks_ok (fun _ hc => hc) (fun p hp => by cases hp) hout

theorem mem_of_lookup_eq_some {α β : Type} [BEq α] [LawfulBEq α] {l : List (α × β)} {a : α} {b : β}
    (h : l.lookup a = some b) : (a, b) ∈ l := by
  induction l with
  | nil => cases h
  | cons p rest ih =>
    rw [List.lookup_cons] at h
    by_cases ha : a = p.1
    · rw [ha, beq_self_eq_true] at h
      have : p.2 = b := by simpa using h
      rw [ha, ← this]
      exact List.mem_cons_self
    · rw [beq_eq_false_iff_ne.2 ha] at h
      exact List.mem_cons_of_mem _ (ih h)

end Copies

/-! ## Admission -/

section Admission

variable {F : Formats} {db db' : Database} {target : QueueTarget} {draw : String → Option RandomId}

/-- The reference is to a chunk that the queue does not have. -/
def Database.lacks (db : Database) (r : BundleChunkRef) : Bool := (db.lookup r.sha256).isNone

/-- The reference is to the item of its chunk, or a new item. -/
def Database.Admits (db : Database) (r : BundleChunkRef) : Prop :=
  (∃ row, db.lookup r.sha256 = some row ∧ row.id = r.itemId ∧ row.sizeBytes = r.sizeBytes) ∨
    (db.lookup r.sha256 = none ∧ idOk r.itemId)

theorem admissionLoop_ok {chunks : List (String × Nat)} {a e a' e' : Nat}
    {refs refs' : List BundleChunkRef}
    (h : admissionLoop F db target draw chunks (a, e, refs) = .ok (a', e', refs')) :
    ∃ new, refs' = refs ++ new ∧ new.map (fun r => (r.sha256, r.sizeBytes)) = chunks ∧
      a' = a + (new.filter db.lacks).length ∧
      e' = e + ((new.filter db.lacks).map (·.sizeBytes)).sum ∧ ∀ r ∈ new, db.Admits r := by
  induction chunks generalizing a e refs with
  | nil =>
    cases h
    exact ⟨[], by simp⟩
  | cons c rest ih =>
    obtain ⟨hash, size⟩ := c
    rw [admissionLoop] at h
    rcases hlookup : db.lookup hash with _ | row
    · simp only [hlookup] at h
      rcases hadd : Vault.checkedAdd e size with _ | extra
      · simp [hadd] at h
      simp only [hadd] at h
      rcases hdraw : draw hash with _ | id
      · simp [hdraw] at h
      simp only [hdraw] at h
      obtain ⟨new, hrefs, hmap, hlen, hsum, hadmits⟩ := ih h
      have hextra : extra = e + size := by
        unfold Vault.checkedAdd at hadd
        split at hadd
        · exact (Option.some.inj hadd).symm
        · cases hadd
      have hlacks : db.lacks ⟨id.val, hash, size⟩ = true := by simp [Database.lacks, hlookup]
      refine ⟨⟨id.val, hash, size⟩ :: new, by simp [hrefs], by simp [hmap], ?_, ?_, ?_⟩
      · rw [List.filter_cons_of_pos hlacks, List.length_cons]
        omega
      · rw [List.filter_cons_of_pos hlacks, List.map_cons, List.sum_cons]
        dsimp only
        omega
      · exact List.forall_mem_cons.2 ⟨.inr ⟨hlookup, id.property⟩, hadmits⟩
    · simp only [hlookup] at h
      obtain ⟨item, hitem, h⟩ := Result.bind_ok_iff.1 h
      obtain ⟨hsize, h⟩ := Result.check_ok_iff.1 h
      have hnext : admissionLoop F db target draw rest
          (a, e, refs ++ [⟨item.id, hash, size⟩]) = .ok (a', e', refs') := by
        split at h
        · exact (Result.check_ok_iff.1 h).2
        · exact h
      obtain ⟨new, hrefs, hmap, hlen, hsum, hadmits⟩ := ih hnext
      obtain ⟨hid, -, -, hsize', -⟩ := decode_ok hitem
      have hlacks : ¬db.lacks ⟨item.id, hash, size⟩ = true := by simp [Database.lacks, hlookup]
      refine ⟨⟨item.id, hash, size⟩ :: new, by simp [hrefs], by simp [hmap], ?_, ?_, ?_⟩
      · rw [List.filter_cons_of_neg hlacks]
        exact hlen
      · rw [List.filter_cons_of_neg hlacks]
        exact hsum
      · refine List.forall_mem_cons.2 ⟨.inl ⟨row, hlookup, hid.symm, ?_⟩, hadmits⟩
        simp only [refuse_ok_iff, bne_eq_false_iff_eq] at hsize
        exact hsize'.symm.trans hsize

theorem limits_ok {limits : QueueLimits} (h : limits.validate = .ok ()) :
    1 ≤ limits.maxItems ∧ limits.maxItems ≤ maxItems ∧ 1 ≤ limits.maxBytes ∧
      limits.maxBytes ≤ maxBytes := by
  simp only [QueueLimits.validate, refuse_ok_iff, Bool.or_eq_false_iff, Bool.not_eq_false',
    Bool.and_eq_true, decide_eq_true_eq] at h
  exact ⟨h.1.1, h.1.2, h.2.1, h.2.2⟩

/-- A sum that saturates is above every limit. -/
theorem add_le_of_saturatingAdd_le {a b n : Nat} (hn : n < u64Max) (h : saturatingAdd a b ≤ n) :
    a + b ≤ n := by
  unfold saturatingAdd at h
  omega

/-- The limits that `admission` checks, for the new items. -/
theorem admission_ok {chunks : List (String × Nat)} {limits : QueueLimits}
    (hlimits : limits.validate = .ok ()) {refs : List BundleChunkRef}
    (h : admission F db chunks limits target draw = .ok refs) :
    refs.map (fun r => (r.sha256, r.sizeBytes)) = chunks ∧ (∀ r ∈ refs, db.Admits r) ∧
      db.jobs.length < maxBundleJobs ∧
      db.items.length + (refs.filter db.lacks).length ≤ limits.maxItems ∧
      (db.items.map (·.sizeBytes)).sum + ((refs.filter db.lacks).map (·.sizeBytes)).sum ≤
        limits.maxBytes ∧
      db.items.length + db.archive.length + (refs.filter db.lacks).length ≤ maxArchiveItems := by
  obtain ⟨hjobs, h⟩ := Result.check_ok_iff.1 h
  obtain ⟨⟨added, extra, found⟩, hloop, h⟩ := Result.bind_ok_iff.1 h
  obtain ⟨hroom, h⟩ := Result.check_ok_iff.1 h
  cases h
  obtain ⟨new, hnew, hmap, hadded, hextra, hadmits⟩ := admissionLoop_ok hloop
  rw [List.nil_append] at hnew
  subst hnew
  rw [Nat.zero_add] at hadded hextra
  subst hadded hextra
  simp only [refuse_ok_iff, Bool.or_eq_false_iff, decide_eq_false_iff_not, not_lt, gt_iff_lt,
    ge_iff_le, not_le] at hroom hjobs
  obtain ⟨⟨hitems, hbytes⟩, harchive⟩ := hroom
  obtain ⟨-, hmax, -, hmax'⟩ := limits_ok hlimits
  have hlt : limits.maxItems < u64Max := lt_of_le_of_lt hmax (by decide)
  have hlt' : limits.maxBytes < u64Max := lt_of_le_of_lt hmax' (by decide)
  have hlt'' : maxArchiveItems < u64Max := by decide
  refine ⟨hmap, hadmits, hjobs, add_le_of_saturatingAdd_le hlt hitems,
    add_le_of_saturatingAdd_le hlt' hbytes, ?_⟩
  have hsum := add_le_of_saturatingAdd_le hlt'' harchive
  unfold saturatingAdd at hsum
  omega

/-! ## New items -/

theorem lookup_insertItem {row : ItemRow} {hash : String} (hne : row.sha256 ≠ hash)
    (h : db.insertItem row = .ok db') : (db'.lookup hash).isNone = (db.lookup hash).isNone := by
  rw [(insertItem_ok_iff.1 h).2, Bool.eq_iff_iff, Option.isNone_iff_eq_none,
    Option.isNone_iff_eq_none, lookup_eq_none, lookup_eq_none]
  simp only [List.append_assoc, List.mem_append, List.mem_singleton, ne_eq, Prod.mk.injEq]
  constructor
  · exact fun hall r hr => hall r (hr.elim .inl fun hr => .inr (.inr hr))
  · intro hall r hr
    rcases hr with hr | rfl | hr
    · exact hall r (.inl hr)
    · exact fun heq => hne heq.2
    · exact hall r (.inr hr)

/-- The items that registering a bundle inserts are those that the queue lacks. -/
theorem linkRows_ok {now : Nat} {refs : List BundleChunkRef}
    (hnodup : (refs.map (·.sha256)).Nodup) (h : linkRows now refs db = .ok db') :
    db' = { db with
      items := db.items ++ (refs.filter db.lacks).map
        (fun r => newRow r.itemId "backup" r.sha256 r.sizeBytes now) } := by
  induction refs generalizing db with
  | nil =>
    cases h
    simp
  | cons item rest ih =>
    rw [List.map_cons, List.nodup_cons] at hnodup
    rw [linkRows] at h
    split at h
    · next hsome =>
      have hlacks : ¬db.lacks item = true := by
        rw [Database.lacks, Option.isNone_iff_eq_none]
        exact Option.isSome_iff_ne_none.1 hsome
      rw [List.filter_cons_of_neg hlacks]
      exact ih hnodup.2 h
    · next hnone =>
      have hlacks : db.lacks item = true := by
        rw [Database.lacks, Option.isNone_iff_eq_none]
        simpa using hnone
      obtain ⟨-, h⟩ := Result.check_ok_iff.1 h
      obtain ⟨next, hins, h⟩ := Result.bind_ok_iff.1 h
      have hnext := (insertItem_ok_iff.1 hins).2
      have hsame : rest.filter next.lacks = rest.filter db.lacks := by
        refine List.filter_congr fun r hr => ?_
        refine lookup_insertItem (fun heq => hnodup.1 ?_) hins
        exact List.mem_map.2 ⟨r, hr, heq.symm⟩
      rw [ih hnodup.2 h, hsame, List.filter_cons_of_pos hlacks, hnext]
      simp

end Admission

/-! ## Linking -/

section Linking

variable {F : Formats} {d d' : Disk} {db db' : Database}

theorem Backed.add {r : ItemColumns} (h : Backed F d r) (name : EntryName) (file : File) :
    Backed F (d.add name file) r := by
  obtain ⟨found, hfound, hrest⟩ := h
  exact ⟨found, Disk.file_add hfound, hrest⟩

theorem Backed.release {r : ItemColumns} (h : Backed F d r) (id : String) (stat : Nat) :
    Backed F (d.release id stat) r := by
  obtain ⟨found, hfound, hsize, hhash, hlinked⟩ := h
  refine ⟨found, ?_, hsize, hhash, hlinked⟩
  rw [Disk.file_release, hfound]
  simp only [Option.map_some, Option.some.injEq]
  split
  · rw [← hlinked]
  · rfl

/-- The new chunks are linked, each before its row is inserted. -/
theorem linkChunks_sat {spool : List (String × Bytes)} {r : BundleReadings}
    {refs : List BundleChunkRef}
    (hspool : ∀ item ∈ refs, ∀ bytes, spool.lookup item.sha256 = some bytes →
      F.sha256 bytes = item.sha256 ∧ bytes.length = item.sizeBytes)
    (hd : Inv F d) (hobjects : d.objects.isSome)
    (hbacked : ∀ row ∈ db.items, Backed F d row.toItemColumns) :
    (linkChunks spool r refs db).Sat d
      (fun db' d' => Filed d d' ∧ linkRows (min r.now i64Max) refs db = .ok db' ∧
        ∀ row ∈ db'.items, Backed F d' row.toItemColumns)
      (fun d' => Filed d d') (fun d' => Filed d d') := by
  induction refs generalizing d db with
  | nil => exact Prog.Sat.pure ⟨.refl d, rfl, hbacked⟩
  | cons item rest ih =>
    have hrest := fun i hi => hspool i (List.mem_cons_of_mem _ hi)
    rw [linkChunks]
    refine Prog.Sat.ite (fun hsome => ?_) fun hnone => ?_
    · refine (ih hrest hd hobjects hbacked).mono (fun db' d' h => ⟨h.1, ?_, h.2.2⟩)
        (fun _ h => h) (fun _ h => h)
      rw [linkRows, if_pos hsome]
      exact h.2.1
    refine Prog.Sat.bind (Prog.Sat.ask (fun bytes hbytes => ?_) (.refl d))
    rcases hlookup : spool.lookup item.sha256 with _ | found
    · simp [hlookup] at hbytes
    simp only [hlookup] at hbytes
    obtain ⟨hid, hbytes⟩ := Result.check_ok_iff.1 hbytes
    have hfree : d.file (.snapshot item.itemId) = none := by
      by_contra hsome
      rw [if_pos (Option.isSome_iff_ne_none.2 hsome)] at hbytes
      cases hbytes
    have hfound : found = bytes := by
      rw [if_neg (by simp [hfree])] at hbytes
      exact Except.ok.inj hbytes
    obtain ⟨hhash, hsize⟩ := hspool item List.mem_cons_self found hlookup
    rw [hfound] at hhash hsize
    generalize hlink : d.add (.snapshot item.itemId) ⟨bytes, r.stat item.sha256, true⟩ = d₁
    have h₁ : Filed d d₁ := hlink ▸ .add hd hfree
    have h₂ : Filed d (d₁.release item.itemId (r.stat item.sha256)) :=
      h₁.trans (.release (hd.filed h₁) _ _)
    refine Prog.Sat.bind (Prog.Sat.durable ?_ (hlink ▸ h₁) (.refl d) (.refl d))
    rw [hlink]
    refine Prog.Sat.bind (Prog.Sat.durable ?_ h₂ h₁ h₁)
    refine Prog.Sat.bind (Prog.Sat.ask (fun next hins => ?_) h₂)
    have hnext := (insertItem_ok_iff.1 hins).2
    have hbacked' : ∀ row ∈ next.items,
        Backed F (d₁.release item.itemId (r.stat item.sha256)) row.toItemColumns := by
      intro row hrow
      rw [hnext] at hrow
      rcases List.mem_append.1 hrow with hrow | hrow
      · exact hlink ▸ ((hbacked row hrow).add _ _).release _ _
      · rw [List.mem_singleton.1 hrow]
        refine ⟨⟨bytes, r.stat item.sha256, false⟩, ?_, hsize, hhash, rfl⟩
        show (d₁.release _ _).file (.snapshot item.itemId) = _
        rw [Disk.file_release, ← hlink, Disk.file_add_self hobjects hfree]
        simp
    have hobjects' : (d₁.release item.itemId (r.stat item.sha256)).objects.isSome := by
      rw [h₂.objects]
      exact hobjects
    refine (ih hrest (hd.filed h₂) hobjects' hbacked').mono (fun db' d' h => ?_)
      (fun _ h => h₂.trans h) (fun _ h => h₂.trans h)
    refine ⟨h₂.trans h.1, ?_, h.2.2⟩
    rw [linkRows, if_neg hnone]
    exact Result.check_ok_iff.2 ⟨hid, Result.bind_ok_iff.2 ⟨next, hins, h.2.1⟩⟩

end Linking

/-! ## Registered bundles -/

section Registered

variable (F : Formats)

/-- The bundle is in the tables as a whole: its job, one reference for each distinct chunk, and the
items of its chunks, those that are pending with their snapshots. -/
structure Registered (d : Disk) (db : Database) (manifest : BundleManifest) : Prop where
  job : ∃ j ∈ db.jobs, j.bundleId = manifest.bundleId ∧
    F.manifest.decode j.manifestJson = some manifest
  refs : ∀ c ∈ manifest.chunks, ∃ r ∈ db.refs, r.bundleId = manifest.bundleId ∧
    r.sha256 = c.sha256 ∧ r.sizeBytes = c.sizeBytes
  distinct : ((db.refs.filter (·.bundleId = manifest.bundleId)).map (·.sha256)).Nodup
  named : ∀ r ∈ db.refs, r.bundleId = manifest.bundleId →
    ∃ c ∈ manifest.chunks, c.sha256 = r.sha256 ∧ c.sizeBytes = r.sizeBytes
  items : ∀ c ∈ manifest.chunks, ∃ q ∈ db.items ++ db.archive, q.kind = "backup" ∧
    q.sha256 = c.sha256 ∧ q.sizeBytes = c.sizeBytes ∧
    (q ∈ db.items → Backed F d q.toItemColumns)

variable {F} {d : Disk} {db db' : Database}

theorem Ordered.keys_nodup {l : List (String × Nat)} (h : Ordered l) : (l.map (·.1)).Nodup := by
  rw [List.Nodup, List.pairwise_map]
  refine h.imp fun {p q} hlt heq => ?_
  rw [heq] at hlt
  exact String.lt_irrefl _ hlt

/-- A list of references that has as many entries as its map has no hash twice. -/
theorem nodup_of_refMap {refs : List BundleChunkRef} (hordered : Ordered (refMap refs))
    (hlength : (refMap refs).length = refs.length) : (refs.map (·.sha256)).Nodup := by
  have hsubset : (refMap refs).map (·.1) ⊆ refs.map (·.sha256) := by
    intro k hk
    obtain ⟨p, hp, rfl⟩ := List.mem_map.1 hk
    obtain ⟨r, hr, rfl⟩ := mem_refMap hp
    exact List.mem_map.2 ⟨r, hr, rfl⟩
  have hperm := (List.subperm_of_subset hordered.keys_nodup hsubset).perm_of_length_le
    (by rw [List.length_map, List.length_map, hlength])
  exact hperm.nodup_iff.1 hordered.keys_nodup

theorem mem_refMap_of_mem {refs : List BundleChunkRef} (hnodup : (refs.map (·.sha256)).Nodup)
    {r : BundleChunkRef} (hr : r ∈ refs) : (r.sha256, r.sizeBytes) ∈ refMap refs := by
  have hfold : ∀ (refs : List BundleChunkRef) (found : List (String × Nat)),
      (refs.map (·.sha256)).Nodup →
      (∀ r ∈ refs, (r.sha256, r.sizeBytes) ∈
        refs.foldl (fun found r => insertChunk r.sha256 r.sizeBytes found) found) ∧
      ∀ p ∈ found, p.1 ∉ refs.map (·.sha256) →
        p ∈ refs.foldl (fun found r => insertChunk r.sha256 r.sizeBytes found) found := by
    intro refs
    induction refs with
    | nil => exact fun found _ => ⟨by simp, fun p hp _ => hp⟩
    | cons q rest ih =>
      intro found hnodup
      rw [List.map_cons, List.nodup_cons] at hnodup
      obtain ⟨hall, hold⟩ := ih (insertChunk q.sha256 q.sizeBytes found) hnodup.2
      refine ⟨List.forall_mem_cons.2 ⟨?_, hall⟩, fun p hp hnot => ?_⟩
      · exact hold _ (self_mem_insertChunk _ _ _) hnodup.1
      · rw [List.map_cons, List.mem_cons, not_or] at hnot
        exact hold p (mem_insertChunk_of_ne hp hnot.1 _) hnot.2
  exact (hfold refs [] hnodup).1 r hr

theorem proof_refs {job : BundleJob} {target : QueueTarget} (h : proof F job target = .ok ()) :
    (refMap job.chunkItems).length = job.chunkItems.length := by
  obtain ⟨-, h⟩ := Result.check_ok_iff.1 h
  obtain ⟨-, h⟩ := Result.check_ok_iff.1 h
  obtain ⟨expected, -, h⟩ := Result.bind_ok_iff.1 h
  obtain ⟨hrefs, -⟩ := Result.check_ok_iff.1 h
  simp only [refuse_ok_iff, Bool.or_eq_false_iff, bne_eq_false_iff_eq] at hrefs
  exact hrefs.1.2

theorem refsOf_perm (db : Database) (id : String) :
    (db.refsOf id).Perm ((db.refs.filter (·.bundleId = id)).map (·.toBundleChunkRef)) :=
  List.mergeSort_perm _ _

/-- A job that is loaded is registered as a whole, when its references name items. -/
theorem registered_of_load {job : BundleJob} {manifest : BundleManifest}
    (hload : load F db manifest.bundleId = .ok job) (hmanifest : job.manifest = manifest)
    (hnames : ∀ r ∈ db.refs, r.bundleId = manifest.bundleId →
      ∃ q ∈ db.items ++ db.archive, r.names q.toItemColumns)
    (hbacked : ∀ q ∈ db.items, Backed F d q.toItemColumns) : Registered F d db manifest := by
  obtain ⟨row, target, hrow, -, hdecode, hitems, hproof⟩ := load_ok hload
  obtain ⟨hid, hjson, -⟩ := decodeJob_ok hdecode
  obtain ⟨-, hunique⟩ := proof_ok hproof
  have hlength := proof_refs hproof
  rw [hmanifest] at hunique
  obtain ⟨hordered, hchunks, hfrom⟩ := uniqueChunks_spec hunique
  have hnodup := nodup_of_refMap hordered hlength
  rw [hitems] at hnodup hchunks hfrom
  -- Every chunk has its reference.
  have hrefs : ∀ c ∈ manifest.chunks, ∃ r ∈ db.refs, r.bundleId = manifest.bundleId ∧
      r.sha256 = c.sha256 ∧ r.sizeBytes = c.sizeBytes := by
    intro c hc
    obtain ⟨r, hr, hpair⟩ := mem_refMap (hchunks c hc)
    obtain ⟨ref, href, hrefid, rfl⟩ := mem_refsOf hr
    obtain ⟨hhash, hsize⟩ := Prod.mk.inj hpair
    exact ⟨ref, href, hrefid, hhash.symm, hsize.symm⟩
  refine ⟨?_, hrefs, ?_, fun r hr hrid => ?_, fun c hc => ?_⟩
  · refine ⟨row, List.mem_of_find?_eq_some hrow, by simpa using List.find?_some hrow, ?_⟩
    rw [hjson]
    exact congrArg some hmanifest
  · have hperm := (refsOf_perm db manifest.bundleId).map (·.sha256)
    rw [List.map_map] at hperm
    exact hperm.nodup_iff.1 hnodup
  · have hmem : r.toBundleChunkRef ∈ db.refsOf manifest.bundleId := by
      rw [(refsOf_perm db manifest.bundleId).mem_iff]
      exact List.mem_map_of_mem (List.mem_filter.2 ⟨hr, by simpa using hrid⟩)
    obtain ⟨c, hc, hpair⟩ := hfrom _ (mem_refMap_of_mem hnodup hmem)
    obtain ⟨hhash, hsize⟩ := Prod.mk.inj hpair
    exact ⟨c, hc, hhash.symm, hsize.symm⟩
  · obtain ⟨r, hr, hrid, hhash, hsize⟩ := hrefs c hc
    obtain ⟨q, hq, hn⟩ := hnames r hr hrid
    simp only [RefRow.names, Bool.and_eq_true, beq_iff_eq] at hn
    exact ⟨q, hq, hn.1.1.2, hn.1.2.trans hhash, hn.2.trans hsize, fun h => hbacked q h⟩

end Registered

/-! ## The calls -/

section Calls

variable (F : Formats) (leases : List Lease) (jobLeases : List JobLease)

/-- The tables are within their limits. -/
structure Within (db : Database) : Prop where
  items : db.items.length ≤ db.queueMeta.limits.maxItems
  bytes : (db.items.map (·.sizeBytes)).sum ≤ db.queueMeta.limits.maxBytes
  slots : db.items.length + db.archive.length ≤ maxArchiveItems

/-- What a part of `enqueue_bundle` may leave: no row is added, or in one transaction all of them,
within the limits of the call. -/
inductive Placed (b : Bundle) (d d' : Disk) : Prop
  | nothing {creating : Option (QueueTarget × QueueLimits)} {d₁ : Disk}
      (hopened : Opened F creating d d₁) (hfiled : Filed d₁ d') : Placed b d d'
  | whole {creating : Option (QueueTarget × QueueLimits)} {d₁ : Disk} {db db' : Database}
      (hopened : Opened F creating d d₁)
      (hcommitted : Committed F leases jobLeases d₁ d' db db' b.target)
      (hlimits : db'.queueMeta.limits = b.limits) (hwithin : Within db')
      (hregistered : Registered F d' db' b.manifest) : Placed b d d'

/-- The job is in the tables as it was returned, with the manifest of the call. -/
def Returned (b : Bundle) (job : BundleJob) (d : Disk) : Prop :=
  ∃ db, d.db? = some db ∧ load F db b.manifest.bundleId = .ok job ∧ job.manifest = b.manifest ∧
    Registered F d db b.manifest

variable {F leases jobLeases} {d d' d₁ : Disk} {db db' : Database} {b : Bundle}

theorem Placed.did (h : Placed F leases jobLeases b d d') : Did F leases jobLeases d d' := by
  cases h with
  | nothing hopened hfiled => exact .files hopened hfiled
  | whole hopened hcommitted _ _ _ => exact .change hopened hcommitted

theorem Placed.opened {creating : Option (QueueTarget × QueueLimits)} (h : Opened F creating d d') :
    Placed F leases jobLeases b d d' := .nothing h (.refl _)

theorem loadSame_ok {manifest : BundleManifest} {job : BundleJob}
    (h : loadSame F db manifest = .ok job) :
    load F db manifest.bundleId = .ok job ∧ job.manifest = manifest := by
  obtain ⟨old, hload, h⟩ := Result.bind_ok_iff.1 h
  obtain ⟨hsame, h⟩ := Result.check_ok_iff.1 h
  cases h
  simp only [refuse_ok_iff, bne_eq_false_iff_eq] at hsame
  exact ⟨hload, hsame⟩

/-- A registered job is returned from an opened queue. -/
theorem returned_of_loadSame (hd : Inv F d) (hdb : d.db? = some db)
    (hvalid : validateCurrent F db = .ok ()) {job : BundleJob}
    (h : loadSame F db b.manifest = .ok job) : Returned F b job d := by
  obtain ⟨hload, hmanifest⟩ := loadSame_ok h
  refine ⟨db, hdb, hload, hmanifest, registered_of_load hload hmanifest (fun r hr _ => ?_)
    (hd.backed db hdb)⟩
  exact (validateCurrent_ok_iff.1 hvalid).names hr

/-- The first part of `enqueue_bundle` adds nothing. -/
theorem beginBundle_sat (hd : Inv F d) (b : Bundle) (draw : String → Option RandomId) :
    (beginBundle F b draw).Sat d
      (fun _ d' => Opened F (some (b.target, b.limits)) d d')
      (fun d' => Opened F (some (b.target, b.limits)) d d')
      (fun d' => Opened F (some (b.target, b.limits)) d d') := by
  unfold beginBundle
  refine Prog.Sat.bind ((openFor_sat hd).mono (fun db d₁ h => ?_) (fun _ h => h) (fun _ h => h))
  have hopened := h.1.opened
  refine Prog.Sat.ite (fun _ => ?_) fun _ => ?_
  · exact Prog.Sat.bind (Prog.Sat.ask (fun _ _ => Prog.Sat.pure hopened) hopened)
  · exact Prog.Sat.bind (Prog.Sat.ask (fun _ _ => Prog.Sat.pure hopened) hopened)

/-- The last part of `enqueue_bundle` for a registered bundle adds nothing and returns the job. -/
theorem confirmBundle_sat (hd : Inv F d) (b : Bundle) (checked : Checked) :
    (confirmBundle F b checked).Sat d
      (fun job d' => Opened F none d d' ∧ Returned F b job d')
      (fun d' => Opened F none d d') (fun d' => Opened F none d d') := by
  unfold confirmBundle
  refine Prog.Sat.bind ((openFor_sat hd).mono (fun db d₁ h => ?_) (fun _ h => h) (fun _ h => h))
  obtain ⟨hready, -⟩ := h
  refine Prog.Sat.bind (Prog.Sat.ask (fun old hold => ?_) hready.opened)
  refine Prog.Sat.bind (Prog.Sat.ask (fun _ _ => ?_) hready.opened)
  exact Prog.Sat.pure ⟨hready.opened,
    returned_of_loadSame (hready.opened.inv hd) hready.db? hready.valid hold⟩

/-- The items that a registration references are in the tables. -/
theorem names_of_admission {refs : List BundleChunkRef} {linked : Database} {limits : QueueLimits}
    {now : Nat} {manifest : BundleManifest} (hvalid : Valid F db)
    (hnew : db.hasJob manifest.bundleId = false) (hadmits : ∀ r ∈ refs, db.Admits r)
    (hlinked : linked = { db with
      items := db.items ++ (refs.filter db.lacks).map
        (fun r => newRow r.itemId "backup" r.sha256 r.sizeBytes now) })
    (hins : linked.insertJob (newJob F manifest now) refs limits = .ok db') :
    ∀ r ∈ db'.refs, r.bundleId = manifest.bundleId →
      ∃ q ∈ db'.items ++ db'.archive, r.names q.toItemColumns := by
  intro r hr hid
  rw [(insertJob_ok_iff.1 hins).2.2, hlinked] at hr ⊢
  rcases List.mem_append.1 hr with hr | hr
  · -- The references of another bundle.
    have := hvalid.hasJob hr
    rw [hid, hnew] at this
    cases this
  obtain ⟨ref, href, rfl⟩ := List.mem_map.1 hr
  rcases hadmits ref href with ⟨row, hrow, hrowid, hsize⟩ | ⟨hnone, -⟩
  · obtain ⟨q, hfind, rfl⟩ := Option.map_eq_some_iff.1 hrow
    have hq := List.find?_some hfind
    simp only [decide_eq_true_eq] at hq
    refine ⟨q, ?_, by simp [RefRow.names, hrowid, hq.1, hq.2, hsize]⟩
    rcases List.mem_append.1 (List.mem_of_find?_eq_some hfind) with hmem | hmem
    · exact List.mem_append_left _ (List.mem_append_left _ hmem)
    · exact List.mem_append_right _ hmem
  · refine ⟨newRow ref.itemId "backup" ref.sha256 ref.sizeBytes now,
      List.mem_append_left _ (List.mem_append_right _ (List.mem_map.2 ⟨ref, ?_, rfl⟩)), ?_⟩
    · exact List.mem_filter.2 ⟨href, by simp [Database.lacks, hnone]⟩
    · simp [RefRow.names, newRow]

/-- After a registration the tables are within the limits of the call. -/
theorem within_of_admission {refs : List BundleChunkRef} {linked : Database} {limits : QueueLimits}
    {now : Nat} {job : JobRow}
    (hitems : db.items.length + (refs.filter db.lacks).length ≤ limits.maxItems)
    (hbytes : (db.items.map (·.sizeBytes)).sum + ((refs.filter db.lacks).map (·.sizeBytes)).sum ≤
      limits.maxBytes)
    (hslots : db.items.length + db.archive.length + (refs.filter db.lacks).length ≤ maxArchiveItems)
    (hlinked : linked = { db with
      items := db.items ++ (refs.filter db.lacks).map
        (fun r => newRow r.itemId "backup" r.sha256 r.sizeBytes now) })
    (hins : linked.insertJob job refs limits = .ok db') :
    db'.queueMeta.limits = limits ∧ Within db' := by
  rw [(insertJob_ok_iff.1 hins).2.2, hlinked]
  refine ⟨rfl, ?_, ?_, ?_⟩
  · simpa using hitems
  · simp only [List.map_append, List.map_map, List.sum_append]
    exact hbytes
  · simp only [List.length_append, List.length_map]
    omega

/-- The job that was inserted is read back with its manifest. -/
theorem load_insertJob (hF : F.ReadsBack) {manifest : BundleManifest} {now : Nat}
    {refs : List BundleChunkRef} {limits : QueueLimits}
    (hins : db.insertJob (newJob F manifest now) refs limits = .ok db') {job : BundleJob}
    (hload : load F db' manifest.bundleId = .ok job) : job.manifest = manifest := by
  obtain ⟨hnew, -, hdb'⟩ := insertJob_ok_iff.1 hins
  obtain ⟨row, -, hrow, -, hdecode, -⟩ := load_ok hload
  have hid : row.bundleId = manifest.bundleId := by simpa using List.find?_some hrow
  have hmem := List.mem_of_find?_eq_some hrow
  rw [hdb'] at hmem
  rcases List.mem_append.1 hmem with hmem | hmem
  · simp only [Database.hasJob, List.any_eq_false, beq_iff_eq] at hnew
    exact (hnew row hmem hid).elim
  · have hjson := (decodeJob_ok hdecode).2.1
    rw [List.mem_singleton.1 hmem] at hjson
    simp only [newJob, hF.manifest manifest, Option.some.injEq] at hjson
    exact hjson.symm

/-- The last part of `enqueue_bundle` adds nothing or registers the bundle as a whole. -/
theorem commitBundle_sat (hF : F.ReadsBack) (hd : Inv F d) (hlimits : b.limits.validate = .ok ())
    (hchunks : uniqueChunks F b.manifest = .ok b.chunks) {spool : List (String × Bytes)}
    (hspool : Spooled F b.manifest spool) (checked : Checked) (r : BundleReadings) :
    (commitBundle F b spool checked r).Sat d
      (fun job d' => Placed F leases jobLeases b d d' ∧ Returned F b job d')
      (fun d' => Placed F leases jobLeases b d d')
      (fun d' => Placed F leases jobLeases b d d') := by
  unfold commitBundle
  refine Prog.Sat.bind ((openFor_sat hd).mono (fun db d₁ h => ?_) (fun _ h => .opened h)
    (fun _ h => .opened h))
  obtain ⟨hready, hpinned⟩ := h
  have hd₁ := hready.opened.inv hd
  have hopened : ∀ d₂, Filed d₁ d₂ → Placed F leases jobLeases b d d₂ :=
    fun d₂ h => .nothing hready.opened h
  have hsame := hopened _ (.refl _)
  refine Prog.Sat.ite (fun _ => ?_) fun hnew => ?_
  · refine Prog.Sat.bind (Prog.Sat.ask (fun old hold => ?_) hsame)
    refine Prog.Sat.bind (Prog.Sat.ask (fun _ _ => ?_) hsame)
    have hreturned := returned_of_loadSame hd₁ hready.db? hready.valid hold
    exact Prog.Sat.bind (touch_sat (Prog.Sat.pure ⟨hsame, hreturned⟩) hsame hsame)
  have hnew : db.hasJob b.manifest.bundleId = false := by simpa using hnew
  refine Prog.Sat.bind (Prog.Sat.ask (fun refs hrefs => ?_) hsame)
  refine Prog.Sat.bind (Prog.Sat.ask (fun _ _ => ?_) hsame)
  obtain ⟨hmap, hadmits, -, hitems, hbytes, hslots⟩ := admission_ok hlimits hrefs
  obtain ⟨hordered, hin, hfrom⟩ := uniqueChunks_spec hchunks
  -- The copy of a chunk has the size that the reference names.
  have hcopies : ∀ item ∈ refs, ∀ bytes, spool.lookup item.sha256 = some bytes →
      F.sha256 bytes = item.sha256 ∧ bytes.length = item.sizeBytes := by
    intro item hitem bytes hlookup
    obtain ⟨hhash, hpair⟩ := hspool _ (mem_of_lookup_eq_some hlookup)
    obtain ⟨c, hc, hceq⟩ := List.mem_map.1 hpair
    have h1 : (item.sha256, bytes.length) ∈ b.chunks := hceq ▸ hin c hc
    have h2 : (item.sha256, item.sizeBytes) ∈ b.chunks :=
      hmap ▸ List.mem_map.2 ⟨item, hitem, rfl⟩
    have e1 : b.chunks.lookup item.sha256 = some bytes.length := hordered.lookup h1
    have e2 : b.chunks.lookup item.sha256 = some item.sizeBytes := hordered.lookup h2
    exact ⟨hhash, Option.some.inj (e1.symm.trans e2)⟩
  refine Prog.Sat.bind ((linkChunks_sat hcopies hd₁ (hd₁.objects db hready.db?)
    (hd₁.backed db hready.db?)).mono (fun linked d₂ h => ?_) hopened hopened)
  obtain ⟨hfiled, hlinked, hbacked⟩ := h
  refine Prog.Sat.bind (touch_sat ?_ (hopened _ hfiled) (hopened _ hfiled))
  refine Prog.Sat.bind (touch_sat ?_ (hopened _ hfiled) (hopened _ hfiled))
  refine Prog.Sat.bind (Prog.Sat.ask (fun next hins => ?_) (hopened _ hfiled))
  refine Prog.Sat.bind (Prog.Sat.ask (fun job hload => ?_) (hopened _ hfiled))
  have hnodup : (refs.map (·.sha256)).Nodup := by
    have : refs.map (·.sha256) = b.chunks.map (·.1) := by
      rw [← hmap, List.map_map]
      rfl
    rw [this]
    exact hordered.keys_nodup
  have hrows := linkRows_ok hnodup hlinked
  have hbacked' : ∀ q ∈ next.items, Backed F d₂ q.toItemColumns := by
    rw [(insertJob_ok_iff.1 hins).2.2]
    exact hbacked
  have hcommitted : Committed F leases jobLeases d₁ (d₂.commit next) db next b.target :=
    ⟨hready.db?, hready.valid, hpinned,
      .registered hlimits hnew hchunks hrefs hlinked hins hload, d₂, hfiled, hbacked', .refl _⟩
  have hmanifest := load_insertJob hF hins hload
  have hnames := names_of_admission (validateCurrent_ok_iff.1 hready.valid) hnew hadmits hrows hins
  have hregistered : Registered F (d₂.commit next) next b.manifest :=
    registered_of_load hload hmanifest hnames hbacked'
  obtain ⟨hset, hwithin⟩ := within_of_admission hitems hbytes hslots hrows hins
  have hwhole : Placed F leases jobLeases b d (d₂.commit next) :=
    .whole hready.opened hcommitted hset hwithin hregistered
  exact Prog.Sat.bind (Prog.Sat.durable
    (Prog.Sat.pure ⟨hwhole, next, rfl, hload, hmanifest, hregistered⟩) hwhole (hopened _ hfiled)
    (hopened _ hfiled))

end Calls

end Argos.Queue
