import Argos.Queue.Transactions

/-!
# What the queue has written it accepts

`open_mutating` validates the tables before every call, so a transaction that left tables which
`validate_database` refuses would lock the queue for ever. No transaction does: each one keeps every
condition of the validator, and keeps every job readable for `load`. The one thing the tables do not
enforce themselves is that a random identifier is not that of an archived item; the runs considered
are those in which no identifier is drawn twice.
-/

namespace Argos.Queue

open Argos.Lib
open Argos.Vault (Bytes SignedReceipt BundleManifest BundleRecord refuse_ok_iff)

/-! ## Rows -/

section Rows

variable {F : Formats} {db db' : Database}

theorem ItemColumns.same_congr {a a' : ItemColumns} (h : SameItem a a') (b : ItemColumns) :
    a'.same b = a.same b := by
  obtain ⟨hid, hkind, hhash, -⟩ := h
  rw [ItemColumns.same, ItemColumns.same, hid, hkind, hhash]

theorem RefRow.names_congr {a a' : ItemColumns} (h : SameItem a a') (r : RefRow) :
    r.names a' = r.names a := by
  obtain ⟨hid, hkind, hhash, hsize⟩ := h
  rw [RefRow.names, RefRow.names, hid, hkind, hhash, hsize]

theorem same_eq_false_iff {a b : ItemColumns} :
    a.same b = false ↔ a.id ≠ b.id ∧ (a.kind, a.sha256) ≠ (b.kind, b.sha256) := by
  simp [ItemColumns.same]

theorem badRef_eq_false_iff {r : RefRow} : db.badRef r = false ↔
    db.hasJob r.bundleId ∧ ∃ q ∈ db.items ++ db.archive, r.names q.toItemColumns := by
  simp only [Database.badRef, Database.hasJob, Bool.or_eq_false_iff, Bool.not_eq_false',
    Bool.or_eq_true, List.any_eq_true, List.mem_append]
  refine and_congr_right fun _ => ⟨?_, ?_⟩
  · rintro (⟨q, hq, hn⟩ | ⟨a, ha, hn⟩)
    · exact ⟨q, .inl hq, hn⟩
    · exact ⟨a, .inr ha, hn⟩
  · rintro ⟨q, hq | hq, hn⟩
    · exact .inl ⟨q, hq, hn⟩
    · exact .inr ⟨q, hq, hn⟩

/-- A reference that was good stays good while its job and its item stay. -/
theorem badRef_kept (hkeeps : Keeps db db') {r : RefRow} (h : db.badRef r = false) :
    db'.badRef r = false := by
  obtain ⟨hjob, q, hq, hnames⟩ := badRef_eq_false_iff.1 h
  refine badRef_eq_false_iff.2 ⟨?_, ?_⟩
  · obtain ⟨j, hj, hid⟩ := List.any_eq_true.1 hjob
    obtain ⟨j', hj', hkept⟩ := hkeeps.jobs j hj
    exact List.any_eq_true.2 ⟨j', hj', by rw [hkept.bundleId]; exact hid⟩
  · obtain ⟨q', hq', hsame⟩ := hkeeps.mem hq
    exact ⟨q', hq', by rw [RefRow.names_congr hsame]; exact hnames⟩

end Rows

/-! ## Items -/

section Items

variable {F : Formats} {db db' : Database} {target : QueueTarget}

/-- The columns of leases are changed. -/
theorem Valid.mapItems (h : Valid F db) (hsound : Sound F db) {g : ItemRow → ItemRow}
    (hg : LeaseOnly g)
    (hlease : ∀ r ∈ db.items, (g r).leaseToken.isNone = (g r).leaseExpiresMs.isNone) :
    Valid F { db with items := db.items.map g } := by
  have hkeeps := (hsound.mapItems hg).2
  refine ⟨h.target, h.limits, ?_, ?_, fun q hq => ?_, fun q hq a ha => ?_, h.archived, h.jobCount,
    h.jobs, h.refCount, fun r hr => badRef_kept hkeeps (h.named r hr), h.counted⟩
  · rw [List.length_map]
    exact h.active
  · rw [List.length_map]
    exact h.total
  · obtain ⟨r, hr, rfl⟩ := List.mem_map.1 hq
    have hbad := h.items r hr
    simp only [ItemRow.badActive, Bool.or_eq_false_iff] at hbad ⊢
    rw [hg.state, hg.receiptJson, hg.sentAtMs, hlease r hr]
    exact ⟨hbad.1, bne_self_eq_false _⟩
  · obtain ⟨r, hr, rfl⟩ := List.mem_map.1 hq
    rw [ItemColumns.same_congr (hg.same r)]
    exact h.disjoint r hr a ha

/-- An active row has both columns of a lease or none. -/
theorem Valid.paired (h : Valid F db) {r : ItemRow} (hr : r ∈ db.items) :
    r.leaseToken.isNone = r.leaseExpiresMs.isNone := by
  have hbad := h.items r hr
  simp only [ItemRow.badActive, Bool.or_eq_false_iff, bne_eq_false_iff_eq] at hbad
  exact hbad.2

theorem Valid.leased (h : Valid F db) (hsound : Sound F db) {token : RandomId}
    {timeoutSecs now : Nat} {row : ItemRow} (hleased : ItemLeased token timeoutSecs now row db db') :
    Valid F db' := by
  obtain ⟨-, -, rfl⟩ := hleased
  have := h.mapItems hsound ((leaseOnly_leased token.val (leaseExpires now timeoutSecs)
    (nextAttempt row.attempts) (later now (retryDelay (nextAttempt row.attempts)))).ite
    (fun r => r.id = row.id)) (fun r hr => ?_)
  · simp only [decide_eq_true_eq] at this
    exact this
  · split
    · simp [ItemRow.leased]
    · exact h.paired hr

/-- Items go from the active rows to the archive. -/
theorem Valid.archiveItem (h : Valid F db) (hsound : Sound F db) {id token : String} {now : Nat}
    {receipt : Bytes} (hmove : db.archiveItem id token now receipt = .ok db')
    (hkeeps : Keeps db db') : Valid F db' := by
  obtain ⟨-, rfl⟩ := archiveItem_ok_iff.1 hmove
  have hlength : (db.items.filter (·.held id token)).length +
      (db.items.filter (fun r => !r.held id token)).length = db.items.length := by
    have := List.length_eq_length_filter_add (l := db.items) (·.held id token)
    omega
  have hactive := h.active
  have htotal := h.total
  refine ⟨h.target, h.limits, ?_, ?_, fun q hq => h.items q (List.mem_filter.1 hq).1,
    fun q hq a ha => ?_, fun a ha => ?_, h.jobCount, h.jobs, h.refCount,
    fun r hr => badRef_kept hkeeps (h.named r hr), h.counted⟩
  · dsimp only
    omega
  · dsimp only
    rw [List.length_append, List.length_map]
    omega
  · obtain ⟨hq, hkept⟩ := List.mem_filter.1 hq
    rcases List.mem_append.1 ha with ha | ha
    · exact h.disjoint q hq a ha
    -- Two active rows are of different items.
    obtain ⟨r, hr, rfl⟩ := List.mem_map.1 ha
    obtain ⟨hr, hheld⟩ := List.mem_filter.1 hr
    have hne : q ≠ r := fun heq => by
      rw [heq, hheld] at hkept
      cases hkept
    have hobjects := (List.nodup_append.1 (List.map_append ▸ hsound.objects)).1
    refine same_eq_false_iff.2 ⟨fun hid => hne ?_, fun hobject => hne ?_⟩
    · exact List.inj_on_of_nodup_map hsound.itemIds hq hr hid
    · exact List.inj_on_of_nodup_map hobjects hq hr hobject
  · rcases List.mem_append.1 ha with ha | ha
    · exact h.archived a ha
    · obtain ⟨r, -, rfl⟩ := List.mem_map.1 ha
      rfl

theorem Valid.finished (h : Valid F db) (hsound : Sound F db) {lease : Lease}
    {result : Except String SignedReceipt} {now : Nat}
    (hfinished : ItemFinished F target lease result now db db') (hkeeps : Keeps db db') :
    Valid F db' := by
  obtain ⟨-, hresult⟩ := hfinished
  cases result with
  | ok receipt => exact h.archiveItem hsound hresult.2 hkeeps
  | error code =>
    rw [hresult]
    refine h.mapItems hsound ((leaseOnly_retried _ code).ite
      (fun r => r.held lease.item.id lease.token)) (fun r hr => ?_)
    split
    · rfl
    · exact h.paired hr

/-- New pending rows are added, with identifiers and objects that the archive does not have. -/
theorem Valid.addItems (h : Valid F db) {rows : List ItemRow} {limits : QueueLimits}
    (hlimits : limits.validate = .ok ()) (hactive : db.items.length + rows.length ≤ maxItems)
    (htotal : db.archive.length + (db.items.length + rows.length) ≤ maxArchiveItems)
    (hpending : ∀ r ∈ rows, r.badActive = false)
    (hnew : ∀ r ∈ rows, ∀ a ∈ db.archive, r.toItemColumns.same a.toItemColumns = false) :
    Valid F { db with
      queueMeta := { db.queueMeta with limits := limits }
      items := db.items ++ rows } := by
  refine ⟨h.target, hlimits, ?_, ?_, fun q hq => ?_, fun q hq a ha => ?_, h.archived, h.jobCount,
    h.jobs, h.refCount, fun r hr => ?_, h.counted⟩
  · rw [List.length_append]
    exact hactive
  · rw [List.length_append]
    exact htotal
  · rcases List.mem_append.1 hq with hq | hq
    · exact h.items q hq
    · exact hpending q hq
  · rcases List.mem_append.1 hq with hq | hq
    · exact h.disjoint q hq a ha
    · exact hnew q hq a ha
  · obtain ⟨hjob, q, hq, hnames⟩ := badRef_eq_false_iff.1 (h.named r hr)
    refine badRef_eq_false_iff.2 ⟨hjob, q, ?_, hnames⟩
    rcases List.mem_append.1 hq with hq | hq
    · exact List.mem_append_left _ (List.mem_append_left _ hq)
    · exact List.mem_append_right _ hq

theorem badActive_newRow (id kind hash : String) (size now : Nat) :
    (newRow id kind hash size now).badActive = false := rfl

theorem Valid.enqueued (h : Valid F db) {kind : String} {limits : QueueLimits} {id : RandomId}
    {now : Nat} (hfresh : ∀ a ∈ db.archive, a.id ≠ id.val)
    (henqueued : Enqueued kind limits id now db db') : Valid F db' := by
  obtain ⟨hlimits, -, hash, size, hnone, hroom, hins⟩ := henqueued
  obtain ⟨-, rfl⟩ := insertItem_ok_iff.1 hins
  obtain ⟨-, hmax, -, -⟩ := limits_ok hlimits
  simp only [checkRoom, Vault.Result.check_ok_iff, refuse_ok_iff, Bool.or_eq_false_iff,
    decide_eq_false_iff_not, ge_iff_le, not_le] at hroom
  obtain ⟨hslots, hactive, -⟩ := hroom
  have hslots : db.items.length + db.archive.length < maxArchiveItems := by
    have hlt : maxArchiveItems < Vault.u64Max := by decide
    unfold Vault.saturatingAdd at hslots
    omega
  refine h.addItems hlimits ?_ ?_ (fun r hr => ?_) (fun r hr a ha => ?_)
  · rw [List.length_singleton]
    omega
  · rw [List.length_singleton]
    omega
  · rw [List.mem_singleton.1 hr]
    rfl
  · rw [List.mem_singleton.1 hr]
    refine same_eq_false_iff.2 ⟨fun hid => hfresh a ha hid.symm, fun hobject => ?_⟩
    exact findObject_eq_none.1 hnone a (List.mem_append_right _ ha) hobject.symm

end Items

/-! ## Jobs -/

section Jobs

variable {F : Formats} {db db' : Database} {target : QueueTarget}

theorem bad_eq_false_iff {j : JobRow} : j.bad = false ↔
    textLength j.manifestJson ≤ 262144 ∧ j.leaseToken.isNone = j.leaseExpiresMs.isNone ∧
      (j.state = .pending → j.phase ≠ .done ∧ j.completedAtMs = none ∧ j.completionJson = none) ∧
      (j.state = .complete → j.phase = .done ∧ j.completedAtMs.isSome ∧ j.completionJson.isSome ∧
        j.manifestReceiptJson.isSome ∧ j.leaseToken = none) ∧
      (j.phase = .complete → j.manifestReceiptJson.isSome) := by
  simp only [JobRow.bad, Bool.or_eq_false_iff, decide_eq_false_iff_not, gt_iff_lt, not_lt,
    bne_eq_false_iff_eq, Bool.and_eq_false_imp, beq_iff_eq, beq_eq_false_iff_ne,
    Option.isSome_eq_false_iff, Option.isNone_eq_false_iff, Option.isNone_iff_eq_none, and_assoc,
    ne_eq]

/-- The rows of jobs are changed, each to a good one. -/
theorem Valid.updateJob (h : Valid F db) {keep : JobRow → Bool} {g : JobRow → JobRow}
    (hkeeps : Keeps db (db.updateJob keep g))
    (hg : ∀ j ∈ db.jobs, keep j → (g j).bad = false ∧ (g j).bundleId = j.bundleId) :
    Valid F (db.updateJob keep g) := by
  refine ⟨h.target, h.limits, h.active, h.total, h.items, h.disjoint, h.archived, ?_,
    fun j hj => ?_, h.refCount, fun r hr => badRef_kept hkeeps (h.named r hr), fun j hj => ?_⟩
  · rw [Database.updateJob, List.length_map]
    exact h.jobCount
  · obtain ⟨j₀, hj₀, rfl⟩ := List.mem_map.1 hj
    split
    · next hk => exact (hg j₀ hj₀ hk).1
    · exact h.jobs j₀ hj₀
  · obtain ⟨j₀, hj₀, rfl⟩ := List.mem_map.1 hj
    have hcount := h.counted j₀ hj₀
    split
    · next hk =>
      rw [Database.badCount, (hg j₀ hj₀ hk).2]
      exact hcount
    · exact hcount

theorem Valid.jobLeased (h : Valid F db) (hsound : Sound F db) {token : RandomId}
    {timeoutSecs now : Nat} {row : JobRow} (hleased : JobLeased F target token timeoutSecs now row db db')
    (hkeeps : Keeps db db') : Valid F db' := by
  obtain ⟨hrow, hdue, job, -, -, rfl⟩ := hleased
  simp only [Database.dueJob, Bool.and_eq_true, beq_iff_eq] at hdue
  refine h.updateJob hkeeps fun j hj hid => ⟨?_, rfl⟩
  have hsame : j = row := List.inj_on_of_nodup_map hsound.jobIds hj hrow (by simpa using hid)
  obtain ⟨hlength, -, hpending, -, hphase⟩ := bad_eq_false_iff.1 (h.jobs j hj)
  have hstate : j.state = .pending := hsame ▸ hdue.1.1.1
  refine bad_eq_false_iff.2 ⟨hlength, by simp [JobRow.leased], hpending, fun hcomplete => ?_, hphase⟩
  have hcomplete : j.state = .complete := hcomplete
  rw [hstate] at hcomplete
  cases hcomplete

theorem Valid.jobFinished (h : Valid F db) {lease : JobLease} {result : Except String BundleRecord}
    {now : Nat} (hfinished : JobFinished F target lease result now db db')
    (hkeeps : Keeps db db') : Valid F db' := by
  obtain ⟨-, hresult⟩ := hfinished
  -- A leased job is pending: a complete one has no lease.
  have hpending : ∀ j ∈ db.jobs, j.held lease.job.bundleId lease.token → j.state ≠ .complete := by
    intro j hj hheld hcomplete
    simp only [JobRow.held, Bool.and_eq_true, beq_iff_eq] at hheld
    have hnone := ((bad_eq_false_iff.1 (h.jobs j hj)).2.2.2.1 hcomplete).2.2.2.2
    rw [hheld.2] at hnone
    cases hnone
  cases result with
  | ok record =>
    obtain ⟨-, -, -, -, rfl⟩ := hresult
    refine h.updateJob hkeeps fun j hj hheld => ⟨?_, rfl⟩
    obtain ⟨hlength, -⟩ := bad_eq_false_iff.1 (h.jobs j hj)
    rw [bad_eq_false_iff]
    rcases hcompletion : record.completion with _ | completion
    · simp [JobRow.advanced, hcompletion, hlength]
    · simp [JobRow.advanced, hcompletion, hlength]
  | error code =>
    obtain rfl := hresult
    refine h.updateJob hkeeps fun j hj hheld => ⟨?_, rfl⟩
    obtain ⟨hlength, -, hpend, -, hphase⟩ := bad_eq_false_iff.1 (h.jobs j hj)
    exact bad_eq_false_iff.2 ⟨hlength, rfl, hpend, fun hc => (hpending j hj hheld hc).elim, hphase⟩

end Jobs

/-! ## Registrations -/

section Registrations

variable {F : Formats} {db db' : Database} {target : QueueTarget}

theorem textLength_le (text : Bytes) : textLength text ≤ text.length := List.countP_le_length

/-- A list whose groups are small is short. -/
theorem length_le_of_groups {α β : Type} [DecidableEq β] (f : α → β) {n : Nat} {keys : List β}
    {l : List α} (hkeys : ∀ a ∈ l, f a ∈ keys) (hgroups : ∀ k ∈ keys, l.countP (f · == k) ≤ n) :
    l.length ≤ keys.length * n := by
  induction keys generalizing l with
  | nil =>
    have : l = [] := List.eq_nil_iff_forall_not_mem.2 fun a ha => by cases hkeys a ha
    simp [this]
  | cons k rest ih =>
    -- the group of `k` is taken out, and the rest has smaller groups
    have hrest := @ih (l.filter (fun a => !(f a == k))) (fun a ha => ?_) fun k' hk' => ?_
    · have hk := hgroups k List.mem_cons_self
      have hsplit := List.length_eq_countP_add_countP (f · == k) (l := l)
      rw [List.countP_eq_length_filter (p := fun a => decide ¬(f a == k) = true)] at hsplit
      have hsame : l.filter (fun a => decide ¬(f a == k) = true) = l.filter (fun a => !(f a == k)) :=
        List.filter_congr fun a _ => by by_cases ha : f a = k <;> simp [ha]
      rw [hsame] at hsplit
      rw [List.length_cons, Nat.succ_mul]
      omega
    · obtain ⟨ha, hne⟩ := List.mem_filter.1 ha
      refine (List.mem_cons.1 (hkeys a ha)).resolve_left fun heq => ?_
      simp [heq] at hne
    · exact List.filter_sublist.countP_le.trans (hgroups k' (List.mem_cons_of_mem _ hk'))

/-- What `validate` bounds of a manifest. -/
theorem validate_bounds {manifest : BundleManifest}
    (h : Vault.validate F.toPrimitives manifest = .ok ()) :
    manifest.chunks ≠ [] ∧ manifest.chunks.length ≤ 64 ∧
      (F.manifest.encode manifest).length ≤ Vault.maxManifestBytes := by
  simp only [Vault.validate, Vault.Result.check_ok_iff, refuse_ok_iff, Bool.or_eq_false_iff,
    decide_eq_false_iff_not, not_lt, gt_iff_lt, List.isEmpty_eq_false_iff] at h
  exact ⟨h.1.1.1.2, h.1.1.2, h.1.2⟩

/-- The identifier of a new item was drawn. -/
theorem admissionLoop_drawn {draw : String → Option RandomId} {chunks : List (String × Nat)}
    {found found' : Nat × Nat × List BundleChunkRef}
    (h : admissionLoop F db target draw chunks found = .ok found')
    (hfound : ∀ r ∈ found.2.2, db.lacks r → ∃ id, draw r.sha256 = some id ∧ id.val = r.itemId) :
    ∀ r ∈ found'.2.2, db.lacks r → ∃ id, draw r.sha256 = some id ∧ id.val = r.itemId := by
  induction chunks generalizing found with
  | nil =>
    cases h
    exact hfound
  | cons c rest ih =>
    obtain ⟨hash, size⟩ := c
    obtain ⟨added, extra, refs⟩ := found
    rw [admissionLoop] at h
    rcases hlookup : db.lookup hash with _ | row
    · simp only [hlookup] at h
      rcases hadd : Vault.checkedAdd extra size with _ | total
      · simp [hadd] at h
      simp only [hadd] at h
      rcases hdraw : draw hash with _ | id
      · simp [hdraw] at h
      simp only [hdraw] at h
      refine ih h fun r hr hlacks => ?_
      rcases List.mem_append.1 hr with hr | hr
      · exact hfound r hr hlacks
      · rw [List.mem_singleton.1 hr]
        exact ⟨id, hdraw, rfl⟩
    · simp only [hlookup] at h
      obtain ⟨item, -, h⟩ := Vault.Result.bind_ok_iff.1 h
      obtain ⟨-, h⟩ := Vault.Result.check_ok_iff.1 h
      have hnext : admissionLoop F db target draw rest
          (added, extra, refs ++ [⟨item.id, hash, size⟩]) = .ok found' := by
        split at h
        · exact (Vault.Result.check_ok_iff.1 h).2
        · exact h
      refine ih hnext fun r hr hlacks => ?_
      rcases List.mem_append.1 hr with hr | hr
      · exact hfound r hr hlacks
      · rw [List.mem_singleton.1 hr, Database.lacks, hlookup] at hlacks
        cases hlacks

theorem admission_drawn {draw : String → Option RandomId} {chunks : List (String × Nat)}
    {limits : QueueLimits} {refs : List BundleChunkRef}
    (h : admission F db chunks limits target draw = .ok refs) :
    ∀ r ∈ refs, db.lacks r → ∃ id, draw r.sha256 = some id ∧ id.val = r.itemId := by
  obtain ⟨-, h⟩ := Vault.Result.check_ok_iff.1 h
  obtain ⟨⟨added, extra, found⟩, hloop, h⟩ := Vault.Result.bind_ok_iff.1 h
  obtain ⟨-, h⟩ := Vault.Result.check_ok_iff.1 h
  cases h
  exact admissionLoop_drawn hloop fun r hr => by cases hr

/-- A bundle has at most 64 chunks. -/
theorem admission_few {b : Bundle} {draw : String → Option RandomId} {refs : List BundleChunkRef}
    (hlimits : b.limits.validate = .ok ()) (hchunks : uniqueChunks F b.manifest = .ok b.chunks)
    (hrefs : admission F db b.chunks b.limits target draw = .ok refs) : refs.length ≤ 64 := by
  obtain ⟨hmap, -⟩ := admission_ok hlimits hrefs
  obtain ⟨hordered, -, hfrom⟩ := uniqueChunks_spec hchunks
  obtain ⟨-, hfew, -⟩ := validate_bounds (Vault.Result.check_ok_iff.1 hchunks).1
  have hsubset : b.chunks ⊆ b.manifest.chunks.map (fun c => (c.sha256, c.sizeBytes)) := by
    intro p hp
    obtain ⟨c, hc, rfl⟩ := hfrom p hp
    exact List.mem_map.2 ⟨c, hc, rfl⟩
  calc refs.length = b.chunks.length := by rw [← hmap, List.length_map]
    _ ≤ (b.manifest.chunks.map (fun c => (c.sha256, c.sizeBytes))).length :=
      (List.subperm_of_subset (.of_map _ hordered.keys_nodup) hsubset).length_le
    _ ≤ 64 := by rw [List.length_map]; exact hfew

theorem countP_mk_self (refs : List BundleChunkRef) (id : String) :
    (refs.map (fun r => (⟨r, id⟩ : RefRow))).countP (·.bundleId == id) = refs.length := by
  rw [List.countP_map, List.countP_eq_length.2 fun r _ => by simp]

theorem countP_mk_ne {id id' : String} (hne : id ≠ id') (refs : List BundleChunkRef) :
    (refs.map (fun r => (⟨r, id⟩ : RefRow))).countP (·.bundleId == id') = 0 := by
  rw [List.countP_map, List.countP_eq_zero.2 fun r _ => by simp [hne]]

/-- A job is added, with its references. -/
theorem Valid.addJob (h : Valid F db) {job : JobRow} {refs : List BundleChunkRef}
    (hnew : db.hasJob job.bundleId = false) (hjobs : db.jobs.length < maxBundleJobs)
    (hbad : job.bad = false) (hnonempty : refs ≠ []) (hfew : refs.length ≤ 64)
    (hnames : ∀ r ∈ refs, ∃ q ∈ db.items ++ db.archive,
      RefRow.names ⟨r, job.bundleId⟩ q.toItemColumns) :
    Valid F { db with
      jobs := db.jobs ++ [job]
      refs := db.refs ++ refs.map (fun r => ⟨r, job.bundleId⟩) } := by
  have hold : ∀ j ∈ db.jobs, j.bundleId ≠ job.bundleId := by
    simpa [Database.hasJob, List.any_eq_false] using hnew
  have hnone : db.refs.countP (·.bundleId == job.bundleId) = 0 := by
    refine List.countP_eq_zero.2 fun r hr hid => ?_
    have hjob := h.hasJob hr
    rw [eq_of_beq hid, hnew] at hjob
    cases hjob
  have hcount : ∀ j ∈ db.jobs ++ [job],
      1 ≤ (db.refs ++ refs.map (fun r => (⟨r, job.bundleId⟩ : RefRow))).countP
        (·.bundleId == j.bundleId) ∧
      (db.refs ++ refs.map (fun r => (⟨r, job.bundleId⟩ : RefRow))).countP
        (·.bundleId == j.bundleId) ≤ 64 := by
    intro j hj
    rw [List.countP_append]
    rcases List.mem_append.1 hj with hj | hj
    · rw [countP_mk_ne (hold j hj).symm, Nat.add_zero]
      simpa [Database.badCount] using h.counted j hj
    · rw [List.mem_singleton.1 hj, hnone, countP_mk_self, Nat.zero_add]
      exact ⟨List.length_pos_iff.2 hnonempty, hfew⟩
  refine ⟨h.target, h.limits, h.active, h.total, h.items, h.disjoint, h.archived, ?_,
    fun j hj => ?_, ?_, fun r hr => ?_, fun j hj => ?_⟩
  · rw [List.length_append, List.length_singleton]
    exact hjobs
  · rcases List.mem_append.1 hj with hj | hj
    · exact h.jobs j hj
    · rw [List.mem_singleton.1 hj]
      exact hbad
  · -- every reference is one of a job's, and a job has at most 64
    have hlength : (db.refs ++ refs.map (fun r => (⟨r, job.bundleId⟩ : RefRow))).length ≤
        ((db.jobs ++ [job]).map (·.bundleId)).length * 64 := by
      refine length_le_of_groups (·.bundleId) (fun r hr => ?_) fun id hid => ?_
      · rcases List.mem_append.1 hr with hr | hr
        · obtain ⟨j, hj, hid⟩ := List.any_eq_true.1 (h.hasJob hr)
          exact List.mem_map.2 ⟨j, List.mem_append_left _ hj, eq_of_beq hid⟩
        · obtain ⟨ref, -, rfl⟩ := List.mem_map.1 hr
          exact List.mem_map.2 ⟨job, List.mem_append_right _ (List.mem_singleton.2 rfl), rfl⟩
      · obtain ⟨j, hj, rfl⟩ := List.mem_map.1 hid
        exact (hcount j hj).2
    have hjobs : (db.jobs ++ [job]).length = db.jobs.length + 1 := List.length_append
    rw [List.length_map, hjobs] at hlength
    dsimp only
    omega
  · rcases List.mem_append.1 hr with hr | hr
    · obtain ⟨hjob, hitem⟩ := badRef_eq_false_iff.1 (h.named r hr)
      refine badRef_eq_false_iff.2 ⟨?_, hitem⟩
      obtain ⟨j, hj, hid⟩ := List.any_eq_true.1 hjob
      exact List.any_eq_true.2 ⟨j, List.mem_append_left _ hj, hid⟩
    · obtain ⟨ref, href, rfl⟩ := List.mem_map.1 hr
      refine badRef_eq_false_iff.2 ⟨?_, hnames ref href⟩
      exact List.any_eq_true.2 ⟨job, List.mem_append_right _ (List.mem_singleton.2 rfl),
        beq_self_eq_true _⟩
  · simp only [Database.badCount, Bool.not_eq_false', Bool.and_eq_true, decide_eq_true_eq]
    exact hcount j hj

/-- A bundle is registered. -/
theorem Valid.registered (h : Valid F db) {b : Bundle} {r : BundleReadings}
    (hfresh : ∀ a ∈ db.archive, ∀ hash id, r.draw hash = some id → a.id ≠ id.val)
    (hregistered : BundleRegistered F target b r db db') : Valid F db' := by
  obtain ⟨hlimits, hnew, hchunks, refs, linked, job, hrefs, hlinked, hins, -⟩ := hregistered
  obtain ⟨hmap, hadmits, hjobs, hitems, -, hslots⟩ := admission_ok hlimits hrefs
  obtain ⟨hordered, hin, -⟩ := uniqueChunks_spec hchunks
  obtain ⟨hnonempty, -, hlength⟩ := validate_bounds (Vault.Result.check_ok_iff.1 hchunks).1
  have hhashes : refs.map (·.sha256) = b.chunks.map (·.1) := by
    rw [← hmap, List.map_map]
    rfl
  have hnodup : (refs.map (·.sha256)).Nodup := hhashes ▸ hordered.keys_nodup
  have hrows := linkRows_ok hnodup hlinked
  have hnames := names_of_admission h hnew hadmits hrows hins
  obtain ⟨-, -, hdb'⟩ := insertJob_ok_iff.1 hins
  obtain ⟨-, hmax, -, -⟩ := limits_ok hlimits
  have hlinkedValid : Valid F { db with
      queueMeta := { db.queueMeta with limits := b.limits }
      items := db.items ++ (refs.filter db.lacks).map
        (fun ref => newRow ref.itemId "backup" ref.sha256 ref.sizeBytes (min r.now i64Max)) } := by
    refine h.addItems hlimits ?_ ?_ (fun q hq => ?_) fun q hq a ha => ?_
    · rw [List.length_map]
      omega
    · rw [List.length_map]
      omega
    · obtain ⟨ref, -, rfl⟩ := List.mem_map.1 hq
      rfl
    · obtain ⟨ref, href, rfl⟩ := List.mem_map.1 hq
      obtain ⟨href, hlacks⟩ := List.mem_filter.1 href
      obtain ⟨id, hdraw, hid⟩ := admission_drawn hrefs ref href hlacks
      have hnone : db.lookup ref.sha256 = none := Option.isNone_iff_eq_none.1 hlacks
      refine same_eq_false_iff.2 ⟨fun hsame => ?_, fun hobject => ?_⟩
      · exact hfresh a ha _ id hdraw (hsame.symm.trans hid.symm)
      · exact lookup_eq_none.1 hnone a (List.mem_append_right _ ha) hobject.symm
  rw [hdb', hrows] at hnames ⊢
  refine hlinkedValid.addJob hnew hjobs ?_ ?_ ?_ fun ref href => ?_
  · refine bad_eq_false_iff.2 ⟨(textLength_le _).trans hlength, rfl, ?_, ?_, ?_⟩ <;> simp [newJob]
  · intro hnil
    obtain ⟨c, hc⟩ := List.exists_mem_of_ne_nil _ hnonempty
    have hchunk := hin c hc
    rw [← hmap, hnil] at hchunk
    cases hchunk
  · exact admission_few hlimits hchunks hrefs
  · exact hnames _ (List.mem_append_right _ (List.mem_map.2 ⟨ref, href, rfl⟩)) rfl

end Registrations

/-! ## Jobs that can be read -/

section Reading

variable {F : Formats} {db db' : Database} {target : QueueTarget}

variable (F) in
/-- The job of a row can be read, and carries its proofs. -/
def JobReads (target : QueueTarget) (refs : List BundleChunkRef) (row : JobRow) : Prop :=
  ∃ job, decodeJob F row = .ok job ∧ proof F { job with chunkItems := refs } target = .ok ()

variable (F) in
/-- Every job of the tables can be read. -/
def Readable (db : Database) : Prop :=
  ∀ j ∈ db.jobs, ∃ target, db.target? F = some target ∧ JobReads F target (db.refsOf j.bundleId) j

/-- A job that can be read is loaded. -/
theorem Readable.load (h : Readable F db) (hsound : Sound F db) {j : JobRow} (hj : j ∈ db.jobs) :
    ∃ job, load F db j.bundleId = .ok job := by
  obtain ⟨target, htarget, job, hdecode, hproof⟩ := h j hj
  have hfind : db.jobs.find? (·.bundleId = j.bundleId) = some j := by
    rcases hfound : db.jobs.find? (·.bundleId = j.bundleId) with _ | j'
    · have := List.find?_eq_none.1 hfound j hj
      simp at this
    · have hj' := List.mem_of_find?_eq_some hfound
      have hid : j'.bundleId = j.bundleId := by simpa using List.find?_some hfound
      rw [hfound, List.inj_on_of_nodup_map hsound.jobIds hj' hj hid]
  rw [Database.target?] at htarget
  refine ⟨{ job with chunkItems := db.refsOf j.bundleId }, ?_⟩
  simp only [Queue.load, hfind, hdecode, QueueMeta.read, htarget, Vault.Result.bind_ok_iff,
    Except.ok.injEq, exists_eq_left']
  exact ⟨(), hproof, trivial⟩

theorem readable_of_load {id : String} {job : BundleJob} {j : JobRow} (hsound : Sound F db)
    (h : Queue.load F db id = .ok job) (hj : j ∈ db.jobs) (hid : j.bundleId = id) :
    ∃ target, db.target? F = some target ∧ JobReads F target (db.refsOf id) j := by
  obtain ⟨row, target, hfind, htarget, hdecode, hrefs, hproof⟩ := load_ok h
  have hrow := List.mem_of_find?_eq_some hfind
  have hrowid : row.bundleId = id := by simpa using List.find?_some hfind
  have hsame : row = j := List.inj_on_of_nodup_map hsound.jobIds hrow hj (hrowid.trans hid.symm)
  refine ⟨target, htarget, _, hsame ▸ hdecode, ?_⟩
  rw [← hrefs]
  exact hproof

/-- The lease of a job is changed. -/
theorem JobReads.lease {refs : List BundleChunkRef} {j j' : JobRow} (h : JobReads F target refs j)
    (hsame : j'.bundleId = j.bundleId ∧ j'.manifestJson = j.manifestJson ∧
      j'.manifestSha256 = j.manifestSha256 ∧ j'.state = j.state ∧ j'.phase = j.phase ∧
      j'.manifestReceiptJson = j.manifestReceiptJson ∧ j'.completionJson = j.completionJson) :
    JobReads F target refs j' := by
  obtain ⟨hid, hjson, hhash, hstate, hphase, hreceipt, hcompletion⟩ := hsame
  obtain ⟨job, hdecode, hproof⟩ := h
  rw [decodeJob] at hdecode
  rcases hmanifest : F.manifest.decode j.manifestJson with _ | manifest
  · simp [hmanifest, Vault.Result.bind_ok_iff] at hdecode
  simp only [hmanifest, Vault.Result.bind_ok_iff, Except.ok.injEq, exists_eq_left'] at hdecode
  obtain ⟨receipt, hreceipt', completion, hcompletion', rfl⟩ := hdecode
  refine ⟨⟨j'.bundleId, j'.manifestSha256, manifest, [], j'.state, j'.phase, j'.createdAtMs,
    j'.attempts, j'.nextRetryMs, j'.lastError, j'.leaseExpiresMs, j'.completedAtMs, receipt,
    completion⟩, ?_, ?_⟩
  · simp only [decodeJob, hjson, hmanifest, hreceipt, hcompletion, hreceipt', hcompletion',
      Vault.Result.bind_ok_iff, Except.ok.injEq, exists_eq_left']
  · simp only [proof, BundleJob.record, hid, hhash, hstate, hphase] at hproof ⊢
    exact hproof

variable (F) in
/-- What `proof` checks of the manifest and the references. -/
def Manifested (job : BundleJob) : Prop :=
  Vault.validate F.toPrimitives job.manifest = .ok () ∧
    (job.bundleId != job.manifest.bundleId ||
      job.manifestSha256 != F.sha256 (F.manifest.encode job.manifest)) = false ∧
    ∃ expected, uniqueChunks F job.manifest = .ok expected ∧
      (expected != refMap job.chunkItems ||
        (refMap job.chunkItems).length != job.chunkItems.length ||
        job.chunkItems.any (fun r => !idOk r.itemId)) = false

/-- `proof`: the manifest and the references, then the receipts, then the state. -/
theorem proof_ok_iff {job : BundleJob} : proof F job target = .ok () ↔ Manifested F job ∧
    (match job.manifestReceipt with
      | some receipt => Vault.verifyRecord F.toPrimitives (job.record target receipt)
          target.pinnedPubkey target.keyId = .ok ()
      | none => (job.completion.isSome || job.phase != .register) = false) ∧
    ((job.state == .complete) != job.completion.isSome) = false := by
  rw [proof, Manifested]
  rcases job.manifestReceipt with _ | receipt <;>
    simp only [Vault.Result.bind_ok_iff, refuse_ok_iff, Vault.exists_unit_iff] <;> constructor
  · rintro ⟨hvalid, hid, expected, hexpected, hrefs, hnone, hstate⟩
    exact ⟨⟨hvalid, hid, expected, hexpected, hrefs⟩, hnone, hstate⟩
  · rintro ⟨⟨hvalid, hid, expected, hexpected, hrefs⟩, hnone, hstate⟩
    exact ⟨hvalid, hid, expected, hexpected, hrefs, hnone, hstate⟩
  · rintro ⟨hvalid, hid, expected, hexpected, hrefs, hverified, hstate⟩
    exact ⟨⟨hvalid, hid, expected, hexpected, hrefs⟩, hverified, hstate⟩
  · rintro ⟨⟨hvalid, hid, expected, hexpected, hrefs⟩, hverified, hstate⟩
    exact ⟨hvalid, hid, expected, hexpected, hrefs, hverified, hstate⟩

/-- A job that goes on carries the proofs of its step. -/
theorem JobReads.advanced (hF : F.ReadsBack) {refs : List BundleChunkRef} {j : JobRow}
    (h : JobReads F target refs j) {record : BundleRecord} {now : Nat}
    (hverified : Vault.verifyRecord F.toPrimitives record target.pinnedPubkey target.keyId = .ok ())
    (hmanifest : F.manifest.decode j.manifestJson = some record.manifest)
    (hagent : record.agentId = target.agentId) :
    JobReads F target refs (j.advanced F record now) := by
  obtain ⟨job, hdecode, hproof⟩ := h
  obtain ⟨hid, hjson, -, -, -, -⟩ := decodeJob_ok hdecode
  have hsame : job.manifest = record.manifest := Option.some.inj (hjson.symm.trans hmanifest)
  obtain ⟨⟨hvalid, hids, hchunks⟩, -, -⟩ := proof_ok_iff.1 hproof
  have hhash : job.manifestSha256 = j.manifestSha256 := by
    rw [decodeJob, hmanifest] at hdecode
    simp only [Vault.Result.bind_ok_iff, Except.ok.injEq, exists_eq_left'] at hdecode
    obtain ⟨_, -, _, -, rfl⟩ := hdecode
    rfl
  have hcompletion : decodeOptional F.signedCompletion
      (record.completion.map F.signedCompletion.encode) = .ok record.completion := by
    rcases record.completion with _ | completion
    · rfl
    · simp only [Option.map_some, decodeOptional, hF.signedCompletion completion]
  have hreceipt : decodeOptional F.signedReceipt
      (some (F.signedReceipt.encode record.manifestReceipt)) = .ok (some record.manifestReceipt) := by
    simp only [decodeOptional, hF.signedReceipt record.manifestReceipt]
  have hreads : decodeJob F (j.advanced F record now) = .ok
      ⟨j.bundleId, j.manifestSha256, record.manifest, [],
        if record.completion.isSome then .complete else .pending,
        if record.completion.isSome then .done else .complete, j.createdAtMs, j.attempts,
        if record.completion.isSome then 0 else now, none, none,
        if record.completion.isSome then some now else none, some record.manifestReceipt,
        record.completion⟩ := by
    simp only [decodeJob, JobRow.advanced, hmanifest, hreceipt, hcompletion,
      Vault.Result.bind_ok_iff, Except.ok.injEq, exists_eq_left']
  simp only [hsame, hid, hhash] at hvalid hids hchunks
  refine ⟨_, hreads, proof_ok_iff.2 ⟨⟨hvalid, hids, hchunks⟩, ?_, ?_⟩⟩
  · have hunreviewed := verifyRecord_unreviewed hverified
    rw [hagent] at hunreviewed
    exact hunreviewed
  · rcases record.completion with _ | completion
    · rfl
    · rfl

/-- The tables differ in the items and in their limits only. -/
theorem Readable.congr (h : Readable F db)
    (hsame : db'.jobs = db.jobs ∧ db'.refs = db.refs ∧
      db'.queueMeta.targetJson = db.queueMeta.targetJson) : Readable F db' := by
  obtain ⟨hjobs, hrefs, htarget⟩ := hsame
  intro j hj
  rw [hjobs] at hj
  rw [Database.target?, htarget, Database.refsOf, hrefs]
  exact h j hj

theorem Readable.updateJob (h : Readable F db) {keep : JobRow → Bool} {g : JobRow → JobRow}
    (hg : ∀ j ∈ db.jobs, keep j → (g j).bundleId = j.bundleId ∧ ∀ target,
      db.target? F = some target → JobReads F target (db.refsOf j.bundleId) j →
        JobReads F target (db.refsOf j.bundleId) (g j)) :
    Readable F (db.updateJob keep g) := by
  intro j hj
  obtain ⟨j₀, hj₀, rfl⟩ := List.mem_map.1 hj
  obtain ⟨target, htarget, hreads⟩ := h j₀ hj₀
  refine ⟨target, htarget, ?_⟩
  split
  · next hk =>
    obtain ⟨hid, hreads'⟩ := hg j₀ hj₀ hk
    rw [hid]
    exact hreads' target htarget hreads
  · exact hreads

theorem linkRows_same {now : Nat} {refs : List BundleChunkRef} (h : linkRows now refs db = .ok db') :
    db'.jobs = db.jobs ∧ db'.refs = db.refs ∧ db'.archive = db.archive ∧
      db'.queueMeta.targetJson = db.queueMeta.targetJson := by
  induction refs generalizing db with
  | nil =>
    cases h
    exact ⟨rfl, rfl, rfl, rfl⟩
  | cons item rest ih =>
    rw [linkRows] at h
    split at h
    · exact ih h
    · obtain ⟨-, h⟩ := Vault.Result.check_ok_iff.1 h
      obtain ⟨next, hins, h⟩ := Vault.Result.bind_ok_iff.1 h
      obtain ⟨hjobs, hrefs, harchive, htarget⟩ := ih h
      rw [(insertItem_ok_iff.1 hins).2] at hjobs hrefs harchive htarget
      exact ⟨hjobs, hrefs, harchive, htarget⟩

/-- The references of another bundle are those it had. -/
theorem refsOf_append {refs : List BundleChunkRef} {id id' : String} (hne : id' ≠ id)
    (hrefs : db'.refs = db.refs ++ refs.map (fun r => ⟨r, id'⟩)) : db'.refsOf id = db.refsOf id := by
  have hnone : (refs.map (fun r => (⟨r, id'⟩ : RefRow))).filter (·.bundleId = id) = [] := by
    rw [List.filter_eq_nil_iff]
    intro r hr
    obtain ⟨ref, -, rfl⟩ := List.mem_map.1 hr
    simpa using hne
  rw [Database.refsOf, Database.refsOf, hrefs, List.filter_append, hnone, List.append_nil]

end Reading

/-! ## Every transaction -/

section Every

variable {F : Formats} {sys : Sys} {db db' : Database} {target : QueueTarget}

/-- The identifiers that an event draws for new items. -/
def Event.draws : Event → Set String
  | .enqueue _ _ _ _ r => {id | ∃ drawn, r.id = some drawn ∧ drawn.val = id}
  | .proceed _ r => {id | ∃ hash drawn, r.draw hash = some drawn ∧ drawn.val = id}
  | _ => ∅

/-- A transaction keeps the tables acceptable, when it draws no identifier of an archived item. -/
theorem Sys.change_valid (hsound : Sound F db) (hvalid : Valid F db) (hkeeps : Keeps db db')
    {event : Event} (hfresh : ∀ a ∈ db.archive, a.id ∉ event.draws)
    (h : sys.change F event target db db') : Valid F db' := by
  cases event with
  | enqueue _ _ kind limits r =>
    obtain ⟨id, hid, henqueued⟩ := h
    exact hvalid.enqueued (fun a ha heq => hfresh a ha ⟨id, hid, heq.symm⟩) henqueued
  | claim _ timeoutSecs now clock token =>
    obtain ⟨row, token', -, hleased⟩ := h
    exact hvalid.leased hsound hleased
  | finish i _ result now clock =>
    obtain ⟨lease, -, hfinished⟩ := h
    exact hvalid.finished hsound hfinished hkeeps
  | claimJob _ timeoutSecs now clock token =>
    obtain ⟨row, token', -, hleased⟩ := h
    exact hvalid.jobLeased hsound hleased hkeeps
  | finishJob i _ result now clock =>
    obtain ⟨lease, -, hfinished⟩ := h
    exact hvalid.jobFinished hfinished hkeeps
  | proceed i r =>
    obtain ⟨stage, -, hregistered⟩ := h
    exact hvalid.registered (fun a ha hash id hdraw heq => hfresh a ha ⟨hash, id, hdraw, heq.symm⟩)
      hregistered
  | beginBundle _ _ => exact h.elim
  | abort _ _ => exact h.elim
  | reorder _ => exact h.elim

/-- A transaction keeps the jobs readable. -/
theorem Sys.change_readable (hF : F.ReadsBack) (hsound : Sound F db) (hsound' : Sound F db')
    (hknown : Known F sys.leases sys.jobLeases db) (hpinned : db.target? F = some target)
    (hreadable : Readable F db) {event : Event} (h : sys.change F event target db db') :
    Readable F db' := by
  cases event with
  | enqueue _ _ kind limits r =>
    obtain ⟨id, -, -, -, hash, size, -, -, hins⟩ := h
    obtain ⟨-, rfl⟩ := insertItem_ok_iff.1 hins
    exact hreadable.congr ⟨rfl, rfl, rfl⟩
  | claim _ timeoutSecs now clock token =>
    obtain ⟨row, token', -, -, -, rfl⟩ := h
    exact hreadable.congr ⟨rfl, rfl, rfl⟩
  | finish i _ result now clock =>
    obtain ⟨lease, -, -, hresult⟩ := h
    cases result with
    | ok receipt =>
      obtain ⟨-, rfl⟩ := archiveItem_ok_iff.1 hresult.2
      exact hreadable.congr ⟨rfl, rfl, rfl⟩
    | error code =>
      obtain rfl := hresult
      exact hreadable.congr ⟨rfl, rfl, rfl⟩
  | claimJob _ timeoutSecs now clock token =>
    obtain ⟨row, token', -, -, -, job, -, -, rfl⟩ := h
    exact hreadable.updateJob fun j _ _ =>
      ⟨rfl, fun _ _ hreads => hreads.lease ⟨rfl, rfl, rfl, rfl, rfl, rfl, rfl⟩⟩
  | finishJob i _ result now clock =>
    obtain ⟨lease, hlease, -, hresult⟩ := h
    cases result with
    | ok record =>
      obtain ⟨hverified, hmanifest, hagent, -, rfl⟩ := hresult
      refine hreadable.updateJob fun j hj hheld => ⟨rfl, fun target' htarget' hreads => ?_⟩
      obtain rfl : target = target' := Option.some.inj (hpinned.symm.trans htarget')
      simp only [JobRow.held, Bool.and_eq_true, beq_iff_eq] at hheld
      have hdecode := (hknown.jobs lease (List.mem_of_getElem? hlease)).row hsound hj hheld.1
      exact hreads.advanced hF hverified (hmanifest ▸ hdecode) hagent
    | error code =>
      obtain rfl := hresult
      exact hreadable.updateJob fun j _ _ =>
        ⟨rfl, fun _ _ hreads => hreads.lease ⟨rfl, rfl, rfl, rfl, rfl, rfl, rfl⟩⟩
  | proceed i r =>
    obtain ⟨stage, -, -, hnew, -, refs, linked, job, -, hlinked, hins, hload⟩ := h
    obtain ⟨-, -, hdb'⟩ := insertJob_ok_iff.1 hins
    obtain ⟨hjobs, hrefs, -, htarget⟩ := linkRows_same hlinked
    intro j hj
    have hj' := hj
    rw [hdb', hjobs] at hj'
    rcases List.mem_append.1 hj' with hj' | hj'
    · -- another job keeps its references
      have hid : j.bundleId ≠ stage.bundle.manifest.bundleId := by
        simp only [Database.hasJob, List.any_eq_false, beq_iff_eq] at hnew
        exact hnew j hj'
      obtain ⟨target', htarget', hreads⟩ := hreadable j hj'
      have hrefsOf : db'.refsOf j.bundleId = db.refsOf j.bundleId :=
        refsOf_append hid.symm (by rw [hdb', hrefs]; rfl)
      refine ⟨target', ?_, ?_⟩
      · rw [hdb', Database.target?, htarget]
        exact htarget'
      · rw [hrefsOf]
        exact hreads
    · rw [List.mem_singleton.1 hj'] at hj ⊢
      exact readable_of_load hsound' hload hj rfl
  | beginBundle _ _ => exact h.elim
  | abort _ _ => exact h.elim
  | reorder _ => exact h.elim

end Every

end Argos.Queue
