import Argos.Queue.Histories

/-!
# The transaction of each call

Every call of the queue commits at most one transaction. `Did` of `Calls.lean` says that it is one
of the eight changes of the tables; here it is told which one, with the identifiers, tokens and
times that the call was given. `Sys.Ok.moved` says it of every step of a run. What is proved about
whole runs of the tables rests on this lemma alone.
-/

namespace Argos.Queue

open Argos.Lib
open Argos.Vault (Bytes Result Error SignedReceipt BundleManifest BundleRecord refuse refuse_ok_iff
  validKind)

section Transactions

variable (F : Formats)

/-! ## What the calls commit -/

/-- The transaction of `enqueue`. -/
def Enqueued (kind : String) (limits : QueueLimits) (id : RandomId) (now : Nat)
    (db db' : Database) : Prop :=
  limits.validate = .ok () ∧ validKind kind ∧ ∃ hash size, db.findObject kind hash = none ∧
    checkRoom db limits size = .ok () ∧
    { db with queueMeta := { db.queueMeta with limits := limits } }.insertItem
      (newRow id.val kind hash size now) = .ok db'

/-- The transaction of `claim`. -/
def ItemLeased (token : RandomId) (timeoutSecs now : Nat) (row : ItemRow) (db db' : Database) : Prop :=
  row ∈ db.items ∧ row.due now ∧
    db' = db.updateItem row.id (ItemRow.leased token.val (leaseExpires now timeoutSecs)
      (nextAttempt row.attempts) (later now (retryDelay (nextAttempt row.attempts))))

/-- The transaction of `finish`. -/
def ItemFinished (target : QueueTarget) (lease : Lease) (result : Except String SignedReceipt)
    (now : Nat) (db db' : Database) : Prop :=
  db.items.any (·.owned lease.item.id lease.token now) ∧
    match result with
    | .ok receipt => verifiedItem F (lease.completed receipt now) target = .ok () ∧
        db.archiveItem lease.item.id lease.token now (F.signedReceipt.encode receipt) = .ok db'
    | .error code => db' = db.retryItem lease.item.id lease.token
        (later now (retryDelay lease.item.attempts)) code

/-- The transaction of `claim_job`. -/
def JobLeased (target : QueueTarget) (token : RandomId) (timeoutSecs now : Nat) (row : JobRow)
    (db db' : Database) : Prop :=
  row ∈ db.jobs ∧ db.dueJob now row ∧ ∃ job, load F db row.bundleId = .ok job ∧
    verifyArchived F db target job.chunkItems = .ok () ∧
    db' = db.updateJob (·.bundleId = row.bundleId) (JobRow.leased token.val
      (leaseExpires now timeoutSecs) (nextAttempt job.attempts)
      (later now (retryDelay (nextAttempt job.attempts))))

/-- The transaction of `finish_job`. -/
def JobFinished (target : QueueTarget) (lease : JobLease) (result : Except String BundleRecord)
    (now : Nat) (db db' : Database) : Prop :=
  db.jobs.any (·.owned lease.job.bundleId lease.token now) ∧
    match result with
    | .ok record => Vault.verifyRecord F.toPrimitives record target.pinnedPubkey target.keyId = .ok () ∧
        record.manifest = lease.job.manifest ∧ record.agentId = target.agentId ∧
        (lease.job.phase = .complete → record.completion.isSome) ∧
        db' = db.updateJob (·.held lease.job.bundleId lease.token) (JobRow.advanced F record now)
    | .error code => db' = db.updateJob (·.held lease.job.bundleId lease.token)
        (JobRow.retried (later now (retryDelay lease.job.attempts)) code)

/-- The transaction of `enqueue_bundle`. -/
def BundleRegistered (target : QueueTarget) (b : Bundle) (r : BundleReadings) (db db' : Database) :
    Prop :=
  b.limits.validate = .ok () ∧ db.hasJob b.manifest.bundleId = false ∧
    uniqueChunks F b.manifest = .ok b.chunks ∧
    ∃ refs linked job, admission F db b.chunks b.limits target r.draw = .ok refs ∧
      linkRows (min r.now i64Max) refs db = .ok linked ∧
      linked.insertJob (newJob F b.manifest (min r.now i64Max)) refs b.limits = .ok db' ∧
      load F db' b.manifest.bundleId = .ok job

/-- The queue that an event makes, when there is none. -/
def Event.makes : Event → QueueTarget → QueueLimits → Prop
  | .enqueue config _ _ limits _, target, limits' =>
      limits' = limits ∧ limits.validate = .ok () ∧ QueueTarget.fromConfig F config = .ok target
  | .beginBundle request _, target, limits =>
      ∃ b, request.check F = .ok b ∧ target = b.target ∧ limits = b.limits
  | _, _, _ => False

/-- The transaction of an event on a queue for `target`. -/
def Sys.change (sys : Sys) : Event → QueueTarget → Database → Database → Prop
  | .enqueue _ _ kind limits r, _, db, db' =>
      ∃ id, r.id = some id ∧ Enqueued kind limits id (min r.now i64Max) db db'
  | .claim _ timeoutSecs now clock token, _, db, db' =>
      ∃ row token', token = some token' ∧
        ItemLeased token' timeoutSecs (timeOf now clock) row db db'
  | .finish i _ result now clock, target, db, db' =>
      ∃ lease, sys.leases[i]? = some lease ∧
        ItemFinished F target lease result (timeOf now clock) db db'
  | .claimJob _ timeoutSecs now clock token, target, db, db' =>
      ∃ row token', token = some token' ∧
        JobLeased F target token' timeoutSecs (timeOf now clock) row db db'
  | .finishJob i _ result now clock, target, db, db' =>
      ∃ lease, sys.jobLeases[i]? = some lease ∧
        JobFinished F target lease result (timeOf now clock) db db'
  | .proceed i r, target, db, db' =>
      ∃ stage, sys.stages[i]? = some stage ∧ BundleRegistered F target stage.bundle r db db'
  | _, _, _, _ => False

/-! ## What a call leaves -/

/-- The tables that a call finds: those of the queue, or those of a new one. -/
def Begins (makes : QueueTarget → QueueLimits → Prop) (d : Disk) (db : Database) : Prop :=
  d.db? = some db ∨
    d.db? = none ∧ ∃ target limits, makes target limits ∧ db = .initial F target limits

/-- What a call leaves: the tables as they were, those that it found, or those after its one
transaction. -/
def Moved (makes : QueueTarget → QueueLimits → Prop)
    (change : QueueTarget → Database → Database → Prop) (d d' : Disk) : Prop :=
  d'.db? = d.db? ∨ ∃ db, Begins F makes d db ∧ (d'.db? = some db ∨
    ∃ target db', validateCurrent F db = .ok () ∧ db.target? F = some target ∧ change target db db' ∧
      d'.db? = some db')

/-- The queue that a call makes, when there is none. -/
def Makes (creating : Option (QueueTarget × QueueLimits)) (target : QueueTarget)
    (limits : QueueLimits) : Prop := creating = some (target, limits)

variable {F} {creating : Option (QueueTarget × QueueLimits)} {d d' d₁ d₂ : Disk}
  {db db' : Database} {target : QueueTarget} {makes makes' : QueueTarget → QueueLimits → Prop}
  {change change' : QueueTarget → Database → Database → Prop}

theorem Moved.mono (h : Moved F makes change d d')
    (hmakes : ∀ target limits, makes target limits → makes' target limits)
    (hchange : ∀ target db db', change target db db' → change' target db db') :
    Moved F makes' change' d d' := by
  rcases h with h | ⟨db, hbegins, h⟩
  · exact .inl h
  have hbegins' : Begins F makes' d db := by
    rcases hbegins with hdb | ⟨hnone, target, limits, hm, hdb⟩
    · exact .inl hdb
    · exact .inr ⟨hnone, target, limits, hmakes _ _ hm, hdb⟩
  rcases h with h | ⟨target, db', hvalid, hpinned, hc, hdb'⟩
  · exact .inr ⟨db, hbegins', .inl h⟩
  · exact .inr ⟨db, hbegins', .inr ⟨target, db', hvalid, hpinned, hchange _ _ _ hc, hdb'⟩⟩

theorem Opened.moved (h : Opened F creating d d') : Moved F (Makes creating) change d d' := by
  rcases h with h | h
  · exact .inl h.db?
  have hnone := Disk.fresh_db? h.fresh
  rcases h.stored with hs | hs | ⟨target, limits, hcreating, -, hs⟩
  · left
    rw [hnone, Disk.db?, hs]
  · left
    rw [hnone, Disk.db?, hs]
  · exact .inr ⟨_, .inr ⟨hnone, target, limits, hcreating, rfl⟩, .inl (Disk.db?_eq_some.2 hs)⟩

theorem Moved.filed (h : Moved F makes change d d₁) (hfiled : Filed d₁ d') :
    Moved F makes change d d' := by
  rw [Moved, hfiled.db?]
  exact h

/-- The tables that were opened are those that the call found. -/
theorem Ready.begins (h : Ready F creating d d₁ db) : Begins F (Makes creating) d db := by
  rcases h.opened with htidied | hfounded
  · exact .inl (htidied.db?.symm.trans h.db?)
  have hnone := Disk.fresh_db? hfounded.fresh
  have hstored := Disk.db?_eq_some.1 h.db?
  rcases hfounded.stored with hs | hs | ⟨target, limits, hcreating, -, hs⟩
  · rw [hs] at hstored
    cases hstored
  · rw [hs] at hstored
    cases hstored
  · rw [hs] at hstored
    cases hstored
    exact .inr ⟨hnone, target, limits, hcreating, rfl⟩

/-- Before the commit, only files were written; after it, the transaction was made. -/
theorem Ready.commit_moved (h : Ready F creating d d₁ db) (hpinned : db.target? F = some target)
    (hfiled : Filed d₁ d₂) (hchange : change target db db') :
    (Queue.commit db').Sat d₂
      (fun _ d₃ => d₃ = d₂.commit db' ∧
        ∀ d', Filed d₃ d' → Moved F (Makes creating) change d d')
      (fun d' => Moved F (Makes creating) change d d')
      (fun d' => Moved F (Makes creating) change d d') := by
  have hdone : ∀ d', Filed (d₂.commit db') d' → Moved F (Makes creating) change d d' :=
    fun d' hd' => .inr ⟨db, h.begins, .inr ⟨target, db', h.valid, hpinned, hchange, hd'.db?⟩⟩
  have hbefore : Moved F (Makes creating) change d d₂ := h.opened.moved.filed hfiled
  exact Prog.Sat.durable ⟨rfl, hdone⟩ (hdone _ (.refl _)) hbefore hbefore

/-! ## The calls -/

theorem load_bundleId {id : String} {job : BundleJob} (h : load F db id = .ok job) :
    job.bundleId = id := by
  obtain ⟨row, target, hrow, -, hdecode, -, -⟩ := load_ok h
  have hid : row.bundleId = id := by simpa using List.find?_some hrow
  exact (decodeJob_ok hdecode).1.trans hid

/-- The copy of a chunk has the size that the reference names. -/
theorem spooled_copies {b : Bundle} {spool : List (String × Bytes)} {refs : List BundleChunkRef}
    {draw : String → Option RandomId} (hlimits : b.limits.validate = .ok ())
    (hchunks : uniqueChunks F b.manifest = .ok b.chunks) (hspool : Spooled F b.manifest spool)
    (hrefs : admission F db b.chunks b.limits target draw = .ok refs) :
    ∀ item ∈ refs, ∀ bytes, spool.lookup item.sha256 = some bytes →
      F.sha256 bytes = item.sha256 ∧ bytes.length = item.sizeBytes := by
  intro item hitem bytes hlookup
  obtain ⟨hmap, -⟩ := admission_ok hlimits hrefs
  obtain ⟨hordered, hin, -⟩ := uniqueChunks_spec hchunks
  obtain ⟨hhash, hpair⟩ := hspool _ (mem_of_lookup_eq_some hlookup)
  obtain ⟨c, hc, hceq⟩ := List.mem_map.1 hpair
  have hcopied : (item.sha256, bytes.length) ∈ b.chunks := hceq ▸ hin c hc
  have hnamed : (item.sha256, item.sizeBytes) ∈ b.chunks :=
    hmap ▸ List.mem_map.2 ⟨item, hitem, rfl⟩
  exact ⟨hhash, Option.some.inj ((hordered.lookup hcopied).symm.trans (hordered.lookup hnamed))⟩

/-- `enqueue`. -/
theorem enqueue_moved (hd : Inv F d) (config : VaultConfig) (source : Option Bytes) (kind : String)
    (limits : QueueLimits) (r : EnqueueReadings) {makes : QueueTarget → QueueLimits → Prop}
    (hmakes : ∀ target, limits.validate = .ok () → QueueTarget.fromConfig F config = .ok target →
      makes target limits) {change : QueueTarget → Database → Database → Prop}
    (hchange : ∀ target id db db', r.id = some id →
      Enqueued kind limits id (min r.now i64Max) db db' → change target db db') :
    (enqueue F config source kind limits r).Sat d (fun _ d' => Moved F makes change d d')
      (fun d' => Moved F makes change d d') (fun d' => Moved F makes change d d') := by
  have hsame : Moved F makes change d d := .inl rfl
  unfold enqueue
  refine Prog.Sat.bind (Prog.Sat.ask (fun _ hlimits => ?_) hsame)
  refine Prog.Sat.bind (Prog.Sat.ask (fun _ hkind => ?_) hsame)
  have hkind : validKind kind := by simpa [refuse_ok_iff] using hkind
  refine Prog.Sat.bind (Prog.Sat.ask (fun target htarget => ?_) hsame)
  refine Prog.Sat.bind (Prog.Sat.ask (fun bytes _ => ?_) hsame)
  have hopen : ∀ {d'}, Moved F (Makes (some (target, limits))) change d d' →
      Moved F makes change d d' := fun h => h.mono (fun target' limits' hm => by
    cases hm
    exact hmakes target hlimits htarget) fun _ _ _ hc => hc
  refine Prog.Sat.bind ((openFor_sat hd).mono (fun db d₁ h => ?_) (fun _ h => hopen h.moved)
    (fun _ h => hopen h.moved))
  obtain ⟨hready, hpinned⟩ := h
  have hopened : ∀ d₂, Filed d₁ d₂ → Moved F makes change d d₂ :=
    fun d₂ h => hopen (hready.opened.moved.filed h)
  have hd₁ := hready.opened.inv hd
  rcases hfound : db.findObject kind (F.sha256 bytes) with _ | row
  · unfold enqueueNew
    refine Prog.Sat.bind (Prog.Sat.ask (fun _ hroom => ?_) (hopened _ (.refl _)))
    refine Prog.Sat.bind (Prog.Sat.ask (fun id hid => ?_) (hopened _ (.refl _)))
    have hid : r.id = some id := by
      rcases hr : r.id with _ | id'
      · rw [hr] at hid
        cases hid
      · rw [hr] at hid
        cases hid
        rfl
    refine Prog.Sat.bind ((writeNew_sat hd₁ (hd₁.objects db hready.db?) id.val bytes r).mono
      (fun _ d₂ h => ?_) hopened hopened)
    obtain ⟨hfiled, -⟩ := h
    refine Prog.Sat.bind (Prog.Sat.ask (fun db' hins => ?_) (hopened _ hfiled))
    refine Prog.Sat.bind (Prog.Sat.ask (fun item _ => ?_) (hopened _ hfiled))
    have hmoved := hready.commit_moved  hpinned hfiled
      (hchange target id db db' hid ⟨hlimits, hkind, _, _, hfound, hroom, hins⟩)
    exact Prog.Sat.bind (hmoved.mono (fun _ d₃ h => Prog.Sat.pure (hopen (h.2 _ (.refl _))))
      (fun _ h => hopen h) (fun _ h => hopen h))
  · have hsame := hopened _ (.refl _)
    refine Prog.Sat.bind (Prog.Sat.ask (fun item _ => ?_) hsame)
    refine Prog.Sat.bind (Prog.Sat.ask (fun _ _ => ?_) hsame)
    exact Prog.Sat.bind (touch_sat (Prog.Sat.pure hsame) hsame hsame)

/-- `claim`, and the lease that it gives out. -/
theorem claim_moved (hd : Inv F d) (target : QueueTarget) (timeoutSecs now clock : Nat)
    (token : Option RandomId) {change : QueueTarget → Database → Database → Prop}
    (hchange : ∀ target token' row db db', token = some token' →
      ItemLeased token' timeoutSecs (timeOf now clock) row db db' → change target db db') :
    (claim F target timeoutSecs now clock token).Sat d
      (fun lease d' => Moved F (Makes none) change d d' ∧ ∀ l, lease = some l →
        ∃ row token' db db', Begins F (Makes none) d db ∧ token = some token' ∧
          ItemLeased token' timeoutSecs (timeOf now clock) row db db' ∧ l.item.id = row.id ∧
          l.token = token'.val ∧ d'.db? = some db')
      (fun d' => Moved F (Makes none) change d d') (fun d' => Moved F (Makes none) change d d') := by
  unfold claim
  refine Prog.Sat.bind ((openFor_sat hd).mono (fun db d₁ h => ?_) (fun _ h => h.moved)
    (fun _ h => h.moved))
  obtain ⟨hready, hpinned⟩ := h
  have hopened : Moved F (Makes none) change d d₁ := hready.opened.moved
  dsimp only
  generalize hhead : ((db.items.filter (·.due (timeOf now clock))).mergeSort earlier).head? = head
  rcases head with _ | row
  · refine Prog.Sat.bind (touch_sat ?_ hopened hopened)
    exact Prog.Sat.pure ⟨hopened, fun l h => by cases h⟩
  have hmem : row ∈ db.items.filter (·.due (timeOf now clock)) :=
    List.mem_mergeSort.1 (List.mem_of_mem_head? hhead)
  obtain ⟨hrow, hdue⟩ := List.mem_filter.1 hmem
  refine Prog.Sat.bind (Prog.Sat.ask (fun item hitem => ?_) hopened)
  refine Prog.Sat.bind (Prog.Sat.ask (fun _ _ => ?_) hopened)
  refine Prog.Sat.bind (Prog.Sat.ask (fun token' htoken => ?_) hopened)
  have htoken : token = some token' := by
    rcases token with _ | t
    · cases htoken
    · cases htoken
      rfl
  obtain ⟨hid, -, -, -, -, hattempts⟩ := decode_ok hitem
  rw [hid, hattempts]
  have hleased : ItemLeased token' timeoutSecs (timeOf now clock) row db _ := ⟨hrow, hdue, rfl⟩
  refine Prog.Sat.bind ((hready.commit_moved hpinned (.refl _)
    (hchange target token' row db _ htoken hleased)).mono (fun _ d₃ h => ?_) (fun _ h => h)
    (fun _ h => h))
  obtain ⟨rfl, hdone⟩ := h
  refine Prog.Sat.pure ⟨hdone _ (.refl _), fun l hl => ?_⟩
  cases hl
  exact ⟨row, token', db, _, hready.begins, htoken, hleased, rfl, rfl, rfl⟩

/-- `finish`, and what it has done when it returns true. -/
theorem finish_moved (hd : Inv F d) (target : QueueTarget) (lease : Lease)
    (result : Except String SignedReceipt) (now clock : Nat)
    {change : QueueTarget → Database → Database → Prop}
    (hchange : ∀ target db db', ItemFinished F target lease result (timeOf now clock) db db' →
      change target db db') :
    (finish F target lease result now clock).Sat d
      (fun b d' => Moved F (Makes none) change d d' ∧ (b = true →
        ∃ target db db', Begins F (Makes none) d db ∧
          ItemFinished F target lease result (timeOf now clock) db db' ∧ d'.db? = some db'))
      (fun d' => Moved F (Makes none) change d d') (fun d' => Moved F (Makes none) change d d') := by
  unfold finish
  refine Prog.Sat.bind ((openFor_sat hd).mono (fun db d₁ h => ?_) (fun _ h => h.moved)
    (fun _ h => h.moved))
  obtain ⟨hready, hpinned⟩ := h
  have hopened : Moved F (Makes none) change d d₁ := hready.opened.moved
  have hd₁ := hready.opened.inv hd
  dsimp only
  refine Prog.Sat.ite (fun _ => ?_) fun howned => ?_
  · exact Prog.Sat.bind (touch_sat (Prog.Sat.pure ⟨hopened, fun h => by cases h⟩) hopened hopened)
  have howned : db.items.any (·.owned lease.item.id lease.token (timeOf now clock)) := by
    simpa using howned
  cases result with
  | ok receipt =>
    refine Prog.Sat.bind (Prog.Sat.ask (fun _ hverified => ?_) hopened)
    refine Prog.Sat.bind (Prog.Sat.ask (fun db' hmove => ?_) hopened)
    have hdone : ItemFinished F target lease (.ok receipt) (timeOf now clock) db db' :=
      ⟨howned, hverified, hmove⟩
    refine Prog.Sat.bind ((hready.commit_moved hpinned (.refl _)
      (hchange target db db' hdone)).mono (fun _ d₃ h => ?_) (fun _ h => h) (fun _ h => h))
    obtain ⟨rfl, hmoved⟩ := h
    have hremoved : ∀ d', d'.db? = some db' → Moved F (Makes none) change d d' := by
      intro d' hd'
      have hafter : Moved F (Makes none) change d (d₁.commit db') := hmoved _ (.refl _)
      rw [Moved, show (d₁.commit db').db? = some db' from rfl] at hafter
      rw [Moved, hd']
      exact hafter
    refine Prog.Sat.bind (Prog.Sat.ask (fun _ _ => ?_) (hremoved _ rfl))
    refine Prog.Sat.bind (Prog.Sat.durable ?_ (hremoved _ rfl) (hremoved _ rfl) (hremoved _ rfl))
    exact Prog.Sat.bind (touch_sat (Prog.Sat.pure ⟨hremoved _ rfl,
      fun _ => ⟨target, db, db', hready.begins, hdone, rfl⟩⟩) (hremoved _ rfl) (hremoved _ rfl))
  | error code =>
    have hdone : ItemFinished F target lease (.error code) (timeOf now clock) db _ := ⟨howned, rfl⟩
    refine Prog.Sat.bind ((hready.commit_moved hpinned (.refl _)
      (hchange target db _ hdone)).mono (fun _ d₃ h => ?_) (fun _ h => h) (fun _ h => h))
    obtain ⟨rfl, hmoved⟩ := h
    exact Prog.Sat.pure ⟨hmoved _ (.refl _), fun _ => ⟨target, db, _, hready.begins, hdone, rfl⟩⟩

/-- `claim_job`, and the lease that it gives out. -/
theorem claimJob_moved (hd : Inv F d) (target : QueueTarget) (timeoutSecs now clock : Nat)
    (token : Option RandomId) {change : QueueTarget → Database → Database → Prop}
    (hchange : ∀ target token' row db db', token = some token' →
      JobLeased F target token' timeoutSecs (timeOf now clock) row db db' → change target db db') :
    (claimJob F target timeoutSecs now clock token).Sat d
      (fun lease d' => Moved F (Makes none) change d d' ∧ ∀ l, lease = some l →
        ∃ row token' db db', Begins F (Makes none) d db ∧ token = some token' ∧
          JobLeased F target token' timeoutSecs (timeOf now clock) row db db' ∧
          l.job.bundleId = row.bundleId ∧ l.token = token'.val ∧ d'.db? = some db')
      (fun d' => Moved F (Makes none) change d d') (fun d' => Moved F (Makes none) change d d') := by
  unfold claimJob
  refine Prog.Sat.bind ((openFor_sat hd).mono (fun db d₁ h => ?_) (fun _ h => h.moved)
    (fun _ h => h.moved))
  obtain ⟨hready, hpinned⟩ := h
  have hopened : Moved F (Makes none) change d d₁ := hready.opened.moved
  dsimp only
  generalize hhead : ((db.jobs.filter (db.dueJob (timeOf now clock))).mergeSort earlierJob).head? = head
  rcases head with _ | row
  · refine Prog.Sat.bind (touch_sat ?_ hopened hopened)
    exact Prog.Sat.pure ⟨hopened, fun l h => by cases h⟩
  have hmem : row ∈ db.jobs.filter (db.dueJob (timeOf now clock)) :=
    List.mem_mergeSort.1 (List.mem_of_mem_head? hhead)
  obtain ⟨hrow, hdue⟩ := List.mem_filter.1 hmem
  refine Prog.Sat.bind (Prog.Sat.ask (fun job hload => ?_) hopened)
  refine Prog.Sat.bind (Prog.Sat.ask (fun _ hverified => ?_) hopened)
  refine Prog.Sat.bind (Prog.Sat.ask (fun token' htoken => ?_) hopened)
  have htoken : token = some token' := by
    rcases token with _ | t
    · cases htoken
    · cases htoken
      rfl
  have hleased : JobLeased F target token' timeoutSecs (timeOf now clock) row db _ :=
    ⟨hrow, hdue, job, hload, hverified, rfl⟩
  refine Prog.Sat.bind ((hready.commit_moved hpinned (.refl _)
    (hchange target token' row db _ htoken hleased)).mono (fun _ d₃ h => ?_) (fun _ h => h)
    (fun _ h => h))
  obtain ⟨rfl, hdone⟩ := h
  refine Prog.Sat.pure ⟨hdone _ (.refl _), fun l hl => ?_⟩
  cases hl
  have hid : job.bundleId = row.bundleId := load_bundleId hload
  exact ⟨row, token', db, _, hready.begins, htoken, hleased, hid, rfl, rfl⟩

/-- `finish_job`, and what it has done when it returns true. -/
theorem finishJob_moved (hd : Inv F d) (target : QueueTarget) (lease : JobLease)
    (result : Except String BundleRecord) (now clock : Nat)
    {change : QueueTarget → Database → Database → Prop}
    (hchange : ∀ target db db', JobFinished F target lease result (timeOf now clock) db db' →
      change target db db') :
    (finishJob F target lease result now clock).Sat d
      (fun b d' => Moved F (Makes none) change d d' ∧ (b = true →
        ∃ target db db', Begins F (Makes none) d db ∧
          JobFinished F target lease result (timeOf now clock) db db' ∧ d'.db? = some db'))
      (fun d' => Moved F (Makes none) change d d') (fun d' => Moved F (Makes none) change d d') := by
  unfold finishJob
  refine Prog.Sat.bind ((openFor_sat hd).mono (fun db d₁ h => ?_) (fun _ h => h.moved)
    (fun _ h => h.moved))
  obtain ⟨hready, hpinned⟩ := h
  have hopened : Moved F (Makes none) change d d₁ := hready.opened.moved
  dsimp only
  refine Prog.Sat.ite (fun _ => ?_) fun howned => ?_
  · exact Prog.Sat.bind (touch_sat (Prog.Sat.pure ⟨hopened, fun h => by cases h⟩) hopened hopened)
  have howned : db.jobs.any (·.owned lease.job.bundleId lease.token (timeOf now clock)) := by
    simpa using howned
  have hcommit : ∀ db', JobFinished F target lease result (timeOf now clock) db db' →
      (do commit db'; pure true : Op Bool).Sat d₁
        (fun b d' => Moved F (Makes none) change d d' ∧ (b = true →
          ∃ target db db', Begins F (Makes none) d db ∧
            JobFinished F target lease result (timeOf now clock) db db' ∧ d'.db? = some db'))
        (fun d' => Moved F (Makes none) change d d')
        (fun d' => Moved F (Makes none) change d d') := by
    intro db' hdone
    refine Prog.Sat.bind ((hready.commit_moved hpinned (.refl _)
      (hchange target db db' hdone)).mono (fun _ d₃ h => ?_) (fun _ h => h) (fun _ h => h))
    obtain ⟨rfl, hmoved⟩ := h
    exact Prog.Sat.pure ⟨hmoved _ (.refl _), fun _ => ⟨target, db, db', hready.begins, hdone, rfl⟩⟩
  cases result with
  | ok record =>
    refine Prog.Sat.bind (Prog.Sat.ask (fun _ hverified => ?_) hopened)
    refine Prog.Sat.bind (Prog.Sat.ask (fun _ hmatch => ?_) hopened)
    simp only [refuse_ok_iff, Bool.or_eq_false_iff, bne_eq_false_iff_eq, Bool.and_eq_false_iff,
      beq_eq_false_iff_ne] at hmatch
    obtain ⟨⟨hmanifest, hagent⟩, hphase⟩ := hmatch
    refine hcommit _ ⟨howned, hverified, hmanifest, hagent, fun h => ?_, rfl⟩
    have := hphase.resolve_left (fun hne => hne h)
    simpa [Option.isSome_iff_ne_none] using this
  | error code => exact hcommit _ ⟨howned, rfl⟩

/-- The first part of `enqueue_bundle`. -/
theorem beginBundle_moved (hd : Inv F d) (b : Bundle) (draw : String → Option RandomId)
    {change : QueueTarget → Database → Database → Prop} :
    (beginBundle F b draw).Sat d
      (fun _ d' => Moved F (Makes (some (b.target, b.limits))) change d d')
      (fun d' => Moved F (Makes (some (b.target, b.limits))) change d d')
      (fun d' => Moved F (Makes (some (b.target, b.limits))) change d d') :=
  (beginBundle_sat hd b draw).mono (fun _ _ h => h.moved) (fun _ h => h.moved) (fun _ h => h.moved)

/-- The last part of `enqueue_bundle`. -/
theorem Stage.finish_moved (hd : Inv F d) {stage : Stage} (hstage : stage.Ok F) (checked : Checked)
    (r : BundleReadings) {change : QueueTarget → Database → Database → Prop}
    (hchange : ∀ target db db', BundleRegistered F target stage.bundle r db db' →
      change target db db') :
    (stage.finish F checked r).Sat d (fun _ d' => Moved F (Makes none) change d d')
      (fun d' => Moved F (Makes none) change d d') (fun d' => Moved F (Makes none) change d d') := by
  rw [Stage.finish]
  rcases hspool : stage.spool with _ | spool
  · exact (confirmBundle_sat hd stage.bundle checked).mono (fun _ _ h => h.1.moved)
      (fun _ h => h.moved) (fun _ h => h.moved)
  dsimp only
  unfold commitBundle
  refine Prog.Sat.bind ((openFor_sat hd).mono (fun db d₁ h => ?_) (fun _ h => h.moved)
    (fun _ h => h.moved))
  obtain ⟨hready, hpinned⟩ := h
  have hd₁ := hready.opened.inv hd
  have hopened : ∀ d₂, Filed d₁ d₂ → Moved F (Makes none) change d d₂ :=
    fun d₂ h => hready.opened.moved.filed h
  have hsame := hopened _ (.refl _)
  refine Prog.Sat.ite (fun _ => ?_) fun hnew => ?_
  · refine Prog.Sat.bind (Prog.Sat.ask (fun old _ => ?_) hsame)
    refine Prog.Sat.bind (Prog.Sat.ask (fun _ _ => ?_) hsame)
    exact Prog.Sat.bind (touch_sat (Prog.Sat.pure hsame) hsame hsame)
  have hnew : db.hasJob stage.bundle.manifest.bundleId = false := by simpa using hnew
  refine Prog.Sat.bind (Prog.Sat.ask (fun refs hrefs => ?_) hsame)
  refine Prog.Sat.bind (Prog.Sat.ask (fun _ _ => ?_) hsame)
  refine Prog.Sat.bind ((linkChunks_sat
    (spooled_copies hstage.limits hstage.chunks (hstage.spool spool hspool) hrefs) hd₁
    (hd₁.objects db hready.db?) (hd₁.backed db hready.db?)).mono (fun linked d₂ h => ?_)
    hopened hopened)
  obtain ⟨hfiled, hlinked, -⟩ := h
  refine Prog.Sat.bind (touch_sat ?_ (hopened _ hfiled) (hopened _ hfiled))
  refine Prog.Sat.bind (touch_sat ?_ (hopened _ hfiled) (hopened _ hfiled))
  refine Prog.Sat.bind (Prog.Sat.ask (fun next hins => ?_) (hopened _ hfiled))
  refine Prog.Sat.bind (Prog.Sat.ask (fun job hload => ?_) (hopened _ hfiled))
  exact Prog.Sat.bind ((hready.commit_moved hpinned hfiled (hchange stage.bundle.target db next
    ⟨hstage.limits, hnew, hstage.chunks, refs, linked, job, hrefs, hlinked, hins, hload⟩)).mono
    (fun _ d₃ h => Prog.Sat.pure (h.2 _ (.refl _))) (fun _ h => h) (fun _ h => h))

/-! ## Steps of a run -/

theorem ends_of_sat {α : Type} {p : Op α} {Q : α → Disk → Prop} {R : Disk → Prop} {plan rest : Plan}
    {o : Outcome Error α} (h : p.Sat d Q R R) (hQ : ∀ a d', Q a d' → R d')
    (hrun : p plan d = (o, rest, d')) : R d' := by
  have hend := h.run hrun
  cases o with
  | ok a => exact hQ a d' hend
  | error e => exact hend
  | killed => exact hend

/-- A step of a run leaves the tables as they were, or after its one transaction. -/
theorem Sys.Ok.moved {sys : Sys} (h : sys.Ok F) (event : Event) (plan : Plan) :
    Moved F (event.makes F) (sys.change F event) sys.disk (sys.next F event plan).disk := by
  have hnone : ∀ {change : QueueTarget → Database → Database → Prop} {d' : Disk},
      Moved F (Makes none) change sys.disk d' → Moved F (event.makes F) change sys.disk d' :=
    fun h => h.mono (fun _ _ hm => by cases hm) fun _ _ _ hc => hc
  cases event with
  | enqueue config source kind limits readings =>
    rw [Sys.next]
    rcases hrun : enqueue F config source kind limits readings plan sys.disk with ⟨o, rest, d'⟩
    exact ends_of_sat (enqueue_moved h.disk config source kind limits readings
      (fun target hlimits htarget => ⟨rfl, hlimits, htarget⟩)
      fun target id db db' hid hdone => ⟨id, hid, hdone⟩) (fun _ _ h => h) hrun
  | claim target timeoutSecs now clock token =>
    rw [Sys.next]
    rcases hrun : claim F target timeoutSecs now clock token plan sys.disk with ⟨o, rest, d'⟩
    exact hnone (ends_of_sat (claim_moved h.disk target timeoutSecs now clock token
      fun _ token' row _ _ htoken hdone => ⟨row, token', htoken, hdone⟩) (fun _ _ h => h.1) hrun)
  | finish i target result now clock =>
    rw [Sys.next]
    rcases hlease : sys.leases[i]? with _ | lease
    · exact .inl rfl
    dsimp only
    rcases hrun : finish F target lease result now clock plan sys.disk with ⟨o, rest, d'⟩
    exact hnone (ends_of_sat (finish_moved h.disk target lease result now clock
      fun _ _ _ hdone => ⟨lease, hlease, hdone⟩) (fun _ _ h => h.1) hrun)
  | claimJob target timeoutSecs now clock token =>
    rw [Sys.next]
    rcases hrun : claimJob F target timeoutSecs now clock token plan sys.disk with ⟨o, rest, d'⟩
    exact hnone (ends_of_sat (claimJob_moved h.disk target timeoutSecs now clock token
      fun _ token' row _ _ htoken hdone => ⟨row, token', htoken, hdone⟩) (fun _ _ h => h.1) hrun)
  | finishJob i target result now clock =>
    rw [Sys.next]
    rcases hlease : sys.jobLeases[i]? with _ | lease
    · exact .inl rfl
    dsimp only
    rcases hrun : finishJob F target lease result now clock plan sys.disk with ⟨o, rest, d'⟩
    exact hnone (ends_of_sat (finishJob_moved h.disk target lease result now clock
      fun _ _ _ hdone => ⟨lease, hlease, hdone⟩) (fun _ _ h => h.1) hrun)
  | beginBundle request draw =>
    rw [Sys.next]
    rcases hcheck : request.check F with e | b
    · exact .inl rfl
    dsimp only
    rcases hrun : beginBundle F b draw plan sys.disk with ⟨o, rest, d'⟩
    have hmoved : Moved F ((Event.beginBundle request draw).makes F)
        (sys.change F (.beginBundle request draw)) sys.disk d' :=
      (ends_of_sat (beginBundle_moved h.disk b draw) (fun _ _ h => h) hrun).mono
        (fun target limits hm => by
          cases hm
          exact ⟨b, hcheck, rfl, rfl⟩) fun _ _ _ hc => hc
    cases o with
    | error e => exact hmoved
    | killed => exact hmoved
    | ok registered =>
      show Moved F _ _ sys.disk (sys.begun F request b registered d').disk
      have hdisk : (sys.begun F request b registered d').disk = d' := by
        rw [Sys.begun]
        split
        · rfl
        · split <;> rfl
      rw [hdisk]
      exact hmoved
  | proceed i readings =>
    rw [Sys.next]
    rcases hstage : sys.stages[i]? with _ | stage
    · exact .inl rfl
    dsimp only
    split
    · exact .inl rfl
    · exact .inl rfl
    · next checked _ =>
      rcases hrun : stage.finish F checked readings plan sys.disk with ⟨o, rest, d'⟩
      exact hnone (ends_of_sat (Stage.finish_moved h.disk
        (h.stages stage (List.mem_of_getElem? hstage)) checked readings
        fun _ _ _ hdone => ⟨stage, hstage, hdone⟩) (fun _ _ h => h) hrun)
  | abort i error =>
    rw [Sys.next]
    rcases sys.stages[i]? with _ | stage
    · exact .inl rfl
    · exact .inl rfl
  | reorder files =>
    rw [Sys.next]
    split
    · exact .inl rfl
    · exact .inl rfl

theorem Begins.sound (hd : Inv F d) (h : Begins F makes d db) : Sound F db := by
  rcases h with hdb | ⟨-, target, limits, -, rfl⟩
  · exact hd.sound db hdb
  · exact sound_initial target limits

/-- The transaction of an event is one of the changes that keep the tables sound. -/
theorem Sys.change_sound {sys : Sys} (hF : F.ReadsBack) (hsound : Sound F db)
    (hvalid : validateCurrent F db = .ok ()) (hknown : Known F sys.leases sys.jobLeases db)
    (hpinned : db.target? F = some target) {event : Event}
    (h : sys.change F event target db db') : Sound F db' ∧ Keeps db db' := by
  refine Change.sound hF hsound hvalid hknown hpinned ?_
  cases event with
  | enqueue _ _ kind limits r =>
    obtain ⟨id, -, hlimits, hkind, hash, size, hnone, hroom, hins⟩ := h
    exact .enqueued hlimits hkind id.property hnone hroom hins
  | claim _ timeoutSecs now clock token =>
    obtain ⟨row, token', -, hrow, hdue, rfl⟩ := h
    exact .leased hrow hdue token'.property
  | finish i _ result now clock =>
    obtain ⟨lease, hlease, howned, hresult⟩ := h
    have hlease := List.mem_of_getElem? hlease
    cases result with
    | ok receipt => exact .archived hlease howned hresult.1 hresult.2
    | error code =>
      obtain rfl := hresult
      exact .retried hlease howned
  | claimJob _ timeoutSecs now clock token =>
    obtain ⟨row, token', -, hrow, hdue, job, hload, hverified, rfl⟩ := h
    exact .jobLeased hrow hdue hload hverified token'.property
  | finishJob i _ result now clock =>
    obtain ⟨lease, hlease, howned, hresult⟩ := h
    have hlease := List.mem_of_getElem? hlease
    cases result with
    | ok record =>
      obtain ⟨hverified, hmanifest, hagent, hphase, rfl⟩ := hresult
      exact .advanced hlease howned hverified hmanifest hagent hphase
    | error code =>
      obtain rfl := hresult
      exact .jobRetried hlease howned
  | proceed i r =>
    obtain ⟨stage, -, hlimits, hnew, hchunks, refs, linked, job, hrefs, hlinked, hins, hload⟩ := h
    exact .registered hlimits hnew hchunks hrefs hlinked hins hload
  | beginBundle _ _ => exact h.elim
  | abort _ _ => exact h.elim
  | reorder _ => exact h.elim

end Transactions

end Argos.Queue
