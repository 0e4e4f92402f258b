import Argos.Queue.Changes

/-!
# What a call does to the directory

A call opens the queue, may add files that belong to no pending item, makes at most one transaction,
and may then remove a file that no longer belongs to one. `Did` says so of whatever a call leaves, at
whichever step it stops, and from it follow once for all calls that the invariant is kept and that
nothing is lost (`Did.inv`, `Did.kept`). Each call has its triple, which says that it does this and
what it returns.
-/

namespace Argos.Queue

open Argos.Lib
open Argos.Vault (Bytes Result Error SignedReceipt BundleManifest BundleRecord Chunk refuse validKind
  validate verifyRecord)
open Argos.Vault (refuse_ok_iff Result.bind_ok_iff Result.check_ok_iff exists_unit_iff)

/-! ## Files -/

/-- Files come and go, but not those of pending items. -/
structure Filed (d d' : Disk) : Prop where
  stored : d'.stored = d.stored
  objects : d'.objects.isSome = d.objects.isSome
  names : (d.files.map (·.1)).Nodup → (d'.files.map (·.1)).Nodup
  snapshots : ∀ db, d.db? = some db → ∀ r ∈ db.items,
    d'.file (.snapshot r.id) = d.file (.snapshot r.id)

section Files

variable {F : Formats} {d d' d'' : Disk}

theorem Filed.refl (d : Disk) : Filed d d := ⟨rfl, rfl, id, fun _ _ _ _ => rfl⟩

theorem Filed.db? (h : Filed d d') : d'.db? = d.db? := by
  rw [Disk.db?, Disk.db?, h.stored]

theorem Filed.trans (h : Filed d d') (h' : Filed d' d'') : Filed d d'' :=
  ⟨h'.stored.trans h.stored, h'.objects.trans h.objects, fun hd => h'.names (h.names hd),
    fun db hdb r hr =>
      (h'.snapshots db (h.db?.trans hdb) r hr).trans (h.snapshots db hdb r hr)⟩

theorem Tidied.filed (h : Tidied d d') : Filed d d' :=
  ⟨h.stored, h.objects, fun hd => (h.files.map _).nodup hd, h.snapshots⟩

theorem Backed.filed (h : Filed d d') {db : Database} (hdb : d.db? = some db) {r : ItemRow}
    (hr : r ∈ db.items) (hr' : Backed F d r.toItemColumns) : Backed F d' r.toItemColumns := by
  obtain ⟨file, hfile, hrest⟩ := hr'
  exact ⟨file, (h.snapshots db hdb r hr).trans hfile, hrest⟩

theorem Inv.filed (hd : Inv F d) (h : Filed d d') : Inv F d' := by
  refine ⟨?_, fun db hdb => ?_, h.names hd.names, fun db hdb => ?_, fun db hdb r hr => ?_⟩
  · rw [h.stored]
    exact hd.stored
  · rw [h.objects]
    exact hd.objects db (h.db?.symm.trans hdb)
  · exact hd.sound db (h.db?.symm.trans hdb)
  · have hdb' := h.db?.symm.trans hdb
    exact (hd.backed db hdb' r hr).filed h hdb' hr

/-- A name without a file is not listed. -/
theorem Disk.file_eq_none {name : EntryName} : d.file name = none ↔ name ∉ d.files.map (·.1) := by
  rw [Disk.file]
  induction d.files with
  | nil => simp
  | cons e rest ih =>
    rw [List.lookup_cons, List.map_cons, List.mem_cons, not_or]
    by_cases hn : name = e.1
    · simp [hn]
    · simp [beq_eq_false_iff_ne.2 hn, hn, ih]

theorem Disk.file_add_self {name : EntryName} {file : File} (hobjects : d.objects.isSome)
    (h : d.file name = none) : (d.add name file).file name = some file := by
  rw [Disk.file] at h
  rw [Disk.file, Disk.files_add hobjects, List.lookup_append, h]
  simp

/-- A file is added under a name that is free. -/
theorem Filed.add (hd : Inv F d) {name : EntryName} {file : File} (h : d.file name = none) :
    Filed d (d.add name file) := by
  refine ⟨rfl, ?_, fun hnames => ?_, fun db hdb r hr => ?_⟩
  · cases hobjects : d.objects <;> simp [Disk.add, hobjects]
  · cases hobjects : d.objects with
    | none => simp [Disk.add, Disk.files, hobjects]
    | some objects =>
      rw [Disk.files_add (by rw [hobjects]; rfl), List.map_append, List.nodup_append]
      refine ⟨hnames, by simp, fun x hx y hy => ?_⟩
      rw [List.map_singleton, List.mem_singleton] at hy
      intro heq
      rw [heq, hy] at hx
      exact Disk.file_eq_none.1 h hx
  · obtain ⟨other, hother, -⟩ := hd.backed db hdb r hr
    rw [hother]
    exact Disk.file_add hother

/-- A file that belongs to no pending item is removed. -/
theorem Filed.remove {name : EntryName}
    (h : ∀ db, d.db? = some db → ∀ r ∈ db.items, .snapshot r.id ≠ name) :
    Filed d (d.remove name) := by
  refine ⟨rfl, ?_, fun hnames => ?_, fun db hdb r hr => Disk.file_remove (h db hdb r hr)⟩
  · cases hobjects : d.objects <;> simp [Disk.remove, hobjects]
  · rw [Disk.files_remove]
    exact (List.filter_sublist.map _).nodup hnames

/-- The other name of a file is gone. -/
theorem Filed.release (hd : Inv F d) (id : String) (stat : Nat) : Filed d (d.release id stat) := by
  refine ⟨rfl, ?_, fun hnames => ?_, fun db hdb r hr => ?_⟩
  · cases hobjects : d.objects <;> simp [Disk.release, hobjects]
  · have hsame : (d.release id stat).files.map (·.1) = d.files.map (·.1) := by
      rw [Disk.files_release, List.map_map]
      refine List.map_congr_left fun e _ => ?_
      show (if _ then _ else _ : EntryName × File).1 = _
      split <;> rfl
    rw [hsame]
    exact hnames
  · obtain ⟨file, hfile, -, -, hlinked⟩ := hd.backed db hdb r hr
    rw [Disk.file_release, hfile]
    simp only [Option.map_some, Option.some.injEq]
    split
    · rw [← hlinked]
    · rfl

end Files

/-! ## Calls -/

section Calls

variable (F : Formats) (leases : List Lease) (jobLeases : List JobLease)

/-- One transaction on an opened queue, with the files it needs written before and the files it frees
removed after. -/
structure Committed (d d' : Disk) (db db' : Database) (target : QueueTarget) : Prop where
  db? : d.db? = some db
  valid : validateCurrent F db = .ok ()
  pinned : db.target? F = some target
  change : Change F leases jobLeases target db db'
  files : ∃ d₁, Filed d d₁ ∧ (∀ r ∈ db'.items, Backed F d₁ r.toItemColumns) ∧
    Filed (d₁.commit db') d'

/-- What a call may leave. -/
inductive Did (d d' : Disk) : Prop
  /-- The tables are as they were, or those of a new queue. -/
  | files {creating : Option (QueueTarget × QueueLimits)} {d₁ : Disk}
      (hopened : Opened F creating d d₁) (hfiled : Filed d₁ d') : Did d d'
  /-- There was one transaction. -/
  | change {creating : Option (QueueTarget × QueueLimits)} {d₁ : Disk} {db db' : Database}
      {target : QueueTarget} (hopened : Opened F creating d d₁)
      (hcommitted : Committed F leases jobLeases d₁ d' db db' target) : Did d d'

variable {F leases jobLeases} {d d' d₁ : Disk} {db db' : Database} {target : QueueTarget}

theorem Did.opened {creating : Option (QueueTarget × QueueLimits)} (h : Opened F creating d d') :
    Did F leases jobLeases d d' := .files h (.refl _)

theorem Did.refl (d : Disk) : Did F leases jobLeases d d :=
  .opened (show Opened F none d d from .inl (.refl d))

/-- The invariant after a transaction. -/
theorem Inv.commit (hd : Inv F d) (hdb : d.db? = some db) (hsound : Sound F db')
    (hbacked : ∀ r ∈ db'.items, Backed F d r.toItemColumns) : Inv F (d.commit db') := by
  have hsame : ∀ db₁, (d.commit db').db? = some db₁ → db₁ = db' := fun db₁ h =>
    (Option.some.inj h).symm
  refine ⟨.inr (.inr ⟨db', rfl⟩), fun _ _ => hd.objects db hdb, hd.names, fun db₁ h => ?_,
    fun db₁ h r hr => ?_⟩
  · rw [hsame db₁ h]
    exact hsound
  · rw [hsame db₁ h] at hr
    exact hbacked r hr

/-- A transaction is committed, after the files that it needs were written. -/
theorem Ready.commit {creating : Option (QueueTarget × QueueLimits)} {d₂ : Disk}
    (hready : Ready F creating d d₁ db) (hpinned : db.target? F = some target)
    (hfiled : Filed d₁ d₂) (hchange : Change F leases jobLeases target db db')
    (hbacked : ∀ r ∈ db'.items, Backed F d₂ r.toItemColumns) :
    (commit db').Sat d₂
      (fun _ d₃ => d₃ = d₂.commit db' ∧ ∀ d', Filed d₃ d' → Did F leases jobLeases d d')
      (fun d' => Did F leases jobLeases d d') (fun d' => Did F leases jobLeases d d') := by
  have hdid : ∀ d', Filed (d₂.commit db') d' → Did F leases jobLeases d d' := fun d' h =>
    .change hready.opened ⟨hready.db?, hready.valid, hpinned, hchange, d₂, hfiled, hbacked, h⟩
  exact Prog.Sat.durable ⟨rfl, hdid⟩ (hdid _ (.refl _)) (.files hready.opened hfiled)
    (.files hready.opened hfiled)

theorem Committed.kept (hF : F.ReadsBack) (hd : Inv F d)
    (hknown : ∀ db, d.db? = some db → Known F leases jobLeases db)
    (h : Committed F leases jobLeases d d' db db' target) :
    Inv F d' ∧ d'.db? = some db' ∧ Keeps db db' := by
  obtain ⟨d₁, hfiled, hbacked, hfiled'⟩ := h.files
  obtain ⟨hsound, hkeeps⟩ :=
    h.change.sound hF (hd.sound db h.db?) h.valid (hknown db h.db?) h.pinned
  have hinv := (hd.filed hfiled).commit (hfiled.db?.trans h.db?) hsound hbacked
  exact ⟨hinv.filed hfiled', hfiled'.db?, hkeeps⟩

theorem Opened.known {creating : Option (QueueTarget × QueueLimits)} (h : Opened F creating d d')
    (hfresh : d.db? = none → leases = [] ∧ jobLeases = [])
    (hknown : ∀ db, d.db? = some db → Known F leases jobLeases db) :
    ∀ db, d'.db? = some db → Known F leases jobLeases db := by
  intro db hdb
  rcases h with h | h
  · exact hknown db (h.db?.symm.trans hdb)
  · obtain ⟨hleases, hjobLeases⟩ := hfresh (Disk.fresh_db? h.fresh)
    rw [hleases, hjobLeases]
    exact ⟨by simp, by simp⟩

/-- A call keeps the invariant and loses nothing. -/
theorem Did.inv (hF : F.ReadsBack) (hd : Inv F d)
    (hfresh : d.db? = none → leases = [] ∧ jobLeases = [])
    (hknown : ∀ db, d.db? = some db → Known F leases jobLeases db)
    (h : Did F leases jobLeases d d') : Inv F d' ∧ Kept d d' := by
  cases h with
  | files hopened hfiled =>
    exact ⟨(hopened.inv hd).filed hfiled, hopened.kept.trans (kept_of_same hfiled.db?)⟩
  | change hopened hcommitted =>
    obtain ⟨hinv, hdb', hkeeps⟩ :=
      hcommitted.kept hF (hopened.inv hd) (hopened.known hfresh hknown)
    refine ⟨hinv, hopened.kept.trans fun db hdb => ⟨_, hdb', ?_⟩⟩
    rw [hcommitted.db?, Option.some.injEq] at hdb
    rw [← hdb]
    exact hkeeps

/-! ## Items -/

/-- `write_new` of a snapshot leaves it whole, under one name. -/
theorem writeNew_sat (hd : Inv F d) (hobjects : d.objects.isSome) (id : String) (bytes : Bytes)
    (r : EnqueueReadings) :
    (writeNew id bytes r).Sat d
      (fun _ d' => Filed d d' ∧ d'.file (.snapshot id) = some ⟨bytes, r.stat, false⟩)
      (fun d' => Filed d d') (fun d' => Filed d d') := by
  unfold writeNew
  refine Prog.Sat.bind (Prog.Sat.ask (fun _ hfree => ?_) (.refl d))
  have hnone : d.file (.temporary r.pid r.sequence) = none := by
    by_contra hsome
    rw [if_pos (Option.isSome_iff_ne_none.2 hsome)] at hfree
    cases hfree
  have h1 : Filed d (d.add (.temporary r.pid r.sequence) ⟨bytes, r.stat, false⟩) := .add hd hnone
  refine Prog.Sat.bind (Prog.Sat.durable ?_ h1 (.refl d) (.refl d))
  have hinv1 := hd.filed h1
  -- From here on the temporary file is removed, whatever fails.
  have hclean : ∀ d₁, Filed d d₁ →
      Filed d ((d₁.remove (.temporary r.pid r.sequence)).release id r.stat) := by
    intro d₁ h
    have hremoved : Filed d₁ (d₁.remove (.temporary r.pid r.sequence)) :=
      .remove fun _ _ _ _ h => by cases h
    exact (h.trans hremoved).trans (.release ((hd.filed h).filed hremoved) id r.stat)
  have hfail : ∀ d₁, Filed d d₁ → ∀ e,
      (do
        Prog.handle (Prog.durable .external fun d =>
          (d.remove (.temporary r.pid r.sequence)).release id r.stat) (fun _ => pure ())
        Prog.fail e : Op Unit).Sat d₁
        (fun _ d' => Filed d d' ∧ d'.file (.snapshot id) = some ⟨bytes, r.stat, false⟩)
        (fun d' => Filed d d') (fun d' => Filed d d') := by
    intro d₁ h e
    refine Prog.Sat.bind (Prog.Sat.handle (Prog.Sat.durable (Prog.Sat.fail (hclean d₁ h))
      (fun _ => ?_) (fun _ => ?_) h))
    · exact Prog.Sat.pure (Prog.Sat.fail (hclean d₁ h))
    · exact Prog.Sat.pure (Prog.Sat.fail h)
  refine Prog.Sat.handle ?_
  refine Prog.Sat.bind (Prog.Sat.ask (fun _ hfree' => ?_) (hfail _ h1))
  generalize d.add (.temporary r.pid r.sequence) ⟨bytes, r.stat, false⟩ = d1 at *
  have hnone' : d1.file (.snapshot id) = none := by
    by_contra hsome
    rw [if_pos (Option.isSome_iff_ne_none.2 hsome)] at hfree'
    cases hfree'
  have h2 : Filed d (d1.add (.snapshot id) ⟨bytes, r.stat, true⟩) := h1.trans (.add hinv1 hnone')
  refine Prog.Sat.bind (Prog.Sat.durable ?_ (hfail _ h2) (hfail _ h1) h1)
  have h3 := hclean _ h2
  refine Prog.Sat.bind (Prog.Sat.durable ?_ (hfail _ h3) (hfail _ h2) h2)
  refine touch_sat ⟨h3, ?_⟩ (hfail _ h3) h3
  have hsome : d1.objects.isSome := by
    rw [h1.objects]
    exact hobjects
  rw [Disk.file_release, Disk.file_remove (fun h => by cases h),
    Disk.file_add_self hsome hnone']
  simp

theorem decode_ok {row : ItemColumns} {item : QueueItem} (h : decode F row = .ok item) :
    item.id = row.id ∧ item.kind = row.kind ∧ item.sha256 = row.sha256 ∧
      item.sizeBytes = row.sizeBytes ∧ item.state = row.state.text ∧
      item.attempts = row.attempts := by
  obtain ⟨receipt, -, h⟩ := Result.bind_ok_iff.1 h
  cases h
  exact ⟨rfl, rfl, rfl, rfl, rfl, rfl⟩

theorem findObject_some {kind hash : String} {row : ItemColumns}
    (h : db.findObject kind hash = some row) :
    ∃ r ∈ db.items ++ db.archive, r.toItemColumns = row ∧ r.kind = kind ∧ r.sha256 = hash := by
  obtain ⟨r, hfind, rfl⟩ := Option.map_eq_some_iff.1 h
  have hr := List.find?_some hfind
  simp only [decide_eq_true_eq] at hr
  exact ⟨r, List.mem_of_find?_eq_some hfind, rfl, hr⟩

/-- A decoded row is known. -/
theorem knows_of_decode {r : ItemRow} (hr : r ∈ db.items ++ db.archive) {item : QueueItem}
    (h : decode F r.toItemColumns = .ok item) : Knows db item := by
  obtain ⟨hid, hkind, hhash, hsize, -⟩ := decode_ok h
  exact ⟨r, hr, hid.symm, hkind.symm, hhash.symm, hsize.symm⟩

/-- A new item is written and inserted, in that order. -/
theorem enqueueNew_sat {creating : Option (QueueTarget × QueueLimits)} (hd : Inv F d₁)
    (hready : Ready F creating d d₁ db) (htarget : db.target? F = some target) {kind : String}
    {bytes : Bytes} {limits : QueueLimits} (hlimits : limits.validate = .ok ())
    (hkind : validKind kind) (hnew : db.findObject kind (F.sha256 bytes) = none)
    (r : EnqueueReadings) :
    (enqueueNew F db kind (F.sha256 bytes) bytes limits r).Sat d₁
      (fun item d' => Did F leases jobLeases d d' ∧ item.kind = kind ∧
        item.sha256 = F.sha256 bytes ∧ ∃ db', d'.db? = some db' ∧ Knows db' item)
      (fun d' => Did F leases jobLeases d d') (fun d' => Did F leases jobLeases d d') := by
  have hopened : ∀ d₂, Filed d₁ d₂ → Did F leases jobLeases d d₂ :=
    fun d₂ h => .files hready.opened h
  unfold enqueueNew
  refine Prog.Sat.bind (Prog.Sat.ask (fun _ hroom => ?_) (hopened _ (.refl _)))
  refine Prog.Sat.bind (Prog.Sat.ask (fun id _ => ?_) (hopened _ (.refl _)))
  refine Prog.Sat.bind ((writeNew_sat hd (hd.objects db hready.db?) id.val bytes r).mono
    (fun _ d₂ h => ?_) hopened hopened)
  obtain ⟨hfiled, hfile⟩ := h
  refine Prog.Sat.bind (Prog.Sat.ask (fun db' hins => ?_) (hopened _ hfiled))
  refine Prog.Sat.bind (Prog.Sat.ask (fun item hitem => ?_) (hopened _ hfiled))
  have hitems := (insertItem_ok_iff.1 hins).2
  have hbacked : ∀ row ∈ db'.items, Backed F d₂ row.toItemColumns := by
    intro row hrow
    rw [hitems] at hrow
    rcases List.mem_append.1 hrow with hrow | hrow
    · exact (hd.backed db hready.db? row hrow).filed hfiled hready.db? hrow
    · rw [List.mem_singleton.1 hrow]
      exact ⟨_, hfile, rfl, rfl, rfl⟩
  refine Prog.Sat.bind ((hready.commit htarget hfiled
    (.enqueued hlimits hkind id.property hnew hroom hins) hbacked).mono (fun _ d₃ h => ?_)
    (fun _ h => h) (fun _ h => h))
  obtain ⟨rfl, hdid⟩ := h
  refine Prog.Sat.pure ⟨hdid _ (.refl _), ?_⟩
  obtain ⟨-, hk, hh, -⟩ := decode_ok hitem
  refine ⟨hk, hh, db', rfl, knows_of_decode ?_ hitem⟩
  rw [hitems]
  exact List.mem_append_left _ (List.mem_append_right _ (List.mem_singleton.2 rfl))

/-- `enqueue`. -/
theorem enqueue_sat (hd : Inv F d) (config : VaultConfig) (source : Option Bytes) (kind : String)
    (limits : QueueLimits) (r : EnqueueReadings) :
    (enqueue F config source kind limits r).Sat d
      (fun item d' => Did F leases jobLeases d d' ∧ item.kind = kind ∧
        ∃ bytes db', source = some bytes ∧ item.sha256 = F.sha256 bytes ∧ d'.db? = some db' ∧
          Knows db' item)
      (fun d' => Did F leases jobLeases d d') (fun d' => Did F leases jobLeases d d') := by
  have hsame : Did F leases jobLeases d d := .refl d
  unfold enqueue
  refine Prog.Sat.bind (Prog.Sat.ask (fun _ hlimits => ?_) hsame)
  refine Prog.Sat.bind (Prog.Sat.ask (fun _ hkind => ?_) hsame)
  have hkind : validKind kind := by simpa [refuse_ok_iff] using hkind
  refine Prog.Sat.bind (Prog.Sat.ask (fun target htarget => ?_) hsame)
  refine Prog.Sat.bind (Prog.Sat.ask (fun bytes hbytes => ?_) hsame)
  have hsource : source = some bytes := by
    rcases source with _ | source
    · cases hbytes
    · obtain ⟨-, h⟩ := Result.check_ok_iff.1 hbytes
      cases h
      rfl
  refine Prog.Sat.bind ((openFor_sat hd).mono (fun db d₁ h => ?_) (fun _ h => .opened h)
    (fun _ h => .opened h))
  obtain ⟨hready, hpinned⟩ := h
  have hopened : Did F leases jobLeases d d₁ := .opened hready.opened
  rcases hfound : db.findObject kind (F.sha256 bytes) with _ | row
  · refine (enqueueNew_sat (hready.opened.inv hd) hready hpinned hlimits hkind hfound r).mono
      (fun item d' h => ?_) (fun _ h => h) (fun _ h => h)
    obtain ⟨hdid, hk, hh, db', hdb', hknows⟩ := h
    exact ⟨hdid, hk, bytes, db', hsource, hh, hdb', hknows⟩
  · obtain ⟨r, hr, rfl, hk, hh⟩ := findObject_some hfound
    refine Prog.Sat.bind (Prog.Sat.ask (fun item hitem => ?_) hopened)
    refine Prog.Sat.bind (Prog.Sat.ask (fun _ _ => ?_) hopened)
    obtain ⟨-, hkind', hhash', -⟩ := decode_ok hitem
    refine Prog.Sat.bind (touch_sat (Prog.Sat.pure ⟨hopened, hkind'.trans hk, bytes, db, hsource,
      hhash'.trans hh, hready.db?, knows_of_decode hr hitem⟩) hopened hopened)

/-- `claim`. -/
theorem claim_sat (hd : Inv F d) (target : QueueTarget) (timeoutSecs now clock : Nat)
    (token : Option RandomId) :
    (claim F target timeoutSecs now clock token).Sat d
      (fun lease d' => Did F leases jobLeases d d' ∧ ∀ l, lease = some l →
        ∃ db', d'.db? = some db' ∧ Knows db' l.item)
      (fun d' => Did F leases jobLeases d d') (fun d' => Did F leases jobLeases d d') := by
  unfold claim
  refine Prog.Sat.bind ((openFor_sat hd).mono (fun db d₁ h => ?_) (fun _ h => .opened h)
    (fun _ h => .opened h))
  obtain ⟨hready, hpinned⟩ := h
  have hopened : Did F leases jobLeases d d₁ := .opened hready.opened
  have hd₁ := hready.opened.inv hd
  dsimp only
  generalize hhead : ((db.items.filter (·.due (timeOf now clock))).mergeSort earlier).head? = head
  rcases head with _ | row
  · refine Prog.Sat.bind (touch_sat ?_ hopened hopened)
    exact Prog.Sat.pure ⟨hopened, fun l h => by cases h⟩
  have hmem : row ∈ db.items.filter (·.due (timeOf now clock)) :=
    List.mem_mergeSort.1 (List.mem_of_mem_head? hhead)
  obtain ⟨hrow, hdue⟩ := List.mem_filter.1 hmem
  refine Prog.Sat.bind (Prog.Sat.ask (fun item hitem => ?_) hopened)
  refine Prog.Sat.bind (Prog.Sat.ask (fun _ _ => ?_) hopened)
  refine Prog.Sat.bind (Prog.Sat.ask (fun token _ => ?_) hopened)
  obtain ⟨hid, -, -, -, -, hattempts⟩ := decode_ok hitem
  have hchange : Change F leases jobLeases target db (db.updateItem row.id
      (ItemRow.leased token.val (leaseExpires (timeOf now clock) timeoutSecs)
        (nextAttempt row.attempts)
        (later (timeOf now clock) (retryDelay (nextAttempt row.attempts))))) :=
    .leased hrow hdue token.property
  rw [← hid, ← hattempts] at hchange
  have hkeeps := (hd₁.sound db hready.db?).updateItem item.id token.val
    (leaseExpires (timeOf now clock) timeoutSecs) (nextAttempt item.attempts)
    (later (timeOf now clock) (retryDelay (nextAttempt item.attempts)))
  generalize hdb' : db.updateItem item.id (ItemRow.leased token.val
    (leaseExpires (timeOf now clock) timeoutSecs) (nextAttempt item.attempts)
    (later (timeOf now clock) (retryDelay (nextAttempt item.attempts)))) = db' at hchange hkeeps ⊢
  have hbacked : ∀ r ∈ db'.items, Backed F d₁ r.toItemColumns := by
    intro r hr
    rw [← hdb'] at hr
    obtain ⟨r₀, hr₀, rfl⟩ := List.mem_map.1 hr
    have hb := hd₁.backed db hready.db? r₀ hr₀
    split
    · exact hb
    · exact hb
  refine Prog.Sat.bind ((hready.commit hpinned (.refl _) hchange hbacked).mono (fun _ d₃ h => ?_)
    (fun _ h => h) (fun _ h => h))
  obtain ⟨rfl, hdid⟩ := h
  refine Prog.Sat.pure ⟨hdid _ (.refl _), fun l hl => ⟨db', rfl, ?_⟩⟩
  cases hl
  have hknows : Knows db' item := (knows_of_decode (List.mem_append_left _ hrow) hitem).kept hkeeps.2
  exact hknows

/-- `finish`. -/
theorem finish_sat (hd : Inv F d) (target : QueueTarget) {lease : Lease} (hlease : lease ∈ leases)
    (result : Except String SignedReceipt) (now clock : Nat) :
    (finish F target lease result now clock).Sat d (fun _ d' => Did F leases jobLeases d d')
      (fun d' => Did F leases jobLeases d d') (fun d' => Did F leases jobLeases d d') := by
  unfold finish
  refine Prog.Sat.bind ((openFor_sat hd).mono (fun db d₁ h => ?_) (fun _ h => .opened h)
    (fun _ h => .opened h))
  obtain ⟨hready, hpinned⟩ := h
  have hopened : Did F leases jobLeases d d₁ := .opened hready.opened
  have hd₁ := hready.opened.inv hd
  dsimp only
  refine Prog.Sat.ite (fun _ => ?_) fun howned => ?_
  · exact Prog.Sat.bind (touch_sat (Prog.Sat.pure hopened) hopened hopened)
  have howned : db.items.any (·.owned lease.item.id lease.token (timeOf now clock)) := by
    simpa using howned
  cases result with
  | ok receipt =>
    refine Prog.Sat.bind (Prog.Sat.ask (fun _ hverified => ?_) hopened)
    refine Prog.Sat.bind (Prog.Sat.ask (fun db' hmove => ?_) hopened)
    have hitems : db'.items = db.items.filter (fun r => !r.held lease.item.id lease.token) := by
      rw [(archiveItem_ok_iff.1 hmove).2]
    have hbacked : ∀ r ∈ db'.items, Backed F d₁ r.toItemColumns := by
      intro r hr
      rw [hitems] at hr
      exact hd₁.backed db hready.db? r (List.mem_filter.1 hr).1
    -- The snapshot goes only after the transaction, when no active row is left with its name.
    have hremoved : Filed (d₁.commit db')
        ((d₁.commit db').remove (.snapshot lease.item.id)) := by
      refine .remove fun db₁ hdb₁ r hr hname => ?_
      rw [Disk.db?_commit, Option.some.injEq] at hdb₁
      rw [← hdb₁, hitems] at hr
      obtain ⟨hr, hnot⟩ := List.mem_filter.1 hr
      obtain ⟨r₀, hr₀, howned₀⟩ := List.any_eq_true.1 howned
      simp only [ItemRow.owned, Bool.and_eq_true, beq_iff_eq] at howned₀
      have hsame : r = r₀ := List.inj_on_of_nodup_map (hd₁.sound db hready.db?).itemIds hr hr₀
        ((EntryName.snapshot.inj hname).trans howned₀.1.1.symm)
      rw [hsame] at hnot
      simp [ItemRow.held, howned₀.1.1, howned₀.1.2] at hnot
    refine Prog.Sat.bind ((hready.commit hpinned (.refl _)
      (.archived hlease howned hverified hmove) hbacked).mono (fun _ d₃ h => ?_)
      (fun _ h => h) (fun _ h => h))
    obtain ⟨rfl, hdid⟩ := h
    refine Prog.Sat.bind (Prog.Sat.ask (fun _ _ => ?_) (hdid _ (.refl _)))
    refine Prog.Sat.bind (Prog.Sat.durable ?_ (hdid _ hremoved) (hdid _ (.refl _))
      (hdid _ (.refl _)))
    exact Prog.Sat.bind (touch_sat (Prog.Sat.pure (hdid _ hremoved)) (hdid _ hremoved)
      (hdid _ hremoved))
  | error code =>
    have hbacked : ∀ r ∈ (db.retryItem lease.item.id lease.token (later (timeOf now clock)
        (retryDelay lease.item.attempts)) code).items, Backed F d₁ r.toItemColumns := by
      intro r hr
      obtain ⟨r₀, hr₀, rfl⟩ := List.mem_map.1 hr
      have hb := hd₁.backed db hready.db? r₀ hr₀
      split
      · exact hb
      · exact hb
    exact Prog.Sat.bind ((hready.commit hpinned (.refl _) (.retried hlease howned) hbacked).mono
      (fun _ d₃ h => Prog.Sat.pure (h.2 _ (.refl _))) (fun _ h => h) (fun _ h => h))

/-! ## Jobs -/

/-- A job that was loaded is known. -/
theorem knowsJob_of_load {id : String} {job : BundleJob} (h : load F db id = .ok job) :
    KnowsJob F db job := by
  obtain ⟨row, -, hrow, -, hdecode, -⟩ := load_ok h
  obtain ⟨hid, hmanifest, -⟩ := decodeJob_ok hdecode
  exact ⟨row, List.mem_of_find?_eq_some hrow, hid.symm, hmanifest⟩

/-- The items of a change of jobs have their snapshots. -/
theorem backed_updateJob (hd : Inv F d) (hdb : d.db? = some db) (keep : JobRow → Bool)
    (g : JobRow → JobRow) :
    ∀ r ∈ (db.updateJob keep g).items, Backed F d r.toItemColumns := hd.backed db hdb

/-- `claim_job`. -/
theorem claimJob_sat (hd : Inv F d) (target : QueueTarget) (timeoutSecs now clock : Nat)
    (token : Option RandomId) :
    (claimJob F target timeoutSecs now clock token).Sat d
      (fun lease d' => Did F leases jobLeases d d' ∧ ∀ l, lease = some l →
        ∃ db', d'.db? = some db' ∧ KnowsJob F db' l.job)
      (fun d' => Did F leases jobLeases d d') (fun d' => Did F leases jobLeases d d') := by
  unfold claimJob
  refine Prog.Sat.bind ((openFor_sat hd).mono (fun db d₁ h => ?_) (fun _ h => .opened h)
    (fun _ h => .opened h))
  obtain ⟨hready, hpinned⟩ := h
  have hopened : Did F leases jobLeases d d₁ := .opened hready.opened
  have hd₁ := hready.opened.inv hd
  dsimp only
  generalize hhead : ((db.jobs.filter (db.dueJob (timeOf now clock))).mergeSort earlierJob).head? = head
  rcases head with _ | row
  · refine Prog.Sat.bind (touch_sat ?_ hopened hopened)
    exact Prog.Sat.pure ⟨hopened, fun l h => by cases h⟩
  have hmem : row ∈ db.jobs.filter (db.dueJob (timeOf now clock)) :=
    List.mem_mergeSort.1 (List.mem_of_mem_head? hhead)
  obtain ⟨hrow, hdue⟩ := List.mem_filter.1 hmem
  refine Prog.Sat.bind (Prog.Sat.ask (fun job hload => ?_) hopened)
  refine Prog.Sat.bind (Prog.Sat.ask (fun _ hverified => ?_) hopened)
  refine Prog.Sat.bind (Prog.Sat.ask (fun token _ => ?_) hopened)
  have hkeeps := (Change.sound_jobLeased (hd₁.sound db hready.db?) hready.valid hrow hdue hload
    token.val (leaseExpires (timeOf now clock) timeoutSecs)
    (later (timeOf now clock) (retryDelay (nextAttempt job.attempts)))).2
  refine Prog.Sat.bind ((hready.commit hpinned (.refl _)
    (.jobLeased hrow hdue hload hverified token.property)
    (backed_updateJob hd₁ hready.db? _ _)).mono (fun _ d₃ h => ?_) (fun _ h => h) (fun _ h => h))
  obtain ⟨rfl, hdid⟩ := h
  refine Prog.Sat.pure ⟨hdid _ (.refl _), fun l hl => ⟨_, rfl, ?_⟩⟩
  cases hl
  have hknows := (knowsJob_of_load hload).kept hkeeps
  exact hknows

/-- `finish_job`. -/
theorem finishJob_sat (hd : Inv F d) (target : QueueTarget) {lease : JobLease}
    (hlease : lease ∈ jobLeases) (result : Except String BundleRecord) (now clock : Nat) :
    (finishJob F target lease result now clock).Sat d (fun _ d' => Did F leases jobLeases d d')
      (fun d' => Did F leases jobLeases d d') (fun d' => Did F leases jobLeases d d') := by
  unfold finishJob
  refine Prog.Sat.bind ((openFor_sat hd).mono (fun db d₁ h => ?_) (fun _ h => .opened h)
    (fun _ h => .opened h))
  obtain ⟨hready, hpinned⟩ := h
  have hopened : Did F leases jobLeases d d₁ := .opened hready.opened
  have hd₁ := hready.opened.inv hd
  dsimp only
  refine Prog.Sat.ite (fun _ => ?_) fun howned => ?_
  · exact Prog.Sat.bind (touch_sat (Prog.Sat.pure hopened) hopened hopened)
  have howned : db.jobs.any (·.owned lease.job.bundleId lease.token (timeOf now clock)) := by
    simpa using howned
  cases result with
  | ok record =>
    refine Prog.Sat.bind (Prog.Sat.ask (fun _ hverified => ?_) hopened)
    refine Prog.Sat.bind (Prog.Sat.ask (fun _ hmatch => ?_) hopened)
    simp only [refuse_ok_iff, Bool.or_eq_false_iff, bne_eq_false_iff_eq, Bool.and_eq_false_iff,
      beq_eq_false_iff_ne] at hmatch
    obtain ⟨⟨hmanifest, hagent⟩, hphase⟩ := hmatch
    have hphase : lease.job.phase = .complete → record.completion.isSome := by
      intro h
      have := hphase.resolve_left (fun hne => hne h)
      simpa [Option.isSome_iff_ne_none] using this
    exact Prog.Sat.bind ((hready.commit hpinned (.refl _)
      (.advanced hlease howned hverified hmanifest hagent hphase)
      (backed_updateJob hd₁ hready.db? _ _)).mono (fun _ d₃ h => Prog.Sat.pure (h.2 _ (.refl _)))
      (fun _ h => h) (fun _ h => h))
  | error code =>
    exact Prog.Sat.bind ((hready.commit hpinned (.refl _) (.jobRetried hlease howned)
      (backed_updateJob hd₁ hready.db? _ _)).mono (fun _ d₃ h => Prog.Sat.pure (h.2 _ (.refl _)))
      (fun _ h => h) (fun _ h => h))

end Calls

end Argos.Queue
