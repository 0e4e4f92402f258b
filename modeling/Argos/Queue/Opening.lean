import Argos.Queue.Evolution

/-!
# Opening a queue

Every call begins with `open_mutating`, which makes a new queue or finds one, validates its tables and
removes the files that belong to no pending item. `openFor_sat` says what it leaves, at whichever step
it stops: the tables are as they were, every pending item has its snapshot, and only other files are
gone; or there was no queue, and there is a part of a new one. `Inv` is what holds of the directory in
between.
-/

namespace Argos.Queue

open Argos.Lib
open Argos.Vault (Bytes Result Error refuse)
open Argos.Vault (refuse_ok_iff Result.bind_ok_iff Result.check_ok_iff exists_unit_iff)

/-! ## Files -/

section Files

variable {d d' : Disk} {name name' : EntryName} {file : File}

theorem Disk.files_add (h : d.objects.isSome) :
    (d.add name file).files = d.files ++ [(name, file)] := by
  obtain ⟨objects, hobjects⟩ := Option.isSome_iff_exists.1 h
  simp [Disk.files, Disk.add, hobjects]

theorem Disk.files_remove : (d.remove name).files = d.files.filter (·.1 ≠ name) := by
  cases h : d.objects <;> simp [Disk.files, Disk.remove, h]

theorem Disk.files_release {id : String} {stat : Nat} :
    (d.release id stat).files = d.files.map fun e =>
      if e.1 = .snapshot id ∧ e.2.stat = stat then (e.1, { e.2 with linked := false }) else e := by
  cases h : d.objects <;> simp [Disk.files, Disk.release, h]

/-- A file that is there is not replaced. -/
theorem Disk.file_add {other : File} (h : d.file name' = some other) :
    (d.add name file).file name' = some other := by
  have hsome : d.objects.isSome := by
    cases hobjects : d.objects with
    | none => simp [Disk.file, Disk.files, hobjects] at h
    | some objects => rfl
  rw [Disk.file, Disk.files_add hsome]
  rw [Disk.file] at h
  rw [List.lookup_append, h]
  rfl

/-- The other files stay. -/
theorem Disk.file_remove (h : name' ≠ name) : (d.remove name).file name' = d.file name' := by
  rw [Disk.file, Disk.file, Disk.files_remove]
  induction d.files with
  | nil => rfl
  | cons e rest ih =>
    obtain ⟨n, f⟩ := e
    by_cases hn : n = name
    · have hne : (name' == n) = false := by
        rw [beq_eq_false_iff_ne, hn]
        exact h
      rw [List.filter_cons_of_neg (by simp [hn]), ih, List.lookup_cons, hne]
    · rw [List.filter_cons_of_pos (by simp [hn]), List.lookup_cons, List.lookup_cons, ih]

/-- A change of the files, each under its name. -/
theorem lookup_map_file (g : EntryName → File → File) (files : Objects) (name : EntryName) :
    (files.map fun e => (e.1, g e.1 e.2)).lookup name = (files.lookup name).map (g name) := by
  induction files with
  | nil => rfl
  | cons e rest ih =>
    rw [List.map_cons, List.lookup_cons, List.lookup_cons, ih]
    by_cases hn : name = e.1
    · simp [hn]
    · simp [beq_eq_false_iff_ne.2 hn]

theorem Disk.file_release {id : String} {stat : Nat} :
    (d.release id stat).file name = (d.file name).map fun f =>
      if name = .snapshot id ∧ f.stat = stat then { f with linked := false } else f := by
  have hmap : (d.release id stat).files = d.files.map fun e => (e.1,
      if e.1 = .snapshot id ∧ e.2.stat = stat then { e.2 with linked := false } else e.2) := by
    rw [Disk.files_release]
    exact List.map_congr_left fun e _ => by split <;> rfl
  rw [Disk.file, Disk.file, hmap, lookup_map_file
    (fun n f => if n = .snapshot id ∧ f.stat = stat then { f with linked := false } else f)]

theorem Disk.db?_add : (d.add name file).db? = d.db? := rfl

theorem Disk.db?_remove : (d.remove name).db? = d.db? := rfl

theorem Disk.db?_release {id : String} {stat : Nat} : (d.release id stat).db? = d.db? := rfl

theorem Disk.db?_commit {db : Database} : (d.commit db).db? = some db := rfl

theorem Disk.db?_eq_some {db : Database} : d.db? = some db ↔ d.stored = some (.current db) := by
  rw [Disk.db?]
  split
  · next db' h => simp [h]
  · next h => exact ⟨fun h' => (by cases h'), fun h' => (h db h').elim⟩

end Files

/-! ## The invariant -/

section Invariant

variable (F : Formats)

/-- The item has its snapshot, whole and under one name. -/
def Backed (d : Disk) (r : ItemColumns) : Prop :=
  ∃ file, d.file (.snapshot r.id) = some file ∧ file.bytes.length = r.sizeBytes ∧
    F.sha256 file.bytes = r.sha256 ∧ file.linked = false

/-- What holds of the directory between steps: there is no queue, or a part of a new one, or the
tables are sound and every active item has its snapshot. -/
structure Inv (d : Disk) : Prop where
  stored : d.stored = none ∨ d.stored = some .blank ∨ ∃ db, d.stored = some (.current db)
  objects : ∀ db, d.db? = some db → d.objects.isSome
  names : (d.files.map (·.1)).Nodup
  sound : ∀ db, d.db? = some db → Sound F db
  backed : ∀ db, d.db? = some db → ∀ r ∈ db.items, Backed F d r.toItemColumns

/-- What no step undoes. -/
def Kept (d d' : Disk) : Prop :=
  ∀ db, d.db? = some db → ∃ db', d'.db? = some db' ∧ Keeps db db'

variable {F} {d d' d'' : Disk}

theorem Kept.refl (d : Disk) : Kept d d := fun db h => ⟨db, h, .refl db⟩

theorem Kept.trans (h : Kept d d') (h' : Kept d' d'') : Kept d d'' := by
  intro db hdb
  obtain ⟨db', hdb', hkeeps⟩ := h db hdb
  obtain ⟨db'', hdb'', hkeeps'⟩ := h' db' hdb'
  exact ⟨db'', hdb'', hkeeps.trans hkeeps'⟩

theorem kept_of_same (h : d'.db? = d.db?) : Kept d d' := fun db hdb => ⟨db, h.trans hdb, .refl db⟩

/-- Files are removed that belong to no pending item. -/
structure Tidied (d d' : Disk) : Prop where
  stored : d'.stored = d.stored
  lock : d'.lock = d.lock
  objects : d'.objects.isSome = d.objects.isSome
  files : d'.files.Sublist d.files
  snapshots : ∀ db, d.db? = some db → ∀ r ∈ db.items,
    d'.file (.snapshot r.id) = d.file (.snapshot r.id)

theorem Tidied.refl (d : Disk) : Tidied d d :=
  ⟨rfl, rfl, rfl, List.Sublist.refl _, fun _ _ _ _ => rfl⟩

theorem Tidied.db? (h : Tidied d d') : d'.db? = d.db? := by
  rw [Disk.db?, Disk.db?, h.stored]

theorem Tidied.trans (h : Tidied d d') (h' : Tidied d' d'') : Tidied d d'' :=
  ⟨h'.stored.trans h.stored, h'.lock.trans h.lock, h'.objects.trans h.objects,
    h'.files.trans h.files, fun db hdb r hr =>
      (h'.snapshots db (h.db?.trans hdb) r hr).trans (h.snapshots db hdb r hr)⟩

theorem Inv.tidied (hd : Inv F d) (h : Tidied d d') : Inv F d' := by
  refine ⟨?_, fun db hdb => ?_, (h.files.map _).nodup hd.names, fun db hdb => ?_,
    fun db hdb r hr => ?_⟩
  · rw [h.stored]
    exact hd.stored
  · rw [h.objects]
    exact hd.objects db (h.db?.symm.trans hdb)
  · exact hd.sound db (h.db?.symm.trans hdb)
  · have hdb' := h.db?.symm.trans hdb
    obtain ⟨file, hfile, hrest⟩ := hd.backed db hdb' r hr
    exact ⟨file, (h.snapshots db hdb' r hr).trans hfile, hrest⟩

/-- There was no queue, and there is a part of a new one. -/
structure Founded (F : Formats) (creating : Option (QueueTarget × QueueLimits)) (d d' : Disk) :
    Prop where
  fresh : d.fresh
  files : d'.files = []
  stored : d'.stored = none ∨ d'.stored = some .blank ∨
    ∃ target limits, creating = some (target, limits) ∧ d'.objects.isSome ∧
      d'.stored = some (.current (.initial F target limits))

theorem Founded.inv {creating : Option (QueueTarget × QueueLimits)} (h : Founded F creating d d') :
    Inv F d' := by
  have hdb : ∀ db, d'.db? = some db → d'.objects.isSome ∧
      ∃ target limits, db = .initial F target limits := by
    intro db hdb
    rw [Disk.db?_eq_some] at hdb
    rcases h.stored with hs | hs | ⟨target, limits, -, hobjects, hs⟩
    · rw [hs] at hdb
      cases hdb
    · rw [hs] at hdb
      cases hdb
    · rw [hs] at hdb
      cases hdb
      exact ⟨hobjects, target, limits, rfl⟩
  refine ⟨?_, fun db h' => (hdb db h').1, by simp [h.files], fun db h' => ?_, fun db h' r hr => ?_⟩
  · rcases h.stored with hs | hs | ⟨target, limits, -, -, hs⟩
    · exact .inl hs
    · exact .inr (.inl hs)
    · exact .inr (.inr ⟨_, hs⟩)
  · obtain ⟨-, target, limits, rfl⟩ := hdb db h'
    exact sound_initial target limits
  · obtain ⟨-, target, limits, rfl⟩ := hdb db h'
    cases hr

theorem Disk.fresh_db? (h : d.fresh) : d.db? = none := by
  simp only [Disk.fresh, Bool.and_eq_true, Option.isNone_iff_eq_none] at h
  rw [Disk.db?, h.2]

/-- What opening does to the directory. -/
def Opened (F : Formats) (creating : Option (QueueTarget × QueueLimits)) (d d' : Disk) : Prop :=
  Tidied d d' ∨ Founded F creating d d'

theorem Opened.inv {creating : Option (QueueTarget × QueueLimits)} (hd : Inv F d)
    (h : Opened F creating d d') : Inv F d' := by
  rcases h with h | h
  · exact hd.tidied h
  · exact h.inv

theorem Opened.kept {creating : Option (QueueTarget × QueueLimits)}
    (h : Opened F creating d d') : Kept d d' := by
  rcases h with h | h
  · exact kept_of_same h.db?
  · intro db hdb
    rw [Disk.fresh_db? h.fresh] at hdb
    cases hdb

theorem Opened.tidied {creating : Option (QueueTarget × QueueLimits)}
    (h : Opened F creating d d') (h' : Tidied d' d'') : Opened F creating d d'' := by
  rcases h with h | h
  · exact .inl (h.trans h')
  · refine .inr ⟨h.fresh, ?_, ?_⟩
    · have := h'.files
      rw [h.files, List.sublist_nil] at this
      exact this
    · rw [h'.stored, h'.objects]
      exact h.stored

end Invariant

/-! ## Steps -/

section Steps

variable {F : Formats} {d : Disk}

theorem touch_sat {Q : Unit → Disk → Prop} {E K : Disk → Prop} (hQ : Q () d) (hE : E d)
    (hK : K d) : touch.Sat d Q E K := Prog.Sat.durable hQ hE hE hK

/-- A new queue is made. -/
theorem createQueue_sat {target : QueueTarget} {limits : QueueLimits} (hfresh : d.fresh) :
    (createQueue F target limits).Sat d
      (fun _ d' => Founded F (some (target, limits)) d d' ∧
        d'.db? = some (.initial F target limits))
      (fun d' => Opened F (some (target, limits)) d d')
      (fun d' => Opened F (some (target, limits)) d d') := by
  have hnone := hfresh
  simp only [Disk.fresh, Bool.and_eq_true, Option.isNone_iff_eq_none] at hnone
  obtain ⟨⟨-, hobjects⟩, hstored⟩ := hnone
  have h0 : Founded F (some (target, limits)) d d := by
    refine ⟨hfresh, ?_, .inl hstored⟩
    simp [Disk.files, hobjects]
  have h1 : Founded F (some (target, limits)) d { d with lock := true } := by
    refine ⟨hfresh, ?_, .inl hstored⟩
    simp [Disk.files, hobjects]
  have h2 : Founded F (some (target, limits)) d { d with lock := true, objects := some [] } :=
    ⟨hfresh, rfl, .inl hstored⟩
  have h3 : Founded F (some (target, limits)) d
      { d with lock := true, objects := some [], stored := some .blank } :=
    ⟨hfresh, rfl, .inr (.inl rfl)⟩
  have h4 : Founded F (some (target, limits)) d
      (Disk.commit (.initial F target limits)
        { d with lock := true, objects := some [], stored := some .blank }) :=
    ⟨hfresh, rfl, .inr (.inr ⟨target, limits, rfl, rfl, rfl⟩)⟩
  unfold createQueue
  refine Prog.Sat.bind (Prog.Sat.durable ?_ (.inr h1) (.inr h0) (.inr h0))
  refine Prog.Sat.bind (touch_sat ?_ (.inr h1) (.inr h1))
  refine Prog.Sat.bind (Prog.Sat.durable ?_ (.inr h2) (.inr h1) (.inr h1))
  refine Prog.Sat.bind (Prog.Sat.durable ?_ (.inr h3) (.inr h2) (.inr h2))
  exact Prog.Sat.durable ⟨h4, rfl⟩ (.inr h4) (.inr h3) (.inr h3)

/-- A queue is found. -/
theorem findQueue_sat : findQueue.Sat d (fun _ d' => d' = d ∧ d.objects.isSome)
    (fun d' => d' = d) (fun d' => d' = d) := by
  unfold findQueue
  refine Prog.Sat.bind (Prog.Sat.ask (fun _ _ => ?_) rfl)
  refine Prog.Sat.bind (touch_sat ?_ rfl rfl)
  refine Prog.Sat.bind (Prog.Sat.ask (fun _ hobjects => ?_) rfl)
  refine Prog.Sat.ask (fun _ _ => ⟨rfl, ?_⟩) rfl
  by_contra hnone
  rw [if_neg hnone] at hobjects
  cases hobjects

/-- A file that belongs to no pending item is removed. -/
theorem Tidied.remove {db : Database} (hdb : d.db? = some db) {name : EntryName}
    (hname : ∀ r ∈ db.items, .snapshot r.id ≠ name) : Tidied d (d.remove name) := by
  refine ⟨rfl, rfl, ?_, ?_, fun db' hdb' r hr => ?_⟩
  · cases h : d.objects <;> simp [Disk.remove, h]
  · rw [Disk.files_remove]
    exact List.filter_sublist
  · rw [hdb] at hdb'
    cases hdb'
    exact Disk.file_remove (hname r hr)

/-- The loop of `cleanup` removes files that belong to no pending item. -/
theorem cleanupEntries_sat {db : Database} (hpending : ∀ r ∈ db.items, r.state = .pending)
    {entries : Objects} {count : Nat} (hdb : d.db? = some db) :
    (cleanupEntries F db entries count).Sat d (fun _ d' => Tidied d d') (fun d' => Tidied d d')
      (fun d' => Tidied d d') := by
  induction entries generalizing d count with
  | nil => exact Prog.Sat.pure (.refl d)
  | cons e rest ih =>
    obtain ⟨name, file⟩ := e
    rw [cleanupEntries.eq_def]
    dsimp only
    -- What is left of the loop, after a file was removed or not.
    have hrest : ∀ d₁, Tidied d d₁ → ∀ (out : Bool),
        ((cleanupEntries F db rest (count + 1)) >>= fun _ => (pure out : Op Bool)).Sat d₁
          (fun _ d' => Tidied d d') (fun d' => Tidied d d') (fun d' => Tidied d d') := by
      intro d₁ h₁ out
      refine Prog.Sat.bind ((ih (h₁.db?.trans hdb)).mono (fun _ d' h' => ?_) (fun d' h' => ?_)
        (fun d' h' => ?_))
      · exact Prog.Sat.pure (h₁.trans h')
      · exact h₁.trans h'
      · exact h₁.trans h'
    refine Prog.Sat.bind (Prog.Sat.ask (fun _ _ => ?_) (.refl d))
    cases name with
    | temporary pid sequence =>
      have hremoved : Tidied d (d.remove (.temporary pid sequence)) :=
        .remove hdb fun r _ h => by cases h
      exact Prog.Sat.bind (Prog.Sat.durable (hrest _ hremoved true) hremoved (.refl d) (.refl d))
    | snapshot id =>
      refine Prog.Sat.ite (fun _ => Prog.Sat.fail (.refl d)) fun _ => ?_
      refine Prog.Sat.ite (fun _ => ?_) fun horphan => ?_
      · exact (ih hdb).mono (fun _ _ h => h) (fun _ h => h) (fun _ h => h)
      · have hremoved : Tidied d (d.remove (.snapshot id)) := by
          refine .remove hdb fun r hr h => horphan ?_
          cases h
          rw [List.any_eq_true]
          exact ⟨r, hr, by simp [hpending r hr]⟩
        refine Prog.Sat.bind (Prog.Sat.ask (fun _ _ => ?_) (.refl d))
        exact Prog.Sat.bind (Prog.Sat.durable (hrest _ hremoved true) hremoved (.refl d) (.refl d))
    | foreign name => exact Prog.Sat.fail (.refl d)

theorem tables_ok_iff {db : Database} :
    (match d.db? with
      | none => (.error .external : Result Database)
      | some db => .ok db) = .ok db ↔ d.db? = some db := by
  cases d.db? <;> simp

/-- `cleanup` removes files that belong to no pending item. -/
theorem cleanup_sat (hd : Inv F d) : (cleanup F).Sat d (fun _ d' => Tidied d d')
    (fun d' => Tidied d d') (fun d' => Tidied d d') := by
  unfold cleanup tables
  refine Prog.Sat.bind (Prog.Sat.ask (fun db hdb => ?_) (.refl d))
  have hdb := tables_ok_iff.1 hdb
  refine Prog.Sat.bind (Prog.Sat.ask (fun _ _ => ?_) (.refl d))
  refine Prog.Sat.bind (Prog.Sat.ask (fun _ _ => ?_) (.refl d))
  refine Prog.Sat.bind (Prog.Sat.gets ?_)
  have hpending := fun r hr => ((hd.sound db hdb).active r hr).1
  refine Prog.Sat.bind ((cleanupEntries_sat hpending hdb).mono (fun removed d' h => ?_)
    (fun _ h => h) (fun _ h => h))
  exact Prog.Sat.ite (fun _ => touch_sat h h h) fun _ => Prog.Sat.pure h

/-- What is known after the queue was opened. -/
structure Ready (F : Formats) (creating : Option (QueueTarget × QueueLimits)) (d d' : Disk)
    (db : Database) : Prop where
  opened : Opened F creating d d'
  db? : d'.db? = some db
  valid : validateCurrent F db = .ok ()

/-- `open_mutating`. -/
theorem openMutating_sat (hd : Inv F d) {creating : Option (QueueTarget × QueueLimits)} :
    (openMutating F creating).Sat d (fun _ d' => ∃ db, Ready F creating d d' db)
      (fun d' => Opened F creating d d') (fun d' => Opened F creating d d') := by
  unfold openMutating
  -- The tables are validated and the files cleaned up, from wherever the queue was made or found.
  have hrest : ∀ d₁, Opened F creating d d₁ →
      (do
        Prog.ask fun d => validateDatabase F (d.stored.getD .blank)
        migrate F
        cleanup F : Op Unit).Sat d₁ (fun _ d' => ∃ db, Ready F creating d d' db)
        (fun d' => Opened F creating d d') (fun d' => Opened F creating d d') := by
    intro d₁ h₁
    have hd₁ := h₁.inv hd
    refine Prog.Sat.bind (Prog.Sat.ask (fun _ hvalid => ?_) h₁)
    obtain ⟨db, hdb⟩ : ∃ db, d₁.stored = some (.current db) := by
      rcases hd₁.stored with hs | hs | h
      · rw [hs] at hvalid
        cases hvalid
      · rw [hs] at hvalid
        cases hvalid
      · exact h
    have hvalid' : validateCurrent F db = .ok () := by
      rw [hdb] at hvalid
      exact hvalid
    unfold migrate
    refine Prog.Sat.bind (Prog.Sat.bind (Prog.Sat.gets ?_))
    rw [hdb]
    refine Prog.Sat.ite (fun _ => Prog.Sat.pure ?_) fun h => (h rfl).elim
    refine (cleanup_sat hd₁).mono (fun _ d' h => ?_) (fun d' h => h₁.tidied h)
      (fun d' h => h₁.tidied h)
    exact ⟨db, h₁.tidied h, h.db?.trans (Disk.db?_eq_some.2 hdb), hvalid'⟩
  unfold enterQueue
  refine Prog.Sat.bind (Prog.Sat.bind (Prog.Sat.gets ?_))
  refine Prog.Sat.ite (fun hfresh => ?_) fun _ => ?_
  · cases creating with
    | none => exact Prog.Sat.fail (.inl (.refl d))
    | some c =>
      exact (createQueue_sat hfresh).mono (fun _ d' h => hrest d' (.inr h.1)) (fun _ h => h)
        (fun _ h => h)
  · exact findQueue_sat.mono (fun _ d' h => hrest d' (.inl (h.1 ▸ .refl d)))
      (fun d' h => .inl (h ▸ .refl d)) (fun d' h => .inl (h ▸ .refl d))

theorem assertTarget_ok_iff {queueMeta : QueueMeta} {target : QueueTarget} :
    assertTarget F queueMeta target = .ok () ↔
      F.target.decode queueMeta.targetJson = some target := by
  rw [assertTarget, QueueMeta.read]
  rcases F.target.decode queueMeta.targetJson with _ | stored
  · simp [Result.bind_ok_iff]
  · simp only [Result.bind_ok_iff, Except.ok.injEq, exists_eq_left', refuse_ok_iff,
      bne_eq_false_iff_eq, Option.some.injEq]

/-- The opening of a call for a target. -/
theorem openFor_sat (hd : Inv F d) {creating : Option (QueueTarget × QueueLimits)}
    {target : QueueTarget} :
    (openFor F creating target).Sat d
      (fun db d' => Ready F creating d d' db ∧ db.target? F = some target)
      (fun d' => Opened F creating d d') (fun d' => Opened F creating d d') := by
  unfold openFor tables
  refine Prog.Sat.bind ((openMutating_sat hd).mono (fun _ d₁ h₁ => ?_) (fun _ h => h)
    (fun _ h => h))
  obtain ⟨db, h₁⟩ := h₁
  refine Prog.Sat.bind (Prog.Sat.ask (fun db' hdb' => ?_) h₁.opened)
  obtain rfl : db' = db := by
    have := tables_ok_iff.1 hdb'
    rw [h₁.db?] at this
    exact (Option.some.inj this).symm
  refine Prog.Sat.bind (Prog.Sat.ask (fun _ htarget => ?_) h₁.opened)
  exact Prog.Sat.pure ⟨h₁, assertTarget_ok_iff.1 htarget⟩

end Steps

end Argos.Queue
