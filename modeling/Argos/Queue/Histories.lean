import Argos.Queue.Registration
import Argos.Queue.Sample

/-!
# Whole runs of a queue

`Sys.Ok` is what holds of a queue and its processes after every step of every run: the directory is
in order, the leases are known, the copies of the bundles that are being registered are whole, and
what a call has returned is still true. One step keeps it (`Sys.Ok.next`) and loses nothing
(`Sys.kept_next`), and so does every run. From it follow that no item is lost or duplicated, and that
a job is completed only on evidence.
-/

namespace Argos.Queue

open Argos.Lib
open Argos.Vault (Bytes Result Error SignedReceipt BundleRecord BundleManifest refuse sampleBody)
open Argos.Vault (refuse_ok_iff Result.bind_ok_iff Result.check_ok_iff exists_unit_iff)

section Histories

variable (F : Formats)

/-- What a call that has ended has returned is in the tables. -/
def Done.Holds (d : Disk) : Done → Prop
  | .enqueue source kind (.ok item) => item.kind = kind ∧ ∃ bytes db, source = some bytes ∧
      item.sha256 = F.sha256 bytes ∧ d.db? = some db ∧ Knows db item
  | .bundle b (.ok job) => job.manifest = b.manifest ∧ ∃ db, d.db? = some db ∧ KnowsJob F db job
  | _ => True

/-- A call that is registering a bundle has checked its arguments and its copies. -/
structure Stage.Ok (stage : Stage) : Prop where
  limits : stage.bundle.limits.validate = .ok ()
  chunks : uniqueChunks F stage.bundle.manifest = .ok stage.bundle.chunks
  spool : ∀ spool, stage.spool = some spool → Spooled F stage.bundle.manifest spool

/-- What holds of a queue and its processes. -/
structure Sys.Ok (sys : Sys) : Prop where
  disk : Inv F sys.disk
  fresh : sys.disk.db? = none → sys.leases = [] ∧ sys.jobLeases = []
  known : ∀ db, sys.disk.db? = some db → Known F sys.leases sys.jobLeases db
  target : ∀ db, sys.disk.db? = some db → (db.target? F).isSome
  stages : ∀ stage ∈ sys.stages, stage.Ok F
  log : ∀ done ∈ sys.log, done.Holds F sys.disk

variable {F} {sys : Sys} {d d' : Disk}

theorem Sys.ok_initial : Sys.Ok F {} := by
  have hnone : ∀ db, ({} : Sys).disk.db? ≠ some db := fun db h => by cases h
  have hdisk : Inv F ({} : Sys).disk :=
    ⟨.inl rfl, fun db h => (hnone db h).elim, List.Pairwise.nil, fun db h => (hnone db h).elim,
      fun db h => (hnone db h).elim⟩
  exact ⟨hdisk, fun _ => ⟨rfl, rfl⟩, fun db h => (hnone db h).elim, fun db h => (hnone db h).elim,
    by simp, by simp⟩

theorem Done.Holds.kept {done : Done} (h : done.Holds F d) (hkept : Kept d d') :
    done.Holds F d' := by
  cases done with
  | enqueue source kind outcome =>
    cases outcome with
    | ok item =>
      obtain ⟨hkind, bytes, db, hsource, hhash, hdb, hknows⟩ := h
      obtain ⟨db', hdb', hkeeps⟩ := hkept db hdb
      exact ⟨hkind, bytes, db', hsource, hhash, hdb', hknows.kept hkeeps⟩
    | error e => trivial
    | killed => trivial
  | bundle b outcome =>
    cases outcome with
    | ok job =>
      obtain ⟨hmanifest, db, hdb, hknows⟩ := h
      obtain ⟨db', hdb', hkeeps⟩ := hkept db hdb
      exact ⟨hmanifest, db', hdb', hknows.kept hkeeps⟩
    | error e => trivial
    | killed => trivial
  | claim _ => trivial
  | finish _ _ _ => trivial
  | claimJob _ => trivial
  | finishJob _ _ _ => trivial

/-! ## One step -/

/-- The order in which a directory lists its files does not matter. -/
theorem lookup_perm {l l' : Objects} (hnodup : (l.map (·.1)).Nodup) (hperm : l'.Perm l)
    (name : EntryName) : l'.lookup name = l.lookup name := by
  have hmem : ∀ {l : Objects}, (l.map (·.1)).Nodup → ∀ file,
      l.lookup name = some file ↔ (name, file) ∈ l := by
    intro l hl file
    refine ⟨mem_of_lookup_eq_some, fun hin => ?_⟩
    induction l with
    | nil => cases hin
    | cons e rest ih =>
      rw [List.map_cons, List.nodup_cons] at hl
      rw [List.lookup_cons]
      rcases List.mem_cons.1 hin with rfl | hin
      · simp
      · have hne : (name == e.1) = false := beq_eq_false_iff_ne.2 fun heq =>
          hl.1 (heq ▸ List.mem_map.2 ⟨_, hin, rfl⟩)
        rw [hne]
        exact ih hl.2 hin
  have hnodup' : (l'.map (·.1)).Nodup := (hperm.map _).nodup_iff.2 hnodup
  refine Option.ext fun file => ?_
  rw [hmem hnodup', hmem hnodup, hperm.mem_iff]

theorem filed_reorder (hd : Inv F d) {files : Objects} (hperm : files.Perm d.files) :
    Filed d { d with objects := d.objects.map fun _ => files } := by
  have hfiles : ({ d with objects := d.objects.map fun _ => files } : Disk).files.Perm d.files := by
    cases hobjects : d.objects with
    | none => simp [Disk.files, hobjects]
    | some objects => simpa [Disk.files, hobjects] using hperm
  refine ⟨rfl, by simp, fun hnames => (hfiles.map _).nodup_iff.2 hnames, fun db hdb r hr => ?_⟩
  exact lookup_perm hd.names hfiles _

theorem BundleRequest.check_ok {request : BundleRequest} {b : Bundle}
    (h : request.check F = .ok b) :
    b.limits.validate = .ok () ∧ uniqueChunks F b.manifest = .ok b.chunks := by
  obtain ⟨hlimits, h⟩ := Result.check_ok_iff.1 h
  obtain ⟨target, -, h⟩ := Result.bind_ok_iff.1 h
  rcases hmanifest : request.manifest with _ | manifest
  · simp [hmanifest] at h
  simp only [hmanifest] at h
  obtain ⟨-, h⟩ := Result.check_ok_iff.1 h
  obtain ⟨chunks, hchunks, h⟩ := Result.bind_ok_iff.1 h
  obtain ⟨-, h⟩ := Result.check_ok_iff.1 h
  cases h
  exact ⟨hlimits, hchunks⟩

/-- The last part of `enqueue_bundle`, whichever it is. -/
theorem Stage.finish_sat {leases : List Lease} {jobLeases : List JobLease} (hF : F.ReadsBack)
    (hd : Inv F d) {stage : Stage} (hstage : stage.Ok F) (checked : Checked)
    (readings : BundleReadings) :
    (stage.finish F checked readings).Sat d
      (fun job d' => Placed F leases jobLeases stage.bundle d d' ∧ Returned F stage.bundle job d')
      (fun d' => Placed F leases jobLeases stage.bundle d d')
      (fun d' => Placed F leases jobLeases stage.bundle d d') := by
  rw [Stage.finish]
  rcases hspool : stage.spool with _ | spool
  · exact (confirmBundle_sat hd stage.bundle checked).mono (fun job d' h => ⟨.opened h.1, h.2⟩)
      (fun _ h => .opened h) (fun _ h => .opened h)
  · exact commitBundle_sat hF hd hstage.limits hstage.chunks (hstage.spool spool hspool) checked
      readings

/-- The target of a queue can be read. -/
theorem Did.target {leases : List Lease} {jobLeases : List JobLease} (hF : F.ReadsBack)
    (hd : Inv F d) (htarget : ∀ db, d.db? = some db → (db.target? F).isSome)
    (hfresh : d.db? = none → leases = [] ∧ jobLeases = [])
    (hknown : ∀ db, d.db? = some db → Known F leases jobLeases db)
    (h : Did F leases jobLeases d d') : ∀ db, d'.db? = some db → (db.target? F).isSome := by
  have hopened : ∀ {creating : Option (QueueTarget × QueueLimits)} {d₁ : Disk},
      Opened F creating d d₁ → ∀ db, d₁.db? = some db → (db.target? F).isSome := by
    intro creating d₁ hopened db hdb
    rcases hopened with hopened | hopened
    · exact htarget db (hopened.db?.symm.trans hdb)
    · rw [Disk.db?_eq_some] at hdb
      rcases hopened.stored with hs | hs | ⟨target, limits, -, -, hs⟩
      · rw [hs] at hdb
        cases hdb
      · rw [hs] at hdb
        cases hdb
      · rw [hs] at hdb
        cases hdb
        rw [Database.target?, Database.initial, hF.target target]
        rfl
  cases h with
  | files ho hfiled => exact fun db hdb => hopened ho db (hfiled.db?.symm.trans hdb)
  | change ho hcommitted =>
    intro db hdb
    obtain ⟨-, hdb', hkeeps⟩ := hcommitted.kept hF (ho.inv hd) (ho.known hfresh hknown)
    rw [hdb', Option.some.injEq] at hdb
    rw [← hdb, hkeeps.target?]
    exact hopened ho _ hcommitted.db?

/-- A step that does to the directory what a call may do, and remembers only what is true. -/
theorem Sys.Ok.update (hF : F.ReadsBack) (h : sys.Ok F)
    (hdid : Did F sys.leases sys.jobLeases sys.disk d') {leases : List Lease}
    {jobLeases : List JobLease} {stages : List Stage} {log : List Done}
    (hleases : ∀ l ∈ leases, l ∈ sys.leases ∨ ∃ db, d'.db? = some db ∧ Knows db l.item)
    (hjobLeases : ∀ l ∈ jobLeases, l ∈ sys.jobLeases ∨ ∃ db, d'.db? = some db ∧ KnowsJob F db l.job)
    (hstages : ∀ stage ∈ stages, stage.Ok F)
    (hlog : ∀ done ∈ log, done ∈ sys.log ∨ done.Holds F d') :
    Sys.Ok F ⟨d', leases, jobLeases, stages, log⟩ := by
  obtain ⟨hinv, hkept⟩ := hdid.inv hF h.disk h.fresh h.known
  -- A lease that was given out before is for an item of the tables, which is still there.
  have hold : ∀ l ∈ sys.leases, ∃ db, d'.db? = some db ∧ Knows db l.item := by
    intro l hl
    rcases hdb : sys.disk.db? with _ | db
    · rw [(h.fresh hdb).1] at hl
      cases hl
    · obtain ⟨db', hdb', hkeeps⟩ := hkept db hdb
      exact ⟨db', hdb', ((h.known db hdb).items l hl).kept hkeeps⟩
  have holdJob : ∀ l ∈ sys.jobLeases, ∃ db, d'.db? = some db ∧ KnowsJob F db l.job := by
    intro l hl
    rcases hdb : sys.disk.db? with _ | db
    · rw [(h.fresh hdb).2] at hl
      cases hl
    · obtain ⟨db', hdb', hkeeps⟩ := hkept db hdb
      exact ⟨db', hdb', ((h.known db hdb).jobs l hl).kept hkeeps⟩
  have hall : ∀ l ∈ leases, ∃ db, d'.db? = some db ∧ Knows db l.item := fun l hl =>
    (hleases l hl).elim (hold l) id
  have hallJob : ∀ l ∈ jobLeases, ∃ db, d'.db? = some db ∧ KnowsJob F db l.job := fun l hl =>
    (hjobLeases l hl).elim (holdJob l) id
  refine ⟨hinv, fun hnone => ⟨?_, ?_⟩, fun db hdb => ⟨fun l hl => ?_, fun l hl => ?_⟩,
    hdid.target hF h.disk h.target h.fresh h.known, hstages, fun done hdone => ?_⟩
  · refine List.eq_nil_iff_forall_not_mem.2 fun l hl => ?_
    obtain ⟨db, hdb, -⟩ := hall l hl
    exact Option.some_ne_none _ (hdb.symm.trans hnone)
  · refine List.eq_nil_iff_forall_not_mem.2 fun l hl => ?_
    obtain ⟨db, hdb, -⟩ := hallJob l hl
    exact Option.some_ne_none _ (hdb.symm.trans hnone)
  · obtain ⟨db', hdb', hknows⟩ := hall l hl
    exact Option.some.inj (hdb'.symm.trans hdb) ▸ hknows
  · obtain ⟨db', hdb', hknows⟩ := hallJob l hl
    exact Option.some.inj (hdb'.symm.trans hdb) ▸ hknows
  · exact (hlog done hdone).elim (fun hdone => (h.log done hdone).kept hkept) id

theorem forall_log {log : List Done} {entry : Done} (h : entry.Holds F d) :
    ∀ done ∈ log ++ [entry], done ∈ log ∨ done.Holds F d := by
  intro done hdone
  rcases List.mem_append.1 hdone with hdone | hdone
  · exact .inl hdone
  · exact .inr (List.mem_singleton.1 hdone ▸ h)

/-- A call of `enqueue_bundle` ends. -/
theorem Sys.Ok.ended (hF : F.ReadsBack) (h : sys.Ok F) {i : Nat} {b : Bundle}
    {outcome : Outcome Error BundleJob} (hdid : Did F sys.leases sys.jobLeases sys.disk d')
    (hout : ∀ job, outcome = .ok job → Returned F b job d') :
    (sys.ended i d' b outcome).Ok F := by
  refine h.update hF hdid (fun l hl => .inl hl) (fun l hl => .inl hl)
    (fun stage hstage => h.stages stage (List.mem_of_mem_eraseIdx hstage)) (forall_log ?_)
  cases outcome with
  | ok job =>
    obtain ⟨db, hdb, hload, hmanifest, -⟩ := hout job rfl
    exact ⟨hmanifest, db, hdb, knowsJob_of_load hload⟩
  | error e => trivial
  | killed => trivial

/-- One step of a run does to the directory what a call may do, and everything stays in order. -/
theorem Sys.Ok.next (hF : F.ReadsBack) (h : sys.Ok F) (event : Event) (plan : Plan) :
    (sys.next F event plan).Ok F ∧
      Did F sys.leases sys.jobLeases sys.disk (sys.next F event plan).disk := by
  have hsame : Did F sys.leases sys.jobLeases sys.disk sys.disk := .refl _
  cases event with
  | enqueue config source kind limits readings =>
    rw [Sys.next]
    rcases hrun : enqueue F config source kind limits readings plan sys.disk with ⟨o, rest, d'⟩
    have hsat := (@enqueue_sat F sys.leases sys.jobLeases _ h.disk config source kind limits
      readings).run hrun
    have hend : Did F sys.leases sys.jobLeases sys.disk d' ∧
        (Done.enqueue source kind o).Holds F d' := by
      cases o with
      | ok item => exact hsat
      | error e => exact ⟨hsat, trivial⟩
      | killed => exact ⟨hsat, trivial⟩
    exact ⟨h.update hF hend.1 (fun l hl => .inl hl) (fun l hl => .inl hl) h.stages
      (forall_log hend.2), hend.1⟩
  | claim target timeoutSecs now clock token =>
    rw [Sys.next]
    rcases hrun : claim F target timeoutSecs now clock token plan sys.disk with ⟨o, rest, d'⟩
    have hsat := (@claim_sat F sys.leases sys.jobLeases _ h.disk target timeoutSecs now clock
      token).run hrun
    have hend : Did F sys.leases sys.jobLeases sys.disk d' ∧ ∀ l, o = .ok (some l) →
        ∃ db, d'.db? = some db ∧ Knows db l.item := by
      cases o with
      | ok lease => exact ⟨hsat.1, fun l hl => hsat.2 l (Outcome.ok.inj hl)⟩
      | error e => exact ⟨hsat, fun l hl => (by cases hl)⟩
      | killed => exact ⟨hsat, fun l hl => (by cases hl)⟩
    refine ⟨h.update hF hend.1 (fun l hl => ?_) (fun l hl => .inl hl) h.stages
      (forall_log trivial), hend.1⟩
    split at hl
    · next lease =>
      rcases List.mem_append.1 hl with hl | hl
      · exact .inl hl
      · exact .inr (hend.2 l (by rw [List.mem_singleton.1 hl]))
    · exact .inl hl
  | finish i target result now clock =>
    rw [Sys.next]
    rcases hlease : sys.leases[i]? with _ | lease
    · exact ⟨h, hsame⟩
    dsimp only
    rcases hrun : finish F target lease result now clock plan sys.disk with ⟨o, rest, d'⟩
    have hsat := (@finish_sat F sys.leases sys.jobLeases _ h.disk target lease
      (List.mem_of_getElem? hlease) result now clock).run hrun
    have hend : Did F sys.leases sys.jobLeases sys.disk d' := by cases o <;> exact hsat
    exact ⟨h.update hF hend (fun l hl => .inl hl) (fun l hl => .inl hl) h.stages
      (forall_log trivial), hend⟩
  | claimJob target timeoutSecs now clock token =>
    rw [Sys.next]
    rcases hrun : claimJob F target timeoutSecs now clock token plan sys.disk with ⟨o, rest, d'⟩
    have hsat := (@claimJob_sat F sys.leases sys.jobLeases _ h.disk target timeoutSecs now clock
      token).run hrun
    have hend : Did F sys.leases sys.jobLeases sys.disk d' ∧ ∀ l, o = .ok (some l) →
        ∃ db, d'.db? = some db ∧ KnowsJob F db l.job := by
      cases o with
      | ok lease => exact ⟨hsat.1, fun l hl => hsat.2 l (Outcome.ok.inj hl)⟩
      | error e => exact ⟨hsat, fun l hl => (by cases hl)⟩
      | killed => exact ⟨hsat, fun l hl => (by cases hl)⟩
    refine ⟨h.update hF hend.1 (fun l hl => .inl hl) (fun l hl => ?_) h.stages
      (forall_log trivial), hend.1⟩
    split at hl
    · next lease =>
      rcases List.mem_append.1 hl with hl | hl
      · exact .inl hl
      · exact .inr (hend.2 l (by rw [List.mem_singleton.1 hl]))
    · exact .inl hl
  | finishJob i target result now clock =>
    rw [Sys.next]
    rcases hlease : sys.jobLeases[i]? with _ | lease
    · exact ⟨h, hsame⟩
    dsimp only
    rcases hrun : finishJob F target lease result now clock plan sys.disk with ⟨o, rest, d'⟩
    have hsat := (@finishJob_sat F sys.leases sys.jobLeases _ h.disk target lease
      (List.mem_of_getElem? hlease) result now clock).run hrun
    have hend : Did F sys.leases sys.jobLeases sys.disk d' := by cases o <;> exact hsat
    exact ⟨h.update hF hend (fun l hl => .inl hl) (fun l hl => .inl hl) h.stages
      (forall_log trivial), hend⟩
  | beginBundle request draw =>
    rw [Sys.next]
    rcases hcheck : request.check F with e | b
    · exact ⟨h, hsame⟩
    dsimp only
    obtain ⟨hlimits, hchunks⟩ := BundleRequest.check_ok hcheck
    rcases hrun : beginBundle F b draw plan sys.disk with ⟨o, rest, d'⟩
    have hsat := (beginBundle_sat h.disk b draw).run hrun
    have hend : Did F sys.leases sys.jobLeases sys.disk d' := by cases o <;> exact .opened hsat
    have hfailed : ∀ o : Outcome Error BundleJob, (∀ job, o ≠ .ok job) →
        ({ sys with disk := d', log := sys.log ++ [.bundle b o] } : Sys).Ok F := by
      intro o ho
      refine h.update hF hend (fun l hl => .inl hl) (fun l hl => .inl hl) h.stages (forall_log ?_)
      cases o with
      | ok job => exact (ho job rfl).elim
      | error e => trivial
      | killed => trivial
    have hstage : ∀ stage : Stage, stage.Ok F →
        ({ sys with disk := d', stages := sys.stages ++ [stage] } : Sys).Ok F := by
      intro stage hs
      refine h.update hF hend (fun l hl => .inl hl) (fun l hl => .inl hl) (fun st hst => ?_)
        (fun done hdone => .inl hdone)
      rcases List.mem_append.1 hst with hst | hst
      · exact h.stages st hst
      · rw [List.mem_singleton.1 hst]
        exact hs
    cases o with
    | error e => exact ⟨hfailed _ (fun job hj => by cases hj), hend⟩
    | killed => exact ⟨hfailed _ (fun job hj => by cases hj), hend⟩
    | ok registered =>
      show (sys.begun F request b registered d').Ok F ∧
        Did F sys.leases sys.jobLeases sys.disk (sys.begun F request b registered d').disk
      rw [Sys.begun]
      split
      · exact ⟨hstage _ ⟨hlimits, hchunks, fun spool hs => (by cases hs)⟩, hend⟩
      · split
        · exact ⟨hfailed _ (fun job hj => by cases hj), hend⟩
        · next spool hspool =>
          refine ⟨hstage _ ⟨hlimits, hchunks, fun s hs => ?_⟩, hend⟩
          cases hs
          exact spoolBundle_ok hspool
  | proceed i readings =>
    rw [Sys.next]
    rcases hstage : sys.stages[i]? with _ | stage
    · exact ⟨h, hsame⟩
    have hok := h.stages stage (List.mem_of_getElem? hstage)
    dsimp only
    split
    · next next _ =>
      refine ⟨h.update hF hsame (fun l hl => .inl hl) (fun l hl => .inl hl) (fun st hst => ?_)
        (fun done hdone => .inl hdone), hsame⟩
      rcases List.mem_or_eq_of_mem_set hst with hst | rfl
      · exact h.stages st hst
      · exact ⟨hok.limits, hok.chunks, hok.spool⟩
    · exact ⟨h.ended hF hsame (fun job hj => by cases hj), hsame⟩
    · next checked _ =>
      rcases hrun : stage.finish F checked readings plan sys.disk with ⟨o, rest, d'⟩
      have hsat := (@Stage.finish_sat F _ sys.leases sys.jobLeases hF h.disk stage hok checked
        readings).run hrun
      have hend : Did F sys.leases sys.jobLeases sys.disk d' ∧
          ∀ job, o = .ok job → Returned F stage.bundle job d' := by
        cases o with
        | ok job => exact ⟨hsat.1.did, fun job hj => Outcome.ok.inj hj ▸ hsat.2⟩
        | error e => exact ⟨hsat.did, fun job hj => (by cases hj)⟩
        | killed => exact ⟨hsat.did, fun job hj => (by cases hj)⟩
      exact ⟨h.ended hF hend.1 hend.2, hend.1⟩
  | abort i error =>
    rw [Sys.next]
    rcases hstage : sys.stages[i]? with _ | stage
    · exact ⟨h, hsame⟩
    · refine ⟨h.ended hF hsame (fun job hj => ?_), hsame⟩
      cases error <;> cases hj
  | reorder files =>
    rw [Sys.next]
    split
    · next hperm =>
      have hdid : Did F sys.leases sys.jobLeases sys.disk
          { sys.disk with objects := sys.disk.objects.map fun _ => files } :=
        .files (show Opened F none sys.disk sys.disk from .inl (.refl _))
          (filed_reorder h.disk (List.isPerm_iff.1 hperm))
      exact ⟨h.update hF hdid (fun l hl => .inl hl) (fun l hl => .inl hl) h.stages
        (fun done hdone => .inl hdone), hdid⟩
    · exact ⟨h, hsame⟩

/-! ## Runs -/

theorem Sys.kept_next (hF : F.ReadsBack) (h : sys.Ok F) (event : Event) (plan : Plan) :
    Kept sys.disk (sys.next F event plan).disk :=
  ((h.next hF event plan).2.inv hF h.disk h.fresh h.known).2

/-- Every run keeps everything in order. -/
theorem Sys.Ok.play (hF : F.ReadsBack) (h : sys.Ok F) (script : List (Event × Plan)) :
    (sys.play F script).Ok F :=
  Sys.play_induction h (fun _ event plan hsys => (hsys.next hF event plan).1) script

/-- Every run loses nothing. -/
theorem Sys.kept_play (hF : F.ReadsBack) (h : sys.Ok F) (script : List (Event × Plan)) :
    Kept sys.disk (sys.play F script).disk := by
  induction script generalizing sys with
  | nil => exact .refl _
  | cons step rest ih =>
    exact (Sys.kept_next hF h step.1 step.2).trans (ih (h.next hF step.1 step.2).1)

/-- The state after every run from an empty directory. -/
theorem ok_play (hF : F.ReadsBack) (script : List (Event × Plan)) :
    (({} : Sys).play F script).Ok F := Sys.ok_initial.play hF script

theorem kept_play (hF : F.ReadsBack) (script script' : List (Event × Plan)) :
    Kept (({} : Sys).play F script).disk (({} : Sys).play F (script ++ script')).disk := by
  rw [Sys.play_append]
  exact Sys.kept_play hF (ok_play hF script) script'

/-! ## No item is lost or duplicated -/

/-- A row for an object. -/
def ItemRow.isFor (kind hash : String) (r : ItemRow) : Bool := r.kind == kind && r.sha256 == hash

/-- The object is in the queue once: as an active item with its snapshot, or archived with its
receipt. -/
def Safe (F : Formats) (d : Disk) (db : Database) (id kind hash : String) : Prop :=
  (db.items ++ db.archive).countP (·.isFor kind hash) = 1 ∧
    ((∃ r ∈ db.items, r.isFor kind hash ∧ r.id = id ∧ r.state = .pending ∧
        Backed F d r.toItemColumns) ∨
      ∃ a ∈ db.archive, a.isFor kind hash ∧ a.id = id ∧
        ∃ target, db.target? F = some target ∧ Receipted F target a.toItemColumns)

/-- In a list without two rows of one object, a row of it is the only one. -/
theorem countP_isFor {rows : List ItemRow}
    (hnodup : (rows.map fun r => (r.kind, r.sha256)).Nodup) {r : ItemRow} (hr : r ∈ rows) :
    rows.countP (·.isFor r.kind r.sha256) = 1 := by
  have hcount : rows.countP (·.isFor r.kind r.sha256) =
      (rows.map fun r => (r.kind, r.sha256)).count (r.kind, r.sha256) := by
    rw [List.count, List.countP_map]
    refine List.countP_congr fun q _ => ?_
    simp [ItemRow.isFor]
  rw [hcount]
  exact List.count_eq_one_of_mem hnodup (List.mem_map.2 ⟨r, hr, rfl⟩)

theorem safe_of_knows {db : Database} (hd : Inv F d) (hdb : d.db? = some db)
    (htarget : (db.target? F).isSome) {item : QueueItem} (h : Knows db item) :
    Safe F d db item.id item.kind item.sha256 := by
  obtain ⟨r, hr, hid, hkind, hhash, -⟩ := h
  have hsound := hd.sound db hdb
  have hfor : r.isFor item.kind item.sha256 := by simp [ItemRow.isFor, hkind, hhash]
  have hcount := countP_isFor hsound.objects hr
  rw [hkind, hhash] at hcount
  refine ⟨hcount, ?_⟩
  rcases List.mem_append.1 hr with hr | hr
  · exact .inl ⟨r, hr, hfor, hid, (hsound.active r hr).1, hd.backed db hdb r hr⟩
  · obtain ⟨target, ht⟩ := Option.isSome_iff_exists.1 htarget
    exact .inr ⟨r, hr, hfor, hid, target, ht, hsound.archived r hr target ht⟩

/-- An object whose `enqueue` has succeeded is in the queue exactly once at every later moment, under
the identifier that was returned, and it stays in the archive once it is there. -/
theorem enqueued_never_lost (hF : F.ReadsBack) (script script' : List (Event × Plan))
    (source : Option Bytes) (kind : String) (item : QueueItem)
    (hdone : .enqueue source kind (.ok item) ∈ (({} : Sys).play F script).log) :
    ∃ bytes db, source = some bytes ∧
      (({} : Sys).play F (script ++ script')).disk.db? = some db ∧
      Safe F (({} : Sys).play F (script ++ script')).disk db item.id kind (F.sha256 bytes) ∧
      ∀ script'', ∃ db', (({} : Sys).play F (script ++ script' ++ script'')).disk.db? = some db' ∧
        db.archive <+: db'.archive := by
  have hok := ok_play hF (script ++ script')
  obtain ⟨hkind, bytes, db, hsource, hhash, hdb, hknows⟩ :=
    ((ok_play hF script).log _ hdone).kept (kept_play hF script script')
  refine ⟨bytes, db, hsource, hdb, ?_, fun script'' => ?_⟩
  · rw [← hkind, ← hhash]
    exact safe_of_knows hok.disk hdb (hok.target db hdb) hknows
  · obtain ⟨db', hdb', hkeeps⟩ := kept_play hF (script ++ script') script'' db hdb
    exact ⟨db', hdb', hkeeps.archive⟩

/-- An object is enqueued and then sent. -/
theorem sent_never_lost : ∃ item db,
    Done.enqueue (some sampleBody) "evidence" (.ok item) ∈
      (({} : Sys).play sampleFormats [sampleEnqueue "evidence" sampleBody 1]).log ∧
    (({} : Sys).play sampleFormats ([sampleEnqueue "evidence" sampleBody 1] ++
      sampleSend 0 "evidence" sampleBody 10)).disk.db? = some db ∧ db.archive.length = 1 ∧
    Safe sampleFormats (({} : Sys).play sampleFormats ([sampleEnqueue "evidence" sampleBody 1] ++
      sampleSend 0 "evidence" sampleBody 10)).disk db item.id "evidence"
        (sampleFormats.sha256 sampleBody) := by
  have hok : (enqueue sampleFormats sampleConfig (some sampleBody) "evidence" sampleLimits
      ⟨some (sampleId 1), 1, 1, 1, 1⟩ [] {}).1.isOk = true := by decide +kernel
  have hsent : (({} : Sys).play sampleFormats ([sampleEnqueue "evidence" sampleBody 1] ++
      sampleSend 0 "evidence" sampleBody 10)).disk.db?.any (·.archive.length == 1) = true := by
    decide +kernel
  obtain ⟨item, hitem⟩ := Outcome.isOk_iff.1 hok
  have hdone : Done.enqueue (some sampleBody) "evidence" (.ok item) ∈
      (({} : Sys).play sampleFormats [sampleEnqueue "evidence" sampleBody 1]).log := by
    rw [← hitem]
    exact List.mem_singleton.2 rfl
  obtain ⟨bytes, db, hsource, hdb, hsafe, -⟩ := enqueued_never_lost sampleFormats_readsBack _
    (sampleSend 0 "evidence" sampleBody 10) _ _ item hdone
  cases hsource
  rw [hdb] at hsent
  exact ⟨item, db, hdone, hdb, by simpa using hsent, hsafe⟩

/-! ## Jobs complete only on evidence -/

/-- The job has, for every chunk of its manifest, an archived item of kind backup whose receipt is
accepted. -/
def Evident (F : Formats) (db : Database) (target : QueueTarget) (j : JobRow) : Prop :=
  ∃ manifest, F.manifest.decode j.manifestJson = some manifest ∧ ∀ c ∈ manifest.chunks,
    ∃ a ∈ db.archive, a.kind = "backup" ∧ a.sha256 = c.sha256 ∧ a.sizeBytes = c.sizeBytes ∧
      Receipted F target a.toItemColumns

/-- In every state that a run reaches, a job that was leased or has gone on has its evidence, a
complete job has its proofs, and it is never changed again. -/
theorem jobs_complete_on_evidence (hF : F.ReadsBack) (script : List (Event × Plan)) (db : Database)
    (hdb : (({} : Sys).play F script).disk.db? = some db) :
    ∃ target, db.target? F = some target ∧ ∀ j ∈ db.jobs,
      (0 < j.attempts ∨ j.phase = .complete ∨ j.phase = .done → Evident F db target j) ∧
      (j.state = .complete → Proven F target j ∧ ∀ script', ∃ db',
        (({} : Sys).play F (script ++ script')).disk.db? = some db' ∧ j ∈ db'.jobs) := by
  have hok := ok_play hF script
  have hsound := hok.disk.sound db hdb
  obtain ⟨target, htarget⟩ := Option.isSome_iff_exists.1 (hok.target db hdb)
  refine ⟨target, htarget, fun j hj => ⟨fun hleased => ?_, fun hcomplete => ⟨?_, fun script' => ?_⟩⟩⟩
  · have hattempts : 0 < j.attempts := by
      rcases hleased with h | h | h
      · exact h
      · exact (hsound.jobs j hj).phase (by rw [h]; exact fun h => by cases h)
      · exact (hsound.jobs j hj).phase (by rw [h]; exact fun h => by cases h)
    obtain ⟨manifest, hdecode, hchunks⟩ := (hsound.jobs j hj).evidence hattempts
    refine ⟨manifest, hdecode, fun c hc => ?_⟩
    obtain ⟨a, ha, hkind, hhash, hsize⟩ := hchunks c hc
    exact ⟨a, ha, hkind, hhash, hsize, hsound.archived a ha target htarget⟩
  · exact (hsound.jobs j hj).proven hcomplete target htarget
  · obtain ⟨db', hdb', hkeeps⟩ := kept_play hF script script' db hdb
    obtain ⟨j', hj', hkept⟩ := hkeeps.jobs j hj
    rw [hkept.complete hcomplete] at hj'
    exact ⟨db', hdb', hj'⟩

/-- A bundle is enqueued, its chunk is sent and its job completed. -/
def sampleCompleted : List (Event × Plan) :=
  sampleBundle 3 ++ sampleSend 0 "backup" sampleBody 10 ++ sampleComplete 20

theorem sampleCompleted_evident : ∃ db target j,
    (({} : Sys).play sampleFormats sampleCompleted).disk.db? = some db ∧ j ∈ db.jobs ∧
    j.state = .complete ∧ Evident sampleFormats db target j ∧ Proven sampleFormats target j := by
  have heval : (({} : Sys).play sampleFormats sampleCompleted).disk.db?.any (fun db =>
      db.jobs.any fun j => j.state == .complete && j.phase == .done) = true := by decide +kernel
  obtain ⟨db, hdb, hany⟩ := (Option.any_eq_true _ _).1 heval
  obtain ⟨j, hj, hstate⟩ := List.any_eq_true.1 hany
  simp only [Bool.and_eq_true, beq_iff_eq] at hstate
  obtain ⟨target, -, hall⟩ :=
    jobs_complete_on_evidence sampleFormats_readsBack sampleCompleted db hdb
  obtain ⟨hevident, hproven⟩ := hall j hj
  exact ⟨db, target, j, hdb, hj, hstate.1, hevident (.inr (.inr hstate.2)), (hproven hstate.1).1⟩

end Histories

end Argos.Queue
