import Argos.Queue.Fencing

/-!
# Bundles, as a whole or not at all

A call of `enqueue_bundle` reads and checks without the lock, between the steps of other processes,
and takes the lock only at its beginning and at its end. Its end is one transaction. Here it is said
of every run what that transaction leaves, whatever happened in between and whatever the call
returned: the tables as they were found, or all of the bundle. A manifest that was registered once
is the only one that its identifier ever has.
-/

namespace Argos.Queue

open Argos.Lib
open Argos.Vault (Bytes Error sampleManifest)

section Bundles

variable (F : Formats)

/-- The tables are as they were, or those of a new queue. -/
def Untouched (d d' : Disk) : Prop :=
  d'.db? = d.db? ∨ d.db? = none ∧ ∃ target limits, d'.db? = some (.initial F target limits)

/-- The bundle is in the tables with its job, its references and its items, within the limits of the
call, and nothing was lost for it. -/
def Whole (b : Bundle) (d d' : Disk) : Prop :=
  ∃ db', d'.db? = some db' ∧ db'.queueMeta.limits = b.limits ∧ Within db' ∧
    Registered F d' db' b.manifest ∧ ∀ db, d.db? = some db → Keeps db db'

variable {F} {sys : Sys} {d d' : Disk} {b : Bundle}

theorem Opened.untouched {creating : Option (QueueTarget × QueueLimits)}
    (h : Opened F creating d d') : Untouched F d d' := by
  rcases h with h | h
  · exact .inl h.db?
  have hnone := Disk.fresh_db? h.fresh
  rcases h.stored with hs | hs | ⟨target, limits, -, -, hs⟩
  · left
    rw [hnone, Disk.db?, hs]
  · left
    rw [hnone, Disk.db?, hs]
  · exact .inr ⟨hnone, target, limits, Disk.db?_eq_some.2 hs⟩

/-- What the last part of the call leaves. -/
theorem Placed.whole_or_untouched (hF : F.ReadsBack) (hok : sys.Ok F)
    (h : Placed F sys.leases sys.jobLeases b sys.disk d') :
    Untouched F sys.disk d' ∨ Whole F b sys.disk d' := by
  cases h with
  | nothing hopened hfiled =>
    left
    have huntouched := hopened.untouched
    rw [Untouched, hfiled.db?]
    exact huntouched
  | whole hopened hcommitted hlimits hwithin hregistered =>
    obtain ⟨-, hdb', hkeeps⟩ := hcommitted.kept hF (hopened.inv hok.disk)
      (hopened.known hok.fresh hok.known)
    refine .inr ⟨_, hdb', hlimits, hwithin, hregistered, fun db hdb => ?_⟩
    rcases hopened with htidied | hfounded
    · have hsame := (htidied.db?.trans hdb).symm.trans hcommitted.db?
      rw [Option.some.inj hsame]
      exact hkeeps
    · rw [Disk.fresh_db? hfounded.fresh] at hdb
      cases hdb

/-- Where a call of `enqueue_bundle` ends: in its last part, or before it with the tables untouched.
-/
theorem Sys.Returns.bundle {event : Event} {plan : Plan} {outcome : Outcome Error BundleJob}
    (hok : sys.Ok F) (h : sys.Returns F event plan (.bundle b outcome)) :
    (Untouched F sys.disk (sys.next F event plan).disk ∧ ∀ job, outcome ≠ .ok job) ∨
      ∃ stage ∈ sys.stages, stage.bundle = b ∧ ∃ checked readings rest,
        stage.finish F checked readings plan sys.disk =
          (outcome, rest, (sys.next F event plan).disk) := by
  have hcall := h.done
  have hlog := h
  rw [Sys.Returns] at hlog
  cases event with
  | beginBundle request draw =>
    left
    rw [Sys.next] at hlog ⊢
    rcases hcheck : request.check F with e | b₀
    · rw [hcheck] at hlog
      simp at hlog
    rw [hcheck] at hlog
    dsimp only at hlog ⊢
    rcases hrun : beginBundle F b₀ draw plan sys.disk with ⟨o, rest, d'⟩
    have huntouched : Untouched F sys.disk d' := (ends_of_sat (beginBundle_sat hok.disk b₀ draw)
      (fun _ _ h => h) hrun).untouched
    rw [hrun] at hlog
    cases o with
    | error e =>
      cases log_ended hlog
      exact ⟨huntouched, fun job hjob => by cases hjob⟩
    | killed =>
      cases log_ended hlog
      exact ⟨huntouched, fun job hjob => by cases hjob⟩
    | ok registered =>
      have hdisk : (sys.begun F request b₀ registered d').disk = d' := by
        rw [Sys.begun]
        split
        · rfl
        · split <;> rfl
      dsimp only at hlog ⊢
      rw [hdisk]
      refine ⟨huntouched, fun job hjob => ?_⟩
      rw [Sys.begun] at hlog
      split at hlog
      · simp at hlog
      · split at hlog
        · cases log_ended hlog
          cases hjob
        · simp at hlog
  | proceed i readings =>
    rw [Sys.next] at hlog
    rcases hstage : sys.stages[i]? with _ | stage
    · rw [hstage] at hlog
      simp at hlog
    have hmem := List.mem_of_getElem? hstage
    rw [hstage] at hlog
    dsimp only at hlog
    split at hlog
    · simp at hlog
    · next e htask =>
      left
      cases log_ended hlog
      refine ⟨.inl ?_, fun job hjob => by cases hjob⟩
      simp only [Sys.next, hstage, htask]
      rfl
    · next checked htask =>
      right
      rcases hrun : stage.finish F checked readings plan sys.disk with ⟨o, rest, d'⟩
      simp only [hrun] at hlog
      cases log_ended hlog
      refine ⟨stage, hmem, rfl, checked, readings, rest, ?_⟩
      rw [hrun]
      simp only [Sys.next, hstage, htask, hrun]
      rfl
  | abort i error =>
    left
    rw [Sys.next] at hlog
    rcases hstage : sys.stages[i]? with _ | stage
    · rw [hstage] at hlog
      simp at hlog
    rw [hstage] at hlog
    cases log_ended hlog
    refine ⟨.inl ?_, fun job hjob => ?_⟩
    · simp only [Sys.next, hstage]
      rfl
    · cases error <;> cases hjob
  | _ => exact hcall.elim

/-- A step that ends a call of `enqueue_bundle` leaves the tables untouched or the whole bundle in
them; if it returns a job, the whole bundle is there with that job. -/
theorem Sys.Ok.bundle_step (hF : F.ReadsBack) (hok : sys.Ok F) {event : Event} {plan : Plan}
    {outcome : Outcome Error BundleJob} (h : sys.Returns F event plan (.bundle b outcome)) :
    (Untouched F sys.disk (sys.next F event plan).disk ∨
      Whole F b sys.disk (sys.next F event plan).disk) ∧
    ∀ job, outcome = .ok job → Returned F b job (sys.next F event plan).disk := by
  rcases h.bundle hok with ⟨huntouched, hnone⟩ | ⟨stage, hmem, rfl, checked, readings, rest, hrun⟩
  · exact ⟨.inl huntouched, fun job hjob => (hnone job hjob).elim⟩
  have hsat : (stage.finish F checked readings).Sat sys.disk
      (fun job d' => Placed F sys.leases sys.jobLeases stage.bundle sys.disk d' ∧
        Returned F stage.bundle job d')
      (fun d' => Placed F sys.leases sys.jobLeases stage.bundle sys.disk d')
      (fun d' => Placed F sys.leases sys.jobLeases stage.bundle sys.disk d') :=
    Stage.finish_sat hF hok.disk (hok.stages stage hmem) checked readings
  refine ⟨Placed.whole_or_untouched hF hok (ends_of_sat hsat (fun _ _ h => h.1) hrun),
    fun job hjob => ?_⟩
  rw [hjob] at hrun
  exact (hsat.run hrun).2

/-- A manifest that was returned once stays the one of its identifier. -/
theorem Returned.same (hd' : Inv F d') {b' : Bundle} {job job' : BundleJob}
    (h : Returned F b job d) (h' : Returned F b' job' d') (hkept : Kept d d')
    (hid : b'.manifest.bundleId = b.manifest.bundleId) : b'.manifest = b.manifest := by
  obtain ⟨db, hdb, hload, hmanifest, -⟩ := h
  obtain ⟨db', hdb', hload', hmanifest', -⟩ := h'
  obtain ⟨db₁, hdb₁, hkeeps⟩ := hkept db hdb
  obtain rfl : db₁ = db' := Option.some.inj (hdb₁.symm.trans hdb')
  have hknows := (knowsJob_of_load hload).kept hkeeps
  obtain ⟨j, hj, hjid, hdecode⟩ := knowsJob_of_load hload'
  have hsame : j.bundleId = job.bundleId := by
    rw [hjid, load_bundleId hload', load_bundleId hload, hid]
  have hdecode' := hknows.row (hd'.sound _ hdb') hj hsame
  rw [hdecode, hmanifest, hmanifest'] at hdecode'
  exact Option.some.inj hdecode'

/-- However a call of `enqueue_bundle` ends, in any run, its last step leaves the tables as they
were or all of the bundle in them. If it returns a job, all of the bundle is there, and no later
call ever returns a job for another manifest with the same identifier. -/
theorem bundles_all_or_nothing (hF : F.ReadsBack) {sys : Sys} (hsys : Reached F sys) {event : Event}
    {plan : Plan} {b : Bundle} {outcome : Outcome Error BundleJob}
    (hdone : sys.Returns F event plan (.bundle b outcome)) :
    (Untouched F sys.disk (sys.next F event plan).disk ∨
      Whole F b sys.disk (sys.next F event plan).disk) ∧
    ∀ job, outcome = .ok job → Returned F b job (sys.next F event plan).disk ∧
      ∀ mid event' plan' b' job', ((sys.next F event plan).play F mid).Returns F event' plan'
        (.bundle b' (.ok job')) → b'.manifest.bundleId = b.manifest.bundleId →
          b'.manifest = b.manifest := by
  obtain ⟨script, rfl⟩ := hsys
  have hok := ok_play hF script
  have hok₁ := (hok.next hF event plan).1
  obtain ⟨hleft, hreturned⟩ := hok.bundle_step hF hdone
  refine ⟨hleft, fun job hjob => ⟨hreturned job hjob, fun mid event' plan' b' job' hdone' hid => ?_⟩⟩
  have hok₂ := hok₁.play hF mid
  have hreturned' := (hok₂.bundle_step hF hdone').2 job' rfl
  refine (hreturned job hjob).same (hok₂.next hF event' plan').1.disk hreturned' ?_ hid
  exact (Sys.kept_play hF hok₁ mid).trans (Sys.kept_next hF hok₂ event' plan')

/-- The bundle of the sample before its last step, and that step. -/
def sampleUnregistered : List (Event × Plan) := sampleBundle 2

def sampleRegister : Event := .proceed 0 ⟨2, fun _ => some (sampleId (sampleDigit 5)), fun _ => 7⟩

/-- The only call that has ended returned a job for the manifest of the sample. -/
def endsSample : List Done → Bool
  | [.bundle b (.ok _)] => b.manifest == sampleManifest
  | _ => false

theorem bundles_all_or_nothing_registered : ∃ b job, b.manifest = sampleManifest ∧
    Returned sampleFormats b job ((({} : Sys).play sampleFormats sampleUnregistered).next sampleFormats
      sampleRegister []).disk := by
  have hbefore : (({} : Sys).play sampleFormats sampleUnregistered).log.length = 0 := by decide +kernel
  have hafter : endsSample ((({} : Sys).play sampleFormats sampleUnregistered).next sampleFormats
      sampleRegister []).log = true := by decide +kernel
  rw [endsSample.eq_def] at hafter
  split at hafter
  · next b job hlog =>
    have hdone : (({} : Sys).play sampleFormats sampleUnregistered).Returns sampleFormats sampleRegister
        [] (.bundle b (.ok job)) := by
      rw [Sys.Returns, hlog, List.eq_nil_of_length_eq_zero hbefore]
      rfl
    obtain ⟨-, hreturned⟩ := bundles_all_or_nothing sampleFormats_readsBack ⟨_, rfl⟩ hdone
    exact ⟨b, job, by simpa using hafter, (hreturned job rfl).1⟩
  · cases hafter

end Bundles

end Argos.Queue
