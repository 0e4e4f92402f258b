import Argos.Queue.Histories
import Argos.Queue.Sample

/-!
# Export and verification agree

`export_archive` and `verify_archive` together: what the first writes while others go on archiving, the
second accepts with the same numbers, and what the second accepts cannot be changed by leaving lines out,
by repeating or moving them, or by cutting or extending the file.

An export takes its reads at a sequence of states (`Exporting`). Between the reads the tables grow, and
the steps of the processes that share a queue make them grow in this way (`exporting_of_runs`).
-/

namespace Argos.Queue

open Argos.Lib
open Argos.Vault (Bytes Result Error)
open Argos.Vault (Result.bind_ok_iff Result.check_ok_iff)

/-! ## What an export meets -/

/-- The states in which an export reads the tables of a queue with a target. -/
structure Exporting (F : Formats) (history : Nat → Stored) (target : QueueTarget) : Prop where
  configured : ∃ config, QueueTarget.fromConfig F config = .ok target
  pinned : (history 0).target? F = some target
  keyed : (history 1).Keyed
  grows : ∀ n, Grows (history n) (history (n + 1))

section Runs

variable {F : Formats} {db db' : Database}

/-- The tables of a sound queue have their keys. -/
theorem Sound.keyed (h : Sound F db) : (Stored.current db).Keyed := by
  have hobjects := h.objects
  rw [List.map_append, List.nodup_append] at hobjects
  constructor
  · simpa [Stored.items, List.map_map, Function.comp_def] using h.itemIds
  · simpa [Stored.items, List.map_map, Function.comp_def] using hobjects.1
  · simpa [Stored.archive, List.map_map, Function.comp_def] using h.archiveIds
  · simpa [Stored.archive, List.map_map, Function.comp_def] using hobjects.2.1

/-- What a transaction keeps, an export finds. -/
theorem Keeps.grows (h : Keeps db db') (hsound : Sound F db') :
    Grows (.current db) (.current db') := by
  refine .inr ⟨Nat.le_add_left 1 2, Nat.le_add_left 2 1, congrArg some h.target, h.archive.map _, ?_⟩
  intro r hr
  obtain ⟨row, hrow, rfl⟩ := List.mem_map.1 hr
  exact (hsound.active row hrow).1

/-- The processes that share a queue, at later and later moments of a run. -/
theorem exporting_of_runs (hF : F.ReadsBack) {scripts : Nat → List (Event × Plan)}
    {tables : Nat → Database} {target : QueueTarget}
    (hext : ∀ n, scripts n <+: scripts (n + 1))
    (htables : ∀ n, ((({} : Sys).play F (scripts n)).disk).db? = some (tables n))
    (hconfigured : ∃ config, QueueTarget.fromConfig F config = .ok target)
    (htarget : (tables 0).target? F = some target) :
    Exporting F (fun n => .current (tables n)) target := by
  have hsound : ∀ n, Sound F (tables n) := fun n => (ok_play hF (scripts n)).disk.sound _ (htables n)
  refine ⟨hconfigured, htarget, (hsound 1).keyed, fun n => ?_⟩
  obtain ⟨more, hmore⟩ := hext n
  obtain ⟨db', hdb', hkeeps⟩ := kept_play hF (scripts n) more _ (htables n)
  rw [hmore, htables (n + 1), Option.some.injEq] at hdb'
  subst hdb'
  exact hkeeps.grows (hsound (n + 1))

end Runs

/-! ## The two together -/

section Agreement

variable {F : Formats} {history : Nat → Stored} {target : QueueTarget} {exportedAtMs : Nat}

/-- The target that the export writes is the one of the queue. -/
theorem Exporting.bounds_target (h : Exporting F history target) {bounds : Bounds}
    (hbounds : exportBounds F (history 1) = .ok bounds) : bounds.target = target := by
  obtain ⟨⟨queueMeta, hmeta, hdecode⟩, -⟩ := exportBounds_ok hbounds
  have hsame : (history 1).target? F = some target := (h.grows 0).target?.trans h.pinned
  rw [Stored.target?, hmeta] at hsame
  exact Option.some.inj (hdecode.symm.trans hsame)

/-- Rows that fit are written, while what happens between the reads allows it. -/
theorem exportRows_succeeds {R : Stored → Stored → Prop} (hR : ∀ s s', R s s' → Grows s s')
    (hkept : (history 1).version ≠ 1 ∨ Still R) (hnext : ∀ n, R (history n) (history (n + 1)))
    {bounds : Bounds} (hbounds : exportBounds F (history 1) = .ok bounds)
    {items : List (Nat × QueueItem)}
    (hitems : Exportable F bounds.target (history 1) exportedAtMs items) :
    ∃ out, (exportRows F exportedAtMs bounds).run (fun n => history (n + 2)) = .ok out ∧
      ∃ items', Exportable F bounds.target (history 1) exportedAtMs items' ∧
        out = exported F bounds.target (items'.map (·.2)) exportedAtMs := by
  obtain ⟨-, hwritten, hcan⟩ := (exportRows_holds hR hbounds).run (hnext 1) (fun n => hnext (n + 2))
  obtain ⟨out, hout⟩ := hcan hkept items hitems
  exact ⟨out, hout, hwritten out hout⟩

/-- Rows that fit are written, unless an old database becomes a current one meanwhile. -/
theorem Exporting.succeeds (h : Exporting F history target)
    (hvalid : validateDatabase F (history 0) = .ok ())
    (hversion : (history 1).version ≠ 1 ∨ ∀ n, history (n + 1) = history n)
    {items : List (Nat × QueueItem)} (hitems : Exportable F target (history 1) exportedAtMs items) :
    ∃ file report, (exportArchive F exportedAtMs).run history = .ok (file, report) ∧
      report.archivedItems = items.length := by
  obtain ⟨bounds, hbounds⟩ : ∃ bounds, exportBounds F (history 1) = .ok bounds := by
    have hsame : (history 1).target? F = some target := (h.grows 0).target?.trans h.pinned
    unfold exportBounds
    rcases hmeta : (history 1).meta? with _ | queueMeta
    · rw [Stored.target?, hmeta] at hsame
      cases hsame
    · rw [Stored.target?, hmeta, Option.bind_some] at hsame
      simp only [QueueMeta.read, hsame]
      exact ⟨_, rfl⟩
  have htarget := h.bounds_target hbounds
  rw [← htarget] at hitems
  -- the pages are read while the tables grow, or while they stay as they are
  have hrun := hversion.elim
    (fun hversion => exportRows_succeeds (fun _ _ hgrows => hgrows) (.inl hversion) h.grows hbounds hitems)
    (fun hstill => exportRows_succeeds (R := fun s s' => s' = s) (fun _ _ heq => .inl heq)
      (.inr fun _ _ heq => heq) hstill hbounds hitems)
  obtain ⟨⟨file, report⟩, hout, items', hitems', hfile⟩ := hrun
  have hdecoded := hitems'.1.symm.trans hitems.1
  refine ⟨file, report, ?_, ?_⟩
  · rw [exportArchive_run, hvalid]
    exact Result.check_ok_iff.2 ⟨rfl, Result.bind_ok_iff.2 ⟨bounds, hbounds, hout⟩⟩
  · rw [(Prod.mk.inj hfile).2, Except.ok.inj hdecoded]
    exact List.length_map _

/-- The file of an export is accepted with the key of the queue and with the numbers of its report, and
it is written where the rows fit. A file is accepted exactly when it is a header line, the lines of the
receipts that the header counts, and the trailer line that fits them. No accepted file begins with
another, and no lines of an accepted file make another one with a content of another hash. -/
theorem archive_agreement (hF : F.Exports) :
    (∀ {history : Nat → Stored} {target : QueueTarget}, Exporting F history target →
      ∀ exportedAtMs,
        (∀ file report, (exportArchive F exportedAtMs).run history = .ok (file, report) →
          ∃ v, verifyArchive F file target.pinnedPubkey = .ok v ∧
            v.archivedItems = report.archivedItems ∧ v.sizeBytes = report.sizeBytes ∧
            v.sha256 = report.sha256) ∧
        (validateDatabase F (history 0) = .ok () →
          (history 1).version ≠ 1 ∨ (∀ n, history (n + 1) = history n) →
          ∀ items, Exportable F target (history 1) exportedAtMs items →
            ∃ file report, (exportArchive F exportedAtMs).run history = .ok (file, report) ∧
              report.archivedItems = items.length)) ∧
    (∀ file pubkey v, verifyArchive F file pubkey = .ok v ↔
      ∃ publicKey target first receipts last, F.publicKey pubkey = some publicKey ∧
        Wellformed F publicKey file target first receipts last ∧
        v = verificationOf F file receipts.length) ∧
    (∀ file rest pubkey pubkey' v v', verifyArchive F file pubkey = .ok v →
      verifyArchive F (file ++ rest) pubkey' = .ok v' → rest = []) ∧
    (∀ (lines lines' : List Bytes) pubkey pubkey' v v', (∀ l ∈ lines, IsLine l) → lines' ⊆ lines →
      (F.sha256 lines'.dropLast.flatten = F.sha256 lines.dropLast.flatten →
        lines'.dropLast.flatten = lines.dropLast.flatten) →
      verifyArchive F lines.flatten pubkey = .ok v →
      verifyArchive F lines'.flatten pubkey' = .ok v' → lines' = lines) := by
  refine ⟨fun h exportedAtMs => ⟨fun file report hrun => ?_, fun hvalid hversion items hitems => ?_⟩,
    fun _ _ _ => verifyArchive_ok_iff, fun _ _ _ _ _ _ haccepted hmore => ?_,
    fun _ _ _ _ _ _ hlines hsubset hhash haccepted haccepted' => ?_⟩
  · obtain ⟨config, hconfig⟩ := h.configured
    exact export_accepted hF hconfig h.grows h.keyed h.pinned hrun
  · exact h.succeeds hvalid hversion hitems
  · exact accepted_extension haccepted hmore
  · exact accepted_lines hlines hsubset hhash haccepted haccepted'

/-- A queue before and after a second item is completed. -/
def sampleArchived (completed : Nat) : List (Event × Plan) :=
  sampleEnqueue "evidence" [1, 2] (Fin.last 8).castSucc :: sampleSend 0 "evidence" [1, 2] 3 ++
    if completed < 2 then []
    else sampleEnqueue "audit" [1, 2] (Fin.last 7).castSucc.castSucc :: sampleSend 1 "audit" [1, 2] 5

/-- Its tables. -/
def sampleTables (completed : Nat) : Database :=
  ((({} : Sys).play sampleFormats (sampleArchived completed)).disk.db?).getD
    (.initial sampleFormats sampleTarget sampleLimits)

/-- An export during which an item is completed writes the one that was there. -/
theorem archive_agreement_sample :
    ∃ file report, (exportArchive sampleFormats 7).run (fun n => .current (sampleTables n)) =
        .ok (file, report) ∧ report.archivedItems = 1 ∧
      ∃ v, verifyArchive sampleFormats file "sample" = .ok v ∧ v.archivedItems = 1 := by
  have hrun : ((exportArchive sampleFormats 7).run fun n => .current (sampleTables n)).toOption.map
      (fun out => out.2.archivedItems) = some 1 := by decide +kernel
  obtain ⟨file, report, hout, hcount⟩ : ∃ file report, (exportArchive sampleFormats 7).run
      (fun n => .current (sampleTables n)) = .ok (file, report) ∧ report.archivedItems = 1 := by
    rcases h : (exportArchive sampleFormats 7).run fun n => .current (sampleTables n) with
      e | ⟨file, report⟩
    · rw [h] at hrun
      cases hrun
    · rw [h] at hrun
      exact ⟨file, report, rfl, Option.some.inj hrun⟩
  have hext : ∀ n, sampleArchived n <+: sampleArchived (n + 1) := by
    intro n
    unfold sampleArchived
    rw [List.prefix_append_right_inj]
    split_ifs
    · exact List.nil_prefix
    · exact List.nil_prefix
    · omega
    · exact List.prefix_rfl
  have htables : ∀ n, (({} : Sys).play sampleFormats (sampleArchived n)).disk.db? =
      some (sampleTables n) := by
    have hsome : ∀ n, ((({} : Sys).play sampleFormats (sampleArchived n)).disk.db?).isSome := by
      intro n
      by_cases hn : n < 2
      · rw [show sampleArchived n = sampleArchived 0 by simp [sampleArchived, hn]]
        decide +kernel
      · rw [show sampleArchived n = sampleArchived 2 by simp [sampleArchived, hn]]
        decide +kernel
    intro n
    obtain ⟨db, hdb⟩ := Option.isSome_iff_exists.1 (hsome n)
    rw [sampleTables, hdb, Option.getD_some]
  have hexporting := exporting_of_runs sampleFormats_readsBack hext htables
    ⟨sampleConfig, show QueueTarget.fromConfig sampleFormats sampleConfig = .ok sampleTarget by
      decide +kernel⟩ (by decide +kernel)
  obtain ⟨v, haccepted, hitems, -⟩ :=
    ((archive_agreement sampleFormats_exports).1 hexporting 7).1 file report hout
  exact ⟨file, report, hout, hcount, v, haccepted, hitems.trans hcount⟩

end Agreement

end Argos.Queue
