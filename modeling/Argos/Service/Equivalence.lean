import Argos.Service.Plan
import Mathlib.Data.List.Perm.Basic

/-!
# Plans with the same binding

`plan_binding` hashes a normalized plan. Two accepted plans have the same hash exactly when they are
the same up to the backup file, the order of the tables, the order and repetition of their columns,
and the spelling of the installation root (`ServiceRecoveryPlan.Alike`), as long as the hash and the
text of a JSON value tell values apart.
-/

namespace Argos.Service

open Argos.Lib

/-! ## Alike plans -/

/-- The same table, whose columns may stand in another order and be repeated. -/
structure TableExpectation.Alike (a b : TableExpectation) : Prop where
  checkId : a.checkId = b.checkId
  table : a.table = b.table
  columns : ∀ column, column ∈ a.requiredColumns ↔ column ∈ b.requiredColumns
  minRows : a.minRows = b.minRows

/-- The same settings, whose root may be spelled in another way. -/
structure PostgresqlSettings.Alike (a b : PostgresqlSettings) : Prop where
  installationRoot : components a.installationRoot = components b.installationRoot
  majorVersion : a.majorVersion = b.majorVersion

/-- The same plan up to the backup file, the order of the tables and of their columns, and the
spelling of the installation root. -/
structure ServiceRecoveryPlan.Alike (p q : ServiceRecoveryPlan) : Prop where
  serviceId : p.serviceId = q.serviceId
  engine : p.engine = q.engine
  timeoutSecs : p.timeoutSecs = q.timeoutSecs
  maxBackupBytes : p.maxBackupBytes = q.maxBackupBytes
  maxWorkspaceBytes : p.maxWorkspaceBytes = q.maxWorkspaceBytes
  declaredRecoveryPointMs : p.declaredRecoveryPointMs = q.declaredRecoveryPointMs
  incidentAtMs : p.incidentAtMs = q.incidentAtMs
  expectedUserVersion : p.expectedUserVersion = q.expectedUserVersion
  tables : ∃ tables, p.tables.Perm tables ∧ List.Forall₂ TableExpectation.Alike tables q.tables
  postgresql : Option.Rel PostgresqlSettings.Alike p.postgresql q.postgresql

/-! ## Columns -/

theorem mem_dedup (column : Text) : ∀ columns, column ∈ dedup columns ↔ column ∈ columns
  | [] => Iff.rfl
  | [_] => Iff.rfl
  | a :: b :: rest => by
    rw [dedup]
    have ih := mem_dedup column (b :: rest)
    split_ifs with h
    · rw [ih, h, List.mem_cons (a := column) (b := b) (l := b :: rest)]
      exact (or_iff_right_of_imp fun heq => heq ▸ List.mem_cons_self).symm
    · rw [List.mem_cons, List.mem_cons, ih]

/-- Sorted columns are strictly increasing without their repetitions. -/
theorem pairwise_dedup : ∀ {columns : List Text}, columns.Pairwise (· ≤ ·) →
    (dedup columns).Pairwise (· < ·)
  | [], _ => List.Pairwise.nil
  | [_], _ => List.pairwise_singleton _ _
  | a :: b :: rest, h => by
    obtain ⟨hhead, htail⟩ := List.pairwise_cons.1 h
    rw [dedup]
    split_ifs with heq
    · exact pairwise_dedup htail
    · refine List.pairwise_cons.2 ⟨fun column hcolumn => ?_, pairwise_dedup htail⟩
      -- the first column is below the second one, and that is not above any other
      have hlt : a < b := lt_of_le_of_ne (hhead b List.mem_cons_self) heq
      rcases List.mem_cons.1 ((mem_dedup column _).1 hcolumn) with rfl | hrest
      · exact hlt
      · exact hlt.trans_le ((List.pairwise_cons.1 htail).1 column hrest)

/-- The normalized columns are told by the set of the columns. -/
theorem normalizedColumns_eq_iff {a b : List Text} :
    dedup (a.insertionSort (· ≤ ·)) = dedup (b.insertionSort (· ≤ ·)) ↔ ∀ column, column ∈ a ↔ column ∈ b := by
  have hmem : ∀ (columns : List Text) column,
      column ∈ dedup (columns.insertionSort (· ≤ ·)) ↔ column ∈ columns := by
    intro columns column
    rw [mem_dedup, List.mem_insertionSort]
  have hsorted : ∀ columns : List Text,
      (dedup (columns.insertionSort (· ≤ ·))).Pairwise (· < ·) := fun columns =>
    pairwise_dedup (List.pairwise_insertionSort _ columns)
  constructor
  · intro h column
    rw [← hmem a, h, hmem b]
  · intro h
    have hperm : (dedup (a.insertionSort (· ≤ ·))).Perm (dedup (b.insertionSort (· ≤ ·))) := by
      rw [List.perm_ext_iff_of_nodup ((hsorted a).imp ne_of_lt) ((hsorted b).imp ne_of_lt)]
      intro column
      rw [hmem, hmem, h]
    exact List.Perm.eq_of_pairwise (fun x y _ _ hlt hgt => absurd hgt (lt_asymm hlt)) (hsorted a)
      (hsorted b) hperm

/-! ## Tables -/

theorem normalized_eq_iff {a b : TableExpectation} : a.normalized = b.normalized ↔ a.Alike b := by
  unfold TableExpectation.normalized
  rw [TableExpectation.mk.injEq, normalizedColumns_eq_iff]
  exact ⟨fun h => ⟨h.1, h.2.1, h.2.2.1, h.2.2.2⟩, fun h => ⟨h.checkId, h.table, h.columns, h.minRows⟩⟩

/-- The tables in the order of their checks. -/
def sortedTables (tables : List TableExpectation) : List TableExpectation :=
  tables.insertionSort fun a b => a.checkId ≤ b.checkId

theorem sortedTables_perm (tables : List TableExpectation) : (sortedTables tables).Perm tables :=
  List.perm_insertionSort _ _

theorem sortedTables_pairwise (tables : List TableExpectation) :
    (sortedTables tables).Pairwise fun a b => a.checkId ≤ b.checkId := by
  have htotal : Std.Total fun a b : TableExpectation => a.checkId ≤ b.checkId :=
    ⟨fun a b => le_total a.checkId b.checkId⟩
  have htrans : IsTrans TableExpectation fun a b => a.checkId ≤ b.checkId :=
    ⟨fun a b c => le_trans⟩
  exact List.pairwise_insertionSort _ tables

/-- Tables with distinct checks have one order. -/
theorem normalized_sortedTables {tables tables' : List TableExpectation}
    (hids : (tables.map (·.checkId)).Nodup)
    (hperm : (tables.map TableExpectation.normalized).Perm (tables'.map TableExpectation.normalized)) :
    (sortedTables tables).map TableExpectation.normalized =
      (sortedTables tables').map TableExpectation.normalized := by
  have hsort : ∀ l : List TableExpectation, ((sortedTables l).map TableExpectation.normalized).Perm
      (l.map TableExpectation.normalized) := fun l => (sortedTables_perm l).map _
  have hpairwise : ∀ l : List TableExpectation, ((sortedTables l).map
      TableExpectation.normalized).Pairwise fun a b => a.checkId ≤ b.checkId := fun l =>
    List.pairwise_map.2 (sortedTables_pairwise l)
  have hall := (hsort tables).trans (hperm.trans (hsort tables').symm)
  refine List.Perm.eq_of_pairwise (fun a b ha hb hab hba => ?_) (hpairwise _) (hpairwise _) hall
  -- two of the tables with one check are the same table
  have hdistinct : ((tables.map TableExpectation.normalized).map (·.checkId)).Nodup := by
    rw [List.map_map]
    exact hids
  exact List.inj_on_of_nodup_map hdistinct ((hsort tables).mem_iff.1 ha)
    ((hsort tables).mem_iff.1 (hall.mem_iff.2 hb)) (le_antisymm hab hba)

/-- The normalized tables are told by the tables, whatever their order. -/
theorem normalizedTables_eq_iff {p q : ServiceRecoveryPlan}
    (hids : (p.tables.map (·.checkId)).Nodup) :
    normalizedTables p = normalizedTables q ↔
      ∃ tables, p.tables.Perm tables ∧ List.Forall₂ TableExpectation.Alike tables q.tables := by
  have halike : ∀ tables tables' : List TableExpectation,
      tables.map TableExpectation.normalized = tables'.map TableExpectation.normalized ↔
        List.Forall₂ TableExpectation.Alike tables tables' := by
    intro tables tables'
    rw [← List.forall₂_eq_eq_eq, List.forall₂_map_left_iff, List.forall₂_map_right_iff]
    simp only [normalized_eq_iff]
  constructor
  · intro h
    have hsorted := (halike (sortedTables p.tables) (sortedTables q.tables)).1 h
    -- the tables of one plan are put in the order of those of the other
    have hcomp : Relation.Comp (List.Forall₂ TableExpectation.Alike) List.Perm p.tables q.tables := by
      obtain ⟨tables, hforall, hback⟩ :=
        List.perm_comp_forall₂ (sortedTables_perm p.tables).symm hsorted
      exact ⟨tables, hforall, hback.trans (sortedTables_perm q.tables)⟩
    rw [List.forall₂_comp_perm_eq_perm_comp_forall₂] at hcomp
    exact hcomp
  · rintro ⟨tables, htables, hforall⟩
    apply normalized_sortedTables hids
    rw [← (halike tables q.tables).2 hforall]
    exact htables.map _

/-! ## The installation root -/

/-- The components of a path make a path with the same components. -/
theorem components_normalizedPath (path : Text) :
    components (normalizedPath path) = components path := by
  set names := (path.splitOn '/').filter fun name => name ≠ [] ∧ name ≠ ['.'] with hnames
  have hpath : components path = ['/'] :: names := rfl
  have hfilter : names.filter (fun name => decide (name ≠ [] ∧ name ≠ ['.'])) = names := by
    rw [List.filter_eq_self]
    exact fun name hname => (List.mem_filter.1 hname).2
  have hfree : ∀ name ∈ names, '/' ∉ name := by
    intro name hname hslash
    have hpiece := (List.mem_filter.1 hname).1
    rw [List.splitOn_eq_splitOnP] at hpiece
    exact absurd (break_notMem_splitOnP hpiece '/' hslash) (by simp)
  have hsplit : (normalizedPath path).splitOn '/' = [] :: (['/'].intercalate names).splitOn '/' := by
    unfold normalizedPath
    rw [hpath, List.drop_one, List.tail_cons]
    exact List.splitOn_append_cons_of_beq [] _ (beq_self_eq_true _)
  rw [hpath]
  unfold components
  rw [hsplit, List.filter_cons_of_neg (by simp)]
  by_cases hnil : names = []
  · rw [hnil]
    rfl
  · rw [List.splitOn_intercalate _ hfree hnil, hfilter]

theorem normalizedPath_eq_iff {a b : Text} :
    normalizedPath a = normalizedPath b ↔ components a = components b := by
  constructor
  · intro h
    rw [← components_normalizedPath a, h, components_normalizedPath b]
  · intro h
    unfold normalizedPath
    rw [h]

/-! ## The normalized value -/

/-- The fields of settings, with the root spelled in one way. -/
def PostgresqlSettings.rootedFields (s : PostgresqlSettings) : List (String × Tree) :=
  [("installation_root", jsonString (normalizedPath s.installationRoot)),
    ("major_version", .int s.majorVersion)]

/-- The settings of a plan as a value. -/
def settingsValue (plan : ServiceRecoveryPlan) : Tree :=
  match plan.postgresql with
  | none => .null
  | some settings => .object settings.rootedFields

/-- The fields that are hashed, one by one. -/
theorem normalizedFields_eq (plan : ServiceRecoveryPlan) :
    normalizedFields plan =
      [("service_id", jsonString plan.serviceId), ("engine", plan.engine.toValue),
        ("timeout_secs", .int plan.timeoutSecs), ("max_backup_bytes", .int plan.maxBackupBytes),
        ("max_workspace_bytes", .int plan.maxWorkspaceBytes),
        ("declared_recovery_point_ms", jsonOption plan.declaredRecoveryPointMs),
        ("incident_at_ms", jsonOption plan.incidentAtMs),
        ("expected_user_version", jsonVersion plan.expectedUserVersion),
        ("tables", .array ((normalizedTables plan).map TableExpectation.toValue)),
        ("postgresql", settingsValue plan)] := by
  unfold normalizedFields settingsValue
  rcases hsettings : plan.postgresql with _ | settings <;>
    simp [ServiceRecoveryPlan.fields, PostgresqlSettings.fields, PostgresqlSettings.rootedFields,
      Tree.removeField, Tree.setField, hsettings]

/-- A text of JSON is told by its canonical form. -/
theorem canonical_jsonString {a b : Text} :
    (jsonString a).canonical = (jsonString b).canonical ↔ a = b := by
  unfold jsonString
  rw [Tree.canonical, Tree.canonical, Tree.text.injEq, String.ofList_inj]

theorem canonical_jsonOption {a b : Option Nat} :
    (jsonOption a).canonical = (jsonOption b).canonical ↔ a = b := by
  rcases a with _ | a <;> rcases b with _ | b <;> simp [jsonOption, Tree.canonical, Int.ofNat_inj]

theorem canonical_jsonVersion {a b : Option Int} :
    (jsonVersion a).canonical = (jsonVersion b).canonical ↔ a = b := by
  rcases a with _ | a <;> rcases b with _ | b <;> simp [jsonVersion, Tree.canonical]

theorem canonical_engine {a b : DatabaseEngine} :
    a.toValue.canonical = b.toValue.canonical ↔ a = b := by
  cases a <;> cases b <;> simp [DatabaseEngine.toValue, Tree.canonical]

theorem canonical_nat {a b : Nat} : (Tree.int a).canonical = (Tree.int b).canonical ↔ a = b := by
  rw [Tree.canonical, Tree.canonical, Tree.int.injEq, Int.ofNat_inj]

/-- Arrays of values that are told by their canonical forms. -/
theorem canonical_map {α : Type} {f : α → Tree}
    (hf : ∀ {x y : α}, (f x).canonical = (f y).canonical ↔ x = y) {xs ys : List α} :
    (Tree.array (xs.map f)).canonical = (Tree.array (ys.map f)).canonical ↔ xs = ys := by
  refine ⟨fun h => ?_, fun h => by rw [h]⟩
  have hmap := Tree.canonical_array h
  rw [List.map_map, List.map_map] at hmap
  exact List.map_injective_iff.2 (fun x y hxy => hf.1 hxy) hmap

/-- A table is told by the canonical form of its value. -/
theorem canonical_table {a b : TableExpectation} :
    a.toValue.canonical = b.toValue.canonical ↔ a = b := by
  have hkeys : ∀ t : TableExpectation, t.fields.map (·.1) =
      ["check_id", "table", "required_columns", "min_rows"] := fun _ => rfl
  unfold TableExpectation.toValue
  rw [Tree.canonical_object_iff ((hkeys a).trans (hkeys b).symm) (by rw [hkeys]; simp)]
  unfold TableExpectation.fields
  simp only [List.map_cons, List.map_nil, List.cons.injEq, and_true]
  rw [canonical_jsonString, canonical_jsonString, canonical_map canonical_jsonString, canonical_nat,
    ← TableExpectation.mk.injEq]

/-- Settings are told by the canonical form of their value, up to the spelling of the root. -/
theorem canonical_settings {p q : ServiceRecoveryPlan} :
    (settingsValue p).canonical = (settingsValue q).canonical ↔
      Option.Rel PostgresqlSettings.Alike p.postgresql q.postgresql := by
  have hkeys : ∀ s : PostgresqlSettings, s.rootedFields.map (·.1) =
      ["installation_root", "major_version"] := fun _ => rfl
  unfold settingsValue
  rcases p.postgresql with _ | a <;> rcases q.postgresql with _ | b <;> dsimp only
  · exact ⟨fun _ => .none, fun _ => rfl⟩
  · exact ⟨fun h => by simp [Tree.canonical] at h, fun h => by cases h⟩
  · exact ⟨fun h => by simp [Tree.canonical] at h, fun h => by cases h⟩
  · rw [Option.rel_some_some,
      Tree.canonical_object_iff ((hkeys a).trans (hkeys b).symm) (by rw [hkeys]; simp)]
    unfold PostgresqlSettings.rootedFields
    simp only [List.map_cons, List.map_nil, List.cons.injEq, and_true]
    rw [canonical_jsonString, canonical_nat, normalizedPath_eq_iff]
    exact ⟨fun h => ⟨h.1, h.2⟩, fun h => ⟨h.installationRoot, h.majorVersion⟩⟩

theorem normalizedFields_keys (plan : ServiceRecoveryPlan) :
    (normalizedFields plan).map (·.1) =
      ["service_id", "engine", "timeout_secs", "max_backup_bytes", "max_workspace_bytes",
        "declared_recovery_point_ms", "incident_at_ms", "expected_user_version", "tables",
        "postgresql"] := by
  rw [normalizedFields_eq]
  rfl

/-- The hashed values of two plans are the same exactly when the plans are alike. -/
theorem canonical_plan {p q : ServiceRecoveryPlan} (hids : (p.tables.map (·.checkId)).Nodup) :
    (Tree.object (normalizedFields p)).canonical = (Tree.object (normalizedFields q)).canonical ↔
      p.Alike q := by
  rw [Tree.canonical_object_iff ((normalizedFields_keys p).trans (normalizedFields_keys q).symm)
    (by rw [normalizedFields_keys]; simp), normalizedFields_eq, normalizedFields_eq]
  simp only [List.map_cons, List.map_nil, List.cons.injEq, and_true]
  rw [canonical_jsonString, canonical_engine, canonical_nat, canonical_nat, canonical_nat,
    canonical_jsonOption, canonical_jsonOption, canonical_jsonVersion, canonical_map canonical_table,
    canonical_settings, normalizedTables_eq_iff hids]
  constructor
  · rintro ⟨hservice, hengine, htimeout, hbackup, hworkspace, hpoint, hincident, hversion, htables, hroot⟩
    exact ⟨hservice, hengine, htimeout, hbackup, hworkspace, hpoint, hincident, hversion, htables, hroot⟩
  · intro h
    exact ⟨h.serviceId, h.engine, h.timeoutSecs, h.maxBackupBytes, h.maxWorkspaceBytes,
      h.declaredRecoveryPointMs, h.incidentAtMs, h.expectedUserVersion, h.tables, h.postgresql⟩

/-! ## The binding -/

/-- What is used of a hash and of the text of a JSON value: they tell values apart. -/
structure Hashing.Separates (H : Hashing) : Prop where
  jsonText : Function.Injective H.jsonText
  sha256 : Function.Injective H.sha256

theorem digest_eq_iff {H : Hashing} (hH : H.Separates) {domain : List UInt8} {v w : Tree} :
    digest H domain v = digest H domain w ↔ v.canonical = w.canonical := by
  unfold digest
  rw [hH.sha256.eq_iff, List.append_cancel_left_eq, List.cons.injEq, and_iff_right rfl,
    hH.jsonText.eq_iff]

/-- Two plans have the same hash exactly when they are alike. -/
theorem planSha256_eq_iff {H : Hashing} (hH : H.Separates) {p q : ServiceRecoveryPlan}
    (hids : (p.tables.map (·.checkId)).Nodup) :
    (planBinding H p).planSha256 = (planBinding H q).planSha256 ↔ p.Alike q := by
  unfold planBinding
  rw [digest_eq_iff hH, canonical_plan hids]

/-- Alike plans have the same binding. -/
theorem planBinding_eq {H : Hashing} {p q : ServiceRecoveryPlan}
    (hids : (p.tables.map (·.checkId)).Nodup) (h : p.Alike q) : planBinding H p = planBinding H q := by
  have htables := (normalizedTables_eq_iff hids).2 h.tables
  have hrequired : requiredCheckIds p = requiredCheckIds q := by
    unfold requiredCheckIds builtinChecks
    rw [htables, h.engine, h.expectedUserVersion]
  have hexpectations : expectations p = expectations q := by
    unfold expectations
    rw [htables, h.engine, h.expectedUserVersion, hrequired]
  have hplan : digest H (asciiBytes "argos-service-plan-v1".toList) (.object (normalizedFields p)) =
      digest H (asciiBytes "argos-service-plan-v1".toList) (.object (normalizedFields q)) := by
    unfold digest
    rw [(canonical_plan hids).2 h]
  unfold planBinding
  rw [hexpectations, hrequired, hplan]

end Argos.Service
