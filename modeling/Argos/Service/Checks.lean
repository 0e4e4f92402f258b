import Argos.Lib.Related
import Argos.Service.Drill

/-!
# The checks of a drill

A drill that does not fail has written one check for every table of its plan, and those that it
makes itself: the ones that the binding of the plan names (`validateDatabase_ok`).
-/

namespace Argos.Service

open Argos.Lib
open Argos.Lib.Recording

/-! ## Accepted plans -/

/-- What is used of a plan that `validate_plan` accepts. -/
structure ServiceRecoveryPlan.Valid (plan : ServiceRecoveryPlan) : Prop where
  ids : (plan.tables.map (·.checkId)).Nodup
  foreign : ∀ table ∈ plan.tables, startsWith table.checkId "argos-".toList = false

theorem validateTables_ok : ∀ {tables : List TableExpectation} {ids : List Text},
    validateTables ids tables = .ok () → (tables.map (·.checkId)).Nodup ∧
      ∀ table ∈ tables, table.checkId ∉ ids ∧ startsWith table.checkId "argos-".toList = false
  | [], _, _ => ⟨List.nodup_nil, by simp⟩
  | table :: rest, ids, h => by
    rw [validateTables, check_ok_iff] at h
    obtain ⟨htable, hrest⟩ := h
    obtain ⟨hnodup, hall⟩ := validateTables_ok hrest
    have hnew : table.checkId ∉ ids ∧ startsWith table.checkId "argos-".toList = false := by
      rw [validateTable, check_ok_iff, failIf_ok_iff, Bool.not_eq_true, Bool.or_eq_false_iff,
        Bool.or_eq_false_iff, List.contains_eq_mem, decide_eq_false_iff_not] at htable
      exact ⟨htable.1.1.2, htable.1.2⟩
    refine ⟨List.nodup_cons.2 ⟨fun hmem => ?_, hnodup⟩, List.forall_mem_cons.2 ⟨hnew, fun t ht => ?_⟩⟩
    · obtain ⟨t, ht, heq⟩ := List.mem_map.1 hmem
      exact (hall t ht).1 (heq ▸ List.mem_cons_self)
    · exact ⟨fun hmem => (hall t ht).1 (List.mem_cons_of_mem _ hmem), (hall t ht).2⟩

theorem validatePlan_ok {now : Nat} {plan : ServiceRecoveryPlan} (h : validatePlan now plan = .ok ()) :
    plan.Valid := by
  simp only [validatePlan, check_ok_iff] at h
  obtain ⟨-, -, -, -, -, -, htables, -⟩ := h
  obtain ⟨hids, hforeign⟩ := validateTables_ok htables
  exact ⟨hids, fun table htable => (hforeign table htable).2⟩

/-! ## Checks that passed -/

/-- A check that passed. -/
def passed (checkId : Text) (observedRows : Option Nat) : ServiceCheckResult :=
  ⟨checkId, true, "ok", observedRows⟩

/-- The check of a table that has enough rows. -/
def TableChecked (table : TableExpectation) (check : ServiceCheckResult) : Prop :=
  ∃ count, check = passed table.checkId (some count) ∧ table.minRows ≤ count ∧ count ≤ i64Max

/-- No count of rows in a drill is above the range of the database. -/
structure Drill.Bounded (d : Drill) : Prop where
  sqlite : ∀ i count, d.sqlite.rowCount i = .ok count → count ≤ i64Max
  postgresql : ∀ i count, d.postgresql.rowCount i = .ok count → count ≤ i64Max

section Sqlite

variable {a : SqliteAnswers} {checks checks' : List ServiceCheckResult}

/-- The columns leave no check, if they are all there. -/
theorem sqliteColumns_ok {i : Nat} {checkId : Text} :
    ∀ {columns : List Text} {j : Nat} {checks checks' : List ServiceCheckResult},
      sqliteColumns a i checkId j columns checks = (.ok (), checks') → checks' = checks
  | [], j, _, _, h => (pure_ok_iff.1 h).2
  | column :: rest, j, checks, checks', h => by
    rw [sqliteColumns, bind_ok_iff] at h
    obtain ⟨present, between, hpresent, h⟩ := h
    obtain rfl := (ask_ok_iff.1 hpresent).2
    cases present with
    | true => exact sqliteColumns_ok h
    | false =>
      rw [Bool.not_false, if_pos rfl, bind_ok_iff] at h
      obtain ⟨_, _, -, h⟩ := h
      cases (ask_ok_iff.1 h).1

theorem sqliteTable_ok (hrows : ∀ i count, a.rowCount i = .ok count → count ≤ i64Max) {i : Nat}
    {table : TableExpectation} (h : sqliteTable a i table checks = (.ok (), checks')) :
    ∃ check, TableChecked table check ∧ checks' = checks ++ [check] := by
  rw [sqliteTable, bind_ok_iff] at h
  obtain ⟨_, between, hdeadline, h⟩ := h
  obtain rfl := (ask_ok_iff.1 hdeadline).2
  rw [bind_ok_iff] at h
  obtain ⟨kind, between, hkind, h⟩ := h
  obtain rfl := (ask_ok_iff.1 hkind).2
  by_cases htable : kind = some "table"
  · rw [if_neg (not_not.2 htable)] at h
    rw [bind_ok_iff] at h
    obtain ⟨_, between, hcolumns, h⟩ := h
    obtain rfl := sqliteColumns_ok hcolumns
    rw [bind_ok_iff] at h
    obtain ⟨count, between, hcount, h⟩ := h
    rw [ask_ok_iff] at hcount
    obtain ⟨hcount, rfl⟩ := hcount
    rw [bind_ok_iff] at h
    obtain ⟨_, between, hcheck, h⟩ := h
    obtain ⟨hokay, rfl⟩ := failOn_ok_iff.1 h
    rw [check_written_iff] at hcheck
    rw [Bool.not_eq_true, Bool.not_eq_false'] at hokay
    have hbound := of_decide_eq_true hokay
    have hmax := hrows i count hcount
    refine ⟨passed table.checkId (some count.toNat), ⟨count.toNat, rfl, by omega, by omega⟩, ?_⟩
    rw [hcheck, hokay, if_pos rfl, if_pos hbound.1]
    rfl
  · rw [if_pos htable] at h
    rw [bind_ok_iff] at h
    obtain ⟨_, _, -, h⟩ := h
    cases (ask_ok_iff.1 h).1

theorem sqliteTables_ok (hrows : ∀ i count, a.rowCount i = .ok count → count ≤ i64Max) :
    ∀ {tables : List TableExpectation} {i : Nat} {checks checks' : List ServiceCheckResult},
      sqliteTables a i tables checks = (.ok (), checks') →
        ∃ new, List.Forall₂ TableChecked tables new ∧ checks' = checks ++ new
  | [], _, checks, _, h => ⟨[], .nil, by rw [(pure_ok_iff.1 h).2, List.append_nil]⟩
  | table :: rest, i, checks, checks', h => by
    rw [sqliteTables, bind_ok_iff] at h
    obtain ⟨_, between, htable, h⟩ := h
    obtain ⟨check, hcheck, rfl⟩ := sqliteTable_ok hrows htable
    obtain ⟨new, hnew, rfl⟩ := sqliteTables_ok hrows h
    exact ⟨check :: new, .cons hcheck hnew, by rw [List.append_assoc]; rfl⟩

/-- The check of the user version, where there is one. -/
def versionChecks (plan : ServiceRecoveryPlan) : List ServiceCheckResult :=
  if plan.expectedUserVersion.isSome then [passed "argos-user-version".toList none] else []

theorem sqliteVersion_ok {plan : ServiceRecoveryPlan}
    (h : sqliteVersion a plan.expectedUserVersion checks = (.ok (), checks')) :
    checks' = checks ++ versionChecks plan := by
  unfold sqliteVersion at h
  unfold versionChecks
  rcases hversion : plan.expectedUserVersion with _ | expected
  · rw [hversion] at h
    rw [(pure_ok_iff.1 h).2]
    exact (List.append_nil _).symm
  · rw [hversion] at h
    rw [bind_ok_iff] at h
    obtain ⟨actual, between, hactual, h⟩ := h
    obtain rfl := (ask_ok_iff.1 hactual).2
    rw [bind_ok_iff] at h
    obtain ⟨_, between, hcheck, h⟩ := h
    obtain ⟨hsame, rfl⟩ := failOn_ok_iff.1 h
    rw [check_written_iff.1 hcheck, decide_eq_true (not_not.1 hsame), if_pos (not_not.1 hsame)]
    rfl

/-- The checks of a SQLite database on which nothing failed. -/
theorem validateSqlite_ok (hrows : ∀ i count, a.rowCount i = .ok count → count ≤ i64Max)
    {plan : ServiceRecoveryPlan} (h : validateSqlite a plan checks = (.ok (), checks')) :
    ∃ new, List.Forall₂ TableChecked plan.tables new ∧
      checks' = checks ++ ([passed "argos-integrity".toList none, passed "argos-foreign-keys".toList none] ++
        versionChecks plan ++ new ++ [passed "argos-write-read-rollback".toList none]) := by
  simp only [validateSqlite, bind_ok_iff, ask_ok_iff, failOn_ok_iff, check_written_iff, not_not] at h
  obtain ⟨_, _, ⟨-, rfl⟩, _, _, ⟨-, rfl⟩, _, _, ⟨-, rfl⟩, integrity, _, ⟨-, rfl⟩, _, _, rfl, _, _,
    ⟨hintegrity, rfl⟩, violation, _, ⟨-, rfl⟩, _, _, rfl, _, _, ⟨hviolation, rfl⟩, _, _, hversion, _, _,
    htables, _, _, ⟨-, rfl⟩, _, _, ⟨-, rfl⟩, _, _, ⟨-, rfl⟩, rfl⟩ := h
  rw [sqliteVersion_ok hversion] at htables
  obtain ⟨new, hnew, rfl⟩ := sqliteTables_ok hrows htables
  refine ⟨new, hnew, ?_⟩
  rw [Bool.not_eq_true] at hviolation
  simp [passed, hintegrity, hviolation]

end Sqlite

section Postgresql

variable {a : PostgresqlAnswers} {checks checks' : List ServiceCheckResult}

/-- The columns leave no check, if they are all there. -/
theorem postgresqlColumns_ok {i : Nat} {checkId : Text} :
    ∀ {columns : List Text} {j : Nat} {checks checks' : List ServiceCheckResult},
      postgresqlColumns a i checkId j columns checks = (.ok (), checks') → checks' = checks
  | [], j, _, _, h => (pure_ok_iff.1 h).2
  | column :: rest, j, checks, checks', h => by
    rw [postgresqlColumns, bind_ok_iff] at h
    obtain ⟨count, between, hcount, h⟩ := h
    obtain rfl := (ask_ok_iff.1 hcount).2
    by_cases hone : count = 1
    · rw [if_neg (not_not.2 hone)] at h
      exact postgresqlColumns_ok h
    · rw [if_pos hone, bind_ok_iff] at h
      obtain ⟨_, _, -, h⟩ := h
      cases (ask_ok_iff.1 h).1

theorem postgresqlTable_ok (hrows : ∀ i count, a.rowCount i = .ok count → count ≤ i64Max) {i : Nat}
    {table : TableExpectation} (h : postgresqlTable a i table checks = (.ok (), checks')) :
    ∃ check, TableChecked table check ∧ checks' = checks ++ [check] := by
  rw [postgresqlTable, bind_ok_iff] at h
  obtain ⟨found, between, hfound, h⟩ := h
  obtain rfl := (ask_ok_iff.1 hfound).2
  by_cases hone : found = 1
  · rw [if_neg (not_not.2 hone), bind_ok_iff] at h
    obtain ⟨_, between, hcolumns, h⟩ := h
    obtain rfl := postgresqlColumns_ok hcolumns
    rw [bind_ok_iff] at h
    obtain ⟨count, between, hcount, h⟩ := h
    rw [ask_ok_iff] at hcount
    obtain ⟨hcount, rfl⟩ := hcount
    rw [bind_ok_iff] at h
    obtain ⟨_, between, hcheck, h⟩ := h
    obtain ⟨henough, rfl⟩ := failOn_ok_iff.1 h
    rw [Nat.not_lt] at henough
    rw [check_written_iff, decide_eq_true henough, if_pos henough] at hcheck
    exact ⟨passed table.checkId (some count), ⟨count, rfl, henough, hrows i count hcount⟩, hcheck⟩
  · rw [if_pos hone, bind_ok_iff] at h
    obtain ⟨_, _, -, h⟩ := h
    cases (ask_ok_iff.1 h).1

theorem postgresqlTables_ok (hrows : ∀ i count, a.rowCount i = .ok count → count ≤ i64Max) :
    ∀ {tables : List TableExpectation} {i : Nat} {checks checks' : List ServiceCheckResult},
      postgresqlTables a i tables checks = (.ok (), checks') →
        ∃ new, List.Forall₂ TableChecked tables new ∧ checks' = checks ++ new
  | [], _, checks, _, h => ⟨[], .nil, by rw [(pure_ok_iff.1 h).2, List.append_nil]⟩
  | table :: rest, i, checks, checks', h => by
    rw [postgresqlTables, bind_ok_iff] at h
    obtain ⟨_, between, htable, h⟩ := h
    obtain ⟨check, hcheck, rfl⟩ := postgresqlTable_ok hrows htable
    obtain ⟨new, hnew, rfl⟩ := postgresqlTables_ok hrows h
    exact ⟨check :: new, .cons hcheck hnew, by rw [List.append_assoc]; rfl⟩

/-- The checks of a PostgreSQL database on which nothing failed. -/
theorem validatePostgresql_ok (hrows : ∀ i count, a.rowCount i = .ok count → count ≤ i64Max)
    {plan : ServiceRecoveryPlan} (h : validatePostgresql a plan checks = (.ok (), checks')) :
    ∃ new, List.Forall₂ TableChecked plan.tables new ∧
      checks' = checks ++ ([passed "argos-constraints".toList (some 0)] ++ new ++
        [passed "argos-write-read-rollback".toList none]) := by
  simp only [validatePostgresql, bind_ok_iff, ask_ok_iff, failOn_ok_iff, check_written_iff, not_not] at h
  obtain ⟨invalid, _, ⟨-, rfl⟩, _, _, rfl, _, _, ⟨hinvalid, rfl⟩, _, _, htables, _, _, ⟨-, rfl⟩, _, _,
    ⟨-, rfl⟩, rfl⟩ := h
  obtain ⟨new, hnew, rfl⟩ := postgresqlTables_ok hrows htables
  refine ⟨new, hnew, ?_⟩
  simp [passed, hinvalid]

end Postgresql

/-- The checks that a drill has written when nothing failed. -/
structure Checked (plan : ServiceRecoveryPlan) (checks : List ServiceCheckResult) : Prop where
  ids : (checks.map (·.checkId)).Perm (builtinChecks plan ++ plan.tables.map (·.checkId))
  passed : ∀ check ∈ checks, check.passed = true ∧ check.code = "ok"
  tables : ∀ table ∈ plan.tables, ∃ check ∈ checks, TableChecked table check
  constraints : ∀ check ∈ checks, check.checkId = "argos-constraints".toList →
    check.observedRows = some 0
  builtins : ∀ check ∈ checks, check.checkId ≠ "argos-constraints".toList →
    startsWith check.checkId "argos-".toList = true → check.observedRows = none

theorem tableChecked_ids : ∀ {tables : List TableExpectation} {new : List ServiceCheckResult},
    List.Forall₂ TableChecked tables new → new.map (·.checkId) = tables.map (·.checkId)
  | [], _, .nil => rfl
  | table :: rest, _, .cons ⟨count, hcheck, _⟩ hnew => by
    rw [List.map_cons, List.map_cons, tableChecked_ids hnew, hcheck]
    rfl

/-- A check of the drill itself that passed. -/
def Builtin (check : ServiceCheckResult) : Prop :=
  check = passed check.checkId
    (if check.checkId = "argos-constraints".toList then some 0 else none)

/-- Checks of the tables among others that the drill makes itself. -/
theorem checked_of_parts {plan : ServiceRecoveryPlan} (hplan : plan.Valid)
    {before new after : List ServiceCheckResult} (hnew : List.Forall₂ TableChecked plan.tables new)
    (hids : ((before ++ after).map (·.checkId)).Perm (builtinChecks plan))
    (hbuiltin : ∀ check ∈ before ++ after, Builtin check) :
    Checked plan (before ++ new ++ after) := by
  have hmem : ∀ check ∈ before ++ new ++ after, Builtin check ∨
      ∃ table ∈ plan.tables, TableChecked table check := by
    intro check hcheck
    rcases List.mem_append.1 hcheck with hcheck | hcheck
    · rcases List.mem_append.1 hcheck with hcheck | hcheck
      · exact .inl (hbuiltin check (List.mem_append_left _ hcheck))
      · exact .inr (exists_of_forall₂_right hnew hcheck)
    · exact .inl (hbuiltin check (List.mem_append_right _ hcheck))
  -- no table has a check whose name begins like those of the drill
  have hforeign : ∀ {table check}, table ∈ plan.tables → TableChecked table check →
      startsWith check.checkId "argos-".toList = false := by
    rintro table check htable ⟨count, rfl, -⟩
    exact hplan.foreign table htable
  refine ⟨?_, fun check hcheck => ?_, fun table htable => ?_, fun check hcheck hconstraints => ?_,
    fun check hcheck hconstraints hargos => ?_⟩
  · have hmiddle : (before ++ new ++ after).Perm ((before ++ after) ++ new) := by
      rw [List.append_assoc, List.append_assoc]
      exact List.perm_append_comm.append_left before
    refine (hmiddle.map _).trans ?_
    rw [List.map_append, tableChecked_ids hnew]
    exact hids.append_right _
  · rcases hmem check hcheck with hbuilt | ⟨table, -, count, rfl, -⟩
    · rw [hbuilt]
      exact ⟨rfl, rfl⟩
    · exact ⟨rfl, rfl⟩
  · obtain ⟨check, hcheck, hchecked⟩ := exists_of_forall₂ hnew htable
    exact ⟨check, List.mem_append_left _ (List.mem_append_right _ hcheck), hchecked⟩
  · rcases hmem check hcheck with hbuilt | ⟨table, htable, hchecked⟩
    · rw [hbuilt, if_pos hconstraints]
      rfl
    · have := hforeign htable hchecked
      rw [hconstraints] at this
      exact absurd this (by decide)
  · rcases hmem check hcheck with hbuilt | ⟨table, htable, hchecked⟩
    · rw [hbuilt, if_neg hconstraints]
      rfl
    · rw [hforeign htable hchecked] at hargos
      cases hargos

/-- The checks of a SQLite drill besides those of the tables are the ones that the binding names. -/
theorem sqliteBuiltin_ids {plan : ServiceRecoveryPlan} (hengine : plan.engine = .sqlite) :
    (([passed "argos-integrity".toList none, passed "argos-foreign-keys".toList none] ++
      versionChecks plan ++ [passed "argos-write-read-rollback".toList none]).map (·.checkId)).Perm
      (builtinChecks plan) := by
  unfold builtinChecks versionChecks
  rw [hengine]
  rcases plan.expectedUserVersion with _ | version
  · exact List.Perm.refl _
  · -- the binding names the user version last
    exact ((List.Perm.swap _ _ []).cons _).cons _

/-- What a drill has written when nothing failed. -/
theorem validateDatabase_ok {plan : ServiceRecoveryPlan} (hplan : plan.Valid) {d : Drill}
    (hd : d.Bounded) {checks : List ServiceCheckResult}
    (h : validateDatabase plan d [] = (.ok (), checks)) : Checked plan checks := by
  unfold validateDatabase at h
  rcases hengine : plan.engine with _ | _ <;> rw [hengine] at h
  · obtain ⟨_, between, hsqlite, hsynced⟩ := bind_ok_iff.1 h
    obtain rfl := (ask_ok_iff.1 hsynced).2
    obtain ⟨new, hnew, rfl⟩ := validateSqlite_ok hd.sqlite hsqlite
    rw [List.nil_append]
    apply checked_of_parts hplan hnew (sqliteBuiltin_ids hengine)
    intro check hcheck
    unfold versionChecks at hcheck
    split_ifs at hcheck
    · simp only [List.mem_append, List.mem_cons, List.not_mem_nil, or_false, or_assoc] at hcheck
      rcases hcheck with rfl | rfl | rfl | rfl <;> rfl
    · simp only [List.mem_append, List.mem_cons, List.not_mem_nil, or_false, or_assoc] at hcheck
      rcases hcheck with rfl | rfl | rfl <;> rfl
  · obtain ⟨new, hnew, rfl⟩ := validatePostgresql_ok hd.postgresql h
    rw [List.nil_append]
    apply checked_of_parts hplan hnew
    · unfold builtinChecks
      rw [hengine]
      exact List.Perm.refl _
    · intro check hcheck
      simp only [List.mem_append, List.mem_cons, List.not_mem_nil, or_false] at hcheck
      rcases hcheck with rfl | rfl <;> rfl

end Argos.Service
