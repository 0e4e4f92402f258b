import Argos.Policies.Replay

/-!
# The history of a state database

The invariant of a run (`Kept`), which every step keeps, and from it what holds of every run of
calls on one state database (`anti_replay`). The audit is compared with the list of all rows that
were ever written: it is their end.
-/

namespace Argos.Policies

open Argos.Lib
open Argos.Vault (Bytes bytesOf)

/-! ## The audit -/

section Audit

/-- Rows with the ids `1`, `2`, .. in their order. -/
def Numbered (rows : List AuditRow) : Prop := rows.map (·.id) = (List.range rows.length).map (· + 1)

/-- The end of a list, of at most `maxAuditRows` rows. -/
def recent (rows : List AuditRow) : List AuditRow := rows.drop (rows.length - maxAuditRows)

variable {rows : List AuditRow}

theorem Numbered.id (h : Numbered rows) {i : Nat} (hi : i < rows.length) : rows[i].id = i + 1 := by
  have hget := congrArg (fun ids => ids[i]?) h
  simpa [hi] using hget

theorem Numbered.add (h : Numbered rows) {row : AuditRow} (hid : row.id = rows.length + 1) :
    Numbered (rows ++ [row]) := by
  unfold Numbered at h ⊢
  rw [List.map_append, h, List.length_append, List.length_singleton, List.range_succ, List.map_append]
  simp [hid]

/-- In numbered rows the test of `audit` keeps the end. -/
theorem Numbered.filter_drop (h : Numbered rows) {k : Nat} (hk : k ≤ rows.length - maxAuditRows) :
    (rows.drop k).filter (fun row => rows.length < row.id + maxAuditRows) = recent rows := by
  -- The rows up to the end fail the test, those from there on pass it.
  have hsplit : rows.drop k = (rows.drop k).take (rows.length - maxAuditRows - k) ++ recent rows := by
    have hdrop : recent rows = (rows.drop k).drop (rows.length - maxAuditRows - k) := by
      rw [List.drop_drop, Nat.add_sub_cancel' hk]
      rfl
    rw [hdrop, List.take_append_drop]
  rw [hsplit, List.filter_append, List.filter_eq_nil_iff.2, List.filter_eq_self.2, List.nil_append]
  · intro row hrow
    obtain ⟨i, hi, rfl⟩ := List.mem_iff_getElem.1 hrow
    rw [recent, List.length_drop] at hi
    simp only [recent, List.getElem_drop, decide_eq_true_eq]
    rw [h.id]
    omega
  · intro row hrow
    obtain ⟨i, hi, rfl⟩ := List.mem_iff_getElem.1 hrow
    rw [List.length_take, List.length_drop] at hi
    simp only [List.getElem_take, List.getElem_drop, decide_eq_true_eq]
    rw [h.id]
    omega

/-- A row is added to the end. -/
theorem withRow_recent {s : State} {row : AuditRow} (h : Numbered rows) (haudit : s.audit = recent rows)
    (hid : row.id = rows.length + 1) : (s.withRow row).audit = recent (rows ++ [row]) := by
  have hlength : (rows ++ [row]).length = row.id := by
    rw [List.length_append, List.length_singleton, hid]
  have hdrop : recent rows ++ [row] = (rows ++ [row]).drop (rows.length - maxAuditRows) := by
    rw [recent, List.drop_append_of_le_length (by omega)]
  have hfilter := (h.add hid).filter_drop (k := rows.length - maxAuditRows) (by omega)
  rw [hlength] at hfilter
  show (s.audit ++ [row]).filter (fun old => row.id < old.id + maxAuditRows) = _
  rw [haudit, hdrop, hfilter]

/-- The last row of an audit that was just written. -/
theorem getLast_withRow (s : State) (row : AuditRow) : (s.withRow row).audit.getLast? = some row := by
  show ((s.audit ++ [row]).filter fun old => row.id < old.id + maxAuditRows).getLast? = _
  have hpass : [row].filter (fun old => row.id < old.id + maxAuditRows) = [row] := by
    simp [maxAuditRows]
  rw [List.filter_append, hpass, List.getLast?_append]
  rfl

end Audit

/-! ## The invariant -/

section Invariant

variable (T : Tools) (files : List Bytes)

/-- A verified policy keeps its file with its digest. -/
def Traced (verified : Except String Verified) : Prop :=
  ∀ v, verified = .ok v → v.hash = T.digest.hash v.bytes ∧ v.bytes ∈ files

/-- The invariant of a run whose policy files are among some. -/
structure Kept (sys : Sys) : Prop where
  valid : Valid T sys.db
  bytes : ∀ row ∈ sys.db.accepted, row.policyBytes ∈ files
  waiting : ∀ p ∈ sys.waiting, Traced T files p.verified
  log : ∀ d ∈ sys.log, d.Sound
  numbered : Numbered sys.written
  audit : sys.db.audit = recent sys.written
  seq : sys.db.auditSeq = sys.written.length

variable {T files} {sys : Sys}

/-- What `read_verify` returns. -/
theorem readVerify_traced {config : PolicyFileConfig} {f : Files} (hmem : ∀ b ∈ f.policy, b ∈ files) :
    Traced T files (readVerify T config f) := by
  intro v hv
  simp only [readVerify, Prog.answer_bind_iff, require_ok_iff, refuse_ok_iff, Vault.exists_unit_iff] at hv
  obtain ⟨-, bytes, hbytes, _, -, _, -, _, -, policy, -, -, -, settings, -, hv⟩ := hv
  obtain rfl := Except.ok.inj hv
  unfold readBounded at hbytes
  rw [Option.filter_eq_some_iff] at hbytes
  exact ⟨rfl, hmem bytes hbytes.1⟩

theorem checkTarget_ok {config : PolicyFileConfig} {policy : Policy}
    (h : checkTarget config policy = .ok ()) : Targets config policy := by
  simp only [checkTarget, Prog.answer_bind_iff, refuse_ok_iff, Vault.exists_unit_iff] at h
  obtain ⟨hsome, hhost, hgroup⟩ := h
  rw [Bool.and_eq_false_iff] at hsome hhost hgroup
  simp only [Bool.not_eq_false', List.isEmpty_eq_false_iff, List.isEmpty_iff, List.contains_iff_mem,
    List.any_eq_true] at hsome hhost hgroup
  exact ⟨hsome, hhost.resolve_left, fun hne => hgroup.resolve_left hne⟩

theorem checkMetadata_ok {config : PolicyFileConfig} {policy : Policy} {now : Nat}
    (h : checkMetadata config policy now = .ok ()) :
    policy.policyId = config.policyId ∧ policy.notBeforeMs ≤ now ∧ now < policy.expiresAtMs ∧
      Targets config policy := by
  simp only [checkMetadata, Prog.answer_bind_iff, refuse_ok_iff, Vault.exists_unit_iff] at h
  obtain ⟨hid, -, hstart, hend, htarget⟩ := h
  refine ⟨by simpa using hid, ?_, ?_, checkTarget_ok htarget⟩
  · have := of_decide_eq_false hstart
    omega
  · have := of_decide_eq_false hend
    omega

/-- The call of a transaction that was committed and returned is sound. -/
theorem Effect.sound {d : Done} {r : Except String Activated}
    (heffect : Effect d.config d.verified d.now d.before r d.after) (hresult : d.result = .ok r)
    (hvalid : Valid T d.before) (hbytes : ∀ row ∈ d.before.accepted, row.policyBytes ∈ files)
    (htraced : Traced T files d.verified)
    (hcollide : ∀ a ∈ files, ∀ b ∈ files, T.digest.hash a = T.digest.hash b → a = b) : d.Sound := by
  unfold Done.Sound
  rw [hresult]
  obtain ⟨config, verified, now, before, after, result⟩ := d
  dsimp only at heffect hvalid hbytes htraced ⊢
  cases heffect with
  | rejected code v written => exact ⟨_, writeAudit_ok written, rfl, rfl, rfl⟩
  | restarted v row source valid active series version hash written =>
    obtain ⟨hid, hstart, hend, htarget⟩ := checkMetadata_ok valid
    have hlast : before.accepted.getLast? = some row := by rw [← hvalid.activeRow, active]
    have hmem := List.mem_of_getLast? hlast
    rw [writeAudit_ok written]
    refine ⟨v, source, rfl, rfl, hid, hstart, hend, htarget, .inl ⟨rfl, rfl, rfl, row, hmem, ?_, version.symm, ?_⟩⟩
    · show before.active = _
      rw [hvalid.active, hlast]
      rfl
    · refine hcollide _ (hbytes row hmem) _ (htraced v source).2 ?_
      rw [← hvalid.hashes row hmem, ← hash, (htraced v source).1]
  | accepted v verdict source valid fresh inserted written =>
    obtain ⟨hid, hstart, hend, htarget⟩ := checkMetadata_ok valid
    have hnew : verdict ≠ .restarted := by
      rw [fresh.verdict]
      split <;> simp
    have hnewer : ∀ version ∈ before.active, version < v.policy.version := by
      intro version hversion
      rw [hvalid.active] at hversion
      obtain ⟨last, hlast, rfl⟩ := Option.map_eq_some_iff.1 hversion
      rw [← hvalid.activeRow] at hlast
      exact (fresh.newer last hlast).2
    rw [writeAudit_ok written, insertAccepted_ok inserted]
    refine ⟨v, source, rfl, rfl, hid, hstart, hend, htarget, .inr ⟨hnew, hnewer, rfl, rfl, ?_⟩⟩
    intro r hr
    obtain ⟨row, hrow, hversion, -, hhash, hsettings, hunused⟩ := fresh.rollback r hr
    obtain ⟨last, hlast⟩ : ∃ last, before.accepted.getLast? = some last :=
      ⟨_, List.getLast?_eq_getLast_of_ne_nil (List.ne_nil_of_mem hrow)⟩
    have hle := hvalid.le_last hlast row hrow
    have hlt := (fresh.newer last (by rw [hvalid.activeRow, hlast]; rfl)).2
    exact ⟨row, hrow, hversion, by omega, hhash, hsettings, hunused⟩

/-- Every committed transaction adds one row to the audit. -/
theorem Effect.audit {config : PolicyFileConfig} {verified : Except String Verified} {now : Nat}
    {s s' : State} {r : Except String Activated} (heffect : Effect config verified now s r s') :
    ∃ row : AuditRow, row.id = s.auditSeq + 1 ∧ s'.audit = (s.withRow row).audit ∧
      s'.auditSeq = row.id := by
  cases heffect with
  | rejected code v written => exact ⟨_, rfl, by rw [writeAudit_ok written], by rw [writeAudit_ok written]; rfl⟩
  | restarted v row source valid active series version hash written =>
    exact ⟨_, rfl, by rw [writeAudit_ok written], by rw [writeAudit_ok written]; rfl⟩
  | accepted v verdict source valid fresh inserted written =>
    rw [writeAudit_ok written, insertAccepted_ok inserted]
    exact ⟨_, rfl, rfl, rfl⟩

/-- A transaction on a database: the policies stay valid and grow at their end, and the audit stays
the end of what was written. -/
theorem Kept.transaction {p : Pending} {now : Nat} {s' : State} (h : Kept T files sys)
    (htraced : Traced T files p.verified)
    (hcase : s' = sys.db ∨ ∃ r, Effect p.config p.verified now sys.db r s') :
    Valid T s' ∧ (∀ row ∈ s'.accepted, row.policyBytes ∈ files) ∧ sys.db.accepted <+: s'.accepted ∧
      Numbered (sys.written ++ newRows sys.db s') ∧ s'.audit = recent (sys.written ++ newRows sys.db s') ∧
      s'.auditSeq = (sys.written ++ newRows sys.db s').length := by
  rcases hcase with rfl | ⟨r, heffect⟩
  · have hnone : newRows sys.db sys.db = [] := if_pos rfl
    rw [hnone, List.append_nil]
    exact ⟨h.valid, h.bytes, List.prefix_rfl, h.numbered, h.audit, h.seq⟩
  · obtain ⟨hvalid, haccepted⟩ := heffect.valid h.valid fun v hv => (htraced v hv).1
    obtain ⟨row, hid, haudit, hseq⟩ := heffect.audit
    have hnew : newRows sys.db s' = [row] := by
      unfold newRows
      rw [if_neg (by omega), haudit, getLast_withRow]
      rfl
    rw [h.seq] at hid
    rw [hnew]
    refine ⟨hvalid, ?_, ?_, h.numbered.add hid, ?_, ?_⟩
    · rcases haccepted with hsame | ⟨v, hv, hadd⟩
      · rw [hsame]
        exact h.bytes
      · rw [hadd]
        intro found hfound
        rw [List.mem_append, List.mem_singleton] at hfound
        rcases hfound with hfound | rfl
        · exact h.bytes found hfound
        · exact (htraced v hv).2
    · rcases haccepted with hsame | ⟨v, hv, hadd⟩
      · exact hsame.symm ▸ List.prefix_rfl
      · rw [hadd]
        exact List.prefix_append _ _
    · rw [haudit]
      exact withRow_recent h.numbered h.audit hid
    · rw [hseq, hid, List.length_append, List.length_singleton]

variable (hcollide : ∀ a ∈ files, ∀ b ∈ files, T.digest.hash a = T.digest.hash b → a = b)

include hcollide in
/-- Every step keeps the invariant, and what was accepted stays. -/
theorem Kept.next (h : Kept T files sys) (event : Event) (plan : Plan)
    (hfiles : ∀ b ∈ contents [(event, plan)], b ∈ files) :
    Kept T files (sys.next T event plan) ∧
      sys.db.accepted <+: (sys.next T event plan).db.accepted := by
  cases event with
  | begin config f =>
    refine ⟨⟨h.valid, h.bytes, ?_, h.log, h.numbered, h.audit, h.seq⟩, List.prefix_rfl⟩
    intro p hp
    rcases List.mem_append.1 hp with hp | hp
    · exact h.waiting p hp
    · rw [List.mem_singleton.1 hp]
      refine readVerify_traced fun b hb => hfiles b ?_
      simpa [contents] using hb
  | transact i now =>
    rcases hp : sys.waiting[i]? with _ | p
    · have hsame : sys.next T (.transact i now) plan = sys := by
        simp only [Sys.next, hp]
      rw [hsame]
      exact ⟨h, List.prefix_rfl⟩
    · have htraced := h.waiting p (List.mem_of_getElem? hp)
      have hsat := @activate_sat sys.db p.config now p.verified plan
      rcases hrun : activate p.config p.verified now plan sys.db with ⟨o, plan', s'⟩
      rw [hrun] at hsat
      have hnext : sys.next T (.transact i now) plan = sys.ended i p now (o, plan', s') := by
        simp only [Sys.next, hp, hrun]
      -- The transaction was committed or has changed nothing; what the call returned fits.
      have hcase : (s' = sys.db ∨ ∃ r, Effect p.config p.verified now sys.db r s') ∧
          (⟨p.config, p.verified, now, sys.db, s', o⟩ : Done).Sound := by
        cases o with
        | ok r =>
          refine ⟨.inr ⟨r, hsat⟩, Effect.sound ?_ rfl h.valid h.bytes htraced hcollide⟩
          exact hsat
        | error e => exact ⟨hsat, hsat⟩
        | killed => exact ⟨.inl hsat, hsat⟩
      obtain ⟨hvalid, hbytes, haccepted, hnumbered, haudit, hseq⟩ := h.transaction htraced hcase.1
      rw [hnext]
      refine ⟨⟨hvalid, hbytes, fun q hq => h.waiting q (List.mem_of_mem_eraseIdx hq), ?_, hnumbered,
        haudit, hseq⟩, haccepted⟩
      intro d hd
      rcases List.mem_append.1 hd with hd | hd
      · exact h.log d hd
      · rw [List.mem_singleton.1 hd]
        exact hcase.2

include hcollide in
/-- A run keeps the invariant, and what was accepted stays. -/
theorem Kept.play (h : Kept T files sys) (script : List (Event × Plan))
    (hfiles : ∀ b ∈ contents script, b ∈ files) :
    Kept T files (sys.play T script) ∧ sys.db.accepted <+: (sys.play T script).db.accepted := by
  induction script generalizing sys with
  | nil => exact ⟨h, List.prefix_rfl⟩
  | cons step rest ih =>
    have hcontents : contents (step :: rest) = contents [step] ++ contents rest := by
      unfold contents
      rw [← List.filterMap_append]
      rfl
    rw [hcontents] at hfiles
    obtain ⟨hnext, hprefix⟩ := h.next hcollide step.1 step.2 fun b hb =>
      hfiles b (List.mem_append_left _ hb)
    obtain ⟨hplay, hprefix'⟩ := ih hnext fun b hb => hfiles b (List.mem_append_right _ hb)
    exact ⟨hplay, hprefix.trans hprefix'⟩

theorem Kept.initial : Kept T files {} where
  valid := ⟨List.Pairwise.nil, rfl, by simp, List.nodup_nil, by simp⟩
  bytes := by simp
  waiting := by simp
  log := by simp
  numbered := rfl
  audit := rfl
  seq := rfl

end Invariant

/-! ## Every run -/

/-- The active version is the largest that was accepted. -/
def ActiveIsLargest (s : State) : Prop :=
  (s.active = none ↔ s.accepted = []) ∧ ∀ version ∈ s.active,
    (∃ row ∈ s.accepted, row.version = version) ∧ ∀ row ∈ s.accepted, row.version ≤ version

theorem Valid.activeIsLargest {T : Tools} {s : State} (h : Valid T s) : ActiveIsLargest s := by
  constructor
  · rw [h.active, Option.map_eq_none_iff, List.getLast?_eq_none_iff]
  · intro version hversion
    rw [h.active] at hversion
    obtain ⟨last, hlast, rfl⟩ := Option.map_eq_some_iff.1 hversion
    exact ⟨⟨last, List.mem_of_getLast? hlast, rfl⟩, h.le_last hlast⟩

/-- Calls of `activate_at` on one state database, by any processes in any order, with any files,
configurations and times, under any failures of the database, as long as no two of the policy files
collide: the active version is the largest accepted one and never decreases; a version keeps its
policy, and all are of one series; no approval is accepted twice; every call that has ended is
sound; and the audit is the end of all the rows that were written. `more` is what happens later. -/
theorem anti_replay (T : Tools) (script more : List (Event × Plan))
    (hcollide : ∀ a ∈ contents (script ++ more), ∀ b ∈ contents (script ++ more),
      T.digest.hash a = T.digest.hash b → a = b) :
    let sys := Sys.play T {} script
    let later := Sys.play T {} (script ++ more)
    ActiveIsLargest sys.db ∧
    (∀ version ∈ sys.db.active, ∃ version' ∈ later.db.active, version ≤ version') ∧
    sys.db.accepted <+: later.db.accepted ∧
    (∀ a ∈ later.db.accepted, ∀ b ∈ later.db.accepted, a.policyId = b.policyId ∧
      (a.version = b.version → a = b)) ∧
    (later.db.accepted.filterMap (·.approvalId)).Nodup ∧
    (∀ d ∈ sys.log, d.Sound) ∧
    sys.db.audit = sys.written.drop (sys.written.length - 10000) ∧ sys.db.audit.length ≤ 10000 := by
  have hcontents : contents (script ++ more) = contents script ++ contents more :=
    List.filterMap_append
  have hplay := (@Kept.initial T (contents (script ++ more))).play hcollide script fun b hb => by
    rw [hcontents]
    exact List.mem_append_left _ hb
  have hmore := hplay.1.play hcollide more fun b hb => by
    rw [hcontents]
    exact List.mem_append_right _ hb
  have hlater : Sys.play T {} (script ++ more) = (Sys.play T {} script).play T more :=
    List.foldl_append
  rw [← hlater] at hmore
  obtain ⟨hkept, -⟩ := hplay
  obtain ⟨hkept', hprefix⟩ := hmore
  refine ⟨hkept.valid.activeIsLargest, ?_, hprefix, ?_, hkept'.valid.approvals, hkept.log, hkept.audit, ?_⟩
  · intro version hversion
    obtain ⟨⟨row, hrow, rfl⟩, -⟩ := hkept.valid.activeIsLargest.2 version hversion
    have hrow' := hprefix.subset hrow
    rcases hactive : (Sys.play T {} (script ++ more)).db.active with _ | version'
    · rw [hkept'.valid.activeIsLargest.1.1 hactive] at hrow'
      cases hrow'
    · exact ⟨version', rfl, (hkept'.valid.activeIsLargest.2 version' hactive).2 row hrow'⟩
  · intro a ha b hb
    exact ⟨hkept'.valid.series a ha b hb, hkept'.valid.version_inj ha hb⟩
  · rw [hkept.audit, recent, List.length_drop]
    unfold maxAuditRows
    omega

/-! ## A run -/

section Sample

/-- The text of a policy file, a version apart. -/
def sampleText (version : String) : String :=
  "version=" ++ version ++ "\npolicy_id=\"prod\"\nkey_id=\"k\"\nissued_at_ms=1\nnot_before_ms=1\n" ++
    "expires_at_ms=9\ntarget_hosts=[\"h\"]\n"

/-- The policy of the text. -/
def samplePolicy (version : Nat) : Policy where
  version := version
  policyId := "prod"
  keyId := "k"
  issuedAtMs := 1
  notBeforeMs := 1
  expiresAtMs := 9
  targetHosts := ["h"]
  targetGroups := []
  rollback := none
  detection := .default
  response := .default

/-- A public key. -/
def sampleKey : String := "d75a980182b10ab7d54bfed3c964073a0ee172f3daa62325af021a68f707511a"

/-- The signature of the first version. -/
def sampleSignature1 : String :=
  "1451356d19b39480f8197c8a7f03b21b4f36c9467b2ffb2be0163cdd602e0330" ++
    "01280ab36147f70be8c31d94fcc2369c8a86c964bc344db7088c4aa215172201"

/-- The signature of the second version. -/
def sampleSignature2 : String :=
  "6b68b475f0e9e4030e1dd803df07e954dc892a4a909b663155a13aa09fe64f09" ++
    "b132dffdadace388e1a1d6049e88e295d0f1dce7552e1ff07064937d432b3e0d"

/-- The settings of the policy. -/
def sampleSettings : String :=
    "[\x7b\"window_secs\":10,\"mass_change_threshold\":30,\"min_changed_files\":5," ++
    "\"entropy_threshold\":7.2,\"detect_score\":40.0," ++
    "\"entropy_sample_bytes\":65536,\"exclude_paths\":[],\"approved_changes\":[]," ++
    "\"canary_paths\":[],\"multi_window\":\x7b\"enabled\":false," ++
    "\"windows\":[\x7b\"window_secs\":10,\"min_changed_files\":5," ++
    "\"mass_change_threshold\":30,\"detect_score\":65.0\x7d,\x7b\"window_secs\":60," ++
    "\"min_changed_files\":8,\"mass_change_threshold\":40,\"detect_score\":65.0\x7d," ++
    "\x7b\"window_secs\":600,\"min_changed_files\":12,\"mass_change_threshold\":60," ++
    "\"detect_score\":65.0\x7d],\"protected_paths\":[],\"aggregate_by_user\":true," ++
    "\"aggregate_by_ancestry\":true,\"max_events\":10000,\"max_groups\":2048," ++
    "\"max_path_bytes\":4096\x7d,\"content_sampling\":\x7b\"enabled\":false," ++
    "\"total_bytes\":65536,\"max_files\":2048,\"history_secs\":600," ++
    "\"min_entropy_increase\":1.0\x7d\x7d,\x7b\"auto_block\":false,\"block_score\":80.0\x7d]"

/-- The digests of the two files. -/
def sampleDigest : Recovery.Digest where
  hash data :=
    if data = bytesOf (sampleText "1") then
      "0a6359bdba627343e2564be75ef0020870523c8bdabd2c614eac046bd536552f"
    else if data = bytesOf (sampleText "2") then
      "f5414408f5b404f568d617bac67514bebc1a2d80bc01d934d8acaaba2d1ee08b"
    else "e3b0c44298fc1c149afbf4c8996fb92427ae41e4649b934ca495991b7852b855"
  named := by
    intro data
    split
    · decide +kernel
    · split <;> decide +kernel

/-- The bytes of the key. -/
def sampleKeyBytes : Bytes :=
  [215, 90, 152, 1, 130, 177, 10, 183, 213, 75, 254, 211, 201, 100, 7, 58, 14, 225, 114, 243,
    218, 166, 35, 37, 175, 2, 26, 104, 247, 7, 81, 26]

/-- The bytes of the two signatures. -/
def sampleSigned1 : Bytes :=
  [20, 81, 53, 109, 25, 179, 148, 128, 248, 25, 124, 138, 127, 3, 178, 27, 79, 54, 201, 70, 123,
    47, 251, 43, 224, 22, 60, 221, 96, 46, 3, 48, 1, 40, 10, 179, 97, 71, 247, 11, 232, 195, 29,
    148, 252, 194, 54, 156, 138, 134, 201, 100, 188, 52, 77, 183, 8, 140, 74, 162, 21, 23, 34, 1]

@[inherit_doc sampleSigned1]
def sampleSigned2 : Bytes :=
  [107, 104, 180, 117, 240, 233, 228, 3, 14, 29, 216, 3, 223, 7, 233, 84, 220, 137, 42, 74, 144,
    155, 102, 49, 85, 161, 58, 160, 159, 230, 79, 9, 177, 50, 223, 253, 173, 172, 227, 136, 225,
    161, 214, 4, 158, 136, 226, 149, 208, 241, 220, 231, 85, 46, 31, 240, 112, 100, 147, 125, 67,
    43, 62, 13]

/-- What is computed of the two files. -/
def sampleTools : Tools where
  validKey bytes := bytes = sampleKeyBytes
  verifies key message signature := key = sampleKeyBytes &&
    (signature = sampleSigned1 && message = bytesOf (sampleText "1") ||
      signature = sampleSigned2 && message = bytesOf (sampleText "2"))
  policyOf text :=
    if text = sampleText "1" then some (samplePolicy 1)
    else if text = sampleText "2" then some (samplePolicy 2) else none
  settingsOf detection response :=
    if detection = .default ∧ response = .default then some sampleSettings else none
  digest := sampleDigest

/-- The host of the run. -/
def sampleConfig : PolicyFileConfig := ⟨"prod", "h", [], [("k", sampleKey)]⟩

/-- Two calls are made, with the first version and with the second, and the second is faster. -/
def sampleScript : List (Event × Plan) :=
  [(.begin sampleConfig ⟨some (bytesOf (sampleText "1")), some (bytesOf sampleSignature1)⟩, []),
    (.begin sampleConfig ⟨some (bytesOf (sampleText "2")), some (bytesOf sampleSignature2)⟩, []),
    (.transact 1 5, []), (.transact 0 6, [])]

/-- The outcomes of the calls that have ended. -/
def Sys.outcomes (sys : Sys) : List String :=
  sys.log.map fun d => match d.result with
    | .ok (.ok a) => a.outcome.text
    | .ok (.error code) => code
    | _ => ""

/-- The older version is refused after the newer one. -/
theorem anti_replay_late_version :
    (Sys.play sampleTools {} sampleScript).outcomes = ["accepted", "version_downgrade"] ∧
    (Sys.play sampleTools {} sampleScript).db.active = some 2 ∧
    ∀ d ∈ (Sys.play sampleTools {} sampleScript).log, d.Sound := by
  have hrun : (Sys.play sampleTools {} sampleScript).outcomes =
      ["accepted", "version_downgrade"] ∧
      (Sys.play sampleTools {} sampleScript).db.active = some 2 := by decide +kernel
  have hkept := anti_replay sampleTools sampleScript [] (by decide +kernel)
  exact ⟨hrun.1, hrun.2, hkept.2.2.2.2.2.1⟩

end Sample

end Argos.Policies
