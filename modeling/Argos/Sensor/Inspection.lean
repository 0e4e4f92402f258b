import Argos.Sensor.Coverage

/-!
# What no observed gap means

The entries of a tree are listed without a budget (`Node.sights`), and the walk of `inspect` is
compared with that list. `Seen w w' sights` says that a walk that goes from `w` to `w'` has looked
at `sights`: no issue came up exactly when every one of them is as it should be and the budget was
large enough, and then each has been counted. Such steps put together are such a step
(`Seen.append`), so that the recursion of `visit_fd` is followed by a mutual induction over the
tree.

`no_observed_gap_iff` puts the rows of all roots together.
-/

namespace Argos.Sensor

open Argos.Lib

/-! ## The entries of a tree -/

/-- An entry of a tree: one that cannot be read, named or opened, or a file. -/
inductive Sight where
  | lost
  | file (path : Text) (depth : Nat) (facts : Facts) (listed : Bool)

/-- A regular file that can be read, or a directory above the depth limit that can be read and
listed. -/
def Sight.Readable : Sight → Prop
  | .lost => False
  | .file _ depth facts listed =>
    facts.readable = true ∧ ∃ found, facts.metadata = some found ∧
      (found.kind = .regular ∨ found.kind = .directory ∧ depth < maxDepth ∧ listed = true)

/-- The path of an entry can be looked up. -/
def Sight.Short : Sight → Prop
  | .lost => True
  | .file path _ _ _ => byteLength path < pathMax

/-- An entry that is looked at without an issue. -/
def Sight.Fine (s : Sight) : Prop := s.Readable ∧ s.Short

mutual

/-- The entries of a tree, the file at its root first. -/
def Node.sights : Node → Text → Nat → List Sight
  | .leaf facts, path, depth => [.file path depth facts false]
  | .tree facts entries, path, depth =>
    .file path depth facts true ::
      if facts.metadata.map (·.kind) = some .directory then entries.sights path depth else []

/-- The entries below a directory. -/
def Entries.sights : Entries → Text → Nat → List Sight
  | .nil, _, _ => []
  | .unreadable rest, path, depth => .lost :: rest.sights path depth
  | .unnamed rest, path, depth => .lost :: rest.sights path depth
  | .unopened _ rest, path, depth => .lost :: rest.sights path depth
  | .entry name child rest, path, depth =>
    child.sights (joinPath path name) (depth + 1) ++ rest.sights path depth

end

mutual

/-- The path of every file leads to the file when it is looked up after the visit. -/
def Node.Steady : Node → Prop
  | .leaf facts => facts.lookup = facts.metadata
  | .tree facts entries => facts.lookup = facts.metadata ∧ entries.Steady

/-- Every file below a directory is steady. -/
def Entries.Steady : Entries → Prop
  | .nil => True
  | .unreadable rest => rest.Steady
  | .unnamed rest => rest.Steady
  | .unopened _ rest => rest.Steady
  | .entry _ child rest => child.Steady ∧ rest.Steady

end

/-! ## Issues -/

theorem RootCoverage.not_clean_issue (row : RootCoverage) (code : String) (path : Text) :
    ¬ (row.issue code path).clean := by
  rintro ⟨hissues, homitted⟩
  unfold issue at hissues homitted
  split at hissues
  · exact absurd hissues (by simp)
  · next hlong =>
    rw [if_neg hlong] at homitted
    unfold Vault.saturatingAdd Vault.u64Max at homitted
    dsimp only at homitted
    omega

theorem Walk.not_clean_issue (w : Walk) (code : String) (path : Text) :
    ¬ (w.issue code path).report.clean := w.report.not_clean_issue code path

/-- An issue that comes up stays. -/
theorem Walk.not_clean_ite (p : Prop) [Decidable p] {w : Walk} (code : String) (path : Text)
    (h : ¬ w.report.clean) : ¬ (if p then w.issue code path else w).report.clean := by
  split_ifs
  · exact w.not_clean_issue code path
  · exact h

/-- An issue under a condition: the row is clean exactly when it was, and the condition does not
hold. -/
theorem RootCoverage.clean_ite_issue {p : Prop} [Decidable p] {row : RootCoverage} {code : String}
    {path : Text} : (if p then row.issue code path else row).clean ↔ row.clean ∧ ¬ p := by
  split_ifs with h
  · exact ⟨fun hclean => absurd hclean (row.not_clean_issue code path), fun hall => absurd h hall.2⟩
  · exact (and_iff_left h).symm

/-! ## Steps of the walk -/

/-- From one walk to another, the entries have been looked at. -/
structure Seen (w w' : Walk) (sights : List Sight) : Prop where
  clean_iff : w'.report.clean ↔
    w.report.clean ∧ (∀ s ∈ sights, s.Fine) ∧ sights.length ≤ w.remaining
  counted : w'.report.clean → w'.remaining + sights.length = w.remaining ∧
    w'.report.entriesChecked = w.report.entriesChecked + sights.length

namespace Seen

variable {w w' w'' : Walk} {s : Sight} {sights more : List Sight}

theorem nil (w : Walk) : Seen w w [] :=
  ⟨by simp, fun _ => ⟨rfl, rfl⟩⟩

/-- A walk with an issue, where an entry is not fine or the budget is too small. -/
theorem bad (hissue : ¬ w'.report.clean)
    (h : (∀ s ∈ sights, s.Fine) → w.remaining < sights.length) :
    Seen w w' sights := by
  refine ⟨⟨fun hclean => absurd hclean hissue, ?_⟩, fun hclean => absurd hclean hissue⟩
  rintro ⟨-, hfine, hlength⟩
  exact absurd (h hfine) (Nat.not_lt.2 hlength)

/-- An entry that is fine is counted. -/
theorem count (hremaining : w.remaining ≠ 0) (h : s.Fine) : Seen w w.tick.count [s] := by
  constructor
  · constructor
    · intro hclean
      refine ⟨hclean, by simpa using h, ?_⟩
      rw [List.length_singleton]
      omega
    · exact fun hall => hall.1
  · intro _
    refine ⟨?_, rfl⟩
    change w.remaining - 1 + 1 = w.remaining
    omega

/-- One step after the other. -/
theorem append (h : Seen w w' sights) (h' : Seen w' w'' more) : Seen w w'' (sights ++ more) := by
  constructor
  · rw [h'.clean_iff, h.clean_iff, List.length_append, List.forall_mem_append]
    constructor
    · rintro ⟨⟨hclean, hfine, hlength⟩, hmore, hrest⟩
      have hcount := (h.counted (h.clean_iff.2 ⟨hclean, hfine, hlength⟩)).1
      exact ⟨hclean, ⟨hfine, hmore⟩, by omega⟩
    · rintro ⟨hclean, ⟨hfine, hmore⟩, hlength⟩
      have hcount := (h.counted (h.clean_iff.2 ⟨hclean, hfine, by omega⟩)).1
      exact ⟨⟨hclean, hfine, by omega⟩, hmore, by omega⟩
  · intro hclean
    obtain ⟨hrest, hchecked⟩ := h'.counted hclean
    obtain ⟨hfirst, hbefore⟩ := h.counted (h'.clean_iff.1 hclean).1
    rw [List.length_append]
    constructor <;> omega

end Seen

section Visit

variable {late : Nat → Bool}

/-- How a visit begins: it ends at once with an issue, or goes on with a file that is counted. -/
theorem enter_spec (hlate : ∀ n, late n = false) (facts : Facts) (path : Text) (depth : Nat)
    (w : Walk) :
    (∃ w', enter late facts path depth w = (w', none) ∧ ¬ w'.report.clean ∧
      ∀ listed, (Sight.file path depth facts listed).Fine → w.remaining = 0) ∨
    (∃ found, enter late facts path depth w = (w.tick.count, some found) ∧ w.remaining ≠ 0 ∧
      facts.metadata = some found ∧ facts.readable = true ∧
      (found.kind = .regular ∨ found.kind = .directory ∧ depth < maxDepth)) := by
  unfold enter Walk.take
  rw [hlate, if_neg Bool.false_ne_true]
  by_cases hzero : w.remaining = 0
  · rw [if_pos hzero]
    exact .inl ⟨_, rfl, Walk.not_clean_issue _ _ _, fun _ _ => hzero⟩
  rw [if_neg hzero]
  dsimp only
  rcases hfound : facts.metadata with _ | found
  · refine .inl ⟨_, rfl, Walk.not_clean_issue _ _ _, ?_⟩
    rintro listed ⟨⟨-, found, hsome, -⟩, -⟩
    rw [hfound] at hsome
    cases hsome
  dsimp only
  -- each of the four checks fails for a file that is not fine
  have hend : ∀ {w' : Walk}, ¬ w'.report.clean →
      (∀ listed, ¬ (Sight.file path depth facts listed).Readable) →
      (∃ w'', ((w', none) : Walk × Option FileMetadata) = (w'', none) ∧ ¬ w''.report.clean ∧
        ∀ listed, (Sight.file path depth facts listed).Fine → w.remaining = 0) :=
    fun hissue hbad => ⟨_, rfl, hissue, fun listed hfine => absurd hfine.1 (hbad listed)⟩
  have hkind : ∀ listed, (Sight.file path depth facts listed).Readable →
      facts.readable = true ∧ (found.kind = .regular ∨ found.kind = .directory ∧ depth < maxDepth) := by
    rintro listed ⟨hread, found', hsome, hcases⟩
    obtain rfl := Option.some.inj (hfound.symm.trans hsome)
    exact ⟨hread, hcases.imp_right fun h => ⟨h.1, h.2.1⟩⟩
  split_ifs with hlink hother hdenied hdeep
  · refine .inl (hend (Walk.not_clean_issue _ _ _) fun listed hread => ?_)
    rcases (hkind listed hread).2 with h | ⟨h, -⟩ <;> rw [hlink] at h <;> cases h
  · refine .inl (hend (Walk.not_clean_issue _ _ _) fun listed hread => ?_)
    rcases (hkind listed hread).2 with h | ⟨h, -⟩
    · exact hother.1 h
    · exact hother.2 h
  · refine .inl (hend (Walk.not_clean_issue _ _ _) fun listed hread => ?_)
    rw [(hkind listed hread).1] at hdenied
    cases hdenied
  · refine .inl (hend (Walk.not_clean_issue _ _ _) fun listed hread => ?_)
    rcases (hkind listed hread).2 with h | ⟨-, h⟩
    · rw [hdeep.1] at h
      cases h
    · omega
  · refine .inr ⟨found, rfl, hzero, rfl, by simpa using hdenied, ?_⟩
    by_cases hregular : found.kind = .regular
    · exact .inl hregular
    · have hdirectory : found.kind = .directory := by
        by_contra hno
        exact hother ⟨hregular, hno⟩
      exact .inr ⟨hdirectory, by_contra fun hge => hdeep ⟨hdirectory, by omega⟩⟩

/-- The end of the visit of a steady file: an issue exactly when its path is too long. -/
theorem settle_spec {facts : Facts} (hsteady : facts.lookup = facts.metadata) {found : FileMetadata}
    (hfound : facts.metadata = some found) (path : Text) (w : Walk) :
    (byteLength path < pathMax → settle facts found path w = w) ∧
      (¬ byteLength path < pathMax → ¬ (settle facts found path w).report.clean) := by
  unfold settle lookupMetadata
  rw [hsteady, hfound]
  constructor
  · intro hshort
    rw [if_pos hshort, if_neg (by simp)]
  · intro hlong
    rw [if_neg hlong, if_pos (by simp)]
    exact Walk.not_clean_issue _ _ _

/-- A visit that does not list: the file is the only entry. -/
theorem seen_settle {facts : Facts} (hsteady : facts.lookup = facts.metadata) {found : FileMetadata}
    (hfound : facts.metadata = some found) {path : Text} {depth : Nat} {listed : Bool} {w w' : Walk}
    {sights : List Sight} (hremaining : w.remaining ≠ 0)
    (hread : (Sight.file path depth facts listed).Readable)
    (h : Seen w.tick.count w' sights) :
    Seen w (settle facts found path w') (.file path depth facts listed :: sights) := by
  obtain ⟨hshort, hlong⟩ := settle_spec hsteady hfound path w'
  by_cases hpath : byteLength path < pathMax
  · rw [hshort hpath]
    exact (Seen.count hremaining ⟨hread, hpath⟩).append h
  · refine Seen.bad (hlong hpath) fun hfine => absurd (hfine _ List.mem_cons_self).2 hpath

/-- The loop goes on to the next entry, or the budget is used up. -/
theorem nextEntry_spec (hlate : ∀ n, late n = false) (path : Text) (w : Walk) :
    (nextEntry late path w = (true, w.tick) ∧ w.remaining ≠ 0) ∨
      (∃ w', nextEntry late path w = (false, w') ∧ ¬ w'.report.clean ∧ w.remaining = 0) := by
  unfold nextEntry
  by_cases hzero : w.remaining = 0
  · rw [if_pos hzero]
    exact .inr ⟨_, rfl, Walk.not_clean_issue _ _ _, hzero⟩
  · rw [if_neg hzero, hlate, if_neg Bool.false_ne_true]
    exact .inl ⟨rfl, hzero⟩

/-- An entry that is lost leaves an issue, whatever the rest of the walk sees. -/
theorem seen_lost {w w' : Walk} {sights : List Sight} (h : ¬ w'.report.clean) :
    Seen w w' (.lost :: sights) :=
  Seen.bad h fun hfine => absurd (hfine _ List.mem_cons_self).1 id

/-- The loop counts an entry that is lost with an issue, and goes on to the rest. -/
theorem seen_lost_rest (hlate : ∀ n, late n = false) {rest : Walk → Walk} {sights : List Sight}
    (hrest : ∀ w, Seen w (rest w) sights) (path : Text) (w : Walk) (code : String) (lost : Text) :
    Seen w (match nextEntry late path w with
      | (false, w) => w
      | (true, w) => rest (w.count.issue code lost)) (.lost :: sights) := by
  apply seen_lost
  obtain ⟨hnext, -⟩ | ⟨w', hnext, hissue, -⟩ := nextEntry_spec hlate path w
  · rw [hnext]
    exact fun hclean => Walk.not_clean_issue _ code lost ((hrest _).clean_iff.1 hclean).1
  · rw [hnext]
    exact hissue

mutual

/-- A visit sees the entries of the tree. -/
theorem visitFd_seen (hlate : ∀ n, late n = false) :
    ∀ (node : Node) (path : Text) (depth : Nat) (w : Walk), node.Steady →
    Seen w (visitFd late node path depth w) (node.sights path depth)
  | .leaf facts, path, depth, w, hsteady => by
    rw [visitFd, Node.sights]
    obtain ⟨w', henter, hissue, hzero⟩ | ⟨found, henter, hremaining, hfound, hread, hkind⟩ :=
      enter_spec hlate facts path depth w <;> rw [henter] <;> dsimp only
    · refine Seen.bad hissue fun hfine => ?_
      rw [hzero false (hfine _ List.mem_cons_self)]
      exact Nat.zero_lt_one
    · split_ifs with hdirectory
      · refine Seen.bad (Walk.not_clean_issue _ _ _) fun hfine => ?_
        obtain ⟨⟨-, found', hsome, hregular | ⟨-, -, hlisted⟩⟩, -⟩ := hfine _ List.mem_cons_self
        · obtain rfl := Option.some.inj (hfound.symm.trans hsome)
          rw [hdirectory] at hregular
          cases hregular
        · cases hlisted
      · have hregular := hkind.resolve_right fun h => hdirectory h.1
        exact seen_settle hsteady hfound hremaining ⟨hread, found, hfound, .inl hregular⟩ (Seen.nil _)
  | .tree facts entries, path, depth, w, hsteady => by
    rw [visitFd, Node.sights]
    obtain ⟨w', henter, hissue, hzero⟩ | ⟨found, henter, hremaining, hfound, hread, hkind⟩ :=
      enter_spec hlate facts path depth w <;> rw [henter] <;> dsimp only
    · refine Seen.bad hissue fun hfine => ?_
      rw [hzero true (hfine _ List.mem_cons_self)]
      exact Nat.succ_pos _
    · rw [hfound, Option.map_some]
      rcases hkind with hregular | ⟨hdirectory, hdepth⟩
      · rw [if_neg (by rw [hregular]; decide), if_neg (by rw [hregular]; decide)]
        exact seen_settle hsteady.1 hfound hremaining ⟨hread, found, hfound, .inl hregular⟩ (Seen.nil _)
      · rw [if_pos hdirectory, if_pos (by rw [hdirectory])]
        exact seen_settle hsteady.1 hfound hremaining
          ⟨hread, found, hfound, .inr ⟨hdirectory, hdepth, rfl⟩⟩
          (visitEntries_seen hlate entries path depth _ hsteady.2)

/-- The loop over the entries of a directory sees what is below it. -/
theorem visitEntries_seen (hlate : ∀ n, late n = false) :
    ∀ (entries : Entries) (path : Text) (depth : Nat) (w : Walk), entries.Steady →
    Seen w (visitEntries late entries path depth w) (entries.sights path depth)
  | .nil, path, depth, w, _ => by
    rw [visitEntries, Entries.sights]
    exact Seen.nil w
  | .unreadable rest, path, depth, w, hsteady => by
    rw [visitEntries, Entries.sights]
    exact seen_lost_rest hlate (fun w' => visitEntries_seen hlate rest path depth w' hsteady) _ _ _ _
  | .unnamed rest, path, depth, w, hsteady => by
    rw [visitEntries, Entries.sights]
    exact seen_lost_rest hlate (fun w' => visitEntries_seen hlate rest path depth w' hsteady) _ _ _ _
  | .unopened name rest, path, depth, w, hsteady => by
    rw [visitEntries, Entries.sights]
    exact seen_lost_rest hlate (fun w' => visitEntries_seen hlate rest path depth w' hsteady) _ _ _ _
  | .entry name child rest, path, depth, w, hsteady => by
    rw [visitEntries, Entries.sights]
    obtain ⟨hnext, -⟩ | ⟨w', hnext, hissue, hzero⟩ := nextEntry_spec hlate path w <;> rw [hnext] <;>
      dsimp only
    · have hchild := visitFd_seen hlate child (joinPath path name) (depth + 1) w.tick hsteady.1
      exact (show Seen w _ _ from ⟨hchild.clean_iff, hchild.counted⟩).append
        (visitEntries_seen hlate rest path depth _ hsteady.2)
    · refine Seen.bad hissue fun _ => ?_
      have hpos : 0 < (child.sights (joinPath path name) (depth + 1)).length := by
        cases child <;> simp [Node.sights]
      rw [hzero, List.length_append]
      omega

end

end Visit

/-! ## The entries of a root -/

/-- The entries that are reachable from a root. -/
def World.sights (w : World) (r : Registration) : List Sight :=
  match w.openTree r.canonical with
  | none => [.lost]
  | some node => node.sights r.canonical 0

/-- The trees do not change while they are walked. -/
def World.Steady (w : World) : Prop :=
  ∀ path node, w.openTree path = some node →
    node.facts.metadata = w.symlinkMetadata path ∧ node.Steady

/-- A root is as it was registered with a list of mounts, and its mounts are those of another list,
which tells them apart. -/
structure Registration.Kept (i : CoverageInspector) (baseline current : List Mount) (w : World)
    (r : Registration) : Prop where
  target : w.canonicalize r.configured = some r.canonical
  identity : sameFile (w.symlinkMetadata r.canonical) r.identity = true
  mounts : relevantMounts r.canonical current = relevantMounts r.canonical baseline
  distinct : (mountPoints (relevantMounts r.canonical current)).Nodup
  marked : i.sensor = .fanotify → ∀ m ∈ relevantMounts r.canonical current, m.id ∈ i.markedMounts

/-- Every entry that is reachable from a root can be inspected. -/
def Registration.Readable (w : World) (r : Registration) : Prop := ∀ s ∈ w.sights r, s.Readable

/-- What the inspection needs besides: a mount that belongs to the root, and paths that the system
takes. -/
def Registration.Placed (current : List Mount) (w : World) (r : Registration) : Prop :=
  relevantMounts r.canonical current ≠ [] ∧ ∀ s ∈ w.sights r, s.Short

/-! ## The checks before the walk -/

theorem RootCoverage.clean_foldl_issue (mounts : List Mount) (code : String) (row : RootCoverage) :
    (mounts.foldl (fun row m => row.issue code m.point) row).clean ↔ row.clean ∧ mounts = [] := by
  induction mounts generalizing row with
  | nil => simp
  | cons m rest ih =>
    rw [List.foldl_cons, ih]
    constructor
    · exact fun hall => absurd hall.1 (row.not_clean_issue code m.point)
    · exact fun hall => absurd hall.2 (List.cons_ne_nil m rest)

theorem RootCoverage.issue_entriesChecked (row : RootCoverage) (code : String) (path : Text) :
    (row.issue code path).entriesChecked = row.entriesChecked := by
  unfold issue
  split_ifs <;> rfl

theorem RootCoverage.foldl_issue_entriesChecked (mounts : List Mount) (code : String)
    (row : RootCoverage) :
    (mounts.foldl (fun row m => row.issue code m.point) row).entriesChecked = row.entriesChecked := by
  induction mounts generalizing row with
  | nil => rfl
  | cons m rest ih => rw [List.foldl_cons, ih, issue_entriesChecked]

section Checks

variable {i : CoverageInspector} {w : World} {r : Registration} {baseline current : List Mount}

theorem ambiguousMountScope_eq_false_iff (mounts : List Mount) :
    ambiguousMountScope mounts = false ↔ mounts ≠ [] ∧ (mountPoints mounts).Nodup := by
  unfold ambiguousMountScope
  rw [Bool.or_eq_false_iff, Bool.not_eq_false', decide_eq_true_eq, ← Bool.not_eq_true,
    List.isEmpty_iff]

/-- The mounts of a root leave no issue exactly when they are those of its registration, which are
known by distinct points and are marked if that is needed. -/
theorem clean_mountIssues (hbefore : r.mounts = some (relevantMounts r.canonical baseline))
    (hcurrent : w.readMounts = some current) (row : RootCoverage) :
    (mountIssues i w r row).clean ↔ row.clean ∧
      (relevantMounts r.canonical current ≠ [] ∧
        (mountPoints (relevantMounts r.canonical current)).Nodup) ∧
      relevantMounts r.canonical current = relevantMounts r.canonical baseline ∧
      (i.sensor = .fanotify →
        ∀ m ∈ relevantMounts r.canonical current, m.id ∈ i.markedMounts) := by
  unfold mountIssues
  rw [hbefore, hcurrent]
  dsimp only
  set before := relevantMounts r.canonical baseline
  set now := relevantMounts r.canonical current
  -- the two lists are asked about only where they are the same
  have hscope : now = before → ((ambiguousMountScope now || ambiguousMountScope before) = false ↔
      now ≠ [] ∧ (mountPoints now).Nodup) := by
    intro heq
    rw [← heq, Bool.or_self, ambiguousMountScope_eq_false_iff]
  have hmounts : ∀ row' : RootCoverage,
      (if now ≠ before then row'.issue "mount_topology_changed" r.canonical else row').clean ↔
        row'.clean ∧ now = before := by
    intro row'
    rw [RootCoverage.clean_ite_issue, not_not]
  have hmarked : (now.filter fun m => m.id ∉ i.markedMounts) = [] ↔
      ∀ m ∈ now, m.id ∈ i.markedMounts := by
    simp only [List.filter_eq_nil_iff, decide_eq_true_eq, not_not]
  by_cases hfanotify : i.sensor = .fanotify
  · rw [if_pos hfanotify, RootCoverage.clean_foldl_issue, hmounts, RootCoverage.clean_ite_issue,
      Bool.not_eq_true, hmarked, and_assoc, and_assoc]
    constructor
    · rintro ⟨hclean, hunique, heq, hall⟩
      exact ⟨hclean, (hscope heq).1 hunique, heq, fun _ => hall⟩
    · rintro ⟨hclean, hunique, heq, hall⟩
      exact ⟨hclean, (hscope heq).2 hunique, heq, hall hfanotify⟩
  · rw [if_neg hfanotify, hmounts, RootCoverage.clean_ite_issue, Bool.not_eq_true, and_assoc]
    constructor
    · rintro ⟨hclean, hunique, heq⟩
      exact ⟨hclean, (hscope heq).1 hunique, heq, fun h => absurd h hfanotify⟩
    · rintro ⟨hclean, hunique, heq, -⟩
      exact ⟨hclean, (hscope heq).2 hunique, heq⟩

/-- The row of a root is clean before the walk exactly when the root is as it was registered and
belongs to a mount. -/
theorem clean_checkRoot (hbefore : r.mounts = some (relevantMounts r.canonical baseline))
    (hcurrent : w.readMounts = some current) :
    (checkRoot i w r).clean ↔
      (w.mountNamespace = i.mountNamespace ∧ w.mountNamespace ≠ none) ∧
        r.Kept i baseline current w ∧ relevantMounts r.canonical current ≠ [] := by
  unfold checkRoot
  dsimp only
  rw [clean_mountIssues hbefore hcurrent, RootCoverage.clean_ite_issue, RootCoverage.clean_ite_issue,
    RootCoverage.clean_ite_issue, not_or, not_not, not_not, Bool.not_eq_true, Bool.not_eq_false']
  constructor
  · rintro ⟨⟨⟨⟨-, htarget⟩, hidentity⟩, hnamespace⟩, ⟨hsome, hdistinct⟩, hmounts, hmarked⟩
    exact ⟨hnamespace, ⟨htarget, hidentity, hmounts, hdistinct, hmarked⟩, hsome⟩
  · rintro ⟨hnamespace, hkept, hsome⟩
    exact ⟨⟨⟨⟨⟨rfl, rfl⟩, hkept.target⟩, hkept.identity⟩, hnamespace⟩, ⟨hsome, hkept.distinct⟩,
      hkept.mounts, hkept.marked⟩

theorem mountIssues_entriesChecked (row : RootCoverage) :
    (mountIssues i w r row).entriesChecked = row.entriesChecked := by
  unfold mountIssues
  split
  · dsimp only
    split_ifs <;>
      simp only [RootCoverage.foldl_issue_entriesChecked, RootCoverage.issue_entriesChecked]
  · exact RootCoverage.issue_entriesChecked _ _ _

theorem checkRoot_entriesChecked : (checkRoot i w r).entriesChecked = 0 := by
  unfold checkRoot
  dsimp only
  rw [mountIssues_entriesChecked]
  split_ifs <;> simp only [RootCoverage.issue_entriesChecked]

end Checks

/-! ## The loops of the inspection -/

section Roots

variable {i : CoverageInspector} {w : World} {late : Nat → Bool} {baseline current : List Mount}

theorem sameFile_eq_true {found : Option FileMetadata} {identity : Identity}
    (h : sameFile found identity = true) : ∃ m, found = some m := by
  cases found with
  | none => cases h
  | some m => exact ⟨m, rfl⟩

/-- The walk over the tree of a root that was not replaced sees the entries of the root. -/
theorem scanTree_seen (hlate : ∀ n, late n = false) (hsteady : w.Steady) {r : Registration}
    (hidentity : sameFile (w.symlinkMetadata r.canonical) r.identity = true) (walk : Walk) :
    Seen walk (scanTree late w r walk) (w.sights r) := by
  unfold scanTree World.sights
  rcases hopen : w.openTree r.canonical with _ | node
  · exact seen_lost (Walk.not_clean_issue _ _ _)
  · obtain ⟨hfound, hnode⟩ := hsteady _ _ hopen
    dsimp only
    rw [if_pos (by rw [hfound, hidentity])]
    exact visitFd_seen hlate node r.canonical 0 walk hnode

/-- What the inspection asks of a root. -/
def Registration.Sound (i : CoverageInspector) (baseline current : List Mount) (w : World)
    (r : Registration) : Prop :=
  (w.mountNamespace = i.mountNamespace ∧ w.mountNamespace ≠ none) ∧
    r.Kept i baseline current w ∧ r.Readable w ∧ r.Placed current w

/-- The row of a root is clean exactly when the root is sound and its entries are in the budget;
they have been counted then. -/
theorem inspectRoot_spec (hlate : ∀ n, late n = false) (hsteady : w.Steady) {r : Registration}
    (hbefore : r.mounts = some (relevantMounts r.canonical baseline))
    (hcurrent : w.readMounts = some current) (remaining readings : Nat) :
    ((inspectRoot i late w w r remaining readings).report.clean ↔
      r.Sound i baseline current w ∧ (w.sights r).length ≤ remaining) ∧
    ((inspectRoot i late w w r remaining readings).report.clean →
      (inspectRoot i late w w r remaining readings).remaining + (w.sights r).length = remaining ∧
      (inspectRoot i late w w r remaining readings).report.entriesChecked = (w.sights r).length) := by
  unfold inspectRoot
  dsimp only
  by_cases hidentity : sameFile (w.symlinkMetadata r.canonical) r.identity = true
  · have hseen := scanTree_seen hlate hsteady hidentity ⟨checkRoot i w r, remaining, readings⟩
    rw [hidentity, Bool.not_true, if_neg Bool.false_ne_true]
    by_cases htarget : w.canonicalize r.configured = some r.canonical
    · rw [if_neg (not_not.2 htarget), hseen.clean_iff, clean_checkRoot hbefore hcurrent]
      constructor
      · constructor
        · rintro ⟨⟨hnamespace, hkept, hsome⟩, hfine, hlength⟩
          exact ⟨⟨hnamespace, hkept, fun s hs => (hfine s hs).1, hsome, fun s hs => (hfine s hs).2⟩,
            hlength⟩
        · rintro ⟨⟨hnamespace, hkept, hread, hsome, hshort⟩, hlength⟩
          exact ⟨⟨hnamespace, hkept, hsome⟩, fun s hs => ⟨hread s hs, hshort s hs⟩, hlength⟩
      · rw [← clean_checkRoot hbefore hcurrent]
        intro hclean
        obtain ⟨hrest, hcount⟩ := hseen.counted (hseen.clean_iff.2 hclean)
        refine ⟨hrest, ?_⟩
        rw [hcount]
        dsimp only
        rw [checkRoot_entriesChecked, Nat.zero_add]
    · rw [if_pos htarget]
      have hissue := Walk.not_clean_issue (scanTree late w r ⟨checkRoot i w r, remaining, readings⟩)
        "configured_target_changed_during_scan" r.configured
      exact ⟨⟨fun h => absurd h hissue, fun h => absurd h.1.2.1.target htarget⟩,
        fun h => absurd h hissue⟩
  · -- a root that was replaced is reported again after the walk
    rw [Bool.not_eq_true] at hidentity
    rw [hidentity, Bool.not_false, if_pos rfl]
    have hissue := Walk.not_clean_ite (w.canonicalize r.configured ≠ some r.canonical)
      "configured_target_changed_during_scan" r.configured
      (Walk.not_clean_issue (scanTree late w r ⟨checkRoot i w r, remaining, readings⟩)
        "root_changed_during_scan" r.canonical)
    refine ⟨⟨fun h => absurd h hissue, fun h => ?_⟩, fun h => absurd h hissue⟩
    rw [h.1.2.1.identity] at hidentity
    cases hidentity

/-- The number of entries of some roots. -/
def World.entries (w : World) (roots : List Registration) : Nat :=
  (roots.map fun r => (w.sights r).length).sum

/-- The rows of some roots are clean exactly when the roots are sound and all entries together are
in the budget; they have been counted then. -/
theorem inspectRoots_spec (hlate : ∀ n, late n = false) (hsteady : w.Steady)
    (hcurrent : w.readMounts = some current) :
    ∀ (roots : List Registration) (remaining readings : Nat),
      (∀ r ∈ roots, r.mounts = some (relevantMounts r.canonical baseline)) →
      (inspectRoots i late w w roots remaining readings).1.length = roots.length ∧
      ((∀ row ∈ (inspectRoots i late w w roots remaining readings).1, row.clean) ↔
        (∀ r ∈ roots, r.Sound i baseline current w) ∧ w.entries roots ≤ remaining) ∧
      ((∀ row ∈ (inspectRoots i late w w roots remaining readings).1, row.clean) →
        ((inspectRoots i late w w roots remaining readings).1.map (·.entriesChecked)).sum =
          w.entries roots)
  | [], remaining, readings, _ => by
    unfold inspectRoots World.entries
    simp
  | r :: rest, remaining, readings, hbefore => by
    obtain ⟨hrow, hcount⟩ := inspectRoot_spec (i := i) hlate hsteady (hbefore r List.mem_cons_self)
      hcurrent remaining readings
    unfold inspectRoots
    dsimp only
    set walk := inspectRoot i late w w r remaining readings
    obtain ⟨hlength, hrows, hchecked⟩ := inspectRoots_spec hlate hsteady hcurrent rest walk.remaining
      walk.readings fun r' hr' => hbefore r' (List.mem_cons_of_mem r hr')
    have htotal : w.entries (r :: rest) = (w.sights r).length + w.entries rest := by
      unfold World.entries
      rw [List.map_cons, List.sum_cons]
    rw [List.length_cons, List.length_cons, hlength, List.forall_mem_cons, List.forall_mem_cons, hrows,
      htotal]
    refine ⟨rfl, ?_, ?_⟩
    · constructor
      · rintro ⟨hclean, hsound, hfit⟩
        have hrest := (hcount hclean).1
        exact ⟨⟨(hrow.1 hclean).1, hsound⟩, by omega⟩
      · rintro ⟨⟨hr, hsound⟩, hfit⟩
        have hclean := hrow.2 ⟨hr, by omega⟩
        have hrest := (hcount hclean).1
        exact ⟨hclean, hsound, by omega⟩
    · rintro ⟨hclean, hall⟩
      rw [List.map_cons, List.sum_cons, hchecked (hrows.2 hall), (hcount hclean).2]

/-- Without a change during the walk, the last loop leaves the rows as they are. -/
theorem finishRows_eq (hlate : ∀ n, late n = false) :
    ∀ (rows : List RootCoverage) (roots : List Registration) (readings : Nat),
      rows.length = roots.length → finishRows late w w readings (rows.zip roots) = rows
  | [], _, readings, _ => rfl
  | row :: rows, r :: roots, readings, h => by
    have hrow : finishRow late w w readings r row = row := by
      unfold finishRow
      simp [hlate]
    rw [List.zip_cons_cons, finishRows, hrow,
      finishRows_eq hlate rows roots (readings + 1) (Nat.succ.inj h)]

theorem hasGap_inspect (now : Nat) (hlate : ∀ n, late n = false)
    (hlength : (inspectRoots i late w w i.roots i.maxEntries 0).1.length = i.roots.length) :
    (inspect i now late w w).roots = (inspectRoots i late w w i.roots i.maxEntries 0).1 ∧
      ((inspect i now late w w).hasGap = false ↔
        ∀ row ∈ (inspectRoots i late w w i.roots i.maxEntries 0).1, row.clean) := by
  set rows := (inspectRoots i late w w i.roots i.maxEntries 0).1 with hrows
  have hinspect : inspect i now late w w =
      { checkedAtMs := now
        assessment := if rows.any fun row => !row.issues.isEmpty || row.omittedIssues > 0 then
          "gap_or_incomplete" else "no_observed_gap"
        mountNamespace := w.mountNamespace
        roots := rows
        limitations := limitations } := by
    unfold inspect
    dsimp only
    rw [finishRows_eq hlate _ _ _ hlength]
  rw [hinspect]
  refine ⟨rfl, ?_⟩
  unfold CoverageReport.hasGap
  dsimp only
  have hrow : ∀ row : RootCoverage,
      (!row.issues.isEmpty || decide (row.omittedIssues > 0)) = false ↔ row.clean := by
    intro row
    unfold RootCoverage.clean
    simp
  by_cases hgap : (rows.any fun row => !row.issues.isEmpty || decide (row.omittedIssues > 0)) = true
  · simp only [hgap, if_true]
    obtain ⟨row, hmem, hissue⟩ := List.any_eq_true.1 hgap
    refine ⟨fun h => absurd h (by decide), fun hall => ?_⟩
    rw [(hrow row).2 (hall row hmem)] at hissue
    cases hissue
  · simp only [hgap, Bool.false_eq_true, if_false]
    rw [Bool.not_eq_true, List.any_eq_false] at hgap
    exact ⟨fun _ row hmem => (hrow row).1 (Bool.not_eq_true _ ▸ hgap row hmem), fun _ => by decide⟩

end Roots

/-! ## The registration -/

theorem mapM_ok {α β : Type} {f : α → Except String β} {P : β → Prop}
    (h : ∀ x y, f x = .ok y → P y) :
    ∀ {xs : List α} {ys : List β}, xs.mapM f = .ok ys → ys.length = xs.length ∧ ∀ y ∈ ys, P y
  | [], ys, hys => by
    obtain rfl := Except.ok.inj hys
    exact ⟨rfl, by simp⟩
  | x :: xs, ys, hys => by
    rw [List.mapM_cons] at hys
    rcases hx : f x with e | y <;> rw [hx] at hys
    · cases hys
    rcases hrest : xs.mapM f with e | rest
    · rw [hrest] at hys
      cases hys
    rw [hrest] at hys
    obtain rfl := Except.ok.inj hys
    obtain ⟨hlength, hall⟩ := mapM_ok h hrest
    refine ⟨by simp [hlength], ?_⟩
    rw [List.forall_mem_cons]
    exact ⟨h x y hx, hall⟩

/-- A registered root keeps the mounts that belong to it. -/
theorem register_mounts {cwd : Text} {w later : World} {path : Text} {r : Registration}
    (h : register cwd w later path = .ok r) :
    r.mounts = w.readMounts.map (relevantMounts r.canonical) := by
  unfold register at h
  dsimp only at h
  split at h
  · cases h
  · split at h
    · cases h
    · split_ifs at h <;> rw [← Except.ok.inj h]

/-- A new inspector has a root for each path, with the mounts that belong to it, and the namespace
at its making. -/
theorem newInspector_spec {cwd : Text} {w later : World} {paths : List Text} {sensor : SensorKind}
    {maxEntries : Nat} {i : CoverageInspector}
    (h : newInspector cwd w later paths sensor maxEntries = .ok i) :
    i.roots ≠ [] ∧ i.sensor = sensor ∧ i.maxEntries = maxEntries ∧
      i.mountNamespace = w.mountNamespace ∧
      ∀ r ∈ i.roots, r.mounts = w.readMounts.map (relevantMounts r.canonical) := by
  unfold newInspector at h
  split_ifs at h with hbounds
  rcases hroots : paths.mapM (register cwd w later) with e | roots
  · rw [hroots] at h
    cases h
  rw [hroots] at h
  change (if _ then Except.error _ else Except.ok _) = Except.ok i at h
  split_ifs at h
  obtain rfl := Except.ok.inj h
  obtain ⟨hlength, hmounts⟩ := mapM_ok (fun _ _ => register_mounts) hroots
  refine ⟨?_, rfl, rfl, rfl, hmounts⟩
  intro hnil
  rw [show roots = [] from hnil, List.length_nil] at hlength
  refine hbounds (.inl ?_)
  rw [List.isEmpty_iff]
  exact List.eq_nil_of_length_eq_zero hlength.symm

/-! ## No observed gap -/

/-- Every root is as it was registered, in the same namespace, and the entries of all roots can be
inspected within the budget. -/
structure Undisturbed (i : CoverageInspector) (baseline current : List Mount) (w : World) : Prop where
  namespaceKept : w.mountNamespace = i.mountNamespace
  namespaceKnown : w.mountNamespace ≠ none
  kept : ∀ r ∈ i.roots, r.Kept i baseline current w
  readable : ∀ r ∈ i.roots, r.Readable w
  fits : w.entries i.roots ≤ i.maxEntries

section Gap

variable {i : CoverageInspector} {w : World} {late : Nat → Bool} {baseline current : List Mount}

/-- A report without a gap, and what it has counted. -/
theorem hasGap_eq_false_iff (hlate : ∀ n, late n = false) (hsteady : w.Steady)
    (hroots : i.roots ≠ [])
    (hbefore : ∀ r ∈ i.roots, r.mounts = some (relevantMounts r.canonical baseline))
    (hcurrent : w.readMounts = some current) (now : Nat) :
    ((inspect i now late w w).hasGap = false ↔
      Undisturbed i baseline current w ∧ ∀ r ∈ i.roots, r.Placed current w) ∧
    ((inspect i now late w w).hasGap = false →
      ((inspect i now late w w).roots.map (·.entriesChecked)).sum = w.entries i.roots) := by
  obtain ⟨hlength, hrows, hcount⟩ := inspectRoots_spec (i := i) hlate hsteady hcurrent i.roots
    i.maxEntries 0 hbefore
  obtain ⟨hreport, hgap⟩ := hasGap_inspect now hlate hlength
  rw [hreport, hgap]
  refine ⟨?_, hcount⟩
  rw [hrows]
  constructor
  · rintro ⟨hsound, hfits⟩
    -- the namespace is asked for at each root, and there is one
    obtain ⟨r, hr⟩ := List.exists_mem_of_ne_nil _ hroots
    obtain ⟨⟨hkept, hknown⟩, -⟩ := hsound r hr
    exact ⟨⟨hkept, hknown, fun r hr => (hsound r hr).2.1, fun r hr => (hsound r hr).2.2.1, hfits⟩,
      fun r hr => (hsound r hr).2.2.2⟩
  · rintro ⟨hall, hplaced⟩
    exact ⟨fun r hr => ⟨⟨hall.namespaceKept, hall.namespaceKnown⟩, hall.kept r hr, hall.readable r hr,
      hplaced r hr⟩, hall.fits⟩

/-- The mounts below a root that was kept are those of its registration. -/
theorem containingMount_kept {r : Registration} (hkept : r.Kept i baseline current w) {path : Text}
    (hbelow : StartsWith path r.canonical) :
    containingMount path current = containingMount path baseline := by
  calc containingMount path current
      = containingMount path (relevantMounts r.canonical current) :=
        (containingMount_relevantMounts hbelow current).symm
    _ = containingMount path (relevantMounts r.canonical baseline) := by rw [hkept.mounts]
    _ = containingMount path baseline := containingMount_relevantMounts hbelow baseline

end Gap

/-- An inspection during which nothing changes reports no gap exactly when every root is as it was
registered, belongs to a mount, and can be inspected down to its last entry within the budget. Then
the entries are all counted, and every path below a root has the mount that it had. -/
theorem no_observed_gap_iff {cwd : Text} {w₀ later₀ w : World} {paths : List Text}
    {sensor : SensorKind} {maxEntries : Nat} {i : CoverageInspector} {baseline current : List Mount}
    {late : Nat → Bool} (hnew : newInspector cwd w₀ later₀ paths sensor maxEntries = .ok i)
    (hbaseline : w₀.readMounts = some baseline) (hcurrent : w.readMounts = some current)
    (hsteady : w.Steady) (hlate : ∀ n, late n = false) (now : Nat) :
    ((inspect i now late w w).hasGap = false ↔
      Undisturbed i baseline current w ∧ ∀ r ∈ i.roots, r.Placed current w) ∧
    ((inspect i now late w w).hasGap = false →
      ((inspect i now late w w).roots.map (·.entriesChecked)).sum = w.entries i.roots ∧
      ∀ r ∈ i.roots, ∀ path, StartsWith path r.canonical →
        containingMount path current = containingMount path baseline ∧
        ((∃ m ∈ current, StartsWith r.canonical m.point) → containingMount path current ≠ none)) := by
  obtain ⟨hroots, -, -, -, hmounts⟩ := newInspector_spec hnew
  have hbefore : ∀ r ∈ i.roots, r.mounts = some (relevantMounts r.canonical baseline) := by
    intro r hr
    rw [hmounts r hr, hbaseline, Option.map_some]
  obtain ⟨hiff, hcount⟩ := hasGap_eq_false_iff hlate hsteady hroots hbefore hcurrent now
  refine ⟨hiff, fun hgap => ⟨hcount hgap, ?_⟩⟩
  intro r hr path hbelow
  have hkept := (hiff.1 hgap).1.kept r hr
  exact ⟨containingMount_kept hkept hbelow, containingMount_ne_none hbelow hkept.distinct⟩

/-! ## Where the mounts or the paths leave a gap -/

/-- A file whose path leads to it. -/
def plainFacts (inode : Nat) (kind : FileKind) : Facts :=
  ⟨some ⟨kind, ⟨8, inode⟩⟩, true, some ⟨kind, ⟨8, inode⟩⟩⟩

/-- The longest name of a file. -/
def longName : Text := List.replicate 255 'a'

/-- A file below some directories in each other, with long names. -/
def nested : Nat → Node
  | 0 => .leaf (plainFacts 1 .regular)
  | n + 1 => .tree (plainFacts (n + 2) .directory) (.entry longName (nested n) .nil)

/-- A system with a mount at a point and directories at `/srv`. -/
def srvWorld (point : Text) (n : Nat) : World where
  canonicalize := some
  symlinkMetadata path := if path = "/srv".toList then (nested n).facts.metadata else none
  openTree path := if path = "/srv".toList then some (nested n) else none
  mountinfo := some ("24 1 8:1 / ".toList ++ point ++ " rw - ext4 /dev/sda1 rw".toList)
  mountNamespace := some "mnt:[4026531840]".toList

/-- The mount of the system. -/
def srvMount (point : Text) : Mount :=
  ⟨24, point, "24 1 8:1 / ".toList ++ point ++ " rw - ext4 /dev/sda1 rw".toList⟩

/-- The inspector of `/srv` that is registered with some mounts. -/
def srvInspector (n : Nat) (mounts : List Mount) (marked : List Nat) : CoverageInspector where
  roots := [⟨"/srv".toList, "/srv".toList, ⟨8, n + 1⟩, some mounts⟩]
  sensor := .notify
  maxEntries := 100
  markedMounts := marked
  mountNamespace := some "mnt:[4026531840]".toList

theorem nested_facts (n : Nat) :
    ∃ kind, kind ≠ .symlink ∧ (nested n).facts = plainFacts (n + 1) kind := by
  cases n with
  | zero => exact ⟨.regular, by decide, rfl⟩
  | succ n => exact ⟨.directory, by decide, rfl⟩

theorem nested_steady : ∀ n, (nested n).Steady
  | 0 => rfl
  | n + 1 => ⟨rfl, nested_steady n, trivial⟩

theorem nested_readable :
    ∀ (n : Nat) (path : Text) (depth : Nat), depth + n ≤ maxDepth →
      ((nested n).sights path depth).length = n + 1 ∧
        ∀ s ∈ (nested n).sights path depth, s.Readable
  | 0, path, depth, _ => by
    refine ⟨rfl, fun s hs => ?_⟩
    obtain rfl := List.mem_singleton.1 hs
    exact ⟨rfl, _, rfl, .inl rfl⟩
  | n + 1, path, depth, h => by
    obtain ⟨hlength, hread⟩ :=
      nested_readable n (joinPath path longName) (depth + 1) (by omega)
    have hsights : (nested (n + 1)).sights path depth =
        .file path depth (plainFacts (n + 2) .directory) true ::
          (nested n).sights (joinPath path longName) (depth + 1) := by
      rw [nested, Node.sights, if_pos (by rfl), Entries.sights, Entries.sights, List.append_nil]
    rw [hsights, List.length_cons, hlength, List.forall_mem_cons]
    exact ⟨rfl, ⟨rfl, _, rfl, .inr ⟨rfl, by omega, rfl⟩⟩, hread⟩

theorem srvWorld_steady (point : Text) (n : Nat) : (srvWorld point n).Steady := by
  intro path node hopen
  unfold srvWorld at hopen ⊢
  dsimp only at hopen ⊢
  split_ifs at hopen with hpath
  obtain rfl := Option.some.inj hopen
  rw [if_pos hpath]
  exact ⟨rfl, nested_steady n⟩

/-- Nothing is wrong with the directories at `/srv`. -/
theorem srv_undisturbed (point : Text) {n : Nat} (h : n ≤ maxDepth) {mounts current : List Mount}
    {marked : List Nat} (hdistinct : (mountPoints (relevantMounts "/srv".toList current)).Nodup) :
    Undisturbed (srvInspector n mounts marked) current current (srvWorld point n) := by
  obtain ⟨hlength, hread⟩ := nested_readable n "/srv".toList 0 (by omega)
  constructor
  · rfl
  · exact Option.some_ne_none _
  · intro r hr
    obtain rfl := List.mem_singleton.1 hr
    obtain ⟨kind, hkind, hfacts⟩ := nested_facts n
    refine ⟨rfl, ?_, rfl, hdistinct, fun hsensor => by cases hsensor⟩
    simp [srvWorld, hfacts, plainFacts, sameFile, hkind]
  · intro r hr
    obtain rfl := List.mem_singleton.1 hr
    exact hread
  · change (srvWorld point n).entries _ ≤ 100
    unfold World.entries
    change ((nested n).sights "/srv".toList 0).length + 0 ≤ 100
    rw [hlength]
    unfold maxDepth at h
    omega

/-- A gap is reported of a root that no mount covers, although nothing is wrong with it; where a
mount stands behind such a root, no gap is reported, although paths below the root have no mount;
and a gap is reported of paths that are too long to be looked up. -/
theorem gap_without_disturbance :
    (newInspector ['/'] (srvWorld "/other".toList 1) (srvWorld "/other".toList 1) ["/srv".toList]
        .notify 100 = .ok (srvInspector 1 [] []) ∧
      (srvWorld "/other".toList 1).readMounts = some [srvMount "/other".toList] ∧
      Undisturbed (srvInspector 1 [] []) [srvMount "/other".toList] [srvMount "/other".toList]
        (srvWorld "/other".toList 1) ∧
      (inspect (srvInspector 1 [] []) 0 (fun _ => false) (srvWorld "/other".toList 1)
        (srvWorld "/other".toList 1)).hasGap = true) ∧
    (newInspector ['/'] (srvWorld "/srv/data".toList 1) (srvWorld "/srv/data".toList 1)
        ["/srv".toList] .notify 100 = .ok (srvInspector 1 [srvMount "/srv/data".toList] []) ∧
      (srvWorld "/srv/data".toList 1).readMounts = some [srvMount "/srv/data".toList] ∧
      (inspect (srvInspector 1 [srvMount "/srv/data".toList] []) 0 (fun _ => false)
        (srvWorld "/srv/data".toList 1) (srvWorld "/srv/data".toList 1)).hasGap = false ∧
      StartsWith "/srv/a".toList "/srv".toList ∧
      containingMount "/srv/a".toList [srvMount "/srv/data".toList] = none) ∧
    (newInspector ['/'] (srvWorld ['/'] 17) (srvWorld ['/'] 17) ["/srv".toList] .notify 100 =
        .ok (srvInspector 17 [srvMount ['/']] [24]) ∧
      (srvWorld ['/'] 17).readMounts = some [srvMount ['/']] ∧
      Undisturbed (srvInspector 17 [srvMount ['/']] [24]) [srvMount ['/']] [srvMount ['/']]
        (srvWorld ['/'] 17) ∧
      (inspect (srvInspector 17 [srvMount ['/']] [24]) 0 (fun _ => false) (srvWorld ['/'] 17)
        (srvWorld ['/'] 17)).hasGap = true) := by
  refine ⟨⟨by decide +kernel, by decide +kernel, ?_, by decide +kernel⟩,
    ⟨by decide +kernel, by decide +kernel, by decide +kernel, by decide +kernel, by decide +kernel⟩,
    by decide +kernel, by decide +kernel, ?_, by decide +kernel⟩
  · exact srv_undisturbed _ (by decide) (by decide +kernel)
  · exact srv_undisturbed _ (by decide) (by decide +kernel)

/-- The inspection of a directory with one file on a single mount. -/
theorem no_observed_gap_srv :
    Undisturbed (srvInspector 1 [srvMount ['/']] [24]) [srvMount ['/']] [srvMount ['/']]
        (srvWorld ['/'] 1) ∧
      ((inspect (srvInspector 1 [srvMount ['/']] [24]) 0 (fun _ => false) (srvWorld ['/'] 1)
        (srvWorld ['/'] 1)).roots.map (·.entriesChecked)).sum = 2 := by
  have hmounts : (srvWorld ['/'] 1).readMounts = some [srvMount ['/']] := by decide +kernel
  have hspec := no_observed_gap_iff
    (show newInspector ['/'] (srvWorld ['/'] 1) (srvWorld ['/'] 1) ["/srv".toList] .notify 100 =
      .ok (srvInspector 1 [srvMount ['/']] [24]) by decide +kernel)
    hmounts hmounts (srvWorld_steady ['/'] 1) (fun _ => rfl : ∀ n, (fun _ : Nat => false) n = false) 0
  have hgap : (inspect (srvInspector 1 [srvMount ['/']] [24]) 0 (fun _ => false) (srvWorld ['/'] 1)
      (srvWorld ['/'] 1)).hasGap = false := by decide +kernel
  exact ⟨(hspec.1.1 hgap).1, (hspec.2 hgap).1⟩

end Argos.Sensor
