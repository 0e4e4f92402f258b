import Argos.Lib.Maps
import Argos.Recovery.Contents
import Mathlib.Data.Int.Interval

/-!
# What a prune removes

`BackupStore::prune` deletes the versions beyond the newest of each path that are neither known to be
good nor kept by a reference. The statement that does it counts rows; here it is compared with the rule
itself, which takes the highest numbers of the versions of a path (`Index.newest`). The object files that
are left are those of the versions that are left, a second prune finds nothing to do, and a prune that
keeps more leaves more (`prune_exact`).
-/

namespace Argos.Recovery

open Argos.Lib
open Argos.Vault (Bytes)

/-! ## Ranks -/

/-- A member of a descending list is among the first `k` when at most `k` members are not below it. -/
theorem mem_take_iff {α : Type} [LinearOrder α] {l : List α} (hsorted : l.Pairwise (· > ·)) {x : α}
    (hx : x ∈ l) (k : Nat) : x ∈ l.take k ↔ (l.filter (x ≤ ·)).length ≤ k := by
  induction l generalizing k with
  | nil => cases hx
  | cons y rest ih =>
    obtain ⟨hfirst, hrest⟩ := List.pairwise_cons.1 hsorted
    rcases List.mem_cons.1 hx with rfl | hmem
    · -- The first is above all the others.
      have hnone : rest.filter (x ≤ ·) = [] := by
        rw [List.filter_eq_nil_iff]
        intro z hz
        simpa using hfirst z hz
      rw [List.filter_cons, if_pos (by simp), hnone]
      rcases k with _ | k
      · simp
      · simp
    · have hxy : x < y := hfirst x hmem
      rw [List.filter_cons, if_pos (by simpa using hxy.le), List.length_cons]
      rcases k with _ | k
      · simp
      · rw [List.take_succ_cons, List.mem_cons, ih hrest hmem k]
        simp [hxy.ne]

/-! ## The rule -/

section Rule

variable {index : Index} {keep : Nat}

/-- The versions of a path that are not known to be good. -/
def Index.unreviewed (index : Index) (path : String) : List BackupVersion :=
  index.versions.filter fun w => w.knownGood = false ∧ w.path = path

/-- The highest numbers among the versions of a path that are not known to be good. -/
def Index.newest (index : Index) (keep : Nat) (path : String) : List Int :=
  (((index.unreviewed path).map (·.id)).insertionSort (· ≥ ·)).take keep

/-- What a table of versions always has: every number is given once, and it is positive and fits the
column. -/
structure Numbered (index : Index) : Prop where
  distinct : (index.versions.map (·.id)).Nodup
  positive : ∀ v ∈ index.versions, 0 < v.id
  bounded : ∀ v ∈ index.versions, v.id ≤ i64Max

/-- A table has no more rows than there are numbers for them. -/
theorem Numbered.length_le (h : Numbered index) : index.versions.length ≤ i64Max := by
  have hsub : (index.versions.map BackupVersion.id).toFinset ⊆ Finset.Icc (1 : Int) i64Max := by
    intro n hn
    obtain ⟨v, hv, rfl⟩ := List.mem_map.1 (List.mem_toFinset.1 hn)
    exact Finset.mem_Icc.2 ⟨h.positive v hv, h.bounded v hv⟩
  have hcard := Finset.card_le_card hsub
  rw [List.toFinset_card_of_nodup h.distinct, List.length_map, Int.card_Icc] at hcard
  omega

/-- The number of a row says whether it is among the newest. -/
theorem Numbered.rowNumber_le_iff (h : Numbered index) {v : BackupVersion} (hv : v ∈ index.versions)
    (hgood : v.knownGood = false) : index.rowNumber v ≤ keep ↔ v.id ∈ index.newest keep v.path := by
  have hids : ((index.unreviewed v.path).map (·.id)).Nodup := h.distinct.sublist
    (List.filter_sublist.map _)
  -- The numbers of the path in descending order.
  have hsorted : (((index.unreviewed v.path).map (·.id)).insertionSort (· ≥ ·)).Pairwise (· > ·) := by
    have hge := List.pairwise_insertionSort (· ≥ ·) ((index.unreviewed v.path).map (·.id))
    have hne := (List.perm_insertionSort (· ≥ ·) _).nodup_iff.2 hids
    exact (hge.and hne).imp fun hab => lt_of_le_of_ne hab.1 (Ne.symm hab.2)
  have hmem : v.id ∈ ((index.unreviewed v.path).map (·.id)).insertionSort (· ≥ ·) := by
    rw [List.mem_insertionSort]
    exact List.mem_map_of_mem (List.mem_filter.2 ⟨hv, by simp [hgood]⟩)
  have hcount : ((((index.unreviewed v.path).map (·.id)).insertionSort (· ≥ ·)).filter (v.id ≤ ·)).length =
      index.rowNumber v := by
    rw [((List.perm_insertionSort _ _).filter _).length_eq, List.filter_map, List.length_map]
    unfold Index.unreviewed Index.rowNumber
    rw [List.filter_filter]
    congr 2
    funext w
    simp only [Function.comp_apply]
    rw [Bool.eq_iff_iff]
    simp [and_assoc, and_comm]
  unfold Index.newest
  rw [mem_take_iff hsorted hmem, ← hcount]

/-- The retention rule: a version goes when it is not known to be good, no active reference keeps it and
it is not among the newest of its path. -/
def Index.Expired (index : Index) (keep : Nat) (v : BackupVersion) : Prop :=
  v.knownGood = false ∧ (¬ ∃ pin ∈ index.pins, pin.versionId = v.id ∧ pin.active = true) ∧
    v.id ∉ index.newest keep v.path

theorem Numbered.prunable_iff (h : Numbered index) {v : BackupVersion} (hv : v ∈ index.versions) :
    index.prunable keep v = true ↔ index.Expired keep v := by
  have hpinned : index.pinned v.id = true ↔ ∃ pin ∈ index.pins, pin.versionId = v.id ∧ pin.active = true := by
    unfold Index.pinned
    simp
  have hclamp : index.rowNumber v ≤ min keep i64Max ↔ index.rowNumber v ≤ keep := by
    have hfew : index.rowNumber v ≤ i64Max := (List.length_filter_le _ _).trans h.length_le
    omega
  unfold Index.prunable Index.Expired
  rw [← hpinned]
  rcases hgood : v.knownGood with _ | _
  · simp only [Bool.not_false, Bool.true_and, Bool.and_eq_true, Bool.not_eq_true', decide_eq_false_iff_not,
      Bool.not_eq_true, true_and, hclamp, h.rowNumber_le_iff hv hgood]
  · simp

/-- What is left is still numbered. -/
theorem Numbered.pruned (h : Numbered index) (keep : Nat) : Numbered (index.pruned keep) where
  distinct := h.distinct.sublist (List.filter_sublist.map _)
  positive := fun v hv => h.positive v (List.mem_of_mem_filter hv)
  bounded := fun v hv => h.bounded v (List.mem_of_mem_filter hv)

/-- A second prune deletes nothing: the rows above a version have become fewer. -/
theorem pruned_pruned (index : Index) (keep : Nat) : (index.pruned keep).pruned keep = index.pruned keep := by
  have hrow : ∀ v, (index.pruned keep).rowNumber v ≤ index.rowNumber v := fun v =>
    (List.filter_sublist.filter _).length_le
  have hnone : ∀ v ∈ (index.pruned keep).versions, (index.pruned keep).prunable keep v = false := by
    intro v hv
    have hkept : index.prunable keep v = false := by
      simpa using (List.mem_filter.1 hv).2
    have hpins : (index.pruned keep).pinned v.id = index.pinned v.id := rfl
    have hle := hrow v
    unfold Index.prunable at hkept ⊢
    rw [hpins]
    rw [Bool.and_eq_false_iff] at hkept ⊢
    refine hkept.imp_right fun hrank => ?_
    rw [Bool.not_eq_false', decide_eq_true_eq] at hrank ⊢
    exact hle.trans hrank
  have hversions : (index.pruned keep).versions.filter (fun v => !(index.pruned keep).prunable keep v) =
      (index.pruned keep).versions := by
    rw [List.filter_eq_self]
    intro v hv
    rw [hnone v hv]
    rfl
  exact congrArg (fun versions => { index with versions := versions }) hversions

/-- A prune that keeps more leaves more. -/
theorem pruned_mono {keep' : Nat} (hle : keep ≤ keep') :
    ∀ v ∈ (index.pruned keep).versions, v ∈ (index.pruned keep').versions := by
  intro v hv
  obtain ⟨hmem, hkept⟩ := List.mem_filter.1 hv
  refine List.mem_filter.2 ⟨hmem, ?_⟩
  have hmin : min keep i64Max ≤ min keep' i64Max := by omega
  unfold Index.prunable at hkept ⊢
  rw [Bool.not_eq_true', Bool.and_eq_false_iff] at hkept ⊢
  refine hkept.imp_right fun hrank => ?_
  rw [Bool.not_eq_false', decide_eq_true_eq] at hrank ⊢
  exact hrank.trans hmin

end Rule

/-! ## A prune that goes well -/

section Run

variable {s : Store}

theorem removeObjects_done (names : List String) :
    removeObjects names [] s = (.ok (), [], { s with objects := without s.objects names }) := by
  induction names generalizing s with
  | nil => rfl
  | cons name rest ih => exact @ih { s with objects := s.objects.erase name }

/-- A prune without faults. -/
theorem prune_done (keep : Nat) (listing : List String) : prune keep listing [] s =
    (.ok (s.index.versions.length - (s.index.pruned keep).versions.length), [],
      { s with
        objects := without s.objects ((s.index.pruned keep).unreferenced listing)
        index := s.index.pruned keep }) := by
  have hprune : prune keep listing [] s =
      (removeObjects ((s.index.pruned keep).unreferenced listing) >>= fun _ =>
        commit (s.index.pruned keep) >>= fun _ =>
        pure (s.index.versions.length - (s.index.pruned keep).versions.length)) [] s := rfl
  rw [hprune, Prog.bind_run_ok (removeObjects_done _)]
  rfl

/-- The names of a listing are those of the object files. -/
def Lists (listing : List String) (s : Store) : Prop := ∀ name, name ∈ listing ↔ name ∈ s.objects

/-- The object files that a prune leaves are those of the versions that are left. -/
theorem pruned_objects {listing : List String} (hlisting : Lists listing s) (keep : Nat) (name : String)
    (content : Bytes) :
    (without s.objects ((s.index.pruned keep).unreferenced listing)).lookup name = some content ↔
      s.objects.lookup name = some content ∧ ∃ v ∈ (s.index.pruned keep).versions, v.hash = name := by
  have hdead : name ∈ (s.index.pruned keep).unreferenced listing ↔
      name ∈ s.objects ∧ ¬ ∃ v ∈ (s.index.pruned keep).versions, v.hash = name := by
    unfold Index.unreferenced
    rw [List.mem_filter, hlisting name]
    simp
  rw [lookup_without]
  split
  next hgone =>
    exact ⟨nofun, fun hkept => absurd hkept.2 (hdead.1 hgone).2⟩
  next hkept =>
    refine ⟨fun hlookup => ⟨hlookup, ?_⟩, And.left⟩
    by_contra hnone
    exact hkept (hdead.2 ⟨mem_iff_lookup.2 ⟨content, hlookup⟩, hnone⟩)

/-- A store in which every object is referred to and no version is to be deleted. -/
theorem prune_nothing {listing : List String} (hlisting : Lists listing s) {keep : Nat}
    (hversions : s.index.pruned keep = s.index)
    (hobjects : ∀ name content, s.objects.lookup name = some content → ∃ v ∈ s.index.versions, v.hash = name) :
    prune keep listing [] s = (.ok 0, [], s) := by
  have hdead : s.index.unreferenced listing = [] := by
    unfold Index.unreferenced
    rw [List.filter_eq_nil_iff]
    intro name hname
    obtain ⟨content, hlookup⟩ := mem_iff_lookup.1 ((hlisting name).1 hname)
    obtain ⟨v, hv, hhash⟩ := hobjects name content hlookup
    simpa using ⟨v, hv, hhash⟩
  rw [prune_done, hversions, hdead, Nat.sub_self]
  rfl

/-- A prune deletes what the retention rule says, leaves the objects of the versions that are left, and
does nothing when it is done again; one that keeps more leaves more. -/
theorem prune_exact (h : Numbered s.index) {listing : List String} (hlisting : Lists listing s) (keep : Nat) :
    ∃ s', prune keep listing [] s = (.ok (s.index.versions.length - s'.index.versions.length), [], s') ∧
      s'.index.versions.Sublist s.index.versions ∧
      (∀ v, v ∈ s'.index.versions ↔ v ∈ s.index.versions ∧ ¬ s.index.Expired keep v) ∧
      (∀ name content, s'.objects.lookup name = some content ↔
        s.objects.lookup name = some content ∧ ∃ v ∈ s'.index.versions, v.hash = name) ∧
      (∀ listing', Lists listing' s' → prune keep listing' [] s' = (.ok 0, [], s')) ∧
      ∀ keep', keep ≤ keep' → ∀ v ∈ s'.index.versions,
        v ∈ (prune keep' listing [] s).2.2.index.versions := by
  refine ⟨{ s with
      objects := without s.objects ((s.index.pruned keep).unreferenced listing)
      index := s.index.pruned keep }, prune_done keep listing, List.filter_sublist, fun v => ?_,
    pruned_objects hlisting keep, fun listing' hlisting' => ?_, fun keep' hle v hv => ?_⟩
  · show v ∈ (s.index.pruned keep).versions ↔ _
    unfold Index.pruned
    rw [List.mem_filter]
    refine and_congr_right fun hv => ?_
    rw [← h.prunable_iff hv]
    simp
  · refine prune_nothing hlisting' (pruned_pruned s.index keep) fun name content hlookup => ?_
    exact ((pruned_objects hlisting keep name content).1 hlookup).2
  · rw [prune_done]
    exact pruned_mono hle v hv

/-- A row of a table. -/
def sampleRow (id : Int) (path hash : String) (good : Bool) : BackupVersion :=
  ⟨id, path, hash, 1, 0, 1, good, none⟩

/-- Four versions of two paths, of which one is known to be good, and a content that they share. -/
def sampleStore : Store where
  index := { versions := [sampleRow 1 "a" "x" false, sampleRow 2 "a" "y" true, sampleRow 3 "a" "z" false,
    sampleRow 4 "b" "x" false] }
  objects := AList.insert "x" [1] (AList.insert "y" [2] (AList.insert "z" [3] ∅))

/-- The first version goes, and the content that it shares stays. -/
theorem prune_exact_one : ∃ s', prune 1 ["x", "y", "z"] [] sampleStore = (.ok 1, [], s') ∧
    sampleRow 1 "a" "x" false ∉ s'.index.versions ∧ s'.objects.lookup "x" = some [1] := by
  have hnumbered : Numbered sampleStore.index := ⟨by decide, by decide, by decide⟩
  have hlisting : Lists ["x", "y", "z"] sampleStore := by
    intro name
    rw [AList.mem_keys, show sampleStore.objects.keys = ["x", "y", "z"] by decide +kernel]
  have hcount : (prune 1 ["x", "y", "z"] [] sampleStore).1 = .ok 1 := by decide +kernel
  obtain ⟨s', hrun, -, hversions, hobjects, -⟩ := prune_exact hnumbered hlisting 1
  rw [hrun] at hcount
  refine ⟨s', by rw [hrun, show Outcome.ok _ = _ from hcount], fun hkept => ?_, ?_⟩
  · -- The third version is the newest of the path.
    exact ((hversions _).1 hkept).2 ⟨rfl, by simp [sampleStore], by decide⟩
  · refine (hobjects "x" [1]).2 ⟨by decide, sampleRow 4 "b" "x" false, (hversions _).2 ⟨by decide, ?_⟩, rfl⟩
    intro hexpired
    exact hexpired.2.2 (by decide)

end Run

end Argos.Recovery
