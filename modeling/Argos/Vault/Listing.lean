import Argos.Lib.Paging
import Argos.Vault.Owners

/-!
# Listing

`list` of `bundle/server.rs` and the checks that the client makes on a page, `validate_page` of
`bundle/client.rs`. A reader who follows the cursors from the first page on (`follow`) sees every
bundle of the agent once and in order, and the client accepts every page (`listing_complete`).
-/

namespace Argos.Vault

open Argos.Lib

/-! ## The client's checks -/

/-- The identifiers of a page, the readable bundles first. -/
def BundleList.ids (page : BundleList) : List String :=
  page.items.map (·.bundleId) ++ page.unavailable.map (·.bundleId)

/-- The loop of `validate_page`: every identifier is valid, behind the cursor and new. -/
def checkPageIds (after : Option String) : List String → List String → Result (List String)
  | [], seen => .ok seen
  | id :: rest, seen => do
    refuse (!validBundleId id || after.any (fun cursor => id ≤ cursor) || seen.contains id)
      "번들 목록 ID/범위/중복 오류"
    checkPageIds after rest (id :: seen)

/-- The entry of a page contradicts itself. -/
def BundleSummary.wrong (item : BundleSummary) : Bool :=
  !validHash item.sha256 || !(1 ≤ item.sizeBytes && item.sizeBytes ≤ maxBundleBytes) ||
    !(item.currentReview == "unknown" || item.currentReview == "good" ||
      item.currentReview == "revoked") ||
    item.recommended != (item.complete && item.currentReview == "good")

/-- `validate_page`. The identifiers that the loop has collected are in a sorted set, so the last of
them is the greatest. -/
def validatePage (page : BundleList) (agent : String) (after : Option String) (limit : Nat) :
    Result Unit := do
  let ids ← checkPageIds after page.ids []
  refuse (page.agentId != agent || ids.length > limit ||
    page.unavailable.any (fun item => item.reason != "bundle_state_unavailable") ||
    page.items.any BundleSummary.wrong ||
    page.nextCursor.any fun cursor =>
      !validBundleId cursor || (ids.insertionSort (· ≤ ·)).getLast? != some cursor)
    "번들 목록 응답 범위/상태 오류"

theorem checkPageIds_ok {after : Option String} {ids seen : List String}
    (hvalid : ∀ id ∈ ids, validBundleId id) (hafter : ∀ id ∈ ids, ∀ cursor ∈ after, cursor < id)
    (hnew : (ids.reverse ++ seen).Nodup) :
    checkPageIds after ids seen = .ok (ids.reverse ++ seen) := by
  induction ids generalizing seen with
  | nil => rfl
  | cons id rest ih =>
    have heq : (id :: rest).reverse ++ seen = rest.reverse ++ id :: seen := by simp
    rw [heq] at hnew ⊢
    have hfresh : id ∉ seen := by
      have := hnew.of_append_right
      exact (List.nodup_cons.1 this).1
    have hbehind : after.any (fun cursor => id ≤ cursor) = false := by
      rcases after with _ | cursor
      · rfl
      · simpa using hafter id (by simp) cursor rfl
    rw [checkPageIds, Result.check_ok_iff, refuse_ok_iff]
    refine ⟨?_, ih (fun i hi => hvalid i (by simp [hi])) (fun i hi => hafter i (by simp [hi])) hnew⟩
    simp [hvalid id (by simp), hbehind, hfresh]

/-! ## One page -/

section Page

variable {P : Primitives} {cfg : ServerConfig} {s : Server} {agent : String}

/-- Every bundle of a page is one entry of it. -/
theorem summaries_perm (ids : List String) :
    ((summaries P cfg s agent ids).1.map (·.bundleId) ++
      (summaries P cfg s agent ids).2.map (·.bundleId)).Perm ids := by
  induction ids with
  | nil => rfl
  | cons id rest ih =>
    rw [summaries]
    rcases record P cfg s agent id with e | record
    · exact List.perm_middle.trans (ih.cons id)
    · exact ih.cons id

theorem mem_unavailable {ids : List String} {item : UnavailableBundle}
    (h : item ∈ (summaries P cfg s agent ids).2) : item.reason = "bundle_state_unavailable" := by
  induction ids with
  | nil => cases h
  | cons id rest ih =>
    rw [summaries] at h
    rcases hrecord : record P cfg s agent id with e | record
    · rw [hrecord] at h
      rcases List.mem_cons.1 h with rfl | h
      · rfl
      · exact ih h
    · rw [hrecord] at h
      exact ih h

/-- The summary of a record that was read does not contradict itself. -/
theorem record_summary_wrong {id : String} {record : BundleRecord}
    (h : Argos.Vault.record P cfg s agent id = .ok record) : (record.summary id).wrong = false := by
  have hverified : verifyRecord P record cfg.key.publicHex cfg.keyId = .ok () := by
    simp only [Argos.Vault.record, Result.bind_ok_iff, exists_unit_iff, Except.ok.injEq] at h
    obtain ⟨-, -, raw, hraw, -, rfl⟩ := h
    obtain ⟨_, -, -, -, -, -, hverified, -⟩ := recordRaw_ok_iff.1 hraw
    exact hverified
  obtain ⟨hmanifest, -, -, -, -, -, hcurrent, hrecommended⟩ := verifyRecord_ok_iff.1 hverified
  obtain ⟨-, hhash, hzero, hmax, -⟩ := validate_ok hmanifest
  have htext : record.currentReview = "unknown" ∨ record.currentReview = "good" ∨
      record.currentReview = "revoked" := by
    rw [hcurrent, currentReview]
    rcases record.reviews.getLast? with _ | event
    · exact .inl rfl
    · cases hdecision : event.value.request.decision <;> simp [hdecision, ReviewDecision.text]
  have hreview : (record.currentReview == "unknown" || record.currentReview == "good" ||
      record.currentReview == "revoked") = true := by
    rcases htext with htext | htext | htext <;> simp [htext]
  have hagree : record.recommended =
      (record.completion.isSome && record.currentReview == "good") := by
    rw [hrecommended, hcurrent, Bool.and_comm]
  unfold BundleSummary.wrong BundleRecord.summary
  rw [hreview, hagree, hhash]
  simp [hmax, Nat.one_le_iff_ne_zero.2 hzero]

/-- The bundles of an agent are the rows of the catalog and the counted owners. -/
theorem mem_bundleIds {id : String} : id ∈ s.bundleIds agent ↔
    (agent, id) ∈ s.tables.bundles ∨ (agent, id) ∈ s.capacity.bundleControlOwners := by
  simp [Server.bundleIds, AList.mem_keys]

theorem bundleIds_pairwise : (s.bundleIds agent).Pairwise (· < ·) := by
  have hnodup : (s.bundleIds agent).Nodup :=
    (List.perm_insertionSort _ _).nodup_iff.2 (List.nodup_dedup _)
  have hsorted : (s.bundleIds agent).Pairwise (· ≤ ·) := List.pairwise_insertionSort _ _
  exact hsorted.imp₂ (fun _ _ hle hne => lt_of_le_of_ne hle hne) hnodup

/-- Every bundle of an agent has a valid identifier. -/
theorem bundleIds_valid (howned : Owned s.capacity) (hcov : coverage s = .ok ()) {id : String}
    (h : id ∈ s.bundleIds agent) : validBundleId id := by
  rcases mem_bundleIds.1 h with hrow | hown
  · simp only [coverage, Result.check_ok_iff, refuse_ok_iff, Bool.or_eq_false_iff,
      List.any_eq_false] at hcov
    simpa using (by simpa using hcov.2.2 _ (AList.mem_keys.1 hrow) : _ ∧ _).2
  · obtain ⟨n, hn⟩ := Option.isSome_iff_exists.1 (AList.lookup_isSome.2 hown)
    exact (howned.keys _ n hn).1

/-- What a reader sees on a page, in order. -/
def BundleList.visited (page : BundleList) : List String := page.ids.insertionSort (· ≤ ·)

/-- The bundles of an agent behind a cursor. -/
def Server.remaining (s : Server) (agent : String) (after : Option String) : List String :=
  (s.bundleIds agent).filter fun id => after.getD "" < id

theorem page_ids_perm {after : Option String} {limit : Nat} :
    (page P cfg s agent after limit).ids.Perm ((s.remaining agent after).take limit) := by
  have htake : ((s.remaining agent after).take (limit + 1)).take limit =
      (s.remaining agent after).take limit := by
    rw [List.take_take, min_eq_left (Nat.le_succ limit)]
  rw [← htake]
  exact summaries_perm _

theorem page_nextCursor {after : Option String} {limit : Nat} :
    (page P cfg s agent after limit).nextCursor = cursor (s.remaining agent after) limit := rfl

theorem remaining_pairwise {after : Option String} :
    (s.remaining agent after).Pairwise (· < ·) := bundleIds_pairwise.filter _

/-- A reader sees the first bundles behind the cursor. -/
theorem page_visited {after : Option String} {limit : Nat} :
    (page P cfg s agent after limit).visited = (s.remaining agent after).take limit := by
  have hsorted : ((s.remaining agent after).take limit).Pairwise (· ≤ ·) :=
    (remaining_pairwise.sublist (List.take_sublist _ _)).imp le_of_lt
  have hids : (page P cfg s agent after limit).ids.Perm ((s.remaining agent after).take limit) :=
    page_ids_perm
  have hperm := (List.perm_insertionSort (· ≤ ·) _).trans hids
  exact hperm.eq_of_pairwise' (List.pairwise_insertionSort _ _) hsorted

/-- The client accepts the page. -/
theorem validatePage_page (howned : Owned s.capacity) (hcov : coverage s = .ok ())
    {after : Option String} {limit : Nat} (hlimit : 1 ≤ limit) :
    validatePage (page P cfg s agent after limit) agent after limit = .ok () := by
  set shown := page P cfg s agent after limit with hshown
  have hperm : shown.ids.Perm ((s.remaining agent after).take limit) := page_ids_perm
  have hmem : ∀ id ∈ shown.ids, id ∈ s.bundleIds agent ∧ after.getD "" < id := by
    intro id hid
    have := List.mem_of_mem_take (hperm.mem_iff.1 hid)
    simpa [Server.remaining] using this
  have hnodup : shown.ids.Nodup :=
    hperm.nodup_iff.2 ((remaining_pairwise.imp ne_of_lt).sublist (List.take_sublist _ _))
  -- The loop collects all identifiers.
  have hloop : checkPageIds after shown.ids [] = .ok shown.ids.reverse := by
    have hvalid : ∀ id ∈ shown.ids, validBundleId id :=
      fun id hid => bundleIds_valid howned hcov (hmem id hid).1
    have hbehind : ∀ id ∈ shown.ids, ∀ cursor ∈ after, cursor < id := by
      intro id hid cursor hcursor
      obtain rfl : after = some cursor := hcursor
      exact (hmem id hid).2
    have hfresh : (shown.ids.reverse ++ []).Nodup := by simpa using hnodup
    simpa using checkPageIds_ok hvalid hbehind hfresh
  have hlength : shown.ids.reverse.length ≤ limit := by
    rw [List.length_reverse, hperm.length_eq]
    exact List.length_take_le _ _
  have hreasons : shown.unavailable.any (fun item => item.reason != "bundle_state_unavailable")
      = false := by
    rw [List.any_eq_false]
    intro item hitem
    simp [mem_unavailable hitem]
  have hitems : shown.items.any BundleSummary.wrong = false := by
    rw [List.any_eq_false]
    intro item hitem
    obtain ⟨record, hrecord, heq⟩ := mem_summaries hitem
    rw [heq, record_summary_wrong hrecord]
    exact Bool.false_ne_true
  -- The cursor is the last identifier of the page.
  have hcursor : shown.nextCursor.any (fun cursor => !validBundleId cursor ||
      (shown.ids.reverse.insertionSort (· ≤ ·)).getLast? != some cursor) = false := by
    have hsort : shown.ids.reverse.insertionSort (· ≤ ·) = (s.remaining agent after).take limit := by
      have hvisited : shown.visited = (s.remaining agent after).take limit := page_visited
      rw [← hvisited]
      exact ((List.perm_insertionSort _ _).trans ((List.reverse_perm _).trans
        (List.perm_insertionSort _ _).symm)).eq_of_pairwise' (List.pairwise_insertionSort _ _)
        (List.pairwise_insertionSort _ _)
    rw [hsort, hshown, page_nextCursor]
    rcases Nat.lt_or_ge limit (s.remaining agent after).length with hmore | hless
    · obtain ⟨hlast, c, hc⟩ := cursor_eq_getLast hlimit hmore
      have hin : c ∈ s.bundleIds agent := by
        have := List.mem_of_mem_take (List.mem_of_getLast? (hlast.symm.trans hc))
        exact List.mem_of_mem_filter this
      rw [← hlast, hc]
      simp [bundleIds_valid howned hcov hin]
    · rw [cursor_eq_none hless]
      rfl
  have hagent : (shown.agentId != agent) = false := by simp [hshown, page]
  rw [validatePage, Result.bind_ok_iff]
  refine ⟨_, hloop, ?_⟩
  rw [refuse_ok_iff, hreasons, hitems, hcursor, hagent]
  simpa using hlength

end Page

/-! ## All pages -/

section Follow

variable (P : Primitives) (cfg : ServerConfig)

/-- `list` of the server, after it has checked the administrator's token. -/
def list (agent : String) (after : Option String) (limit : Option Nat) : Op BundleList := do
  Prog.ask fun _ => refuse (!validId agent || !(1 ≤ limit.getD 20 && limit.getD 20 ≤ 100) ||
    after.any fun id => !validBundleId id) "목록 범위/상한 오류"
  listBundles P cfg agent after (limit.getD 20)

/-- The pages that a reader gets who follows the cursors, each with the cursor that requested it, or
nothing when a request fails or there are more than `fuel` pages. -/
def follow (s : Server) (agent : String) (limit : Nat) :
    Nat → Option String → Option (List (Option String × BundleList))
  | 0, _ => none
  | fuel + 1, after =>
    match (list P cfg agent after (some limit) [] s).1 with
    | .ok page =>
      match page.nextCursor with
      | none => some [(after, page)]
      | some next => (follow s agent limit fuel (some next)).map ((after, page) :: ·)
    | _ => none

variable {P cfg} {s : Server} {agent : String} {limit : Nat}

/-- The client accepts a page, and it is not too long. -/
structure PageFits (agent : String) (limit : Nat) (after : Option String) (page : BundleList) : Prop
    where
  validated : validatePage page agent after limit = .ok ()
  short : page.items.length + page.unavailable.length ≤ limit

/-- Behind a cursor whose rest is known, following shows the rest, in pages that fit. -/
theorem follow_rest (hpage : ∀ after, after.all (validBundleId ·) →
      (list P cfg agent after (some limit) [] s).1 = .ok (page P cfg s agent after limit))
    (howned : Owned s.capacity) (hcov : coverage s = .ok ()) (hlimit : 1 ≤ limit)
    {before rest : List String} (hsplit : s.bundleIds agent = before ++ rest) {after : Option String}
    (hrest : s.remaining agent after = rest) (hafter : after.all (validBundleId ·)) :
    ∃ fuel pages, follow P cfg s agent limit fuel after = some pages ∧
      pages.flatMap (·.2.visited) = rest ∧
      ∀ p ∈ pages, PageFits agent limit p.1 p.2 := by
  -- The induction is on what is left; a page that is not the last one takes something of it.
  induction hn : rest.length using Nat.strongRecOn generalizing before rest after with
  | ind n ih =>
    subst hn
    have hgood : PageFits agent limit after (page P cfg s agent after limit) := by
      refine ⟨validatePage_page howned hcov hlimit, ?_⟩
      have hids : (page P cfg s agent after limit).ids.Perm ((s.remaining agent after).take limit) :=
        page_ids_perm
      have hlength := hids.length_eq
      rw [BundleList.ids, List.length_append, List.length_map, List.length_map] at hlength
      rw [hlength]
      exact List.length_take_le _ _
    rcases Nat.lt_or_ge limit rest.length with hmore | hless
    · obtain ⟨hlast, c, hc⟩ := cursor_eq_getLast hlimit hmore
      have hin : c ∈ s.bundleIds agent := by
        rw [hsplit]
        exact List.mem_append_right _
          (List.mem_of_mem_take (List.mem_of_getLast? (hlast.symm.trans hc)))
      have hnext : s.remaining agent (some c) = rest.drop limit :=
        page_next bundleIds_pairwise hsplit hlimit hmore hc
      have hshorter : (rest.drop limit).length < rest.length := by
        rw [List.length_drop]
        omega
      have hsplit' : s.bundleIds agent = (before ++ rest.take limit) ++ rest.drop limit := by
        rw [List.append_assoc, List.take_append_drop, hsplit]
      obtain ⟨fuel, pages, hfollow, hpages, hall⟩ := ih _ hshorter hsplit' hnext
        (by simpa using bundleIds_valid howned hcov hin) rfl
      refine ⟨fuel + 1, (after, page P cfg s agent after limit) :: pages, ?_, ?_, ?_⟩
      · rw [follow, hpage after hafter]
        dsimp only
        rw [page_nextCursor, hrest, hc]
        dsimp only
        rw [hfollow]
        rfl
      · rw [List.flatMap_cons, hpages, page_visited, hrest, List.take_append_drop]
      · intro p hp
        rcases List.mem_cons.1 hp with rfl | hp
        · exact hgood
        · exact hall p hp
    · refine ⟨1, [(after, page P cfg s agent after limit)], ?_, ?_, ?_⟩
      · rw [follow, hpage after hafter]
        dsimp only
        rw [page_nextCursor, hrest, cursor_eq_none hless]
      · rw [List.flatMap_singleton, page_visited, hrest, List.take_of_length_le hless]
      · intro p hp
        rw [List.mem_singleton.1 hp]
        exact hgood

/-- Opening a catalog that need not be there changes nothing; where there is none, no control object
is counted. -/
theorem openCatalog_false_run {found : Bool} (h : (openCatalog false [] s).1 = .ok found) :
    openCatalog false [] s = (.ok found, [], s) ∧
      (found = false → ¬ s.disk.has .database ∧ s.capacity.bundleControlObjects = 0) := by
  have hcalm : (openCatalog false).Calm s (fun found s' => s' = s ∧
      (found = false → ¬ s.disk.has .database ∧ s.capacity.bundleControlObjects = 0))
      (fun _ => True) := by
    refine Prog.Calm.bind (Prog.Calm.gets (Prog.Calm.bind (Prog.Calm.gets (Prog.Calm.ite
      (fun habsent => ?_) (fun _ => Prog.Calm.ite (fun _ => Prog.Calm.fail trivial) (fun _ => ?_))))))
    · refine Prog.Calm.bind (Prog.Calm.ask (fun _ hask => ?_) (fun _ _ => trivial))
      refine Prog.Calm.pure ⟨rfl, fun _ => ?_⟩
      rw [refuse_ok_iff] at hask
      simp only [Bool.or_eq_false_iff, decide_eq_false_iff_not, not_lt] at hask
      simp only [Bool.and_eq_true, Bool.not_eq_true'] at habsent
      exact ⟨by simp [habsent.1], Nat.le_zero.1 hask.1.1⟩
    · refine Prog.Calm.ask (fun found hask => ⟨rfl, fun hfound => ?_⟩) (fun _ _ => trivial)
      simp only [checkCatalog, Result.bind_ok_iff, exists_unit_iff, Except.ok.injEq] at hask
      obtain ⟨-, -, -, -, -, rfl⟩ := hask
      cases hfound
  obtain ⟨s', hrun, rfl, hnone⟩ := hcalm.of_ok h
  exact ⟨hrun, hnone⟩

/-- A server without a catalog has no bundles. -/
theorem bundleIds_eq_nil (howned : Owned s.capacity) (hfiled : Filed s)
    (hopen : (openCatalog false [] s).1 = .ok false) : s.bundleIds agent = [] := by
  obtain ⟨hdatabase, hobjects⟩ := (openCatalog_false_run hopen).2 rfl
  have hcatalog : s.catalog = none := by
    rw [← Option.not_isSome_iff_eq_none]
    exact fun hsome => hdatabase (hfiled hsome)
  have howners : ∀ key, key ∉ s.capacity.bundleControlOwners := by
    intro key hkey
    obtain ⟨n, hn⟩ := Option.isSome_iff_exists.1 (AList.lookup_isSome.2 hkey)
    have hpos := (howned.keys key n hn).2
    have hle := weight_valueAt_le id rfl s.capacity.bundleControlOwners key
    rw [← howned.sum, hobjects, valueAt, hn] at hle
    simp only [id, Option.getD_some] at hle
    omega
  rw [List.eq_nil_iff_forall_not_mem]
  intro id hid
  rcases mem_bundleIds.1 hid with hrow | hown
  · rw [Server.tables, hcatalog] at hrow
    exact AList.notMem_empty _ hrow
  · exact howners _ hown

/-- What `list` returns for a cursor that the server gave. -/
theorem list_page {found : Bool} (howned : Owned s.capacity) (hfiled : Filed s)
    (hcov : coverage s = .ok ()) (hopen : (openCatalog false [] s).1 = .ok found)
    (hagent : validId agent) (hlimit : 1 ≤ limit) (hmax : limit ≤ 100) {after : Option String}
    (hafter : after.all (validBundleId ·)) :
    (list P cfg agent after (some limit) [] s).1 = .ok (page P cfg s agent after limit) := by
  have hrange : refuse (!validId agent || !(1 ≤ (some limit).getD 20 && (some limit).getD 20 ≤ 100) ||
      after.any fun id => !validBundleId id) "목록 범위/상한 오류" = .ok () := by
    rw [refuse_ok_iff]
    rcases after with _ | after
    · simp [hagent, hlimit, hmax]
    · have hvalid : validBundleId after = true := by simpa using hafter
      simp [hagent, hlimit, hmax, hvalid]
  have hcalm : (list P cfg agent after (some limit)).Calm s
      (fun shown _ => shown = page P cfg s agent after limit) (fun _ => False) := by
    refine Prog.Calm.bind (Prog.Calm.of_run (Prog.ask_run_ok (s := s) (g := fun _ => _) hrange []) ?_)
    refine Prog.Calm.bind (Prog.Calm.of_run (openCatalog_false_run hopen).1 ?_)
    cases found with
    | true => exact Prog.Calm.bind (Prog.Calm.of_run (Prog.ask_run_ok hcov []) (Prog.Calm.gets rfl))
    | false =>
      -- Without a catalog there is nothing to show, and nothing is shown.
      refine Prog.Calm.pure ?_
      simp [page, bundleIds_eq_nil howned hfiled hopen, summaries]
  obtain ⟨shown, s', hrun, rfl⟩ := hcalm.returns
  rw [hrun]

theorem remaining_none (hvalid : ∀ id ∈ s.bundleIds agent, validBundleId id) :
    s.remaining agent none = s.bundleIds agent := by
  rw [Server.remaining, List.filter_eq_self]
  intro id hid
  have hne : id ≠ "" := by
    rintro rfl
    exact absurd (hvalid _ hid) (by decide)
  have hlist : ([] : List Char) < id.toList := by
    rcases hchars : id.toList with _ | ⟨c, cs⟩
    · exact absurd (String.toList_eq_nil_iff.1 hchars) hne
    · exact List.nil_lt_cons c cs
  exact decide_eq_true (String.lt_iff_toList_lt.2 hlist)

/-- From a server whose catalog opens and whose storage is accounted for, a reader who follows the
cursors of an agent gets finitely many pages that the client accepts, each of at most `limit` entries,
and sees on them every bundle of the agent, in the catalog or only counted, once and in order. -/
theorem listing_complete {st₀ : CapacityState} {sys : System} {found : Bool}
    (hst₀ : CapacityState.prepare cfg.capacity cfg.agents = .ok st₀)
    (hrun : Run P cfg (.initial st₀) sys) (hcov : coverage sys.server = .ok ())
    (hopen : (openCatalog false [] sys.server).1 = .ok found)
    (hagent : validId agent) (hlimit : 1 ≤ limit) (hmax : limit ≤ 100) :
    ∃ fuel pages visited, follow P cfg sys.server agent limit fuel none = some pages ∧
      pages.flatMap (·.2.visited) = visited ∧ visited.Pairwise (· < ·) ∧
      (∀ id, id ∈ visited ↔ (agent, id) ∈ sys.server.tables.bundles ∨
        (agent, id) ∈ sys.server.capacity.bundleControlOwners) ∧
      ∀ p ∈ pages, p.2.items.length + p.2.unavailable.length ≤ limit ∧
        validatePage p.2 agent p.1 limit = .ok () := by
  have hconsistent : sys.server.capacity.storageConsistent = true := by
    simp only [coverage, Result.check_ok_iff, refuse_ok_iff, Bool.or_eq_false_iff,
      Bool.not_eq_false'] at hcov
    exact hcov.1.1.2
  have howned := hrun.owned hst₀ hconsistent
  have hstart : sys.server.remaining agent none = sys.server.bundleIds agent :=
    remaining_none fun id hid => bundleIds_valid howned hcov hid
  obtain ⟨fuel, pages, hfollow, hvisited, hfits⟩ := follow_rest
    (fun after hafter => list_page (P := P) howned hrun.filed hcov hopen hagent hlimit hmax hafter)
    howned hcov hlimit (List.nil_append _).symm hstart rfl
  exact ⟨fuel, pages, _, hfollow, hvisited, bundleIds_pairwise, fun id => mem_bundleIds,
    fun p hp => ⟨(hfits p hp).short, (hfits p hp).validated⟩⟩

/-- The sample's bundle is registered. -/
def sampleRegistration : List ((System → Call) × Plan) :=
  [(fun _ => .register "agent" sampleManifest (sampleReadings 1), [])]

theorem listing_complete_one_bundle :
    ∃ fuel pages visited,
      follow sample sampleConfig (samplePlay sampleRegistration).server "agent" 1 fuel none =
        some pages ∧
      pages.flatMap (·.2.visited) = visited ∧ sampleManifest.bundleId ∈ visited := by
  have hstate : coverage (samplePlay sampleRegistration).server = .ok () ∧
      (openCatalog false [] (samplePlay sampleRegistration).server).1 = .ok true ∧
      ("agent", sampleManifest.bundleId) ∈
        (samplePlay sampleRegistration).server.tables.bundles := by decide +kernel
  obtain ⟨hcov, hopen, hrow⟩ := hstate
  have hagent : validId "agent" := by decide
  obtain ⟨fuel, pages, visited, hfollow, hvisited, -, hall, -⟩ :=
    listing_complete rfl (sample_run sampleRegistration) hcov hopen hagent le_rfl
      (by decide : (1 : Nat) ≤ 100)
  exact ⟨fuel, pages, visited, hfollow, hvisited, (hall _).2 (.inl hrow)⟩

end Follow

end Argos.Vault
