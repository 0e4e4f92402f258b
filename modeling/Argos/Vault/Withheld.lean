import Argos.Vault.History
import Mathlib.Data.List.Dedup

/-!
# A revoked bundle is withheld

The verdict on a bundle is spread over the review rows, the pending review and the retained
revocation. Once the revocation of a bundle is retained, its text stays where it is until the review
that it asks for is entered (`Act.revocation`), whatever else happens in between. From then on that
review is in the history, so the bundle reads as good only behind a later good review
(`revocation_sticky`).

A review is read back by its hash. That the text which is read is the one that was entered rests on
SHA-256: no two of the contents that the server has hashed may collide (`NoCollision`).
-/

namespace Argos.Vault

open Argos.Lib

section Withheld

variable {P : Primitives} {cfg : ServerConfig} {s s' : Server} {agent id : String} {text : Bytes}

/-- No two contents that were hashed have one hash. -/
def NoCollision (P : Primitives) (s : Server) : Prop := Set.InjOn P.sha256 {b | b ∈ s.hashed}

theorem NoCollision.of_evolves (h : NoCollision P s') (hev : Evolves s s') : NoCollision P s :=
  fun _ hb _ hb' => h (hev.hashed _ hb) (hev.hashed _ hb')

theorem NoCollision.of_nodup (h : (s.hashed.dedup.map P.sha256).Nodup) : NoCollision P s :=
  fun _ hb _ hb' heq =>
    List.inj_on_of_nodup_map h (List.mem_dedup.2 hb) (List.mem_dedup.2 hb') heq

/-! ## The retained text -/

/-- The intents of the tables that a transaction leaves. -/
theorem intentAt_onCatalog {c : Catalog} {operation : Operation} (h : s.catalog.isSome) :
    (s.onCatalog fun _ => c).intentAt agent id operation =
      c.intents.lookup (agent, id, operation) := by
  rw [Server.intentAt, tables_onCatalog h]

theorem lookup_dropIntent {c : Catalog} {a b : String} {operation operation' : Operation} :
    (c.dropIntent a b operation).intents.lookup (agent, id, operation') =
      if (agent, id, operation') = (a, b, operation) then none
      else c.intents.lookup (agent, id, operation') := by
  unfold Catalog.dropIntent
  split
  · next heq => rw [heq, AList.lookup_erase]
  · next hne => exact AList.lookup_erase_ne hne

/-- The review that a retained revocation asks for is the row at `k`, under the hash of its text. -/
def Entered (P : Primitives) (s : Server) (agent id : String) (text : Bytes) (k : Nat) : Prop :=
  ∃ intent event bytes row, P.signedRevocation.decode text = some intent ∧
    P.signedReview.decode bytes = some event ∧ event.value.request = intent.value.request ∧
    intent.value.request.decision = .revoked ∧ (s.tables.rowsOf agent id)[k]? = some row ∧
    row.hash = P.sha256 bytes ∧ bytes ∈ s.hashed

/-- A revocation is still retained, or was entered at `n` or later. -/
def Pending (P : Primitives) (s : Server) (agent id : String) (text : Bytes) (n : Nat) : Prop :=
  s.intentAt agent id .revoke = some text ∨ ∃ k, n ≤ k ∧ Entered P s agent id text k

theorem Entered.evolves {k : Nat} (h : Entered P s agent id text k) (hev : Evolves s s') :
    Entered P s' agent id text k := by
  obtain ⟨intent, event, bytes, row, hintent, hevent, hsame, hrevoked, hrow, hhash, hmem⟩ := h
  refine ⟨intent, event, bytes, row, hintent, hevent, hsame, hrevoked, ?_, hhash, hev.hashed _ hmem⟩
  obtain ⟨more, hmore⟩ := hev.reviews.filter fun r => r.agent = agent ∧ r.bundle = id
  have hlt := (List.getElem?_eq_some_iff.1 hrow).1
  rw [Catalog.rowsOf, ← hmore]
  exact (List.getElem?_append_left hlt).trans hrow

/-- An act leaves a retained revocation alone, or enters the review that it asks for. -/
theorem Act.revocation (hact : Act P cfg s s') (htext : s.intentAt agent id .revoke = some text) :
    s'.intentAt agent id .revoke = some text ∨
      Entered P s' agent id text (s.tables.rowsOf agent id).length := by
  -- An intent is stored only where there is none for its operation.
  have hintend : ∀ {a b : String} {operation : Operation} {t : Bytes}, s.catalog.isSome →
      s.intentAt a b operation = none →
        (s.intending a b operation t).intentAt agent id .revoke = some text := by
    intro a b operation t hopened hfree
    rw [intentAt_intending hopened, if_neg, htext]
    rintro ⟨⟩
    rw [htext] at hfree
    cases hfree
  cases hact with
  | put origin ends =>
    obtain ⟨receipt, h⟩ | h := ends
    · exact .inl ((intentAt_of_catalog (put_leaves h).1).trans htext)
    · exact .inl ((intentAt_of_catalog h.catalog).trans htext)
  | root parent free touched => exact .inl ((intentAt_of_catalog touched.catalog).trans htext)
  | create free written =>
    rw [Server.intentAt, Server.tables, free] at htext
    cases htext
  | register opened valid free limits body =>
    refine .inl ?_
    rw [Server.intentAt, tables_onCatalog opened]
    exact htext
  | intendComplete raw covered open_ free => exact .inl (hintend (recordRaw_row raw).1 free)
  | complete raw open_ pending decoded verified chunks body hashed commit =>
    obtain ⟨manifestHash, -, rfl⟩ := completed_ok_iff.1 commit
    refine .inl ?_
    rw [intentAt_onCatalog (recordRaw_row raw).1, lookup_dropIntent, if_neg (by simp)]
    exact htext
  | retain valid raw covered fresh apart complete revoked free =>
    exact .inl (hintend (recordRaw_row raw).1 free)
  | settle held current pending decoded good verified published commit =>
    obtain ⟨-, -, c₁, hinsert, rfl⟩ | ⟨hno, -⟩ := settled_ok_iff.1 commit
    · obtain ⟨-, rfl⟩ := insertReview_ok_iff.1 hinsert
      refine .inl ?_
      rw [intentAt_onCatalog (recordRaw_row current).1, lookup_dropIntent, if_neg (by simp)]
      exact htext
    · rw [published] at hno
      cases hno
  | supersede held current pending decoded good verified unpublished commit =>
    obtain ⟨hyes, -⟩ | ⟨-, -, -, rfl⟩ := settled_ok_iff.1 commit
    · rw [unpublished] at hyes
      cases hyes
    · refine .inl ?_
      rw [intentAt_onCatalog (recordRaw_row current).1, lookup_dropIntent, if_neg (by simp)]
      exact (AList.lookup_insert_ne (by simp)).trans htext
  | intendReview valid raw covered complete fresh room last held free =>
    exact .inl (hintend (recordRaw_row raw).1 free)
  | @review a b record request bytes event c raw complete fresh held pending decoded same verified
      body hashed commit =>
    have hopened := (recordRaw_row raw).1
    obtain ⟨c₁, hinsert, rfl⟩ := reviewed_ok_iff.1 commit
    obtain ⟨-, rfl⟩ := insertReview_ok_iff.1 hinsert
    by_cases hours : request.decision = .revoked ∧ a = agent ∧ b = id
    · -- The revocation that this review drops is the retained one, and asks for this review.
      obtain ⟨hrevoked, rfl, rfl⟩ := hours
      rw [Held, hrevoked] at held
      obtain ⟨text', htext', hcheck⟩ := held
      rw [htext, Option.some.injEq] at htext'
      subst htext'
      obtain ⟨intent, hintent, -, -, -, -, -, -, hrequest⟩ := checkRevocation_ok_iff.1 hcheck
      refine .inr ⟨intent, event, bytes,
        ⟨a, b, record.reviews.length + 1, P.sha256 bytes, request.requestId⟩, hintent, decoded,
        same.trans hrequest.symm, hrequest ▸ hrevoked, ?_, rfl, hashed⟩
      have hrows := rowsOf_append s.tables
        ⟨a, b, record.reviews.length + 1, P.sha256 bytes, request.requestId⟩ a b
      rw [if_pos ⟨rfl, rfl⟩] at hrows
      rw [tables_onCatalog hopened, if_pos hrevoked]
      exact (congrArg (·[_]?) hrows).trans List.getElem?_concat_length
    · -- Otherwise the retained revocation is another one, or none is dropped.
      refine .inl ?_
      rw [intentAt_onCatalog hopened]
      split
      · next hrevoked =>
        rw [lookup_dropIntent, if_neg, lookup_dropIntent, if_neg (by simp)]
        · exact htext
        · rintro ⟨⟩
          exact hours ⟨hrevoked, rfl, rfl⟩
      · rw [lookup_dropIntent, if_neg (by simp)]
        exact htext

theorem Act.pending {n : Nat} (hact : Act P cfg s s') (hn : n ≤ (s.tables.rowsOf agent id).length)
    (h : Pending P s agent id text n) : Pending P s' agent id text n := by
  obtain htext | ⟨k, hk, hentered⟩ := h
  · obtain hsame | hentered := hact.revocation htext
    · exact .inl hsame
    · exact .inr ⟨_, hn, hentered⟩
  · exact .inr ⟨k, hk, hentered.evolves hact.evolves⟩

/-- The reviews of a bundle only become more. -/
theorem Evolves.rowsOf_length (hev : Evolves s s') (agent id : String) :
    (s.tables.rowsOf agent id).length ≤ (s'.tables.rowsOf agent id).length :=
  (hev.reviews.filter _).length_le

theorem Acts.pending {n : Nat} (hacts : Acts P cfg s s')
    (hn : n ≤ (s.tables.rowsOf agent id).length) (h : Pending P s agent id text n) :
    Pending P s' agent id text n := by
  induction hacts with
  | refl => exact h
  | tail hacts hact ih =>
    have hlen := (Acts.evolves hacts).rowsOf_length agent id
    exact hact.pending (hn.trans hlen) ih

/-- What leaves the tables alone leaves a pending revocation alone. -/
theorem Pending.of_catalog {n : Nat} (h : Pending P s agent id text n) (hev : Evolves s s')
    (hcat : s'.catalog = s.catalog) : Pending P s' agent id text n := by
  obtain htext | ⟨k, hk, hentered⟩ := h
  · exact .inl ((intentAt_of_catalog hcat).trans htext)
  · exact .inr ⟨k, hk, hentered.evolves hev⟩

theorem Stop.catalog (h : Stop P cfg s s') : s'.catalog = s.catalog := by
  cases h with
  | here => rfl
  | put origin stopped => exact stopped.catalog
  | root parent free touched => exact touched.catalog

theorem Restarted.catalog (h : Restarted P cfg s s') : s'.catalog = s.catalog := by
  obtain ⟨st₀, root, -, -, rfl⟩ := h
  rfl

theorem Moves.pending {n : Nat} (hmoves : Moves P cfg s s')
    (hn : n ≤ (s.tables.rowsOf agent id).length) (h : Pending P s agent id text n) :
    Pending P s' agent id text n := by
  cases hmoves with
  | acts hacts => exact hacts.pending hn h
  | restarted hhalts hr =>
    obtain ⟨s₁, hacts, hstop⟩ := hhalts
    exact ((hacts.pending hn h).of_catalog hstop.evolves hstop.catalog).of_catalog hr.evolves
      hr.catalog

/-- Over a whole run, a retained revocation stays or is entered behind the reviews that were there. -/
theorem Reached.pending {sys sys' : System} (hreach : Reached P cfg sys) (hrun : Run P cfg sys sys')
    (htext : sys.server.intentAt agent id .revoke = some text) :
    Pending P sys'.server agent id text (sys.server.tables.rowsOf agent id).length := by
  induction hrun with
  | refl => exact .inl htext
  | tail hrun hstep ih =>
    exact (hstep.moves (hreach.run hrun).begun).pending
      ((hreach.evolves hrun).rowsOf_length agent id) ih

/-! ## What is read -/

/-- A review that was entered is read back. -/
theorem Entered.read {k : Nat} {record : BundleRecord} (h : Entered P s agent id text k)
    (hs : Sound s) (hinj : NoCollision P s) (hraw : recordRaw P cfg s agent id = .ok record) :
    ∃ intent event, P.signedRevocation.decode text = some intent ∧
      record.reviews[k]? = some event ∧ event.value.request = intent.value.request ∧
      intent.value.request.decision = .revoked := by
  obtain ⟨intent, event, bytes, row, hintent, hevent, hsame, hrevoked, hrow, hhash, hmem⟩ := h
  obtain ⟨read, hread, hreview⟩ := getElem?_of_forall₂ (hs.reviews hraw).2 hrow
  obtain ⟨⟨receipt, body, hget, hdecode, -⟩, -⟩ := readReview_ok_iff.1 hreview
  have hstored := Disk.get_ok_iff.1 hget
  -- The body that is stored under the hash of `bytes` was hashed too, so it is `bytes`.
  have hbody : body = bytes :=
    hinj (hs.blobs _ _ _ hstored.blob) hmem (hstored.hash.symm.trans hhash)
  rw [hbody, hevent, Option.some.injEq] at hdecode
  exact ⟨intent, read, hintent, hread, hdecode ▸ hsame, hrevoked⟩

/-- A record reads as good. -/
def BundleRecord.ReadsGood (record : BundleRecord) : Prop :=
  record.recommended ∨ record.currentReview = "good"

/-- Behind the first `n` reviews of a record there is the review that a retained revocation asks for,
and behind that one a good review with a greater number. -/
def Redeemed (P : Primitives) (text : Bytes) (n : Nat) (record : BundleRecord) : Prop :=
  ∃ intent k j revoked good, P.signedRevocation.decode text = some intent ∧ n ≤ k ∧ k < j ∧
    record.reviews[k]? = some revoked ∧ revoked.value.request = intent.value.request ∧
    revoked.value.request.decision = .revoked ∧ record.reviews[j]? = some good ∧
    good.value.request.decision = .good ∧ revoked.value.sequence < good.value.sequence

/-- The last review of a record that reads as good is a good one. -/
theorem recordRaw_good {record : BundleRecord} (hraw : recordRaw P cfg s agent id = .ok record)
    (hgood : record.ReadsGood) :
    ∃ good, record.reviews.getLast? = some good ∧ good.value.request.decision = .good := by
  obtain ⟨-, -, -, -, -, -, -, heq⟩ := recordRaw_ok_iff.1 hraw
  have hcurrent : currentReview record.reviews = "good" := by
    rw [BundleRecord.ReadsGood, heq] at hgood
    simp only [assemble, Bool.and_eq_true, beq_iff_eq] at hgood
    exact hgood.elim (fun h => h.1) (fun h => h)
  unfold currentReview at hcurrent
  rcases hlast : record.reviews.getLast? with _ | good
  · rw [hlast] at hcurrent
    exact absurd hcurrent (by decide)
  · rw [hlast] at hcurrent
    refine ⟨good, rfl, ?_⟩
    cases hdecision : good.value.request.decision with
    | good => rfl
    | revoked =>
      simp only [hdecision] at hcurrent
      exact absurd hcurrent (by decide)

/-- The numbers of the reviews of a record grow. -/
theorem recordRaw_sequence {record : BundleRecord} (hs : Sound s)
    (hraw : recordRaw P cfg s agent id = .ok record) {k : Nat} {event : Signed ReviewEvent}
    (h : record.reviews[k]? = some event) : event.value.sequence = k + 1 := by
  have hnumbers := (recordRaw_numbered hs hraw).1
  obtain ⟨hk, rfl⟩ := List.getElem?_eq_some_iff.1 h
  have := congrArg (·[k]?) hnumbers
  simp only [List.getElem?_map, h, Option.map_some] at this
  rw [List.getElem?_range' (by simpa using hk), Option.some.injEq] at this
  omega

/-- A record of a bundle with a pending revocation reads as good only when the revocation was
redeemed. -/
theorem Pending.redeemed {n : Nat} {record : BundleRecord} (h : Pending P s agent id text n)
    (hs : Sound s) (hinj : NoCollision P s)
    (hrecord : Argos.Vault.record P cfg s agent id = .ok record) (hgood : record.ReadsGood) :
    Redeemed P text n record := by
  obtain ⟨hraw, hnone, -⟩ := record_ok hrecord
  obtain htext | ⟨k, hk, hentered⟩ := h
  · rw [htext] at hnone
    cases hnone
  obtain ⟨intent, revoked, hintent, hread, hsame, hrevoked⟩ := hentered.read hs hinj hraw
  obtain ⟨good, hlast, hdecision⟩ := recordRaw_good hraw hgood
  rw [List.getLast?_eq_getElem?] at hlast
  -- The last review is not the revocation, so it is behind it.
  have hlt : k < record.reviews.length - 1 := by
    have hk := (List.getElem?_eq_some_iff.1 hread).1
    have hne : k ≠ record.reviews.length - 1 := by
      rintro rfl
      rw [hlast, Option.some.injEq] at hread
      rw [← hsame, ← hread, hdecision] at hrevoked
      cases hrevoked
    omega
  refine ⟨intent, k, record.reviews.length - 1, revoked, good, hintent, hk, hlt, hread, hsame,
    hsame ▸ hrevoked, hlast, hdecision, ?_⟩
  rw [recordRaw_sequence hs hraw hread, recordRaw_sequence hs hraw hlast]
  omega

/-! ## What is answered -/

/-- What `get` returns is a record. -/
theorem getBundle_record {plan plan' : Plan} {record : BundleRecord}
    (h : getBundle P cfg agent id plan s = (.ok record, plan', s')) :
    Argos.Vault.record P cfg s agent id = .ok record := by
  have hsat : (getBundle P cfg agent id).Sat s
      (fun record _ => Argos.Vault.record P cfg s agent id = .ok record) (fun _ => True)
      (fun _ => True) := by
    refine Prog.Sat.bind (requireCatalog_false_sat.mono (fun _ s₁ hs₁ => ?_) (fun _ _ => trivial)
      (fun _ _ => trivial))
    obtain ⟨rfl, -⟩ := hs₁
    exact Prog.Sat.bind (Prog.Sat.ask (fun _ _ => Prog.Sat.ask (fun _ h => h) trivial) trivial)
  exact hsat.of_ok h

/-- An item of a list is the summary of a record. -/
theorem mem_summaries {ids : List String} {item : BundleSummary}
    (h : item ∈ (summaries P cfg s agent ids).1) :
    ∃ record, Argos.Vault.record P cfg s agent item.bundleId = .ok record ∧
      item = record.summary item.bundleId := by
  induction ids with
  | nil => cases h
  | cons id rest ih =>
    rw [summaries] at h
    rcases hrecord : Argos.Vault.record P cfg s agent id with e | record
    · rw [hrecord] at h
      exact ih h
    · rw [hrecord] at h
      rcases List.mem_cons.1 h with rfl | h
      · exact ⟨record, hrecord, rfl⟩
      · exact ih h

theorem listBundles_record {plan plan' : Plan} {after : Option String} {limit : Nat}
    {list : BundleList} (h : listBundles P cfg agent after limit plan s = (.ok list, plan', s')) :
    ∀ item ∈ list.items, ∃ record, Argos.Vault.record P cfg s agent item.bundleId = .ok record ∧
      item = record.summary item.bundleId := by
  have hsat : (listBundles P cfg agent after limit).Sat s
      (fun list _ => ∀ item ∈ list.items, ∃ record,
        Argos.Vault.record P cfg s agent item.bundleId = .ok record ∧
          item = record.summary item.bundleId) (fun _ => True) (fun _ => True) := by
    refine Prog.Sat.bind (openCatalog_false_sat.mono (fun found s₁ hs₁ => ?_) (fun _ _ => trivial)
      (fun _ _ => trivial))
    obtain ⟨rfl, -⟩ := hs₁
    refine Prog.Sat.ite (fun _ => Prog.Sat.pure (by simp)) (fun _ => ?_)
    refine Prog.Sat.bind (Prog.Sat.ask (fun _ _ => Prog.Sat.gets fun item hitem => ?_) trivial)
    exact mem_summaries hitem
  exact hsat.of_ok h

/-- Over every run from an empty vault, once the revocation of a bundle is retained, no record of the
bundle that is read later, by `get` or for a list either, reads as good before the review that the
revocation asks for and, behind it, a good review were entered. -/
theorem revocation_sticky {st₀ : CapacityState} {sys₁ sys₂ : System}
    (hrun₁ : Run P cfg (.initial st₀) sys₁) (hrun₂ : Run P cfg sys₁ sys₂)
    (htext : sys₁.server.intentAt agent id .revoke = some text)
    (hinj : NoCollision P sys₂.server) :
    (∀ record, Argos.Vault.record P cfg sys₂.server agent id = .ok record → record.ReadsGood →
      Redeemed P text (sys₁.server.tables.rowsOf agent id).length record) ∧
    (∀ plan plan' s' record, getBundle P cfg agent id plan sys₂.server = (.ok record, plan', s') →
      record.ReadsGood → Redeemed P text (sys₁.server.tables.rowsOf agent id).length record) ∧
    ∀ after limit plan plan' s' list,
      listBundles P cfg agent after limit plan sys₂.server = (.ok list, plan', s') →
      ∀ item ∈ list.items, item.bundleId = id →
        (item.recommended ∨ item.currentReview = "good") →
        ∃ record, Argos.Vault.record P cfg sys₂.server agent id = .ok record ∧
          Redeemed P text (sys₁.server.tables.rowsOf agent id).length record := by
  have hreach₁ := (Reached.initial st₀ : Reached P cfg _).run hrun₁
  have hsound := (hreach₁.run hrun₂).sound
  have hredeemed : ∀ record, Argos.Vault.record P cfg sys₂.server agent id = .ok record →
      record.ReadsGood → Redeemed P text (sys₁.server.tables.rowsOf agent id).length record :=
    fun record hrecord hgood => (hreach₁.pending hrun₂ htext).redeemed hsound hinj hrecord hgood
  refine ⟨hredeemed, fun plan plan' s' record hget => hredeemed record (getBundle_record hget), ?_⟩
  intro after limit plan plan' s' list hlist item hitem hid hgood
  obtain ⟨record, hrecord, hitem⟩ := listBundles_record hlist item hitem
  rw [hid] at hrecord hitem
  refine ⟨record, hrecord, hredeemed record hrecord ?_⟩
  rw [hitem] at hgood
  exact hgood

/-- A revocation is cut after it was retained, is tried again after the restart, and a good review
follows. -/
def sampleRevocation : List ((System → Call) × Plan) :=
  sampleCompletion ++ [(sampleReview "first" .good 4, []),
    (sampleReview "second" .revoked 5, [none, some .kill])]

/-- The rest of the story. -/
def sampleRedemption : List ((System → Call) × Plan) :=
  [(sampleReview "second" .revoked 6, []), (sampleReview "third" .good 7, [])]

theorem revocation_sticky_retried :
    ∃ text record,
      (samplePlay sampleRevocation).server.intentAt "agent" sampleManifest.bundleId .revoke =
        some text ∧
      Argos.Vault.record sample sampleConfig
        (samplePlay (sampleRevocation ++ sampleRedemption)).server "agent"
          sampleManifest.bundleId = .ok record ∧
      record.ReadsGood ∧
      Redeemed sample text ((samplePlay sampleRevocation).server.tables.rowsOf "agent"
        sampleManifest.bundleId).length record := by
  have heval : ((samplePlay sampleRevocation).server.intentAt "agent" sampleManifest.bundleId
        .revoke).isSome = true ∧
      (Argos.Vault.record sample sampleConfig
        (samplePlay (sampleRevocation ++ sampleRedemption)).server "agent"
          sampleManifest.bundleId).toOption.any (·.recommended) = true ∧
      ((samplePlay (sampleRevocation ++ sampleRedemption)).server.hashed.dedup.map
        sample.sha256).Nodup := by decide +kernel
  obtain ⟨hsome, hgood, hnodup⟩ := heval
  obtain ⟨text, htext⟩ := Option.isSome_iff_exists.1 hsome
  rcases hrecord : Argos.Vault.record sample sampleConfig
      (samplePlay (sampleRevocation ++ sampleRedemption)).server "agent" sampleManifest.bundleId
    with e | record
  · rw [hrecord] at hgood
    cases hgood
  · rw [hrecord] at hgood
    refine ⟨text, record, htext, rfl, .inl hgood, ?_⟩
    exact (revocation_sticky (sample_run _) (sample_run_append _ _) htext (.of_nodup hnodup)).1
      record hrecord (.inl hgood)

end Withheld

end Argos.Vault
