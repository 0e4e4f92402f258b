import Argos.Vault.System

/-!
# The history of a bundle

What the catalog keeps over whole runs. Files, manifests, completions and reviews are never lost or
changed (`Evolves`), the reviews of a bundle are numbered in the order of their insertion and carry
different requests (`Sound`), so the records that are read of a bundle at different times extend each
other (`record_history`).
-/

namespace Argos.Vault

open Argos.Lib

/-! ## The transactions -/

section Transactions

variable {P : Primitives} {cfg : ServerConfig} {s s' : Server} {agent id : String} {c c' : Catalog}

/-- The review rows of a bundle, in the order of insertion. -/
def Catalog.rowsOf (c : Catalog) (agent id : String) : List ReviewRow :=
  c.reviews.filter fun r => r.agent = agent ∧ r.bundle = id

theorem mem_rowsOf {row : ReviewRow} :
    row ∈ c.rowsOf agent id ↔ row ∈ c.reviews ∧ row.agent = agent ∧ row.bundle = id := by
  simp [Catalog.rowsOf]

/-- A review row is inserted when neither its number nor its request is taken. -/
theorem insertReview_ok_iff {row : ReviewRow} :
    c.insertReview row = .ok c' ↔
      (∀ r ∈ c.rowsOf row.agent row.bundle,
        r.sequence ≠ row.sequence ∧ r.requestId ≠ row.requestId) ∧
      c' = { c with reviews := c.reviews ++ [row] } := by
  unfold Catalog.insertReview
  split
  · next h =>
    simp only [List.any_eq_true, decide_eq_true_eq] at h
    obtain ⟨r, hr, ha, hb, hor⟩ := h
    simp only [reduceCtorEq, false_iff, not_and]
    intro hall
    have := hall r (mem_rowsOf.2 ⟨hr, ha, hb⟩)
    exact (hor.elim this.1 this.2).elim
  · next h =>
    simp only [Bool.not_eq_true, List.any_eq_false, decide_eq_true_eq, not_and, not_or] at h
    simp only [Except.ok.injEq]
    constructor
    · rintro rfl
      refine ⟨fun r hr => ?_, rfl⟩
      obtain ⟨hmem, ha, hb⟩ := mem_rowsOf.1 hr
      exact h r hmem ha hb
    · rintro ⟨-, rfl⟩
      rfl

/-- The new row of a transaction. -/
theorem rowsOf_append (c : Catalog) (row : ReviewRow) (agent id : String) :
    ({ c with reviews := c.reviews ++ [row] } : Catalog).rowsOf agent id =
      c.rowsOf agent id ++ if row.agent = agent ∧ row.bundle = id then [row] else [] := by
  simp only [Catalog.rowsOf, List.filter_append, List.filter_cons, List.filter_nil, decide_eq_true_eq]

/-- The two ways of settling a pending review. -/
theorem settled_ok_iff {raw : Bytes} {event : Signed ReviewEvent} :
    settled P cfg s agent id raw event = .ok c ↔
      (s.disk.hasObject agent (P.sha256 raw) = true ∧
        (∃ receipt, s.disk.get P cfg agent (P.sha256 raw) = .ok (receipt, raw) ∧
          receipt.receipt.kind = "bundle-review") ∧
        ∃ c', s.tables.insertReview
            ⟨agent, id, event.value.sequence, P.sha256 raw, event.value.request.requestId⟩ = .ok c' ∧
          c = c'.dropIntent agent id .review) ∨
      (s.disk.hasObject agent (P.sha256 raw) = false ∧
        (s.tables.superseded agent id).length < maxReviews ∧
        s.intentAt agent id (.superseded (P.sha256 raw)) = none ∧
        c = (s.tables.addIntent agent id (.superseded (P.sha256 raw)) raw).dropIntent agent id
          .review) := by
  unfold settled
  split
  · next h =>
    simp only [Result.bind_ok_iff, exists_unit_iff, refuse_ok_iff, Bool.or_eq_false_iff,
      bne_eq_false_iff_eq, Except.ok.injEq, h, true_and, Bool.true_eq_false, false_and, or_false]
    constructor
    · rintro ⟨⟨receipt, bytes⟩, hget, ⟨hkind, rfl⟩, c', hinsert, rfl⟩
      exact ⟨⟨receipt, hget, hkind⟩, c', hinsert, rfl⟩
    · rintro ⟨⟨receipt, hget, hkind⟩, c', hinsert, rfl⟩
      exact ⟨(receipt, raw), hget, ⟨hkind, rfl⟩, c', hinsert, rfl⟩
  · next h =>
    rw [Bool.not_eq_true] at h
    simp only [Result.check_ok_iff, refuse_ok_iff, decide_eq_false_iff_not, not_le, ge_iff_le, h,
      Bool.false_eq_true, false_and, true_and, false_or]
    refine and_congr_right fun _ => ?_
    split
    · next hsome =>
      obtain ⟨text, htext⟩ := Option.isSome_iff_exists.1 hsome
      simp [htext]
    · next hnone =>
      rw [Option.not_isSome_iff_eq_none] at hnone
      simp only [Except.ok.injEq, hnone, true_and]
      exact eq_comm

/-- The transaction that ends a review. -/
theorem reviewed_ok_iff {sequence : Nat} {hash : String} {request : ReviewRequest} :
    reviewed c agent id sequence hash request = .ok c' ↔
      ∃ c₁, c.insertReview ⟨agent, id, sequence, hash, request.requestId⟩ = .ok c₁ ∧
        c' = if request.decision = .revoked then
          (c₁.dropIntent agent id .review).dropIntent agent id .revoke
          else c₁.dropIntent agent id .review := by
  simp only [reviewed, Result.bind_ok_iff, Except.ok.injEq]
  constructor
  · rintro ⟨c₁, hinsert, rfl⟩
    exact ⟨c₁, hinsert, rfl⟩
  · rintro ⟨c₁, hinsert, rfl⟩
    exact ⟨c₁, hinsert, rfl⟩

/-- The transaction that ends a completion. -/
theorem completed_ok_iff {hash : String} :
    completed c agent id hash = .ok c' ↔
      ∃ manifestHash, c.bundles.lookup (agent, id) = some ⟨manifestHash, none⟩ ∧
        c' = { c with bundles := c.bundles.insert (agent, id) ⟨manifestHash, some hash⟩ }.dropIntent
          agent id .complete := by
  unfold completed
  split
  · next manifestHash hrow =>
    simp only [Except.ok.injEq, hrow, Option.some.injEq, BundleRow.mk.injEq, and_true,
      exists_eq_left']
    exact eq_comm
  · next hother =>
    simp only [reduceCtorEq, false_iff, not_exists, not_and]
    intro manifestHash hrow
    exact (hother manifestHash hrow).elim

end Transactions

/-! ## Acts lose nothing -/

section Acts

variable {P : Primitives} {cfg : ServerConfig} {s s' : Server}

theorem PutStopped.evolves {agent hash : String} {bytes : Bytes}
    (h : PutStopped cfg agent hash bytes s s') : Evolves s s' :=
  .of_catalog h.disk.toExtends (fun b hb => by rw [h.hashed]; exact List.mem_cons_of_mem _ hb)
    h.catalog

theorem PutEnds.evolves {agent kind : String} {bytes : Bytes} {revocation : Bool} {r : Readings}
    (h : PutEnds P cfg agent kind bytes revocation r s s') : Evolves s s' := by
  obtain ⟨receipt, h⟩ | h := h
  · obtain ⟨hcat, hhashed, hext, -⟩ := put_leaves h
    exact .of_catalog hext (fun b hb => by rw [hhashed]; exact List.mem_cons_of_mem _ hb) hcat
  · exact h.toPutStopped.evolves

theorem Server.Touched.evolves {name : Name} {bytes : Bytes} (free : s.disk.has name = false)
    (h : Server.Touched name bytes s s') : Evolves s s' :=
  .of_catalog (h.extends_ free) (fun b hb => by rw [h.hashed]; exact hb) h.catalog

theorem Evolves.intending {agent id : String} {operation : Operation} {text : Bytes}
    (hopened : s.catalog.isSome) : Evolves s (s.intending agent id operation text) := by
  obtain ⟨hb, hr⟩ := @intending_rows s agent id operation text hopened
  exact .of_tables rfl (fun b hb => List.mem_cons_of_mem _ hb) hb
    (by simp only [hr, List.prefix_rfl])

/-- A row is inserted, and intents are dropped. -/
theorem Evolves.inserted {c c₁ : Catalog} {row : ReviewRow} (hopened : s.catalog.isSome)
    (hinsert : s.tables.insertReview row = .ok c₁) (hbundles : c.bundles = c₁.bundles)
    (hreviews : c.reviews = c₁.reviews) : Evolves s (s.onCatalog fun _ => c) := by
  obtain ⟨-, rfl⟩ := insertReview_ok_iff.1 hinsert
  refine .of_tables rfl (fun _ h => h) ?_ ?_
  · rw [tables_onCatalog hopened, hbundles]
  · rw [tables_onCatalog hopened, hreviews]
    exact List.prefix_append _ _

/-- No act loses anything. -/
theorem Act.evolves (h : Act P cfg s s') : Evolves s s' := by
  cases h with
  | put origin ends => exact ends.evolves
  | root parent free touched => exact touched.evolves free
  | create free written =>
    refine .of_tables rfl (fun _ h => h) ?_ ?_
    · rw [Server.tables, Server.tables, free]; rfl
    · rw [Server.tables, Server.tables, free]; exact List.prefix_refl _
  | @register agent manifest opened valid free limits body =>
    refine ⟨.refl _, fun _ h => h, fun key row hrow => ⟨row, ?_, rfl, fun _ h => h⟩, ?_⟩
    · rw [tables_onCatalog opened]
      refine (AList.lookup_insert_ne ?_).trans hrow
      rintro rfl
      rw [free] at hrow
      cases hrow
    · rw [tables_onCatalog opened]
      exact List.prefix_refl _
  | intendComplete raw covered open_ free => exact .intending (recordRaw_row raw).1
  | complete raw open_ pending decoded verified chunks body hashed commit =>
    have hopened := (recordRaw_row raw).1
    obtain ⟨manifestHash, hlookup, rfl⟩ := completed_ok_iff.1 commit
    refine ⟨.refl _, fun _ h => h, fun key row hrow => ?_, ?_⟩
    · rw [tables_onCatalog hopened]
      rename_i agent id _ bytes _
      by_cases hkey : key = (agent, id)
      · subst hkey
        rw [hlookup, Option.some.injEq] at hrow
        subst hrow
        exact ⟨_, AList.lookup_insert _, rfl, by rintro _ ⟨⟩⟩
      · exact ⟨row, (AList.lookup_insert_ne hkey).trans hrow, rfl, fun _ h => h⟩
    · rw [tables_onCatalog hopened]
      exact List.prefix_refl _
  | retain valid raw covered fresh apart complete revoked free =>
    exact .intending (recordRaw_row raw).1
  | settle held current pending decoded good verified published commit =>
    obtain ⟨-, -, c₁, hinsert, rfl⟩ | ⟨hno, -⟩ := settled_ok_iff.1 commit
    · exact .inserted (recordRaw_row current).1 hinsert rfl rfl
    · rw [published] at hno
      cases hno
  | supersede held current pending decoded good verified unpublished commit =>
    have hopened := (recordRaw_row current).1
    obtain ⟨hyes, -⟩ | ⟨-, -, -, rfl⟩ := settled_ok_iff.1 commit
    · rw [unpublished] at hyes
      cases hyes
    · refine .of_tables rfl (fun _ h => h) ?_ ?_
      · rw [tables_onCatalog hopened]; rfl
      · rw [tables_onCatalog hopened]; exact List.prefix_refl _
  | intendReview valid raw covered complete fresh room last held free =>
    exact .intending (recordRaw_row raw).1
  | review raw complete fresh held pending decoded same verified body hashed commit =>
    obtain ⟨c₁, hinsert, rfl⟩ := reviewed_ok_iff.1 commit
    refine .inserted (recordRaw_row raw).1 hinsert ?_ ?_
    · split <;> rfl
    · split <;> rfl

theorem Acts.evolves (h : Acts P cfg s s') : Evolves s s' := by
  induction h with
  | refl => exact .refl _
  | tail _ hact ih => exact ih.trans hact.evolves

theorem Stop.evolves (h : Stop P cfg s s') : Evolves s s' := by
  cases h with
  | here => exact .refl _
  | put origin stopped => exact stopped.evolves
  | root parent free touched => exact touched.evolves free

theorem Restarted.evolves (h : Restarted P cfg s s') : Evolves s s' := by
  obtain ⟨st₀, root, -, -, rfl⟩ := h
  exact .of_catalog (.refl _) (fun _ h => h) rfl

theorem Moves.evolves (h : Moves P cfg s s') : Evolves s s' := by
  cases h with
  | acts h => exact h.evolves
  | restarted h r =>
    obtain ⟨s₁, hacts, hstop⟩ := h
    exact (hacts.evolves.trans hstop.evolves).trans r.evolves

end Acts

/-! ## Numbers and requests -/

/-- What the server always finds in its own directory and tables: every stored body was hashed, and
the reviews of a bundle are numbered from one on and carry different requests. -/
structure Sound (s : Server) : Prop where
  blobs : ∀ agent hash file, s.disk.files.lookup (.blob agent hash) = some file →
    file.bytes ∈ s.hashed
  ordered : ∀ agent id, (s.tables.rowsOf agent id).map (·.sequence) =
    List.range' 1 (s.tables.rowsOf agent id).length
  unique : ∀ agent id, ((s.tables.rowsOf agent id).map (·.requestId)).Nodup

section Sound

variable {P : Primitives} {cfg : ServerConfig} {s s' : Server} {agent id : String}

theorem Sound.initial (st₀ : CapacityState) : Sound (.initial st₀) := by
  refine ⟨fun agent hash file h => ?_, fun _ _ => rfl, fun _ _ => List.nodup_nil⟩
  have : (∅ : Map Name File).lookup (.blob agent hash) = some file := h
  cases this

/-- The order of the rows is that of their numbers. -/
theorem Sound.rows (h : Sound s) : s.tables.rows agent id = (s.tables.rowsOf agent id).take 101 := by
  have hpair : (s.tables.rowsOf agent id).Pairwise fun a b => a.sequence ≤ b.sequence := by
    have := List.pairwise_le_range' (s := 1) (n := (s.tables.rowsOf agent id).length) 1
    rw [← h.ordered agent id, List.pairwise_map] at this
    exact this
  rw [Catalog.rows, ← Catalog.rowsOf, hpair.insertionSort_eq]

/-- A record that can be read has all reviews of its bundle. -/
theorem Sound.reviews {record : BundleRecord} (h : Sound s)
    (hraw : recordRaw P cfg s agent id = .ok record) :
    (s.tables.rowsOf agent id).length = record.reviews.length ∧
      List.Forall₂ (fun row e => readReview P cfg s.disk agent row = .ok e)
        (s.tables.rowsOf agent id) record.reviews := by
  obtain ⟨row, -, -, -, -, hreviews, hverified, -⟩ := recordRaw_ok_iff.1 hraw
  rw [readReviews_ok_iff, h.rows] at hreviews
  have hlen := hreviews.length_eq
  have hmax := (verifyRecord_ok_iff.1 hverified).2.2.1
  rw [List.length_take] at hlen
  have hall : (s.tables.rowsOf agent id).length ≤ 101 := by
    unfold maxReviews at hmax
    omega
  rw [List.take_of_length_le hall] at hreviews
  exact ⟨hreviews.length_eq, hreviews⟩

/-- What a row and its review have in common. -/
theorem readReview_ok_iff {d : Disk} {row : ReviewRow} {event : Signed ReviewEvent} :
    readReview P cfg d agent row = .ok event ↔
      (∃ receipt body, d.get P cfg agent row.hash = .ok (receipt, body) ∧
        P.signedReview.decode body = some event ∧ receipt.receipt.kind = "bundle-review") ∧
      event.value.sequence = row.sequence ∧ event.value.request.requestId = row.requestId := by
  simp only [readReview, Result.bind_ok_iff, exists_unit_iff, fromSlice_ok_iff, refuse_ok_iff,
    Bool.or_eq_false_iff, bne_eq_false_iff_eq, Except.ok.injEq]
  constructor
  · rintro ⟨⟨receipt, body⟩, hget, e, hdec, ⟨⟨hkind, hseq⟩, hreq⟩, rfl⟩
    exact ⟨⟨receipt, body, hget, hdec, hkind⟩, hseq, hreq⟩
  · rintro ⟨⟨receipt, body, hget, hdec, hkind⟩, hseq, hreq⟩
    exact ⟨(receipt, body), hget, event, hdec, ⟨⟨hkind, hseq⟩, hreq⟩, rfl⟩

/-- A review that was accepted at the end of a record has the next number. -/
theorem verified_push_sequence {record : BundleRecord} {event : Signed ReviewEvent}
    (h : verified P cfg (record.push event) = .ok ()) (hrecord : verified P cfg record = .ok ()) :
    event.value.sequence = record.reviews.length + 1 := by
  obtain ⟨completion, hc⟩ := verifyRecord_push_complete h
  obtain ⟨-, hfits⟩ := (verifyRecord_push hrecord hc).1 h
  have hmatches := (verifyReview_ok_iff.1 hfits).2.2
  simp only [reviewMatches, Bool.and_eq_true, beq_iff_eq] at hmatches
  exact hmatches.1.2

/-- The rows are the same, and every new body was hashed. -/
theorem Sound.of_reviews (h : Sound s) (hreviews : s'.tables.reviews = s.tables.reviews)
    (hblobs : ∀ a k file, s'.disk.files.lookup (.blob a k) = some file →
      s.disk.files.lookup (.blob a k) = some file ∨ file.bytes ∈ s'.hashed)
    (hhashed : ∀ b ∈ s.hashed, b ∈ s'.hashed) : Sound s' := by
  have hrows : ∀ a b, s'.tables.rowsOf a b = s.tables.rowsOf a b := by
    intro a b
    rw [Catalog.rowsOf, Catalog.rowsOf, hreviews]
  refine ⟨fun a k file hfile => ?_, fun a b => ?_, fun a b => ?_⟩
  · exact (hblobs a k file hfile).elim (fun hold => hhashed _ (h.blobs a k file hold)) id
  · rw [hrows]; exact h.ordered a b
  · rw [hrows]; exact h.unique a b

/-- A row with the next number is inserted. -/
theorem Sound.inserted {c c₁ : Catalog} {row : ReviewRow} (h : Sound s)
    (hopened : s.catalog.isSome) (hinsert : s.tables.insertReview row = .ok c₁)
    (hreviews : c.reviews = c₁.reviews)
    (hnext : row.sequence = (s.tables.rowsOf row.agent row.bundle).length + 1) :
    Sound (s.onCatalog fun _ => c) := by
  obtain ⟨hfree, rfl⟩ := insertReview_ok_iff.1 hinsert
  have hrows : ∀ a b, (s.onCatalog fun _ => c).tables.rowsOf a b =
      s.tables.rowsOf a b ++ if row.agent = a ∧ row.bundle = b then [row] else [] := by
    intro a b
    rw [← rowsOf_append, Catalog.rowsOf, Catalog.rowsOf, tables_onCatalog hopened, hreviews]
  refine ⟨h.blobs, fun a b => ?_, fun a b => ?_⟩
  · rw [hrows]
    split
    · next heq =>
      obtain ⟨rfl, rfl⟩ := heq
      rw [List.map_append, h.ordered, List.length_append, List.map_singleton, hnext,
        List.length_singleton, List.range'_concat, Nat.one_mul, Nat.add_comm]
    · rw [List.append_nil]
      exact h.ordered a b
  · rw [hrows]
    split
    · next heq =>
      obtain ⟨rfl, rfl⟩ := heq
      rw [List.map_append, List.nodup_append]
      refine ⟨h.unique _ _, by simp, ?_⟩
      rintro x hx y hy rfl
      obtain ⟨r, hr, rfl⟩ := List.mem_map.1 hx
      rw [List.map_singleton, List.mem_singleton] at hy
      exact (hfree r hr).2 hy
    · rw [List.append_nil]
      exact h.unique a b

/-- The only new body of a put is its own. -/
theorem PutStopped.sound {hash : String} {bytes : Bytes} (h : Sound s)
    (hstop : PutStopped cfg agent hash bytes s s') : Sound s' := by
  refine h.of_reviews (by rw [tables_of_catalog hstop.catalog]) (fun a k file hfile => ?_)
    hstop.evolves.hashed
  obtain hold | ⟨-, ⟨-, hbytes⟩ | hname⟩ := hstop.disk.news _ _ hfile
  · exact .inl hold
  · refine .inr ?_
    rw [hbytes, hstop.hashed]
    exact List.mem_cons_self
  · cases hname

theorem PutEnds.sound {kind : String} {bytes : Bytes} {revocation : Bool} {r : Readings}
    (h : Sound s) (hends : PutEnds P cfg agent kind bytes revocation r s s') : Sound s' := by
  obtain ⟨receipt, hfound | hadd⟩ | href := hends
  · rw [hfound.state]
    exact h.of_reviews rfl (fun _ _ _ hfile => .inl hfile) fun b hb => List.mem_cons_of_mem _ hb
  · obtain ⟨hcat, hhashed, -, -⟩ := put_leaves (.inr hadd)
    refine h.of_reviews (by rw [tables_of_catalog hcat]) (fun a k file hfile => ?_)
      fun b hb => by rw [hhashed]; exact List.mem_cons_of_mem _ hb
    obtain ⟨control, -, -, -, rfl⟩ := hadd.state
    dsimp only at hfile
    rw [Disk.lookup_published, if_neg (by simp)] at hfile
    split at hfile
    · cases hfile
      exact .inr List.mem_cons_self
    · exact .inl hfile
  · exact href.toPutStopped.sound h

theorem Server.Touched.sound {name : Name} {bytes : Bytes} (h : Sound s)
    (parent : name.parent = none) (ht : Server.Touched name bytes s s') : Sound s' := by
  refine h.of_reviews (by rw [tables_of_catalog ht.catalog]) (fun a k file hfile => ?_)
    fun b hb => by rw [ht.hashed]; exact hb
  obtain hold | ⟨hname, -⟩ := ht.news _ _ hfile
  · exact .inl hold
  · rw [← hname] at parent
    cases parent

/-- Every act keeps the server sound. -/
theorem Act.sound (hact : Act P cfg s s') (h : Sound s) : Sound s' := by
  have hintend : ∀ {agent id operation text}, s.catalog.isSome →
      Sound (s.intending agent id operation text) := fun hopened =>
    h.of_reviews (intending_rows hopened).2 (fun _ _ _ hfile => .inl hfile)
      fun b hb => List.mem_cons_of_mem _ hb
  have hsame : ∀ {c : Catalog}, s.catalog.isSome → c.reviews = s.tables.reviews →
      Sound (s.onCatalog fun _ => c) := fun hopened hreviews =>
    h.of_reviews (by rw [tables_onCatalog hopened, hreviews]) (fun _ _ _ hfile => .inl hfile)
      fun _ hb => hb
  cases hact with
  | put origin ends => exact ends.sound h
  | root parent free touched => exact touched.sound h parent
  | create free written =>
    refine h.of_reviews ?_ (fun _ _ _ hfile => .inl hfile) fun _ hb => hb
    rw [Server.tables, Server.tables, free]
    rfl
  | register opened valid free limits body =>
    refine h.of_reviews ?_ (fun _ _ _ hfile => .inl hfile) fun _ hb => hb
    rw [tables_onCatalog opened]
    rfl
  | intendComplete raw covered open_ free => exact hintend (recordRaw_row raw).1
  | complete raw open_ pending decoded verified chunks body hashed commit =>
    obtain ⟨manifestHash, -, rfl⟩ := completed_ok_iff.1 commit
    exact hsame (recordRaw_row raw).1 rfl
  | retain valid raw covered fresh apart complete revoked free => exact hintend (recordRaw_row raw).1
  | settle held current pending decoded good verified published commit =>
    obtain ⟨-, -, c₁, hinsert, rfl⟩ | ⟨hno, -⟩ := settled_ok_iff.1 commit
    · refine h.inserted (recordRaw_row current).1 hinsert rfl ?_
      obtain ⟨-, -, -, -, -, -, hrecord, -⟩ := recordRaw_ok_iff.1 current
      rw [(h.reviews current).1]
      exact verified_push_sequence verified hrecord
    · rw [published] at hno
      cases hno
  | supersede held current pending decoded good verified unpublished commit =>
    obtain ⟨hyes, -⟩ | ⟨-, -, -, rfl⟩ := settled_ok_iff.1 commit
    · rw [unpublished] at hyes
      cases hyes
    · exact hsame (recordRaw_row current).1 rfl
  | intendReview valid raw covered complete fresh room last held free =>
    exact hintend (recordRaw_row raw).1
  | review raw complete fresh held pending decoded same verified body hashed commit =>
    obtain ⟨c₁, hinsert, rfl⟩ := reviewed_ok_iff.1 commit
    refine h.inserted (recordRaw_row raw).1 hinsert (by split <;> rfl) ?_
    rw [(h.reviews raw).1]

theorem Acts.sound (hacts : Acts P cfg s s') (h : Sound s) : Sound s' := by
  induction hacts with
  | refl => exact h
  | tail _ hact ih => exact hact.sound ih

theorem Stop.sound (hstop : Stop P cfg s s') (h : Sound s) : Sound s' := by
  cases hstop with
  | here => exact h
  | put origin stopped => exact stopped.sound h
  | root parent free touched => exact touched.sound h parent

theorem Restarted.sound (hr : Restarted P cfg s s') (h : Sound s) : Sound s' := by
  obtain ⟨st₀, root, -, -, rfl⟩ := hr
  exact ⟨h.blobs, h.ordered, h.unique⟩

theorem Moves.sound (hmoves : Moves P cfg s s') (h : Sound s) : Sound s' := by
  cases hmoves with
  | acts hacts => exact hacts.sound h
  | restarted hhalts hr =>
    obtain ⟨s₁, hacts, hstop⟩ := hhalts
    exact hr.sound (hstop.sound (hacts.sound h))

end Sound

/-! ## Runs -/

section Runs

variable {P : Primitives} {cfg : ServerConfig} {s s' : Server} {sys sys' : System}
  {agent id : String}

/-- The beginning of a completion stays what it was. -/
theorem Begun.evolves {record : BundleRecord} (h : Begun P cfg s agent id record)
    (hev : Evolves s s') : Begun P cfg s' agent id record := by
  obtain ⟨row, hrow, ⟨body, hget, hdec⟩, heq⟩ := h
  obtain ⟨row', hrow', hmanifest, -⟩ := hev.bundles _ _ hrow
  exact ⟨row', hrow', ⟨body, by rw [hmanifest]; exact Disk.get_mono hev.disk hget, hdec⟩, heq⟩

/-- The completions under way after a step are those before it, or one that has just begun. -/
theorem Step.begun (hstep : Step P cfg sys sys') (h : AllBegun P cfg sys) :
    AllBegun P cfg sys' := by
  have hev := (hstep.moves h).evolves
  have hold : ∀ c ∈ sys.reading, Begun P cfg sys'.server c.agent c.id c.record :=
    fun c hc => (h c hc).evolves hev
  cases hstep with
  | @call call plan plan' o s' allowed run alive =>
    intro c hc
    cases call with
    | start agent id =>
      cases o with
      | ok answer =>
        cases answer with
        | reading record =>
          rcases List.mem_cons.1 hc with rfl | hc
          · obtain ⟨-, hstart⟩ := (Call.tame h allowed).sat.of_ok run
            obtain ⟨rfl, hraw, hopen⟩ := hstart agent id record rfl rfl
            exact .of_recordRaw hraw hopen
          · exact hold c hc
        | receipt receipt => exact hold c hc
        | record record => exact hold c hc
      | error e => exact hold c hc
      | killed => exact hold c hc
    | finish completer looks r => exact hold c (List.mem_of_mem_erase hc)
    | upload agent kind bytes r => exact hold c hc
    | register agent manifest r => exact hold c hc
    | review agent id request r => exact hold c hc
  | killed allowed run restarted => exact fun _ hc => (List.not_mem_nil hc).elim
  | restart restarted => exact fun _ hc => (List.not_mem_nil hc).elim

/-- What holds of every system that is reached from an empty vault. -/
structure Reached (P : Primitives) (cfg : ServerConfig) (sys : System) : Prop where
  begun : AllBegun P cfg sys
  sound : Sound sys.server

theorem Reached.initial (st₀ : CapacityState) : Reached P cfg (.initial st₀) :=
  ⟨fun _ hc => (List.not_mem_nil hc).elim, .initial st₀⟩

theorem Reached.step (h : Reached P cfg sys) (hstep : Step P cfg sys sys') : Reached P cfg sys' :=
  ⟨hstep.begun h.begun, (hstep.moves h.begun).sound h.sound⟩

theorem Reached.run (h : Reached P cfg sys) (hrun : Run P cfg sys sys') : Reached P cfg sys' := by
  induction hrun with
  | refl => exact h
  | tail _ hstep ih => exact ih.step hstep

/-- Over a whole run nothing is lost. -/
theorem Reached.evolves (h : Reached P cfg sys) (hrun : Run P cfg sys sys') :
    Evolves sys.server sys'.server := by
  induction hrun with
  | refl => exact .refl _
  | tail hrun hstep ih => exact ih.trans (hstep.moves (h.run hrun).begun).evolves

/-! ## Records over time -/

theorem record_ok {record : BundleRecord} (h : Argos.Vault.record P cfg s agent id = .ok record) :
    recordRaw P cfg s agent id = .ok record ∧ s.intentAt agent id .revoke = none ∧
      bundleCoverage P cfg s agent id record false = .ok () := by
  simp only [Argos.Vault.record, Result.bind_ok_iff, exists_unit_iff, refuse_ok_iff,
    Except.ok.injEq] at h
  obtain ⟨hrevoke, -, raw, hraw, hcovered, rfl⟩ := h
  exact ⟨hraw, by simpa [Server.hasRevocationIntent] using hrevoke, hcovered⟩

/-- A record that is read later has the same manifest, the completion if there was one, and all the
reviews. -/
theorem recordRaw_extends {r₁ r₂ : BundleRecord} (hs : Sound s) (hs' : Sound s') (hev : Evolves s s')
    (h₁ : recordRaw P cfg s agent id = .ok r₁) (h₂ : recordRaw P cfg s' agent id = .ok r₂) :
    r₂.manifest = r₁.manifest ∧ (r₁.completion.isSome → r₂.completion = r₁.completion) ∧
      r₁.reviews <+: r₂.reviews := by
  have hmanifest := (recordRaw_manifest h₁ h₂ (fun row row' hrow hrow' => by
    obtain ⟨row'', hrow'', hsame, -⟩ := hev.bundles _ _ hrow
    rw [hrow', Option.some.injEq] at hrow''
    rw [hrow'', hsame]) hev.disk).1
  refine ⟨hmanifest, fun hsome => ?_, ?_⟩
  · obtain ⟨row, hrow, -, -, hcompletion, -⟩ := recordRaw_ok_iff.1 h₁
    obtain ⟨row', hrow', -, -, hcompletion', -⟩ := recordRaw_ok_iff.1 h₂
    obtain ⟨row'', hrow'', -, hkept⟩ := hev.bundles _ _ hrow
    rw [hrow', Option.some.injEq] at hrow''
    subst hrow''
    rcases hhash : row.completionHash with _ | hash
    · rw [hhash, readCompletion, Except.ok.injEq] at hcompletion
      rw [← hcompletion] at hsome
      cases hsome
    · rw [hkept hash hhash] at hcompletion'
      rw [hhash] at hcompletion
      have := readCompletion_mono hev.disk hcompletion
      rw [hcompletion', Except.ok.injEq] at this
      exact this
  · refine forall₂_prefix (fun row e e' he he' => ?_) (hev.reviews.filter _) (hs.reviews h₁).2
      (hs'.reviews h₂).2
    have := readReview_mono hev.disk he
    rw [he', Except.ok.injEq] at this
    exact this

/-- The reviews of a record are numbered from one on, and no request occurs twice. -/
theorem recordRaw_numbered {record : BundleRecord} (hs : Sound s)
    (h : recordRaw P cfg s agent id = .ok record) :
    record.reviews.map (·.value.sequence) = List.range' 1 record.reviews.length ∧
      (record.reviews.map (·.value.request.requestId)).Nodup := by
  obtain ⟨hlen, hall⟩ := hs.reviews h
  have hmap : ∀ {β : Type} {f : ReviewRow → β} {g : Signed ReviewEvent → β},
      (∀ row e, readReview P cfg s.disk agent row = .ok e → g e = f row) →
        record.reviews.map g = (s.tables.rowsOf agent id).map f := by
    intro β f g hfg
    refine List.forall₂_eq_eq_eq ▸ ?_
    rw [List.forall₂_map_left_iff, List.forall₂_map_right_iff]
    exact (hall.imp fun row e he => hfg row e he).flip
  constructor
  · rw [hmap fun row e he => (readReview_ok_iff.1 he).2.1, hs.ordered, hlen]
  · rw [hmap fun row e he => (readReview_ok_iff.1 he).2.2]
    exact hs.unique agent id

/-! ## Requests that were applied -/

/-- Without the right to create it, opening the catalog changes nothing. -/
theorem openCatalog_false_sat :
    (openCatalog false).Sat s (fun found s' => s' = s ∧ (found → s.catalog.isSome))
      (fun s' => s' = s) (fun _ => False) := by
  refine Prog.Sat.bind (Prog.Sat.gets (Prog.Sat.bind (Prog.Sat.gets (Prog.Sat.ite (fun _ => ?_)
    (fun _ => Prog.Sat.ite (fun _ => Prog.Sat.fail rfl) (fun _ => ?_))))))
  · exact Prog.Sat.bind (Prog.Sat.ask (fun _ _ => Prog.Sat.pure ⟨rfl, by simp⟩) rfl)
  · refine Prog.Sat.ask (fun found h => ⟨rfl, fun _ => ?_⟩) rfl
    simp only [checkCatalog, Result.bind_ok_iff, exists_unit_iff, refuse_ok_iff] at h
    obtain ⟨-, -, -, -, h, -⟩ := h
    simpa [Option.isSome_iff_ne_none] using h

theorem requireCatalog_false_sat :
    (requireCatalog false).Sat s (fun _ s' => s' = s ∧ s.catalog.isSome) (fun s' => s' = s)
      (fun _ => False) := by
  refine Prog.Sat.bind (openCatalog_false_sat.mono (fun found s' ⟨hs', hfound⟩ => ?_)
    (fun _ h => h) (fun _ h => h))
  subst hs'
  refine Prog.Sat.ask (fun _ h => ⟨rfl, hfound ?_⟩) rfl
  rw [refuse_ok_iff] at h
  simpa using h

/-- A request whose number was used for another one is refused, and nothing changes. -/
theorem reviewInner_reused {request : ReviewRequest} {r : Readings} {row : ReviewRow}
    (hs : Sound s) (hrow : row ∈ s.tables.rowsOf agent id) (hid : row.requestId = request.requestId)
    (hother : ∀ event, readReview P cfg s.disk agent row = .ok event →
      event.value.request ≠ request) :
    (reviewInner P cfg agent id request r).Sat s (fun _ _ => False) (fun s' => s' = s)
      (fun _ => False) := by
  refine Prog.Sat.bind (Prog.Sat.ask (fun _ _ => ?_) rfl)
  refine Prog.Sat.bind (requireCatalog_false_sat.mono (fun _ s₁ hs₁ => ?_) (fun _ h => h)
    (fun _ h => h))
  obtain ⟨rfl, -⟩ := hs₁
  refine Prog.Sat.bind (Prog.Sat.ask (fun raw hread => ?_) rfl)
  refine Prog.Sat.bind (Prog.Sat.ask (fun _ _ => ?_) rfl)
  obtain ⟨event, hmem, hevent⟩ := exists_of_forall₂ (hs.reviews hread).2 hrow
  have hid := (readReview_ok_iff.1 hevent).2.2.trans hid
  rcases hfind : raw.findRequest request with _ | existing
  · rw [BundleRecord.findRequest, List.find?_eq_none] at hfind
    exact (hfind event hmem (by simpa using hid)).elim
  · -- Only one review has this number, so the one that was found is the one that was applied.
    have hsame : existing = event := by
      have hpred := List.find?_some hfind
      rw [beq_iff_eq] at hpred
      exact List.inj_on_of_nodup_map (recordRaw_numbered hs hread).2 (List.mem_of_find?_eq_some hfind)
        hmem (hpred.trans hid.symm)
    subst hsame
    exact Prog.Sat.ite (fun _ => Prog.Sat.fail rfl) (fun h => (h (hother _ hevent)).elim)

/-- Over every run from an empty vault: a record that is read later has the same manifest, the same
completion as soon as there was one, and extends the reviews; the reviews of a record are numbered
from one on and no request occurs twice; and a request whose identifier was applied with another
content is refused, and changes nothing. -/
theorem record_history {st₀ : CapacityState} {sys₁ sys₂ : System}
    (hrun₁ : Run P cfg (.initial st₀) sys₁) (hrun₂ : Run P cfg sys₁ sys₂) (agent id : String) :
    (∀ r₁ r₂, record P cfg sys₁.server agent id = .ok r₁ →
      record P cfg sys₂.server agent id = .ok r₂ →
        r₂.manifest = r₁.manifest ∧ (r₁.completion.isSome → r₂.completion = r₁.completion) ∧
          r₁.reviews <+: r₂.reviews) ∧
    (∀ r₁, record P cfg sys₁.server agent id = .ok r₁ →
      r₁.reviews.map (·.value.sequence) = List.range' 1 r₁.reviews.length ∧
        (r₁.reviews.map (·.value.request.requestId)).Nodup) ∧
    ∀ (request : ReviewRequest) (row : ReviewRow), row ∈ sys₁.server.tables.rowsOf agent id →
      row.requestId = request.requestId →
      (∀ event, readReview P cfg sys₁.server.disk agent row = .ok event →
        event.value.request ≠ request) →
      ∀ (r : Readings) (plan : Plan),
        ∃ e plan', reviewInner P cfg agent id request r plan sys₁.server =
          (.error e, plan', sys₁.server) := by
  have hreach₁ := (Reached.initial st₀ : Reached P cfg _).run hrun₁
  have hreach₂ := hreach₁.run hrun₂
  have hev := hreach₁.evolves hrun₂
  refine ⟨fun r₁ r₂ h₁ h₂ => ?_, fun r₁ h₁ => ?_, fun request row hrow hid hother r plan => ?_⟩
  · exact recordRaw_extends hreach₁.sound hreach₂.sound hev (record_ok h₁).1 (record_ok h₂).1
  · exact recordRaw_numbered hreach₁.sound (record_ok h₁).1
  · have hout := reviewInner_reused (r := r) hreach₁.sound hrow hid hother plan
    rcases hrun : reviewInner P cfg agent id request r plan sys₁.server with ⟨o, plan', s'⟩
    rw [hrun] at hout
    cases o with
    | ok a => exact hout.elim
    | error e => exact ⟨e, plan', by rw [hout]⟩
    | killed => exact hout.elim

/-- A bundle is completed, then found good. -/
theorem record_history_one_review :
    ((samplePlay (sampleCompletion ++ [(sampleReview "first" .good 4, [])])).server.tables.rowsOf
        "agent" sampleManifest.bundleId).length = 1 ∧
      ∀ r₁ r₂, record sample sampleConfig (samplePlay sampleCompletion).server "agent"
          sampleManifest.bundleId = .ok r₁ →
        record sample sampleConfig (samplePlay (sampleCompletion ++
          [(sampleReview "first" .good 4, [])])).server "agent" sampleManifest.bundleId = .ok r₂ →
          r₂.manifest = r₁.manifest ∧ (r₁.completion.isSome → r₂.completion = r₁.completion) ∧
            r₁.reviews <+: r₂.reviews :=
  ⟨by decide +kernel, (record_history (sample_run _) (sample_run_append _ _) _ _).1⟩

end Runs

end Argos.Vault
