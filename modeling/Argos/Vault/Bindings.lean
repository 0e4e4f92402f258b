import Argos.Vault.System

/-!
# What the last review of a record binds

A review names its manifest, its completion and its predecessor by their hashes. So two records that
`verify_record` accepts and that end in the same review are about the same bundle, with the same
history: backwards from the last review each hash fixes the review before it. `record_bound` says so,
with the verdict of an accepted record.

The hashes are compared only among the contents that the two records hold, so that is where
collisions are excluded.
-/

namespace Argos.Vault

section Bindings

variable (P : Primitives)

theorem Codec.RoundTrips.injective {α : Type} {c : Codec α} (h : c.RoundTrips) :
    Function.Injective c.encode := by
  intro a b heq
  have hread := h a
  rw [heq, h b, Option.some.injEq] at hread
  exact hread.symm

/-- The contents whose hashes a record holds. -/
def BundleRecord.hashed (r : BundleRecord) : List Bytes :=
  P.manifest.encode r.manifest :: (r.completion.toList.map P.signedCompletion.encode ++
    r.reviews.map P.signedReview.encode)

variable {P} {key keyId : String}

/-- What a review names, read off its check. -/
theorem reviewMatches_iff {e : ReviewEvent} {agentId bundleId keyId mh ch : String} {i : Nat}
    {previous : Option String} :
    reviewMatches e agentId bundleId keyId mh ch i previous ↔
      e.format = "argos-bundle-review-v1" ∧ e.keyId = keyId ∧ e.agentId = agentId ∧
        e.bundleId = bundleId ∧ e.manifestSha256 = mh ∧ e.completionSha256 = ch ∧
        e.sequence = i + 1 ∧ e.previousSha256 = previous := by
  simp only [reviewMatches, Bool.and_eq_true, beq_iff_eq, and_assoc]

/-- A history that was accepted, cut before its last review: the rest is accepted too, and the last
review names its predecessor. -/
theorem verifyReviews_last {agentId bundleId mh ch state state' : String}
    {l : List (Signed ReviewEvent)} {e : Signed ReviewEvent}
    (h : verifyReviews P key agentId bundleId keyId mh ch (l ++ [e]) 0 none state = .ok state') :
    (∃ state₁, verifyReviews P key agentId bundleId keyId mh ch l 0 none state = .ok state₁) ∧
      e.value.manifestSha256 = mh ∧ e.value.completionSha256 = ch ∧
      e.value.previousSha256 = previousHash P l := by
  obtain ⟨hrest, hlast, -⟩ := verifyReviews_append_singleton.1 h
  obtain ⟨-, -, hmatch⟩ := verifyReview_ok_iff.1 hlast
  obtain ⟨-, -, -, -, hm, hc, -, hprevious⟩ := reviewMatches_iff.1 hmatch
  exact ⟨hrest, hm, hc, by rw [hprevious, Option.or_none]⟩

/-- Two accepted histories that end in the same review are equal. The induction goes backwards: the
hash that the last review names is that of the review before it, in both. -/
theorem reviews_eq (hencode : Function.Injective P.signedReview.encode)
    {agent₁ agent₂ bundle₁ bundle₂ mh₁ mh₂ ch₁ ch₂ : String} :
    ∀ {l₁ l₂ : List (Signed ReviewEvent)} {state₁ state₂ : String},
      Set.InjOn P.sha256 {b | b ∈ (l₁ ++ l₂).map P.signedReview.encode} →
      verifyReviews P key agent₁ bundle₁ keyId mh₁ ch₁ l₁ 0 none "unknown" = .ok state₁ →
      verifyReviews P key agent₂ bundle₂ keyId mh₂ ch₂ l₂ 0 none "unknown" = .ok state₂ →
      l₁.getLast? = l₂.getLast? → l₁ = l₂ := by
  intro l₁
  induction l₁ using List.reverseRecOn with
  | nil =>
    intro l₂ state₁ state₂ _ _ _ hlast
    exact (List.getLast?_eq_none_iff.1 hlast.symm).symm
  | append_singleton l₁ e ih =>
    intro l₂ state₁ state₂ hinj h₁ h₂ hlast
    rw [List.getLast?_concat] at hlast
    obtain ⟨l₂, rfl⟩ := List.getLast?_eq_some_iff.1 hlast.symm
    obtain ⟨⟨_, hrest₁⟩, -, -, hprevious₁⟩ := verifyReviews_last h₁
    obtain ⟨⟨_, hrest₂⟩, -, -, hprevious₂⟩ := verifyReviews_last h₂
    have hprevious : previousHash P l₁ = previousHash P l₂ := hprevious₁.symm.trans hprevious₂
    have hinj' : Set.InjOn P.sha256 {b | b ∈ (l₁ ++ l₂).map P.signedReview.encode} := by
      apply hinj.mono
      intro b hb
      simp only [List.map_append, List.mem_append, Set.mem_ofPred_eq] at hb ⊢
      tauto
    have hends : l₁.getLast? = l₂.getLast? := by
      rcases h : l₁.getLast? with _ | d₁ <;> rcases h' : l₂.getLast? with _ | d₂ <;>
        simp only [previousHash, h, h', Option.map_none, Option.map_some, reduceCtorEq,
          Option.some.injEq] at hprevious
      · rfl
      · have hd₁ : d₁ ∈ l₁ := List.mem_of_getLast? h
        have hd₂ : d₂ ∈ l₂ := List.mem_of_getLast? h'
        have hcontent : P.signedReview.encode d₁ = P.signedReview.encode d₂ :=
          hinj' (by simpa using .inl ⟨d₁, hd₁, rfl⟩) (by simpa using .inr ⟨d₂, hd₂, rfl⟩)
            hprevious
        rw [hencode hcontent]
    rw [ih hinj' hrest₁ hrest₂ hends]

/-- A record that was accepted with a review has a completion, and its last review names the hashes
of both. -/
theorem verifyRecord_last {r : BundleRecord} {e : Signed ReviewEvent}
    (h : verifyRecord P r key keyId = .ok ()) (hlast : r.reviews.getLast? = some e) :
    ∃ completion state, r.completion = some completion ∧
      verifyReviews P key r.agentId r.manifest.bundleId keyId (P.sha256 (P.manifest.encode r.manifest))
        (P.sha256 (P.signedCompletion.encode completion)) r.reviews 0 none "unknown" = .ok state ∧
      e.value.manifestSha256 = P.sha256 (P.manifest.encode r.manifest) ∧
      e.value.completionSha256 = P.sha256 (P.signedCompletion.encode completion) := by
  obtain ⟨-, -, -, -, -, hhistory, -, -⟩ := verifyRecord_ok_iff.1 h
  rcases hc : r.completion with _ | completion <;> rw [hc] at hhistory
  · rw [hhistory] at hlast
    cases hlast
  obtain ⟨-, -, state, hreviews⟩ := hhistory
  obtain ⟨l, hl⟩ := List.getLast?_eq_some_iff.1 hlast
  refine ⟨completion, state, rfl, hreviews, ?_⟩
  rw [hl] at hreviews
  obtain ⟨-, hm, hc, -⟩ := verifyReviews_last hreviews
  exact ⟨hm, hc⟩

/-- The verdict of an accepted record is the decision of its last review, and the record is
recommended exactly when it is complete and that decision is good. Two accepted records that end in
the same review have the same manifest, the same completion and the same reviews, when their
encodings are injective and the hash is on what they hold. -/
theorem record_bound {r₁ r₂ : BundleRecord} (h₁ : verifyRecord P r₁ key keyId = .ok ())
    (h₂ : verifyRecord P r₂ key keyId = .ok ()) :
    (r₁.reviews = [] → r₁.currentReview = "unknown") ∧
    (∀ e, r₁.reviews.getLast? = some e → r₁.currentReview = e.value.request.decision.text) ∧
    (r₁.recommended = true ↔ r₁.completion.isSome ∧
      ∃ e, r₁.reviews.getLast? = some e ∧ e.value.request.decision = .good) ∧
    (Function.Injective P.manifest.encode → Function.Injective P.signedCompletion.encode →
      Function.Injective P.signedReview.encode →
      Set.InjOn P.sha256 {b | b ∈ r₁.hashed P ++ r₂.hashed P} →
      ∀ e, r₁.reviews.getLast? = some e → r₂.reviews.getLast? = some e →
        r₁.manifest = r₂.manifest ∧ r₁.completion = r₂.completion ∧ r₁.reviews = r₂.reviews) := by
  obtain ⟨-, -, -, -, -, -, hcurrent, hrecommended⟩ := verifyRecord_ok_iff.1 h₁
  refine ⟨fun hnil => ?_, fun e he => ?_, ?_, fun hm hc hr hinj e hlast₁ hlast₂ => ?_⟩
  · rw [hcurrent, hnil]; rfl
  · rw [hcurrent, currentReview, he]
  · rw [hrecommended, Bool.and_eq_true, beq_iff_eq, and_comm, currentReview]
    apply and_congr_right'
    rcases r₁.reviews.getLast? with _ | e
    · simp
    · rcases hd : e.value.request.decision <;> simp [ReviewDecision.text, hd]
  · obtain ⟨c₁, state₁, hc₁, hreviews₁, hmanifest₁, hcompletion₁⟩ := verifyRecord_last h₁ hlast₁
    obtain ⟨c₂, state₂, hc₂, hreviews₂, hmanifest₂, hcompletion₂⟩ := verifyRecord_last h₂ hlast₂
    have hmem : ∀ b, b ∈ r₁.hashed P ∨ b ∈ r₂.hashed P → b ∈ {b | b ∈ r₁.hashed P ++ r₂.hashed P} :=
      fun b hb => List.mem_append.2 hb
    refine ⟨hm (hinj (hmem _ (.inl ?_)) (hmem _ (.inr ?_)) (hmanifest₁.symm.trans hmanifest₂)), ?_, ?_⟩
    · exact List.mem_cons_self
    · exact List.mem_cons_self
    · rw [hc₁, hc₂]
      refine congrArg some (hc (hinj (hmem _ (.inl ?_)) (hmem _ (.inr ?_))
        (hcompletion₁.symm.trans hcompletion₂)))
      · simp [BundleRecord.hashed, hc₁]
      · simp [BundleRecord.hashed, hc₂]
    · refine reviews_eq hr (hinj.mono fun b hb => ?_) hreviews₁ hreviews₂ (hlast₁.trans hlast₂.symm)
      simp only [BundleRecord.hashed, List.map_append, List.mem_append, Set.mem_ofPred_eq,
        List.mem_cons] at hb ⊢
      tauto

end Bindings

/-! ## A record with two reviews -/

/-- The sample's bundle is complete. -/
def sampleCompleted : Signed Completion :=
  signValue Wires.completion.write
    { format := "argos-bundle-completion-v1", keyId := "key", agentId := "agent"
      bundleId := sampleManifest.bundleId
      manifestSha256 := sample.sha256 (sample.manifest.encode sampleManifest)
      sha256 := sampleManifest.sha256, sizeBytes := 4, completedAtMs := 3 } sampleKey

/-- A review of it, after the reviews `l`. -/
def sampleReviewAfter (l : List (Signed ReviewEvent)) (request : String)
    (decision : ReviewDecision) : Signed ReviewEvent :=
  signValue Wires.review.write
    { format := "argos-bundle-review-v1", keyId := "key", agentId := "agent"
      bundleId := sampleManifest.bundleId
      manifestSha256 := sample.sha256 (sample.manifest.encode sampleManifest)
      completionSha256 := sample.sha256 (sample.signedCompletion.encode sampleCompleted)
      sequence := l.length + 1, previousSha256 := previousHash sample l
      reviewedAtMs := 4 + l.length, request := ⟨request, decision, "admin", "checked"⟩ } sampleKey

/-- Found good first, and revoked then. -/
def sampleReviews : List (Signed ReviewEvent) :=
  let first := sampleReviewAfter [] "first" .good
  [first, sampleReviewAfter [first] "second" .revoked]

/-- The record of the bundle, with a receipt of the given time. -/
def sampleRecord (receivedAt : Nat) : BundleRecord :=
  let receipt : Receipt :=
    { format := receiptFormat, keyId := "key", agentId := "agent", kind := "bundle-manifest"
      sha256 := sample.sha256 (sample.manifest.encode sampleManifest)
      sizeBytes := (sample.manifest.encode sampleManifest).length
      receivedAtMs := receivedAt, retentionUntilMs := receivedAt + 86400000 }
  { agentId := "agent", manifest := sampleManifest
    manifestReceipt := ⟨receipt, sampleKey.sign (sample.receipt receipt)⟩
    completion := some sampleCompleted, reviews := sampleReviews
    currentReview := "revoked", recommended := false }

/-- Two records of the bundle that differ in their receipts. -/
theorem record_bound_revoked :
    verifyRecord sample (sampleRecord 2) "sample" "key" = .ok () ∧
      verifyRecord sample (sampleRecord 7) "sample" "key" = .ok () ∧
      (sampleRecord 2).reviews = (sampleRecord 7).reviews := by
  have h₁ : verifyRecord sample (sampleRecord 2) "sample" "key" = .ok () := by decide +kernel
  have h₂ : verifyRecord sample (sampleRecord 7) "sample" "key" = .ok () := by decide +kernel
  have hinj : Set.InjOn sample.sha256
      {b | b ∈ (sampleRecord 2).hashed sample ++ (sampleRecord 7).hashed sample} := by
    have hnodup : (((sampleRecord 2).hashed sample).map sample.sha256).Nodup := by decide +kernel
    have hsame : (sampleRecord 2).hashed sample = (sampleRecord 7).hashed sample := rfl
    intro a ha b hb heq
    rw [← hsame, Set.mem_ofPred_eq, List.mem_append, or_self] at ha hb
    exact List.inj_on_of_nodup_map hnodup ha hb heq
  obtain ⟨-, -, -, hbound⟩ := record_bound h₁ h₂
  exact ⟨h₁, h₂, (hbound (Codec.ofWire_roundTrips _).injective (Codec.ofWire_roundTrips _).injective
    (Codec.ofWire_roundTrips _).injective hinj _ rfl rfl).2.2⟩

end Argos.Vault
