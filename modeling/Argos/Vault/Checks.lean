import Argos.Vault.Types

/-!
# What the vault checks

The validators of `lib.rs` and `bundle.rs`: identifiers, receipts, manifests, review requests, and
`verify_record`, which ties a record's manifest, completion and reviews together. Each has the spec
lemma that says when it accepts, and the later modules use these and not the definitions.

The reviews of a record form a chain: each names its position, the completion and the hash of its
predecessor. `verifyReviews_append_singleton` says what one more review needs, which is how the server
extends a history.
-/

namespace Argos.Vault

/-! ## Results -/

/-- Returns an error with the text `text` when `bad` holds. -/
def refuse (bad : Bool) (text : String) : Result Unit :=
  if bad then .error (.message text) else .ok ()

@[simp]
theorem refuse_ok_iff {bad : Bool} {text : String} {u : Unit} :
    refuse bad text = .ok u ↔ bad = false := by
  cases bad <;> simp [refuse]

/-- A composition succeeds when both parts do. -/
theorem Result.bind_ok_iff {α β : Type} {x : Result α} {f : α → Result β} {b : β} :
    (x >>= f) = .ok b ↔ ∃ a, x = .ok a ∧ f a = .ok b := by
  cases x with
  | ok a => simp [bind, Except.bind]
  | error e => simp [bind, Except.bind]

theorem exists_unit_iff {p : Unit → Prop} : (∃ u, p u) ↔ p () :=
  ⟨fun ⟨(), h⟩ => h, fun h => ⟨(), h⟩⟩

/-- A composition whose first part only checks succeeds when both parts do. -/
theorem Result.check_ok_iff {β : Type} {x : Result Unit} {f : Unit → Result β} {b : β} :
    (x >>= f) = .ok b ↔ x = .ok () ∧ f () = .ok b := by
  rw [Result.bind_ok_iff, exists_unit_iff]

/-! ## Identifiers -/

/-- `char::is_whitespace`. -/
def isWhitespace (c : Char) : Bool :=
  (9 ≤ c.toNat && c.toNat ≤ 13) || c.toNat == 0x20 || c.toNat == 0x85 || c.toNat == 0xA0 ||
    c.toNat == 0x1680 || (0x2000 ≤ c.toNat && c.toNat ≤ 0x200A) || c.toNat == 0x2028 ||
    c.toNat == 0x2029 || c.toNat == 0x202F || c.toNat == 0x205F || c.toNat == 0x3000

/-- `text.trim().is_empty()`. -/
def blank (text : String) : Bool := text.toList.all isWhitespace

/-- `str::bytes`. -/
def bytesOf (text : String) : Bytes := text.toByteArray.data.toList

/-- `u8::is_ascii_digit`. -/
def isDigit (b : UInt8) : Bool := 48 ≤ b && b ≤ 57

/-- A lower-case hexadecimal digit. -/
def isHexDigit (b : UInt8) : Bool := isDigit b || (97 ≤ b && b ≤ 102)

/-- A letter, a digit, `_` or `-`. -/
def isIdByte (b : UInt8) : Bool :=
  isDigit b || (65 ≤ b && b ≤ 90) || (97 ≤ b && b ≤ 122) || b == 95 || b == 45

/-- `valid_id`. -/
def validId (value : String) : Bool :=
  !(bytesOf value).isEmpty && value.utf8ByteSize ≤ 128 && (bytesOf value).all isIdByte

/-- `valid_hash`. -/
def validHash (value : String) : Bool := value.utf8ByteSize == 64 && (bytesOf value).all isHexDigit

/-- `valid_bundle_id`. -/
def validBundleId (value : String) : Bool :=
  value.utf8ByteSize == 32 && (bytesOf value).all isHexDigit

/-- `valid_kind`. -/
def validKind (value : String) : Bool :=
  value ∈ ["evidence", "backup", "audit", "bundle-manifest", "bundle-completion", "bundle-review"]

/-- `kind.starts_with("bundle-")`. -/
def isControlKind (kind : String) : Bool := (bytesOf "bundle-").isPrefixOf (bytesOf kind)

/-! ## Receipts -/

/-- `FORMAT`. -/
def receiptFormat : String := "argos-vault-receipt-v1"

section Receipts

variable (P : Primitives)

/-- `sign`. -/
def sign (receipt : Receipt) (key : SigningKey) : SignedReceipt :=
  ⟨receipt, key.sign (P.receipt receipt)⟩

/-- `verify_receipt`. -/
def verifyReceipt (receipt : SignedReceipt) (pinnedPubkey : String) : Result Unit := do
  let value := receipt.receipt
  refuse (value.format != receiptFormat || !validId value.keyId || !validId value.agentId ||
    !validKind value.kind || !validHash value.sha256 || value.sizeBytes > maxObjectBytes ||
    value.retentionUntilMs ≤ value.receivedAtMs) "수신증명 필드/형식이 유효하지 않습니다"
  if P.verify pinnedPubkey (P.receipt value) receipt.signatureHex then .ok () else .error .external

/-- `verify_body`. -/
def verifyBody (bytes : Bytes) (receipt : SignedReceipt) : Result Unit :=
  refuse (receipt.receipt.sizeBytes != bytes.length || receipt.receipt.sha256 != P.sha256 bytes)
    "수신증명의 크기/해시와 본문이 다릅니다"

variable {P}

theorem verifyReceipt_ok_iff {r : SignedReceipt} {key : String} :
    verifyReceipt P r key = .ok () ↔
      r.receipt.format = receiptFormat ∧ validId r.receipt.keyId ∧ validId r.receipt.agentId ∧
        validKind r.receipt.kind ∧ validHash r.receipt.sha256 ∧
        r.receipt.sizeBytes ≤ maxObjectBytes ∧
        r.receipt.receivedAtMs < r.receipt.retentionUntilMs ∧
        P.verify key (P.receipt r.receipt) r.signatureHex := by
  simp [verifyReceipt, Result.check_ok_iff, and_assoc]

theorem verifyBody_ok_iff {bytes : Bytes} {r : SignedReceipt} :
    verifyBody P bytes r = .ok () ↔
      r.receipt.sizeBytes = bytes.length ∧ r.receipt.sha256 = P.sha256 bytes := by
  simp [verifyBody]

end Receipts

/-! ## Signed values -/

section SignedValues

variable (P : Primitives) {α : Type}

/-- `sign_value`, at a type whose encoding is `encode`. -/
def signValue (encode : α → Bytes) (value : α) (key : SigningKey) : Signed α :=
  ⟨value, key.sign (encode value)⟩

/-- `verify_value`, at a type whose encoding is `encode`. -/
def verifyValue (encode : α → Bytes) (value : Signed α) (key : String) : Result Unit :=
  if P.verify key (encode value.value) value.signatureHex then .ok () else .error .external

variable {P}

@[simp]
theorem verifyValue_ok_iff {encode : α → Bytes} {v : Signed α} {key : String} {u : Unit} :
    verifyValue P encode v key = .ok u ↔ P.verify key (encode v.value) v.signatureHex := by
  simp only [verifyValue]
  split <;> simp_all

end SignedValues

/-! ## Manifests and review requests -/

/-- The chunk loop of `validate`: the sum of the sizes, when every chunk is well formed and every
chunk but the last is full. -/
def checkChunks : List Chunk → Nat → Result Nat
  | [], total => .ok total
  | chunk :: rest, total => do
    refuse (!validHash chunk.sha256 || chunk.sizeBytes == 0 || chunk.sizeBytes > chunkBytes ||
      (!rest.isEmpty && chunk.sizeBytes != chunkBytes)) "번들 청크 크기/해시 오류"
    match checkedAdd total chunk.sizeBytes with
    | none => .error (.message "번들 크기 초과")
    | some total => checkChunks rest total

/-- `validate`. -/
def validate (P : Primitives) (manifest : BundleManifest) : Result Unit := do
  let bytes := P.manifest.encode manifest
  refuse (manifest.format != "argos-recovery-bundle-v1" || !validBundleId manifest.bundleId ||
    !validHash manifest.sha256 || manifest.sizeBytes == 0 || manifest.sizeBytes > maxBundleBytes ||
    manifest.metadata.originalPath.toList.isEmpty ||
    manifest.metadata.originalPath.utf8ByteSize > 4096 ||
    manifest.metadata.originalPath.toList.head? != some '/' ||
    manifest.metadata.recoveryPlan.any (fun plan => plan.utf8ByteSize > 65536) ||
    manifest.chunks.isEmpty || manifest.chunks.length > 64 || bytes.length > maxManifestBytes)
    "복구 번들 형식/크기/원본 경로 오류"
  let total ← checkChunks manifest.chunks 0
  refuse (total != manifest.sizeBytes) "번들 전체 크기 불일치"

/-- What the server relies on of an accepted manifest: its identifier and its size. -/
theorem validate_ok {P : Primitives} {m : BundleManifest} (h : validate P m = .ok ()) :
    validBundleId m.bundleId ∧ validHash m.sha256 ∧ m.sizeBytes ≠ 0 ∧
      m.sizeBytes ≤ maxBundleBytes ∧ (P.manifest.encode m).length ≤ maxManifestBytes := by
  simp only [validate, Result.check_ok_iff, refuse_ok_iff] at h
  obtain ⟨h, -⟩ := h
  simp only [Bool.or_eq_false_iff, Bool.not_eq_false', beq_eq_false_iff_ne,
    decide_eq_false_iff_not, not_lt, gt_iff_lt] at h
  obtain ⟨⟨⟨⟨⟨⟨⟨⟨⟨⟨⟨-, hid⟩, hhash⟩, hzero⟩, hmax⟩, -⟩, -⟩, -⟩, -⟩, -⟩, -⟩, hlen⟩ := h
  exact ⟨hid, hhash, hzero, hmax, hlen⟩

/-- `validate_review`. -/
def validateReview (request : ReviewRequest) : Result Unit :=
  refuse (!validId request.requestId || blank request.actor || request.actor.utf8ByteSize > 256 ||
    blank request.reason || request.reason.utf8ByteSize > 4096) "검토 요청 ID/담당자/근거 오류"

/-! ## Records -/

/-- The text of a verdict, as records carry it. -/
def ReviewDecision.text : ReviewDecision → String
  | .good => "good"
  | .revoked => "revoked"

/-- `current_review` of a history: the decision of its last review, or `unknown`. -/
def currentReview (reviews : List (Signed ReviewEvent)) : String :=
  match reviews.getLast? with
  | none => "unknown"
  | some event => event.value.request.decision.text

section Records

variable (P : Primitives)

/-- The completion of a record names its manifest. -/
def completionMatches (c : Completion) (record : BundleRecord) (keyId manifestHash : String) :
    Bool :=
  c.format == "argos-bundle-completion-v1" && c.keyId == keyId && c.agentId == record.agentId &&
    c.bundleId == record.manifest.bundleId && c.manifestSha256 == manifestHash &&
    c.sha256 == record.manifest.sha256 && c.sizeBytes == record.manifest.sizeBytes

/-- A review names its record, its completion, its place and its predecessor. -/
def reviewMatches (e : ReviewEvent) (agentId bundleId keyId manifestHash completionHash : String)
    (i : Nat) (previous : Option String) : Bool :=
  e.format == "argos-bundle-review-v1" && e.keyId == keyId && e.agentId == agentId &&
    e.bundleId == bundleId && e.manifestSha256 == manifestHash &&
    e.completionSha256 == completionHash && e.sequence == i + 1 && e.previousSha256 == previous

/-- One turn of the review loop of `verify_record`. -/
def verifyReview (key : String) (agentId bundleId keyId manifestHash completionHash : String)
    (event : Signed ReviewEvent) (i : Nat) (previous : Option String) : Result Unit := do
  verifyValue P P.review event key
  validateReview event.value.request
  refuse (!reviewMatches event.value agentId bundleId keyId manifestHash completionHash i previous)
    "번들 검토 이력 결합/순서 오류"

/-- The review loop of `verify_record`, from the `i`-th review on, with the hash of the one before
it and the verdict so far. -/
def verifyReviews (key agentId bundleId keyId manifestHash completionHash : String) :
    List (Signed ReviewEvent) → Nat → Option String → String → Result String
  | [], _, _, state => .ok state
  | event :: rest, i, previous, _ => do
    verifyReview P key agentId bundleId keyId manifestHash completionHash event i previous
    verifyReviews key agentId bundleId keyId manifestHash completionHash rest (i + 1)
      (some (P.sha256 (P.signedReview.encode event))) event.value.request.decision.text

/-- The middle of `verify_record`: the verdict of a record's completion and reviews. -/
def verifyHistory (record : BundleRecord) (key keyId manifestHash : String) : Result String :=
  match record.completion with
  | some completion => do
    verifyValue P P.completion completion key
    refuse (!completionMatches completion.value record keyId manifestHash) "번들 완료 증명 불일치"
    verifyReviews P key record.agentId record.manifest.bundleId keyId manifestHash
      (P.sha256 (P.signedCompletion.encode completion)) record.reviews 0 none "unknown"
  | none => do
    refuse (!record.reviews.isEmpty) "미완료 번들의 정상 판정은 허용하지 않습니다"
    .ok "unknown"

/-- `verify_record`. -/
def verifyRecord (record : BundleRecord) (key keyId : String) : Result Unit := do
  validate P record.manifest
  refuse (!validId record.agentId || record.reviews.length > maxReviews) "번들 범위/검토 상한 오류"
  let manifestBytes := P.manifest.encode record.manifest
  let manifestHash := P.sha256 manifestBytes
  verifyReceipt P record.manifestReceipt key
  let r := record.manifestReceipt.receipt
  refuse (r.agentId != record.agentId || r.sha256 != manifestHash || r.keyId != keyId ||
    r.kind != "bundle-manifest" || r.sizeBytes != manifestBytes.length)
    "번들 manifest 수신증명 불일치"
  let state ← verifyHistory P record key keyId manifestHash
  refuse (record.currentReview != state ||
    record.recommended != (state == "good" && record.completion.isSome))
    "번들 추천/정상 판정 상태 불일치"

/-- `control_identity`: the bundle that a control object belongs to, and whether it is a
revocation. -/
def controlIdentity (kind : String) (bytes : Bytes) (agent keyId key : String) :
    Result (String × Bool) :=
  if kind = "bundle-manifest" then do
    match P.manifest.decode bytes with
    | none => .error .external
    | some manifest =>
      validate P manifest
      .ok (manifest.bundleId, false)
  else if kind = "bundle-completion" then do
    match P.signedCompletion.decode bytes with
    | none => .error .external
    | some signed =>
      verifyValue P P.completion signed key
      let c := signed.value
      refuse (c.format != "argos-bundle-completion-v1" || c.agentId != agent || c.keyId != keyId ||
        !validBundleId c.bundleId || !validHash c.manifestSha256 || !validHash c.sha256 ||
        c.sizeBytes == 0 || c.sizeBytes > maxBundleBytes) "완료 제어 객체 신원 오류"
      .ok (c.bundleId, false)
  else if kind = "bundle-review" then do
    match P.signedReview.decode bytes with
    | none => .error .external
    | some signed =>
      verifyValue P P.review signed key
      let r := signed.value
      validateReview r.request
      refuse (r.format != "argos-bundle-review-v1" || r.agentId != agent || r.keyId != keyId ||
        !validBundleId r.bundleId || !validHash r.manifestSha256 ||
        !validHash r.completionSha256 || r.sequence == 0 || r.sequence > maxReviews ||
        r.previousSha256.any (fun h => !validHash h)) "검토 제어 객체 신원 오류"
      .ok (r.bundleId, r.request.decision == .revoked)
  else .error (.message "알 수 없는 번들 제어 객체")

/-! ## When a record is accepted -/

/-- The receipt of a record's manifest names that manifest. -/
def manifestMatches (r : Receipt) (record : BundleRecord) (keyId : String) : Prop :=
  r.agentId = record.agentId ∧ r.sha256 = P.sha256 (P.manifest.encode record.manifest) ∧
    r.keyId = keyId ∧ r.kind = "bundle-manifest" ∧
    r.sizeBytes = (P.manifest.encode record.manifest).length

/-- The hash that the next review of a history names as its predecessor. -/
def previousHash (reviews : List (Signed ReviewEvent)) : Option String :=
  reviews.getLast?.map (fun event => P.sha256 (P.signedReview.encode event))

/-- What one review of a complete record must satisfy at position `i`, after a review of hash
`previous`. -/
def ReviewFits (key keyId : String) (record : BundleRecord) (completion : Signed Completion)
    (event : Signed ReviewEvent) (i : Nat) (previous : Option String) : Prop :=
  verifyReview P key record.agentId record.manifest.bundleId keyId
    (P.sha256 (P.manifest.encode record.manifest))
    (P.sha256 (P.signedCompletion.encode completion)) event i previous = .ok ()

variable {P}

theorem verifyReview_ok_iff {key agentId bundleId keyId mh ch : String} {e : Signed ReviewEvent}
    {i : Nat} {previous : Option String} :
    verifyReview P key agentId bundleId keyId mh ch e i previous = .ok () ↔
      P.verify key (P.review e.value) e.signatureHex ∧ validateReview e.value.request = .ok () ∧
        reviewMatches e.value agentId bundleId keyId mh ch i previous := by
  simp [verifyReview, Result.check_ok_iff]

/-- The verdict that the review loop returns is that of the last review. -/
theorem verifyReviews_state {key agentId bundleId keyId mh ch : String} :
    ∀ {l : List (Signed ReviewEvent)} {i : Nat} {previous : Option String} {state state' : String},
      verifyReviews P key agentId bundleId keyId mh ch l i previous state = .ok state' →
        state' = (l.getLast?.map (fun e => e.value.request.decision.text)).getD state
  | [], _, _, _, _, h => by
    simp only [verifyReviews, Except.ok.injEq] at h
    simp [h]
  | e :: rest, i, previous, state, state', h => by
    simp only [verifyReviews, Result.check_ok_iff] at h
    obtain ⟨-, h⟩ := h
    have ih := verifyReviews_state h
    cases rest with
    | nil => simpa using ih
    | cons e' rest =>
      rw [ih, List.getLast?_cons_cons]
      simp [List.getLast?_cons]

/-- One more review at the end of a history: the history is accepted, and the review fits at its
end. -/
theorem verifyReviews_append_singleton {key agentId bundleId keyId mh ch : String}
    {e : Signed ReviewEvent} :
    ∀ {l : List (Signed ReviewEvent)} {i : Nat} {previous : Option String} {state state' : String},
      verifyReviews P key agentId bundleId keyId mh ch (l ++ [e]) i previous state = .ok state' ↔
        (∃ state₁, verifyReviews P key agentId bundleId keyId mh ch l i previous state
            = .ok state₁) ∧
          verifyReview P key agentId bundleId keyId mh ch e (i + l.length)
            ((previousHash P l).or previous) = .ok () ∧
          state' = e.value.request.decision.text
  | [], i, previous, state, state' => by
    simp only [List.nil_append, verifyReviews, Result.check_ok_iff, Except.ok.injEq, previousHash,
      List.getLast?_nil, Option.map_none, Option.none_or, List.length_nil, Nat.add_zero,
      exists_eq', true_and]
    rw [eq_comm (a := state')]
  | d :: rest, i, previous, state, state' => by
    have hprev : (previousHash P rest).or (some (P.sha256 (P.signedReview.encode d))) =
        (previousHash P (d :: rest)).or previous := by
      cases rest with
      | nil => simp [previousHash]
      | cons d' rest => simp [previousHash, List.getLast?_cons]
    simp only [List.cons_append, verifyReviews, Result.check_ok_iff]
    rw [verifyReviews_append_singleton, hprev, List.length_cons]
    have hi : i + 1 + rest.length = i + (rest.length + 1) := by omega
    rw [hi]
    tauto

/-- A record is accepted when its manifest, its receipt, its completion and its chain of reviews
are, and its verdict is the one that follows from them. -/
theorem verifyRecord_ok_iff {record : BundleRecord} {key keyId : String} :
    verifyRecord P record key keyId = .ok () ↔
      validate P record.manifest = .ok () ∧ validId record.agentId ∧
        record.reviews.length ≤ maxReviews ∧
        verifyReceipt P record.manifestReceipt key = .ok () ∧
        manifestMatches P record.manifestReceipt.receipt record keyId ∧
        (match record.completion with
          | some completion =>
            P.verify key (P.completion completion.value) completion.signatureHex ∧
              completionMatches completion.value record keyId
                (P.sha256 (P.manifest.encode record.manifest)) ∧
              ∃ state, verifyReviews P key record.agentId record.manifest.bundleId keyId
                (P.sha256 (P.manifest.encode record.manifest))
                (P.sha256 (P.signedCompletion.encode completion)) record.reviews 0 none "unknown"
                  = .ok state
          | none => record.reviews = []) ∧
        record.currentReview = currentReview record.reviews ∧
        record.recommended =
          (currentReview record.reviews == "good" && record.completion.isSome) := by
  have hstate : ∀ {mh ch state},
      verifyReviews P key record.agentId record.manifest.bundleId keyId mh ch record.reviews 0 none
        "unknown" = .ok state → state = currentReview record.reviews := by
    intro mh ch state h
    rw [verifyReviews_state h, currentReview]
    cases record.reviews.getLast? <;> rfl
  simp only [verifyRecord, Result.check_ok_iff, refuse_ok_iff, manifestMatches]
  rw [Result.bind_ok_iff]
  cases hc : record.completion with
  | none =>
    simp only [verifyHistory, hc, Result.check_ok_iff, refuse_ok_iff]
    constructor
    · rintro ⟨h1, h2, h3, h4, state, ⟨h5, h6⟩, h7⟩
      simp only [Except.ok.injEq] at h6
      subst h6
      simp_all [currentReview]
    · rintro ⟨h1, h2, h3, h4, h5, h6, h7, h8⟩
      simp_all [currentReview]
  | some c =>
    simp only [verifyHistory, hc, Result.check_ok_iff, refuse_ok_iff, verifyValue_ok_iff]
    constructor
    · rintro ⟨h1, h2, h3, h4, state, ⟨h5, h6, h7⟩, h8⟩
      have := hstate h7
      subst this
      simp_all
    · rintro ⟨h1, h2, h3, h4, h5, ⟨h6, h7, state, h8⟩, h9, h10⟩
      have := hstate h8
      subst this
      simp_all

end Records

end Argos.Vault
