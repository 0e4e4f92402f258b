import Argos.Vault.Laws
import Argos.Lib.Wire

/-!
# Primitives that keep the laws

`Primitives.Lawful` asks for a good deal at once: records of bounded size that are read back, hashes
and signatures of a fixed shape. `sample` is a set of primitives, with a key, that keeps all of it,
so the results that rest on the laws are about something. Records are written in the format of
`Wire`, hashes are a polynomial modulo `2^32` in hexadecimal with zeros behind, and a signature is the
same number with more zeros.
-/

namespace Argos.Vault

open Argos.Lib

/-! ## Formats -/

namespace Wires

open Wire

def receipt : Wire Receipt :=
  (text.pair (text.pair (text.pair (text.pair (text.pair (nat.pair (nat.pair nat))))))).map
    (fun r => (r.format, r.keyId, r.agentId, r.kind, r.sha256, r.sizeBytes, r.receivedAtMs,
      r.retentionUntilMs))
    (fun ⟨format, keyId, agentId, kind, sha256, size, received, until_⟩ =>
      ⟨format, keyId, agentId, kind, sha256, size, received, until_⟩) (fun _ => rfl)

def signedReceipt : Wire SignedReceipt :=
  (receipt.pair text).map (fun r => (r.receipt, r.signatureHex)) (fun ⟨r, s⟩ => ⟨r, s⟩) (fun _ => rfl)

def signed {α : Type} (w : Wire α) : Wire (Signed α) :=
  (w.pair text).map (fun r => (r.value, r.signatureHex)) (fun ⟨r, s⟩ => ⟨r, s⟩) (fun _ => rfl)

def metadata : Wire BundleMetadata :=
  (text.pair (int.option.pair (text.pair text.option))).map
    (fun m => (m.originalPath, m.version, m.reviewHistory, m.recoveryPlan))
    (fun ⟨path, version, history, plan⟩ => ⟨path, version, history, plan⟩) (fun _ => rfl)

def chunk : Wire Chunk :=
  (text.pair nat).map (fun c => (c.sha256, c.sizeBytes)) (fun ⟨h, n⟩ => ⟨h, n⟩) (fun _ => rfl)

def manifest : Wire BundleManifest :=
  (text.pair (text.pair (nat.pair (metadata.pair (text.pair (nat.pair chunk.list)))))).map
    (fun m => (m.format, m.bundleId, m.createdAtMs, m.metadata, m.sha256, m.sizeBytes, m.chunks))
    (fun ⟨format, id, created, metadata, sha256, size, chunks⟩ =>
      ⟨format, id, created, metadata, sha256, size, chunks⟩) (fun _ => rfl)

def decision : Wire ReviewDecision :=
  nat.map (fun | .good => 0 | .revoked => 1) (fun n => if n = 0 then .good else .revoked)
    (fun d => by cases d <;> rfl)

def request : Wire ReviewRequest :=
  (text.pair (decision.pair (text.pair text))).map
    (fun r => (r.requestId, r.decision, r.actor, r.reason))
    (fun ⟨id, decision, actor, reason⟩ => ⟨id, decision, actor, reason⟩) (fun _ => rfl)

def completion : Wire Completion :=
  (text.pair (text.pair (text.pair (text.pair (text.pair (text.pair (nat.pair nat))))))).map
    (fun c => (c.format, c.keyId, c.agentId, c.bundleId, c.manifestSha256, c.sha256, c.sizeBytes,
      c.completedAtMs))
    (fun ⟨format, keyId, agentId, bundleId, manifest, sha256, size, completed⟩ =>
      ⟨format, keyId, agentId, bundleId, manifest, sha256, size, completed⟩) (fun _ => rfl)

def review : Wire ReviewEvent :=
  (text.pair (text.pair (text.pair (text.pair (text.pair (text.pair (nat.pair (text.option.pair
    (nat.pair request))))))))).map
    (fun e => (e.format, e.keyId, e.agentId, e.bundleId, e.manifestSha256, e.completionSha256,
      e.sequence, e.previousSha256, e.reviewedAtMs, e.request))
    (fun ⟨format, keyId, agentId, bundleId, manifest, completion, sequence, previous, reviewed,
        request⟩ =>
      ⟨format, keyId, agentId, bundleId, manifest, completion, sequence, previous, reviewed,
        request⟩) (fun _ => rfl)

def revocation : Wire RevocationIntent :=
  (text.pair (text.pair (text.pair (text.pair (text.pair request))))).map
    (fun i => (i.format, i.keyId, i.agentId, i.bundleId, i.manifestSha256, i.request))
    (fun ⟨format, keyId, agentId, bundleId, manifest, request⟩ =>
      ⟨format, keyId, agentId, bundleId, manifest, request⟩) (fun _ => rfl)

def record (r : BundleRecord) : List UInt8 :=
  text.write r.agentId ++ manifest.write r.manifest ++ signedReceipt.write r.manifestReceipt ++
    (signed completion).option.write r.completion ++ (signed review).list.write r.reviews ++
    text.write r.currentReview

end Wires

/-- `serde_json` in the format of a `Wire`. -/
def Codec.ofWire {α : Type} (w : Wire α) : Codec α := ⟨w.write, w.decode⟩

theorem Codec.ofWire_roundTrips {α : Type} (w : Wire α) : (Codec.ofWire w).RoundTrips :=
  w.decode_write

/-! ## Hashes and signatures -/

/-- A hexadecimal digit. -/
def hexDigit (n : Nat) : Char := if n < 10 then Char.ofNat (48 + n) else Char.ofNat (87 + n)

/-- The last eight hexadecimal digits of a number, least first, and zeros. -/
def hexText (zeros n : Nat) : String :=
  String.ofList ((List.range 8).map (fun i => hexDigit (n / 16 ^ i % 16)) ++
    List.replicate zeros '0')

/-- A polynomial in the bytes of a text, modulo `2^32`. -/
def fingerprint (bytes : Bytes) : Nat :=
  bytes.foldl (fun h b => (h * 257 + b.toNat + 1) % 2 ^ 32) 0

theorem bytesOf_ofList (l : List Char) : bytesOf (String.ofList l) = l.flatMap String.utf8EncodeChar := by
  rw [bytesOf, String.toByteArray_ofList, List.utf8Encode, List.data_toByteArray]

theorem hexDigit_encoded {n : Nat} (h : n < 16) :
    ∃ b, String.utf8EncodeChar (hexDigit n) = [b] ∧ isHexDigit b := by
  have hall : ∀ n : Fin 16, (String.utf8EncodeChar (hexDigit n)).length = 1 ∧
    (String.utf8EncodeChar (hexDigit n)).all isHexDigit := by decide
  obtain ⟨hlen, hhex⟩ := hall ⟨n, h⟩
  obtain ⟨b, hb⟩ := List.length_eq_one_iff.1 hlen
  rw [hb] at hhex
  exact ⟨b, hb, by simpa using hhex⟩

/-- A text of hexadecimal digits has one byte for each. -/
theorem bytesOf_digits {l : List Char} (h : ∀ c ∈ l, ∃ n < 16, c = hexDigit n) :
    (bytesOf (String.ofList l)).length = l.length ∧ (bytesOf (String.ofList l)).all isHexDigit := by
  rw [bytesOf_ofList]
  induction l with
  | nil => exact ⟨rfl, rfl⟩
  | cons c l ih =>
    obtain ⟨n, hn, rfl⟩ := h c List.mem_cons_self
    obtain ⟨b, hb, hhex⟩ := hexDigit_encoded hn
    obtain ⟨hlen, hall⟩ := ih fun c hc => h c (List.mem_cons_of_mem _ hc)
    rw [List.flatMap_cons, hb, List.length_append, hlen, List.all_append, hall, List.length_cons]
    exact ⟨Nat.add_comm _ _, by simpa using hhex⟩

theorem bytesOf_hexText (zeros n : Nat) : (bytesOf (hexText zeros n)).length = 8 + zeros ∧
    (bytesOf (hexText zeros n)).all isHexDigit := by
  have h := bytesOf_digits (l := (List.range 8).map (fun i => hexDigit (n / 16 ^ i % 16)) ++
    List.replicate zeros '0') fun c hc => by
      rcases List.mem_append.1 hc with hc | hc
      · obtain ⟨i, -, rfl⟩ := List.mem_map.1 hc
        exact ⟨_, Nat.mod_lt _ (by decide), rfl⟩
      · exact ⟨0, by decide, List.eq_of_mem_replicate hc⟩
  rw [List.length_append, List.length_map, List.length_range, List.length_replicate] at h
  exact h

theorem utf8ByteSize_hexText (zeros n : Nat) : (hexText zeros n).utf8ByteSize = 8 + zeros :=
  (bytesOf_hexText zeros n).1

theorem validHash_hexText (n : Nat) : validHash (hexText 56 n) := by
  rw [validHash, utf8ByteSize_hexText, (bytesOf_hexText 56 n).2]
  rfl

/-- The primitives. -/
def sample : Primitives where
  sha256 bytes := hexText 56 (fingerprint bytes)
  verify key message signature := key == "sample" && signature == hexText 120 (fingerprint message)
  publicKey key := some key
  receipt := Wires.receipt.write
  completion := Wires.completion.write
  review := Wires.review.write
  revocation := Wires.revocation.write
  record := Wires.record
  signedReceipt := .ofWire Wires.signedReceipt
  manifest := .ofWire Wires.manifest
  signedCompletion := .ofWire (Wires.signed Wires.completion)
  signedReview := .ofWire (Wires.signed Wires.review)
  signedRevocation := .ofWire (Wires.signed Wires.revocation)

/-- The key. -/
def sampleKey : SigningKey := ⟨"sample", fun message => hexText 120 (fingerprint message)⟩

/-! ## The laws -/

section Sizes

open Wire

theorem validId_size {s : String} (h : validId s) : s.utf8ByteSize ≤ 128 := by
  simp only [validId, Bool.and_eq_true, decide_eq_true_eq] at h
  exact h.1.2

theorem validHash_size {s : String} (h : validHash s) : s.utf8ByteSize ≤ 64 := by
  simp only [validHash, Bool.and_eq_true, beq_iff_eq] at h
  exact h.1.le

theorem validBundleId_size {s : String} (h : validBundleId s) : s.utf8ByteSize ≤ 32 := by
  simp only [validBundleId, Bool.and_eq_true, beq_iff_eq] at h
  exact h.1.le

theorem validKind_size {s : String} (h : validKind s) : s.utf8ByteSize ≤ 17 := by
  simp only [validKind, List.mem_cons, List.not_mem_nil, or_false, decide_eq_true_eq] at h
  rcases h with rfl | rfl | rfl | rfl | rfl | rfl <;> decide

theorem length_u64 {n : Nat} (h : n ≤ u64Max) : (nat.write n).length ≤ 65 :=
  length_nat_le (k := 63) (by unfold u64Max at h; omega)

theorem length_request {r : ReviewRequest} (h : validateReview r = .ok ()) :
    (Wires.request.write r).length ≤ 104000 := by
  simp only [validateReview, refuse_ok_iff, Bool.or_eq_false_iff, Bool.not_eq_false',
    decide_eq_false_iff_not, not_lt, gt_iff_lt] at h
  obtain ⟨⟨⟨⟨hid, -⟩, hactor⟩, -⟩, hreason⟩ := h
  have h1 := length_text (validId_size hid)
  have h2 := length_text hactor
  have h3 := length_text hreason
  have h4 : (Wires.decision.write r.decision).length ≤ 2 := by
    cases r.decision
    · exact length_nat_le (n := 0) (k := 0) (by decide)
    · exact length_nat_le (n := 1) (k := 0) (by decide)
  show ((text.pair (Wires.decision.pair (text.pair text))).write _).length ≤ _
  simp only [length_pair]
  omega

theorem length_receipt {r : Receipt} (h : r.Small) : (Wires.receipt.write r).length ≤ 9100 := by
  have h1 : r.format.utf8ByteSize ≤ 22 := by rw [h.format]; decide
  have h1 := length_text h1
  have h2 := length_text (validId_size h.keyId)
  have h3 := length_text (validId_size h.agentId)
  have h4 := length_text (validKind_size h.kind)
  have h5 := length_text (validHash_size h.sha256)
  have h6 := length_u64 h.sizeBytes
  have h7 := length_u64 h.receivedAtMs
  have h8 := length_u64 h.retentionUntilMs
  show ((text.pair (text.pair (text.pair (text.pair (text.pair (nat.pair
    (nat.pair nat))))))).write _).length ≤ _
  simp only [length_pair]
  omega

theorem length_completion {c : Completion} (h : c.Small) :
    (Wires.completion.write c).length ≤ 12000 := by
  have h1 : c.format.utf8ByteSize ≤ 26 := by rw [h.format]; decide
  have h1 := length_text h1
  have h2 := length_text (validId_size h.keyId)
  have h3 := length_text (validId_size h.agentId)
  have h4 := length_text (validBundleId_size h.bundleId)
  have h5 := length_text (validHash_size h.manifestSha256)
  have h6 := length_text (validHash_size h.sha256)
  have h7 := length_u64 h.sizeBytes
  have h8 := length_u64 h.completedAtMs
  show ((text.pair (text.pair (text.pair (text.pair (text.pair (text.pair (nat.pair
    nat))))))).write _).length ≤ _
  simp only [length_pair]
  omega

theorem length_review {e : ReviewEvent} (h : e.Small) :
    (Wires.review.write e).length ≤ 120000 := by
  have h1 : e.format.utf8ByteSize ≤ 22 := by rw [h.format]; decide
  have h1 := length_text h1
  have h2 := length_text (validId_size h.keyId)
  have h3 := length_text (validId_size h.agentId)
  have h4 := length_text (validBundleId_size h.bundleId)
  have h5 := length_text (validHash_size h.manifestSha256)
  have h6 := length_text (validHash_size h.completionSha256)
  have h7 := length_u64 h.sequence
  have h8 := length_option (w := text) (o := e.previousSha256)
    fun a ha => length_text (validHash_size (h.previousSha256 a ha))
  have h9 := length_u64 h.reviewedAtMs
  have h10 := length_request h.request
  show ((text.pair (text.pair (text.pair (text.pair (text.pair (text.pair (nat.pair
    (text.option.pair (nat.pair Wires.request))))))))).write _).length ≤ _
  simp only [length_pair]
  omega

theorem length_revocation {i : RevocationIntent} (h : i.Small) :
    (Wires.revocation.write i).length ≤ 115000 := by
  have h1 : i.format.utf8ByteSize ≤ 33 := by rw [h.format]; decide
  have h1 := length_text h1
  have h2 := length_text (validId_size h.keyId)
  have h3 := length_text (validId_size h.agentId)
  have h4 := length_text (validBundleId_size h.bundleId)
  have h5 := length_text (validHash_size h.manifestSha256)
  have h6 := length_request h.request
  show ((text.pair (text.pair (text.pair (text.pair (text.pair Wires.request))))).write _).length ≤ _
  simp only [length_pair]
  omega

theorem length_signed {α : Type} {w : Wire α} {v : Signed α} {k : Nat}
    (h : (w.write v.value).length ≤ k) (hsig : v.signatureHex.utf8ByteSize = 128) :
    ((Wires.signed w).write v).length ≤ k + 2948 := by
  have h2 : (text.write v.signatureHex).length ≤ 2948 := length_text hsig.le
  have h3 : ((Wires.signed w).write v).length =
      (w.write v.value).length + (text.write v.signatureHex).length := length_pair _ _ _
  omega

end Sizes

/-- The sample keeps the laws. -/
theorem sample_lawful : sample.Lawful sampleKey where
  sha256 bytes := validHash_hexText _
  verify message := by simp [sample, sampleKey]
  signature message := utf8ByteSize_hexText _ _
  signedReceipt := Codec.ofWire_roundTrips _
  signedCompletion := Codec.ofWire_roundTrips _
  signedReview := Codec.ofWire_roundTrips _
  signedRevocation := Codec.ofWire_roundTrips _
  receiptSize r hr hsig := by
    have h1 := length_receipt hr
    have h2 : (Wire.text.write r.signatureHex).length ≤ 2948 := Wire.length_text hsig.le
    have h3 : (Wires.signedReceipt.write r).length =
        (Wires.receipt.write r.receipt).length + (Wire.text.write r.signatureHex).length :=
      Wire.length_pair _ _ _
    show (Wires.signedReceipt.write r).length ≤ 16 * 1024
    omega
  completionSize _ hc hsig := (length_signed (length_completion hc) hsig).trans (by decide)
  reviewSize _ he hsig := (length_signed (length_review he) hsig).trans (by decide)
  revocationSize _ hi hsig := (length_signed (length_revocation hi) hsig).trans (by decide)

end Argos.Vault
