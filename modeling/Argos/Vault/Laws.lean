import Argos.Vault.Checks

/-!
# What the vault relies on

The laws of the other crates that the vault's progress rests on, for one signing key. A value that
was encoded is read back; a signature made with the key is accepted under it and has 64 bytes; a
SHA-256 has 64 hexadecimal digits; and the text of a small signed record is far below the limits with
which the server reads it. The safety results use none of them but the first.
-/

namespace Argos.Vault

/-- A receipt with the fields that the server writes. -/
structure Receipt.Small (r : Receipt) : Prop where
  format : r.format = receiptFormat
  keyId : validId r.keyId
  agentId : validId r.agentId
  kind : validKind r.kind
  sha256 : validHash r.sha256
  sizeBytes : r.sizeBytes ≤ u64Max
  receivedAtMs : r.receivedAtMs ≤ u64Max
  retentionUntilMs : r.retentionUntilMs ≤ u64Max

/-- A completion with the fields that the server writes. -/
structure Completion.Small (c : Completion) : Prop where
  format : c.format = "argos-bundle-completion-v1"
  keyId : validId c.keyId
  agentId : validId c.agentId
  bundleId : validBundleId c.bundleId
  manifestSha256 : validHash c.manifestSha256
  sha256 : validHash c.sha256
  sizeBytes : c.sizeBytes ≤ u64Max
  completedAtMs : c.completedAtMs ≤ u64Max

/-- A review with the fields that the server writes. -/
structure ReviewEvent.Small (e : ReviewEvent) : Prop where
  format : e.format = "argos-bundle-review-v1"
  keyId : validId e.keyId
  agentId : validId e.agentId
  bundleId : validBundleId e.bundleId
  manifestSha256 : validHash e.manifestSha256
  completionSha256 : validHash e.completionSha256
  sequence : e.sequence ≤ u64Max
  previousSha256 : ∀ h ∈ e.previousSha256, validHash h
  reviewedAtMs : e.reviewedAtMs ≤ u64Max
  request : validateReview e.request = .ok ()

/-- A revocation intent with the fields that the server writes. -/
structure RevocationIntent.Small (i : RevocationIntent) : Prop where
  format : i.format = "argos-bundle-revocation-intent-v1"
  keyId : validId i.keyId
  agentId : validId i.agentId
  bundleId : validBundleId i.bundleId
  manifestSha256 : validHash i.manifestSha256
  request : validateReview i.request = .ok ()

/-- The laws of the primitives, for the signing key `key`. -/
structure Primitives.Lawful (P : Primitives) (key : SigningKey) : Prop where
  sha256 : ∀ bytes, validHash (P.sha256 bytes)
  verify : ∀ message, P.verify key.publicHex message (key.sign message)
  signature : ∀ message, (key.sign message).utf8ByteSize = 128
  signedReceipt : P.signedReceipt.RoundTrips
  signedCompletion : P.signedCompletion.RoundTrips
  signedReview : P.signedReview.RoundTrips
  signedRevocation : P.signedRevocation.RoundTrips
  receiptSize : ∀ r : SignedReceipt, r.receipt.Small → r.signatureHex.utf8ByteSize = 128 →
    (P.signedReceipt.encode r).length ≤ maxReceiptBytes
  completionSize : ∀ c : Signed Completion, c.value.Small → c.signatureHex.utf8ByteSize = 128 →
    (P.signedCompletion.encode c).length ≤ maxManifestBytes
  reviewSize : ∀ e : Signed ReviewEvent, e.value.Small → e.signatureHex.utf8ByteSize = 128 →
    (P.signedReview.encode e).length ≤ maxManifestBytes
  revocationSize : ∀ i : Signed RevocationIntent, i.value.Small →
    i.signatureHex.utf8ByteSize = 128 → (P.signedRevocation.encode i).length ≤ maxManifestBytes

end Argos.Vault
