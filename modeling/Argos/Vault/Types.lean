import Mathlib.Algebra.Order.Ring.Nat
import Mathlib.Data.List.AList

/-!
# Receipts, bundles and reviews

The records of `argos-vault` (`lib.rs`, `bundle.rs`, `bundle/server.rs`), field by field, and what
the crate takes from elsewhere: SHA-256, Ed25519 and `serde_json`, collected in `Primitives`. Their
laws are in `Primitives.Lawful`: a signature made with a key is accepted under that key, a value that
was encoded is read back, and the encodings of the small signed records stay below the limits with
which the server reads them. SHA-256 is any function to 64 hexadecimal digits. Nothing here says that
it has no collisions; where an argument needs that none was met, it says so.

`review_history` is a `serde_json::Value` that the vault only stores and compares; it is kept as its
text.
-/

namespace Argos.Vault

/-- A byte string. -/
abbrev Bytes := List UInt8

/-- The largest value of a `u64`. -/
def u64Max : Nat := 2^64 - 1

/-- `u64::checked_add`. -/
def checkedAdd (a b : Nat) : Option Nat := if a + b ≤ u64Max then some (a + b) else none

/-- `u64::saturating_add`. -/
def saturatingAdd (a b : Nat) : Nat := min (a + b) u64Max

/-- `+=` on a `u64` in a release build. -/
def wrappingAdd (a b : Nat) : Nat := (a + b) % 2^64

/-- `MAX_OBJECT_BYTES`. -/
def maxObjectBytes : Nat := 64 * 1024 * 1024

/-- `MAX_RECEIPT_BYTES`. -/
def maxReceiptBytes : Nat := 16 * 1024

/-- `CHUNK_BYTES`. -/
def chunkBytes : Nat := 16 * 1024 * 1024

/-- `MAX_BUNDLE_BYTES`. -/
def maxBundleBytes : Nat := 1024 * 1024 * 1024

/-- `MAX_MANIFEST_BYTES`. -/
def maxManifestBytes : Nat := 256 * 1024

/-- `MAX_REVIEWS`. -/
def maxReviews : Nat := 100

/-- Why a call returned no value. -/
inductive Error where
  /-- An error with a text of its own. -/
  | message (text : String)
  /-- A `CapacityRejection` with its reason. -/
  | capacity (reason : String)
  /-- An error passed on from the file system, SQLite or `serde_json`. -/
  | external
deriving DecidableEq, Repr

/-- A result of the crate. -/
abbrev Result (α : Type) := Except Error α

/-! ## Receipts -/

/-- `Receipt`. -/
structure Receipt where
  format : String
  keyId : String
  agentId : String
  kind : String
  sha256 : String
  sizeBytes : Nat
  receivedAtMs : Nat
  retentionUntilMs : Nat
deriving DecidableEq, Repr

/-- `SignedReceipt`. -/
structure SignedReceipt where
  receipt : Receipt
  signatureHex : String
deriving DecidableEq, Repr

/-! ## Bundles -/

/-- `BundleMetadata`. -/
structure BundleMetadata where
  originalPath : String
  version : Option Int
  reviewHistory : String
  recoveryPlan : Option String
deriving DecidableEq, Repr

/-- `Chunk`. -/
structure Chunk where
  sha256 : String
  sizeBytes : Nat
deriving DecidableEq, Repr

/-- `BundleManifest`. -/
structure BundleManifest where
  format : String
  bundleId : String
  createdAtMs : Nat
  metadata : BundleMetadata
  sha256 : String
  sizeBytes : Nat
  chunks : List Chunk
deriving DecidableEq, Repr

/-- `ReviewDecision`. -/
inductive ReviewDecision where
  | good
  | revoked
deriving DecidableEq, Repr

/-- `ReviewRequest`. -/
structure ReviewRequest where
  requestId : String
  decision : ReviewDecision
  actor : String
  reason : String
deriving DecidableEq, Repr

/-- `Completion`. -/
structure Completion where
  format : String
  keyId : String
  agentId : String
  bundleId : String
  manifestSha256 : String
  sha256 : String
  sizeBytes : Nat
  completedAtMs : Nat
deriving DecidableEq, Repr

/-- `ReviewEvent`. -/
structure ReviewEvent where
  format : String
  keyId : String
  agentId : String
  bundleId : String
  manifestSha256 : String
  completionSha256 : String
  sequence : Nat
  previousSha256 : Option String
  reviewedAtMs : Nat
  request : ReviewRequest
deriving DecidableEq, Repr

/-- `RevocationIntent`. -/
structure RevocationIntent where
  format : String
  keyId : String
  agentId : String
  bundleId : String
  manifestSha256 : String
  request : ReviewRequest
deriving DecidableEq, Repr

/-- `Signed<T>`. -/
structure Signed (α : Type) where
  value : α
  signatureHex : String
deriving DecidableEq, Repr

/-- `BundleRecord`. -/
structure BundleRecord where
  agentId : String
  manifest : BundleManifest
  manifestReceipt : SignedReceipt
  completion : Option (Signed Completion)
  reviews : List (Signed ReviewEvent)
  currentReview : String
  recommended : Bool
deriving DecidableEq, Repr

/-! ## The other crates -/

/-- `serde_json` at one type: `to_vec` and `from_slice`. -/
structure Codec (α : Type) where
  encode : α → Bytes
  decode : Bytes → Option α

/-- A codec that reads back what it wrote. -/
def Codec.RoundTrips {α : Type} (c : Codec α) : Prop := ∀ a, c.decode (c.encode a) = some a

/-- What the vault uses of `sha2`, `ed25519-dalek`, `hex` and `serde_json`. -/
structure Primitives where
  /-- The SHA-256 of a byte string, in lower-case hexadecimal. -/
  sha256 : Bytes → String
  /-- Whether a public key, in hexadecimal, accepts a signature, in hexadecimal, of a message. -/
  verify : String → Bytes → String → Bool
  /-- The canonical text of a public key, when the given text is one. -/
  publicKey : String → Option String
  /-- The signed text of a receipt. -/
  receipt : Receipt → Bytes
  /-- The signed text of a completion. -/
  completion : Completion → Bytes
  /-- The signed text of a review. -/
  review : ReviewEvent → Bytes
  /-- The signed text of a revocation intent. -/
  revocation : RevocationIntent → Bytes
  /-- The encoding of a bundle record. -/
  record : BundleRecord → Bytes
  signedReceipt : Codec SignedReceipt
  manifest : Codec BundleManifest
  signedCompletion : Codec (Signed Completion)
  signedReview : Codec (Signed ReviewEvent)
  signedRevocation : Codec (Signed RevocationIntent)

/-- A signing key, as the server uses it. -/
structure SigningKey where
  /-- The public half, in hexadecimal. -/
  publicHex : String
  /-- The signature of a message, in hexadecimal. -/
  sign : Bytes → String

end Argos.Vault
