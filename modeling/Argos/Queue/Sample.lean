import Argos.Queue.Changes
import Argos.Queue.Export
import Argos.Vault.System

/-!
# Formats that keep the laws

The sample of the vault with the formats of the queue: a target and a line of an archive are written
in the format of `Wire`, and the bytes of a line are spread over letters, so that a line holds no
newline. The scripts at the end are used where a result is applied to one run.
-/

namespace Argos.Queue

open Argos.Lib
open Argos.Vault (Bytes Codec SignedReceipt BundleRecord sample sampleKey sampleBody sampleManifest)

/-! ## Formats -/

namespace Wires

open Wire

def bool : Wire Bool :=
  nat.map (fun b => if b then 1 else 0) (fun n => n != 0) (fun b => by cases b <;> rfl)

def target : Wire QueueTarget :=
  (text.pair (text.pair (text.pair (text.pair (bool.pair text.option))))).map
    (fun t => (t.endpoint, t.agentId, t.keyId, t.pinnedPubkey, t.allowHttpLoopback, t.tlsCaSha256))
    (fun t => ⟨t.1, t.2.1, t.2.2.1, t.2.2.2.1, t.2.2.2.2.1, t.2.2.2.2.2⟩) (fun _ => rfl)

def item : Wire QueueItem :=
  (text.pair (text.pair (text.pair (nat.pair (text.pair (nat.pair (nat.pair (nat.pair
    (text.option.pair (nat.option.pair Vault.Wires.signedReceipt.option)))))))))).map
    (fun i => (i.id, i.kind, i.sha256, i.sizeBytes, i.state, i.createdAtMs, i.attempts,
      i.nextRetryMs, i.lastError, i.sentAtMs, i.receipt))
    (fun t => ⟨t.1, t.2.1, t.2.2.1, t.2.2.2.1, t.2.2.2.2.1, t.2.2.2.2.2.1, t.2.2.2.2.2.2.1,
      t.2.2.2.2.2.2.2.1, t.2.2.2.2.2.2.2.2.1, t.2.2.2.2.2.2.2.2.2.1, t.2.2.2.2.2.2.2.2.2.2⟩)
    (fun _ => rfl)

/-- A line: what it is, and the fields of whichever it is. -/
def record : Wire Record :=
  ((text.pair (target.pair (nat.pair nat))).option.pair
    (item.option.pair (nat.pair text).option)).map
    (fun
      | .header format target count at_ => (some (format, target, count, at_), none, none)
      | .receipt item => (none, some item, none)
      | .trailer count hash => (none, none, some (count, hash)))
    (fun t => match t.1, t.2.1, t.2.2 with
      | some h, _, _ => .header h.1 h.2.1 h.2.2.1 h.2.2.2
      | none, some item, _ => .receipt item
      | none, none, some t => .trailer t.1 t.2
      | none, none, none => .trailer 0 "")
    (fun r => by cases r <;> rfl)

end Wires

/-- Every byte as two letters. -/
def letters (bytes : Bytes) : Bytes := bytes.flatMap fun b => [65 + b / 16, 65 + b % 16]

/-- The bytes of pairs of letters, up to a newline. -/
def unletters : Bytes → Option Bytes
  | [] => some []
  | [b] => if b = newline then some [] else none
  | high :: low :: rest => (unletters rest).map (((high - 65) * 16 + (low - 65)) :: ·)

theorem letters_pair (b : UInt8) : (65 + b / 16 - 65) * 16 + (65 + b % 16 - 65) = b := by
  have hall : ∀ n : Fin 256, (65 + UInt8.ofFin n / 16 - 65) * 16 + (65 + UInt8.ofFin n % 16 - 65) =
      UInt8.ofFin n := by decide +kernel
  exact hall b.toFin

theorem letters_ne (b : UInt8) : 65 + b / 16 ≠ newline ∧ 65 + b % 16 ≠ newline := by
  have hall : ∀ n : Fin 256, 65 + UInt8.ofFin n / 16 ≠ newline ∧ 65 + UInt8.ofFin n % 16 ≠ newline := by
    decide +kernel
  exact hall b.toFin

theorem unletters_letters (bytes : Bytes) : unletters (letters bytes ++ [newline]) = some bytes := by
  induction bytes with
  | nil => rfl
  | cons b rest ih =>
    show (unletters (letters rest ++ [newline])).map _ = _
    rw [ih, Option.map_some, letters_pair]

theorem newline_notMem_letters (bytes : Bytes) : newline ∉ letters bytes := by
  intro h
  obtain ⟨b, -, hb⟩ := List.mem_flatMap.1 h
  obtain ⟨hhigh, hlow⟩ := letters_ne b
  rcases List.mem_cons.1 hb with hb | hb
  · exact hhigh hb.symm
  · exact hlow (List.mem_singleton.1 hb).symm

/-- The formats. -/
def sampleFormats : Formats :=
  { sample with
    target := .ofWire Wires.target
    archive := ⟨fun record => letters (Wires.record.write record),
      fun bytes => (unletters bytes).bind Wires.record.decode⟩
    url := fun text => if text = "https://vault" then
      some ⟨text, "https", "", none, "", none, none, false⟩ else none
    certificates := fun _ => none }

theorem sampleFormats_readsBack : sampleFormats.ReadsBack :=
  ⟨Codec.ofWire_roundTrips _, Codec.ofWire_roundTrips _, Codec.ofWire_roundTrips _,
    Codec.ofWire_roundTrips _⟩

theorem sampleFormats_exports : sampleFormats.Exports where
  oneLine record := newline_notMem_letters _
  decode record := by
    show (unletters (letters (Wires.record.write record) ++ [newline])).bind _ = _
    rw [unletters_letters]
    exact Wire.decode_write _ _
  publicKey key text h := rfl

/-! ## Scripts -/

/-- The configuration of an agent. -/
def sampleConfig : VaultConfig :=
  ⟨"https://vault", "agent", "sample", "key", false, none, 1024, 30⟩

/-- Its target. -/
def sampleTarget : QueueTarget := ⟨"https://vault", "agent", "key", "sample", false, none⟩

/-- Its limits. -/
def sampleLimits : QueueLimits := ⟨10, 1024⟩

/-- An identifier that ends in a digit. -/
def sampleId (digit : Fin 10) : RandomId :=
  ⟨"0000000000000000000000000000000" ++ toString digit.val, by revert digit; decide +kernel⟩

/-- A receipt for a body, as the server gives it. -/
def sampleReceipt (kind : String) (body : Bytes) : SignedReceipt :=
  let receipt : Vault.Receipt :=
    ⟨Vault.receiptFormat, "key", "agent", kind, sample.sha256 body, body.length, 1, 2⟩
  ⟨receipt, sampleKey.sign (sample.receipt receipt)⟩

/-- The record of the completed bundle, as the server gives it. -/
def sampleRecord : BundleRecord :=
  let manifest := sample.manifest.encode sampleManifest
  let completion : Vault.Completion :=
    ⟨"argos-bundle-completion-v1", "key", "agent", sampleManifest.bundleId, sample.sha256 manifest,
      sampleManifest.sha256, sampleManifest.sizeBytes, 3⟩
  ⟨"agent", sampleManifest, sampleReceipt "bundle-manifest" manifest,
    some ⟨completion, sampleKey.sign (sample.completion completion)⟩, [], "unknown", false⟩

/-- An object is enqueued. -/
def sampleEnqueue (kind : String) (body : Bytes) (digit : Fin 10) : Event × Plan :=
  (.enqueue sampleConfig (some body) kind sampleLimits ⟨some (sampleId digit), 1, digit, 1, digit⟩,
    [])

/-- The next item is leased, and the lease with a number is finished. -/
def sampleSend (i : Nat) (kind : String) (body : Bytes) (now : Nat) : List (Event × Plan) :=
  [(.claim sampleTarget 30 now now (some (sampleId 9)), []),
    (.finish i sampleTarget (.ok (sampleReceipt kind body)) now now, [])]

/-- A bundle is enqueued, with as many unlocked reads as it needs. -/
def sampleBundle (reads : Nat) : List (Event × Plan) :=
  (.beginBundle ⟨sampleConfig, sampleLimits, some sampleManifest, fun _ => some sampleBody⟩
      (fun _ => some (sampleId 5)), []) ::
    List.replicate (reads + 1) (.proceed 0 ⟨2, fun _ => some (sampleId 5), fun _ => 7⟩, [])

/-- The job of the bundle is leased and completed. -/
def sampleComplete (now : Nat) : List (Event × Plan) :=
  [(.claimJob sampleTarget 30 now now (some (sampleId 8)), []),
    (.finishJob 0 sampleTarget (.ok sampleRecord) now now, [])]

/-- The digit of an identifier. -/
def sampleDigit (n : Nat) : Fin 10 := Fin.ofNat 10 n

end Argos.Queue
