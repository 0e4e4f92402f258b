import Argos.Vault.Inventory

/-!
# Puts and restarts

The counters of the running server account for the objects of the vault, as long as nothing has gone
wrong: `Balanced` is kept by every put that its callers' promises cover (`Balanced.put`). The scan at
a restart accounts for the same objects. So the two agree on every counter, and on every later
admission.
-/

namespace Argos.Vault

open Argos.Lib

/-! ## The directory after a publication -/

section PublishedDisk

variable {P : Primitives} {cfg : ServerConfig} {d d' : Disk} {agent hash : String}
  {bytes raw : Bytes}

theorem Disk.lookup_published (name : Name) :
    (d.published agent hash bytes raw).files.lookup name =
      if name = .receipt agent hash then some ⟨raw, false⟩
      else if name = .blob agent hash then some ⟨bytes, false⟩ else d.files.lookup name := by
  rw [Disk.published, Disk.lookup_write, Disk.lookup_write, Disk.withDirectory_files]

theorem Disk.published_directories :
    (d.published agent hash bytes raw).directories = (d.withDirectory agent).directories := rfl

theorem Disk.published_temporaries :
    (d.published agent hash bytes raw).temporaries = d.temporaries :=
  Disk.withDirectory_temporaries agent d

/-- Two new names are in front of the others. -/
theorem Disk.published_keys (hblob : d.has (.blob agent hash) = false)
    (hreceipt : d.has (.receipt agent hash) = false) :
    (d.published agent hash bytes raw).files.keys =
      .receipt agent hash :: .blob agent hash :: d.files.keys := by
  have h1 : Name.blob agent hash ∉ d.files :=
    AList.lookup_eq_none.1 (Disk.has_eq_false.1 hblob)
  have h2 : Name.receipt agent hash ∉ d.files.insert (.blob agent hash) ⟨bytes, false⟩ := by
    rw [AList.mem_insert, not_or]
    exact ⟨by simp, AList.lookup_eq_none.1 (Disk.has_eq_false.1 hreceipt)⟩
  have hfiles : (d.published agent hash bytes raw).files =
      (d.files.insert (.blob agent hash) ⟨bytes, false⟩).insert (.receipt agent hash)
        ⟨raw, false⟩ := by
    rw [Disk.published, Disk.write, Disk.write, Disk.withDirectory_files]
  rw [hfiles, AList.keys, AList.entries_insert_of_notMem h2, AList.entries_insert_of_notMem h1]
  rfl

/-- What the scan makes of an object depends on its two files only. -/
theorem scannedItem_congr {a h : String}
    (hblob : d'.files.lookup (.blob a h) = d.files.lookup (.blob a h))
    (hreceipt : d'.files.lookup (.receipt a h) = d.files.lookup (.receipt a h)) :
    scannedItem P cfg d' a h = scannedItem P cfg d a h := by
  unfold scannedItem scannedControl
  rw [hblob, hreceipt]

/-- The objects after a publication: the new one, and those that were there. -/
theorem Disk.published_items (hblob : d.has (.blob agent hash) = false)
    (hreceipt : d.has (.receipt agent hash) = false) {x : Item}
    (hx : scannedItem P cfg (d.published agent hash bytes raw) agent hash = some x) :
    (d.published agent hash bytes raw).items P cfg = x :: d.items P cfg := by
  rw [Disk.items, Disk.published_keys hblob hreceipt]
  have hold : ∀ name ∈ d.files.keys,
      itemAt P cfg (d.published agent hash bytes raw) name = itemAt P cfg d name := by
    intro name hname
    cases name with
    | blob a h =>
      have hne : ¬ (a = agent ∧ h = hash) := by
        rintro ⟨rfl, rfl⟩
        rw [← Disk.has_iff_mem_keys, hblob] at hname
        cases hname
      refine scannedItem_congr ?_ ?_
      · rw [Disk.lookup_published, if_neg (by simp), if_neg (by simpa using hne)]
      · rw [Disk.lookup_published, if_neg (by simpa using hne), if_neg (by simp)]
    | _ => rfl
  have hx' : itemAt P cfg (d.published agent hash bytes raw) (.blob agent hash) = some x := hx
  rw [List.filterMap_cons_none rfl, List.filterMap_cons_some hx']
  congr 1
  exact List.filterMap_congr hold

theorem Disk.WellFormed.published (h : d.WellFormed) :
    (d.published agent hash bytes raw).WellFormed := by
  refine ⟨?_, fun name a hparent hname => ?_, fun a ha => ?_⟩
  · exact Disk.withDirectory_nodup h.directories
  · rw [Disk.published_directories, Disk.mem_withDirectory]
    rw [Disk.has, Disk.lookup_published] at hname
    split at hname
    · next heq => subst heq; cases hparent; exact .inl rfl
    split at hname
    · next heq => subst heq; cases hparent; exact .inl rfl
    · exact .inr (h.files name a hparent hname)
  · rw [Disk.published_temporaries] at ha
    rw [Disk.published_directories, Disk.mem_withDirectory]
    exact .inr (h.temporaries a ha)

end PublishedDisk

/-! ## A put keeps the balance -/

section Balance

variable {P : Primitives} {cfg : ServerConfig} {agent hash kind : String} {bytes : Bytes}
  {revocation : Bool} {r : Readings} {s s' : Server} {receipt : SignedReceipt}

/-- What the callers of `put` and `put_revocation` promise: the name is the hash of the content, the
kind is one of the six, a control object is of the size of one, and a revocation goes through
`put_revocation`. -/
structure Promise (P : Primitives) (cfg : ServerConfig) (agent hash kind : String) (bytes : Bytes)
    (revocation : Bool) : Prop where
  named : hash = P.sha256 bytes
  known : validKind kind
  small : isControlKind kind → bytes.length ≤ maxManifestBytes
  verdict : ∀ c, controlOf P cfg agent kind bytes = .ok (some c) → c.2 = true → revocation = true

/-- The counters of the server account for the objects of the vault. -/
structure Balanced (P : Primitives) (cfg : ServerConfig) (s : Server) : Prop where
  clean : s.disk.Clean P cfg
  accounts : Accounts s.capacity (s.disk.items P cfg)
  bytes : s.capacity.total.logicalBytes ≤ u64Max
  objects : s.capacity.total.objects ≤ u64Max
  owners : s.capacity.bundleControlOwners.entries.length ≤ 10000

/-- The directories belong to agents that the server tracks. -/
structure Tracked (s : Server) : Prop where
  wellFormed : s.disk.WellFormed
  tracked : ∀ a ∈ s.disk.directories, a ∈ s.capacity.agents
  valid : ∀ a ∈ s.capacity.agents, validId a

theorem Balanced.fits (h : Balanced P cfg s) : Fits (s.disk.items P cfg) where
  bytes := by rw [← h.accounts.total]; exact h.bytes
  objects := by
    have := h.objects
    rwa [h.accounts.total] at this
  owners := by
    refine ⟨s.capacity.bundleControlOwners.keys, ?_, fun x hx key hkey => ?_⟩
    · have := h.owners
      simpa [AList.keys, List.keys] using this
    · exact AList.mem_keys.1 (h.accounts.mem_owners.2 ⟨x, hx, hkey⟩)

theorem Published.fields {received : Nat}
    (h : Published P cfg agent hash kind bytes received receipt) :
    ∃ until_, received + cfg.retentionSecs * 1000 ≤ u64Max ∧
      until_ = received + cfg.retentionSecs * 1000 ∧
      receipt.receipt = ⟨receiptFormat, cfg.keyId, agent, kind, hash, bytes.length, received, until_⟩ ∧
      receipt.signatureHex = cfg.key.sign (P.receipt receipt.receipt) := by
  obtain ⟨until_, hadd, rfl⟩ := h
  obtain ⟨hle, rfl⟩ := CapacityState.checkedAdd_eq_some_iff.1 hadd
  exact ⟨_, hle, rfl, rfl, rfl⟩

/-- The receipt of a publication is accepted and readable. -/
theorem Published.accepted (hP : P.Lawful cfg.key) (hcfg : cfg.check = true)
    (hagent : validId agent) (hkind : validKind kind) (hhash : validHash hash)
    (hsize : bytes.length ≤ cfg.maxObjectBytes) {received : Nat}
    (h : Published P cfg agent hash kind bytes received receipt) :
    verifyReceipt P receipt cfg.key.publicHex = .ok () ∧
      (P.signedReceipt.encode receipt).length ≤ maxReceiptBytes := by
  obtain ⟨until_, hle, huntil, hreceipt, hsig⟩ := h.fields
  simp only [ServerConfig.check, Bool.and_eq_true, decide_eq_true_eq] at hcfg
  obtain ⟨⟨⟨⟨⟨⟨hkey, -⟩, -⟩, -⟩, hmax⟩, hret⟩, -⟩ := hcfg
  have hu64 : maxObjectBytes ≤ u64Max := by decide
  constructor
  · rw [verifyReceipt_ok_iff, hsig, hreceipt]
    exact ⟨rfl, hkey, hagent, hkind, hhash, hsize.trans hmax, by dsimp only; omega, hP.verify _⟩
  · refine hP.receiptSize receipt ?_ (by rw [hsig]; exact hP.signature _)
    rw [hreceipt]
    exact ⟨rfl, hkey, hagent, hkind, hhash, by dsimp only; omega, by dsimp only; omega,
      by dsimp only; omega⟩

/-- The scan finds a published object in order, and with the bundle that the put had found. -/
theorem scannedItem_published (hP : P.Lawful cfg.key) (hcfg : cfg.check = true)
    (hagent : validId agent) (hprom : Promise P cfg agent hash kind bytes revocation)
    (hsize : bytes.length ≤ cfg.maxObjectBytes) {received : Nat} {control : Option (String × Bool)}
    (hpub : Published P cfg agent hash kind bytes received receipt)
    (hcontrol : controlOf P cfg agent kind bytes = .ok control) (d : Disk) :
    scannedItem P cfg (d.published agent hash bytes (P.signedReceipt.encode receipt)) agent hash =
      some ⟨agent, hash, bytes, control⟩ := by
  have hhash : validHash hash := by rw [hprom.named]; exact hP.sha256 bytes
  obtain ⟨hver, hlen⟩ := hpub.accepted hP hcfg hagent hprom.known hhash hsize
  obtain ⟨until_, -, -, hreceipt, -⟩ := hpub.fields
  refine scannedItem_of ?_ ?_ rfl rfl
  · rw [Disk.lookup_published, if_neg (by simp), if_pos rfl]
  · dsimp only
    rw [scannedControl, Disk.lookup_published, if_pos rfl]
    rw [Result.bind_ok_iff]
    refine ⟨_, readStorageFile_ok_iff.2 ⟨rfl, hlen⟩, ?_⟩
    rw [Result.bind_ok_iff]
    refine ⟨receipt, fromSlice_ok_iff.2 (hP.signedReceipt receipt), ?_⟩
    rw [Result.check_ok_iff, Result.check_ok_iff, refuse_ok_iff]
    refine ⟨hver, by simp [hreceipt], ?_⟩
    have hk : receipt.receipt.kind = kind := by rw [hreceipt]
    rw [hk]
    unfold controlOf at hcontrol
    split
    · next hctl =>
      rw [if_pos hctl] at hcontrol
      rw [Result.check_ok_iff, Result.check_ok_iff, refuse_ok_iff, verifyBody_ok_iff]
      refine ⟨by simpa using hprom.small hctl, ⟨by rw [hreceipt], by rw [hreceipt]; exact hprom.named⟩,
        hcontrol⟩
    · next hctl => rwa [if_neg hctl] at hcontrol

/-- A published object leaves the directories tracked. -/
theorem Tracked.added (h : Tracked s)
    (hadd : PutAdded P cfg agent hash kind bytes revocation r s receipt s') : Tracked s' := by
  obtain ⟨current, hadm⟩ := hadd.admitted
  obtain ⟨control, -, -, -, rfl⟩ := hadd.state
  have hmem := hadm.mem
  have hagents : ∀ a, a ∈ (s.capacity.booked agent bytes.length revocation control).agents ↔
      a = agent ∨ a ∈ s.capacity.agents := by
    intro a
    rw [booked_eq]
    exact AList.mem_insert _
  refine ⟨h.wellFormed.published, fun a ha => ?_, fun a ha => ?_⟩
  · rw [Disk.published_directories, Disk.mem_withDirectory] at ha
    rw [hagents]
    exact ha.imp id (h.tracked a)
  · rw [hagents] at ha
    exact ha.elim (fun heq => heq ▸ h.valid agent hmem) (h.valid a)

/-- A put of a new object keeps the balance. -/
theorem Balanced.added (hP : P.Lawful cfg.key) (hcfg : cfg.check = true) (ht : Tracked s)
    (hprom : Promise P cfg agent hash kind bytes revocation) (h : Balanced P cfg s)
    (hadd : PutAdded P cfg agent hash kind bytes revocation r s receipt s') : Balanced P cfg s' := by
  obtain ⟨current, hadm⟩ := hadd.admitted
  obtain ⟨control, hcontrol, hallowed, hroom, rfl⟩ := hadd.state
  have hmem := hadm.mem
  have hagent := ht.valid agent hmem
  have hhash : validHash hash := by rw [hprom.named]; exact hP.sha256 bytes
  -- The new object, as the scan would find it.
  set x : Item := ⟨agent, hash, bytes, control⟩ with hx
  set raw := P.signedReceipt.encode receipt
  have hitem : scannedItem P cfg (s.disk.published agent hash bytes raw) agent hash = some x :=
    scannedItem_published hP hcfg hagent hprom hadd.size hadd.signed hcontrol s.disk
  have hitems : (s.disk.published agent hash bytes raw).items P cfg = x :: s.disk.items P cfg :=
    Disk.published_items hadd.noBlob hadd.noReceipt hitem
  have hrev : x.revoked = revocation := by
    rcases hc : control with _ | c
    · cases revocation with
      | false => rw [hx, hc]; rfl
      | true => rw [hc] at hallowed; cases hallowed rfl
    · have h1 := hprom.verdict c (hc ▸ hcontrol)
      rw [hc] at hallowed
      simp only [Option.any_some] at hallowed
      rw [hx, hc]
      simp only [Item.revoked, Option.any_some]
      cases hc2 : c.2 with
      | false => cases revocation with
        | false => rfl
        | true => rw [hc2] at hallowed; cases hallowed rfl
      | true => exact (h1 hc2).symm
  have hbytes : (usageOf (x :: s.disk.items P cfg)).logicalBytes ≤ u64Max := by
    have := hadm.totalBytes
    rw [usageOf_cons, ← h.accounts.total]
    exact this
  have hlen : (x :: s.disk.items P cfg).length ≤ u64Max := by
    have := hadm.totalObjects
    rw [h.accounts.total] at this
    exact this
  have hacc := h.accounts.booked hmem hbytes hlen
  rw [hrev] at hacc
  refine ⟨⟨fun a ha => ?_, fun a k hk => ?_, fun a k hk => ?_, fun a ha => ?_⟩, ?_, ?_, ?_, ?_⟩
  · rw [Disk.published_directories, Disk.mem_withDirectory] at ha
    exact ha.elim (fun heq => heq ▸ hagent) (h.clean.valid a)
  · by_cases heq : a = agent ∧ k = hash
    · obtain ⟨rfl, rfl⟩ := heq
      exact ⟨hhash, x, hitem⟩
    · rw [Disk.has, Disk.lookup_published, if_neg (by simp), if_neg (by simpa using heq)] at hk
      obtain ⟨hvalid, y, hy⟩ := h.clean.blobs a k hk
      refine ⟨hvalid, y, hy ▸ scannedItem_congr ?_ ?_⟩
      · rw [Disk.lookup_published, if_neg (by simp), if_neg (by simpa using heq)]
      · rw [Disk.lookup_published, if_neg (by simpa using heq), if_neg (by simp)]
  · by_cases heq : a = agent ∧ k = hash
    · obtain ⟨rfl, rfl⟩ := heq
      refine ⟨hhash, ?_⟩
      rw [Disk.has, Disk.lookup_published, if_neg (by simp), if_pos rfl]
      rfl
    · rw [Disk.has, Disk.lookup_published, if_neg (by simpa using heq), if_neg (by simp)] at hk
      obtain ⟨hvalid, hblob⟩ := h.clean.receipts a k hk
      refine ⟨hvalid, ?_⟩
      rw [Disk.has, Disk.lookup_published, if_neg (by simp), if_neg (by simpa using heq)]
      exact hblob
  · rw [Disk.published_temporaries] at ha
    exact h.clean.temporaries a ha
  · rw [hitems]; exact hacc
  · rw [hacc.total]; exact hbytes
  · rw [hacc.total]; exact hlen
  · -- A new owner was noted only while there was room.
    rw [booked_eq]
    rcases hc : control with _ | c
    · exact h.owners
    · have hone := hroom c (by rw [hc]; rfl)
      dsimp only
      by_cases hin : (agent, c.1) ∈ s.capacity.bundleControlOwners
      · rw [bump, length_insert_of_mem hin]
        exact h.owners
      · have hlt := hone.resolve_left hin
        rw [bump, AList.entries_insert_of_notMem hin, List.length_cons]
        omega

/-! ## What can be read back -/

variable {d d' : Disk}

/-- Every object lies under the hash of its content, and is within the server's limit. -/
def Disk.Named (P : Primitives) (cfg : ServerConfig) (d : Disk) : Prop :=
  ∀ a h file, d.files.lookup (.blob a h) = some file →
    h = P.sha256 file.bytes ∧ file.bytes.length ≤ cfg.maxObjectBytes

theorem Disk.Named.adds (h : d.Named P cfg) (hadd : Disk.Adds agent hash bytes d d')
    (hname : hash = P.sha256 bytes) (hsize : bytes.length ≤ cfg.maxObjectBytes) :
    d'.Named P cfg := by
  intro a k file hfile
  obtain hold | ⟨-, ⟨heq, hbytes⟩ | heq⟩ := hadd.news _ _ hfile
  · exact h a k file hold
  · cases heq
    rw [hbytes]
    exact ⟨hname, hsize⟩
  · cases heq

/-- In a clean directory every object has its receipt. -/
theorem Disk.Clean.whole (h : d.Clean P cfg) (hblob : d.has (.blob agent hash)) :
    d.has (.receipt agent hash) := by
  obtain ⟨-, x, hx⟩ := h.blobs agent hash hblob
  obtain ⟨-, -, -, hcontrol⟩ := scannedItem_eq_some hx
  simp only [scannedControl, Result.bind_ok_iff, readStorageFile_ok_iff] at hcontrol
  obtain ⟨raw, ⟨hraw, -⟩, -⟩ := hcontrol
  rw [Disk.has, hraw]
  rfl

/-- In a clean directory every object can be read. -/
theorem Disk.Clean.readable (h : d.Clean P cfg) (hwf : d.WellFormed) (hnamed : d.Named P cfg)
    (hreceipt : d.has (.receipt agent hash)) : ∃ x, d.get P cfg agent hash = .ok x := by
  obtain ⟨-, hblob⟩ := h.receipts agent hash hreceipt
  obtain ⟨-, x, hx⟩ := h.blobs agent hash hblob
  obtain ⟨-, -, hfile, hcontrol⟩ := scannedItem_eq_some hx
  obtain ⟨hname, hsize⟩ := hnamed _ _ _ hfile
  simp only [scannedControl, Result.bind_ok_iff, exists_unit_iff, readStorageFile_ok_iff,
    fromSlice_ok_iff, refuse_ok_iff, Bool.or_eq_false_iff, bne_eq_false_iff_eq] at hcontrol
  obtain ⟨raw, ⟨hraw, hlen⟩, receipt, hdec, hver, ⟨⟨⟨hagent, hsha⟩, hkey⟩, hbytes⟩, -⟩ := hcontrol
  exact ⟨(receipt, x.bytes), Disk.get_ok_iff.2 ⟨hwf.files _ agent rfl hreceipt, ⟨raw, hraw, hlen, hdec⟩,
    hver, hagent, hsha, hkey, hfile, hsize, hbytes, hname⟩⟩

/-! ## Runs of puts -/

/-- A run of `put` and `put_revocation` calls in which the callers keep their promises, no write
fails, no retention ends later than a `u64` can say, and no bundle is met for which the table of
owners has no room. -/
inductive PutRun (P : Primitives) (cfg : ServerConfig) (s₀ : Server) : Server → Prop where
  | start : PutRun P cfg s₀ s₀
  | put {s : Server} {agent hash kind : String} {bytes : Bytes} {r : Readings}
      (run : PutRun P cfg s₀ s) (promise : Promise P cfg agent hash kind bytes false)
      (retention : r.received + cfg.retentionSecs * 1000 ≤ u64Max)
      (room : ∀ c, controlOf P cfg agent kind bytes = .ok (some c) →
        s.capacity.OwnerRoom (agent, c.1)) :
    PutRun P cfg s₀ (put P cfg agent hash kind bytes r [] s).2.2
  | putRevocation {s : Server} {agent hash : String} {bytes : Bytes} {r : Readings}
      (run : PutRun P cfg s₀ s) (promise : Promise P cfg agent hash "bundle-review" bytes true)
      (retention : r.received + cfg.retentionSecs * 1000 ≤ u64Max)
      (room : ∀ c, controlOf P cfg agent "bundle-review" bytes = .ok (some c) →
        s.capacity.OwnerRoom (agent, c.1)) :
    PutRun P cfg s₀ (putRevocation P cfg agent hash bytes r [] s).2.2

/-- What a run of puts keeps while nothing goes wrong. -/
structure Kept (P : Primitives) (cfg : ServerConfig) (s₀ s : Server) : Prop where
  tracked : Tracked s
  balanced : Balanced P cfg s
  named : s.disk.Named P cfg
  temporaries : s.disk.temporaries = []
  frame : SameFrame s₀.capacity s.capacity
  agents : ∀ a, a ∈ s.capacity.agents ↔ a ∈ s₀.capacity.agents

/-- A refusal that only counts a rejection keeps the balance. -/
theorem Balanced.of_sameBooks (h : Balanced P cfg s) (hdisk : s'.disk = s.disk)
    (hcap : s'.capacity = { s.capacity with
      admissionRejections := s'.capacity.admissionRejections }) : Balanced P cfg s' := by
  generalize s'.capacity.admissionRejections = n at hcap
  refine ⟨hdisk ▸ h.clean, ?_, ?_, ?_, ?_⟩
  · rw [hdisk, hcap]
    exact ⟨h.accounts.total, h.accounts.agents, h.accounts.tracked, h.accounts.revocations,
      h.accounts.agentRevocations, h.accounts.controls, h.accounts.owners⟩
  · rw [hcap]; exact h.bytes
  · rw [hcap]; exact h.objects
  · rw [hcap]; exact h.owners

theorem Tracked.of_sameDisk (h : Tracked s) (hdisk : s'.disk = s.disk)
    (hagents : ∀ a, a ∈ s'.capacity.agents ↔ a ∈ s.capacity.agents) : Tracked s' := by
  refine ⟨hdisk ▸ h.wellFormed, fun a ha => ?_, fun a ha => h.valid a ((hagents a).1 ha)⟩
  rw [hdisk] at ha
  exact (hagents a).2 (h.tracked a ha)

/-- A call that has changed nothing but the count of rejections keeps all. -/
theorem Kept.turnedAway {s₀ : Server} (h : Kept P cfg s₀ s) (hdisk : s'.disk = s.disk)
    (hcap : s'.capacity = { s.capacity with
      admissionRejections := s'.capacity.admissionRejections }) : Kept P cfg s₀ s' := by
  have hagents : ∀ a, a ∈ s'.capacity.agents ↔ a ∈ s.capacity.agents := by
    intro a
    rw [hcap]
  refine ⟨h.tracked.of_sameDisk hdisk hagents, h.balanced.of_sameBooks hdisk hcap,
    hdisk ▸ h.named, hdisk ▸ h.temporaries, h.frame.trans ?_,
    fun a => (hagents a).trans (h.agents a)⟩
  rw [hcap]
  exact ⟨rfl, rfl, rfl⟩

/-- A put of a new object keeps all. -/
theorem Kept.added (hP : P.Lawful cfg.key) (hcfg : cfg.check = true) {s₀ : Server}
    (hprom : Promise P cfg agent hash kind bytes revocation) (h : Kept P cfg s₀ s)
    (hadd : PutAdded P cfg agent hash kind bytes revocation r s receipt s') : Kept P cfg s₀ s' := by
  obtain ⟨current, hadm⟩ := hadd.admitted
  have htracked := h.tracked.added hadd
  have hbalanced := h.balanced.added hP hcfg h.tracked hprom hadd
  have hsize := hadd.size
  obtain ⟨control, -, -, -, rfl⟩ := hadd.state
  refine ⟨htracked, hbalanced, fun a k file hfile => ?_,
    Disk.published_temporaries.trans h.temporaries, h.frame.trans ?_, fun a => ?_⟩
  · rw [Disk.lookup_published, if_neg (by simp)] at hfile
    split at hfile
    · next heq =>
      cases heq
      cases hfile
      exact ⟨hprom.named, hsize⟩
    · exact h.named a k file hfile
  · dsimp only
    rw [booked_eq]
    exact ⟨rfl, rfl, rfl⟩
  · rw [← h.agents a]
    dsimp only
    rw [booked_eq]
    show a ∈ bump _ _ _ ↔ _
    rw [bump, AList.mem_insert]
    exact ⟨fun h => h.elim (fun h => h ▸ hadm.mem) id, .inr⟩

/-- One put keeps all. -/
theorem Kept.put (hP : P.Lawful cfg.key) (hcfg : cfg.check = true) {s₀ : Server}
    (hprom : Promise P cfg agent hash kind bytes revocation) (h : Kept P cfg s₀ s)
    (hretention : r.received + cfg.retentionSecs * 1000 ≤ u64Max)
    (hroom : ∀ c, controlOf P cfg agent kind bytes = .ok (some c) →
      s.capacity.OwnerRoom (agent, c.1)) :
    Kept P cfg s₀ (putInner P cfg agent hash kind bytes revocation r [] s).2.2 := by
  have hquiet : Quiet P cfg agent hash kind bytes r s :=
    ⟨h.balanced.clean.readable h.tracked.wellFormed h.named, h.balanced.clean.whole, hretention,
      hroom⟩
  refine ((putInner_calm hquiet).mono (fun receipt s' hs' => ?_) (fun s' hs' => ?_)).stops
  · obtain hfound | hadd := hs'
    · -- The object was there: nothing has changed.
      rw [hfound.state]
      exact h.turnedAway rfl rfl
    · exact h.added hP hcfg hprom hadd
  · exact h.turnedAway hs'.2.1 hs'.2.2.2.2

/-- A run of puts keeps all. -/
theorem PutRun.kept (hP : P.Lawful cfg.key) (hcfg : cfg.check = true) {s₀ : Server}
    (h₀ : Kept P cfg s₀ s₀) (hrun : PutRun P cfg s₀ s) : Kept P cfg s₀ s := by
  induction hrun with
  | start => exact h₀
  | put _ promise retention room ih => exact ih.put hP hcfg promise retention room
  | putRevocation _ promise retention room ih => exact ih.put hP hcfg promise retention room

end Balance

end Argos.Vault
