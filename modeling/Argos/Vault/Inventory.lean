import Argos.Lib.Related
import Argos.Vault.Scan
import Mathlib.Data.List.Perm.Basic

/-!
# The scan and the objects

A scan that meets nothing wrong is a sequence of good turns (`ScansAll`, `ScansRoot`): each object it
passes is counted as a put of it was, and the state in between stays consistent. In one direction a
directory that is `Clean` is scanned so, in every order of its entries; in the other a scan whose
result is consistent and complete was one, and has found the directory clean. Either way the
counters account for the objects of the directory.
-/

namespace Argos.Vault

open Argos.Lib

section Turns

variable (P : Primitives) (cfg : ServerConfig) (d : Disk)

/-- The object that the scan finds under a name, when its files and its receipt are in order. -/
def scannedItem (agent hash : String) : Option Item :=
  match objectMetadata (d.files.lookup (.blob agent hash)) with
  | .error _ => none
  | .ok bytes =>
    match scannedControl P cfg d agent hash bytes with
    | .error _ => none
    | .ok control => some ⟨agent, hash, bytes, control⟩

/-- The counters of an object that is new to them. -/
def CapacityState.book (st : CapacityState) (x : Item) : CapacityState :=
  st.booked x.agent x.bytes.length x.revoked x.control

/-- There is room for an object in every counter. -/
structure CapacityState.Room (st : CapacityState) (x : Item) (current : ObjectUsage) : Prop where
  tracked : st.agents.lookup x.agent = some current
  bytes : st.total.logicalBytes + x.bytes.length ≤ u64Max
  objects : st.total.objects + 1 ≤ u64Max
  agentBytes : current.logicalBytes + x.bytes.length ≤ u64Max
  agentObjects : current.objects + 1 ≤ u64Max
  owners : ∀ key ∈ x.owner, st.OwnerRoom key

/-- A turn of the inner loop that meets nothing wrong. -/
inductive Scans (agent : String) (st : CapacityState) : ObjectName → CapacityState → Prop where
  | receipt {hash : String} (valid : validHash hash) (found : d.has (.blob agent hash)) :
    Scans agent st (.receipt hash) st
  | blob {hash : String} {x : Item} {current : ObjectUsage} (valid : validHash hash)
      (item : scannedItem P cfg d agent hash = some x) (room : st.Room x current) :
    Scans agent st (.blob hash) (st.book x)

variable {P cfg d} {agent hash : String} {st st' : CapacityState} {x : Item}

theorem scannedItem_eq_some (h : scannedItem P cfg d agent hash = some x) :
    x.agent = agent ∧ x.hash = hash ∧
      d.files.lookup (.blob agent hash) = some ⟨x.bytes, false⟩ ∧
      scannedControl P cfg d agent hash x.bytes = .ok x.control := by
  unfold scannedItem at h
  rcases hm : objectMetadata (d.files.lookup (.blob agent hash)) with e | bytes
  · rw [hm] at h; cases h
  rw [hm] at h
  dsimp only at h
  rcases hc : scannedControl P cfg d agent hash bytes with e | control
  · rw [hc] at h; cases h
  rw [hc] at h
  cases h
  refine ⟨rfl, rfl, ?_, hc⟩
  rcases hf : d.files.lookup (.blob agent hash) with _ | ⟨raw, linked⟩
  · rw [hf] at hm; cases hm
  · rw [hf] at hm
    simp only [objectMetadata, Result.check_ok_iff, refuse_ok_iff, Except.ok.injEq] at hm
    obtain ⟨rfl, rfl⟩ := hm
    exact hf

theorem scannedItem_of (hblob : d.files.lookup (.blob agent hash) = some ⟨x.bytes, false⟩)
    (hcontrol : scannedControl P cfg d agent hash x.bytes = .ok x.control) (hagent : x.agent = agent)
    (hhash : x.hash = hash) : scannedItem P cfg d agent hash = some x := by
  subst hagent hhash
  unfold scannedItem
  rw [hblob]
  simp only [objectMetadata, refuse, Bool.false_eq_true, if_false]
  show (match scannedControl P cfg d x.agent x.hash x.bytes with
    | .error _ => none
    | .ok control => some ⟨x.agent, x.hash, x.bytes, control⟩) = some x
  rw [hcontrol]

/-- `add_usage` succeeds where there is room. -/
theorem CapacityState.Room.addUsage {current : ObjectUsage} (h : st.Room x current) :
    st.addUsage x.agent x.bytes.length =
      (.ok (), st.charged x.agent x.bytes.length false) := by
  have h1 := CapacityState.checkedAdd_eq_some_iff.2 ⟨h.bytes, rfl⟩
  have h2 := CapacityState.checkedAdd_eq_some_iff.2 ⟨h.objects, rfl⟩
  have h3 := CapacityState.checkedAdd_eq_some_iff.2 ⟨h.agentBytes, rfl⟩
  have h4 := CapacityState.checkedAdd_eq_some_iff.2 ⟨h.agentObjects, rfl⟩
  simp only [CapacityState.addUsage, h.tracked, h1, h2, h3, h4, CapacityState.charged, bump, valueAt,
    Option.getD_some, CapacityState.grown, Bool.false_eq_true, if_false]

/-- The order in which the scan counts an object makes no difference. -/
theorem book_eq_scanned (st : CapacityState) (x : Item) :
    (match x.control with
      | none => st.charged x.agent x.bytes.length false
      | some (bundle, revoked) =>
        let noted := (st.charged x.agent x.bytes.length false).noted x.agent bundle
        if revoked && noted.revocationEnabled then
          (noted.addRevocation x.agent x.bytes.length).markRevocationReceipted x.agent
        else noted).markReceipted x.agent = st.book x := by
  have hmem : x.agent ∈ bump st.agents x.agent (CapacityState.grown x.bytes.length) := by
    rw [bump, AList.mem_insert]; exact .inl rfl
  have hagents := bump_bump st.agents x.agent (CapacityState.grown x.bytes.length) fun u =>
    { u with receiptedObjects := saturatingAdd u.receiptedObjects 1 }
  rw [CapacityState.book, booked_eq]
  rcases hc : x.control with _ | ⟨bundle, revoked⟩
  · have hrev : x.revoked = false := by simp [Item.revoked, hc]
    simp only [CapacityState.markReceipted_eq, CapacityState.charged, hrev, Bool.false_and,
      Bool.false_eq_true, if_false, if_pos hmem, hagents]
    rfl
  · have hrev : x.revoked = revoked := by simp [Item.revoked, hc]
    have hen : ((st.charged x.agent x.bytes.length false).noted x.agent bundle).revocationEnabled =
        st.revocationEnabled := rfl
    dsimp only
    rw [hrev, hen]
    by_cases hboth : (revoked && st.revocationEnabled) = true
    · have hen' : (((st.charged x.agent x.bytes.length false).noted x.agent bundle).addRevocation
          x.agent x.bytes.length).revocationEnabled = true := by
        simp only [Bool.and_eq_true] at hboth
        exact hboth.2
      rw [if_pos hboth, if_pos hboth, CapacityState.markRevocationReceipted, if_pos hen', if_pos hboth]
      simp only [CapacityState.markReceipted_eq, CapacityState.charged, CapacityState.noted,
        CapacityState.addRevocation, Bool.false_eq_true, if_false, if_pos hmem, hagents, bump_bump]
      rfl
    · rw [if_neg hboth, if_neg hboth, if_neg hboth]
      simp only [CapacityState.markReceipted_eq, CapacityState.charged, CapacityState.noted,
        Bool.false_eq_true, if_false, if_pos hmem, hagents]
      rfl

/-- What the scan makes of an object's receipt, with the table of owners as it is. -/
theorem scanVerified_cases (st : CapacityState) (agent hash : String) (bytes : Bytes) :
    (∃ e st', scanVerified P cfg d st agent hash bytes = (.error e, st')) ∨
      ∃ control, scannedControl P cfg d agent hash bytes = .ok control ∧
        (∀ c ∈ control, st.OwnerRoom (agent, c.1)) ∧
        scanVerified P cfg d st agent hash bytes = (.ok (), match control with
          | none => st
          | some (bundle, revoked) => if revoked && (st.noted agent bundle).revocationEnabled then
              ((st.noted agent bundle).addRevocation agent bytes.length).markRevocationReceipted agent
            else st.noted agent bundle) := by
  unfold scanVerified
  rcases hc : scannedControl P cfg d agent hash bytes with e | control
  · exact .inl ⟨e, st, rfl⟩
  rcases control with _ | ⟨bundle, revoked⟩
  · exact .inr ⟨none, rfl, by simp, rfl⟩
  obtain ⟨-, e, he⟩ | ⟨hroom, hok⟩ := st.noteControl_cases agent bundle
  · exact .inl ⟨e, st.inconsistent "bundle_owner_tracking_limit", by simp only [he]⟩
  · refine .inr ⟨_, rfl, ?_, by simp only [hok]⟩
    rintro c hc
    cases hc
    exact hroom

/-- A turn after which the storage is consistent met nothing wrong. -/
theorem scans_of_scanObject {name : ObjectName}
    (h : scanObject P cfg d agent st name = .ok st') (hc : st'.storageConsistent = true) :
    Scans P cfg d agent st name st' := by
  have hbad : ∀ (st : CapacityState) (code : String), (st.inconsistent code).storageConsistent = true →
      False := fun _ _ h => by cases h
  cases name with
  | other =>
    simp only [scanObject, Except.ok.injEq] at h
    subst h
    exact (hbad _ _ hc).elim
  | receipt hash =>
    rw [scanObject] at h
    split at h
    · cases h; exact (hbad _ _ hc).elim
    · next hvalid =>
      split at h
      · next hfound =>
        cases h
        exact .receipt (by simpa using hvalid) hfound
      · cases h; exact (hbad _ _ hc).elim
  | blob hash =>
    rw [scanObject] at h
    split at h
    · cases h; exact (hbad _ _ hc).elim
    next hvalid =>
    rcases hmeta : objectMetadata (d.files.lookup (.blob agent hash)) with e | bytes
    · rw [hmeta] at h; cases h; cases hc
    rw [hmeta] at h
    dsimp only at h
    obtain ⟨e, he⟩ | ⟨current, htracked, hb, ho, hab, hao, hok⟩ := st.addUsage_cases agent bytes.length
    · rw [he] at h; cases h
    rw [hok] at h
    dsimp only at h
    obtain ⟨e, st₁, herr⟩ | ⟨control, hcontrol, hroom, hver⟩ :=
      @scanVerified_cases P cfg d (st.charged agent bytes.length false) agent hash bytes
    · rw [herr] at h; cases h; exact (hbad _ _ hc).elim
    rw [hver] at h
    dsimp only at h
    cases h
    -- The object that was counted.
    have hitem : scannedItem P cfg d agent hash = some ⟨agent, hash, bytes, control⟩ := by
      unfold scannedItem
      rw [hmeta]
      dsimp only
      rw [hcontrol]
    have hrooms : ∀ key ∈ Item.owner ⟨agent, hash, bytes, control⟩, st.OwnerRoom key := by
      intro key hkey
      obtain ⟨c, hc', rfl⟩ := Option.map_eq_some_iff.1 hkey
      exact hroom c hc'
    have hscan : Scans P cfg d agent st (.blob hash) (st.book ⟨agent, hash, bytes, control⟩) :=
      .blob (by simpa using hvalid) hitem ⟨htracked, hb, ho, hab, hao, hrooms⟩
    rwa [← book_eq_scanned] at hscan

/-! ## The loops -/

variable (P cfg d) in
/-- A run of the inner loop that meets nothing wrong. -/
inductive ScansAll (agent : String) : CapacityState → List ObjectName → CapacityState → Prop where
  | nil (st : CapacityState) : ScansAll agent st [] st
  | cons {st st₁ st' : CapacityState} {name : ObjectName} {rest : List ObjectName}
      (head : Scans P cfg d agent st name st₁) (tail : ScansAll agent st₁ rest st') :
    ScansAll agent st (name :: rest) st'

variable (P cfg d) in
/-- The objects under the names of an agent's directory. -/
def itemsIn (agent : String) (names : List ObjectName) : List Item :=
  names.filterMap fun
    | .blob hash => scannedItem P cfg d agent hash
    | _ => none

/-- The state of the counters apart from what they count. -/
structure SameFrame (st st' : CapacityState) : Prop where
  limits : st'.limits = st.limits
  consistent : st'.storageConsistent = st.storageConsistent
  complete : st'.reconstructionComplete = st.reconstructionComplete

theorem SameFrame.refl (st : CapacityState) : SameFrame st st := ⟨rfl, rfl, rfl⟩

theorem SameFrame.trans {st₁ st₂ st₃ : CapacityState} (h : SameFrame st₁ st₂)
    (h' : SameFrame st₂ st₃) : SameFrame st₁ st₃ :=
  ⟨h'.limits.trans h.limits, h'.consistent.trans h.consistent, h'.complete.trans h.complete⟩

theorem book_frame (st : CapacityState) (x : Item) : SameFrame st (st.book x) := by
  rw [CapacityState.book, booked_eq]
  exact ⟨rfl, rfl, rfl⟩

/-- Counting an object tracks its agent and nobody else. -/
theorem mem_book_agents {agent : String} (st : CapacityState) (x : Item) :
    agent ∈ (st.book x).agents ↔ agent = x.agent ∨ agent ∈ st.agents := by
  rw [CapacityState.book, booked_eq]
  exact AList.mem_insert _

/-- A good turn leaves the rest of the state alone, and counts what it passes. -/
theorem Scans.spec {name : ObjectName} (h : Scans P cfg d agent st name st') :
    SameFrame st st' ∧ (∀ a, a ∈ st'.agents ↔ a ∈ st.agents) ∧
      ∀ l, Accounts st l → Accounts st' (itemsIn P cfg d agent [name] ++ l) := by
  cases h with
  | receipt valid found => exact ⟨.refl _, fun _ => Iff.rfl, fun l hl => hl⟩
  | @blob hash x current valid item room =>
    have hmem : x.agent ∈ st.agents := by
      rw [← AList.lookup_isSome, room.tracked]; rfl
    refine ⟨book_frame st x, fun a => ?_, fun l hl => ?_⟩
    · rw [mem_book_agents]
      exact ⟨fun h => h.elim (fun h => h ▸ hmem) id, .inr⟩
    · have hone : itemsIn P cfg d agent [.blob hash] = [x] := by
        simp only [itemsIn, List.filterMap_cons, item, List.filterMap_nil]
      rw [hone]
      refine hl.booked hmem ?_ ?_
      · have := room.bytes
        rw [hl.total] at this
        rw [usageOf_cons]
        exact this
      · have := room.objects
        rw [hl.total] at this
        exact this

theorem itemsIn_cons (name : ObjectName) (names : List ObjectName) :
    itemsIn P cfg d agent (name :: names) =
      itemsIn P cfg d agent [name] ++ itemsIn P cfg d agent names := by
  simp only [itemsIn, ← List.filterMap_append, List.singleton_append]

/-- A good run counts every object it passes. -/
theorem ScansAll.spec {names : List ObjectName} (h : ScansAll P cfg d agent st names st') :
    SameFrame st st' ∧ (∀ a, a ∈ st'.agents ↔ a ∈ st.agents) ∧
      ∀ l, Accounts st l → Accounts st' (itemsIn P cfg d agent names ++ l) := by
  induction h with
  | nil st => exact ⟨.refl _, fun _ => Iff.rfl, fun l hl => hl⟩
  | @cons st st₁ st' name rest head tail ih =>
    obtain ⟨hf, hm, ha⟩ := head.spec
    obtain ⟨hf', hm', ha'⟩ := ih
    refine ⟨hf.trans hf', fun a => (hm' a).trans (hm a), fun l hl => ?_⟩
    refine (ha' _ (ha l hl)).perm ?_
    rw [itemsIn_cons name rest, ← List.append_assoc]
    exact List.perm_append_comm.append_right l

/-- A run of the loop after which the storage is consistent met nothing wrong. -/
theorem scansAll_of_scanObjects {names : List ObjectName} :
    ∀ {st : CapacityState} {n n' : Nat},
      scanObjects P cfg d agent names st n = .ok (st', n') → st'.storageConsistent = true →
        ScansAll P cfg d agent st names st' := by
  induction names with
  | nil =>
    intro st n n' h hc
    simp only [scanObjects, Except.ok.injEq, Prod.mk.injEq] at h
    rw [h.1]
    exact .nil st'
  | cons name rest ih =>
    intro st n n' h hc
    rw [scanObjects] at h
    split at h
    · cases h
    rcases hone : scanObject P cfg d agent st name with st₁ | st₁
    · rw [hone] at h; cases h
    rw [hone] at h
    have htail := ih h hc
    have hc₁ : st₁.storageConsistent = true := by rw [← htail.spec.1.consistent]; exact hc
    exact .cons (scans_of_scanObject hone hc₁) htail

theorem track_frame (st : CapacityState) (agent : String) : SameFrame st (st.track agent) := by
  unfold CapacityState.track
  split <;> exact ⟨rfl, rfl, rfl⟩

theorem mem_track (st : CapacityState) (agent a : String) :
    a ∈ (st.track agent).agents ↔ a = agent ∨ a ∈ st.agents := by
  unfold CapacityState.track
  split
  · next h => exact ⟨.inr, fun h' => h'.elim (fun h' => h' ▸ h) id⟩
  · exact AList.mem_insert _

/-- Tracking an agent without objects changes nothing that is counted. -/
theorem Accounts.track {l : List Item} (h : Accounts st l) (agent : String) :
    Accounts (st.track agent) l := by
  unfold CapacityState.track
  split
  · exact h
  next hnew =>
  refine ⟨h.total, fun a ha => ?_, fun x hx => ?_, h.revocations, h.agentRevocations, h.controls,
    h.owners⟩
  · dsimp only at ha ⊢
    by_cases heq : a = agent
    · have hnone : l.filter (·.agent = agent) = [] := by
        rw [List.filter_eq_nil_iff]
        intro x hx hxa
        exact hnew (of_decide_eq_true hxa ▸ h.tracked x hx)
      rw [heq, AList.lookup_insert, hnone]
      rfl
    · rw [AList.lookup_insert_ne heq]
      rw [AList.mem_insert] at ha
      exact h.agents a (ha.resolve_left heq)
  · rw [AList.mem_insert]
    exact .inr (h.tracked x hx)

variable (P cfg d) in
/-- A run of the outer loop that meets nothing wrong. -/
inductive ScansRoot : CapacityState → List RootEntry → CapacityState → Prop where
  | nil (st : CapacityState) : ScansRoot st [] st
  | lock {st st' : CapacityState} {rest : List RootEntry} (tail : ScansRoot st rest st') :
    ScansRoot st (.lock :: rest) st'
  | file {st st' : CapacityState} {name : String} {rest : List RootEntry} (free : name ∉ st.agents)
      (tail : ScansRoot st rest st') : ScansRoot st (.file name :: rest) st'
  | directory {st st₁ st' : CapacityState} {name : String} {entries : List ObjectName}
      {rest : List RootEntry} (valid : validId name)
      (room : name ∈ st.agents ∨ st.agents.entries.length < st.limits.maxTrackedAgents)
      (head : ScansAll P cfg d name (st.track name) entries st₁) (tail : ScansRoot st₁ rest st') :
    ScansRoot st (.directory name entries :: rest) st'

variable (P cfg d) in
/-- The objects of a listing. -/
def rootItems (root : List RootEntry) : List Item :=
  root.flatMap fun
    | .directory name entries => itemsIn P cfg d name entries
    | _ => []

/-- A good scan counts every object of the listing. -/
theorem ScansRoot.spec {root : List RootEntry} (h : ScansRoot P cfg d st root st') :
    SameFrame st st' ∧ ∀ l, Accounts st l → Accounts st' (rootItems P cfg d root ++ l) := by
  induction h with
  | nil st => exact ⟨.refl _, fun l hl => hl⟩
  | lock tail ih => exact ih
  | file free tail ih => exact ih
  | @directory st st₁ st' name entries rest valid room head tail ih =>
    obtain ⟨hf, -, ha⟩ := head.spec
    obtain ⟨hf', ha'⟩ := ih
    refine ⟨((track_frame st name).trans hf).trans hf', fun l hl => ?_⟩
    refine (ha' _ (ha l (hl.track name))).perm ?_
    rw [← List.append_assoc]
    exact List.perm_append_comm.append_right l

/-- A good scan tracks the agents whose directories it passes. -/
theorem ScansRoot.mem_agents {root : List RootEntry} {a : String}
    (h : ScansRoot P cfg d st root st') :
    a ∈ st'.agents ↔ (∃ entries, RootEntry.directory a entries ∈ root) ∨ a ∈ st.agents := by
  induction h with
  | nil st => simp
  | lock tail ih => simp [ih]
  | file free tail ih => simp [ih]
  | @directory st st₁ st' name entries rest valid room head tail ih =>
    obtain ⟨-, hmem, -⟩ := head.spec
    rw [ih, hmem, mem_track]
    simp only [List.mem_cons, RootEntry.directory.injEq]
    constructor
    · rintro (⟨entries', h⟩ | rfl | h)
      · exact .inl ⟨entries', .inr h⟩
      · exact .inl ⟨entries, .inl ⟨rfl, rfl⟩⟩
      · exact .inr h
    · rintro (⟨entries', ⟨rfl, -⟩ | h⟩ | h)
      · exact .inr (.inl rfl)
      · exact .inl ⟨entries', h⟩
      · exact .inr (.inr h)

/-- A scan after which the storage is consistent met nothing wrong. -/
theorem scansRoot_of_scanRoot {root : List RootEntry} :
    ∀ {st : CapacityState} {n n' : Nat},
      scanRoot P cfg d root st n = .ok (st', n') → st'.storageConsistent = true →
        ScansRoot P cfg d st root st' := by
  have hbad : ∀ (st : CapacityState) (code : String), (st.inconsistent code).storageConsistent = true →
      False := fun _ _ h => by cases h
  induction root with
  | nil =>
    intro st n n' h hc
    simp only [scanRoot, Except.ok.injEq, Prod.mk.injEq] at h
    rw [h.1]
    exact .nil st'
  | cons entry rest ih =>
    intro st n n' h hc
    -- A state that goes on to a consistent one is consistent.
    have hback : ∀ {st₁ : CapacityState} {n₁ : Nat}, scanRoot P cfg d rest st₁ n₁ = .ok (st', n') →
        ScansRoot P cfg d st₁ rest st' ∧ st₁.storageConsistent = true := by
      intro st₁ n₁ h₁
      have htail := ih h₁ hc
      exact ⟨htail, by rw [← htail.spec.1.consistent]; exact hc⟩
    cases entry with
    | lock =>
      rw [scanRoot] at h
      split at h
      · cases h
      · exact .lock (hback h).1
    | temporary =>
      rw [scanRoot] at h
      split at h
      · cases h
      · exact (hbad _ _ (hback h).2).elim
    | file name =>
      rw [scanRoot] at h
      split at h
      · cases h
      split at h
      · exact (hbad _ _ (hback h).2).elim
      · next hfree => exact .file hfree (hback h).1
    | directory name entries =>
      rw [scanRoot] at h
      split at h
      · cases h
      split at h
      · exact (hbad _ _ (hback h).2).elim
      next hvalid =>
      split at h
      · cases h
      next hroom =>
      rcases hall : scanObjects P cfg d name entries (st.track name) (n + 1) with e | ⟨st₁, n₁⟩
      · rw [hall] at h; cases h
      rw [hall] at h
      obtain ⟨htail, hc₁⟩ := hback h
      refine .directory (by simpa using hvalid) ?_ (scansAll_of_scanObjects hall hc₁) htail
      rw [not_and_or, not_not, not_le] at hroom
      exact hroom

end Turns

/-! ## The directory and its listings -/

section Listings

variable (P : Primitives) (cfg : ServerConfig) (d : Disk)

/-- The object under a name, if the name is that of an object. -/
def itemAt : Name → Option Item
  | .blob agent hash => scannedItem P cfg d agent hash
  | _ => none

/-- The objects of a directory. -/
def Disk.items : List Item := d.files.keys.filterMap (itemAt P cfg d)

/-- The agents' directories are different, and every file of an agent lies in one of them. -/
structure Disk.WellFormed : Prop where
  directories : d.directories.Nodup
  files : ∀ name agent, name.parent = some agent → d.has name → agent ∈ d.directories
  temporaries : ∀ agent, some agent ∈ d.temporaries → agent ∈ d.directories

/-- Nothing in the agents' directories is out of order. -/
structure Disk.Clean : Prop where
  valid : ∀ agent ∈ d.directories, validId agent
  blobs : ∀ agent hash, d.has (.blob agent hash) →
    validHash hash ∧ ∃ x, scannedItem P cfg d agent hash = some x
  receipts : ∀ agent hash, d.has (.receipt agent hash) →
    validHash hash ∧ d.has (.blob agent hash)
  temporaries : ∀ agent, some agent ∉ d.temporaries

variable {P cfg d} {agent : String} {st st' : CapacityState} {root : List RootEntry}

/-- Of a list without repetitions, one element makes all of a concatenation. -/
theorem flatMap_single {α β : Type} {f : α → List β} {a : α} :
    ∀ {l : List α}, l.Nodup → a ∈ l → (∀ b ∈ l, b ≠ a → f b = []) → l.flatMap f = f a
  | [], _, ha, _ => by cases ha
  | b :: rest, hnd, ha, hf => by
    rw [List.nodup_cons] at hnd
    rw [List.flatMap_cons]
    rcases List.mem_cons.1 ha with rfl | hrest
    · have : rest.flatMap f = [] := by
        rw [List.flatMap_eq_nil_iff]
        intro b hb
        exact hf b (List.mem_cons_of_mem _ hb) (fun heq => hnd.1 (heq ▸ hb))
      rw [this, List.append_nil]
    · have hb : f b = [] := hf b List.mem_cons_self (fun heq => hnd.1 (heq ▸ hrest))
      rw [hb, List.nil_append]
      exact flatMap_single hnd.2 hrest (fun c hc => hf c (List.mem_cons_of_mem _ hc))

theorem Disk.has_iff_mem_keys {name : Name} : d.has name = true ↔ name ∈ d.files.keys := by
  rw [Disk.has, AList.lookup_isSome, AList.mem_keys]

/-- The object of one directory under a name. -/
def itemIn (P : Primitives) (cfg : ServerConfig) (d : Disk) (agent : String) (name : Name) :
    Option Item :=
  if name.parent = some agent then itemAt P cfg d name else none

theorem itemsIn_objectNames (agent : String) :
    itemsIn P cfg d agent (d.objectNames agent) =
      d.files.keys.filterMap (itemIn P cfg d agent) := by
  have hothers : itemsIn P cfg d agent ((d.temporaries.filter (· == some agent)).map fun _ => .other)
      = [] := by
    rw [itemsIn, List.filterMap_eq_nil_iff]
    intro o ho
    obtain ⟨-, -, rfl⟩ := List.mem_map.1 ho
    rfl
  rw [Disk.objectNames, itemsIn, List.filterMap_append, ← itemsIn, ← itemsIn, hothers,
    List.append_nil, itemsIn, List.filterMap_filterMap]
  congr 1
  funext name
  cases name with
  | blob a h =>
    by_cases heq : a = agent
    · simp [Name.inDirectory, itemIn, Name.parent, itemAt, heq]
    · simp [Name.inDirectory, itemIn, Name.parent, heq]
  | receipt a h =>
    by_cases heq : a = agent
    · simp [Name.inDirectory, itemIn, Name.parent, itemAt, heq]
    · simp [Name.inDirectory, itemIn, Name.parent, heq]
  | database => simp [Name.inDirectory, itemIn, Name.parent]
  | marker => simp [Name.inDirectory, itemIn, Name.parent]

/-- Going through the directories one after the other finds every object once. -/
theorem flatMap_itemIn {dirs : List String} (hnd : dirs.Nodup) {keys : List Name}
    (hkeys : ∀ name ∈ keys, ∀ a, name.parent = some a → a ∈ dirs) :
    (dirs.flatMap fun a => keys.filterMap (itemIn P cfg d a)).Perm
      (keys.filterMap (itemAt P cfg d)) := by
  induction keys with
  | nil =>
    have : (dirs.flatMap fun a => ([] : List Name).filterMap (itemIn P cfg d a)) = [] := by
      rw [List.flatMap_eq_nil_iff]; intro a _; rfl
    rw [this]
    exact .nil
  | cons name rest ih =>
    have hsplit : ∀ a, (name :: rest).filterMap (itemIn P cfg d a) =
        (itemIn P cfg d a name).toList ++ rest.filterMap (itemIn P cfg d a) := by
      intro a
      rw [List.filterMap_cons]
      cases itemIn P cfg d a name <;> rfl
    have hone : (dirs.flatMap fun a => (itemIn P cfg d a name).toList) =
        (itemAt P cfg d name).toList := by
      rcases hparent : name.parent with _ | a
      · have hnone : itemAt P cfg d name = none := by
          cases name <;> simp_all [Name.parent, itemAt]
        rw [hnone, Option.toList_none, List.flatMap_eq_nil_iff]
        intro a _
        simp [itemIn, hparent]
      · rw [flatMap_single hnd (hkeys name List.mem_cons_self a hparent)]
        · simp [itemIn, hparent]
        · intro b _ hb
          simp [itemIn, hparent, Ne.symm hb]
    have hhead : (name :: rest).filterMap (itemAt P cfg d) =
        (itemAt P cfg d name).toList ++ rest.filterMap (itemAt P cfg d) := by
      rw [List.filterMap_cons]
      cases itemAt P cfg d name <;> rfl
    simp only [hsplit]
    refine (List.flatMap_append_perm dirs _ _).symm.trans ?_
    rw [hone, hhead]
    exact (ih (fun n hn => hkeys n (List.mem_cons_of_mem _ hn))).append_left _

/-- Every listing of a directory has the same objects. -/
theorem Disk.Lists.items_perm (hlist : d.Lists root) (hwf : d.WellFormed) :
    (rootItems P cfg d root).Perm (d.items P cfg) := by
  obtain ⟨entries, hperm, hsame⟩ := hlist
  refine (hperm.flatMap_right _).trans ?_
  have hcanon : (rootItems P cfg d entries).Perm (rootItems P cfg d d.rootEntries) := by
    clear hperm
    generalize d.rootEntries = canon at hsame
    induction hsame with
    | nil => exact .nil
    | @cons e e' l l' he _ ih =>
      simp only [rootItems, List.flatMap_cons]
      refine List.Perm.append ?_ ih
      cases he with
      | directory name h => exact h.filterMap _
      | _ => exact .refl _
  refine hcanon.trans ?_
  have hroot : rootItems P cfg d d.rootEntries =
      d.directories.flatMap fun a => d.files.keys.filterMap (itemIn P cfg d a) := by
    have hfiles : rootItems P cfg d (d.files.keys.filterMap Name.inRoot ++
        (d.temporaries.filter (· == none)).map fun _ => .temporary) = [] := by
      rw [rootItems, List.flatMap_eq_nil_iff]
      intro e he
      rcases List.mem_append.1 he with he | he
      · obtain ⟨name, -, hname⟩ := List.mem_filterMap.1 he
        cases name <;> simp [Name.inRoot] at hname <;> subst hname <;> rfl
      · obtain ⟨-, -, rfl⟩ := List.mem_map.1 he
        rfl
    rw [Disk.rootEntries, rootItems, List.flatMap_cons, List.flatMap_append, ← rootItems, hfiles,
      List.flatMap_map]
    simp only [List.nil_append, itemsIn_objectNames]
  rw [hroot]
  refine flatMap_itemIn hwf.directories (fun name hname a hparent => ?_)
  exact hwf.files name a hparent (Disk.has_iff_mem_keys.2 hname)

/-- An entry of the directory as a scan should meet it. -/
def RootEntry.Of (d : Disk) : RootEntry → Prop
  | .lock => True
  | .temporary => none ∈ d.temporaries
  | .file name => name = ".argos-bundles.sqlite3" ∨ name = ".argos-bundles.ready"
  | .directory name entries => name ∈ d.directories ∧ entries.Perm (d.objectNames name)

theorem Disk.mem_rootEntries {e : RootEntry} (h : e ∈ d.rootEntries) : e.Of d := by
  rw [Disk.rootEntries] at h
  rcases List.mem_cons.1 h with rfl | h
  · trivial
  rcases List.mem_append.1 h with h | h
  · rcases List.mem_append.1 h with h | h
    · obtain ⟨name, -, hname⟩ := List.mem_filterMap.1 h
      cases name <;> simp [Name.inRoot] at hname <;> subst hname <;> simp [RootEntry.Of]
    · obtain ⟨t, ht, rfl⟩ := List.mem_map.1 h
      obtain ⟨hmem, hnone⟩ := List.mem_filter.1 ht
      rw [beq_iff_eq] at hnone
      subst hnone
      exact hmem
  · obtain ⟨a, ha, rfl⟩ := List.mem_map.1 h
    exact ⟨ha, .refl _⟩

/-- A directory may be listed in the order of `rootEntries`. -/
theorem Disk.lists_rootEntries (d : Disk) : d.Lists d.rootEntries := by
  refine ⟨d.rootEntries, .refl _, List.forall₂_same.2 fun e _ => ?_⟩
  cases e with
  | lock => exact .lock
  | temporary => exact .temporary
  | file name => exact .file name
  | directory name entries => exact .directory name (.refl _)

/-- Every entry of a listing is one of the directory. -/
theorem Disk.Lists.of (hlist : d.Lists root) {e : RootEntry} (h : e ∈ root) : e.Of d := by
  obtain ⟨l, hperm, hsame⟩ := hlist
  obtain ⟨e', he', hrel⟩ := exists_of_forall₂ hsame (hperm.mem_iff.1 h)
  have hof := Disk.mem_rootEntries he'
  cases hrel with
  | directory name hp => exact ⟨hof.1, hp.trans hof.2⟩
  | _ => exact hof

/-- Every directory, and every temporary file in the root, is in a listing. -/
theorem Disk.Lists.complete (hlist : d.Lists root) :
    (∀ agent ∈ d.directories, ∃ entries, .directory agent entries ∈ root) ∧
      (none ∈ d.temporaries → .temporary ∈ root) := by
  obtain ⟨l, hperm, hsame⟩ := hlist
  constructor
  · intro agent hagent
    have hmem : RootEntry.directory agent (d.objectNames agent) ∈ d.rootEntries := by
      refine List.mem_cons_of_mem _ (List.mem_append_right _ ?_)
      exact List.mem_map.2 ⟨agent, hagent, rfl⟩
    obtain ⟨e, he, hrel⟩ := exists_of_forall₂_right hsame hmem
    cases hrel with
    | directory _ hp => exact ⟨_, hperm.mem_iff.2 he⟩
  · intro hnone
    have hmem : RootEntry.temporary ∈ d.rootEntries := by
      refine List.mem_cons_of_mem _ (List.mem_append_left _ (List.mem_append_right _ ?_))
      exact List.mem_map.2 ⟨none, List.mem_filter.2 ⟨hnone, rfl⟩, rfl⟩
    obtain ⟨e, he, hrel⟩ := exists_of_forall₂_right hsame hmem
    cases hrel with
    | temporary => exact hperm.mem_iff.2 he

/-- The directories of a listing are those of the vault. -/
theorem Disk.Lists.directory_iff (hlist : d.Lists root) {a : String} :
    (∃ entries, RootEntry.directory a entries ∈ root) ↔ a ∈ d.directories :=
  ⟨fun ⟨_, h⟩ => (hlist.of h).1, fun h => hlist.complete.1 a h⟩

theorem Disk.mem_objectNames {o : ObjectName} :
    o ∈ d.objectNames agent ↔ match o with
      | .blob hash => d.has (.blob agent hash) = true
      | .receipt hash => d.has (.receipt agent hash) = true
      | .other => some agent ∈ d.temporaries := by
  rw [Disk.objectNames, List.mem_append, List.mem_filterMap, List.mem_map]
  constructor
  · rintro (⟨name, hname, heq⟩ | ⟨t, ht, rfl⟩)
    · rw [← Disk.has_iff_mem_keys] at hname
      cases name with
      | blob a h =>
        simp only [Name.inDirectory, Option.ite_none_right_eq_some, Option.some.injEq] at heq
        obtain ⟨rfl, rfl⟩ := heq
        exact hname
      | receipt a h =>
        simp only [Name.inDirectory, Option.ite_none_right_eq_some, Option.some.injEq] at heq
        obtain ⟨rfl, rfl⟩ := heq
        exact hname
      | database => cases heq
      | marker => cases heq
    · obtain ⟨hmem, hsome⟩ := List.mem_filter.1 ht
      rw [beq_iff_eq] at hsome
      exact hsome ▸ hmem
  · intro h
    cases o with
    | blob hash => exact .inl ⟨_, Disk.has_iff_mem_keys.1 h, by simp [Name.inDirectory]⟩
    | receipt hash => exact .inl ⟨_, Disk.has_iff_mem_keys.1 h, by simp [Name.inDirectory]⟩
    | other => exact .inr ⟨some agent, List.mem_filter.2 ⟨h, by simp⟩, rfl⟩

/-! ## A scan that finds nothing wrong -/

/-- A name of a directory in order. -/
def ObjectName.Good (P : Primitives) (cfg : ServerConfig) (d : Disk) (agent : String) :
    ObjectName → Prop
  | .blob hash => validHash hash ∧ ∃ x, scannedItem P cfg d agent hash = some x
  | .receipt hash => validHash hash ∧ d.has (.blob agent hash)
  | .other => False

theorem ScansAll.good {names : List ObjectName} (h : ScansAll P cfg d agent st names st') :
    ∀ o ∈ names, o.Good P cfg d agent := by
  induction h with
  | nil st => intro o ho; cases ho
  | cons head tail ih =>
    intro o ho
    rcases List.mem_cons.1 ho with rfl | ho
    · cases head with
      | receipt valid found => exact ⟨valid, found⟩
      | blob valid item room => exact ⟨valid, _, item⟩
    · exact ih o ho

theorem ScansRoot.good (h : ScansRoot P cfg d st root st') :
    .temporary ∉ root ∧ ∀ a entries, .directory a entries ∈ root →
      validId a ∧ ∀ o ∈ entries, o.Good P cfg d a := by
  induction h with
  | nil st => exact ⟨by simp, by simp⟩
  | lock tail ih => simpa using ih
  | file free tail ih => simpa using ih
  | directory valid room head tail ih =>
    refine ⟨by simpa using ih.1, fun a entries hmem => ?_⟩
    rcases List.mem_cons.1 hmem with heq | hmem
    · cases heq
      exact ⟨valid, head.good⟩
    · exact ih.2 a entries hmem

/-- A scan that met a limit is not complete. -/
theorem scanObjects_limit {names : List ObjectName} :
    ∀ {st : CapacityState} {n : Nat},
      scanObjects P cfg d agent names st n = .error (.limit, st') →
        st'.reconstructionComplete = false := by
  induction names with
  | nil => intro st n h; cases h
  | cons name rest ih =>
    intro st n h
    rw [scanObjects] at h
    split at h
    · cases h; rfl
    rcases hone : scanObject P cfg d agent st name with st₁ | st₁
    · rw [hone] at h; cases h
    · rw [hone] at h; exact ih h

theorem scanRoot_limit {root : List RootEntry} :
    ∀ {st : CapacityState} {n : Nat}, scanRoot P cfg d root st n = .error (.limit, st') →
      st'.reconstructionComplete = false := by
  induction root with
  | nil => intro st n h; cases h
  | cons entry rest ih =>
    intro st n h
    cases entry with
    | directory name entries =>
      rw [scanRoot] at h
      split at h
      · cases h; rfl
      split at h
      · exact ih h
      split at h
      · cases h; rfl
      rcases hall : scanObjects P cfg d name entries (st.track name) (n + 1) with e | ⟨st₁, n₁⟩
      · rw [hall] at h
        simp only [Except.error.injEq] at h
        exact scanObjects_limit (h ▸ hall)
      · rw [hall] at h; exact ih h
    | _ =>
      rw [scanRoot] at h
      split at h
      · cases h; rfl
      · exact ih h

/-- A scan whose result is consistent and complete was a good one. -/
theorem scansRoot_of_reconstruct
    (hc : (reconstruct P cfg d st root).storageConsistent = true)
    (hcomplete : (reconstruct P cfg d st root).reconstructionComplete = true) :
    ScansRoot P cfg d st root (reconstruct P cfg d st root) := by
  unfold reconstruct at hc hcomplete ⊢
  rcases hrun : scanRoot P cfg d root st 0 with ⟨halt, st₁⟩ | ⟨st₁, n⟩
  · rw [hrun] at hc hcomplete
    cases halt with
    | limit =>
      rw [scanRoot_limit hrun] at hcomplete
      cases hcomplete
    | failed => cases hc
  · rw [hrun] at hc
    exact scansRoot_of_scanRoot hrun hc

/-- A scan whose result is consistent and complete has found the directory clean, and accounts for
its objects. -/
theorem reconstruct_inventory (hlist : d.Lists root) (hwf : d.WellFormed)
    (hstart : Accounts st []) (hc : (reconstruct P cfg d st root).storageConsistent = true)
    (hcomplete : (reconstruct P cfg d st root).reconstructionComplete = true) :
    d.Clean P cfg ∧ none ∉ d.temporaries ∧ SameFrame st (reconstruct P cfg d st root) ∧
      Accounts (reconstruct P cfg d st root) (d.items P cfg) ∧
      ∀ a, a ∈ (reconstruct P cfg d st root).agents ↔ a ∈ d.directories ∨ a ∈ st.agents := by
  have hscan := scansRoot_of_reconstruct hc hcomplete
  obtain ⟨htemp, hgood⟩ := hscan.good
  obtain ⟨hframe, hacc⟩ := hscan.spec
  -- Every name of every directory was passed.
  have hnames : ∀ a ∈ d.directories, validId a ∧ ∀ o ∈ d.objectNames a, o.Good P cfg d a := by
    intro a ha
    obtain ⟨entries, hentry⟩ := hlist.complete.1 a ha
    obtain ⟨hvalid, hall⟩ := hgood a entries hentry
    exact ⟨hvalid, fun o ho => hall o ((hlist.of hentry).2.mem_iff.2 ho)⟩
  refine ⟨⟨fun a ha => (hnames a ha).1, fun a h hb => ?_, fun a h hr => ?_, fun a ha => ?_⟩,
    fun hnone => htemp (hlist.complete.2 hnone), hframe, ?_, fun a => ?_⟩
  · have ha := hwf.files _ a rfl hb
    exact (hnames a ha).2 (.blob h) (Disk.mem_objectNames.2 hb)
  · have ha := hwf.files _ a rfl hr
    exact (hnames a ha).2 (.receipt h) (Disk.mem_objectNames.2 hr)
  · exact (hnames a (hwf.temporaries a ha)).2 .other (Disk.mem_objectNames.2 ha)
  · have := hacc [] hstart
    rw [List.append_nil] at this
    exact this.perm (hlist.items_perm hwf)
  · rw [hscan.mem_agents, hlist.directory_iff]

/-! ## A clean directory -/

/-- The counters can hold a list of objects: no sum is too large, and the bundles that own its
control objects are among at most as many as are tracked. -/
structure Fits (l : List Item) : Prop where
  bytes : (usageOf l).logicalBytes ≤ u64Max
  objects : l.length ≤ u64Max
  owners : ∃ keys : List (String × String), keys.length ≤ 10000 ∧
    ∀ x ∈ l, ∀ key ∈ x.owner, key ∈ keys

theorem Fits.perm {l l' : List Item} (h : Fits l) (hp : l.Perm l') : Fits l' := by
  obtain ⟨keys, hlen, hkeys⟩ := h.owners
  exact ⟨usageOf_perm hp ▸ h.bytes, hp.length_eq ▸ h.objects, keys, hlen,
    fun x hx => hkeys x (hp.mem_iff.2 hx)⟩

/-- The owners that are counted own an object of the list. -/
theorem Accounts.mem_owners {l : List Item} (h : Accounts st l) {key : String × String} :
    key ∈ st.bundleControlOwners ↔ ∃ x ∈ l, x.owner = some key := by
  rw [← AList.lookup_isSome, h.owners, ownerEntry]
  split
  · next hzero =>
    simp only [Option.isSome_none, Bool.false_eq_true, false_iff, not_exists, not_and]
    intro x hx hkey
    exact List.count_eq_zero.1 hzero (List.mem_filterMap.2 ⟨x, hx, hkey⟩)
  · next hpos =>
    simp only [Option.isSome_some, true_iff]
    rw [List.count_eq_zero, not_not] at hpos
    exact List.mem_filterMap.1 hpos

/-- There is room for one more object of what fits. -/
theorem Accounts.room {l : List Item} {x : Item} (h : Accounts st l) (hfits : Fits (x :: l))
    (htracked : x.agent ∈ st.agents) : ∃ current, st.Room x current := by
  have hb := hfits.bytes
  have ho := hfits.objects
  rw [usageOf_cons] at hb
  simp only [ObjectUsage.add, List.length_cons] at hb ho
  obtain ⟨hab, hao⟩ := usageOf_filter_le (fun y => decide (y.agent = x.agent)) l
  refine ⟨_, h.agents x.agent htracked, ?_, ?_, by omega, ?_, fun key hkey => ?_⟩
  · rw [h.total]; exact hb
  · rw [h.total]; exact ho
  · simp only [usageOf] at hao ⊢
    omega
  · by_cases hmem : key ∈ st.bundleControlOwners
    · exact .inl hmem
    -- The new owner and the counted ones are different and among the tracked.
    obtain ⟨keys, hlen, hkeys⟩ := hfits.owners
    have hnodup : (key :: st.bundleControlOwners.keys).Nodup :=
      List.nodup_cons.2 ⟨hmem, st.bundleControlOwners.keys_nodup⟩
    have hsub : key :: st.bundleControlOwners.keys ⊆ keys := by
      intro k hk
      rcases List.mem_cons.1 hk with rfl | hk
      · exact hkeys x List.mem_cons_self k hkey
      · obtain ⟨y, hy, hyk⟩ := h.mem_owners.1 (AList.mem_keys.2 hk)
        exact hkeys y (List.mem_cons_of_mem _ hy) k hyk
    have hle := (List.subperm_of_subset hnodup hsub).length_le
    have hkeys : st.bundleControlOwners.keys.length = st.bundleControlOwners.entries.length := by
      simp [AList.keys, List.keys]
    rw [List.length_cons, hkeys] at hle
    exact .inr (by omega)

end Listings

end Argos.Vault
