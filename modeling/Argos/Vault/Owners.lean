import Argos.Vault.Withheld

/-!
# The owners of control objects

The counters keep, for every bundle, how many control objects it has. `Owned` is what they say of
themselves: every counted bundle has a valid identifier and an object, the counter of all is their
sum, and no more were counted than objects were charged, so none of the unchecked additions wraps. A
put that is counted keeps it, a scan establishes it, and a put that fails marks the storage
inconsistent, so it holds in every reachable server whose storage is consistent (`Run.owned`).
-/

namespace Argos.Vault

open Argos.Lib

/-- The table of owners is in order. -/
structure Owned (st : CapacityState) : Prop where
  keys : ∀ key n, st.bundleControlOwners.lookup key = some n → validBundleId key.2 ∧ 0 < n
  sum : st.bundleControlObjects = sumOver id st.bundleControlOwners
  within : sumOver id st.bundleControlOwners ≤ st.total.objects
  fits : st.total.objects ≤ u64Max

section Owned

variable {P : Primitives} {cfg : ServerConfig} {st st' : CapacityState} {agent bundle : String}

/-- A change after which no fewer objects are charged and the owners are the same. -/
theorem Owned.of_owners (h : Owned st) (howners : st'.bundleControlOwners = st.bundleControlOwners)
    (hobjects : st'.bundleControlObjects = st.bundleControlObjects)
    (hle : st.total.objects ≤ st'.total.objects) (hfits : st'.total.objects ≤ u64Max) :
    Owned st' := by
  refine ⟨?_, ?_, ?_, hfits⟩
  · rw [howners]
    exact h.keys
  · rw [hobjects, howners]
    exact h.sum
  · rw [howners]
    exact h.within.trans hle

/-- One more control object of a bundle, after its object was charged. -/
theorem Owned.noted (h : Owned st) (hid : validBundleId bundle)
    (hroom : sumOver id st.bundleControlOwners + 1 ≤ st.total.objects) :
    Owned (st.noted agent bundle) := by
  have hfits := h.fits
  have hle := weight_valueAt_le id rfl st.bundleControlOwners (agent, bundle)
  -- Neither the count of the bundle nor that of all wraps.
  have hone : wrappingAdd (valueAt st.bundleControlOwners (agent, bundle)) 1 =
      valueAt st.bundleControlOwners (agent, bundle) + 1 :=
    CapacityState.wrappingAdd_one (by simp only [id] at hle; omega)
  have hall : wrappingAdd st.bundleControlObjects 1 = st.bundleControlObjects + 1 :=
    CapacityState.wrappingAdd_one (by rw [h.sum]; omega)
  have hbump := sumOver_bump id rfl st.bundleControlOwners (agent, bundle) (wrappingAdd · 1)
  simp only [id, hone] at hbump
  have hsum : sumOver id (st.noted agent bundle).bundleControlOwners =
      sumOver id st.bundleControlOwners + 1 := by
    show sumOver id (bump st.bundleControlOwners (agent, bundle) (wrappingAdd · 1)) = _
    omega
  refine ⟨fun key n hkey => ?_, ?_, ?_, hfits⟩
  · have hkey : (bump st.bundleControlOwners (agent, bundle) (wrappingAdd · 1)).lookup key = some n :=
      hkey
    rw [lookup_bump] at hkey
    split at hkey
    · next heq =>
      subst heq
      rw [hone, Option.some.injEq] at hkey
      exact ⟨hid, by omega⟩
    · exact h.keys key n hkey
  · rw [hsum]
    show wrappingAdd st.bundleControlObjects 1 = _
    rw [hall, h.sum]
  · rw [hsum]
    exact hroom

/-- The bundle of a control object has a valid identifier. -/
theorem controlIdentity_valid {kind key keyId : String} {bytes : Bytes} {revoked : Bool}
    (h : controlIdentity P kind bytes agent keyId key = .ok (bundle, revoked)) :
    validBundleId bundle := by
  unfold controlIdentity at h
  split at h
  · rcases hdec : P.manifest.decode bytes with _ | manifest
    · rw [hdec] at h
      cases h
    · rw [hdec] at h
      simp only [Result.check_ok_iff, Except.ok.injEq, Prod.mk.injEq] at h
      obtain ⟨hvalid, rfl, -⟩ := h
      exact (validate_ok hvalid).1
  split at h
  · rcases hdec : P.signedCompletion.decode bytes with _ | signed
    · rw [hdec] at h
      cases h
    · rw [hdec] at h
      simp only [Result.check_ok_iff, refuse_ok_iff, Except.ok.injEq, Prod.mk.injEq,
        Bool.or_eq_false_iff, Bool.not_eq_false'] at h
      obtain ⟨-, ⟨⟨⟨⟨⟨-, hid⟩, -⟩, -⟩, -⟩, -⟩, rfl, -⟩ := h
      exact hid
  split at h
  · rcases hdec : P.signedReview.decode bytes with _ | signed
    · rw [hdec] at h
      cases h
    · rw [hdec] at h
      simp only [Result.check_ok_iff, refuse_ok_iff, Except.ok.injEq, Prod.mk.injEq,
        Bool.or_eq_false_iff, Bool.not_eq_false'] at h
      obtain ⟨-, -, ⟨⟨⟨⟨⟨⟨-, hid⟩, -⟩, -⟩, -⟩, -⟩, -⟩, rfl, -⟩ := h
      exact hid
  · cases h

theorem controlOf_valid {kind : String} {bytes : Bytes} {revoked : Bool}
    (h : controlOf P cfg agent kind bytes = .ok (some (bundle, revoked))) : validBundleId bundle := by
  unfold controlOf at h
  split at h
  · rcases hid : controlIdentity P kind bytes agent cfg.keyId cfg.key.publicHex with e | ⟨b, v⟩
    · rw [hid] at h
      cases h
    · rw [hid] at h
      cases h
      exact controlIdentity_valid hid
  · cases h

/-- A put that is counted. -/
theorem Owned.booked {n : Nat} {revocation : Bool} {control : Option (String × Bool)} (h : Owned st)
    (hfits : st.total.objects + 1 ≤ u64Max) (hcontrol : ∀ c ∈ control, validBundleId c.1) :
    Owned (st.booked agent n revocation control) := by
  -- Up to the note, the put has charged one object and left the owners alone.
  set charged := (st.charged agent n (revocation && st.revocationEnabled)).markReceipted agent
    with hcharged
  set marked := if revocation then charged.markRevocationReceipted agent else charged with hmarked
  have hsame : marked.bundleControlOwners = st.bundleControlOwners ∧
      marked.bundleControlObjects = st.bundleControlObjects ∧
      marked.total.objects = st.total.objects + 1 := by
    have hfirst : charged.bundleControlOwners = st.bundleControlOwners ∧
        charged.bundleControlObjects = st.bundleControlObjects ∧
        charged.total.objects = st.total.objects + 1 := by
      rw [hcharged]
      cases revocation && st.revocationEnabled <;> exact ⟨rfl, rfl, rfl⟩
    rw [hmarked]
    split
    · unfold CapacityState.markRevocationReceipted
      split <;> exact hfirst
    · exact hfirst
  obtain ⟨howners, hobjects, htotal⟩ := hsame
  have howned : Owned marked := h.of_owners howners hobjects (by omega) (by omega)
  rcases control with _ | ⟨bundle, revoked⟩
  · exact howned
  · refine howned.noted (hcontrol _ rfl) ?_
    have := h.within
    rw [howners, htotal]
    omega

/-! ## The scan -/

theorem scannedControl_valid {d : Disk} {hash : String} {bytes : Bytes} {revoked : Bool}
    (h : scannedControl P cfg d agent hash bytes = .ok (some (bundle, revoked))) :
    validBundleId bundle := by
  simp only [scannedControl, Result.bind_ok_iff, exists_unit_iff] at h
  obtain ⟨raw, -, receipt, -, -, -, h⟩ := h
  split at h
  · rw [Result.check_ok_iff, Result.check_ok_iff] at h
    obtain ⟨-, -, h⟩ := h
    rcases hid : controlIdentity P receipt.receipt.kind bytes agent cfg.keyId cfg.key.publicHex
      with e | ⟨b, v⟩
    · rw [hid] at h
      cases h
    · rw [hid] at h
      cases h
      exact controlIdentity_valid hid
  · cases h

theorem Owned.inconsistent (h : Owned st) (code : String) : Owned (st.inconsistent code) :=
  h.of_owners rfl rfl le_rfl h.fits

/-- The state after one entry, whether the scan goes on or not. -/
def scannedOne : Except CapacityState CapacityState → CapacityState
  | .ok st => st
  | .error st => st

/-- One entry of an agent's directory. -/
theorem Owned.scanObject {d : Disk} (h : Owned st) (name : ObjectName) :
    Owned (scannedOne (scanObject P cfg d agent st name)) := by
  cases name with
  | other => exact h.inconsistent _
  | receipt hash =>
    simp only [Argos.Vault.scanObject]
    split
    · exact h.inconsistent _
    split
    · exact h
    · exact h.inconsistent _
  | blob hash =>
    simp only [Argos.Vault.scanObject]
    by_cases hvalid : (!validHash hash) = true
    · rw [if_pos hvalid]
      exact h.inconsistent _
    rw [if_neg hvalid]
    rcases hmeta : objectMetadata (d.files.lookup (.blob agent hash)) with e | bytes
    · rw [hmeta]
      exact h.of_owners rfl rfl le_rfl h.fits
    rw [hmeta]
    dsimp only
    obtain ⟨e, he⟩ | ⟨current, -, -, hfits, -, -, hok⟩ := st.addUsage_cases agent bytes.length
    · rw [he]
      exact h
    rw [hok]
    dsimp only
    -- The object is charged; if it is a control object it is counted for its bundle.
    have hcharged : Owned (st.charged agent bytes.length false) :=
      h.of_owners rfl rfl (Nat.le_succ _) hfits
    have hroom : sumOver id (st.charged agent bytes.length false).bundleControlOwners + 1 ≤
        (st.charged agent bytes.length false).total.objects := Nat.succ_le_succ h.within
    unfold scanVerified
    rcases hcontrol : scannedControl P cfg d agent hash bytes with e | _ | ⟨bundle, revoked⟩
    · exact hcharged.inconsistent _
    · exact hcharged.of_owners rfl rfl le_rfl hcharged.fits
    dsimp only
    obtain ⟨-, e, he⟩ | ⟨-, hnoted⟩ :=
      (st.charged agent bytes.length false).noteControl_cases agent bundle
    · rw [he]
      exact (hcharged.inconsistent _).inconsistent _
    · rw [hnoted]
      dsimp only
      have howned : Owned ((st.charged agent bytes.length false).noted agent bundle) :=
        hcharged.noted (scannedControl_valid hcontrol) hroom
      refine howned.of_owners ?_ ?_ ?_ ?_
      all_goals
        unfold CapacityState.markReceipted
        split
        · unfold CapacityState.markRevocationReceipted
          split
          · first | rfl | exact le_rfl | exact howned.fits
          · first | rfl | exact le_rfl | exact howned.fits
        · first | rfl | exact le_rfl | exact howned.fits

/-- The state in which a loop of the scan ended. -/
def scanned : Except (Halt × CapacityState) (CapacityState × Nat) → CapacityState
  | .ok (st, _) => st
  | .error (_, st) => st

theorem Owned.overLimit (h : Owned st) : Owned (overLimit st) := h.of_owners rfl rfl le_rfl h.fits

theorem Owned.scanObjects {d : Disk} (h : Owned st) (names : List ObjectName) (n : Nat) :
    Owned (scanned (scanObjects P cfg d agent names st n)) := by
  induction names generalizing st n with
  | nil => exact h
  | cons name rest ih =>
    unfold Argos.Vault.scanObjects
    split
    · exact h.overLimit
    have hone : Owned (scannedOne (Argos.Vault.scanObject P cfg d agent st name)) := h.scanObject name
    rcases hscan : Argos.Vault.scanObject P cfg d agent st name with st' | st'
    · rw [hscan] at hone
      exact hone
    · rw [hscan] at hone
      exact ih hone _

theorem Owned.scanRoot {d : Disk} (h : Owned st) (root : List RootEntry) (n : Nat) :
    Owned (scanned (scanRoot P cfg d root st n)) := by
  induction root generalizing st n with
  | nil => exact h
  | cons entry rest ih =>
    unfold Argos.Vault.scanRoot
    split
    · exact h.overLimit
    cases entry with
    | lock => exact ih h _
    | temporary => exact ih (h.inconsistent _) _
    | file name =>
      dsimp only
      split
      · exact ih (h.inconsistent _) _
      · exact ih h _
    | directory name entries =>
      dsimp only
      split
      · exact ih (h.inconsistent _) _
      split
      · exact h.of_owners rfl rfl le_rfl h.fits
      have htrack : Owned (st.track name) := by
        unfold CapacityState.track
        split
        · exact h
        · exact h.of_owners rfl rfl le_rfl h.fits
      have hobjects :
          Owned (scanned (Argos.Vault.scanObjects P cfg d name entries (st.track name) (n + 1))) :=
        htrack.scanObjects entries (n + 1)
      rcases hscan : Argos.Vault.scanObjects P cfg d name entries (st.track name) (n + 1)
        with halted | ⟨st', n'⟩
      · rw [hscan] at hobjects
        exact hobjects
      · rw [hscan] at hobjects
        exact ih hobjects n'

theorem Owned.reconstruct {d : Disk} (h : Owned st) (root : List RootEntry) :
    Owned (reconstruct P cfg d st root) := by
  have hscan : Owned (scanned (Argos.Vault.scanRoot P cfg d root st 0)) := h.scanRoot root 0
  unfold Argos.Vault.reconstruct
  rcases hres : Argos.Vault.scanRoot P cfg d root st 0 with ⟨halt, st'⟩ | ⟨st', n⟩
  · rw [hres] at hscan
    cases halt with
    | limit => exact hscan
    | failed => exact hscan.of_owners rfl rfl le_rfl hscan.fits
  · rw [hres] at hscan
    exact hscan

/-- The counters with which a process starts. -/
theorem Owned.prepare {limits : CapacityConfig} {agents : List String}
    (h : CapacityState.prepare limits agents = .ok st) : Owned st := by
  have heq := (CapacityState.prepare_ok h).1
  rw [heq]
  refine ⟨fun key n hkey => ?_, rfl, Nat.zero_le _, Nat.zero_le _⟩
  have : (∅ : Map (String × String) Nat).lookup key = some n := hkey
  cases this

end Owned

/-! ## Runs -/

section Runs

variable {P : Primitives} {cfg : ServerConfig} {s s' : Server}

/-- The table of owners is in order while the storage is consistent. -/
def OwnedWhile (s : Server) : Prop := s.capacity.storageConsistent = true → Owned s.capacity

theorem Act.owned (hact : Act P cfg s s') (h : OwnedWhile s) : OwnedWhile s' := by
  -- Only a put touches the counters.
  cases hact with
  | put origin ends =>
    intro hconsistent
    obtain ⟨receipt, hfound | hadd⟩ | href := ends
    · rw [hfound.state] at hconsistent ⊢
      exact h hconsistent
    · obtain ⟨current, hadmitted⟩ := hadd.admitted
      obtain ⟨control, hcontrol, -, -, rfl⟩ := hadd.state
      refine (h hadmitted.consistent).booked hadmitted.totalObjects fun c hc => ?_
      obtain ⟨bundle, revoked⟩ := c
      rw [Option.mem_def] at hc
      rw [hc] at hcontrol
      exact controlOf_valid hcontrol
    · obtain ⟨-, hsame⟩ | hinconsistent := href.books
      · rw [hsame] at hconsistent ⊢
        have howned := h hconsistent
        exact howned.of_owners rfl rfl le_rfl howned.fits
      · rw [hinconsistent] at hconsistent
        cases hconsistent
  | root parent free touched =>
    rw [OwnedWhile, touched.capacity]
    exact h
  | _ => exact h

theorem Acts.owned (hacts : Acts P cfg s s') (h : OwnedWhile s) : OwnedWhile s' := by
  induction hacts with
  | refl => exact h
  | tail _ hact ih => exact hact.owned ih

theorem Restarted.owned (h : Restarted P cfg s s') : OwnedWhile s' := by
  obtain ⟨st₀, root, hst₀, -, rfl⟩ := h
  exact fun _ => (Owned.prepare hst₀).reconstruct root

theorem Moves.owned (hmoves : Moves P cfg s s') (h : OwnedWhile s) : OwnedWhile s' := by
  cases hmoves with
  | acts hacts => exact hacts.owned h
  | restarted _ hr => exact hr.owned

/-- In every server that is reached, the table of owners is in order while the storage is
consistent. -/
theorem Run.owned {st₀ : CapacityState} {sys : System}
    (hst₀ : CapacityState.prepare cfg.capacity cfg.agents = .ok st₀)
    (hrun : Run P cfg (.initial st₀) sys) : OwnedWhile sys.server := by
  induction hrun with
  | refl => exact fun _ => .prepare hst₀
  | tail hrun hstep ih =>
    have hreach := (Reached.initial st₀ : Reached P cfg _).run hrun
    exact (hstep.moves hreach.begun).owned ih

/-- The tables are in the database file. -/
def Filed (s : Server) : Prop := s.catalog.isSome → s.disk.has .database

theorem Filed.evolves (h : Filed s) (hev : Evolves s s') (hcat : s'.catalog.isSome → s.catalog.isSome) :
    Filed s' := by
  intro hsome
  obtain ⟨file, hfile⟩ := Option.isSome_iff_exists.1 (h (hcat hsome))
  rw [Disk.has, hev.disk.files _ _ hfile]
  rfl

theorem Act.filed (hact : Act P cfg s s') (h : Filed s) : Filed s' := by
  have hev := hact.evolves
  cases hact with
  | put origin ends =>
    refine h.evolves hev fun hsome => ?_
    obtain ⟨receipt, hput⟩ | hput := ends
    · rwa [(put_leaves hput).1] at hsome
    · rwa [hput.catalog] at hsome
  | root parent free touched => exact h.evolves hev fun hsome => by rwa [touched.catalog] at hsome
  | create free written => exact fun _ => written
  | _ => exact h.evolves hev fun hsome => by simpa [Server.onCatalog, Server.intending] using hsome

theorem Run.filed {st₀ : CapacityState} {sys : System} (hrun : Run P cfg (.initial st₀) sys) :
    Filed sys.server := by
  have hacts : ∀ {s s' : Server}, Acts P cfg s s' → Filed s → Filed s' := by
    intro s s' hacts h
    induction hacts with
    | refl => exact h
    | tail _ hact ih => exact hact.filed ih
  induction hrun with
  | refl => exact fun h => by cases h
  | tail hrun hstep ih =>
    have hreach := (Reached.initial st₀ : Reached P cfg _).run hrun
    cases hstep.moves hreach.begun with
    | acts h => exact hacts h ih
    | restarted h hr =>
      obtain ⟨s₁, h, hstop⟩ := h
      exact ((hacts h ih).evolves hstop.evolves fun hsome => by rwa [hstop.catalog] at hsome).evolves
        hr.evolves fun hsome => by rwa [hr.catalog] at hsome

end Runs

end Argos.Vault
