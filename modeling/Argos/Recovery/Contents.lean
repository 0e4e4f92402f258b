import Argos.Recovery.Incidents

/-!
# Every version has its content

A version is indexed after its object is stored, and an object is removed when no version refers to
it any more. `prune` removes the objects of the versions that it deletes before its deletion is
committed: when it is stopped in between, the deletion is undone and the objects are gone. `Careful`
is the condition under which a step does not do that, and `content_kept` says that it is what a run
needs for every version to be readable.
-/

namespace Argos.Recovery

open Argos.Lib
open Argos.Vault (Bytes saturatingAdd u64Max)

/-! ## A prune that is stopped -/

/-- The object files that the loop of `prune` has removed when it ends or is stopped. -/
def removedBy : Plan → List String → List String
  | _, [] => []
  | [], names => names
  | none :: plan, name :: rest => name :: removedBy plan rest
  | some .kill :: _, _ :: _ => []
  | some .refuse :: plan, _ :: rest => removedBy plan rest
  | some .misreport :: plan, name :: rest => name :: removedBy plan rest

/-- `prune` is not stopped before its deletion is committed: the process is not killed in the loop,
and the commit goes well. -/
def commits : Plan → List String → Bool
  | [], _ => true
  | step :: _, [] => step.isNone
  | some .kill :: _, _ :: _ => false
  | _ :: plan, _ :: rest => commits plan rest

/-- The object files without those of some names. -/
def without (objects : Map String Bytes) (names : List String) : Map String Bytes :=
  names.foldl (fun objects name => objects.erase name) objects

theorem lookup_without (objects : Map String Bytes) (names : List String) (name : String) :
    (without objects names).lookup name = if name ∈ names then none else objects.lookup name := by
  induction names generalizing objects with
  | nil => rfl
  | cons first rest ih =>
    rw [without, List.foldl_cons]
    have hrest := ih (objects.erase first)
    rw [without] at hrest
    rw [hrest]
    by_cases heq : name = first
    · subst heq
      simp [AList.lookup_erase]
    · simp [heq, AList.lookup_erase_ne heq]

theorem removedBy_subset (plan : Plan) (names : List String) :
    ∀ name ∈ removedBy plan names, name ∈ names := by
  fun_induction removedBy plan names with
  | case1 => simp
  | case2 => simp
  | case3 plan name rest ih =>
    intro n hn
    rcases List.mem_cons.1 hn with rfl | hn
    · exact List.mem_cons_self
    · exact List.mem_cons_of_mem _ (ih n hn)
  | case4 => simp
  | case5 plan name rest ih => exact fun n hn => List.mem_cons_of_mem _ (ih n hn)
  | case6 plan name rest ih =>
    intro n hn
    rcases List.mem_cons.1 hn with rfl | hn
    · exact List.mem_cons_self
    · exact List.mem_cons_of_mem _ (ih n hn)

section Prune

variable {s : Store}

/-- The store after the loop of `prune`, as far as it came. -/
def Store.removing (s : Store) (plan : Plan) (names : List String) : Store :=
  { s with objects := without s.objects (removedBy plan names) }

/-- The loop of `prune` ends, or the process is killed in it. -/
theorem removeObjects_run (plan : Plan) (names : List String) :
    ∃ plan', (removeObjects names plan s = (.ok (), plan', s.removing plan names) ∧
        commits plan names = commits plan' []) ∨
      (removeObjects names plan s = (.killed, plan', s.removing plan names) ∧
        commits plan names = false) := by
  induction names generalizing plan s with
  | nil =>
    refine ⟨plan, .inl ⟨?_, ?_⟩⟩
    · cases plan <;> rfl
    · rfl
  | cons name rest ih =>
    rcases plan with _ | ⟨_ | fault, plan⟩
    · obtain ⟨plan', h⟩ := @ih { s with objects := s.objects.erase name } []
      exact ⟨plan', by cases rest <;> exact h⟩
    · exact @ih { s with objects := s.objects.erase name } plan
    · cases fault with
      | kill => exact ⟨plan, .inr ⟨rfl, rfl⟩⟩
      | refuse => exact @ih s plan
      | misreport => exact @ih { s with objects := s.objects.erase name } plan

/-- A commit that goes well, and one that does not. -/
theorem commit_run (plan : Plan) (index : Index) :
    (commits plan [] = true → ∃ plan', commit index plan s = (.ok (), plan', { s with index := index }))
      ∧ (commits plan [] = false → ∃ outcome plan', outcome ≠ .ok () ∧
        commit index plan s = (outcome, plan', s)) := by
  rcases plan with _ | ⟨_ | fault, plan⟩
  · exact ⟨fun _ => ⟨[], rfl⟩, fun h => absurd h (by simp [commits])⟩
  · exact ⟨fun _ => ⟨plan, rfl⟩, fun h => absurd h (by simp [commits])⟩
  · refine ⟨fun h => absurd h (by simp [commits]), fun _ => ?_⟩
    cases fault with
    | kill => exact ⟨_, plan, by simp, rfl⟩
    | refuse => exact ⟨_, plan, by simp, rfl⟩
    | misreport => exact ⟨_, plan, by simp, rfl⟩

/-- The store that `prune` leaves: the objects are gone as far as the loop came, and the versions
when the deletion was committed. -/
theorem prune_store (keep : Nat) (listing : List String) (plan : Plan) :
    (prune keep listing plan s).2.2 =
      if commits plan ((s.index.pruned keep).unreferenced listing) then
        { s.removing plan ((s.index.pruned keep).unreferenced listing) with
          index := s.index.pruned keep }
      else s.removing plan ((s.index.pruned keep).unreferenced listing) := by
  set dead := (s.index.pruned keep).unreferenced listing with hdead
  have hprune : prune keep listing plan s =
      (removeObjects dead >>= fun _ => commit (s.index.pruned keep) >>= fun _ =>
        pure (s.index.versions.length - (s.index.pruned keep).versions.length)) plan s := rfl
  rw [hprune]
  obtain ⟨plan', ⟨hloop, hsame⟩ | ⟨hloop, hcut⟩⟩ := @removeObjects_run s plan dead
  · rw [Prog.bind_run_ok hloop, hsame]
    rcases hcommit : commits plan' [] with _ | _
    · obtain ⟨outcome, plan'', hne, hrun⟩ := (@commit_run (s.removing plan dead) plan' _).2 hcommit
      rw [Prog.bind_run, hrun]
      cases outcome with
      | ok u => exact absurd rfl hne
      | error e => rfl
      | killed => rfl
    · obtain ⟨plan'', hrun⟩ := (@commit_run (s.removing plan dead) plan' _).1 hcommit
      rw [Prog.bind_run_ok hrun]
      rfl
  · rw [Prog.bind_run, hloop, hcut]
    rfl

end Prune

/-! ## What the store holds -/

section Stock

variable {D : Digest} {s s' : Store}

/-- Every version has its content: an object file whose digest is that of the version. -/
def Complete (D : Digest) (s : Store) : Prop :=
  ∀ v ∈ s.index.versions, ∃ data, s.objects.lookup v.hash = some data ∧ D.hash data = v.hash

/-- The versions and the objects are of contents whose digest was taken. -/
structure Stocked (D : Digest) (s : Store) : Prop where
  versions : ∀ v ∈ s.index.versions, ∃ data ∈ s.hashed, D.hash data = v.hash ∧
    data.length = v.size ∧ v.size ≤ u64Max
  objects : ∀ name content, name.utf8ByteSize = 64 → s.objects.lookup name = some content →
    content ∈ s.hashed ∧ D.hash content = name

theorem Stocked.size (h : Stocked D s) {v : BackupVersion} (hv : v ∈ s.index.versions) :
    v.hash.utf8ByteSize = 64 := by
  obtain ⟨data, -, hhash, -⟩ := h.versions v hv
  rw [← hhash]
  exact D.size data

/-- Where something is stored under the digest of a version, it is the content of the version. -/
theorem Stocked.complete_iff (h : Stocked D s) :
    Complete D s ↔ ∀ v ∈ s.index.versions, (s.objects.lookup v.hash).isSome := by
  refine ⟨fun hall v hv => ?_, fun hall v hv => ?_⟩
  · obtain ⟨data, hdata, -⟩ := hall v hv
    rw [hdata]
    rfl
  · obtain ⟨content, hcontent⟩ := Option.isSome_iff_exists.1 (hall v hv)
    exact ⟨content, hcontent, (h.objects _ _ (h.size hv) hcontent).2⟩

/-- The versions are among those that were there. -/
theorem Stocked.of_versions (h : Stocked D s) (hhashed : s'.hashed = s.hashed)
    (hversions : ∀ v ∈ s'.index.versions, ∃ w ∈ s.index.versions, v.hash = w.hash ∧ v.size = w.size)
    (hobjects : ∀ name content, name.utf8ByteSize = 64 → s'.objects.lookup name = some content →
      s.objects.lookup name = some content) : Stocked D s' := by
  refine ⟨fun v hv => ?_, fun name content hname hcontent => ?_⟩
  · obtain ⟨w, hw, hhash, hsize⟩ := hversions v hv
    rw [hhash, hsize, hhashed]
    exact h.versions w hw
  · rw [hhashed]
    exact h.objects name content hname (hobjects name content hname hcontent)

/-- A content was put in its place, or not. -/
theorem Stocked.placed {data : Bytes} (h : Stocked D s)
    (hplaced : Placed (D.hash data) data (s.hashing data) s') :
    Stocked D s' ∧ (Complete D s → Complete D s') := by
  have hobjects : ∀ name content, name.utf8ByteSize = 64 → s'.objects.lookup name = some content →
      content ∈ data :: s.hashed ∧ D.hash content = name := by
    intro name content hname hcontent
    rcases hplaced.objects name hname with hsame | ⟨rfl, hnew⟩
    · rw [hsame] at hcontent
      obtain ⟨hmem, hhash⟩ := h.objects name content hname hcontent
      exact ⟨List.mem_cons_of_mem _ hmem, hhash⟩
    · rw [hnew, Option.some.injEq] at hcontent
      rw [← hcontent]
      exact ⟨List.mem_cons_self, rfl⟩
  have hstocked : Stocked D s' := by
    refine ⟨fun v hv => ?_, ?_⟩
    · rw [hplaced.index] at hv
      obtain ⟨d, hd, hrest⟩ := h.versions v hv
      rw [hplaced.hashed]
      exact ⟨d, List.mem_cons_of_mem _ hd, hrest⟩
    · rw [hplaced.hashed]
      exact hobjects
  refine ⟨hstocked, fun hcomplete => hstocked.complete_iff.2 fun v hv => ?_⟩
  rw [hplaced.index] at hv
  obtain ⟨d, hd, -⟩ := hcomplete v hv
  rcases hplaced.objects _ (h.size hv) with hsame | ⟨-, hnew⟩
  · rw [hsame]
    exact Option.isSome_iff_exists.2 ⟨d, hd⟩
  · rw [hnew]
    rfl

/-- A version was added after its object. -/
theorem Stocked.added {path : Path} {data : Bytes} {timestampMs pid : Nat} (h : Stocked D s)
    (hdata : data.length ≤ u64Max) (hadded : Added D path data timestampMs pid s s') :
    Stocked D s' ∧ (Complete D s → Complete D s') := by
  obtain ⟨hbefore, hkept⟩ := h.placed hadded.placed
  have hinserted := hadded.inserted
  simp only [Index.insertVersion, Prog.answer_bind_iff, Except.ok.injEq] at hinserted
  obtain ⟨id, -, heq⟩ := hinserted
  have hversions : s'.index.versions = s.index.versions ++
      [⟨id, path.text, D.hash data, data.length, asI64 timestampMs, pid, false, none⟩] := by
    rw [← heq]
  have hhashed : s'.hashed = data :: s.hashed := hadded.placed.hashed
  have hstocked : Stocked D s' := by
    refine ⟨fun v hv => ?_, hbefore.objects⟩
    rw [hversions] at hv
    rcases List.mem_append.1 hv with hv | hv
    · exact hbefore.versions v hv
    · rw [List.mem_singleton.1 hv, hhashed]
      exact ⟨data, List.mem_cons_self, rfl, rfl, hdata⟩
  refine ⟨hstocked, fun hcomplete => hstocked.complete_iff.2 fun v hv => ?_⟩
  rw [hversions] at hv
  rcases List.mem_append.1 hv with hv | hv
  · exact hbefore.complete_iff.1 (hkept hcomplete) v hv
  · rw [List.mem_singleton.1 hv]
    exact Option.isSome_iff_exists.2 hadded.present

/-- What holds of a store and is kept, wherever a call stops. -/
def Keeps (D : Digest) (s s' : Store) : Prop :=
  Stocked D s → Stocked D s' ∧ (Complete D s → Complete D s')

theorem Keeps.refl : Keeps D s s := fun h => ⟨h, id⟩

/-- Other versions with the same contents, and the same objects. -/
theorem Keeps.of_objects (hhashed : s'.hashed = s.hashed) (hobjects : s'.objects = s.objects)
    (hversions : ∀ v ∈ s'.index.versions, ∃ w ∈ s.index.versions, v.hash = w.hash ∧ v.size = w.size) :
    Keeps D s s' := by
  intro h
  have hstocked : Stocked D s' :=
    h.of_versions hhashed hversions fun name content _ hcontent => hobjects ▸ hcontent
  refine ⟨hstocked, fun hcomplete => hstocked.complete_iff.2 fun v hv => ?_⟩
  obtain ⟨w, hw, hhash, -⟩ := hversions v hv
  rw [hhash, hobjects]
  exact h.complete_iff.1 hcomplete w hw

/-- A backup never leaves a version without its content. -/
theorem backup_keeps {limit : Nat} {path : Path} {source : Option Source}
    {timestampMs pid process counter : Nat} :
    (backup D limit path source timestampMs pid process counter).Sat s (fun _ => Keeps D s)
      (Keeps D s) (Keeps D s) := by
  unfold backup
  have hskip : ∀ e, (do recordOversizedSkip path; Prog.fail e : Op (Option String)).Sat s
      (fun _ => Keeps D s) (Keeps D s) (Keeps D s) := by
    intro e
    refine Prog.Sat.bind (Prog.Sat.atomic (Prog.Sat.fail ?_) .refl .refl)
    exact .of_objects rfl rfl fun v hv => ⟨v, hv, rfl, rfl⟩
  cases source with
  | none => exact Prog.Sat.fail .refl
  | some file =>
    refine Prog.Sat.ite (fun _ => Prog.Sat.pure .refl) (fun _ => ?_)
    refine Prog.Sat.ite (fun _ => hskip _) (fun _ => ?_)
    cases file.content with
    | none => exact Prog.Sat.fail .refl
    | some content =>
      refine Prog.Sat.ite (fun _ => hskip _) (fun _ => ?_)
      have hsize : (content.take (saturatingAdd limit 1)).length ≤ u64Max :=
        (List.length_take_le _ _).trans (min_le_right _ _)
      refine storeVersion_sat.mono (fun reply s' h => ?_) (fun _ h hs => hs.placed h)
        (fun _ h hs => hs.placed h)
      rcases h with ⟨-, rfl, -⟩ | ⟨-, h⟩
      · exact fun hs => hs.placed .refl
      · exact fun hs => hs.added hsize h

/-- The object files and the contents that were hashed are the same. -/
def SameFiles (s s' : Store) : Prop := s'.hashed = s.hashed ∧ s'.objects = s.objects

/-- The calls on references touch no object. -/
theorem Call.files {call : Call} (hcall : call.retains) :
    (call.prog D).Sat s (fun _ => SameFiles s) (SameFiles s) (SameFiles s) := by
  have hsame : SameFiles s s := ⟨rfl, rfl⟩
  have hask : ∀ {α β : Type} {g : Store → Result α} {f : α → Op β} {Q : β → Store → Prop},
      (∀ a, (f a).Sat s Q (SameFiles s) (SameFiles s)) →
      (Prog.ask g >>= f).Sat s Q (SameFiles s) (SameFiles s) :=
    fun h => Prog.Sat.bind (Prog.Sat.ask (fun a _ => h a) hsame)
  cases call with
  | backup => cases hcall
  | prune => cases hcall
  | pinVersion =>
    exact Prog.Sat.bind (hask fun _ => hask fun _ => hask fun _ =>
      commit_sat (Prog.Sat.pure ⟨rfl, rfl⟩) hsame hsame)
  | pinKnownGoodBefore =>
    exact Prog.Sat.bind (hask fun _ => hask fun _ => hask fun _ =>
      commit_sat (Prog.Sat.pure ⟨rfl, rfl⟩) hsame hsame)
  | releasePin =>
    exact Prog.Sat.bind (hask fun _ => commit_sat (Prog.Sat.pure ⟨rfl, rfl⟩) hsame hsame)
  | releaseIncident =>
    exact Prog.Sat.bind (hask fun _ => hask fun _ =>
      commit_sat (Prog.Sat.pure ⟨rfl, rfl⟩) hsame hsame)

/-- The calls on references touch no version and no object, wherever they stop. -/
theorem Call.untouched {call : Call} (hbooked : Booked s.index) (hcall : call.retains) (plan : Plan) :
    SameFiles s (call.prog D plan s).2.2 ∧
      (call.prog D plan s).2.2.index.versions = s.index.versions := by
  have heffect := (call.effect hbooked : (call.prog D).Sat _ _ _ _) plan
  have hfiles := (Call.files hcall : (call.prog D).Sat s _ _ _) plan
  rcases hprog : call.prog D plan s with ⟨outcome, plan', s'⟩
  rw [hprog] at heffect hfiles
  have hstopped : SameTables s.index s'.index → s'.index.versions = s.index.versions := by
    intro h
    rw [h]
  cases outcome with
  | ok reply => exact ⟨hfiles, Effect.versions heffect hbooked hcall⟩
  | error e => exact ⟨hfiles, hstopped heffect⟩
  | killed => exact ⟨hfiles, hstopped heffect⟩

/-- The answer of a call is made of what its operation returns. -/
theorem Call.prog_store {α : Type} (op : Op α) (reply : α → Reply) (plan : Plan) :
    ((op >>= fun a => pure (reply a)) plan s).2.2 = (op plan s).2.2 := by
  rw [Prog.bind_run]
  rcases op plan s with ⟨_ | _ | _, _, _⟩ <;> rfl

/-- A call other than `prune` keeps what the store holds, wherever it stops. -/
theorem Call.keeps {call : Call} (hbooked : Booked s.index) (hcall : ∀ keep listing,
    call ≠ .prune keep listing) (plan : Plan) : Keeps D s (call.prog D plan s).2.2 := by
  by_cases hretains : call.retains
  · obtain ⟨hsame, hversions⟩ := Call.untouched (D := D) hbooked hretains plan
    exact .of_objects hsame.1 hsame.2 fun v hv => ⟨v, hversions ▸ hv, rfl, rfl⟩
  · cases call with
    | backup =>
      rw [Call.prog, Call.prog_store]
      exact backup_keeps.stops plan
    | prune keep listing => exact absurd rfl (hcall keep listing)
    | _ => exact absurd rfl hretains

/-- An object that is left by the loop of `prune` was there. -/
theorem Store.removing_lookup {plan : Plan} {names : List String} {name : String} {content : Bytes}
    (h : (s.removing plan names).objects.lookup name = some content) :
    s.objects.lookup name = some content := by
  rw [Store.removing, lookup_without] at h
  split at h
  · cases h
  · exact h

/-- Wherever `prune` stops, what is left is of contents whose digest was taken. -/
theorem prune_stocked (h : Stocked D s) (keep : Nat) (listing : List String) (plan : Plan) :
    Stocked D (prune keep listing plan s).2.2 := by
  rw [prune_store]
  split
  · exact h.of_versions rfl (fun v hv => ⟨v, List.mem_of_mem_filter hv, rfl, rfl⟩)
      fun _ _ _ => Store.removing_lookup
  · exact h.of_versions rfl (fun v hv => ⟨v, hv, rfl, rfl⟩) fun _ _ _ => Store.removing_lookup

/-- What `prune` keeps, and when it keeps the contents. -/
theorem prune_keeps (h : Stocked D s) (hcomplete : Complete D s) (keep : Nat) (listing : List String)
    (plan : Plan) : Stocked D (prune keep listing plan s).2.2 ∧
      (Complete D (prune keep listing plan s).2.2 ↔
        commits plan ((s.index.pruned keep).unreferenced listing) = true ∨
        ∀ name ∈ removedBy plan ((s.index.pruned keep).unreferenced listing),
          name ∉ s.index.versions.map (·.hash)) := by
  set dead := (s.index.pruned keep).unreferenced listing with hdead
  have hpresent := h.complete_iff.1 hcomplete
  have hstocked := prune_stocked h keep listing plan
  refine ⟨hstocked, ?_⟩
  rw [prune_store] at hstocked ⊢
  rcases hcommits : commits plan dead with _ | _
  · -- The versions are as before, and some objects are gone.
    rw [← hdead, hcommits] at hstocked
    rw [if_neg Bool.false_ne_true] at hstocked ⊢
    rw [hstocked.complete_iff]
    refine ⟨fun hall => .inr fun name hname hmem => ?_, fun hor v hv => ?_⟩
    · obtain ⟨v, hv, rfl⟩ := List.mem_map.1 hmem
      have hsome := hall v hv
      rw [Store.removing, lookup_without, if_pos hname] at hsome
      cases hsome
    · rcases hor with hfalse | hspared
      · cases hfalse
      · rw [Store.removing, lookup_without, if_neg fun hmem => hspared _ hmem (List.mem_map_of_mem hv)]
        exact hpresent v hv
  · -- What was removed belongs to no version that is left.
    rw [← hdead, hcommits] at hstocked
    rw [if_pos rfl] at hstocked ⊢
    refine iff_of_true ?_ (.inl rfl)
    rw [hstocked.complete_iff]
    intro v hv
    have hlive : v.hash ∉ removedBy plan dead := by
      intro hmem
      have hnot := (List.mem_filter.1 (removedBy_subset plan dead _ hmem)).2
      exact (of_decide_eq_true hnot) (List.mem_map_of_mem hv)
    show ((without s.objects (removedBy plan dead)).lookup v.hash).isSome
    rw [lookup_without, if_neg hlive]
    exact hpresent v (List.mem_of_mem_filter hv)

end Stock

/-! ## Runs -/

section Runs

variable {D : Digest} {sys : Sys}

/-- No `prune` is stopped, by a kill or by a commit that fails, after it has removed an object file
that is named by a version. -/
def Careful (sys : Sys) : Event → Plan → Prop
  | .call (.prune keep listing), plan =>
    commits plan ((sys.store.index.pruned keep).unreferenced listing) = true ∨
      ∀ name ∈ removedBy plan ((sys.store.index.pruned keep).unreferenced listing),
        name ∉ sys.store.index.versions.map (·.hash)
  | _, _ => True

/-- The systems that are reached by careful steps. -/
inductive CarefulRun (D : Digest) : Sys → Prop where
  | start : CarefulRun D {}
  | step {sys : Sys} {event : Event} {plan : Plan} (run : CarefulRun D sys)
      (careful : Careful sys event plan) : CarefulRun D (sys.next D event plan)

theorem CarefulRun.reached (h : CarefulRun D sys) : Reached D sys := by
  induction h with
  | start => exact ⟨[], rfl⟩
  | @step sys event plan run careful ih =>
    obtain ⟨script, rfl⟩ := ih
    refine ⟨script ++ [(event, plan)], ?_⟩
    rw [Sys.play_append]
    rfl

/-- One step: what the store holds is kept, and the contents if and only if the step is careful. -/
theorem next_keeps (hledger : Ledger sys) (h : Stocked D sys.store) (hcomplete : Complete D sys.store)
    (event : Event) (plan : Plan) : Stocked D (sys.next D event plan).store ∧
      (Complete D (sys.next D event plan).store ↔ Careful sys event plan) := by
  have hkeeps : ∀ {s' : Store}, Keeps D sys.store s' → Stocked D s' ∧ Complete D s' :=
    fun hk => ⟨(hk h).1, (hk h).2 hcomplete⟩
  cases event with
  | call call =>
    by_cases hprune : ∃ keep listing, call = .prune keep listing
    · obtain ⟨keep, listing, rfl⟩ := hprune
      have hstore : (sys.next D (.call (.prune keep listing)) plan).store =
          (prune keep listing plan sys.store).2.2 := by
        rw [Sys.next_call, Call.prog, Call.prog_store]
      rw [hstore]
      exact prune_keeps h hcomplete keep listing plan
    · have hcareful : Careful sys (.call call) plan := by
        cases call with
        | prune keep listing => exact absurd ⟨keep, listing, rfl⟩ hprune
        | _ => trivial
      have hcall := Call.keeps (D := D) hledger.booked
        (fun keep listing heq => hprune ⟨keep, listing, heq⟩) plan
      rw [Sys.next_call]
      exact ⟨(hkeeps hcall).1, iff_of_true (hkeeps hcall).2 hcareful⟩
  | begin j =>
    have hstore : (sys.next D (.begin j) plan).store = sys.store := (Sys.next_begin j).1
    rw [hstore]
    exact ⟨h, iff_of_true hcomplete trivial⟩
  | proceed i =>
    have hcases := @Sys.next_proceed D sys plan i
    rcases hcases with ⟨hstore, -⟩ | ⟨j, version, -, hstore, -⟩
    · rw [hstore]
      exact ⟨h, iff_of_true hcomplete trivial⟩
    · rw [hstore]
      have hjudged : Keeps D sys.store (sys.store.judged version j) := by
        refine .of_objects rfl rfl fun v hv => ?_
        obtain ⟨w, hw, rfl⟩ := List.mem_map.1 hv
        refine ⟨w, hw, ?_⟩
        split <;> exact ⟨rfl, rfl⟩
      obtain ⟨hstocked, hkept⟩ := hkeeps hjudged
      exact ⟨hstocked, iff_of_true hkept trivial⟩

theorem CarefulRun.stocked (h : CarefulRun D sys) : Stocked D sys.store ∧ Complete D sys.store := by
  induction h with
  | start =>
    refine ⟨⟨fun v hv => ?_, fun name content _ hcontent => ?_⟩, fun v hv => ?_⟩
    · cases hv
    · cases hcontent
    · cases hv
  | @step sys event plan run careful ih =>
    obtain ⟨script, hscript⟩ := run.reached
    have hledger : Ledger sys := hscript ▸ (Ledger.initial.play script).1
    obtain ⟨hstocked, hiff⟩ := next_keeps hledger ih.1 ih.2 event plan
    exact ⟨hstocked, hiff.2 careful⟩

/-- No two contents whose digest was taken have the same one. -/
def NoCollision (D : Digest) (s : Store) : Prop :=
  ∀ a ∈ s.hashed, ∀ b ∈ s.hashed, D.hash a = D.hash b → a = b

/-- A version whose object is there is read back whole. -/
theorem Stocked.read {s : Store} (h : Stocked D s) (hinj : NoCollision D s) {v : BackupVersion}
    (hv : v ∈ s.index.versions) {content : Bytes} (hcontent : s.objects.lookup v.hash = some content) :
    readVerified D s v = .ok content ∧ content.length = v.size := by
  obtain ⟨hmem, hhash⟩ := h.objects _ _ (h.size hv) hcontent
  obtain ⟨data, hdata, hdataHash, hlength, hmax⟩ := h.versions v hv
  have heq : content = data := hinj content hmem data hdata (hhash.trans hdataHash.symm)
  subst heq
  have hname : (v.hash.utf8ByteSize != 64 || !(Vault.bytesOf v.hash).all isAsciiHexdigit) = false := by
    have hnamed := D.named content
    rw [hhash, Bool.and_eq_true] at hnamed
    simp [hnamed.2, bne, hnamed.1]
  -- The whole content fits in what is read.
  have htake : content.take (saturatingAdd v.size 1) = content := by
    refine List.take_of_length_le ?_
    rw [hlength, saturatingAdd]
    exact le_min (Nat.le_succ _) hmax
  refine ⟨?_, hlength⟩
  simp only [readVerified, refuse, hname, hcontent, htake, hhash, bne_self_eq_false]
  rfl

/-- A version of a stocked store that has its content can be read. -/
theorem Stocked.readVerified {s : Store} (h : Stocked D s) (hcomplete : Complete D s)
    (hinj : NoCollision D s) {v : BackupVersion} (hv : v ∈ s.index.versions) :
    ∃ data, Recovery.readVerified D s v = .ok data ∧ D.hash data = v.hash ∧ data.length = v.size := by
  obtain ⟨content, hcontent, hhash⟩ := hcomplete v hv
  obtain ⟨hread, hlength⟩ := h.read hinj hv hcontent
  exact ⟨content, hread, hhash, hlength⟩

/-- A backup that found the content as the latest version has stored it. -/
theorem backup_none {s s' : Store} {limit : Nat} {path : Path} {file : Source} {content : Bytes}
    {timestampMs pid process counter : Nat} {plan plan' : Plan} (hfile : file.isFile)
    (hcontent : file.content = some content)
    (hrun : backup D limit path (some file) timestampMs pid process counter plan s =
      (.ok none, plan', s')) :
    s'.objects = s.objects ∧ ∃ v ∈ s.index.versions, v.path = path.text ∧
      v.hash = D.hash (content.take (saturatingAdd limit 1)) := by
  have hsat : (backup D limit path (some file) timestampMs pid process counter).Sat s
      (fun reply s' => reply = none → s'.objects = s.objects ∧
        s.index.latestHash path = some (D.hash (content.take (saturatingAdd limit 1))))
      (fun _ => True) (fun _ => True) := by
    have hskip : ∀ {e} {Q : Option String → Store → Prop},
        (do recordOversizedSkip path; Prog.fail e : Op (Option String)).Sat s Q (fun _ => True)
          (fun _ => True) :=
      Prog.Sat.bind (Prog.Sat.atomic (Prog.Sat.fail trivial) trivial trivial)
    unfold backup
    refine Prog.Sat.ite (fun hnot => absurd hfile (by simpa using hnot)) (fun _ => ?_)
    refine Prog.Sat.ite (fun _ => hskip) (fun _ => ?_)
    rw [hcontent]
    refine Prog.Sat.ite (fun _ => hskip) (fun _ => ?_)
    refine storeVersion_sat.mono (fun reply s' h hnone => ?_) (fun _ _ => trivial) (fun _ _ => trivial)
    rcases h with ⟨-, rfl, hlatest⟩ | ⟨hsome, -⟩
    · exact ⟨rfl, hlatest⟩
    · rw [hnone] at hsome
      cases hsome
  obtain ⟨hobjects, hlatest⟩ := hsat.of_ok hrun rfl
  refine ⟨hobjects, ?_⟩
  -- The latest version is a row of the path.
  rw [Index.latestHash, Option.map_eq_some_iff] at hlatest
  obtain ⟨v, hv, hhash⟩ := hlatest
  have hmem := (List.perm_insertionSort _ _).mem_iff.1 (List.mem_of_head? hv)
  obtain ⟨hrow, hpath⟩ := List.mem_filter.1 hmem
  exact ⟨v, hrow, by simpa using hpath, hhash⟩

/-- After careful steps every version has its content and can be read back, and a backup that stores
nothing because the content is that of the latest version is of a content that is stored. A further
step keeps all this if and only if it is careful. -/
theorem content_kept (hrun : CarefulRun D sys) :
    (∀ v ∈ sys.store.index.versions, ∃ data, sys.store.objects.lookup v.hash = some data ∧
      D.hash data = v.hash) ∧
    (NoCollision D sys.store → ∀ v ∈ sys.store.index.versions, ∃ data,
      readVerified D sys.store v = .ok data ∧ D.hash data = v.hash ∧ data.length = v.size) ∧
    (∀ limit path file content timestampMs pid process counter plan plan' s', file.isFile →
      file.content = some content →
      backup D limit path (some file) timestampMs pid process counter plan sys.store =
        (.ok none, plan', s') →
      ∃ data, s'.objects.lookup (D.hash (content.take (saturatingAdd limit 1))) = some data ∧
        D.hash data = D.hash (content.take (saturatingAdd limit 1))) ∧
    ∀ event plan, Complete D (sys.next D event plan).store ↔ Careful sys event plan := by
  obtain ⟨hstocked, hcomplete⟩ := hrun.stocked
  obtain ⟨script, hscript⟩ := hrun.reached
  have hledger : Ledger sys := hscript ▸ (Ledger.initial.play script).1
  refine ⟨hcomplete, fun hinj v hv => hstocked.readVerified hcomplete hinj hv, ?_,
    fun event plan => (next_keeps hledger hstocked hcomplete event plan).2⟩
  intro limit path file content timestampMs pid process counter plan plan' s' hfile hcontent hbackup
  obtain ⟨hobjects, v, hv, -, hhash⟩ := backup_none hfile hcontent hbackup
  obtain ⟨data, hdata, hdataHash⟩ := hcomplete v hv
  rw [hobjects, ← hhash]
  exact ⟨data, hdata, hdataHash⟩

/-- Two contents of a file are backed up, and a prune that keeps one version is killed before its
commit. -/
def sampleCut : List (Event × Plan) :=
  [sampleBackup [1] 10, sampleBackup [2] 20,
    (.call (.prune 1 [sampleDigest.hash [1], sampleDigest.hash [2]]), [none, some .kill])]

/-- The first version is still indexed, and its object is gone. -/
theorem cut_prune_loses_content : ¬ ∀ sys, Reached sampleDigest sys → Complete sampleDigest sys.store := by
  intro hall
  have hlost : (samplePlay sampleCut).store.index.versions.any (fun v =>
      ((samplePlay sampleCut).store.objects.lookup v.hash).isNone) = true := by decide +kernel
  obtain ⟨v, hv, hnone⟩ := List.any_eq_true.1 hlost
  obtain ⟨data, hdata, -⟩ := hall _ ⟨sampleCut, rfl⟩ v hv
  rw [show (samplePlay sampleCut).store.objects.lookup v.hash = some data from hdata] at hnone
  cases hnone

/-- The same calls without the kill. -/
def sampleWhole : List (Event × Plan) :=
  [sampleBackup [1] 10, sampleBackup [2] 20,
    (.call (.prune 1 [sampleDigest.hash [1], sampleDigest.hash [2]]), [])]

theorem content_kept_one_prune :
    (samplePlay sampleWhole).store.index.versions ≠ [] ∧
      ∀ v ∈ (samplePlay sampleWhole).store.index.versions, ∃ data,
        readVerified sampleDigest (samplePlay sampleWhole).store v = .ok data := by
  have hversions : (samplePlay sampleWhole).store.index.versions.length = 1 ∧
      ((samplePlay sampleWhole).store.hashed.map sampleDigest.hash).Nodup := by decide +kernel
  have hinj : NoCollision sampleDigest (samplePlay sampleWhole).store :=
    fun a ha b hb => List.inj_on_of_nodup_map hversions.2 ha hb
  have hfirst : CarefulRun sampleDigest (samplePlay [sampleBackup [1] 10]) :=
    @CarefulRun.step _ _ (sampleBackup [1] 10).1 [] .start trivial
  have hsecond : CarefulRun sampleDigest (samplePlay [sampleBackup [1] 10, sampleBackup [2] 20]) :=
    @CarefulRun.step _ _ (sampleBackup [2] 20).1 [] hfirst trivial
  have hcareful : CarefulRun sampleDigest (samplePlay sampleWhole) :=
    @CarefulRun.step _ _ (.call (.prune 1 [sampleDigest.hash [1], sampleDigest.hash [2]])) [] hsecond
      (.inl rfl)
  refine ⟨fun hnil => ?_, fun v hv => ?_⟩
  · rw [hnil] at hversions
    cases hversions.1
  · obtain ⟨data, hdata, -⟩ := (content_kept hcareful).2.1 hinj v hv
    exact ⟨data, hdata⟩

end Runs

end Argos.Recovery
