import Argos.Lib.Leases
import Argos.Queue.Sample
import Argos.Queue.Transactions

/-!
# Leases of a queue

Items and jobs are leased by the same protocol, written twice in the source with different updates.
A worker that `claim` or `claim_job` gave a lease works without the lock, for as long as it likes,
and comes back with `finish` or `finish_job`. Here the rows of both tables are read as the leases of
`Lib/Leases.lean`: every step of a run is one act on them (`Leased.step`), and so is every run
(`Leased.run`). From it follow that two leases of one row never overlap, and that a lease which
another has replaced, or which was finished, has no effect any more.
-/

namespace Argos.Queue

open Argos.Lib
open Argos.Lib.Leases (Held Act Run Step Free Lost ofRows)
open Argos.Vault (Bytes Error SignedReceipt BundleRecord sampleBody)

/-- What is leased. -/
inductive Leased where
  | item
  | job

def ItemRow.lease (row : ItemRow) : Option (String × Nat) :=
  row.leaseToken.bind fun token => row.leaseExpiresMs.map (token, ·)

def JobRow.lease (row : JobRow) : Option (String × Nat) :=
  row.leaseToken.bind fun token => row.leaseExpiresMs.map (token, ·)

namespace Leased

/-- Who holds the rows of some tables. -/
def held : Leased → Database → Held String String
  | .item, db => ofRows (fun r => r.id) ItemRow.lease db.items
  | .job, db => ofRows (fun j => j.bundleId) JobRow.lease db.jobs

/-- Who holds the rows of a queue. -/
def heldAt (kind : Leased) (d : Disk) : Held String String :=
  match d.db? with
  | none => fun _ => none
  | some db => kind.held db

/-- An event claims. -/
def claims : Leased → Event → Bool
  | .item, .claim .. => true
  | .job, .claimJob .. => true
  | _, _ => false

/-- The token, the time and the end of the lease that an event asks for. -/
def claimed : Leased → Event → Option (String × Nat × Nat)
  | .item, .claim _ timeoutSecs now clock (some token) =>
      some (token.val, timeOf now clock, leaseExpires (timeOf now clock) timeoutSecs)
  | .job, .claimJob _ timeoutSecs now clock (some token) =>
      some (token.val, timeOf now clock, leaseExpires (timeOf now clock) timeoutSecs)
  | _, _ => none

/-- The row and the token of the lease that an event finishes, and the time. -/
def finished : Leased → Sys → Event → Option (String × String × Nat)
  | .item, sys, .finish i _ _ now clock =>
      sys.leases[i]?.map fun lease => (lease.item.id, lease.token, timeOf now clock)
  | .job, sys, .finishJob i _ _ now clock =>
      sys.jobLeases[i]?.map fun lease => (lease.job.bundleId, lease.token, timeOf now clock)
  | _, _, _ => none

/-- The row and the token of the lease that a call has given out. -/
def given : Leased → Done → Option (String × String)
  | .item, .claim (.ok (some lease)) => some (lease.item.id, lease.token)
  | .job, .claimJob (.ok (some lease)) => some (lease.job.bundleId, lease.token)
  | _, _ => none

/-- A call has returned that its lease was still good. -/
def accepted : Leased → Done → Bool
  | .item, .finish _ _ (.ok true) => true
  | .job, .finishJob _ _ (.ok true) => true
  | _, _ => false

end Leased

section Fencing

variable (F : Formats)

/-- A step ends a call with this outcome. -/
def Sys.Returns (sys : Sys) (event : Event) (plan : Plan) (done : Done) : Prop :=
  (sys.next F event plan).log = sys.log ++ [done]

/-- What an event does to the leases. -/
inductive Leased.Does (kind : Leased) (sys : Sys) (event : Event) (plan : Plan) :
    Act String String → Prop where
  | idle (ungiven : ∀ done, sys.Returns F event plan done → kind.given done = none)
      (refused : (kind.finished sys event).isSome →
        (sys.next F event plan).disk.db? = sys.disk.db? ∧
          ∀ done, sys.Returns F event plan done → kind.accepted done = false) :
      Does kind sys event plan .idle
  | granted {key token : String} {now expires : Nat}
      (claimed : kind.claimed event = some (token, now, expires))
      (given : ∀ done p, sys.Returns F event plan done → kind.given done = some p → p = (key, token)) :
      Does kind sys event plan (.granted key token now expires)
  | settled {key token : String} {now : Nat}
      (finished : kind.finished sys event = some (key, token, now))
      (ungiven : ∀ done, sys.Returns F event plan done → kind.given done = none) :
      Does kind sys event plan (.settled key token now)

variable {F} {sys : Sys} {db db' : Database} {target : QueueTarget} {kind : Leased}

/-! ## Transactions -/

theorem ItemRow.lease_owned {row : ItemRow} {id token : String} {now : Nat}
    (h : row.owned id token now) : row.id = id ∧ ∃ expires, row.lease = some (token, expires) ∧
      now < expires := by
  simp only [ItemRow.owned, Bool.and_eq_true, beq_iff_eq] at h
  obtain ⟨⟨hid, htoken⟩, hexpires⟩ := h
  obtain ⟨expires, hsome, hnow⟩ := (Option.any_eq_true _ _).1 hexpires
  refine ⟨hid, expires, ?_, by simpa using hnow⟩
  rw [ItemRow.lease, htoken, hsome]
  rfl

theorem JobRow.lease_owned {row : JobRow} {id token : String} {now : Nat}
    (h : row.owned id token now) : row.bundleId = id ∧ ∃ expires,
      row.lease = some (token, expires) ∧ now < expires := by
  simp only [JobRow.owned, JobRow.held, Bool.and_eq_true, beq_iff_eq] at h
  obtain ⟨⟨hid, htoken⟩, hexpires⟩ := h
  obtain ⟨expires, hsome, hnow⟩ := (Option.any_eq_true _ _).1 hexpires
  refine ⟨hid, expires, ?_, by simpa using hnow⟩
  rw [JobRow.lease, htoken, hsome]
  rfl

/-- A row whose lease has ended is free. -/
theorem free_of_all {token : Option String} {expires : Option Nat} {now : Nat}
    (h : expires.all (· ≤ now)) : Free (token.bind fun t => expires.map (t, ·)) now := by
  intro p hp
  rcases token with _ | t
  · cases hp
  rcases expires with _ | e
  · cases hp
  cases hp
  simpa using h

theorem Enqueued.held {kind' : String} {limits : QueueLimits} {id : RandomId} {now : Nat}
    (h : Enqueued kind' limits id now db db') (kind : Leased) : kind.held db' = kind.held db := by
  obtain ⟨-, -, hash, size, -, -, hins⟩ := h
  obtain ⟨-, rfl⟩ := insertItem_ok_iff.1 hins
  cases kind with
  | item => exact Leases.ofRows_append fun r hr => by rw [List.mem_singleton.1 hr]; rfl
  | job => rfl

theorem linkRows_held {now : Nat} (kind : Leased) : ∀ {refs : List BundleChunkRef}
    {db db' : Database}, linkRows now refs db = .ok db' → kind.held db' = kind.held db := by
  intro refs
  induction refs with
  | nil =>
    intro db db' h
    cases h
    rfl
  | cons ref rest ih =>
    intro db db' h
    simp only [linkRows] at h
    split at h
    · exact ih h
    · obtain ⟨-, -, h⟩ := Vault.Result.bind_ok_iff.1 h
      obtain ⟨next, hins, hrest⟩ := Vault.Result.bind_ok_iff.1 h
      obtain ⟨-, rfl⟩ := insertItem_ok_iff.1 hins
      refine (ih hrest).trans ?_
      cases kind with
      | item => exact Leases.ofRows_append fun r hr => by rw [List.mem_singleton.1 hr]; rfl
      | job => rfl

theorem BundleRegistered.held {b : Bundle} {r : BundleReadings}
    (h : BundleRegistered F target b r db db') (kind : Leased) : kind.held db' = kind.held db := by
  obtain ⟨-, -, -, refs, linked, job, -, hlinked, hins, -⟩ := h
  refine Eq.trans ?_ (linkRows_held kind hlinked)
  rw [Database.insertJob] at hins
  split at hins
  · cases hins
  cases hins
  cases kind with
  | item => rfl
  | job => exact Leases.ofRows_append fun r hr => by rw [List.mem_singleton.1 hr]; rfl

theorem ItemLeased.step {token : RandomId} {timeoutSecs now : Nat} {row : ItemRow}
    (hsound : Sound F db) (h : ItemLeased token timeoutSecs now row db db') :
    Step (Leased.item.held db) (.granted row.id token.val now (leaseExpires now timeoutSecs))
      (Leased.item.held db') := by
  obtain ⟨hrow, hdue, rfl⟩ := h
  simp only [ItemRow.due, Bool.and_eq_true] at hdue
  have hfree : Free row.lease now := free_of_all hdue.2
  refine Leases.step_grant hsound.itemIds hrow hfree (fun r => ?_) (fun r hne => ?_) ?_
  · split <;> rfl
  · exact if_neg hne
  · rw [if_pos rfl]
    rfl

theorem JobLeased.step {token : RandomId} {timeoutSecs now : Nat} {row : JobRow}
    (hsound : Sound F db) (h : JobLeased F target token timeoutSecs now row db db') :
    Step (Leased.job.held db) (.granted row.bundleId token.val now (leaseExpires now timeoutSecs))
      (Leased.job.held db') := by
  obtain ⟨hrow, hdue, job, -, -, rfl⟩ := h
  simp only [Database.dueJob, Bool.and_eq_true] at hdue
  have hfree : Free row.lease now := free_of_all hdue.1.2
  refine Leases.step_grant hsound.jobIds hrow hfree (fun r => ?_) (fun r hne => ?_) ?_
  · split <;> rfl
  · exact if_neg (by simpa using hne)
  · rw [if_pos (by simp)]
    rfl

/-- A held row has the token. -/
theorem ItemRow.held_iff {row : ItemRow} {id token : String} :
    row.held id token = true ↔ row.id = id ∧ row.leaseToken = some token := by
  simp [ItemRow.held]

theorem JobRow.held_iff {row : JobRow} {id token : String} :
    row.held id token = true ↔ row.bundleId = id ∧ row.leaseToken = some token := by
  simp [JobRow.held]

theorem ItemFinished.step {lease : Lease} {result : Except String SignedReceipt} {now : Nat}
    (hsound : Sound F db) (h : ItemFinished F target lease result now db db') :
    Step (Leased.item.held db) (.settled lease.item.id lease.token now) (Leased.item.held db') := by
  obtain ⟨howned, hresult⟩ := h
  obtain ⟨row, hrow, howned⟩ := List.any_eq_true.1 howned
  have hheld : row.held lease.item.id lease.token := by
    simp only [ItemRow.owned, Bool.and_eq_true] at howned
    simp only [ItemRow.held, Bool.and_eq_true]
    exact howned.1
  obtain ⟨hid, expires, hlease, hintime⟩ := ItemRow.lease_owned howned
  have hother : ∀ r : ItemRow, r.id ≠ row.id → r.held lease.item.id lease.token = false := by
    intro r hne
    refine Bool.eq_false_iff.2 fun h => hne ?_
    rw [(ItemRow.held_iff.1 h).1, hid]
  rw [← hid] at hother hheld ⊢
  cases result with
  | ok receipt =>
    obtain ⟨-, hmove⟩ := hresult
    rw [Database.archiveItem] at hmove
    split at hmove
    · cases hmove
    cases hmove
    rw [← hid]
    have hgone : (!row.held row.id lease.token) = false := by rw [hheld]; rfl
    have hkept : ∀ r : ItemRow, r.id ≠ row.id → (!r.held row.id lease.token) = true :=
      fun r hne => by rw [hother r hne]; rfl
    exact Leases.step_remove hsound.itemIds hrow hlease hintime hgone hkept
  | error code =>
    obtain rfl := hresult
    rw [← hid]
    refine Leases.step_release hsound.itemIds hrow hlease hintime (fun r => ?_) (fun r hne => ?_) ?_
    · split <;> rfl
    · exact if_neg (Bool.eq_false_iff.1 (hother r hne))
    · rw [if_pos hheld]
      rfl

theorem JobFinished.step {lease : JobLease} {result : Except String BundleRecord} {now : Nat}
    (hsound : Sound F db) (h : JobFinished F target lease result now db db') :
    Step (Leased.job.held db) (.settled lease.job.bundleId lease.token now)
      (Leased.job.held db') := by
  obtain ⟨howned, hresult⟩ := h
  obtain ⟨row, hrow, howned⟩ := List.any_eq_true.1 howned
  have hheld : row.held lease.job.bundleId lease.token := by
    simp only [JobRow.owned, Bool.and_eq_true] at howned
    exact howned.1
  obtain ⟨hid, expires, hlease, hintime⟩ := JobRow.lease_owned howned
  have hother : ∀ r : JobRow, r.bundleId ≠ row.bundleId →
      r.held lease.job.bundleId lease.token = false := by
    intro r hne
    refine Bool.eq_false_iff.2 fun h => hne ?_
    rw [(JobRow.held_iff.1 h).1, hid]
  -- both results change the held row, and leave it without a lease
  have hupdate : ∀ g : JobRow → JobRow, (∀ r, (g r).bundleId = r.bundleId) → (g row).lease = none →
      Step (Leased.job.held db) (.settled lease.job.bundleId lease.token now)
        (Leased.job.held (db.updateJob (·.held lease.job.bundleId lease.token) g)) := by
    intro g hg hnone
    rw [← hid]
    rw [← hid] at hother hheld
    refine Leases.step_release hsound.jobIds hrow hlease hintime (fun r => ?_) (fun r hne => ?_) ?_
    · split
      · exact hg r
      · rfl
    · exact if_neg (Bool.eq_false_iff.1 (hother r hne))
    · rw [if_pos hheld]
      exact hnone
  cases result with
  | ok record =>
    obtain ⟨-, -, -, -, rfl⟩ := hresult
    exact hupdate _ (fun r => rfl) rfl
  | error code =>
    obtain rfl := hresult
    exact hupdate _ (fun r => rfl) rfl

/-! ## Steps -/

theorem log_ended {log : List Done} {a b : Done} (h : log ++ [a] = log ++ [b]) : a = b := by
  simpa using h

/-- What a call has returned tells which call it was, and how it ran. -/
theorem Sys.Returns.done {event : Event} {plan : Plan} {done : Done}
    (h : sys.Returns F event plan done) :
    match event, done with
    | .claim target timeoutSecs now clock token, .claim outcome =>
        ∃ rest, claim F target timeoutSecs now clock token plan sys.disk =
          (outcome, rest, (sys.next F event plan).disk)
    | .finish i target result now clock, .finish lease _ outcome =>
        sys.leases[i]? = some lease ∧ ∃ rest, finish F target lease result now clock plan sys.disk =
          (outcome, rest, (sys.next F event plan).disk)
    | .claimJob target timeoutSecs now clock token, .claimJob outcome =>
        ∃ rest, claimJob F target timeoutSecs now clock token plan sys.disk =
          (outcome, rest, (sys.next F event plan).disk)
    | .finishJob i target result now clock, .finishJob lease _ outcome =>
        sys.jobLeases[i]? = some lease ∧ ∃ rest,
          finishJob F target lease result now clock plan sys.disk =
            (outcome, rest, (sys.next F event plan).disk)
    | .enqueue .., .enqueue .. | .beginBundle .., .bundle .. | .proceed .., .bundle ..
    | .abort .., .bundle .. => True
    | _, _ => False := by
  have hsame : ∀ {sys' : Sys}, sys'.log = sys.log → sys'.log ≠ sys.log ++ [done] := by
    intro sys' hlog hne
    rw [hlog] at hne
    simp at hne
  have hended : ∀ {i : Nat} {disk : Disk} {b : Bundle} {o : Outcome Error BundleJob},
      (sys.ended i disk b o).log = sys.log ++ [done] → done = .bundle b o := by
    intro i disk b o h
    exact (log_ended h).symm
  rw [Sys.Returns] at h
  cases event with
  | enqueue config source kind limits r =>
    rw [Sys.next] at h
    obtain rfl := log_ended h
    trivial
  | claim target timeoutSecs now clock token =>
    rw [Sys.next] at h
    obtain rfl := log_ended h
    exact ⟨_, rfl⟩
  | finish i target result now clock =>
    rw [Sys.next] at h
    rcases hlease : sys.leases[i]? with _ | lease
    · rw [hlease] at h
      exact (hsame rfl h).elim
    · rw [hlease] at h
      obtain rfl := log_ended h
      refine ⟨hlease, ?_⟩
      rw [Sys.next, hlease]
      exact ⟨_, rfl⟩
  | claimJob target timeoutSecs now clock token =>
    rw [Sys.next] at h
    obtain rfl := log_ended h
    exact ⟨_, rfl⟩
  | finishJob i target result now clock =>
    rw [Sys.next] at h
    rcases hlease : sys.jobLeases[i]? with _ | lease
    · rw [hlease] at h
      exact (hsame rfl h).elim
    · rw [hlease] at h
      obtain rfl := log_ended h
      refine ⟨hlease, ?_⟩
      rw [Sys.next, hlease]
      exact ⟨_, rfl⟩
  | beginBundle request draw =>
    rw [Sys.next] at h
    rcases hcheck : request.check F with e | b
    · rw [hcheck] at h
      exact (hsame rfl h).elim
    rw [hcheck] at h
    rcases hrun : beginBundle F b draw plan sys.disk with ⟨o, rest, d'⟩
    simp only [hrun] at h
    cases o with
    | error e => obtain rfl := log_ended h; trivial
    | killed => obtain rfl := log_ended h; trivial
    | ok registered =>
      simp only [Sys.begun] at h
      split at h
      · exact (hsame rfl h).elim
      · split at h
        · obtain rfl := log_ended h
          trivial
        · exact (hsame rfl h).elim
  | proceed i readings =>
    rw [Sys.next] at h
    rcases hstage : sys.stages[i]? with _ | stage
    · rw [hstage] at h
      exact (hsame rfl h).elim
    rw [hstage] at h
    dsimp only at h
    split at h
    · exact (hsame rfl h).elim
    · obtain rfl := hended h
      trivial
    · obtain rfl := hended h
      trivial
  | abort i error =>
    rw [Sys.next] at h
    rcases hstage : sys.stages[i]? with _ | stage
    · rw [hstage] at h
      exact (hsame rfl h).elim
    · rw [hstage] at h
      obtain rfl := hended h
      trivial
  | reorder files =>
    rw [Sys.next] at h
    split at h
    · exact (hsame rfl h).elim
    · exact (hsame rfl h).elim

/-- A call that does not claim gives out no lease. -/
theorem Sys.Returns.ungiven {event : Event} {plan : Plan} {done : Done}
    (h : sys.Returns F event plan done) (hevent : kind.claims event = false) :
    kind.given done = none := by
  have hdone := h.done
  cases kind with
  | item =>
    cases done with
    | claim _ =>
      cases event with
      | claim _ _ _ _ _ => cases hevent
      | _ => exact hdone.elim
    | _ => rfl
  | job =>
    cases done with
    | claimJob _ =>
      cases event with
      | claimJob _ _ _ _ _ => cases hevent
      | _ => exact hdone.elim
    | _ => rfl

/-- Only a claim and a finish of the kind change its leases. -/
theorem Sys.change_held {event : Event} (hclaims : kind.claims event = false)
    (hfinished : kind.finished sys event = none) (h : sys.change F event target db db') :
    kind.held db' = kind.held db := by
  cases event with
  | enqueue _ _ _ _ r =>
    obtain ⟨id, -, h⟩ := h
    exact h.held kind
  | claim _ _ _ _ _ =>
    cases kind with
    | item => cases hclaims
    | job =>
      obtain ⟨row, token', -, -, -, rfl⟩ := h
      rfl
  | finish i _ result _ _ =>
    obtain ⟨lease, hlease, -, hresult⟩ := h
    cases kind with
    | item => simp [Leased.finished, hlease] at hfinished
    | job =>
      cases result with
      | ok receipt =>
        have hmove := hresult.2
        rw [Database.archiveItem] at hmove
        split at hmove
        · cases hmove
        · cases hmove
          rfl
      | error code =>
        obtain rfl := hresult
        rfl
  | claimJob _ _ _ _ _ =>
    cases kind with
    | item =>
      obtain ⟨row, token', -, -, -, job, -, -, rfl⟩ := h
      rfl
    | job => cases hclaims
  | finishJob i _ result _ _ =>
    obtain ⟨lease, hlease, -, hresult⟩ := h
    cases kind with
    | item =>
      cases result with
      | ok record =>
        obtain ⟨-, -, -, -, rfl⟩ := hresult
        rfl
      | error code =>
        obtain rfl := hresult
        rfl
    | job => simp [Leased.finished, hlease] at hfinished
  | proceed i r =>
    obtain ⟨stage, -, h⟩ := h
    exact h.held kind
  | beginBundle _ _ => exact h.elim
  | abort _ _ => exact h.elim
  | reorder _ => exact h.elim

variable {makes : QueueTarget → QueueLimits → Prop}
  {change : QueueTarget → Database → Database → Prop} {d d' : Disk}

/-- The leases of the tables that a call finds are those of the queue. -/
theorem Begins.held (h : Begins F makes d db) (kind : Leased) : kind.held db = kind.heldAt d := by
  rcases h with hdb | ⟨hnone, target, limits, -, rfl⟩
  · rw [Leased.heldAt, hdb]
  · rw [Leased.heldAt, hnone]
    cases kind with
    | item => rfl
    | job => rfl

theorem Leased.heldAt_db (h : d.db? = some db) (kind : Leased) : kind.heldAt d = kind.held db := by
  rw [Leased.heldAt, h]

theorem Leased.heldAt_same (h : d'.db? = d.db?) (kind : Leased) : kind.heldAt d' = kind.heldAt d := by
  rw [Leased.heldAt, Leased.heldAt, h]

/-- What a call does to the leases is what its transaction does. -/
theorem Moved.held (hd : Inv F d) (h : Moved F makes change d d') :
    kind.heldAt d' = kind.heldAt d ∨ ∃ target db db', Sound F db ∧ change target db db' ∧
      kind.heldAt d = kind.held db ∧ kind.heldAt d' = kind.held db' := by
  rcases h with hdb | ⟨db, hbegins, hdb | ⟨target, db', -, -, hchange, hdb'⟩⟩
  · exact .inl (Leased.heldAt_same hdb kind)
  · left
    rw [Leased.heldAt_db hdb, hbegins.held]
  · exact .inr ⟨target, db, db', hbegins.sound hd, hchange, (hbegins.held kind).symm,
      Leased.heldAt_db hdb' kind⟩

/-- A step that neither claims nor finishes a lease. -/
theorem Sys.Ok.step_other (h : sys.Ok F) {event : Event} (hclaims : kind.claims event = false)
    (hfinished : kind.finished sys event = none) (plan : Plan) :
    ∃ act, kind.Does F sys event plan act ∧
      Step (kind.heldAt sys.disk) act (kind.heldAt (sys.next F event plan).disk) := by
  have hidle : kind.Does F sys event plan .idle :=
    .idle (fun done hdone => hdone.ungiven hclaims) fun hsome => by simp [hfinished] at hsome
  have hsame : kind.heldAt (sys.next F event plan).disk = kind.heldAt sys.disk := by
    rcases (h.moved event plan).held h.disk with hsame | ⟨target, db, db', -, hchange, hd, hd'⟩
    · exact hsame
    · rw [hd, hd', Sys.change_held hclaims hfinished hchange]
  refine ⟨.idle, hidle, ?_⟩
  rw [hsame]
  exact .idle

/-- A step that claims: the lease that was returned is the one that the transaction granted. -/
theorem Sys.Ok.step_claim (h : sys.Ok F) {event : Event} {plan : Plan}
    (hfinished : kind.finished sys event = none)
    (hgiven : ∀ done p, sys.Returns F event plan done → kind.given done = some p →
      ∃ db db' now expires, Begins F (Makes none) sys.disk db ∧
        kind.claimed event = some (p.2, now, expires) ∧
        Step (kind.held db) (.granted p.1 p.2 now expires) (kind.held db') ∧
        (sys.next F event plan).disk.db? = some db')
    (hmade : ∀ target db db', Sound F db → sys.change F event target db db' →
      ∃ key token now expires, kind.claimed event = some (token, now, expires) ∧
        Step (kind.held db) (.granted key token now expires) (kind.held db')) :
    ∃ act, kind.Does F sys event plan act ∧
      Step (kind.heldAt sys.disk) act (kind.heldAt (sys.next F event plan).disk) := by
  by_cases hreturned : ∃ done p, sys.Returns F event plan done ∧ kind.given done = some p
  · obtain ⟨done, p, hdone, hp⟩ := hreturned
    obtain ⟨db, db', now, expires, hbegins, hclaimed, hstep, hdb'⟩ := hgiven done p hdone hp
    rw [hbegins.held, ← Leased.heldAt_db hdb'] at hstep
    refine ⟨_, .granted hclaimed fun done' p' hdone' hp' => ?_, hstep⟩
    rw [← log_ended (hdone.symm.trans hdone'), hp] at hp'
    exact (Option.some.inj hp').symm
  -- the lease may have been granted, but the call failed after it and nobody has it
  have hungiven : ∀ done, sys.Returns F event plan done → kind.given done = none := by
    intro done hdone
    rcases hp : kind.given done with _ | p
    · rfl
    · exact (hreturned ⟨done, p, hdone, hp⟩).elim
  have hidle : kind.Does F sys event plan .idle :=
    .idle hungiven fun hsome => by simp [hfinished] at hsome
  rcases (h.moved event plan).held h.disk with hsame | ⟨target, db, db', hsound, hchange, hd, hd'⟩
  · refine ⟨.idle, hidle, ?_⟩
    rw [hsame]
    exact .idle
  · obtain ⟨key, token, now, expires, hclaimed, hstep⟩ := hmade target db db' hsound hchange
    rw [← hd, ← hd'] at hstep
    refine ⟨_, .granted hclaimed fun done p hdone hp => ?_, hstep⟩
    rw [hungiven done hdone] at hp
    cases hp

/-- A step that finishes a lease: it settles it, or is refused. -/
theorem Sys.Ok.step_finish (h : sys.Ok F) {event : Event} {plan : Plan} {key token : String}
    {now : Nat} (hclaims : kind.claims event = false)
    (hfinished : kind.finished sys event = some (key, token, now))
    (hmakes : ∀ target limits, ¬event.makes F target limits)
    (haccepted : ∀ done, sys.Returns F event plan done → kind.accepted done →
      ∃ target db db', Begins F (Makes none) sys.disk db ∧ sys.change F event target db db' ∧
        (sys.next F event plan).disk.db? = some db')
    (hmade : ∀ target db db', Sound F db → sys.change F event target db db' →
      Step (kind.held db) (.settled key token now) (kind.held db')) :
    ∃ act, kind.Does F sys event plan act ∧
      Step (kind.heldAt sys.disk) act (kind.heldAt (sys.next F event plan).disk) := by
  have hungiven : ∀ done, sys.Returns F event plan done → kind.given done = none :=
    fun done hdone => hdone.ungiven hclaims
  by_cases htrue : ∃ done, sys.Returns F event plan done ∧ kind.accepted done
  · obtain ⟨done, hdone, hdone'⟩ := htrue
    obtain ⟨target, db, db', hbegins, hchange, hdb'⟩ := haccepted done hdone hdone'
    have hstep := hmade target db db' (hbegins.sound h.disk) hchange
    rw [hbegins.held, ← Leased.heldAt_db hdb'] at hstep
    exact ⟨_, .settled hfinished hungiven, hstep⟩
  have hrefused : ∀ done, sys.Returns F event plan done → kind.accepted done = false := by
    intro done hdone
    exact Bool.eq_false_iff.2 fun haccepted => htrue ⟨done, hdone, haccepted⟩
  have hidle : (sys.next F event plan).disk.db? = sys.disk.db? →
      ∃ act, kind.Does F sys event plan act ∧
        Step (kind.heldAt sys.disk) act (kind.heldAt (sys.next F event plan).disk) := by
    intro hdb
    refine ⟨.idle, .idle hungiven fun _ => ⟨hdb, hrefused⟩, ?_⟩
    rw [Leased.heldAt_same hdb]
    exact .idle
  rcases h.moved event plan with hdb | ⟨db, hbegins, hdb | ⟨target, db', -, -, hchange, hdb'⟩⟩
  · exact hidle hdb
  · rcases hbegins with hbegins | ⟨-, target, limits, hm, -⟩
    · exact hidle (hdb.trans hbegins.symm)
    · exact (hmakes target limits hm).elim
  · have hstep := hmade target db db' (hbegins.sound h.disk) hchange
    rw [hbegins.held, ← Leased.heldAt_db hdb'] at hstep
    exact ⟨_, .settled hfinished hungiven, hstep⟩

theorem Sys.Ok.claim_step (h : sys.Ok F) (target : QueueTarget) (timeoutSecs now clock : Nat)
    (token : Option RandomId) (plan : Plan) :
    ∃ act, Leased.item.Does F sys (.claim target timeoutSecs now clock token) plan act ∧
      Step (Leased.item.heldAt sys.disk) act
        (Leased.item.heldAt (sys.next F (.claim target timeoutSecs now clock token) plan).disk) := by
  refine h.step_claim rfl (fun done p hreturns hp => ?_) fun target db db' hsound hchange => ?_
  · have hdone := hreturns.done
    cases done with
    | claim o =>
      rcases o with (_ | lease) | _ | _ <;> try cases hp
      obtain ⟨rest, hrun⟩ := hdone
      obtain ⟨-, hleased⟩ := (claim_moved h.disk target timeoutSecs now clock token
        fun _ _ _ _ _ _ _ => trivial).run hrun
      obtain ⟨row, token', db, db', hbegins, rfl, hdone, hid, htoken, hdb'⟩ := hleased lease rfl
      refine ⟨db, db', _, _, hbegins, by rw [htoken]; rfl, ?_, hdb'⟩
      dsimp only
      rw [hid, htoken]
      exact hdone.step (hbegins.sound h.disk)
    | _ => cases hp
  · obtain ⟨row, token', rfl, hdone⟩ := hchange
    exact ⟨row.id, token'.val, _, _, rfl, hdone.step hsound⟩

theorem Sys.Ok.claimJob_step (h : sys.Ok F) (target : QueueTarget) (timeoutSecs now clock : Nat)
    (token : Option RandomId) (plan : Plan) :
    ∃ act, Leased.job.Does F sys (.claimJob target timeoutSecs now clock token) plan act ∧
      Step (Leased.job.heldAt sys.disk) act
        (Leased.job.heldAt (sys.next F (.claimJob target timeoutSecs now clock token) plan).disk) := by
  refine h.step_claim rfl (fun done p hreturns hp => ?_) fun target db db' hsound hchange => ?_
  · have hdone := hreturns.done
    cases done with
    | claimJob o =>
      rcases o with (_ | lease) | _ | _ <;> try cases hp
      obtain ⟨rest, hrun⟩ := hdone
      obtain ⟨-, hleased⟩ := (claimJob_moved h.disk target timeoutSecs now clock token
        fun _ _ _ _ _ _ _ => trivial).run hrun
      obtain ⟨row, token', db, db', hbegins, rfl, hdone, hid, htoken, hdb'⟩ := hleased lease rfl
      refine ⟨db, db', _, _, hbegins, by rw [htoken]; rfl, ?_, hdb'⟩
      dsimp only
      rw [hid, htoken]
      exact hdone.step (hbegins.sound h.disk)
    | _ => cases hp
  · obtain ⟨row, token', rfl, hdone⟩ := hchange
    exact ⟨row.bundleId, token'.val, _, _, rfl, hdone.step hsound⟩

theorem Sys.Ok.finish_step (h : sys.Ok F) {i : Nat} {lease : Lease}
    (hlease : sys.leases[i]? = some lease) (target : QueueTarget)
    (result : Except String SignedReceipt) (now clock : Nat) (plan : Plan) :
    ∃ act, Leased.item.Does F sys (.finish i target result now clock) plan act ∧
      Step (Leased.item.heldAt sys.disk) act
        (Leased.item.heldAt (sys.next F (.finish i target result now clock) plan).disk) := by
  refine h.step_finish rfl (by rw [Leased.finished, hlease]; rfl) (fun _ _ hm => hm)
    (fun done hreturns haccepted => ?_) fun target db db' hsound hchange => ?_
  · have hdone := hreturns.done
    cases done with
    | finish lease' result' o =>
      obtain ⟨hlease', rest, hrun⟩ := hdone
      rcases o with (_ | _) | _ | _ <;> try cases haccepted
      obtain ⟨-, htrue⟩ := (finish_moved h.disk target lease' result now clock
        fun _ _ _ _ => trivial).run hrun
      obtain ⟨target', db, db', hbegins, hdone, hdb'⟩ := htrue rfl
      exact ⟨target', db, db', hbegins, ⟨lease', hlease', hdone⟩, hdb'⟩
    | _ => cases haccepted
  · obtain ⟨lease', hlease', hdone⟩ := hchange
    rw [hlease] at hlease'
    cases hlease'
    exact hdone.step hsound

theorem Sys.Ok.finishJob_step (h : sys.Ok F) {i : Nat} {lease : JobLease}
    (hlease : sys.jobLeases[i]? = some lease) (target : QueueTarget)
    (result : Except String BundleRecord) (now clock : Nat) (plan : Plan) :
    ∃ act, Leased.job.Does F sys (.finishJob i target result now clock) plan act ∧
      Step (Leased.job.heldAt sys.disk) act
        (Leased.job.heldAt (sys.next F (.finishJob i target result now clock) plan).disk) := by
  refine h.step_finish rfl (by rw [Leased.finished, hlease]; rfl) (fun _ _ hm => hm)
    (fun done hreturns haccepted => ?_) fun target db db' hsound hchange => ?_
  · have hdone := hreturns.done
    cases done with
    | finishJob lease' result' o =>
      obtain ⟨hlease', rest, hrun⟩ := hdone
      rcases o with (_ | _) | _ | _ <;> try cases haccepted
      obtain ⟨-, htrue⟩ := (finishJob_moved h.disk target lease' result now clock
        fun _ _ _ _ => trivial).run hrun
      obtain ⟨target', db, db', hbegins, hdone, hdb'⟩ := htrue rfl
      exact ⟨target', db, db', hbegins, ⟨lease', hlease', hdone⟩, hdb'⟩
    | _ => cases haccepted
  · obtain ⟨lease', hlease', hdone⟩ := hchange
    rw [hlease] at hlease'
    cases hlease'
    exact hdone.step hsound

/-- What one step does to the leases. -/
theorem Sys.Ok.lease_step (h : sys.Ok F) (kind : Leased) (event : Event) (plan : Plan) :
    ∃ act, kind.Does F sys event plan act ∧
      Step (kind.heldAt sys.disk) act (kind.heldAt (sys.next F event plan).disk) := by
  by_cases hother : kind.claims event = false ∧ kind.finished sys event = none
  · exact h.step_other hother.1 hother.2 plan
  cases kind with
  | item =>
    cases event with
    | claim target timeoutSecs now clock token => exact h.claim_step target timeoutSecs now clock token plan
    | finish i target result now clock =>
      rcases hlease : sys.leases[i]? with _ | lease
      · exact (hother ⟨rfl, by rw [Leased.finished, hlease]; rfl⟩).elim
      · exact h.finish_step hlease target result now clock plan
    | _ => exact (hother ⟨rfl, rfl⟩).elim
  | job =>
    cases event with
    | claimJob target timeoutSecs now clock token =>
      exact h.claimJob_step target timeoutSecs now clock token plan
    | finishJob i target result now clock =>
      rcases hlease : sys.jobLeases[i]? with _ | lease
      · exact (hother ⟨rfl, by rw [Leased.finished, hlease]; rfl⟩).elim
      · exact h.finishJob_step hlease target result now clock plan
    | _ => exact (hother ⟨rfl, rfl⟩).elim

/-! ## Runs -/

/-- What a run does to the leases, with the step that each act comes from. -/
theorem Sys.Ok.lease_run (hF : F.ReadsBack) (kind : Leased) (script : List (Event × Plan)) {sys : Sys}
    (h : sys.Ok F) : ∃ acts, Run (kind.heldAt sys.disk) acts (kind.heldAt (sys.play F script).disk) ∧
      ∀ act ∈ acts, ∃ before step after, script = before ++ step :: after ∧
        kind.Does F (sys.play F before) step.1 step.2 act := by
  induction script generalizing sys with
  | nil => exact ⟨[], .nil _, fun act hact => by cases hact⟩
  | cons step rest ih =>
    obtain ⟨act, hdoes, hstep⟩ := h.lease_step kind step.1 step.2
    obtain ⟨acts, hrun, hacts⟩ := ih (h.next hF step.1 step.2).1
    refine ⟨act :: acts, .cons hstep hrun, fun a ha => ?_⟩
    rcases List.mem_cons.1 ha with rfl | ha
    · exact ⟨[], step, rest, rfl, hdoes⟩
    · obtain ⟨before, step', after, hscript, hdoes'⟩ := hacts a ha
      exact ⟨step :: before, step', after, by rw [hscript]; rfl, hdoes'⟩

/-- No event both claims and finishes. -/
theorem Leased.not_both {event : Event} {p : String × Nat × Nat} {q : String × String × Nat}
    (hclaimed : kind.claimed event = some p) (hfinished : kind.finished sys event = some q) :
    False := by
  cases kind with
  | item =>
    cases event with
    | finish _ _ _ _ _ => cases hclaimed
    | _ => cases hfinished
  | job =>
    cases event with
    | finishJob _ _ _ _ _ => cases hclaimed
    | _ => cases hfinished

/-- A call that gave out a lease has granted it. -/
theorem Sys.Ok.granted (h : sys.Ok F) {event : Event} {plan : Plan} {done : Done}
    {key token : String} (hdone : sys.Returns F event plan done)
    (hgiven : kind.given done = some (key, token)) :
    ∃ now expires, kind.claimed event = some (token, now, expires) ∧
      Step (kind.heldAt sys.disk) (.granted key token now expires)
        (kind.heldAt (sys.next F event plan).disk) := by
  obtain ⟨act, hdoes, hstep⟩ := h.lease_step kind event plan
  cases hdoes with
  | idle hungiven _ =>
    rw [hungiven done hdone] at hgiven
    cases hgiven
  | @granted key' token' now expires hclaimed hp =>
    cases hp done _ hdone hgiven
    exact ⟨now, expires, hclaimed, hstep⟩
  | settled _ hungiven =>
    rw [hungiven done hdone] at hgiven
    cases hgiven

/-- Two leases of one row never overlap: when a row is leased again, the lease before has ended, or
was finished in time, as long as the clocks did not go back between the two. -/
theorem leases_exclusive (hF : F.ReadsBack) (kind : Leased) {sys : Sys} (hsys : Reached F sys)
    {event event' : Event} {plan plan' : Plan} {mid : List (Event × Plan)} {done done' : Done}
    {key token token' : String} {now now' expires expires' : Nat}
    (hclaimed : kind.claimed event = some (token, now, expires))
    (hdone : sys.Returns F event plan done) (hgiven : kind.given done = some (key, token))
    (hclaimed' : kind.claimed event' = some (token', now', expires'))
    (hdone' : ((sys.next F event plan).play F mid).Returns F event' plan' done')
    (hgiven' : kind.given done' = some (key, token'))
    (hclock : ∀ step ∈ mid, ∀ t n e, kind.claimed step.1 = some (t, n, e) → n ≤ now') :
    expires ≤ now' ∨ ∃ before step after n, mid = before ++ step :: after ∧ n < expires ∧
      kind.finished ((sys.next F event plan).play F before) step.1 = some (key, token, n) := by
  obtain ⟨script, rfl⟩ := hsys
  have hok := ok_play hF script
  obtain ⟨hok₁, -⟩ := hok.next hF event plan
  obtain ⟨n, e, hc, hgrant⟩ := hok.granted hdone hgiven
  obtain ⟨n', e', hc', hgrant'⟩ := (hok₁.play hF mid).granted hdone' hgiven'
  cases hclaimed.symm.trans hc
  cases hclaimed'.symm.trans hc'
  obtain ⟨acts, hrun, hacts⟩ := hok₁.lease_run hF kind mid
  have hheld : kind.heldAt ((({} : Sys).play F script).next F event plan).disk key =
      some (token, expires) := by
    cases hgrant with
    | granted _ hholds _ => exact hholds
  have hmid : ∀ t n e, .granted key t n e ∈ acts → n ≤ now' := by
    intro t n e hmem
    obtain ⟨before, step, after, rfl, hdoes⟩ := hacts _ hmem
    cases hdoes with
    | granted hc _ => exact hclock step (by simp) t n e hc
  rcases hrun.exclusive hheld hgrant' hmid with hend | ⟨n, hn, hmem⟩
  · exact .inl hend
  · obtain ⟨before, step, after, hscript, hdoes⟩ := hacts _ hmem
    cases hdoes with
    | settled hfinished _ => exact .inr ⟨before, step, after, n, hscript, hn, hfinished⟩

/-- The next item is leased. -/
def sampleClaim (now : Nat) (digit : Fin 10) : Event :=
  .claim sampleTarget 30 now now (some (sampleId digit))

/-- The first lease is finished. -/
def sampleFinish (result : Except String SignedReceipt) (now : Nat) : Event :=
  .finish 0 sampleTarget result now now

/-- A queue with an item. -/
def sampleQueued : List (Event × Plan) := [sampleEnqueue "evidence" sampleBody (sampleDigit 1)]

/-- The upload of the item fails. -/
def sampleFailed : List (Event × Plan) := [(sampleFinish (.error "upload") 20, [])]

/-- The answer to a claim of the sample. -/
def sampleAnswer (sys : Sys) (now : Nat) (digit : Fin 10) : Done :=
  .claim (claim sampleFormats sampleTarget 30 now now (some (sampleId digit)) [] sys.disk).1

theorem sampleClaim_returns (sys : Sys) (now : Nat) (digit : Fin 10) :
    sys.Returns sampleFormats (sampleClaim now digit) [] (sampleAnswer sys now digit) := rfl

/-- An item is leased, its upload fails, and it is leased again before the first lease would have
ended. -/
theorem leases_exclusive_retried : ∃ before step after n, sampleFailed = before ++ step :: after ∧
    n < 60010 ∧ Leased.item.finished (((({} : Sys).play sampleFormats sampleQueued).next sampleFormats
      (sampleClaim 10 9) []).play sampleFormats before) step.1 =
        some ((sampleId 1).val, (sampleId 9).val, n) := by
  have hfirst : Leased.item.claimed (sampleClaim 10 9) = some ((sampleId 9).val, 10, 60010) := rfl
  have hsecond : Leased.item.claimed (sampleClaim 6000 8) = some ((sampleId 8).val, 6000, 66000) := rfl
  have hclock : ∀ step ∈ sampleFailed, ∀ t n e,
      Leased.item.claimed step.1 = some (t, n, e) → n ≤ 6000 := by
    intro step hstep t n e h
    rw [List.mem_singleton.1 hstep] at h
    cases h
  have hgiven : Leased.item.given (sampleAnswer (({} : Sys).play sampleFormats sampleQueued) 10 9) =
      some ((sampleId 1).val, (sampleId 9).val) := by decide +kernel
  have hgiven' : Leased.item.given (sampleAnswer (((({} : Sys).play sampleFormats sampleQueued).next
      sampleFormats (sampleClaim 10 9) []).play sampleFormats sampleFailed) 6000 8) =
        some ((sampleId 1).val, (sampleId 8).val) := by decide +kernel
  have h := leases_exclusive sampleFormats_readsBack .item ⟨sampleQueued, rfl⟩ hfirst
    (sampleClaim_returns _ 10 9) hgiven hsecond (sampleClaim_returns _ 6000 8) hgiven' hclock
  exact h.resolve_left (by decide)

/-- A lease whose row was leased again, or which was finished, has no effect any more: whoever
finishes it, at any later time, is refused and leaves the tables as they are, as long as its token
is not drawn again. -/
theorem lost_leases_settle_nothing (hF : F.ReadsBack) (kind : Leased) {sys : Sys}
    (hsys : Reached F sys) {event event' : Event} {plan plan' : Plan} {mid : List (Event × Plan)}
    {key token : String} {now' : Nat}
    (hlost : (∃ done token', sys.Returns F event plan done ∧ kind.given done = some (key, token')) ∨
      ∃ n, kind.finished sys event = some (key, token, n) ∧
        ((sys.next F event plan).disk.db? ≠ sys.disk.db? ∨
          ∃ done, sys.Returns F event plan done ∧ kind.accepted done))
    (hfresh : ∀ step ∈ (event, plan) :: mid, ∀ n e, kind.claimed step.1 ≠ some (token, n, e))
    (hfinished : kind.finished ((sys.next F event plan).play F mid) event' = some (key, token, now')) :
    (((sys.next F event plan).play F mid).next F event' plan').disk.db? =
        ((sys.next F event plan).play F mid).disk.db? ∧
      ∀ done, ((sys.next F event plan).play F mid).Returns F event' plan' done →
        kind.accepted done = false := by
  obtain ⟨script, rfl⟩ := hsys
  have hok := ok_play hF script
  obtain ⟨hok₁, -⟩ := hok.next hF event plan
  have hlost₁ : Lost (kind.heldAt ((({} : Sys).play F script).next F event plan).disk) key token := by
    rcases hlost with ⟨done, token', hdone, hgiven⟩ | ⟨n, hsettles, heffect⟩
    · obtain ⟨n, e, hclaimed, hgrant⟩ := hok.granted hdone hgiven
      refine hgrant.granted_lost fun heq => ?_
      exact hfresh _ List.mem_cons_self n e (heq ▸ hclaimed)
    · obtain ⟨act, hdoes, hstep⟩ := hok.lease_step kind event plan
      cases hdoes with
      | idle _ hrefused =>
        obtain ⟨hsame, hnone⟩ := hrefused (by rw [hsettles]; rfl)
        rcases heffect with hmoved | ⟨done, hdone, haccepted⟩
        · exact (hmoved hsame).elim
        · rw [hnone done hdone] at haccepted
          cases haccepted
      | granted hclaimed _ => exact (Leased.not_both hclaimed hsettles).elim
      | settled hfin _ =>
        cases hsettles.symm.trans hfin
        exact hstep.settled_lost
  obtain ⟨acts, hrun, hacts⟩ := hok₁.lease_run hF kind mid
  have hacts' : ∀ n e, .granted key token n e ∉ acts := by
    intro n e hmem
    obtain ⟨before, step, after, rfl, hdoes⟩ := hacts _ hmem
    cases hdoes with
    | granted hc _ => exact hfresh step (by simp) n e hc
  obtain ⟨hlost₂, -⟩ := hrun.lost hlost₁ hacts'
  obtain ⟨act, hdoes, hstep⟩ := (hok₁.play hF mid).lease_step kind event' plan'
  cases hdoes with
  | idle _ hrefused => exact hrefused (by rw [hfinished]; rfl)
  | granted hclaimed _ => exact (Leased.not_both hclaimed hfinished).elim
  | settled hfin _ =>
    cases hfinished.symm.trans hfin
    cases hstep with
    | settled hholds _ _ _ => exact (hlost₂ _ hholds).elim

/-- An item is leased and the worker is late. -/
def sampleLate : Sys :=
  ({} : Sys).play sampleFormats (sampleQueued ++ [(sampleClaim 10 (sampleDigit 9), [])])

/-- The worker comes back after the item was leased to another. -/
theorem lost_leases_settle_nothing_late :
    (((sampleLate.next sampleFormats (sampleClaim 70000 8) []).play sampleFormats []).next sampleFormats
      (sampleFinish (.ok (sampleReceipt "evidence" sampleBody)) 70001) []).disk.db? =
    ((sampleLate.next sampleFormats (sampleClaim 70000 8) []).play sampleFormats []).disk.db? := by
  have hgiven : Leased.item.given (sampleAnswer sampleLate 70000 8) =
      some ((sampleId 1).val, (sampleId 8).val) := by decide +kernel
  have hfinished : Leased.item.finished
      ((sampleLate.next sampleFormats (sampleClaim 70000 8) []).play sampleFormats [])
      (sampleFinish (.ok (sampleReceipt "evidence" sampleBody)) 70001) =
        some ((sampleId 1).val, (sampleId 9).val, 70001) := by decide +kernel
  refine (lost_leases_settle_nothing sampleFormats_readsBack .item ⟨_, rfl⟩
    (.inl ⟨_, _, sampleClaim_returns sampleLate 70000 8, hgiven⟩) (fun step hstep n e h => ?_)
    hfinished).1
  rw [List.mem_singleton.1 hstep] at h
  have htoken : (sampleId 8).val = (sampleId 9).val := (Prod.mk.inj (Option.some.inj h)).1
  exact absurd htoken (by decide)

end Fencing

end Argos.Queue
