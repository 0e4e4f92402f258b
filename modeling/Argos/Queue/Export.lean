import Argos.Queue.Scanning

/-!
# What is exported is accepted

The export reads its pages while other processes go on. `Grows` says what they can do to the tables
meanwhile: receipts are added to the archive behind those that are there, and an old database becomes
a current one. The rows up to the last one that the export fixed stay as they are, so the pages make
up the table as it was at the start, or the export gives up.
-/

namespace Argos.Queue

open Argos.Lib
open Argos.Vault (Bytes Result Error refuse saturatingAdd validId)
open Argos.Vault (refuse_ok_iff Result.bind_ok_iff Result.check_ok_iff exists_unit_iff)

/-! ## Lines -/

/-- What the export relies on of `serde_json` and `hex`: a compact text has no line break, blanks
behind it are skipped, and the text of a public key is itself one. -/
structure Formats.Exports (F : Formats) : Prop where
  oneLine : ∀ record, newline ∉ F.archive.encode record
  decode : ∀ record, F.archive.decode (F.archive.encode record ++ [newline]) = some record
  publicKey : ∀ key text, F.publicKey key = some text → F.publicKey text = some text

section Lines

variable (F : Formats)

/-- The line of a record. -/
def lineOf (record : Record) : Bytes := F.archive.encode record ++ [newline]

/-- The lines of rows. -/
def receiptLines (rows : List (Nat × QueueItem)) : List (Bytes × QueueItem) :=
  rows.map fun p => (lineOf F (.receipt p.2), p.2)

variable {F}

theorem Formats.Exports.isLine (hF : F.Exports) (record : Record) : IsLine (lineOf F record) :=
  ⟨_, rfl, hF.oneLine record⟩

theorem line_ok_iff {record : Record} {bytes : Bytes} :
    line F record = .ok bytes ↔ (lineOf F record).length ≤ maxLine ∧ bytes = lineOf F record := by
  simp only [line, Result.check_ok_iff, refuse_ok_iff, decide_eq_false_iff_not, not_lt, gt_iff_lt,
    Except.ok.injEq, lineOf]
  rw [eq_comm (b := bytes)]

theorem emit_ok_iff {written written' : Bytes} {record : Record} :
    emit F written record = .ok written' ↔ (lineOf F record).length ≤ maxLine ∧
      (written ++ lineOf F record).length ≤ maxExport ∧ written' = written ++ lineOf F record := by
  have hsat : ∀ a b : Nat, saturatingAdd a b ≤ maxExport ↔ a + b ≤ maxExport := by
    intro a b
    unfold saturatingAdd Vault.u64Max maxExport
    omega
  simp only [emit, Result.bind_ok_iff, line_ok_iff, refuse_ok_iff, exists_unit_iff,
    decide_eq_false_iff_not, not_lt, gt_iff_lt, Except.ok.injEq, hsat, List.length_append]
  constructor
  · rintro ⟨bytes, ⟨hshort, rfl⟩, hsize, rfl⟩
    exact ⟨hshort, hsize, rfl⟩
  · rintro ⟨hshort, hsize, rfl⟩
    exact ⟨_, ⟨hshort, rfl⟩, hsize, rfl⟩

variable (F) in
/-- Rows that can be written for a target behind what was written. -/
structure Writable (target : QueueTarget) (rows : List (Nat × QueueItem)) (count : Nat)
    (written : Bytes) : Prop where
  verified : ∀ p ∈ rows, verifiedItem F p.2 target = .ok ()
  short : ∀ p ∈ rows, (lineOf F (.receipt p.2)).length ≤ maxLine
  count : count + rows.length ≤ maxArchiveItems
  size : (written ++ textOf (receiptLines F rows)).length ≤ maxExport

theorem textOf_receiptLines_cons {p : Nat × QueueItem} {rows : List (Nat × QueueItem)} :
    textOf (receiptLines F (p :: rows)) =
      lineOf F (.receipt p.2) ++ textOf (receiptLines F rows) := by
  simp [textOf, receiptLines]

/-- Rows are written exactly when all of them can be, one behind the other. -/
theorem emitRows_ok_iff {target : QueueTarget} {rows : List (Nat × QueueItem)} {cursor count : Nat}
    {written : Bytes} {progress : Nat × Nat × Bytes} (hcount : count ≤ maxArchiveItems)
    (hsize : written.length ≤ maxExport) :
    emitRows F target rows (cursor, count, written) = .ok progress ↔
      Writable F target rows count written ∧
        progress = ((rows.getLast?.map (·.1)).getD cursor, count + rows.length,
          written ++ textOf (receiptLines F rows)) := by
  induction rows generalizing cursor count written with
  | nil =>
    have hempty : Writable F target [] count written := by
      refine ⟨by simp, by simp, by simpa using hcount, by simpa [textOf, receiptLines] using hsize⟩
    rw [emitRows]
    simp only [Except.ok.injEq, hempty, true_and, List.getLast?_nil, Option.map_none,
      Option.getD_none, List.length_nil, Nat.add_zero, textOf, receiptLines, List.map_nil,
      List.flatten_nil, List.append_nil]
    rw [eq_comm]
  | cons p rows ih =>
    obtain ⟨rowid, item⟩ := p
    have hlast : (((rowid, item) :: rows).getLast?.map (·.1)).getD cursor =
        (rows.getLast?.map (·.1)).getD rowid := by
      cases rows with
      | nil => rfl
      | cons q rows =>
        rw [List.getLast?_cons_cons]
        simp [List.getLast?_cons]
    simp only [emitRows, Result.bind_ok_iff, exists_unit_iff, refuse_ok_iff, emit_ok_iff,
      decide_eq_false_iff_not, not_lt, gt_iff_lt]
    rw [hlast, textOf_receiptLines_cons, ← List.append_assoc, List.length_cons]
    constructor
    · rintro ⟨hverified, hroom, written', ⟨hshort, hfits, rfl⟩, hrest⟩
      obtain ⟨h, rfl⟩ := (ih hroom hfits).1 hrest
      refine ⟨⟨List.forall_mem_cons.2 ⟨hverified, h.verified⟩, List.forall_mem_cons.2 ⟨hshort, h.short⟩,
        ?_, ?_⟩, by rw [Nat.add_assoc, Nat.add_comm 1]⟩
      · have := h.count
        rw [List.length_cons]
        omega
      · rw [textOf_receiptLines_cons, ← List.append_assoc]
        exact h.size
    · rintro ⟨h, rfl⟩
      have hsize' := h.size
      have hcount' := h.count
      rw [textOf_receiptLines_cons, ← List.append_assoc] at hsize'
      rw [List.length_cons] at hcount'
      have hfits : (written ++ lineOf F (.receipt item)).length ≤ maxExport := by
        rw [List.length_append] at hsize'
        exact (Nat.le_add_right _ _).trans hsize'
      refine ⟨h.verified _ List.mem_cons_self, by omega, _,
        ⟨h.short _ List.mem_cons_self, hfits, rfl⟩, (ih (by omega) hfits).2 ⟨?_, ?_⟩⟩
      · exact ⟨fun p hp => h.verified p (List.mem_cons_of_mem _ hp),
          fun p hp => h.short p (List.mem_cons_of_mem _ hp), by omega, hsize'⟩
      · rw [Nat.add_assoc, Nat.add_comm 1]

theorem receiptLines_append {xs ys : List (Nat × QueueItem)} :
    receiptLines F (xs ++ ys) = receiptLines F xs ++ receiptLines F ys := List.map_append

theorem textOf_append {xs ys : List (Bytes × QueueItem)} :
    textOf (xs ++ ys) = textOf xs ++ textOf ys := by
  simp [textOf]

/-- Rows that can be written one page after the other can be written at once, and conversely. -/
theorem writable_append {target : QueueTarget} {xs ys : List (Nat × QueueItem)} {count : Nat}
    {written : Bytes} :
    Writable F target (xs ++ ys) count written ↔ Writable F target xs count written ∧
      Writable F target ys (count + xs.length) (written ++ textOf (receiptLines F xs)) := by
  have htext : written ++ textOf (receiptLines F (xs ++ ys)) =
      written ++ textOf (receiptLines F xs) ++ textOf (receiptLines F ys) := by
    rw [receiptLines_append, textOf_append, List.append_assoc]
  constructor
  · intro h
    have hcount := h.count
    have hsize := h.size
    rw [htext] at hsize
    rw [List.length_append] at hcount
    refine ⟨⟨fun p hp => h.verified p (List.mem_append_left _ hp),
      fun p hp => h.short p (List.mem_append_left _ hp), by omega, ?_⟩,
      fun p hp => h.verified p (List.mem_append_right _ hp),
      fun p hp => h.short p (List.mem_append_right _ hp), by omega, hsize⟩
    rw [List.length_append] at hsize
    omega
  · rintro ⟨hx, hy⟩
    have hcount := hy.count
    refine ⟨fun p hp => ?_, fun p hp => ?_, by rw [List.length_append]; omega, htext ▸ hy.size⟩
    · exact (List.mem_append.1 hp).elim (hx.verified p) (hy.verified p)
    · exact (List.mem_append.1 hp).elim (hx.short p) (hy.short p)

end Lines

/-! ## The table while it grows -/

/-- What other processes do to the tables: nothing, or the archive has more rows behind those it had,
the target is the same, and every active row is pending. An old database may have become a current
one. -/
def Grows (s s' : Stored) : Prop :=
  s' = s ∨ (1 ≤ s.version ∧ 2 ≤ s'.version ∧
    s'.meta?.map (·.targetJson) = s.meta?.map (·.targetJson) ∧ s.archive <+: s'.archive ∧
    ∀ r ∈ s'.items, r.state = .pending)

theorem Grows.trans {s s' s'' : Stored} (h : Grows s s') (h' : Grows s' s'') : Grows s s'' := by
  rcases h with rfl | ⟨hversion, hcurrent, htarget, hprefix, hpending⟩
  · exact h'
  rcases h' with rfl | ⟨-, hversion', htarget', hprefix', hpending'⟩
  · exact .inr ⟨hversion, hcurrent, htarget, hprefix, hpending⟩
  · exact .inr ⟨hversion, hversion', htarget'.trans htarget, hprefix.trans hprefix', hpending'⟩

section Table

variable {s s' : Stored} {fromItems : Bool}

/-- The rows of a table with their numbers, in the order of the numbers. -/
def numbered (rows : List ItemColumns) : List (Nat × ItemColumns) :=
  ((rows.zipIdx 1).map (fun p => (p.2, p.1))).filter (fun p => p.2.state = .sent)

theorem numbered_pairwise (rows : List ItemColumns) :
    ((numbered rows).map (·.1)).Pairwise (· < ·) := by
  have hall : ((rows.zipIdx 1).map (fun p => (p.2, p.1))).map (·.1) =
      List.range' 1 rows.length := by
    rw [List.map_map]
    exact List.zipIdx_map_snd 1 rows
  have hsub : ((numbered rows).map (·.1)).Sublist (List.range' 1 rows.length) := by
    rw [← hall]
    exact List.Sublist.map _ List.filter_sublist
  exact List.Pairwise.sublist hsub List.pairwise_lt_range'

theorem numbered_bounds {rows : List ItemColumns} {p : Nat × ItemColumns} (hp : p ∈ numbered rows) :
    1 ≤ p.1 ∧ p.1 ≤ rows.length := by
  obtain ⟨q, hq, rfl⟩ := List.mem_map.1 (List.mem_filter.1 hp).1
  have hlow := List.le_snd_of_mem_zipIdx hq
  have hhigh := List.snd_lt_of_mem_zipIdx hq
  exact ⟨hlow, by omega⟩

/-- Rows that are added have greater numbers than all that were there. -/
theorem numbered_append (rows more : List ItemColumns) :
    ∃ rest, numbered (rows ++ more) = numbered rows ++ rest ∧ ∀ p ∈ rest, rows.length < p.1 := by
  refine ⟨((more.zipIdx (1 + rows.length)).map (fun p => (p.2, p.1))).filter
    (fun p => p.2.state = .sent), ?_, fun p hp => ?_⟩
  · simp only [numbered, List.zipIdx_append, List.map_append, List.filter_append]
  · obtain ⟨q, hq, rfl⟩ := List.mem_map.1 (List.mem_filter.1 hp).1
    have := List.le_snd_of_mem_zipIdx hq
    show rows.length < q.2
    omega

/-- The last row number of a table. -/
def lastNumber (rows : List (Nat × ItemColumns)) : Nat := ((rows.map (·.1)).max?).getD 0

theorem le_lastNumber {rows : List (Nat × ItemColumns)} {p : Nat × ItemColumns} (hp : p ∈ rows) :
    p.1 ≤ lastNumber rows := by
  have hmem : p.1 ∈ rows.map (·.1) := List.mem_map_of_mem hp
  unfold lastNumber
  rcases hmax : (rows.map (·.1)).max? with _ | m
  · rw [List.max?_eq_none_iff] at hmax
    rw [hmax] at hmem
    cases hmem
  · rw [hmax, Option.getD_some]
    exact (List.max?_eq_some_iff.1 hmax).2 _ hmem

theorem lastNumber_le {rows : List (Nat × ItemColumns)} {n : Nat} (h : ∀ p ∈ rows, p.1 ≤ n) :
    lastNumber rows ≤ n := by
  unfold lastNumber
  rcases hmax : (rows.map (·.1)).max? with _ | m
  · rw [hmax, Option.getD_none]
    exact Nat.zero_le n
  · rw [hmax, Option.getD_some]
    obtain ⟨p, hp, hm⟩ := List.mem_map.1 (List.max?_eq_some_iff.1 hmax).1
    exact hm ▸ h p hp

/-- So many different row numbers are not greater than the last one. -/
theorem length_le_of_increasing {l : List Nat} (low high : Nat) (h : l.Pairwise (· < ·))
    (hl : ∀ n ∈ l, low < n ∧ n ≤ high) : l.length ≤ high - low := by
  induction l generalizing low with
  | nil => simp
  | cons n l ih =>
    obtain ⟨hhead, htail⟩ := List.pairwise_cons.1 h
    have hn := hl n List.mem_cons_self
    have := ih n htail fun m hm => ⟨hhead m hm, (hl m (List.mem_cons_of_mem _ hm)).2⟩
    rw [List.length_cons]
    omega

/-- A later state shows the rows that were there, up to the last one; or the export reads the table of
an old database that has become a current one, and then it shows none. -/
theorem Grows.shows (h : Grows s s') (cursor : Nat) :
    ((s'.sentRows (s.version == 1)).filter
        (fun p => cursor < p.1 ∧ p.1 ≤ lastNumber (s.sentRows (s.version == 1))) =
      (s.sentRows (s.version == 1)).filter (fun p => cursor < p.1)) ∨
      (s.version = 1 ∧ s'.sentRows (s.version == 1) = []) := by
  have hsame : ∀ rows : List (Nat × ItemColumns),
      rows.filter (fun p => cursor < p.1 ∧ p.1 ≤ lastNumber rows) =
        rows.filter (fun p => cursor < p.1) := fun rows =>
    List.filter_congr fun p hp => by simp [le_lastNumber hp]
  rcases h with rfl | ⟨hversion, -, -, ⟨more, hmore⟩, hpending⟩
  · exact .inl (hsame _)
  by_cases hfirst : s.version = 1
  · refine .inr ⟨hfirst, ?_⟩
    have : s'.sentRows (s.version == 1) = numbered s'.items := by simp [hfirst, Stored.sentRows, numbered]
    rw [this, numbered, List.filter_eq_nil_iff]
    intro p hp
    obtain ⟨q, hq, rfl⟩ := List.mem_map.1 hp
    have := hpending q.1 (List.fst_mem_of_mem_zipIdx hq)
    simp [this]
  · left
    have htable : ∀ t : Stored, t.sentRows (s.version == 1) = numbered t.archive := fun t => by
      simp [hfirst, Stored.sentRows, numbered]
    rw [htable, htable, ← hmore]
    obtain ⟨rest, hrest, hgreater⟩ := numbered_append s.archive more
    have hlast : lastNumber (numbered s.archive) ≤ s.archive.length :=
      lastNumber_le fun p hp => (numbered_bounds hp).2
    have hnone : rest.filter (fun p => cursor < p.1 ∧ p.1 ≤ lastNumber (numbered s.archive)) = [] := by
      rw [List.filter_eq_nil_iff]
      intro p hp
      have := hgreater p hp
      simp only [decide_eq_true_eq, not_and]
      omega
    rw [hrest, List.filter_append, hsame, hnone, List.append_nil]

end Table

/-! ## Pages -/

section Pages

variable {F : Formats}

/-- Rows that are read keep their numbers, their identifiers and their objects. -/
theorem decodeRows_keys {rows : List (Nat × ItemColumns)} {items : List (Nat × QueueItem)}
    (h : rows.mapM (decodeRow F) = .ok items) :
    items.map (fun p => (p.1, p.2.id, p.2.kind, p.2.sha256)) =
      rows.map (fun p => (p.1, p.2.id, p.2.kind, p.2.sha256)) := by
  induction rows generalizing items with
  | nil =>
    cases h
    rfl
  | cons p rows ih =>
    rw [List.mapM_cons] at h
    obtain ⟨item, hitem, h⟩ := Result.bind_ok_iff.1 h
    obtain ⟨rest, hrest, h⟩ := Result.bind_ok_iff.1 h
    obtain ⟨value, hvalue, hitem⟩ := Result.bind_ok_iff.1 hitem
    obtain ⟨receipt, -, hvalue⟩ := Result.bind_ok_iff.1 hvalue
    cases hvalue
    cases hitem
    cases h
    rw [List.map_cons, List.map_cons, ih hrest]

theorem decodeRows_numbers {rows : List (Nat × ItemColumns)} {items : List (Nat × QueueItem)}
    (h : rows.mapM (decodeRow F) = .ok items) : items.map (·.1) = rows.map (·.1) := by
  have := congrArg (List.map Prod.fst) (decodeRows_keys h)
  simpa only [List.map_map, Function.comp_def] using this

/-- Two parts of a table are read when the whole is. -/
theorem decodeRows_append {xs ys : List (Nat × ItemColumns)} {items : List (Nat × QueueItem)} :
    (xs ++ ys).mapM (decodeRow F) = .ok items ↔ ∃ as bs, xs.mapM (decodeRow F) = .ok as ∧
      ys.mapM (decodeRow F) = .ok bs ∧ items = as ++ bs := by
  rw [List.mapM_append, Result.bind_ok_iff]
  constructor
  · rintro ⟨as, has, h⟩
    obtain ⟨bs, hbs, h⟩ := Result.bind_ok_iff.1 h
    cases h
    exact ⟨as, bs, has, hbs, rfl⟩
  · rintro ⟨as, bs, has, hbs, rfl⟩
    exact ⟨as, has, Result.bind_ok_iff.2 ⟨bs, hbs, rfl⟩⟩

/-- What is behind the last row of a page is the rest of the table. -/
theorem rest_of_page {table : List (Nat × ItemColumns)} {cursor : Nat} {last : Nat × ItemColumns}
    (hsorted : table.Pairwise (fun p q => p.1 < q.1))
    (hlast : ((table.filter (fun p => cursor < p.1)).take 100).getLast? = some last) :
    table.filter (fun p => last.1 < p.1) = (table.filter (fun p => cursor < p.1)).drop 100 := by
  generalize hrest : table.filter (fun p => cursor < p.1) = rest at hlast ⊢
  have hcursor : cursor < last.1 := by
    have hmem := List.mem_of_mem_take (List.mem_of_getLast? hlast)
    rw [← hrest] at hmem
    simpa using (List.mem_filter.1 hmem).2
  have hfrom : table.filter (fun p => last.1 < p.1) = rest.filter (fun p => last.1 < p.1) := by
    rw [← hrest, List.filter_filter]
    refine List.filter_congr fun p _ => ?_
    by_cases hp : last.1 < p.1
    · simp [hp, hcursor.trans hp]
    · simp [hp]
  have hpairs : (rest.take 100 ++ rest.drop 100).Pairwise (fun p q => p.1 < q.1) := by
    rw [List.take_append_drop, ← hrest]
    exact hsorted.filter _
  obtain ⟨hpage, -, hacross⟩ := List.pairwise_append.1 hpairs
  have hbefore : (rest.take 100).filter (fun p => last.1 < p.1) = [] := by
    rw [List.filter_eq_nil_iff]
    intro p hp
    obtain ⟨front, hfront⟩ := List.getLast?_eq_some_iff.1 hlast
    rw [hfront] at hpage hp
    rcases List.mem_append.1 hp with hp | hp
    · simpa using ((List.pairwise_append.1 hpage).2.2 p hp last (by simp)).le
    · simp [List.mem_singleton.1 hp]
  have hafter : (rest.drop 100).filter (fun p => last.1 < p.1) = rest.drop 100 := by
    rw [List.filter_eq_self]
    intro p hp
    simpa using hacross last (List.mem_of_getLast? hlast) p hp
  calc table.filter (fun p => last.1 < p.1)
      = (rest.take 100 ++ rest.drop 100).filter (fun p => last.1 < p.1) := by
        rw [hfrom, List.take_append_drop]
    _ = rest.drop 100 := by rw [List.filter_append, hbefore, hafter, List.nil_append]

variable {target : QueueTarget} {s₀ : Stored}

/-- The rows of the table that are not written yet. -/
def unwritten (s₀ : Stored) (cursor : Nat) : List (Nat × ItemColumns) :=
  (s₀.sentRows (s₀.version == 1)).filter (fun p => cursor < p.1)

variable (F target) in
/-- The rows, read and written at once behind what was written. -/
def WrittenAtOnce (rows : List (Nat × ItemColumns)) (count : Nat) (written : Bytes)
    (out : Nat × Bytes) : Prop :=
  ∃ items, rows.mapM (decodeRow F) = .ok items ∧ Writable F target items count written ∧
    out = (count + items.length, written ++ textOf (receiptLines F items))

theorem writtenAtOnce_nil {count : Nat} {written : Bytes} {out : Nat × Bytes}
    (hcount : count ≤ maxArchiveItems) (hsize : written.length ≤ maxExport) :
    WrittenAtOnce F target [] count written out ↔ out = (count, written) := by
  constructor
  · rintro ⟨items, hitems, -, rfl⟩
    cases hitems
    simp [textOf, receiptLines]
  · rintro rfl
    exact ⟨[], rfl, ⟨by simp, by simp, by simpa using hcount,
      by simpa [textOf, receiptLines] using hsize⟩, by simp [textOf, receiptLines]⟩

theorem writtenAtOnce_append {xs ys : List (Nat × ItemColumns)} {count : Nat} {written : Bytes}
    {out : Nat × Bytes} :
    WrittenAtOnce F target (xs ++ ys) count written out ↔
      ∃ items, xs.mapM (decodeRow F) = .ok items ∧ Writable F target items count written ∧
        WrittenAtOnce F target ys (count + items.length) (written ++ textOf (receiptLines F items))
          out := by
  have hout : ∀ as bs : List (Nat × QueueItem),
      (count + (as ++ bs).length, written ++ textOf (receiptLines F (as ++ bs))) =
        (count + as.length + bs.length,
          written ++ textOf (receiptLines F as) ++ textOf (receiptLines F bs)) := by
    intro as bs
    rw [receiptLines_append, textOf_append, List.append_assoc, List.length_append, Nat.add_assoc]
  constructor
  · rintro ⟨items, hitems, hwritable, rfl⟩
    obtain ⟨as, bs, has, hbs, rfl⟩ := decodeRows_append.1 hitems
    obtain ⟨hx, hy⟩ := writable_append.1 hwritable
    exact ⟨as, has, hx, bs, hbs, hy, hout as bs⟩
  · rintro ⟨as, has, hx, bs, hbs, hy, rfl⟩
    exact ⟨as ++ bs, decodeRows_append.2 ⟨as, bs, has, hbs, rfl⟩, writable_append.2 ⟨hx, hy⟩,
      (hout as bs).symm⟩

/-- Nothing changes. -/
def Still (R : Stored → Stored → Prop) : Prop := ∀ s s', R s s' → s' = s

/-- The pages of a table that others extend: when all rows were written, they were those that were
there at the start; and when they can be written, they are, unless an old database becomes a current
one meanwhile. -/
theorem exportPages_holds {R : Stored → Stored → Prop} (hR : ∀ s s', R s s' → Grows s s')
    {turns cursor count : Nat} {written : Bytes} {s : Stored}
    (hturns : (unwritten s₀ cursor).length < turns) (hcount : count ≤ maxArchiveItems)
    (hsize : written.length ≤ maxExport) (hs : Grows s₀ s) (hsame : Still R → s = s₀) :
    (exportPages F target (s₀.version == 1) (lastNumber (s₀.sentRows (s₀.version == 1))) turns
      (cursor, count, written)).Holds R
      (fun r _ => (∀ out, r = .ok out → out.1 = count + (unwritten s₀ cursor).length →
          WrittenAtOnce F target (unwritten s₀ cursor) count written out) ∧
        (s₀.version ≠ 1 ∨ Still R → ∀ out,
          WrittenAtOnce F target (unwritten s₀ cursor) count written out → r = .ok out)) s := by
  induction turns generalizing cursor count written s with
  | zero => omega
  | succ turns ih =>
    rw [exportPages]
    refine Task.Holds.bind (Task.Holds.ask fun s' hs' => ?_)
    have hgrows := hs.trans (hR s s' hs')
    have hsame' : Still R → s' = s₀ := fun hstill => (hstill s s' hs').trans (hsame hstill)
    rcases hgrows.shows cursor with hshows | ⟨hfirst, hnone⟩
    · have hpage : exportPage F (s₀.version == 1) cursor
          (lastNumber (s₀.sentRows (s₀.version == 1))) s' =
            ((unwritten s₀ cursor).take 100).mapM (decodeRow F) := by
        rw [exportPage, hshows]
        rfl
      rw [hpage]
      -- The page, and what is left behind it.
      have hsplit := (List.take_append_drop 100 (unwritten s₀ cursor)).symm
      rcases hdecode : ((unwritten s₀ cursor).take 100).mapM (decodeRow F) with e | rows
      · refine ⟨fun out h => (by cases h), fun _ out hout => ?_⟩
        rw [hsplit] at hout
        obtain ⟨items, hitems, -⟩ := writtenAtOnce_append.1 hout
        rw [hdecode] at hitems
        cases hitems
      have hnumbers := decodeRows_numbers hdecode
      have hlength : rows.length = ((unwritten s₀ cursor).take 100).length := by
        have := congrArg List.length hnumbers
        simpa using this
      dsimp only
      by_cases hrows : rows = []
      · subst hrows
        have hnil : unwritten s₀ cursor = [] := by
          rw [List.length_take, List.length_nil] at hlength
          exact List.length_eq_zero_iff.1 (by omega)
        rw [hnil]
        refine Task.Holds.pure ⟨fun out h _ => ?_, fun _ out h => ?_⟩
        · cases h
          exact (writtenAtOnce_nil hcount hsize).2 rfl
        · rw [(writtenAtOnce_nil hcount hsize).1 h]
      · rw [if_neg (by simpa using hrows)]
        refine Task.Holds.bind (Task.Holds.lift ?_)
        rcases hemit : emitRows F target rows (cursor, count, written) with e | progress
        · refine ⟨fun out h => (by cases h), fun _ out hout => ?_⟩
          rw [hsplit] at hout
          obtain ⟨items, hitems, hwritable, -⟩ := writtenAtOnce_append.1 hout
          rw [hdecode] at hitems
          cases hitems
          rw [(emitRows_ok_iff hcount hsize).2 ⟨hwritable, rfl⟩] at hemit
          cases hemit
        · obtain ⟨hwritable, rfl⟩ := (emitRows_ok_iff hcount hsize).1 hemit
          obtain ⟨last, hlast⟩ : ∃ last, ((unwritten s₀ cursor).take 100).getLast? = some last := by
            rcases h : ((unwritten s₀ cursor).take 100).getLast? with _ | last
            · rw [List.getLast?_eq_none_iff] at h
              rw [h] at hlength
              exact (hrows (List.length_eq_zero_iff.1 hlength)).elim
            · exact ⟨last, rfl⟩
          have hcursor : (rows.getLast?.map (·.1)).getD cursor = last.1 := by
            have h1 := congrArg List.getLast? hnumbers
            rw [List.getLast?_map, List.getLast?_map, hlast] at h1
            rw [h1]
            rfl
          have hsorted : (s₀.sentRows (s₀.version == 1)).Pairwise (fun p q => p.1 < q.1) :=
            List.pairwise_map.1 (numbered_pairwise _)
          have hrest : unwritten s₀ last.1 = (unwritten s₀ cursor).drop 100 :=
            rest_of_page hsorted hlast
          have hpositive := List.length_pos_iff.2 hrows
          have hfewer : (unwritten s₀ last.1).length < turns := by
            rw [hrest, List.length_drop]
            rw [List.length_take] at hlength
            omega
          dsimp only
          rw [hcursor]
          refine (ih hfewer hwritable.count hwritable.size hgrows hsame').mono
            fun r _ h => ⟨fun out hr hout => ?_, fun hne out hout => ?_⟩
          · have hrest' : out.1 = count + rows.length + (unwritten s₀ last.1).length := by
              rw [hout, hrest, hlength, List.length_take, List.length_drop]
              omega
            rw [hsplit]
            exact writtenAtOnce_append.2 ⟨rows, hdecode, hwritable, hrest ▸ h.1 out hr hrest'⟩
          · rw [hsplit] at hout
            obtain ⟨items, hitems, -, hmore⟩ := writtenAtOnce_append.1 hout
            rw [hdecode] at hitems
            cases hitems
            exact h.2 hne out (hrest ▸ hmore)
    · -- The table of an old database is empty once it has become a current one.
      have hpage : exportPage F (s₀.version == 1) cursor
          (lastNumber (s₀.sentRows (s₀.version == 1))) s' = .ok [] := by
        rw [exportPage, hnone]
        rfl
      rw [hpage]
      refine Task.Holds.pure ⟨fun out h hout => ?_, fun hkept out hout => ?_⟩
      · cases h
        have hnil : unwritten s₀ cursor = [] :=
          List.length_eq_zero_iff.1 (by dsimp only at hout; omega)
        rw [hnil]
        exact (writtenAtOnce_nil hcount hsize).2 rfl
      · have hstill := hkept.resolve_left fun hne => hne hfirst
        have hnil : unwritten s₀ cursor = [] := by
          rw [hsame' hstill] at hnone
          rw [unwritten, hnone]
          rfl
        rw [hnil] at hout
        rw [(writtenAtOnce_nil hcount hsize).1 hout]

/-! ## The file -/

variable (F) in
/-- What stands before the trailer of the file for these items. -/
def archiveContent (target : QueueTarget) (items : List QueueItem) (exportedAtMs : Nat) : Bytes :=
  lineOf F (.header archiveFormat target items.length exportedAtMs) ++
    (items.map fun item => lineOf F (.receipt item)).flatten

variable (F) in
/-- The trailer line of the file for these items. -/
def archiveTrailer (target : QueueTarget) (items : List QueueItem) (exportedAtMs : Nat) : Bytes :=
  lineOf F (.trailer items.length (F.sha256 (archiveContent F target items exportedAtMs)))

variable (F) in
/-- The items fit the limits on lines and on the file. -/
structure Fits (target : QueueTarget) (items : List QueueItem) (exportedAtMs : Nat) : Prop where
  header : (lineOf F (.header archiveFormat target items.length exportedAtMs)).length ≤ maxLine
  receipts : ∀ item ∈ items, (lineOf F (.receipt item)).length ≤ maxLine
  trailer : (archiveTrailer F target items exportedAtMs).length ≤ maxLine
  count : items.length ≤ maxArchiveItems
  file : (archiveContent F target items exportedAtMs ++
    archiveTrailer F target items exportedAtMs).length ≤ maxExport

/-- The keys of the tables: SQLite keeps the identifiers distinct and the objects distinct. -/
structure Stored.Keyed (s : Stored) : Prop where
  itemIds : (s.items.map (·.id)).Nodup
  itemObjects : (s.items.map (fun r => (r.kind, r.sha256))).Nodup
  archiveIds : (s.archive.map (·.id)).Nodup
  archiveObjects : (s.archive.map (fun r => (r.kind, r.sha256))).Nodup

/-- The rows that are exported have distinct identifiers and distinct objects. -/
theorem Stored.Keyed.sentRows {s : Stored} (h : s.Keyed) (fromItems : Bool) :
    ((s.sentRows fromItems).map (fun p => p.2.id)).Nodup ∧
      ((s.sentRows fromItems).map (fun p => (p.2.kind, p.2.sha256))).Nodup := by
  have hsub : ∀ rows : List ItemColumns, ((numbered rows).map (·.2)).Sublist rows := by
    intro rows
    have hall : ((rows.zipIdx 1).map (fun p => (p.2, p.1))).map (·.2) = rows := by
      rw [List.map_map]
      exact List.zipIdx_map_fst 1 rows
    conv_rhs => rw [← hall]
    exact List.Sublist.map _ List.filter_sublist
  have hkeys : ∀ rows : List ItemColumns, (rows.map (·.id)).Nodup →
      (rows.map (fun r => (r.kind, r.sha256))).Nodup →
      ((numbered rows).map (fun p => p.2.id)).Nodup ∧
        ((numbered rows).map (fun p => (p.2.kind, p.2.sha256))).Nodup := by
    intro rows hids hobjects
    have h1 := ((hsub rows).map (·.id)).nodup hids
    have h2 := ((hsub rows).map (fun r => (r.kind, r.sha256))).nodup hobjects
    rw [List.map_map] at h1 h2
    exact ⟨h1, h2⟩
  cases fromItems with
  | true => exact hkeys s.items h.itemIds h.itemObjects
  | false => exact hkeys s.archive h.archiveIds h.archiveObjects

theorem exportBounds_ok {s : Stored} {bounds : Bounds} (h : exportBounds F s = .ok bounds) :
    (∃ queueMeta, s.meta? = some queueMeta ∧
      F.target.decode queueMeta.targetJson = some bounds.target) ∧
      bounds.fromItems = (s.version == 1) ∧
      bounds.watermark = lastNumber (s.sentRows (s.version == 1)) ∧
      bounds.count = (s.sentRows (s.version == 1)).length := by
  rw [exportBounds] at h
  rcases hmeta : s.meta? with _ | queueMeta
  · simp [hmeta] at h
  simp only [hmeta, Result.bind_ok_iff] at h
  obtain ⟨⟨target, limits⟩, hread, hbounds⟩ := h
  rw [QueueMeta.read] at hread
  rcases hdecode : F.target.decode queueMeta.targetJson with _ | stored
  · simp [hdecode] at hread
  simp only [hdecode, Except.ok.injEq, Prod.mk.injEq] at hread
  obtain ⟨rfl, rfl⟩ := hread
  cases hbounds
  exact ⟨⟨queueMeta, rfl, hdecode⟩, rfl, rfl, rfl⟩

/-- No row is behind the start. -/
theorem unwritten_zero (s : Stored) : unwritten s 0 = s.sentRows (s.version == 1) := by
  rw [unwritten, List.filter_eq_self]
  intro p hp
  have := (numbered_bounds (show p ∈ numbered _ from hp)).1
  simp only [decide_eq_true_eq]
  omega

theorem length_sentRows_le (s : Stored) :
    (s.sentRows (s.version == 1)).length ≤ lastNumber (s.sentRows (s.version == 1)) := by
  have h := length_le_of_increasing 0 (lastNumber (s.sentRows (s.version == 1)))
    (numbered_pairwise (if (s.version == 1) = true then s.items else s.archive)) fun n hn => by
      obtain ⟨p, hp, rfl⟩ := List.mem_map.1 hn
      exact ⟨(numbered_bounds hp).1, le_lastNumber hp⟩
  rw [List.length_map] at h
  exact h

theorem textOf_receiptLines (items : List (Nat × QueueItem)) :
    textOf (receiptLines F items) =
      ((items.map (·.2)).map fun item => lineOf F (.receipt item)).flatten := by
  simp only [textOf, receiptLines, List.map_map]
  rfl

variable (F) in
/-- The rows of the table, read and verified, and short enough to be written. -/
def Exportable (target : QueueTarget) (s : Stored) (exportedAtMs : Nat)
    (items : List (Nat × QueueItem)) : Prop :=
  (s.sentRows (s.version == 1)).mapM (decodeRow F) = .ok items ∧
    (∀ p ∈ items, verifiedItem F p.2 target = .ok ()) ∧
    Fits F target (items.map (·.2)) exportedAtMs

variable (F) in
/-- The file for items and the report of it. -/
def exported (target : QueueTarget) (items : List QueueItem) (exportedAtMs : Nat) :
    Bytes × ArchiveExportReport :=
  let file := archiveContent F target items exportedAtMs ++ archiveTrailer F target items exportedAtMs
  (file, ⟨archiveFormat, items.length, F.sha256 file, file.length, true⟩)

/-- The export writes the rows of the table as it was at the start, or nothing; and it writes them when
they can be written, unless an old database becomes a current one meanwhile. -/
theorem exportRows_holds {R : Stored → Stored → Prop} (hR : ∀ s s', R s s' → Grows s s')
    {bounds : Bounds} (hbounds : exportBounds F s₀ = .ok bounds) {exportedAtMs : Nat} :
    (exportRows F exportedAtMs bounds).Holds R
      (fun r _ => (∀ out, r = .ok out → ∃ items, Exportable F bounds.target s₀ exportedAtMs items ∧
          out = exported F bounds.target (items.map (·.2)) exportedAtMs) ∧
        (s₀.version ≠ 1 ∨ Still R → ∀ items, Exportable F bounds.target s₀ exportedAtMs items →
          ∃ out, r = .ok out)) s₀ := by
  obtain ⟨-, hfrom, hwatermark, hcount⟩ := exportBounds_ok hbounds
  have hitems : ∀ items, (s₀.sentRows (s₀.version == 1)).mapM (decodeRow F) = .ok items →
      items.length = bounds.count := fun items h => by
    have := congrArg List.length (decodeRows_numbers h)
    rw [List.length_map, List.length_map] at this
    rw [this, hcount]
  rw [exportRows]
  refine Task.Holds.bind (Task.Holds.lift ?_)
  rcases hheader : emit F [] (.header archiveFormat bounds.target bounds.count exportedAtMs) with
    e | header
  · refine ⟨fun out h => (by cases h), fun _ items ⟨hdecode, _, hfits⟩ => ?_⟩
    have hlen := hitems items hdecode
    have hline := hfits.header
    have hfile := hfits.file
    rw [archiveContent] at hfile
    simp only [List.length_map, hlen, List.length_append] at hline hfile
    rw [emit_ok_iff.2 ⟨hline, by rw [List.nil_append]; omega, rfl⟩] at hheader
    cases hheader
  obtain ⟨hline, hsize, rfl⟩ := emit_ok_iff.1 hheader
  rw [List.nil_append] at hsize ⊢
  have hturns : (unwritten s₀ 0).length < bounds.watermark + 1 := by
    rw [unwritten_zero, hwatermark]
    have := length_sentRows_le s₀
    omega
  rw [hwatermark] at hturns
  dsimp only
  rw [hfrom, hwatermark]
  refine Task.Holds.bind ((exportPages_holds hR hturns (Nat.zero_le _) hsize (.inl rfl)
    (fun _ => rfl)).mono fun r s' hpages => ?_)
  rw [unwritten_zero] at hpages
  obtain ⟨hall, hcan⟩ := hpages
  -- What was written at once is what the pages wrote.
  have honce : ∀ items, Exportable F bounds.target s₀ exportedAtMs items →
      WrittenAtOnce F bounds.target (s₀.sentRows (s₀.version == 1)) 0
        (lineOf F (.header archiveFormat bounds.target bounds.count exportedAtMs))
        (items.length, archiveContent F bounds.target (items.map (·.2)) exportedAtMs) := by
    intro items ⟨hdecode, hverified, hfits⟩
    have hlen := hitems items hdecode
    have hcontent : lineOf F (.header archiveFormat bounds.target bounds.count exportedAtMs) ++
        textOf (receiptLines F items) =
          archiveContent F bounds.target (items.map (·.2)) exportedAtMs := by
      rw [archiveContent, textOf_receiptLines, List.length_map, hlen]
    have hfile := hfits.file
    have hmany := hfits.count
    rw [List.length_append] at hfile
    rw [List.length_map] at hmany
    refine ⟨items, hdecode, ⟨hverified, fun p hp => hfits.receipts _ (List.mem_map_of_mem hp),
      by omega, by rw [hcontent]; omega⟩, by rw [hcontent, Nat.zero_add]⟩
  cases r with
  | error e =>
    refine ⟨fun out h => (by cases h), fun hkept items hexport => ?_⟩
    have := hcan hkept _ (honce items hexport)
    cases this
  | ok progress =>
    obtain ⟨seen, content⟩ := progress
    dsimp only
    refine Task.Holds.bind (Task.Holds.lift ?_)
    by_cases hseen : seen = bounds.count
    · have hok : refuse (seen != bounds.count) "내보내기 중 수신증명 이력이 변경되었습니다" = .ok () := by
        simp [hseen]
      rw [hok]
      obtain ⟨items, hdecode, hwritable, hout⟩ := hall (seen, content) rfl
        (by rw [Nat.zero_add, ← hcount]; exact hseen)
      have hlen := hitems items hdecode
      have hcontent : content = archiveContent F bounds.target (items.map (·.2)) exportedAtMs := by
        rw [(Prod.mk.inj hout).2, archiveContent, textOf_receiptLines, List.length_map, hlen]
      have hseen' : seen = (items.map (·.2)).length := by
        rw [hseen, ← hlen, List.length_map]
      have huniq : ∀ items', Exportable F bounds.target s₀ exportedAtMs items' → items' = items :=
        fun items' h => by
          have := h.1
          rw [hdecode] at this
          cases this
          rfl
      dsimp only
      refine Task.Holds.bind (Task.Holds.lift ?_)
      rcases htrailer : line F (.trailer seen (F.sha256 content)) with e | trailer
      · refine ⟨fun out h => (by cases h), fun _ items' hexport => ?_⟩
        obtain rfl := huniq items' hexport
        have hshort := hexport.2.2.trailer
        rw [archiveTrailer, ← hcontent, ← hseen'] at hshort
        rw [line_ok_iff.2 ⟨hshort, rfl⟩] at htrailer
        cases htrailer
      obtain ⟨hshort, rfl⟩ := line_ok_iff.1 htrailer
      dsimp only
      refine Task.Holds.bind (Task.Holds.lift ?_)
      by_cases hroom : content.length + (lineOf F (.trailer seen (F.sha256 content))).length ≤ maxExport
      · have hok : refuse (content.length + (lineOf F (.trailer seen (F.sha256 content))).length >
            maxExport) "수신증명 내보내기 크기 상한 초과" = .ok () := by simpa using hroom
        rw [hok]
        refine Task.Holds.pure ⟨fun out h => ?_, fun _ _ _ => ⟨_, rfl⟩⟩
        cases h
        rw [hseen', hcontent] at hshort hroom ⊢
        refine ⟨items, ⟨hdecode, hwritable.verified, ?_, fun item hitem => ?_, hshort, ?_, ?_⟩, rfl⟩
        · rw [List.length_map, hlen]
          exact hline
        · obtain ⟨p, hp, rfl⟩ := List.mem_map.1 hitem
          exact hwritable.short p hp
        · have := hwritable.count
          rw [List.length_map]
          omega
        · rw [List.length_append]
          exact hroom
      · have herr : ∃ e, refuse (content.length +
            (lineOf F (.trailer seen (F.sha256 content))).length > maxExport)
              "수신증명 내보내기 크기 상한 초과" = .error e := by
          refine ⟨.message "수신증명 내보내기 크기 상한 초과", ?_⟩
          rw [refuse, if_pos (by simpa using hroom)]
        obtain ⟨e, herr⟩ := herr
        rw [herr]
        refine ⟨fun out h => (by cases h), fun _ items' hexport => ?_⟩
        obtain rfl := huniq items' hexport
        have hfile := hexport.2.2.file
        rw [archiveTrailer, ← hcontent, ← hseen', List.length_append] at hfile
        exact (hroom hfile).elim
    · have herr : refuse (seen != bounds.count) "내보내기 중 수신증명 이력이 변경되었습니다" =
          .error (.message "내보내기 중 수신증명 이력이 변경되었습니다") := by
        rw [refuse, if_pos (by simpa using hseen)]
      rw [herr]
      refine ⟨fun out h => (by cases h), fun hkept items hexport => ?_⟩
      have := hcan hkept _ (honce items hexport)
      simp only [Except.ok.injEq, Prod.mk.injEq] at this
      exact (hseen (this.1.trans (hitems items hexport.1))).elim

/-- What is exported is well formed. -/
theorem Exportable.wellformed (hF : F.Exports) {s : Stored} {exportedAtMs : Nat}
    {items : List (Nat × QueueItem)} (hkeyed : s.Keyed)
    (h : Exportable F target s exportedAtMs items) (hagent : validId target.agentId)
    (hkey : validId target.keyId) :
    Wellformed F target.pinnedPubkey (exported F target (items.map (·.2)) exportedAtMs).1 target
      (lineOf F (.header archiveFormat target items.length exportedAtMs)) (receiptLines F items)
      (archiveTrailer F target (items.map (·.2)) exportedAtMs) := by
  obtain ⟨hdecode, hverified, hfits⟩ := h
  have hcontent : archiveContent F target (items.map (·.2)) exportedAtMs =
      lineOf F (.header archiveFormat target items.length exportedAtMs) ++
        textOf (receiptLines F items) := by
    rw [archiveContent, textOf_receiptLines, List.length_map]
  have hlength : (receiptLines F items).length = items.length := List.length_map _
  have hmem : ∀ p ∈ receiptLines F items, ∃ q ∈ items, p = (lineOf F (.receipt q.2), q.2) := by
    intro p hp
    obtain ⟨q, hq, rfl⟩ := List.mem_map.1 hp
    exact ⟨q, hq, rfl⟩
  have hkeys := decodeRows_keys hdecode
  obtain ⟨hids, hobjects⟩ := hkeyed.sentRows (s.version == 1)
  refine ⟨by rw [← hcontent]; rfl, hfits.file, fun l hl => ?_, ⟨exportedAtMs, ?_⟩, ?_,
    ⟨rfl, hagent, hkey⟩, fun p hp => ?_, fun p hp => ?_, ?_, ?_, ?_⟩
  · rw [List.mem_append, List.mem_cons, List.mem_map, List.mem_singleton] at hl
    rcases hl with (rfl | ⟨p, hp, rfl⟩) | rfl
    · have := hfits.header
      rw [List.length_map] at this
      exact ⟨hF.isLine _, this⟩
    · obtain ⟨q, hq, rfl⟩ := hmem p hp
      exact ⟨hF.isLine _, hfits.receipts _ (List.mem_map_of_mem hq)⟩
    · exact ⟨hF.isLine _, hfits.trailer⟩
  · rw [hlength]
    exact hF.decode _
  · have := hfits.count
    rw [List.length_map] at this
    rwa [hlength]
  · obtain ⟨q, -, rfl⟩ := hmem p hp
    exact hF.decode _
  · obtain ⟨q, hq, rfl⟩ := hmem p hp
    exact hverified q hq
  · have := congrArg (List.map (fun k => k.2.1)) hkeys
    simp only [List.map_map, Function.comp_def] at this
    simp only [receiptLines, List.map_map, Function.comp_def]
    rw [this]
    exact hids
  · have := congrArg (List.map (fun k => (k.2.2.1, k.2.2.2))) hkeys
    simp only [List.map_map, Function.comp_def] at this
    simp only [receiptLines, List.map_map, Function.comp_def]
    rw [this]
    exact hobjects
  · rw [hlength, ← hcontent, archiveTrailer, List.length_map]
    exact hF.decode _

end Pages

/-! ## The whole export -/

section Whole

variable {F : Formats} {history : Nat → Stored} {exportedAtMs : Nat}

/-- The first two reads of the export. -/
theorem exportArchive_run : (exportArchive F exportedAtMs).run history =
    (do
      validateDatabase F (history 0)
      let bounds ← exportBounds F (history 1)
      (exportRows F exportedAtMs bounds).run (fun n => history (n + 2))) := by
  rw [exportArchive, Task.ask_bind_run]
  refine congrArg _ (funext fun u => ?_)
  rw [Task.ask_bind_run]

/-- The target of the tables. -/
def Stored.target? (F : Formats) (s : Stored) : Option QueueTarget :=
  s.meta?.bind fun queueMeta => F.target.decode queueMeta.targetJson

theorem validateDatabase_target {s : Stored} {target : QueueTarget}
    (h : validateDatabase F s = .ok ()) (htarget : s.target? F = some target) :
    validId target.agentId ∧ validId target.keyId := by
  have hmeta : ∀ {queueMeta : QueueMeta} {active : Nat}, validateMeta F queueMeta active = .ok () →
      F.target.decode queueMeta.targetJson = some target →
      validId target.agentId ∧ validId target.keyId := by
    intro queueMeta active h hdecode
    simp only [validateMeta, QueueMeta.read, hdecode, Result.bind_ok_iff, Except.ok.injEq] at h
    obtain ⟨_, rfl, h⟩ := h
    have := (Result.check_ok_iff.1 (Result.bind_ok_iff.2 h)).1
    simpa using this
  cases s with
  | blank => cases h
  | first queueMeta items clash => exact hmeta h htarget
  | second queueMeta items archive clash => exact hmeta (Result.check_ok_iff.1 h).1 htarget
  | current db => exact hmeta (Result.check_ok_iff.1 h).1 htarget

theorem Grows.target? {s s' : Stored} (h : Grows s s') : s'.target? F = s.target? F := by
  rcases h with rfl | ⟨-, -, h, -⟩
  · rfl
  · have : ∀ t : Stored, t.target? F = (t.meta?.map (·.targetJson)).bind F.target.decode := by
      intro t
      rw [Stored.target?]
      cases t.meta? <;> rfl
    rw [this, this, h]

/-- The file that an export wrote is accepted with the key of the queue, with the numbers of the
export's report. -/
theorem export_accepted (hF : F.Exports) {config : VaultConfig} {target : QueueTarget}
    (htarget : QueueTarget.fromConfig F config = .ok target)
    (hgrows : ∀ n, Grows (history n) (history (n + 1))) (hkeyed : (history 1).Keyed)
    (hpinned : (history 0).target? F = some target) {file : Bytes} {report : ArchiveExportReport}
    (h : (exportArchive F exportedAtMs).run history = .ok (file, report)) :
    ∃ v, verifyArchive F file target.pinnedPubkey = .ok v ∧
      v.archivedItems = report.archivedItems ∧ v.sizeBytes = report.sizeBytes ∧
      v.sha256 = report.sha256 := by
  rw [exportArchive_run] at h
  obtain ⟨hvalid, h⟩ := Result.check_ok_iff.1 h
  obtain ⟨bounds, hbounds, h⟩ := Result.bind_ok_iff.1 h
  obtain ⟨hagent, hid⟩ := validateDatabase_target hvalid hpinned
  have hsame : bounds.target = target := by
    obtain ⟨⟨queueMeta, hmeta, hdecode⟩, -⟩ := exportBounds_ok hbounds
    have h1 := (hgrows 0).target? (F := F)
    rw [hpinned, Stored.target?, hmeta] at h1
    exact Option.some.inj (hdecode.symm.trans h1)
  have hpublic : F.publicKey target.pinnedPubkey = some target.pinnedPubkey := by
    obtain ⟨url, -, htarget⟩ := Result.bind_ok_iff.1 htarget
    obtain ⟨-, htarget⟩ := Result.check_ok_iff.1 htarget
    rcases hkey : F.publicKey config.pinnedPubkey with _ | publicKey
    · simp [hkey] at htarget
    · simp only [hkey] at htarget
      obtain ⟨-, htarget⟩ := Result.check_ok_iff.1 htarget
      cases htarget
      exact hF.publicKey _ _ hkey
  obtain ⟨s, hrun, -⟩ := (exportRows_holds (fun _ _ h => h) hbounds).run
    (hgrows 1) (fun n => hgrows (n + 2))
  obtain ⟨items, hexport, hout⟩ := hrun _ h
  rw [hsame] at hexport hout
  have hwell := hexport.wellformed hF hkeyed hagent hid
  rw [← hout] at hwell
  refine ⟨_, verifyArchive_ok_iff.2 ⟨_, target, _, _, _, hpublic, hwell, rfl⟩, ?_⟩
  cases hout
  rw [verificationOf]
  simp [receiptLines]

end Whole

end Argos.Queue
